import Rhymuri.Lib.Collect
import Rhymuri.PercentEncodedCharacterDecoder

/-!
# Percent-decoding and percent-encoding an element

`src/codec.rs` holds the two routines every component of a URI goes through.
`decode_element` checks an element against the characters allowed in its
context and decodes its percent-encodings; `encode_element` writes a byte string
back, escaping every byte that is not an allowed character as `%XX`.

The decoder is a `filter_map` whose closure keeps two pieces of mutable state,
the flag `decoding_pec` and a `PercentEncodedCharacterDecoder`, collected into a
`Result`. `Rhymuri.decodeStep` is that closure, one character at a time, and
`Rhymuri.decodeElement` runs it with the adaptors of `Rhymuri.Lib.Collect`.

## What the decoder accepts

The intended language is that of `Rhymuri.PctDecodes`: characters of the
allowed set and triples `%` HEXDIG HEXDIG, each decoding to its byte. The
decoder accepts exactly that language **followed by a truncated escape** – a
final `%` or `%h` with nothing after it is silently dropped
(`Rhymuri.decodeElement_eq_ok_iff`). The host parser of
`src/parse_host_port.rs`, which decodes its percent-encodings with the same
decoder, reports the same situation as `Error::TruncatedHost`.

## The round trip

Encoding with an ASCII set that lacks `%`, then decoding with any larger set,
gives the bytes back (`Rhymuri.decodeElement_encodeElement`).
-/

namespace Rhymuri

open PercentEncodedCharacterDecoder

/-! ### The decoder -/

/-- The closure of `decode_element`: in the middle of a percent-encoding the
character goes to the decoder, and the flag is cleared once the decoder returns
a byte or an error (`.transpose().map(..)` touches only a `Some`); otherwise `%`
opens an encoding, an allowed character is its own byte, and anything else is an
illegal character of the context. -/
def decodeStep (allowedCharacters : Char → Bool) (context : Context)
    (st : Bool × PercentEncodedCharacterDecoder) (c : Char) :
    (Bool × PercentEncodedCharacterDecoder) × Option (Except Error UInt8) :=
  let (decodingPec, pecDecoder) := st
  if decodingPec then
    match pecDecoder.next c with
    | (pecDecoder, .ok none) => ((true, pecDecoder), none)
    | (pecDecoder, .ok (some b)) => ((false, pecDecoder), some (.ok b))
    | (pecDecoder, .error e) => ((false, pecDecoder), some (.error e))
  else if c = '%' then ((true, pecDecoder), none)
  else if allowedCharacters c then ((false, pecDecoder), some (.ok (UInt8.ofNat c.toNat)))
  else ((false, pecDecoder), some (.error (.illegalCharacter context)))

/-- `decode_element`. -/
def decodeElement (element : List Char) (allowedCharacters : Char → Bool)
    (context : Context) : Except Error (List UInt8) :=
  collectResult (filterMapScan (decodeStep allowedCharacters context) (false, new) element)

/-- An upper-case hexadecimal digit, as `{:X}` writes it. -/
def hexUpper (n : ℕ) : Char := if n < 10 then Char.ofNat (48 + n) else Char.ofNat (55 + n)

/-- `encode_element`: a byte whose character (`char::from(u8)`) is allowed is
written as that character, any other byte as `%` and two upper-case hexadecimal
digits (`{:02X}`). -/
def encodeElement (element : List UInt8) (allowedCharacters : Char → Bool) : List Char :=
  element.flatMap fun ci =>
    if allowedCharacters (Char.ofNat ci.toNat) then [Char.ofNat ci.toNat]
    else ['%', hexUpper (ci.toNat / 16), hexUpper (ci.toNat % 16)]

example : decodeElement "%41%4a%43%4B".toList pcharNotPctEncoded .path = .ok [65, 74, 67, 75] := by
  decide

example : encodeElement [32, 43, 0xE1] queryNotPctEncodedWithoutPlus = "%20%2B%E1".toList := by
  decide

/-! ### The three states of a run

Between two characters the closure is in one of three states: outside an
encoding, just after a `%`, or after the first digit `h1` of an encoding. Each
lemma below is one transition; all later proofs go through them. -/

section Steps

variable (S : Char → Bool) (ctx : Context)

/-- The run of the closure from a state: the result `decode_element` collects. -/
def decodeRun (st : Bool × PercentEncodedCharacterDecoder) (e : List Char) :
    Except Error (List UInt8) :=
  collectResult (filterMapScan (decodeStep S ctx) st e)

theorem decodeElement_eq_decodeRun (e : List Char) :
    decodeElement e S ctx = decodeRun S ctx (false, new) e := rfl

@[simp] theorem decodeRun_nil (st : Bool × PercentEncodedCharacterDecoder) :
    decodeRun S ctx st [] = .ok [] := rfl

theorem decodeRun_percent (e : List Char) :
    decodeRun S ctx (false, new) ('%' :: e) = decodeRun S ctx (true, new) e := by
  have h : decodeStep S ctx (false, new) '%' = ((true, new), none) := rfl
  simp only [decodeRun]
  rw [filterMapScan_cons_none h]

theorem decodeRun_plain {c : Char} (hc : c ≠ '%') (hS : S c = true) (e : List Char) :
    decodeRun S ctx (false, new) (c :: e) =
      (decodeRun S ctx (false, new) e).map (UInt8.ofNat c.toNat :: ·) := by
  have h : decodeStep S ctx (false, new) c = ((false, new), some (.ok (UInt8.ofNat c.toNat))) := by
    simp [decodeStep, hc, hS]
  simp only [decodeRun]
  rw [filterMapScan_cons_some h, collectResult_cons_ok]

theorem decodeRun_illegal {c : Char} (hc : c ≠ '%') (hS : S c = false) (e : List Char) :
    decodeRun S ctx (false, new) (c :: e) = .error (.illegalCharacter ctx) := by
  have h : decodeStep S ctx (false, new) c = ((false, new), some (.error (.illegalCharacter ctx))) := by
    simp [decodeStep, hc, hS]
  simp only [decodeRun]
  rw [filterMapScan_cons_some h, collectResult_cons_error]

theorem decodeRun_first {c : Char} {v : ℕ} (hv : toDigit 16 c = some v) (e : List Char) :
    decodeRun S ctx (true, new) (c :: e) = decodeRun S ctx (true, ⟨UInt8.ofNat v, 1⟩) e := by
  have h : decodeStep S ctx (true, new) c = ((true, ⟨UInt8.ofNat v, 1⟩), none) := by
    simp [decodeStep, next_new_of_toDigit hv]
  simp only [decodeRun]
  rw [filterMapScan_cons_none h]

theorem decodeRun_second {c : Char} {v w : ℕ} (hw : toDigit 16 c = some w) (e : List Char) :
    decodeRun S ctx (true, ⟨UInt8.ofNat v, 1⟩) (c :: e) =
      (decodeRun S ctx (false, new) e).map (UInt8.ofNat (16 * v + w) :: ·) := by
  have h : decodeStep S ctx (true, ⟨UInt8.ofNat v, 1⟩) c =
      ((false, new), some (.ok (UInt8.ofNat (16 * v + w)))) := by
    simp [decodeStep, next_one_of_toDigit hw]
  simp only [decodeRun]
  rw [filterMapScan_cons_some h, collectResult_cons_ok]

theorem decodeRun_not_hex {st : PercentEncodedCharacterDecoder} {c : Char}
    (hc : toDigit 16 c = none) (e : List Char) :
    decodeRun S ctx (true, st) (c :: e) = .error .illegalPercentEncoding := by
  have h : decodeStep S ctx (true, st) c = ((false, new), some (.error .illegalPercentEncoding)) := by
    simp [decodeStep, next_of_toDigit_none st hc]
  simp only [decodeRun]
  rw [filterMapScan_cons_some h, collectResult_cons_error]

end Steps

/-! ### The pct-encoded language -/

/-- The intended language of an element, with the bytes each word stands for:
characters of the allowed set, each its own byte, and triples `%` `h1` `h2`
of hexadecimal digits, each the byte `16 * h1 + h2`. The digits are read with
`to_digit(16)`, which is defined on exactly the characters of `HEXDIG`
(`Rhymuri.toDigit_sixteen_isSome`). -/
inductive PctDecodes (S : Char → Bool) : List Char → List UInt8 → Prop
  /-- The empty element decodes to no bytes. -/
  | nil : PctDecodes S [] []
  /-- An allowed character is its own byte. -/
  | plain {c : Char} {e : List Char} {d : List UInt8} :
      S c = true → PctDecodes S e d → PctDecodes S (c :: e) (UInt8.ofNat c.toNat :: d)
  /-- A triple `%` `h1` `h2` is the byte `16 * h1 + h2`. -/
  | triple {h1 h2 : Char} {v1 v2 : ℕ} {e : List Char} {d : List UInt8} :
      toDigit 16 h1 = some v1 → toDigit 16 h2 = some v2 → PctDecodes S e d →
      PctDecodes S ('%' :: h1 :: h2 :: e) (UInt8.ofNat (16 * v1 + v2) :: d)

/-- What a run may leave unfinished at the end of an element: nothing, a lone
`%`, or a `%` and one hexadecimal digit. -/
def TruncatedEscape (t : List Char) : Prop :=
  t = [] ∨ t = ['%'] ∨ ∃ h, hexdig h = true ∧ t = ['%', h]

/-- The language the decoder accepts: a word of the pct-encoded language,
followed by an unfinished escape. -/
def DecodesUpToTruncation (S : Char → Bool) (e : List Char) (d : List UInt8) : Prop :=
  ∃ w t, e = w ++ t ∧ PctDecodes S w d ∧ TruncatedEscape t

section Inversion

variable {S : Char → Bool}

theorem truncatedEscape_head {c : Char} {e : List Char} (h : TruncatedEscape (c :: e)) :
    c = '%' ∧ e.length ≤ 1 := by
  rcases h with h | h | ⟨_, _, h⟩ <;> simp_all

theorem pctDecodes_nil_iff {d : List UInt8} : PctDecodes S [] d ↔ d = [] := by
  constructor
  · rintro ⟨⟩
    rfl
  · rintro rfl
    exact .nil

theorem pctDecodes_cons_of_ne {c : Char} (hc : c ≠ '%') {e : List Char} {d : List UInt8} :
    PctDecodes S (c :: e) d ↔ S c = true ∧ ∃ d', d = UInt8.ofNat c.toNat :: d' ∧ PctDecodes S e d' := by
  constructor
  · rintro (_ | ⟨hS, hd⟩ | ⟨_, _, _⟩)
    · exact ⟨hS, _, rfl, hd⟩
    · exact absurd rfl hc
  · rintro ⟨hS, d', rfl, hd⟩
    exact .plain hS hd

theorem pctDecodes_percent {e : List Char} {d : List UInt8} (hS : S '%' = false)
    (h : PctDecodes S ('%' :: e) d) :
    ∃ h1 h2 v1 v2 e' d', toDigit 16 h1 = some v1 ∧ toDigit 16 h2 = some v2 ∧
      e = h1 :: h2 :: e' ∧ d = UInt8.ofNat (16 * v1 + v2) :: d' ∧ PctDecodes S e' d' := by
  rcases h with _ | ⟨hS', _⟩ | ⟨h1, h2, hd⟩
  · exact absurd hS' (by rw [hS]; decide)
  · exact ⟨_, _, _, _, _, _, h1, h2, rfl, rfl, hd⟩

theorem decodesUpToTruncation_nil {d : List UInt8} : DecodesUpToTruncation S [] d ↔ d = [] := by
  constructor
  · rintro ⟨w, t, he, hw, -⟩
    obtain ⟨rfl, rfl⟩ := List.append_eq_nil_iff.mp he.symm
    exact pctDecodes_nil_iff.mp hw
  · rintro rfl
    exact ⟨[], [], rfl, .nil, .inl rfl⟩

theorem decodesUpToTruncation_cons_of_ne {c : Char} (hc : c ≠ '%') {e : List Char}
    {d : List UInt8} :
    DecodesUpToTruncation S (c :: e) d ↔
      S c = true ∧ ∃ d', d = UInt8.ofNat c.toNat :: d' ∧ DecodesUpToTruncation S e d' := by
  constructor
  · rintro ⟨w, t, he, hw, ht⟩
    cases w with
    | nil =>
      rw [List.nil_append] at he
      subst he
      exact absurd (truncatedEscape_head ht).1 hc
    | cons c' w =>
      obtain ⟨rfl, rfl⟩ := List.cons.inj he
      obtain ⟨hS, d', rfl, hw'⟩ := (pctDecodes_cons_of_ne hc).mp hw
      exact ⟨hS, d', rfl, w, t, rfl, hw', ht⟩
  · rintro ⟨hS, d', rfl, w, t, rfl, hw, ht⟩
    exact ⟨c :: w, t, rfl, .plain hS hw, ht⟩

/-- After a `%`, the element decodes exactly when what follows the escape does. -/
theorem decodesUpToTruncation_percent (hS : S '%' = false) {e : List Char} {d : List UInt8} :
    DecodesUpToTruncation S ('%' :: e) d ↔
      (e = [] ∧ d = []) ∨ (∃ h, hexdig h = true ∧ e = [h] ∧ d = []) ∨
      ∃ h1 h2 v1 v2 e' d', toDigit 16 h1 = some v1 ∧ toDigit 16 h2 = some v2 ∧
        e = h1 :: h2 :: e' ∧ d = UInt8.ofNat (16 * v1 + v2) :: d' ∧
        DecodesUpToTruncation S e' d' := by
  constructor
  · rintro ⟨w, t, he, hw, ht⟩
    cases w with
    | nil =>
      rw [List.nil_append] at he
      subst he
      rw [pctDecodes_nil_iff.mp hw]
      rcases ht with h | h | ⟨h, hh, h'⟩
      · exact absurd h (List.cons_ne_nil _ _)
      · exact .inl ⟨(List.cons.inj h).2, rfl⟩
      · exact .inr (.inl ⟨h, hh, (List.cons.inj h').2, rfl⟩)
    | cons c' w =>
      obtain ⟨rfl, rfl⟩ := List.cons.inj he
      obtain ⟨h1, h2, v1, v2, e', d', hv1, hv2, rfl, rfl, hd⟩ := pctDecodes_percent hS hw
      exact .inr (.inr ⟨h1, h2, v1, v2, e' ++ t, d', hv1, hv2, rfl, rfl, e', t, rfl, hd, ht⟩)
  · rintro (⟨rfl, rfl⟩ | ⟨h, hh, rfl, rfl⟩ |
      ⟨h1, h2, v1, v2, e', d', hv1, hv2, rfl, rfl, w, t, rfl, hw, ht⟩)
    · exact ⟨[], ['%'], rfl, .nil, .inr (.inl rfl)⟩
    · exact ⟨[], ['%', h], rfl, .nil, .inr (.inr ⟨h, hh, rfl⟩)⟩
    · exact ⟨'%' :: h1 :: h2 :: w, t, rfl, .triple hv1 hv2 hw, ht⟩

theorem decodesUpToTruncation_percent_nil (hS : S '%' = false) {d : List UInt8} :
    DecodesUpToTruncation S ['%'] d ↔ d = [] := by
  rw [decodesUpToTruncation_percent hS]
  constructor
  · rintro (⟨-, rfl⟩ | ⟨_, _, h, -⟩ | ⟨_, _, _, _, _, _, _, _, h, -⟩)
    · rfl
    · exact absurd h (List.cons_ne_nil _ _).symm
    · exact absurd h (List.cons_ne_nil _ _).symm
  · rintro rfl
    exact .inl ⟨rfl, rfl⟩

theorem decodesUpToTruncation_percent_single (hS : S '%' = false) {h1 : Char} {v : ℕ}
    (hv : toDigit 16 h1 = some v) {d : List UInt8} :
    DecodesUpToTruncation S ['%', h1] d ↔ d = [] := by
  rw [decodesUpToTruncation_percent hS]
  constructor
  · rintro (⟨h, -⟩ | ⟨_, _, _, rfl⟩ | ⟨_, _, _, _, _, _, _, _, h, -⟩)
    · exact absurd h (List.cons_ne_nil _ _)
    · rfl
    · exact absurd (List.cons.inj h).2 (List.cons_ne_nil _ _).symm
  · rintro rfl
    refine .inr (.inl ⟨h1, ?_, rfl, rfl⟩)
    rw [← toDigit_sixteen_isSome, hv]
    rfl

theorem decodesUpToTruncation_percent_not_hex (hS : S '%' = false) {c : Char}
    (hc : toDigit 16 c = none) {e : List Char} {d : List UInt8} :
    ¬ DecodesUpToTruncation S ('%' :: c :: e) d := by
  rw [decodesUpToTruncation_percent hS]
  rintro (⟨h, -⟩ | ⟨h, hh, he, -⟩ | ⟨h1, _, v1, _, _, _, hv1, _, he, -⟩)
  · exact List.cons_ne_nil _ _ h
  · obtain ⟨rfl, -⟩ := List.cons.inj he
    rw [← toDigit_sixteen_isSome, hc] at hh
    exact absurd hh (by decide)
  · obtain ⟨rfl, -⟩ := List.cons.inj he
    rw [hc] at hv1
    exact absurd hv1 (by simp)

theorem decodesUpToTruncation_percent_pair (hS : S '%' = false) {h1 h2 : Char} {v w : ℕ}
    (hv : toDigit 16 h1 = some v) (hw : toDigit 16 h2 = some w) {e : List Char}
    {d : List UInt8} :
    DecodesUpToTruncation S ('%' :: h1 :: h2 :: e) d ↔
      ∃ d', d = UInt8.ofNat (16 * v + w) :: d' ∧ DecodesUpToTruncation S e d' := by
  rw [decodesUpToTruncation_percent hS]
  constructor
  · rintro (⟨h, -⟩ | ⟨_, _, h, -⟩ | ⟨h1', h2', v1, v2, e', d', hv1, hv2, he, rfl, hd⟩)
    · exact absurd h (List.cons_ne_nil _ _)
    · exact absurd (List.cons.inj h).2 (List.cons_ne_nil _ _)
    · obtain ⟨rfl, he'⟩ := List.cons.inj he
      obtain ⟨rfl, rfl⟩ := List.cons.inj he'
      rw [hv] at hv1
      rw [hw] at hv2
      obtain rfl := Option.some.inj hv1
      obtain rfl := Option.some.inj hv2
      exact ⟨d', rfl, hd⟩
  · rintro ⟨d', rfl, hd⟩
    exact .inr (.inr ⟨h1, h2, v, w, e, d', hv, hw, rfl, rfl, hd⟩)

end Inversion

/-! ### What the decoder accepts -/

section Accepts

variable {S : Char → Bool} {ctx : Context}

/-- The invariant of a run, one clause for each of the three states: from each
state, the rest of the element is accepted exactly when, preceded by what the
state has read of an unfinished escape, it is in the language. -/
theorem decodeRun_eq_ok_iff (hS : S '%' = false) (e : List Char) : ∀ d : List UInt8,
    (decodeRun S ctx (false, new) e = .ok d ↔ DecodesUpToTruncation S e d) ∧
    (decodeRun S ctx (true, new) e = .ok d ↔ DecodesUpToTruncation S ('%' :: e) d) ∧
    ∀ h1 v, toDigit 16 h1 = some v →
      (decodeRun S ctx (true, ⟨UInt8.ofNat v, 1⟩) e = .ok d ↔
        DecodesUpToTruncation S ('%' :: h1 :: e) d) := by
  induction e with
  | nil =>
    intro d
    refine ⟨?_, ?_, fun h1 v hv => ?_⟩
    · rw [decodeRun_nil, decodesUpToTruncation_nil, Except.ok.injEq, eq_comm]
    · rw [decodeRun_nil, decodesUpToTruncation_percent_nil hS, Except.ok.injEq, eq_comm]
    · rw [decodeRun_nil, decodesUpToTruncation_percent_single hS hv, Except.ok.injEq, eq_comm]
  | cons c e ih =>
    intro d
    refine ⟨?_, ?_, fun h1 v hv => ?_⟩
    · -- outside an escape: `%` opens one, any other character must be allowed
      by_cases hc : c = '%'
      · subst hc
        rw [decodeRun_percent]
        exact (ih d).2.1
      · rw [decodesUpToTruncation_cons_of_ne hc]
        cases hSc : S c with
        | false =>
          rw [decodeRun_illegal S ctx hc hSc]
          exact iff_of_false (by simp) (by simp)
        | true =>
          rw [decodeRun_plain S ctx hc hSc, Except.map_eq_ok]
          simp only [true_and]
          exact exists_congr fun d' => by rw [(ih d').1, and_comm, eq_comm]
    · -- after `%`: the first digit
      cases hv : toDigit 16 c with
      | none =>
        rw [decodeRun_not_hex S ctx hv]
        exact iff_of_false (by simp) (decodesUpToTruncation_percent_not_hex hS hv)
      | some v =>
        rw [decodeRun_first S ctx hv]
        exact (ih d).2.2 c v hv
    · -- after the first digit: the second completes the byte
      cases hw : toDigit 16 c with
      | none =>
        rw [decodeRun_not_hex S ctx hw]
        refine iff_of_false (by simp) ?_
        rw [decodesUpToTruncation_percent hS]
        rintro (⟨h, -⟩ | ⟨_, _, h, -⟩ | ⟨_, _, _, v2, _, _, _, hv2, he, -⟩)
        · exact List.cons_ne_nil _ _ h
        · exact absurd (List.cons.inj h).2 (List.cons_ne_nil _ _)
        · obtain ⟨-, he⟩ := List.cons.inj he
          obtain ⟨rfl, -⟩ := List.cons.inj he
          rw [hw] at hv2
          exact absurd hv2 (by simp)
      | some w =>
        rw [decodeRun_second S ctx hw, Except.map_eq_ok,
          decodesUpToTruncation_percent_pair hS hv hw]
        exact exists_congr fun d' => by rw [(ih d').1, and_comm, eq_comm]

/-- **What `decode_element` accepts**: an element decodes to `d` exactly when it
is a word of the pct-encoded language decoding to `d`, followed by an unfinished
escape – nothing, `%`, or `%` and one hexadecimal digit. -/
theorem decodeElement_eq_ok_iff (hS : S '%' = false) (e : List Char) (d : List UInt8) :
    decodeElement e S ctx = .ok d ↔ DecodesUpToTruncation S e d :=
  (decodeRun_eq_ok_iff hS e d).1

theorem decodeElement_eq_ok_iff_pct :
    pcharNotPctEncoded '%' = false ∧
      (decodeElement ['%', '4', '1'] pcharNotPctEncoded .path = .ok [65] ↔
        DecodesUpToTruncation pcharNotPctEncoded ['%', '4', '1'] [65]) :=
  ⟨by decide, decodeElement_eq_ok_iff (by decide) _ _⟩

/-- **A truncated escape is dropped.** The element `%` is neither an allowed
character nor a triple, and `decode_element` accepts it, as the empty byte
string. -/
theorem decodeElement_percent_truncated :
    decodeElement ['%'] pcharNotPctEncoded .path = .ok [] ∧
      ∀ d, ¬ PctDecodes pcharNotPctEncoded ['%'] d := by
  refine ⟨by decide, fun d h => ?_⟩
  obtain ⟨_, _, _, _, _, _, _, _, h, -⟩ := pctDecodes_percent (by decide) h
  exact List.cons_ne_nil _ _ h.symm

end Accepts

/-! ### Encoding then decoding -/

theorem toDigit_hexUpper {n : ℕ} (h : n < 16) : toDigit 16 (hexUpper n) = some n := by
  have : n = 0 ∨ n = 1 ∨ n = 2 ∨ n = 3 ∨ n = 4 ∨ n = 5 ∨ n = 6 ∨ n = 7 ∨ n = 8 ∨ n = 9 ∨
      n = 10 ∨ n = 11 ∨ n = 12 ∨ n = 13 ∨ n = 14 ∨ n = 15 := by
    omega
  rcases this with rfl | rfl | rfl | rfl | rfl | rfl | rfl | rfl | rfl | rfl | rfl | rfl |
    rfl | rfl | rfl | rfl <;> decide

theorem hexdig_hexUpper {n : ℕ} (h : n < 16) : hexdig (hexUpper n) = true := by
  rw [← toDigit_sixteen_isSome, toDigit_hexUpper h]
  rfl

/-- **What an encoded element is made of**: a character of it that is neither `%` nor a
hexadecimal digit is an allowed character written for its own byte. -/
theorem mem_encodeElement {S : Char → Bool} {b : List UInt8} {d : Char}
    (h : d ∈ encodeElement b S) (hd : d ≠ '%') (hh : hexdig d = false) :
    S d = true ∧ UInt8.ofNat d.toNat ∈ b := by
  obtain ⟨x, hx, hdx⟩ := List.mem_flatMap.mp h
  by_cases hS : S (Char.ofNat x.toNat) = true
  · rw [if_pos hS, List.mem_singleton] at hdx
    subst hdx
    rw [Char.toNat_ofNat_of_lt x.toNat_lt, UInt8.ofNat_toNat]
    exact ⟨hS, hx⟩
  · -- an escape is `%` and two hexadecimal digits
    have hhi : x.toNat / 16 < 16 := by have := x.toNat_lt; omega
    have hlo : x.toNat % 16 < 16 := Nat.mod_lt _ (by norm_num)
    rw [if_neg hS] at hdx
    simp only [List.mem_cons, List.not_mem_nil, or_false] at hdx
    rcases hdx with rfl | rfl | rfl
    · exact absurd rfl hd
    · exact absurd (hexdig_hexUpper hhi) (by rw [hh]; decide)
    · exact absurd (hexdig_hexUpper hlo) (by rw [hh]; decide)

/-- A character that is not allowed, not `%` and not a hexadecimal digit does not occur in
an encoded element. -/
theorem not_mem_encodeElement {S : Char → Bool} {d : Char} (hS : S d = false) (hd : d ≠ '%')
    (hh : hexdig d = false) (b : List UInt8) : d ∉ encodeElement b S := fun h =>
  absurd (mem_encodeElement h hd hh).1 (by rw [hS]; decide)

@[simp]
theorem encodeElement_nil (S : Char → Bool) : encodeElement [] S = [] := rfl

/-- Every byte is written as at least one character. -/
theorem encodeElement_eq_nil_iff {S : Char → Bool} {b : List UInt8} :
    encodeElement b S = [] ↔ b = [] := by
  rw [encodeElement, List.flatMap_eq_nil_iff]
  constructor
  · intro h
    rcases b with _ | ⟨x, b⟩
    · rfl
    · have hx := h x List.mem_cons_self
      split_ifs at hx
  · rintro rfl
    simp

section RoundTrip

variable {S S' : Char → Bool} {ctx : Context}

theorem encodeElement_cons (x : UInt8) (b : List UInt8) (S : Char → Bool) :
    encodeElement (x :: b) S = encodeElement [x] S ++ encodeElement b S := by
  simp [encodeElement]

/-- One encoded byte decodes to itself, whatever follows it. -/
theorem decodeRun_encodeElement_single (hS : IsAsciiSet S) (hsub : ∀ c, S c = true → S' c = true)
    (x : UInt8) (t : List Char) :
    decodeRun S' ctx (false, new) (encodeElement [x] S ++ t) =
      (decodeRun S' ctx (false, new) t).map (x :: ·) := by
  have hx : (Char.ofNat x.toNat).toNat = x.toNat := Char.toNat_ofNat_of_lt x.toNat_lt
  by_cases hc : S (Char.ofNat x.toNat) = true
  · -- an allowed character stands for itself
    have hne : Char.ofNat x.toNat ≠ '%' := by
      intro he
      rw [he, hS.not_percent] at hc
      exact absurd hc (by decide)
    simp only [encodeElement, List.flatMap_cons, List.flatMap_nil, List.append_nil, if_pos hc,
      List.singleton_append]
    rw [decodeRun_plain S' ctx hne (hsub _ hc), hx, UInt8.ofNat_toNat]
  · -- anything else is `%` and two digits
    have hhi : x.toNat / 16 < 16 := by have := x.toNat_lt; omega
    have hlo : x.toNat % 16 < 16 := Nat.mod_lt _ (by norm_num)
    simp only [encodeElement, List.flatMap_cons, List.flatMap_nil, List.append_nil, if_neg hc,
      List.cons_append, List.nil_append]
    rw [decodeRun_percent, decodeRun_first S' ctx (toDigit_hexUpper hhi),
      decodeRun_second S' ctx (toDigit_hexUpper hlo), Nat.div_add_mod, UInt8.ofNat_toNat]

theorem decodeRun_encodeElement_append (hS : IsAsciiSet S) (hsub : ∀ c, S c = true → S' c = true)
    (b : List UInt8) (t : List Char) :
    decodeRun S' ctx (false, new) (encodeElement b S ++ t) =
      (decodeRun S' ctx (false, new) t).map (b ++ ·) := by
  induction b with
  | nil =>
    rw [show encodeElement [] S = [] from rfl, List.nil_append]
    cases decodeRun S' ctx (false, new) t <;> rfl
  | cons x b ih =>
    rw [encodeElement_cons, List.append_assoc, decodeRun_encodeElement_single hS hsub, ih]
    cases decodeRun S' ctx (false, new) t <;> rfl

/-- Encoding with an ASCII set without `%` and decoding with a larger set gives
the bytes back. -/
theorem decodeElement_encodeElement_of_isAsciiSet (hS : IsAsciiSet S)
    (hsub : ∀ c, S c = true → S' c = true) (b : List UInt8) :
    decodeElement (encodeElement b S) S' ctx = .ok b := by
  have h : decodeRun S' ctx (false, new) (encodeElement b S ++ []) =
      (decodeRun S' ctx (false, new) []).map (b ++ ·) :=
    decodeRun_encodeElement_append hS hsub b []
  rw [List.append_nil, decodeRun_nil] at h
  rw [decodeElement_eq_decodeRun, h]
  exact congrArg Except.ok (List.append_nil b)

end RoundTrip

/-- **The percent-encoding round trip**: for each class the printer encodes with,
and any decoding set containing it, decoding what `encode_element` wrote gives
the bytes back, in every context. -/
theorem decodeElement_encodeElement (S S' : Char → Bool)
    (hS : S = pcharNotPctEncoded ∨ S = queryNotPctEncodedWithoutPlus ∨
      S = queryOrFragmentNotPctEncoded ∨ S = userInfoNotPctEncoded ∨ S = regNameNotPctEncoded)
    (hsub : ∀ c, S c = true → S' c = true) (b : List UInt8) (ctx : Context) :
    decodeElement (encodeElement b S) S' ctx = .ok b := by
  have hascii : IsAsciiSet S := by
    rcases hS with rfl | rfl | rfl | rfl | rfl
    · exact pcharNotPctEncoded_isAsciiSet
    · exact queryNotPctEncodedWithoutPlus_isAsciiSet
    · exact queryOrFragmentNotPctEncoded_isAsciiSet
    · exact userInfoNotPctEncoded_isAsciiSet
    · exact regNameNotPctEncoded_isAsciiSet
  exact decodeElement_encodeElement_of_isAsciiSet hascii hsub b

/-- The round trip at one byte string of each kind, `%` and a non-ASCII byte,
with the path class on both sides. -/
theorem decodeElement_encodeElement_pchar :
    (pcharNotPctEncoded = pcharNotPctEncoded ∨ pcharNotPctEncoded = queryNotPctEncodedWithoutPlus ∨
      pcharNotPctEncoded = queryOrFragmentNotPctEncoded ∨
      pcharNotPctEncoded = userInfoNotPctEncoded ∨ pcharNotPctEncoded = regNameNotPctEncoded) ∧
    (∀ c, pcharNotPctEncoded c = true → pcharNotPctEncoded c = true) ∧
    decodeElement (encodeElement [65, 37, 255] pcharNotPctEncoded) pcharNotPctEncoded .path =
      .ok [65, 37, 255] :=
  ⟨.inl rfl, fun _ h => h,
    decodeElement_encodeElement pcharNotPctEncoded pcharNotPctEncoded (.inl rfl) (fun _ h => h)
      [65, 37, 255] .path⟩

end Rhymuri
