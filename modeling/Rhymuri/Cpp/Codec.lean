import Rhymuri.Cpp.Translation
import Rhymuri.Cpp.PercentEncodedCharacterDecoder
import Rhymuri.Codec

/-!
# The C++ `DecodeElement` and `EncodeElement`, against the crate's

`DecodeElement` and `EncodeElement` of `src/Uri.cpp` are the C++ counterparts of
`decode_element` and `encode_element` of `src/codec.rs`. They work on `std::string`s, where
the crate works on bytes: a decoded byte is pushed as the `char` of its code, and
`EncodeElement` reads each `char` as a `uint8_t`. Read through `Rhymuri.Cpp.ofBytes`, the two
pairs of routines are the same:

* `EncodeElement` of the `char`s of some bytes is `encode_element` of the bytes, for every set
  (`Rhymuri.Cpp.encodeElement_ofBytes`): `MakeHexDigit` of the high and low four bits writes
  the digits `{:02X}` writes;
* `DecodeElement` fails exactly when `decode_element` returns an error, whatever the context
  that error names, and otherwise gives the decoded bytes as `char`s
  (`Rhymuri.Cpp.decodeElement_eq_map_ofBytes`), for a set of one-byte characters, the only
  ones a `std::string` holds.

The C++ decoder is compared with the crate's state by state: outside an encoding, after its
`%`, and after its first digit. The C++ loop keeps its spent decoder after an encoding, where
the crate resets its own, and makes a fresh one at the next `%`; outside an encoding the
decoder is not read, so the first clause of the run lemma holds for any decoder.

From the crate's round trip, the C++ one follows: a string of one-byte characters, encoded
with an ASCII set without `%` and decoded with a larger set, comes back
(`Rhymuri.Cpp.decodeElement_encodeElement_eq_some`).
-/

namespace Rhymuri

namespace Cpp

/-! ### `EncodeElement` -/

/-- `MakeHexDigit`: `(char)(value + '0')` below ten and `(char)(value - 10 + 'A')` from ten on;
the cast to `char` keeps the low eight bits. -/
def makeHexDigit (value : UInt32) : Char :=
  if value < 10 then Char.ofNat ((value + UInt32.ofNat '0'.toNat).toNat % 256)
  else Char.ofNat ((value - 10 + UInt32.ofNat 'A'.toNat).toNat % 256)

/-- `EncodeElement`: each `char`, read as a `uint8_t`, is copied when it is allowed, and
written otherwise as `%` and `MakeHexDigit` of its high and of its low four bits. -/
def encodeElement (element : List Char) (allowedCharacters : Char → Bool) : List Char :=
  element.flatMap fun c =>
    let c := UInt8.ofNat c.toNat
    if allowedCharacters (Char.ofNat c.toNat) then [Char.ofNat c.toNat]
    else ['%', makeHexDigit (c.toUInt32 >>> 4), makeHexDigit (c.toUInt32 &&& 0x0F)]

example : encodeElement [' ', '+', Char.ofNat 0xE1] queryNotPctEncodedWithoutPlus =
    ['%', '2', '0', '%', '2', 'B', '%', 'E', '1'] := by
  decide

theorem makeHexDigit_of_lt {value : UInt32} (h : value.toNat < 16) :
    makeHexDigit value = hexUpper value.toNat := by
  have h0 : (UInt32.ofNat '0'.toNat).toNat = 48 := rfl
  have hA : (UInt32.ofNat 'A'.toNat).toNat = 65 := rfl
  have h10 : (10 : UInt32).toNat = 10 := rfl
  unfold makeHexDigit hexUpper
  by_cases hlt : value.toNat < 10
  · rw [if_pos (UInt32.lt_iff_toNat_lt.mpr hlt), if_pos hlt, UInt32.toNat_add, h0]
    congr 1
    omega
  · have hle : 10 ≤ value := UInt32.le_iff_toNat_le.mpr (by omega)
    rw [if_neg (fun h => hlt (UInt32.lt_iff_toNat_lt.mp h)), if_neg hlt, UInt32.toNat_add,
      UInt32.toNat_sub_of_le _ _ hle, h10, hA]
    congr 1
    omega

theorem makeHexDigit_high (b : UInt8) : makeHexDigit (b.toUInt32 >>> 4) = hexUpper (b.toNat / 16) := by
  have h : (b.toUInt32 >>> 4).toNat = b.toNat / 16 := by
    simp [UInt32.toNat_shiftRight, Nat.shiftRight_eq_div_pow]
  rw [makeHexDigit_of_lt (by have := b.toNat_lt; omega), h]

theorem makeHexDigit_low (b : UInt8) : makeHexDigit (b.toUInt32 &&& 0x0F) = hexUpper (b.toNat % 16) := by
  have h : (b.toUInt32 &&& 0x0F).toNat = b.toNat % 16 := by
    simp only [UInt32.toNat_and, UInt8.toNat_toUInt32]
    exact Nat.and_two_pow_sub_one_eq_mod _ 4
  rw [makeHexDigit_of_lt (by rw [h]; exact Nat.mod_lt _ (by norm_num)), h]

/-- **`EncodeElement` is `encode_element`**, on the `char`s of the bytes, for every set. -/
theorem encodeElement_ofBytes (b : List UInt8) (S : Char → Bool) :
    encodeElement (ofBytes b) S = Rhymuri.encodeElement b S := by
  unfold encodeElement ofBytes Rhymuri.encodeElement
  rw [List.flatMap_map]
  congr 1
  funext x
  simp only [ofNat_toNat_ofNat_toNat, makeHexDigit_high, makeHexDigit_low]

/-- A string of one-byte characters is the string of its bytes. -/
theorem ofBytes_map_ofNat {e : List Char} (he : ∀ c ∈ e, c.toNat < 256) :
    ofBytes (e.map fun c => UInt8.ofNat c.toNat) = e := by
  unfold ofBytes
  rw [List.map_map]
  refine List.map_congr_left (fun c hc => ?_) |>.trans (List.map_id e)
  simp only [Function.comp_apply, UInt8.toNat_ofNat', Nat.mod_eq_of_lt (he c hc), id,
    Char.ofNat_toNat]

/-! ### The digits of the C++ decoder -/

section Digits

variable {c : Char}

theorem toDigit_sixteen_of_digit (h : digit c = true) : toDigit 16 c = some (c.toNat - '0'.toNat) := by
  have h0 : '0'.toNat = 48 := rfl
  have h9 : '9'.toNat = 57 := rfl
  simp only [digit, Bool.and_eq_true, decide_eq_true_eq] at h
  have h' := h
  simp only [Char.le_iff_toNat_le, h0, h9] at h'
  simp only [toDigit, if_pos h, Option.filter_some, h0]
  rw [if_pos (by simp; omega)]

theorem toDigit_sixteen_of_upper (h : ('A' ≤ c && c ≤ 'F') = true) :
    toDigit 16 c = some (c.toNat - 'A'.toNat + 10) := by
  have hA : 'A'.toNat = 65 := rfl
  have hF : 'F'.toNat = 70 := rfl
  have h9 : '9'.toNat = 57 := rfl
  have ha : 'a'.toNat = 97 := rfl
  have hZ : 'Z'.toNat = 90 := rfl
  simp only [Bool.and_eq_true, decide_eq_true_eq, Char.le_iff_toNat_le, hA, hF] at h
  -- not a decimal digit, and not a lower-case letter: the third range of `to_digit`
  have hd : ¬ ('0' ≤ c ∧ c ≤ '9') := by simp only [Char.le_iff_toNat_le, h9]; omega
  have hl : ¬ ('a' ≤ c ∧ c ≤ 'z') := by simp only [Char.le_iff_toNat_le, ha]; omega
  have hu : 'A' ≤ c ∧ c ≤ 'Z' := by simp only [Char.le_iff_toNat_le, hA, hZ]; omega
  simp only [toDigit, if_neg hd, if_neg hl, if_pos hu, Option.filter_some, hA]
  rw [if_pos (by simp; omega)]

theorem toDigit_sixteen_of_lower (h : ('a' ≤ c && c ≤ 'f') = true) :
    toDigit 16 c = some (c.toNat - 'a'.toNat + 10) := by
  have ha : 'a'.toNat = 97 := rfl
  have hf : 'f'.toNat = 102 := rfl
  have h9 : '9'.toNat = 57 := rfl
  have hz : 'z'.toNat = 122 := rfl
  simp only [Bool.and_eq_true, decide_eq_true_eq, Char.le_iff_toNat_le, ha, hf] at h
  have hd : ¬ ('0' ≤ c ∧ c ≤ '9') := by simp only [Char.le_iff_toNat_le, h9]; omega
  have hl : 'a' ≤ c ∧ c ≤ 'z' := by simp only [Char.le_iff_toNat_le, ha, hz]; omega
  simp only [toDigit, if_neg hd, if_pos hl, Option.filter_some, ha]
  rw [if_pos (by simp; omega)]

theorem toDigit_sixteen_eq_none (h : hexdig c = false) : toDigit 16 c = none := by
  rw [← Option.not_isSome_iff_eq_none, toDigit_sixteen_isSome, h]
  decide

end Digits

namespace PercentEncodedCharacterDecoder

/-- **`ShiftInHexDigit` reads a digit as `to_digit(16)` does**: its three ranges are those of
`HEXDIG`, and each adds the value of the digit. -/
theorem shiftInHexDigit_eq (self : PercentEncodedCharacterDecoder) (c : Char) :
    self.shiftInHexDigit c = (toDigit 16 c).map fun v =>
      { self with decodedCharacter := (self.decodedCharacter <<< 4) + Int32.ofNat v } := by
  have h10 : Int32.ofNat 10 = 10 := rfl
  unfold shiftInHexDigit
  split_ifs with hd hu hl
  · rw [toDigit_sixteen_of_digit hd]
    rfl
  · rw [toDigit_sixteen_of_upper hu, Option.map_some, Int32.ofNat_add, h10]
  · rw [toDigit_sixteen_of_lower hl, Option.map_some, Int32.ofNat_add, h10]
  · rw [toDigit_sixteen_eq_none (by simp [hexdig, hd, hu, hl])]
    rfl

theorem nextEncodedCharacter_eq (self : PercentEncodedCharacterDecoder) (c : Char) :
    self.nextEncodedCharacter c = (toDigit 16 c).map fun v =>
      ⟨(self.decodedCharacter <<< 4) + Int32.ofNat v, self.digitsLeft - 1⟩ := by
  rw [nextEncodedCharacter, shiftInHexDigit_eq, Option.map_map]
  rfl

/-- The byte of two digits, as the `char` the accumulator is cast to. -/
theorem getDecodedCharacter_two_digits {v w : ℕ} (hv : v < 16) (hw : w < 16) (n : ℕ) :
    getDecodedCharacter ⟨(Int32.ofNat v <<< 4) + Int32.ofNat w, n⟩ = Char.ofNat (16 * v + w) := by
  have h : ((Int32.ofNat v <<< 4) + Int32.ofNat w).toBitVec.toNat % 256 = 16 * v + w := by
    simp only [Int32.toBitVec_add, Int32.toBitVec_shiftLeft, BitVec.toNat_add,
      Int32.toBitVec_ofNat]
    simp [Nat.shiftLeft_eq]
    omega
  rw [getDecodedCharacter, h]

end PercentEncodedCharacterDecoder

open Rhymuri.Cpp.PercentEncodedCharacterDecoder

/-! ### The three states of the C++ loop

Each lemma is one transition of the loop of `DecodeElement`, the counterpart of one of the
`Rhymuri.decodeRun` lemmas. -/

namespace DecodeLocals

section Steps

variable (S : Char → Bool) (acc : List Char)

theorem step_percent (d : PercentEncodedCharacterDecoder) :
    decodeElementStep S ⟨false, d, acc⟩ '%' = some ⟨true, new, acc⟩ := rfl

theorem step_plain (d : PercentEncodedCharacterDecoder) {c : Char} (hc : c ≠ '%')
    (hS : S c = true) : decodeElementStep S ⟨false, d, acc⟩ c = some ⟨false, d, acc ++ [c]⟩ := by
  simp [decodeElementStep, hc, hS]

theorem step_illegal (d : PercentEncodedCharacterDecoder) {c : Char} (hc : c ≠ '%')
    (hS : S c = false) : decodeElementStep S ⟨false, d, acc⟩ c = none := by
  simp [decodeElementStep, hc, hS]

theorem step_not_hex (d : PercentEncodedCharacterDecoder) {c : Char} (hc : toDigit 16 c = none) :
    decodeElementStep S ⟨true, d, acc⟩ c = none := by
  simp [decodeElementStep, nextEncodedCharacter_eq, hc]

theorem step_first {c : Char} {v : ℕ} (hv : toDigit 16 c = some v) :
    decodeElementStep S ⟨true, new, acc⟩ c = some ⟨true, ⟨Int32.ofNat v, 1⟩, acc⟩ := by
  have h0 : (0 : Int32) <<< 4 = 0 := by decide
  simp [decodeElementStep, nextEncodedCharacter_eq, hv, new, done, h0]

theorem step_second {c : Char} {v w : ℕ} (hv : v < 16) (hw : toDigit 16 c = some w) :
    decodeElementStep S ⟨true, ⟨Int32.ofNat v, 1⟩, acc⟩ c =
      some ⟨false, ⟨(Int32.ofNat v <<< 4) + Int32.ofNat w, 0⟩, acc ++ [Char.ofNat (16 * v + w)]⟩ := by
  simp [decodeElementStep, nextEncodedCharacter_eq, hw, done,
    getDecodedCharacter_two_digits hv (toDigit_lt hw)]

end Steps

end DecodeLocals

open DecodeLocals

/-! ### The two loops -/

/-- What the crate's run yields, read as it is pushed onto the C++ element so far. -/
theorem toOption_map_cons (x : Except Error (List UInt8)) (b : UInt8) (acc : List Char) :
    (x.map (b :: ·)).toOption.map (acc ++ ofBytes ·) =
      x.toOption.map ((acc ++ [Char.ofNat b.toNat]) ++ ofBytes ·) := by
  cases x <;> simp [Except.map, Except.toOption, ofBytes]

section Run

variable {S : Char → Bool} {ctx : Context}

/-- **The run lemma**: the C++ loop, from each of the three states, yields what the crate's
run yields from the same state, pushed as `char`s onto the element so far. The induction is
on the rest of the element, one case for each transition; outside an encoding the C++
decoder may be any. -/
theorem foldlM_decodeElementStep (hS : ∀ c, S c = true → c.toNat < 256) (e : List Char) :
    ∀ acc : List Char,
      (∀ d, (e.foldlM (decodeElementStep S) ⟨false, d, acc⟩).map DecodeLocals.element =
        (decodeRun S ctx (false, .new) e).toOption.map (acc ++ ofBytes ·)) ∧
      (e.foldlM (decodeElementStep S) ⟨true, new, acc⟩).map DecodeLocals.element =
        (decodeRun S ctx (true, .new) e).toOption.map (acc ++ ofBytes ·) ∧
      ∀ v < 16, (e.foldlM (decodeElementStep S) ⟨true, ⟨Int32.ofNat v, 1⟩, acc⟩).map
          DecodeLocals.element =
        (decodeRun S ctx (true, ⟨UInt8.ofNat v, 1⟩) e).toOption.map (acc ++ ofBytes ·) := by
  induction e with
  | nil =>
    -- an unfinished escape at the end is dropped by both loops
    intro acc
    simp [Except.toOption]
  | cons c e ih =>
    intro acc
    refine ⟨fun d => ?_, ?_, fun v hv => ?_⟩
    · -- outside an escape: `%` opens one, any other character must be allowed
      by_cases hc : c = '%'
      · subst hc
        rw [List.foldlM_cons, step_percent, Option.bind_eq_bind, Option.bind_some, decodeRun_percent]
        exact (ih acc).2.1
      cases hSc : S c with
      | false =>
        rw [List.foldlM_cons, step_illegal S acc d hc hSc, decodeRun_illegal S ctx hc hSc]
        rfl
      | true =>
        have hchar : Char.ofNat (UInt8.ofNat c.toNat).toNat = c := by
          rw [UInt8.toNat_ofNat', Nat.mod_eq_of_lt (hS c hSc), Char.ofNat_toNat]
        rw [List.foldlM_cons, step_plain S acc d hc hSc, Option.bind_eq_bind, Option.bind_some,
          decodeRun_plain S ctx hc hSc, toOption_map_cons, hchar]
        exact (ih (acc ++ [c])).1 d
    · -- after `%`: the first digit
      cases hv : toDigit 16 c with
      | none =>
        rw [List.foldlM_cons, step_not_hex S acc new hv, decodeRun_not_hex S ctx hv]
        rfl
      | some v =>
        rw [List.foldlM_cons, step_first S acc hv, Option.bind_eq_bind, Option.bind_some, decodeRun_first S ctx hv]
        exact (ih acc).2.2 v (toDigit_lt hv)
    · -- after the first digit: the second completes the byte
      cases hw : toDigit 16 c with
      | none =>
        rw [List.foldlM_cons, step_not_hex S acc _ hw, decodeRun_not_hex S ctx hw]
        rfl
      | some w =>
        have hbyte : 16 * v + w < 256 := by have := toDigit_lt hw; omega
        have hchar : Char.ofNat (UInt8.ofNat (16 * v + w)).toNat = Char.ofNat (16 * v + w) := by
          rw [UInt8.toNat_ofNat', Nat.mod_eq_of_lt hbyte]
        rw [List.foldlM_cons, step_second S acc hv hw, Option.bind_eq_bind, Option.bind_some,
          decodeRun_second S ctx hw, toOption_map_cons, hchar]
        exact (ih _).1 _

/-- **`DecodeElement` is `decode_element`**: for a set of one-byte characters, the C++ decoder
fails exactly when the crate's returns an error, in any context, and otherwise yields the
decoded bytes as `char`s. -/
theorem decodeElement_eq_map_ofBytes (hS : ∀ c, S c = true → c.toNat < 256) (e : List Char)
    (ctx : Context) :
    decodeElement e S = (Rhymuri.decodeElement e S ctx).toOption.map ofBytes := by
  have h := (@foldlM_decodeElementStep S ctx hS e []).1 new
  rw [decodeElement, decodeElement_eq_decodeRun]
  simpa only [List.nil_append] using h

/-- **The C++ round trip**: a string of one-byte characters, encoded with an ASCII set without
`%` and decoded with any larger set of one-byte characters, comes back. -/
theorem decodeElement_encodeElement_eq_some {S' : Char → Bool} (hS : IsAsciiSet S)
    (hsub : ∀ c, S c = true → S' c = true) (hS' : ∀ c, S' c = true → c.toNat < 256)
    {e : List Char} (he : ∀ c ∈ e, c.toNat < 256) :
    decodeElement (encodeElement e S) S' = some e := by
  -- the string is the `char`s of its bytes, and both routines are the crate's on bytes
  have hbytes := ofBytes_map_ofNat he
  have hrun := (@foldlM_decodeElementStep S' .path hS' (encodeElement e S) []).1 new
  rw [← hbytes, encodeElement_ofBytes] at hrun ⊢
  rw [decodeElement, hrun, ← decodeElement_eq_decodeRun,
    decodeElement_encodeElement_of_isAsciiSet hS hsub]
  rfl

theorem decodeElement_encodeElement_eq_some_space :
    (IsAsciiSet pcharNotPctEncoded ∧ (∀ c, pcharNotPctEncoded c = true →
        queryOrFragmentNotPctEncoded c = true) ∧
      (∀ c, queryOrFragmentNotPctEncoded c = true → c.toNat < 256) ∧
      ∀ c ∈ ['a', ' ', '/'], c.toNat < 256) ∧
    decodeElement (encodeElement ['a', ' ', '/'] pcharNotPctEncoded) queryOrFragmentNotPctEncoded =
      some ['a', ' ', '/'] := by
  have hsub : ∀ c, pcharNotPctEncoded c = true → queryOrFragmentNotPctEncoded c = true := by
    intro c hc
    simp [queryOrFragmentNotPctEncoded, hc]
  have hS' : ∀ c, queryOrFragmentNotPctEncoded c = true → c.toNat < 256 :=
    fun c hc => (queryOrFragmentNotPctEncoded_isAsciiSet.ascii c hc).trans (by norm_num)
  have he : ∀ c ∈ ['a', ' ', '/'], c.toNat < 256 := by simp
  exact ⟨⟨pcharNotPctEncoded_isAsciiSet, hsub, hS', he⟩,
    decodeElement_encodeElement_eq_some pcharNotPctEncoded_isAsciiSet hsub hS' he⟩

end Run

end Cpp

end Rhymuri
