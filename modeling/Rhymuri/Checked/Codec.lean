import Rhymuri.Codec
import Rhymuri.Lib.Panic

/-!
# The decoder and `decode_element`, with their panics

`shift_in_hex_digit` unwraps `u8::try_from(ci)` and adds the digit with `+=`, and `next`
counts the digit with `digits_left -= 1`; in a debug build an addition that overflows and a
subtraction that goes below zero both panic. Here each of them is the partial operation of
`Rhymuri.Lib.Panic`, so that the decoder returns `none` where the code panics, and
`Rhymuri.Checked.decodeElement` runs the closure of `decode_element` lazily, as `collect`
does, up to the first error.

None of these panics is ever reached. A decoder is made by `new` and then only fed
characters, so it is always `WellFormed`: two digits left and nothing stored, or one digit
left and a stored digit below 16. The shift then leaves at most 240, a hexadecimal digit adds
at most 15, and there is a digit to count
(`Rhymuri.Checked.PercentEncodedCharacterDecoder.next_of_wellFormed`); and every state a step
leaves is well formed again (`Rhymuri.PercentEncodedCharacterDecoder.wellFormed_next`).
-/

namespace Rhymuri

namespace PercentEncodedCharacterDecoder

/-- A well-formed decoder holds a digit below 16, or nothing. -/
theorem WellFormed.exists_ofHeld {self : PercentEncodedCharacterDecoder} (h : WellFormed self) :
    ∃ held : Option ℕ, (∀ v ∈ held, v < 16) ∧ self = ofHeld held := by
  obtain ⟨decodedCharacter, digitsLeft⟩ := self
  rcases h with ⟨h2, h0⟩ | ⟨h1, hlt⟩
  · refine ⟨none, by simp, ?_⟩
    simp only at h2 h0
    rw [h2, h0]
    rfl
  · refine ⟨some decodedCharacter.toNat, fun v hv => Option.some_inj.mp hv ▸ hlt, ?_⟩
    simp only at h1
    rw [h1, ofHeld, UInt8.ofNat_toNat]

/-- **A step keeps the decoder well formed**, whatever the character. -/
theorem wellFormed_next {self : PercentEncodedCharacterDecoder} (h : WellFormed self) (c : Char) :
    WellFormed (self.next c).1 := by
  obtain ⟨held, hheld, rfl⟩ := h.exists_ofHeld
  rw [next_ofHeld]
  exact wellFormed_ofHeld (readHex_lt held c)

end PercentEncodedCharacterDecoder

namespace Checked

namespace PercentEncodedCharacterDecoder

open Rhymuri.PercentEncodedCharacterDecoder (WellFormed new)

/-- `shift_in_hex_digit`, with its panics: the `unwrap` of `u8::try_from(ci)`, and `+=`,
which panics on overflow. -/
def shiftInHexDigit (self : Rhymuri.PercentEncodedCharacterDecoder) (c : Char) :
    Option (Rhymuri.PercentEncodedCharacterDecoder × Except Error Unit) :=
  let self := { self with decodedCharacter := self.decodedCharacter <<< 4 }
  match toDigit 16 c with
  | some ci => do
    let decodedCharacter ← checkedAdd self.decodedCharacter (← u8TryFrom ci)
    pure ({ self with decodedCharacter }, .ok ())
  | none => pure (self.reset, .error .illegalPercentEncoding)

/-- `next`, with its panics: those of `shift_in_hex_digit`, and `digits_left -= 1`, which
panics below zero. -/
def next (self : Rhymuri.PercentEncodedCharacterDecoder) (c : Char) :
    Option (Rhymuri.PercentEncodedCharacterDecoder × Except Error (Option UInt8)) := do
  match ← shiftInHexDigit self c with
  | (self, .error e) => pure (self, .error e)
  | (self, .ok ()) =>
    let self := { self with digitsLeft := ← checkedSub self.digitsLeft 1 }
    if self.digitsLeft = 0 then
      let output := self.decodedCharacter
      pure (self.reset, .ok (some output))
    else pure (self, .ok none)

/-- The shift by one hexadecimal place of a byte below 16 does not lose its bits. -/
theorem toNat_shiftLeft_four {b : UInt8} (h : b.toNat < 16) : (b <<< 4).toNat = 16 * b.toNat := by
  have h4 : UInt8.toNat 4 % 8 = 4 := rfl
  rw [UInt8.toNat_shiftLeft, h4, Nat.shiftLeft_eq]
  omega

/-- **The addition does not overflow**: a stored digit below 16, shifted, leaves room for
one more digit. -/
theorem shiftInHexDigit_of_lt {self : Rhymuri.PercentEncodedCharacterDecoder}
    (h : self.decodedCharacter.toNat < 16) (c : Char) :
    shiftInHexDigit self c = some (self.shiftInHexDigit c) := by
  unfold shiftInHexDigit Rhymuri.PercentEncodedCharacterDecoder.shiftInHexDigit
  cases hc : toDigit 16 c with
  | none => rfl
  | some ci =>
    have hci : ci < 16 := toDigit_lt hc
    have hsum : (self.decodedCharacter <<< 4).toNat + (UInt8.ofNat ci).toNat < 256 := by
      rw [toNat_shiftLeft_four h, UInt8.toNat_ofNat', Nat.mod_eq_of_lt (by omega)]
      omega
    simp only [u8TryFrom_of_lt (Nat.lt_trans hci (by decide)), Option.bind_eq_bind,
      Option.bind_some, checkedAdd_of_lt hsum]
    rfl

/-- A digit shifted in keeps the count of digits left. -/
theorem shiftInHexDigit_digitsLeft {self d : Rhymuri.PercentEncodedCharacterDecoder} {c : Char}
    (h : self.shiftInHexDigit c = (d, .ok ())) : d.digitsLeft = self.digitsLeft := by
  unfold Rhymuri.PercentEncodedCharacterDecoder.shiftInHexDigit at h
  split at h
  · cases h
    rfl
  · simp at h

/-- **A well-formed decoder does not panic**, and answers as the model of the crate. -/
theorem next_of_wellFormed {self : Rhymuri.PercentEncodedCharacterDecoder} (h : WellFormed self)
    (c : Char) : next self c = some (self.next c) := by
  -- a digit below 16 is stored, and at least one digit is left
  have hlt : self.decodedCharacter.toNat < 16 := by
    rcases h with ⟨-, h0⟩ | ⟨-, hlt⟩
    · rw [h0]
      decide
    · exact hlt
  have hleft : 1 ≤ self.digitsLeft := by
    rcases h with ⟨h2, -⟩ | ⟨h1, -⟩ <;> omega
  unfold next Rhymuri.PercentEncodedCharacterDecoder.next
  rw [shiftInHexDigit_of_lt hlt, Option.bind_eq_bind, Option.bind_some]
  rcases hs : self.shiftInHexDigit c with ⟨d, _ | u⟩
  · rfl
  · have hd : 1 ≤ d.digitsLeft := shiftInHexDigit_digitsLeft hs ▸ hleft
    simp only [checkedSub_of_le hd, Option.bind_eq_bind, Option.bind_some]
    split_ifs <;> rfl

end PercentEncodedCharacterDecoder

open Rhymuri.PercentEncodedCharacterDecoder (WellFormed new wellFormed_next)

/-! ### `decode_element` -/

/-- The closure of `decode_element`, with the panics of the decoder. -/
def decodeStep (allowedCharacters : Char → Bool) (context : Context)
    (st : Bool × Rhymuri.PercentEncodedCharacterDecoder) (c : Char) :
    Option ((Bool × Rhymuri.PercentEncodedCharacterDecoder) × Option (Except Error UInt8)) :=
  let (decodingPec, pecDecoder) := st
  if decodingPec then do
    match ← PercentEncodedCharacterDecoder.next pecDecoder c with
    | (pecDecoder, .ok none) => pure ((true, pecDecoder), none)
    | (pecDecoder, .ok (some b)) => pure ((false, pecDecoder), some (.ok b))
    | (pecDecoder, .error e) => pure ((false, pecDecoder), some (.error e))
  else if c = '%' then pure ((true, pecDecoder), none)
  else if allowedCharacters c then pure ((false, pecDecoder), some (.ok (UInt8.ofNat c.toNat)))
  else pure ((false, pecDecoder), some (.error (.illegalCharacter context)))

/-- `decode_element`, with the panics of the decoder: the closure runs up to the first
error. -/
def decodeElement (element : List Char) (allowedCharacters : Char → Bool) (context : Context) :
    ExceptT Error Option (List UInt8) :=
  ExceptT.mk (filterMapCollect (decodeStep allowedCharacters context) (false, new) element)

section Steps

variable (S : Char → Bool) (ctx : Context)

/-- With a well-formed decoder, the closure does not panic. -/
theorem decodeStep_of_wellFormed {st : Bool × Rhymuri.PercentEncodedCharacterDecoder}
    (h : WellFormed st.2) (c : Char) : decodeStep S ctx st c = some (Rhymuri.decodeStep S ctx st c) := by
  obtain ⟨decodingPec, pecDecoder⟩ := st
  unfold decodeStep Rhymuri.decodeStep
  cases decodingPec with
  | false =>
    simp only [Bool.false_eq_true, if_false]
    split_ifs <;> rfl
  | true =>
    simp only [if_true, PercentEncodedCharacterDecoder.next_of_wellFormed h, Option.bind_eq_bind,
      Option.bind_some]
    rcases pecDecoder.next c with ⟨d, _ | _ | b⟩ <;> rfl

/-- The closure keeps the decoder well formed. -/
theorem wellFormed_decodeStep {st : Bool × Rhymuri.PercentEncodedCharacterDecoder}
    (h : WellFormed st.2) (c : Char) : WellFormed (Rhymuri.decodeStep S ctx st c).1.2 := by
  obtain ⟨decodingPec, pecDecoder⟩ := st
  unfold Rhymuri.decodeStep
  cases decodingPec with
  | false =>
    simp only [Bool.false_eq_true, if_false]
    split_ifs <;> exact h
  | true =>
    have hnext := wellFormed_next h c
    simp only [if_true]
    rcases hn : pecDecoder.next c with ⟨d, _ | _ | b⟩ <;> rw [hn] at hnext <;> exact hnext

/-- **`decode_element` never panics**, and returns what the model of the crate returns. -/
theorem run_decodeElement (e : List Char) :
    (decodeElement e S ctx).run = some (Rhymuri.decodeElement e S ctx) :=
  filterMapCollect_eq_some (fun st => WellFormed st.2)
    (fun _ c h => decodeStep_of_wellFormed S ctx h c) (fun _ c h => wellFormed_decodeStep S ctx h c)
    e (false, new) (.inl ⟨rfl, rfl⟩)

end Steps

end Checked

end Rhymuri
