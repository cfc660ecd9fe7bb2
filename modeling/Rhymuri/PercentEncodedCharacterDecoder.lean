import Rhymuri.CharacterClasses
import Rhymuri.Error

/-!
# The two-digit decoder of a percent-encoding

`src/percent_encoded_character_decoder.rs` decodes the two hexadecimal digits
that follow a `%`. The decoder is an object mutated through `&mut self`; here it
is a record, and `next` returns the record it leaves behind together with its
result, so that a caller can keep using the decoder after an error, as Rust
code may.

The byte is built as the source builds it: shift the accumulator left by four
(`u8 <<= 4`, which drops the bits shifted out) and add the digit. Whether that
addition can overflow, and whether `digits_left -= 1` can go below zero, is a
question about which states a run can reach, answered from the equations
proved here; the model itself computes with wrapping `UInt8` and truncating
`ℕ` arithmetic.
-/

namespace Rhymuri

/-- The state of the decoder: the byte decoded so far and the number of digits
still expected. -/
structure PercentEncodedCharacterDecoder where
  /-- The byte decoded so far. -/
  decodedCharacter : UInt8
  /-- The number of hexadecimal digits still expected. -/
  digitsLeft : ℕ
  deriving DecidableEq, Repr

namespace PercentEncodedCharacterDecoder

/-- `PercentEncodedCharacterDecoder::new`. -/
def new : PercentEncodedCharacterDecoder := ⟨0, 2⟩

/-- `reset`: back to the state of `new`. -/
def reset (_ : PercentEncodedCharacterDecoder) : PercentEncodedCharacterDecoder := ⟨0, 2⟩

/-- `shift_in_hex_digit`: shift the accumulator by one hexadecimal place, then add
the digit, or reset and fail when the character is not a hexadecimal digit. -/
def shiftInHexDigit (self : PercentEncodedCharacterDecoder) (c : Char) :
    PercentEncodedCharacterDecoder × Except Error Unit :=
  let self := { self with decodedCharacter := self.decodedCharacter <<< 4 }
  match toDigit 16 c with
  | some ci =>
    ({ self with decodedCharacter := self.decodedCharacter + UInt8.ofNat ci }, .ok ())
  | none => (self.reset, .error .illegalPercentEncoding)

/-- `next`: take one digit. The first digit of a pair gives `Ok(None)`, the second
gives the decoded byte and resets the decoder. -/
def next (self : PercentEncodedCharacterDecoder) (c : Char) :
    PercentEncodedCharacterDecoder × Except Error (Option UInt8) :=
  match self.shiftInHexDigit c with
  | (self, .error e) => (self, .error e)
  | (self, .ok ()) =>
    let self := { self with digitsLeft := self.digitsLeft - 1 }
    if self.digitsLeft = 0 then
      let output := self.decodedCharacter
      (self.reset, .ok (some output))
    else (self, .ok none)

/-! ### What one digit does -/

/-- A character that is not a hexadecimal digit resets the decoder and fails,
whatever the state. -/
theorem next_of_toDigit_none (self : PercentEncodedCharacterDecoder) {c : Char}
    (h : toDigit 16 c = none) : self.next c = (new, .error .illegalPercentEncoding) := by
  simp only [next, shiftInHexDigit, h]
  rfl

/-- The first digit of a pair is stored and nothing is returned. -/
theorem next_new_of_toDigit {c : Char} {v : ℕ} (h : toDigit 16 c = some v) :
    new.next c = (⟨UInt8.ofNat v, 1⟩, .ok none) := by
  simp only [next, shiftInHexDigit, h, new]
  have h0 : ((0 : UInt8) <<< 4) = 0 := rfl
  rw [h0, UInt8.zero_add]
  rfl

/-- The second digit completes the byte `16 * h1 + h2` and resets the decoder. -/
theorem next_one_of_toDigit {c : Char} {v w : ℕ} (h : toDigit 16 c = some w) :
    (⟨UInt8.ofNat v, 1⟩ : PercentEncodedCharacterDecoder).next c =
      (new, .ok (some (UInt8.ofNat (16 * v + w)))) := by
  simp only [next, shiftInHexDigit, h]
  have hb : UInt8.ofNat v <<< 4 + UInt8.ofNat w = UInt8.ofNat (16 * v + w) := by
    apply UInt8.toNat.inj
    have h4 : UInt8.toNat 4 % 8 = 4 := rfl
    simp only [UInt8.toNat_add, UInt8.toNat_shiftLeft, UInt8.toNat_ofNat', Nat.shiftLeft_eq, h4]
    omega
  rw [hb]
  rfl

/-! ### Runs of the decoder

A decoder is created by `new` and then only fed characters, by `decode_element` and by the
host machine alike, and after an error it may be fed more. What it is for is a reader of
pairs of hexadecimal digits that holds the first digit of a pair until the second comes
(`readHex`); every state a run reaches is the image of such a held digit (`ofHeld`), so
that the decoder's two counters never leave the ranges its arithmetic needs. -/

/-- The states a run reaches: `new`, or one stored digit with one digit left. -/
def WellFormed (self : PercentEncodedCharacterDecoder) : Prop :=
  (self.digitsLeft = 2 ∧ self.decodedCharacter = 0) ∨
    (self.digitsLeft = 1 ∧ self.decodedCharacter.toNat < 16)

/-- The decoder run over the characters it is fed, from `self`. -/
def run (self : PercentEncodedCharacterDecoder) (cs : List Char) :
    PercentEncodedCharacterDecoder :=
  cs.foldl (fun d c => (d.next c).1) self

/-- The reader of digit pairs: the first digit of a pair is held, the second gives the
byte `16 * h1 + h2`, and a character that is not a digit drops what is held. -/
def readHex (held : Option ℕ) (c : Char) : Option ℕ × Except Error (Option UInt8) :=
  match toDigit 16 c, held with
  | none, _ => (none, .error .illegalPercentEncoding)
  | some h, none => (some h, .ok none)
  | some h₂, some h₁ => (none, .ok (some (UInt8.ofNat (16 * h₁ + h₂))))

/-- The digit held after the characters `cs`, from nothing held. -/
def held (cs : List Char) : Option ℕ :=
  cs.foldl (fun h c => (readHex h c).1) none

/-- The decoder that holds `held`. -/
def ofHeld : Option ℕ → PercentEncodedCharacterDecoder
  | none => new
  | some v => ⟨UInt8.ofNat v, 1⟩

/-- One character: the decoder holding a digit does what the reader of pairs does. -/
theorem next_ofHeld (held : Option ℕ) (c : Char) :
    (ofHeld held).next c = (ofHeld (readHex held c).1, (readHex held c).2) := by
  cases hc : toDigit 16 c with
  | none => simp only [next_of_toDigit_none _ hc, readHex, hc]; rfl
  | some w =>
    cases held with
    | none => simp only [ofHeld, next_new_of_toDigit hc, readHex, hc]
    | some v => simp only [ofHeld, next_one_of_toDigit hc, readHex, hc]

/-- A whole run: the decoder tracks the reader of pairs, character by character. -/
theorem run_ofHeld (cs : List Char) (h : Option ℕ) :
    run (ofHeld h) cs = ofHeld (cs.foldl (fun h c => (readHex h c).1) h) := by
  induction cs generalizing h with
  | nil => rfl
  | cons c cs ih =>
    simp only [run, List.foldl_cons, next_ofHeld] at ih ⊢
    exact ih _

/-- The reader only ever holds a hexadecimal digit. -/
theorem readHex_lt (h : Option ℕ) (c : Char) : ∀ v ∈ (readHex h c).1, v < 16 := by
  unfold readHex
  split
  · simp
  · next w _ hc => exact fun v hv => Option.some_inj.mp hv ▸ toDigit_lt hc
  · simp

theorem foldl_readHex_lt (cs : List Char) {h : Option ℕ} (hh : ∀ v ∈ h, v < 16) :
    ∀ v ∈ cs.foldl (fun h c => (readHex h c).1) h, v < 16 := by
  induction cs generalizing h with
  | nil => exact hh
  | cons c cs ih => exact ih (readHex_lt h c)

theorem wellFormed_ofHeld {h : Option ℕ} (hh : ∀ v ∈ h, v < 16) : WellFormed (ofHeld h) := by
  cases h with
  | none => exact .inl ⟨rfl, rfl⟩
  | some v =>
    have hv := hh v rfl
    refine .inr ⟨rfl, ?_⟩
    simp only [ofHeld, UInt8.toNat_ofNat']
    omega

/-- **The decoder over any run**: whatever characters it was fed, errors included, it is
well formed, holds the digit that the reader of pairs holds, and answers the next character
as that reader does. -/
theorem next_run (cs : List Char) (c : Char) :
    WellFormed (run new cs) ∧ run new cs = ofHeld (held cs) ∧
      (run new cs).next c = (ofHeld (readHex (held cs) c).1, (readHex (held cs) c).2) := by
  have hrun : run new cs = ofHeld (held cs) := run_ofHeld cs none
  rw [hrun]
  exact ⟨wellFormed_ofHeld (foldl_readHex_lt cs (by simp)), rfl, next_ofHeld _ c⟩

end PercentEncodedCharacterDecoder

/-! ### Hexadecimal digits -/

/-- `to_digit(16)` accepts exactly the characters of `HEXDIG`. -/
theorem toDigit_sixteen_isSome (c : Char) : (toDigit 16 c).isSome = hexdig c := by
  have h0 : '0'.toNat = 48 := rfl
  have h9 : '9'.toNat = 57 := rfl
  have ha : 'a'.toNat = 97 := rfl
  have hf : 'f'.toNat = 102 := rfl
  have hz : 'z'.toNat = 122 := rfl
  have hA : 'A'.toNat = 65 := rfl
  have hF : 'F'.toNat = 70 := rfl
  have hZ : 'Z'.toNat = 90 := rfl
  simp only [toDigit, hexdig, digit, Char.le_iff_toNat_le, h0, h9, ha, hf, hz, hA, hF, hZ]
  rw [Bool.eq_iff_iff]
  -- one case for each range `to_digit` tries, then the radix filter
  split_ifs <;> simp only [Option.filter_some, Option.filter_none, Option.isSome_none,
    Bool.or_eq_true, Bool.and_eq_true, decide_eq_true_eq, Bool.false_eq_true, false_iff] <;>
    first | omega | (split_ifs <;> simp <;> omega)

end Rhymuri
