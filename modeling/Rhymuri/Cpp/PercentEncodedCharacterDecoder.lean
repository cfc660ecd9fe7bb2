import Rhymuri.CharacterClasses
import Rhymuri.Lib.Fold

/-!
# The C++ percent-encoding decoder and `DecodeElement`

`src/PercentEncodedCharacterDecoder.cpp` is the C++ counterpart of the crate's decoder: an
`int` accumulator shifted left by four for each hexadecimal digit, and a `size_t` count of the
digits still expected, which `Done` compares with zero. Unlike the crate's, it does not reset
itself: its callers make a fresh one at each `%`, and stop feeding it once it is done, so that
the count only ever goes from two to one to zero.

`DecodeElement` in `src/Uri.cpp` copies the allowed characters of an element and decodes each
`%` and two hexadecimal digits into the `char` they denote. A `std::string` is a list of
characters here, one for each `char`, so a decoded byte is the character of that code.

The C++ functions return `false` to fail and leave their output argument half written; the
half-written value is never read after a failure, and a failure is `none` here.
-/

namespace Rhymuri

namespace Cpp

/-- `PercentEncodedCharacterDecoder::Impl`. -/
structure PercentEncodedCharacterDecoder where
  /-- The character decoded so far, an `int`. -/
  decodedCharacter : Int32
  /-- The number of digits still expected, a `size_t`. -/
  digitsLeft : ℕ
  deriving DecidableEq, Repr

namespace PercentEncodedCharacterDecoder

/-- The constructor. -/
def new : PercentEncodedCharacterDecoder := ⟨0, 2⟩

/-- `ShiftInHexDigit`: shift the accumulator, then add the digit from `DIGIT`, `HEX_UPPER`
or `HEX_LOWER`, or fail. -/
def shiftInHexDigit (self : PercentEncodedCharacterDecoder) (c : Char) :
    Option PercentEncodedCharacterDecoder :=
  let decodedCharacter := self.decodedCharacter <<< 4
  if digit c then
    some { self with decodedCharacter := decodedCharacter + Int32.ofNat (c.toNat - '0'.toNat) }
  else if 'A' ≤ c && c ≤ 'F' then
    some { self with
      decodedCharacter := decodedCharacter + (Int32.ofNat (c.toNat - 'A'.toNat) + 10) }
  else if 'a' ≤ c && c ≤ 'f' then
    some { self with
      decodedCharacter := decodedCharacter + (Int32.ofNat (c.toNat - 'a'.toNat) + 10) }
  else none

/-- `NextEncodedCharacter`: shift in one digit, then count it. -/
def nextEncodedCharacter (self : PercentEncodedCharacterDecoder) (c : Char) :
    Option PercentEncodedCharacterDecoder :=
  (self.shiftInHexDigit c).map fun self => { self with digitsLeft := self.digitsLeft - 1 }

/-- `Done`. -/
def done (self : PercentEncodedCharacterDecoder) : Bool := self.digitsLeft == 0

/-- `GetDecodedCharacter`: the accumulator cast to `char`, its low eight bits. -/
def getDecodedCharacter (self : PercentEncodedCharacterDecoder) : Char :=
  Char.ofNat (self.decodedCharacter.toBitVec.toNat % 256)

end PercentEncodedCharacterDecoder

open PercentEncodedCharacterDecoder

/-! ### `DecodeElement` -/

/-- The variables of the loop of `DecodeElement`. -/
structure DecodeLocals where
  /-- Whether the loop is inside a percent-encoding. -/
  decodingPec : Bool
  /-- The decoder of the current percent-encoding. -/
  pecDecoder : PercentEncodedCharacterDecoder
  /-- The decoded element so far. -/
  element : List Char
  deriving DecidableEq, Repr

/-- The body of the loop of `DecodeElement`, on one character; `none` is `return false`. -/
def decodeElementStep (allowedCharacters : Char → Bool) (l : DecodeLocals) (c : Char) :
    Option DecodeLocals :=
  if l.decodingPec then
    match l.pecDecoder.nextEncodedCharacter c with
    | none => none
    | some pecDecoder =>
      if pecDecoder.done then
        some ⟨false, pecDecoder, l.element ++ [pecDecoder.getDecodedCharacter]⟩
      else some { l with pecDecoder }
  else if c = '%' then some { l with decodingPec := true, pecDecoder := new }
  else if allowedCharacters c then some { l with element := l.element ++ [c] }
  else none

/-- `DecodeElement`. -/
def decodeElement (element : List Char) (allowedCharacters : Char → Bool) :
    Option (List Char) :=
  (element.foldlM (decodeElementStep allowedCharacters) ⟨false, new, []⟩).map
    DecodeLocals.element

/-- `DecodeQueryOrFragment`. -/
def decodeQueryOrFragment (queryOrFragment : List Char) : Option (List Char) :=
  decodeElement queryOrFragment queryOrFragmentNotPctEncoded

example : decodeElement ['a', '%', '4', '1', '%', '6', 'a'] pcharNotPctEncoded =
    some ['a', 'A', 'j'] := by
  decide

/-- A text of allowed characters only is copied. -/
theorem decodeElement_of_allowed {allowedCharacters : Char → Bool} {element : List Char}
    (h : ∀ c ∈ element, allowedCharacters c = true) (hpct : '%' ∉ element) :
    decodeElement element allowedCharacters = some element := by
  -- the loop never leaves the plain state, and copies each character
  have hloop : ∀ (pre rest : List Char) (d : PercentEncodedCharacterDecoder),
      (∀ c ∈ rest, allowedCharacters c = true) → '%' ∉ rest →
      rest.foldlM (decodeElementStep allowedCharacters) ⟨false, d, pre⟩ =
        some ⟨false, d, pre ++ rest⟩ := by
    intro pre rest
    induction rest generalizing pre with
    | nil => simp
    | cons c rest ih =>
      intro d hall hnot
      have hc : c ≠ '%' := fun hc => hnot (hc ▸ List.mem_cons_self)
      have hstep : decodeElementStep allowedCharacters ⟨false, d, pre⟩ c =
          some ⟨false, d, pre ++ [c]⟩ := by
        simp [decodeElementStep, hc, hall c List.mem_cons_self]
      rw [List.foldlM_cons, hstep]
      simpa using ih (pre ++ [c]) d (fun x hx => hall x (List.mem_cons_of_mem c hx))
        (fun hx => hnot (List.mem_cons_of_mem c hx))
  simp [decodeElement, hloop [] element new h hpct]

end Cpp

end Rhymuri
