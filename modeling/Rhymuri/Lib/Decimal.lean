import Mathlib.Data.Nat.Digits.Defs
import Rhymuri.Lib.Collect

/-!
# Reading and writing unsigned integers

Two routines of the Rust standard library the URI code leans on:
`char::to_digit`, and `<uN as FromStr>::from_str`, the parser behind
`str::parse::<u8>` and `str::parse::<u16>`. Both are written here as the Rust
documentation and source describe them, so that the acceptance they give the
callers can be checked character by character:

* the text must not be empty (`IntErrorKind::Empty`);
* one leading `+` is allowed, a lone sign is not (`InvalidDigit`);
* every further character must be a decimal digit (`InvalidDigit`), read from
  the left, the value checked against the type's maximum after each digit
  (`PosOverflow`). Leading zeros are read like any other digit.

Printing a number with `{}` writes `Nat.toDigits 10`, and
`Rhymuri.parseUnsigned_toDigits` reads it back: the one round trip the printer of
a port number needs.
-/

namespace Rhymuri

/-- `char::to_digit(radix)`: the value of a digit `0-9`, `a-z` or `A-Z` when it
is below the radix. -/
def toDigit (radix : ℕ) (c : Char) : Option ℕ :=
  let v :=
    if '0' ≤ c ∧ c ≤ '9' then some (c.toNat - '0'.toNat)
    else if 'a' ≤ c ∧ c ≤ 'z' then some (c.toNat - 'a'.toNat + 10)
    else if 'A' ≤ c ∧ c ≤ 'Z' then some (c.toNat - 'A'.toNat + 10)
    else none
  v.filter (· < radix)

/-- The kinds of `ParseIntError` that an unsigned parse can report. -/
inductive IntErrorKind
  /-- The text is empty. -/
  | empty
  /-- A character is not a digit, or the text is a lone sign. -/
  | invalidDigit
  /-- The value exceeds the largest value of the type. -/
  | posOverflow
  deriving DecidableEq, Repr

/-- The digit loop of `from_str_radix`: each digit multiplies the accumulator by
ten and adds itself, and fails as soon as the accumulator passes `max`. -/
def parseDigits (max : ℕ) : List Char → ℕ → Except IntErrorKind ℕ
  | [], acc => .ok acc
  | c :: cs, acc =>
    match toDigit 10 c with
    | none => .error .invalidDigit
    | some x =>
      if max < acc * 10 + x then .error .posOverflow else parseDigits max cs (acc * 10 + x)

/-- `<uN as FromStr>::from_str` for the unsigned type whose largest value is `max`. -/
def parseUnsigned (max : ℕ) (src : List Char) : Except IntErrorKind ℕ :=
  match src with
  | [] => .error .empty
  | ['+'] | ['-'] => .error .invalidDigit
  | '+' :: digits => parseDigits max digits 0
  | digits => parseDigits max digits 0

/-- `str::parse::<u8>`. -/
def parseU8 (src : List Char) : Except IntErrorKind UInt8 :=
  (parseUnsigned 255 src).map UInt8.ofNat

/-- `str::parse::<u16>`. -/
def parseU16 (src : List Char) : Except IntErrorKind UInt16 :=
  (parseUnsigned 65535 src).map UInt16.ofNat

/-- A digit is below its radix. -/
theorem toDigit_lt {radix : ℕ} {c : Char} {v : ℕ} (h : toDigit radix c = some v) : v < radix := by
  simp only [toDigit] at h
  obtain ⟨-, h⟩ := Option.filter_eq_some_iff.mp h
  simpa using h

/-! ### The digit loop -/

theorem toDigit_digitChar {d : ℕ} (h : d < 10) : toDigit 10 (Nat.digitChar d) = some d := by
  have : d = 0 ∨ d = 1 ∨ d = 2 ∨ d = 3 ∨ d = 4 ∨ d = 5 ∨ d = 6 ∨ d = 7 ∨ d = 8 ∨ d = 9 := by
    omega
  rcases this with rfl | rfl | rfl | rfl | rfl | rfl | rfl | rfl | rfl | rfl <;> decide

theorem parseDigits_append (max : ℕ) (xs ys : List Char) (acc : ℕ) :
    parseDigits max (xs ++ ys) acc = (parseDigits max xs acc).bind (parseDigits max ys) := by
  induction xs generalizing acc with
  | nil => rfl
  | cons c cs ih =>
    simp only [List.cons_append, parseDigits]
    cases toDigit 10 c with
    | none => rfl
    | some x =>
      simp only
      split
      · rfl
      · exact ih _

/-- The digits `Nat.toDigits` writes for `n` are read back as `n`, from an empty
accumulator, as long as `n` fits. -/
theorem parseDigits_toDigits (max : ℕ) : ∀ n : ℕ, n ≤ max →
    parseDigits max (Nat.toDigits 10 n) 0 = .ok n := by
  intro n
  induction n using Nat.strong_induction_on with
  | _ n ih =>
    intro hn
    rw [Nat.toDigits_eq_if (by norm_num)]
    split
    · next hlt =>
      simp only [parseDigits, toDigit_digitChar hlt, zero_mul, zero_add]
      rw [if_neg (by omega)]
    · next hge =>
      have hlt : n / 10 < n := Nat.div_lt_self (by omega) (by norm_num)
      have hmod : n % 10 < 10 := Nat.mod_lt n (by norm_num)
      rw [parseDigits_append, ih (n / 10) hlt (by omega)]
      simp only [Except.bind, parseDigits, toDigit_digitChar hmod]
      rw [Nat.div_add_mod' n 10, if_neg (by omega)]

/-- **Printing then parsing an unsigned integer gives it back.** -/
theorem parseUnsigned_toDigits {max n : ℕ} (hn : n ≤ max) :
    parseUnsigned max (Nat.toDigits 10 n) = .ok n := by
  have hd : ∀ c ∈ Nat.toDigits 10 n, c.isDigit := fun c hc =>
    Nat.isDigit_of_mem_toDigits (by norm_num) (by norm_num) hc
  rcases h : Nat.toDigits 10 n with _ | ⟨c, cs⟩
  · exact absurd h Nat.toDigits_ne_nil
  · have hc : c.isDigit := hd c (by rw [h]; exact List.mem_cons_self)
    have hplus : c ≠ '+' := by rintro rfl; exact absurd hc (by decide)
    have hminus : c ≠ '-' := by rintro rfl; exact absurd hc (by decide)
    rw [← parseDigits_toDigits max n hn, h]
    unfold parseUnsigned
    split
    · contradiction
    · next he => exact absurd (List.cons.inj he).1 hplus
    · next he => exact absurd (List.cons.inj he).1 hminus
    · next he => exact absurd (List.cons.inj he).1 hplus
    · rfl

/-- A port printed in decimal is read back. -/
theorem parseU16_toDigits (n : UInt16) : parseU16 (Nat.toDigits 10 n.toNat) = .ok n := by
  have hn : n.toNat ≤ 65535 := by have := n.toNat_lt; omega
  rw [parseU16, parseUnsigned_toDigits hn]
  exact congrArg Except.ok UInt16.ofNat_toNat

end Rhymuri
