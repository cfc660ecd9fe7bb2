import Mathlib.Data.List.Basic
import Mathlib.Data.List.TakeWhile
import Rhymuri.Lib.Decimal

/-!
# `std::stoi`

`std::stoi(str)` is `std::strtol(str.c_str(), &end, 10)` with two checks: it throws
`std::invalid_argument` when no character was converted and `std::out_of_range` when the value
is not an `int`. `strtol` skips leading white space (`isspace` in the "C" locale), reads one
optional sign, then the longest run of decimal digits, and ignores whatever follows. A call
that throws is `none` here; the value is an `Int` between `INT_MIN` and `INT_MAX`.

So the text that `stoi` accepts is much wider than a run of digits: `" 80"`, `"+80"`, `"-0"`
and `"80x"` all give a value (`Rhymuri.stoi_digits_append`). The other way round, every text
that `str::parse` accepts for a type no wider than `int`, an optional `+` and digits, `stoi`
reads to the same value (`Rhymuri.stoi_of_parseUnsigned`).
-/

namespace Rhymuri

/-- `isspace` in the "C" locale: space, and the controls `\t`, `\n`, `\v`, `\f`, `\r`. -/
def isSpace (c : Char) : Bool :=
  c = ' ' || c = '\t' || c = '\n' || c = '\x0B' || c = '\x0C' || c = '\r'

/-- A decimal digit, as `strtol` in base 10 reads one. -/
def isDecimalDigit (c : Char) : Bool := (toDigit 10 c).isSome

/-- The value of a run of decimal digits, read from the left. -/
def digitsValue (digits : List Char) : ℕ :=
  digits.foldl (fun acc c => acc * 10 + (toDigit 10 c).getD 0) 0

/-- `std::stoi`, in base 10. -/
def stoi (str : List Char) : Option ℤ :=
  let afterSpace := str.dropWhile isSpace
  let (negative, afterSign) : Bool × List Char :=
    match afterSpace with
    | '-' :: rest => (true, rest)
    | '+' :: rest => (false, rest)
    | rest => (false, rest)
  let digits := afterSign.takeWhile isDecimalDigit
  if digits.isEmpty then none
  else
    let value : ℤ := if negative then -(digitsValue digits : ℤ) else digitsValue digits
    if value < -2147483648 ∨ 2147483647 < value then none else some value

example : stoi [' ', '+', '8', '0', 'x'] = some 80 := by decide

example : stoi ['-', '0'] = some 0 := by decide

/-- **`std::stoi` reads a prefix**: a run of digits that denotes an `int` gives its value
whatever follows it, as long as what follows does not start with a digit. -/
theorem stoi_digits_append {digits rest : List Char} (hne : digits ≠ [])
    (hdigits : ∀ c ∈ digits, isDecimalDigit c = true)
    (hrest : ∀ c ∈ rest.head?, isDecimalDigit c = false)
    (hfirst : ∀ c ∈ digits.head?, isSpace c = false ∧ c ≠ '-' ∧ c ≠ '+')
    (hval : digitsValue digits ≤ 2147483647) :
    stoi (digits ++ rest) = some (digitsValue digits : ℤ) := by
  obtain ⟨d, ds, rfl⟩ := List.exists_cons_of_ne_nil hne
  obtain ⟨hspace, hminus, hplus⟩ := hfirst d rfl
  -- nothing is skipped and there is no sign
  have hdrop : (d :: ds ++ rest).dropWhile isSpace = d :: ds ++ rest := by
    simp [hspace]
  have htake : (d :: ds ++ rest).takeWhile isDecimalDigit = d :: ds := by
    rw [List.takeWhile_append_of_pos hdigits]
    cases rest with
    | nil => simp
    | cons r rs => simp [hrest r rfl]
  have hsign : (match d :: ds ++ rest with
      | '-' :: rest => (true, rest)
      | '+' :: rest => (false, rest)
      | rest => (false, rest)) = (false, d :: ds ++ rest) := by
    simp only [List.cons_append]
    split
    · next h => exact absurd (List.cons.inj h).1 hminus
    · next h => exact absurd (List.cons.inj h).1 hplus
    · rfl
  have hlt : ¬((digitsValue (d :: ds) : ℤ) < -2147483648 ∨
      2147483647 < (digitsValue (d :: ds) : ℤ)) := by omega
  simp only [stoi, hdrop, hsign, htake, List.isEmpty_cons, Bool.false_eq_true, if_false,
    if_neg hlt]

/-! ### What `str::parse` accepts -/

/-- The digit loop succeeds on digits only, reads them as `digitsValue` does, and stays within
its bound. -/
theorem parseDigits_eq_ok {max : ℕ} : ∀ {ds : List Char} {acc n : ℕ},
    parseDigits max ds acc = .ok n → acc ≤ max →
      (∀ c ∈ ds, isDecimalDigit c = true) ∧
        ds.foldl (fun acc c => acc * 10 + (toDigit 10 c).getD 0) acc = n ∧ n ≤ max
  | [], acc, n, h, hacc => by
    cases h
    exact ⟨by simp, rfl, hacc⟩
  | c :: cs, acc, n, h, hacc => by
    unfold parseDigits at h
    cases hc : toDigit 10 c with
    | none =>
      rw [hc] at h
      cases h
    | some x =>
      rw [hc] at h
      simp only at h
      split_ifs at h with hmax
      obtain ⟨hall, hfold, hn⟩ := parseDigits_eq_ok h (by omega)
      refine ⟨?_, by simpa [hc] using hfold, hn⟩
      intro d hd
      rcases List.mem_cons.mp hd with rfl | hd
      · simp [isDecimalDigit, hc]
      · exact hall d hd

/-- A digit is not white space and not a sign. -/
theorem isDecimalDigit_first {d : Char} (hd : isDecimalDigit d = true) :
    isSpace d = false ∧ d ≠ '-' ∧ d ≠ '+' := by
  refine ⟨?_, ?_, ?_⟩
  · cases hs : isSpace d
    · rfl
    · simp only [isSpace, Bool.or_eq_true, decide_eq_true_eq] at hs
      rcases hs with ((((rfl | rfl) | rfl) | rfl) | rfl) | rfl <;> exact absurd hd (by decide)
  · rintro rfl
    exact absurd hd (by decide)
  · rintro rfl
    exact absurd hd (by decide)

/-- With its plus sign, `std::stoi` reads a run of digits as without it. -/
theorem stoi_plus_digits {digits : List Char} (hne : digits ≠ [])
    (hdigits : ∀ c ∈ digits, isDecimalDigit c = true) (hval : digitsValue digits ≤ 2147483647) :
    stoi ('+' :: digits) = some (digitsValue digits : ℤ) := by
  have hdrop : ('+' :: digits).dropWhile isSpace = '+' :: digits := by
    simp [isSpace]
  have htake : digits.takeWhile isDecimalDigit = digits := List.takeWhile_eq_self_iff.mpr hdigits
  have hlt : ¬((digitsValue digits : ℤ) < -2147483648 ∨ 2147483647 < (digitsValue digits : ℤ)) := by
    omega
  simp only [stoi, hdrop, htake, List.isEmpty_iff, hne, if_false, Bool.false_eq_true, if_neg hlt]

/-- **What `str::parse` accepts, `std::stoi` reads, to the same value**, for a type no wider
than `int`: an optional `+` and digits, with no white space and no `-`. -/
theorem stoi_of_parseUnsigned {max : ℕ} {src : List Char} {n : ℕ}
    (h : parseUnsigned max src = .ok n) (hmax : max ≤ 2147483647) :
    stoi src = some (n : ℤ) ∧ n ≤ max := by
  unfold parseUnsigned at h
  split at h
  · cases h
  · cases h
  · cases h
  · next digits hne =>
    obtain ⟨hall, hfold, hn⟩ := parseDigits_eq_ok h (Nat.zero_le _)
    have hval : digitsValue digits = n := hfold
    refine ⟨?_, hn⟩
    rw [← hval, stoi_plus_digits hne hall (by omega)]
  · next hnil _ _ _ =>
    obtain ⟨hall, hfold, hn⟩ := parseDigits_eq_ok h (Nat.zero_le _)
    have hval : digitsValue src = n := hfold
    refine ⟨?_, hn⟩
    obtain ⟨d, ds, rfl⟩ := List.exists_cons_of_ne_nil hnil
    have hd := hall d List.mem_cons_self
    have hstoi := @stoi_digits_append (d :: ds) [] (List.cons_ne_nil d ds) hall (by simp)
      (by simpa using isDecimalDigit_first hd) (by omega)
    rwa [List.append_nil, hval] at hstoi

end Rhymuri
