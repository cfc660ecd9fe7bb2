import Mathlib.Data.List.Basic

/-!
# The character classes of RFC 3986

`src/character_classes.rs` builds each class of the RFC grammar as a static
`HashSet<char>`, by chaining ranges and literal lists. A class is used only
through `contains`, so it is modelled as its membership test, a function
`Char → Bool`, written with the same ranges and the same lists in the same
order as the source.

Every class is a set of ASCII characters, and none holds `%`: the two facts
(`Rhymuri.IsAsciiSet`) that make percent-encoding with these classes
unambiguous. They are proved once for each class that the printer and the
decoder use.
-/

namespace Rhymuri

/-! ### Characters as numbers -/

theorem Char.le_iff_toNat_le {a b : Char} : a ≤ b ↔ a.toNat ≤ b.toNat := by
  rw [Char.le_def, UInt32.le_iff_toNat_le]
  rfl

/-- A byte read as a character (`char::from(u8)`) has the byte as its code. -/
theorem Char.toNat_ofNat_of_lt {n : ℕ} (h : n < 256) : (Char.ofNat n).toNat = n := by
  have hv : n.isValidChar := Or.inl (by omega)
  rw [Char.ofNat, dif_pos hv]
  rfl

/-! ### The classes -/

/-- `ALPHA`: `'a'..='z'` chained with `'A'..='Z'`. -/
def alpha (c : Char) : Bool := ('a' ≤ c && c ≤ 'z') || ('A' ≤ c && c ≤ 'Z')

/-- `DIGIT`: `'0'..='9'`. -/
def digit (c : Char) : Bool := '0' ≤ c && c ≤ '9'

/-- `HEXDIG`: the digits chained with `'A'..='F'` and `'a'..='f'`. -/
def hexdig (c : Char) : Bool := digit c || ('A' ≤ c && c ≤ 'F') || ('a' ≤ c && c ≤ 'f')

/-- `UNRESERVED`: letters, digits and `- . _ ~`. -/
def unreserved (c : Char) : Bool := alpha c || digit c || ['-', '.', '_', '~'].elem c

/-- `SUB_DELIMS`. The apostrophe is written `Char.ofNat 39`. -/
def subDelims (c : Char) : Bool :=
  ['!', '$', '&', Char.ofNat 39, '(', ')', '*', '+', ',', ';', '='].elem c

/-- `SCHEME_NOT_FIRST`: letters, digits and `+ - .`. -/
def schemeNotFirst (c : Char) : Bool := alpha c || digit c || ['+', '-', '.'].elem c

/-- `PCHAR_NOT_PCT_ENCODED`: unreserved, sub-delims, `:` and `@`. -/
def pcharNotPctEncoded (c : Char) : Bool := unreserved c || subDelims c || [':', '@'].elem c

/-- `QUERY_OR_FRAGMENT_NOT_PCT_ENCODED`: a `pchar`, `/` or `?`. -/
def queryOrFragmentNotPctEncoded (c : Char) : Bool := pcharNotPctEncoded c || ['/', '?'].elem c

/-- `QUERY_NOT_PCT_ENCODED_WITHOUT_PLUS`: the query characters except `+`, which
some services read as a space. -/
def queryNotPctEncodedWithoutPlus (c : Char) : Bool :=
  unreserved c ||
    ['!', '$', '&', Char.ofNat 39, '(', ')', '*', ',', ';', '=', ':', '@', '/', '?'].elem c

/-- `USER_INFO_NOT_PCT_ENCODED`: unreserved, sub-delims and `:`. -/
def userInfoNotPctEncoded (c : Char) : Bool := unreserved c || subDelims c || [':'].elem c

/-- `REG_NAME_NOT_PCT_ENCODED`: unreserved and sub-delims. -/
def regNameNotPctEncoded (c : Char) : Bool := unreserved c || subDelims c

/-- `IPV_FUTURE_LAST_PART`: unreserved, sub-delims and `:`. -/
def ipvFutureLastPart (c : Char) : Bool := unreserved c || subDelims c || [':'].elem c

/-! ### ASCII sets without `%` -/

/-- A character set fit for percent-encoding: only ASCII characters, and not `%`. -/
structure IsAsciiSet (s : Char → Bool) : Prop where
  ascii : ∀ c, s c = true → c.toNat < 128
  not_percent : s '%' = false

theorem alpha_ascii {c : Char} (h : alpha c = true) : c.toNat < 128 := by
  simp only [alpha, Bool.or_eq_true, Bool.and_eq_true, decide_eq_true_eq,
    Char.le_iff_toNat_le] at h
  have hz : 'z'.toNat = 122 := rfl
  have hZ : 'Z'.toNat = 90 := rfl
  omega

theorem digit_ascii {c : Char} (h : digit c = true) : c.toNat < 128 := by
  simp only [digit, Bool.and_eq_true, decide_eq_true_eq, Char.le_iff_toNat_le] at h
  have h9 : '9'.toNat = 57 := rfl
  omega

theorem hexdig_ascii {c : Char} (h : hexdig c = true) : c.toNat < 128 := by
  simp only [hexdig, Bool.or_eq_true, Bool.and_eq_true, decide_eq_true_eq,
    Char.le_iff_toNat_le] at h
  have hF : 'F'.toNat = 70 := rfl
  have hf : 'f'.toNat = 102 := rfl
  rcases h with (h | h) | h
  · exact digit_ascii h
  · omega
  · omega

/-- A character of a literal list of ASCII characters is ASCII. The list is checked by
computing `List.all`, so that the check does not depend on the instance found for a bounded
quantifier. -/
theorem elem_ascii {l : List Char} (hl : l.all (fun d => decide (d.toNat < 128)) = true)
    {c : Char} (h : l.elem c = true) : c.toNat < 128 :=
  of_decide_eq_true (List.all_eq_true.mp hl c (List.elem_iff.mp h))

theorem unreserved_ascii {c : Char} (h : unreserved c = true) : c.toNat < 128 := by
  simp only [unreserved, Bool.or_eq_true] at h
  rcases h with (h | h) | h
  · exact alpha_ascii h
  · exact digit_ascii h
  · exact elem_ascii (by decide) h

theorem subDelims_ascii {c : Char} (h : subDelims c = true) : c.toNat < 128 :=
  elem_ascii (by decide) h

theorem pcharNotPctEncoded_isAsciiSet : IsAsciiSet pcharNotPctEncoded where
  ascii c h := by
    simp only [pcharNotPctEncoded, Bool.or_eq_true] at h
    rcases h with (h | h) | h
    · exact unreserved_ascii h
    · exact subDelims_ascii h
    · exact elem_ascii (by decide) h
  not_percent := by decide

theorem queryOrFragmentNotPctEncoded_isAsciiSet : IsAsciiSet queryOrFragmentNotPctEncoded where
  ascii c h := by
    simp only [queryOrFragmentNotPctEncoded, Bool.or_eq_true] at h
    rcases h with h | h
    · exact pcharNotPctEncoded_isAsciiSet.ascii c h
    · exact elem_ascii (by decide) h
  not_percent := by decide

theorem queryNotPctEncodedWithoutPlus_isAsciiSet : IsAsciiSet queryNotPctEncodedWithoutPlus where
  ascii c h := by
    simp only [queryNotPctEncodedWithoutPlus, Bool.or_eq_true] at h
    rcases h with h | h
    · exact unreserved_ascii h
    · exact elem_ascii (by decide) h
  not_percent := by decide

theorem userInfoNotPctEncoded_isAsciiSet : IsAsciiSet userInfoNotPctEncoded where
  ascii c h := by
    simp only [userInfoNotPctEncoded, Bool.or_eq_true] at h
    rcases h with (h | h) | h
    · exact unreserved_ascii h
    · exact subDelims_ascii h
    · exact elem_ascii (by decide) h
  not_percent := by decide

theorem regNameNotPctEncoded_isAsciiSet : IsAsciiSet regNameNotPctEncoded where
  ascii c h := by
    simp only [regNameNotPctEncoded, Bool.or_eq_true] at h
    rcases h with h | h
    · exact unreserved_ascii h
    · exact subDelims_ascii h
  not_percent := by decide

/-- The query printer's class is part of the query and fragment parser's class. -/
theorem queryNotPctEncodedWithoutPlus_sub {c : Char}
    (h : queryNotPctEncodedWithoutPlus c = true) : queryOrFragmentNotPctEncoded c = true := by
  simp only [queryNotPctEncodedWithoutPlus, Bool.or_eq_true] at h
  simp only [queryOrFragmentNotPctEncoded, pcharNotPctEncoded, Bool.or_eq_true]
  rcases h with h | h
  · exact Or.inl (Or.inl (Or.inl h))
  · simp only [List.elem_eq_mem, List.mem_cons, List.not_mem_nil, or_false,
      decide_eq_true_eq] at h
    rcases h with rfl | rfl | rfl | rfl | rfl | rfl | rfl | rfl | rfl | rfl | rfl | rfl | rfl | rfl
      <;> decide

/-! ### ASCII lower case

`str::to_lowercase` on a scheme and `str::to_ascii_lowercase` on an IPv6 address both act
on ASCII text as `Char.toLower` does: an upper-case letter moves 32 up, to its lower case,
and any other character stays. -/

theorem Char.isUpper_eq_false {c : Char} (h : ¬(65 ≤ c.toNat ∧ c.toNat ≤ 90)) :
    c.isUpper = false := by
  have hA : 'A'.val.toNat = 65 := rfl
  have hZ : 'Z'.val.toNat = 90 := rfl
  have hdef : c.isUpper = decide (c.val ≥ 'A'.val ∧ c.val ≤ 'Z'.val) := rfl
  simp only [hdef, ge_iff_le, UInt32.le_iff_toNat_le, hA, hZ, decide_eq_false_iff_not]
  exact h

/-- **What `Char.toLower` does**: it leaves a character that is not an upper-case letter
alone, and moves an upper-case letter 32 up. -/
theorem Char.toLower_cases (c : Char) :
    (¬(65 ≤ c.toNat ∧ c.toNat ≤ 90) ∧ c.toLower = c) ∨
      (65 ≤ c.toNat ∧ c.toNat ≤ 90 ∧ c.toLower.toNat = c.toNat + 32) := by
  have hA : 'A'.val.toNat = 65 := rfl
  have hZ : 'Z'.val.toNat = 90 := rfl
  unfold Char.toLower
  split
  · next h =>
    simp only [ge_iff_le, UInt32.le_iff_toNat_le, hA, hZ] at h
    have h32 : ('a'.val - 'A'.val).toNat = 32 := rfl
    refine .inr ⟨h.1, h.2, ?_⟩
    show (c.val + ('a'.val - 'A'.val)).toNat = c.val.toNat + 32
    rw [UInt32.toNat_add, h32]
    have : c.val.toNat ≤ 90 := h.2
    omega
  · next h =>
    simp only [ge_iff_le, UInt32.le_iff_toNat_le, hA, hZ] at h
    exact .inl ⟨h, rfl⟩

theorem Char.toLower_eq_self {c : Char} (h : c.isUpper = false) : c.toLower = c := by
  rcases Char.toLower_cases c with ⟨-, hc⟩ | ⟨h1, h2, -⟩
  · exact hc
  · have hA : 'A'.val.toNat = 65 := rfl
    have hZ : 'Z'.val.toNat = 90 := rfl
    have hdef : c.isUpper = decide (c.val ≥ 'A'.val ∧ c.val ≤ 'Z'.val) := rfl
    simp only [hdef, ge_iff_le, UInt32.le_iff_toNat_le, hA, hZ,
      decide_eq_false_iff_not] at h
    exact absurd ⟨h1, h2⟩ h

/-- Lower-casing a character does not make one that is not a lower-case letter. -/
theorem Char.toLower_ne {c d : Char} (hcd : c ≠ d) (hd : d.toNat < 97 ∨ 122 < d.toNat) :
    c.toLower ≠ d := by
  rcases Char.toLower_cases c with ⟨-, hc⟩ | ⟨h1, h2, hc⟩
  · rwa [hc]
  · rintro rfl
    omega

theorem alpha_toLower {c : Char} (h : alpha c = true) : alpha c.toLower = true := by
  rcases Char.toLower_cases c with ⟨-, hc⟩ | ⟨h1, h2, hc⟩
  · rwa [hc]
  · have ha : 'a'.toNat = 97 := rfl
    have hz : 'z'.toNat = 122 := rfl
    simp only [alpha, Bool.or_eq_true, Bool.and_eq_true, decide_eq_true_eq,
      Char.le_iff_toNat_le, ha, hz]
    omega

theorem schemeNotFirst_toLower {c : Char} (h : schemeNotFirst c = true) :
    schemeNotFirst c.toLower = true := by
  rcases Char.toLower_cases c with ⟨-, hc⟩ | ⟨h1, h2, hc⟩
  · rwa [hc]
  · have ha : alpha c.toLower = true := by
      have ha : 'a'.toNat = 97 := rfl
      have hz : 'z'.toNat = 122 := rfl
      simp only [alpha, Bool.or_eq_true, Bool.and_eq_true, decide_eq_true_eq,
        Char.le_iff_toNat_le, ha, hz]
      omega
    simp [schemeNotFirst, ha]

end Rhymuri
