import Rhymuri.Rfc.Grammar
import Rhymuri.Lib.Intercalate

/-!
# `IPv4address` in parts

The rule `IPv4address` of RFC 3986 is four `dec-octet`s joined by dots
(`Rhymuri.Rfc.mem_ipv4address_iff`). A `dec-octet` is a run of digits, and it starts with
`0` only when it is `0` itself (`Rhymuri.Rfc.digits_of_mem_decOctet`,
`Rhymuri.Rfc.eq_zero_of_mem_decOctet`): the RFC writes the numbers `0` to `255` without
leading zeros, which is what the validators of the crate and of the C++ library are
compared with.
-/

namespace Rhymuri

namespace Rfc

open Language

/-! ### Octets -/

theorem digit_of_le_of_le {c lo hi : Char} (hlo : '0' ≤ lo) (hhi : hi ≤ '9')
    (h : (lo ≤ c && c ≤ hi) = true) : digit c = true := by
  simp only [Bool.and_eq_true, decide_eq_true_eq, Char.le_iff_toNat_le] at h hlo hhi
  simp only [digit, Bool.and_eq_true, decide_eq_true_eq, Char.le_iff_toNat_le]
  omega

/-- A `dec-octet` is a run of digits. -/
theorem digits_of_mem_decOctet {w : List Char} (h : w ∈ decOctet) :
    ∀ c ∈ w, digit c = true := by
  simp only [decOctet, mem_add, mem_mul, mem_ofPred, mem_lit, mem_ofPred_pow] at h
  rcases h with (((⟨a, ha, rfl⟩ | ⟨_, ⟨a, ha, rfl⟩, _, ⟨b, hb, rfl⟩, rfl⟩) |
      ⟨_, rfl, v, ⟨-, hv⟩, rfl⟩) | ⟨_, ⟨_, rfl, _, ⟨a, ha, rfl⟩, rfl⟩, _, ⟨b, hb, rfl⟩, rfl⟩) |
      ⟨_, rfl, _, ⟨a, ha, rfl⟩, rfl⟩
  · simpa using ha
  · simpa [digit_of_le_of_le (by decide) (by decide) ha] using hb
  · simpa [show digit '1' = true from rfl] using hv
  · simpa [show digit '2' = true from rfl, digit_of_le_of_le (by decide) (by decide) ha] using hb
  · simp [show digit '2' = true from rfl, show digit '5' = true from rfl,
      digit_of_le_of_le (by decide) (by decide) ha]

/-- **A `dec-octet` has no leading zero**: one that starts with `0` is `0`. -/
theorem eq_zero_of_mem_decOctet {w : List Char} (h : w ∈ decOctet) (h0 : w.head? = some '0') :
    w = ['0'] := by
  simp only [decOctet, mem_add, mem_mul, mem_ofPred, mem_lit] at h
  rcases h with (((⟨a, -, rfl⟩ | ⟨_, ⟨a, ha, rfl⟩, _, ⟨b, -, rfl⟩, rfl⟩) |
      ⟨_, rfl, v, -, rfl⟩) | ⟨_, ⟨_, rfl, _, -, rfl⟩, _, -, rfl⟩) | ⟨_, rfl, _, -, rfl⟩
  · simpa using h0
  · -- a two-digit octet starts with `1` to `9`
    simp only [List.singleton_append, List.head?_cons, Option.some.injEq] at h0
    subst h0
    exact absurd ha (by decide)
  all_goals simp at h0

/-- A single digit is a `dec-octet`. -/
theorem singleton_mem_decOctet {c : Char} (h : digit c = true) : [c] ∈ decOctet := by
  simp only [decOctet, mem_add]
  exact .inl (.inl (.inl (.inl ⟨c, h, rfl⟩)))

/-! ### Addresses -/

/-- **`IPv4address` is four `dec-octet`s joined by dots.** -/
theorem mem_ipv4address_iff {a : List Char} :
    a ∈ ipv4address ↔
      ∃ os : List (List Char), os.length = 4 ∧ (∀ o ∈ os, o ∈ decOctet) ∧
        a = ['.'].intercalate os := by
  simp only [ipv4address, mem_mul, mem_lit]
  constructor
  · rintro ⟨_, ⟨_, ⟨_, ⟨_, ⟨_, ⟨o₁, h₁, _, rfl, rfl⟩, o₂, h₂, rfl⟩, _, rfl, rfl⟩, o₃, h₃, rfl⟩,
      _, rfl, rfl⟩, o₄, h₄, rfl⟩
    refine ⟨[o₁, o₂, o₃, o₄], rfl, ?_, by simp⟩
    simp only [List.mem_cons, List.not_mem_nil, or_false]
    rintro o (rfl | rfl | rfl | rfl) <;> assumption
  · rintro ⟨os, hlen, hos, rfl⟩
    obtain ⟨o₁, o₂, o₃, o₄, rfl⟩ := List.length_eq_four.mp hlen
    exact ⟨_, ⟨_, ⟨_, ⟨_, ⟨_, ⟨o₁, hos o₁ (by simp), _, rfl, rfl⟩, o₂, hos o₂ (by simp), rfl⟩,
      _, rfl, rfl⟩, o₃, hos o₃ (by simp), rfl⟩, _, rfl, rfl⟩, o₄, hos o₄ (by simp), by simp⟩

/-- An `IPv4address` holds a dot. -/
theorem dot_mem_of_mem_ipv4address {a : List Char} (h : a ∈ ipv4address) : '.' ∈ a := by
  obtain ⟨os, hlen, -, rfl⟩ := mem_ipv4address_iff.mp h
  obtain ⟨o₁, o₂, o₃, o₄, rfl⟩ := List.length_eq_four.mp hlen
  simp

end Rfc

end Rhymuri
