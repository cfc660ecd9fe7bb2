import Mathlib.Data.List.Basic

/-!
# Cutting a list at the first element of a kind

A scanner that looks for a delimiter with `str::find` and slices the string around it
computes `List.findIdx?`, then `List.take` and `List.drop` at the index found, or at the
length when nothing is found (`Option.unwrap_or`). These lemmas turn that into
`List.takeWhile` and `List.dropWhile`, and compute the cut of a text built as a
delimiter-free part followed by what starts with a delimiter, or is empty.
-/

namespace List

variable {α : Type*} {p : α → Bool}

/-- Taking up to the first match, or everything, is taking while there is no match. -/
theorem take_getD_findIdx? (l : List α) :
    l.take ((l.findIdx? p).getD l.length) = l.takeWhile (fun x => !p x) := by
  rw [← findIdx_eq_getD_findIdx?, takeWhile_eq_take_findIdx_not]
  simp

/-- Dropping up to the first match, or everything, is dropping while there is no match. -/
theorem drop_getD_findIdx? (l : List α) :
    l.drop ((l.findIdx? p).getD l.length) = l.dropWhile (fun x => !p x) := by
  rw [← findIdx_eq_getD_findIdx?, dropWhile_eq_drop_findIdx_not]
  simp

/-- The cut stands at most at the end. -/
theorem getD_findIdx?_le (l : List α) : (l.findIdx? p).getD l.length ≤ l.length := by
  cases h : l.findIdx? p with
  | none => exact Nat.le_refl _
  | some j => exact Nat.le_of_lt (findIdx?_eq_some_iff_getElem.mp h).1

/-- The elements taken while `p` holds, when the rest starts where `p` fails. -/
theorem takeWhile_append_of_head {l₁ l₂ : List α} (h₁ : ∀ x ∈ l₁, p x = true)
    (h₂ : ∀ x ∈ l₂.head?, p x = false) : (l₁ ++ l₂).takeWhile p = l₁ := by
  rw [takeWhile_append_of_pos h₁]
  cases l₂ with
  | nil => simp
  | cons y l₂ => simp [h₂ y rfl]

/-- What is left after the elements dropped while `p` holds, when the rest starts where `p`
fails. -/
theorem dropWhile_append_of_head {l₁ l₂ : List α} (h₁ : ∀ x ∈ l₁, p x = true)
    (h₂ : ∀ x ∈ l₂.head?, p x = false) : (l₁ ++ l₂).dropWhile p = l₂ := by
  rw [dropWhile_append_of_pos h₁]
  cases l₂ with
  | nil => simp
  | cons y l₂ => simp [h₂ y rfl]

/-- The first match of `p` in a list with no match before `c`, where `p` matches. -/
theorem findIdx?_append_cons {l₁ : List α} (h : ∀ x ∈ l₁, p x = false) {c : α}
    (hc : p c = true) (l₂ : List α) : (l₁ ++ c :: l₂).findIdx? p = some l₁.length := by
  rw [findIdx?_append, findIdx?_eq_none_iff.mpr h, findIdx?_cons, if_pos hc]
  simp

/-- A match found in a prefix taken while `q` holds is the first match of the whole list. -/
theorem findIdx?_of_takeWhile {q : α → Bool} {l : List α} {i : ℕ}
    (h : (l.takeWhile q).findIdx? p = some i) : l.findIdx? p = some i := by
  rw [← takeWhile_append_dropWhile (p := q) (l := l), findIdx?_append, h]
  rfl

/-- The first match splits the list around it. -/
theorem eq_take_append_cons_drop_of_findIdx? {l : List α} {i : ℕ} (h : l.findIdx? p = some i) :
    ∃ a, p a = true ∧ l = l.take i ++ a :: l.drop (i + 1) := by
  obtain ⟨hi, hp, -⟩ := findIdx?_eq_some_iff_getElem.mp h
  exact ⟨l[i], hp, by rw [← drop_eq_getElem_cons hi, take_append_drop]⟩

/-! ### Cutting twice

Taking while `q`, then while `p`, is `List.takeWhile_takeWhile`. -/

/-- Dropping while `p` within what was taken while `q` holds. -/
theorem dropWhile_takeWhile (q : α → Bool) :
    ∀ l : List α, (l.takeWhile q).dropWhile p = (l.dropWhile fun a => p a && q a).takeWhile q
  | [] => rfl
  | x :: l => by
    by_cases hq : q x = true
    · by_cases hp : p x = true
      · rw [takeWhile_cons, if_pos hq, dropWhile_cons, if_pos hp, dropWhile_cons,
          if_pos (by simp [hp, hq]), dropWhile_takeWhile q l]
      · rw [takeWhile_cons, if_pos hq, dropWhile_cons, if_neg hp, dropWhile_cons,
          if_neg (by simp [hp]), takeWhile_cons, if_pos hq]
    · rw [takeWhile_cons, if_neg hq, dropWhile_cons, if_neg (by simp [hq]), takeWhile_cons,
        if_neg hq]
      rfl

/-- Dropping while a weaker `q` holds after dropping while `p` holds. -/
theorem dropWhile_dropWhile_of_imp {q : α → Bool} (h : ∀ x, p x = true → q x = true) :
    ∀ l : List α, (l.dropWhile p).dropWhile q = l.dropWhile q
  | [] => rfl
  | x :: l => by
    by_cases hp : p x = true
    · rw [dropWhile_cons, if_pos hp, dropWhile_dropWhile_of_imp h l, dropWhile_cons,
        if_pos (h x hp)]
    · rw [dropWhile_cons, if_neg hp]

end List
