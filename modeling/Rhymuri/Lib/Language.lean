import Mathlib.Computability.Language
import Rhymuri.Lib.Intercalate

/-!
# ABNF rules as languages

An ABNF grammar denotes a set of words, and Mathlib's `Language` already has the
operators of ABNF: alternation `/` is `+`, concatenation is `*`, `n( r )` is `r ^ n`,
`*( r )` is the Kleene star and `[ r ]` is `1 + r`. What it lacks are the two leaves
and one repetition of ABNF, added here: a character class (`Language.ofPred`), and
`*k( r )`, at most `k` repetitions (`Language.repeatUpTo`).

The lemmas say what the words of these operators look like, in the terms a scanner
sees: a run of letters of a class, and parts each followed by a separator or joined
by it (`Rhymuri.Lib.Intercalate`).
-/

namespace Language

variable {α : Type*}

/-- The one-letter words whose letter passes a test: an ABNF character class. -/
def ofPred (p : α → Bool) : Language α := {w | ∃ a, p a = true ∧ w = [a]}

/-- `*k( l )`: at most `k` words of `l` in a row. -/
def repeatUpTo (k : ℕ) (l : Language α) : Language α := {w | ∃ i ≤ k, w ∈ l ^ i}

@[simp]
theorem mem_ofPred {p : α → Bool} {w : List α} : w ∈ ofPred p ↔ ∃ a, p a = true ∧ w = [a] :=
  Iff.rfl

@[simp]
theorem mem_singleton_word {x w : List α} : w ∈ ({x} : Language α) ↔ w = x :=
  Iff.rfl

theorem mem_repeatUpTo {k : ℕ} {l : Language α} {w : List α} :
    w ∈ repeatUpTo k l ↔ ∃ i ≤ k, w ∈ l ^ i :=
  Iff.rfl

theorem repeatUpTo_zero (l : Language α) : repeatUpTo 0 l = 1 := by
  ext w
  simp [mem_repeatUpTo]

/-- `n` letters of a class are a word of length `n` over the class. -/
theorem mem_ofPred_pow {p : α → Bool} {n : ℕ} {w : List α} :
    w ∈ ofPred p ^ n ↔ w.length = n ∧ ∀ a ∈ w, p a = true := by
  induction n generalizing w with
  | zero =>
    simp only [pow_zero, mem_one, List.length_eq_zero_iff]
    constructor
    · rintro rfl
      exact ⟨rfl, by simp⟩
    · exact And.left
  | succ n ih =>
    rw [pow_succ', mem_mul]
    constructor
    · rintro ⟨_, ⟨a, ha, rfl⟩, v, hv, rfl⟩
      obtain ⟨hlen, hall⟩ := ih.mp hv
      refine ⟨by simp [hlen], fun b hb => ?_⟩
      rcases List.mem_cons.mp hb with rfl | hb
      · exact ha
      · exact hall b hb
    · rintro ⟨hlen, hall⟩
      obtain ⟨a, v, rfl⟩ := List.exists_cons_of_length_eq_add_one hlen
      exact ⟨[a], ⟨a, hall a List.mem_cons_self, rfl⟩, v,
        ih.mpr ⟨by simpa using hlen, fun b hb => hall b (List.mem_cons_of_mem a hb)⟩, rfl⟩

section Separated

variable {l : Language α} {c : α}

/-- `n( l c )`: `n` words of `l`, each followed by the separator `c`. -/
theorem mem_mul_singleton_pow {n : ℕ} {w : List α} :
    w ∈ (l * {[c]}) ^ n ↔
      ∃ xs : List (List α), xs.length = n ∧ (∀ x ∈ xs, x ∈ l) ∧ w = xs.flatMap (· ++ [c]) := by
  induction n generalizing w with
  | zero =>
    simp only [pow_zero, mem_one, List.length_eq_zero_iff]
    constructor
    · rintro rfl
      exact ⟨[], rfl, by simp, rfl⟩
    · rintro ⟨xs, rfl, -, rfl⟩
      rfl
  | succ n ih =>
    rw [pow_succ', mem_mul]
    constructor
    · rintro ⟨_, ⟨x, hx, _, rfl, rfl⟩, v, hv, rfl⟩
      obtain ⟨xs, hlen, hxs, rfl⟩ := ih.mp hv
      refine ⟨x :: xs, by simp [hlen], fun y hy => ?_, by simp⟩
      rcases List.mem_cons.mp hy with rfl | hy
      · exact hx
      · exact hxs y hy
    · rintro ⟨xs, hlen, hxs, rfl⟩
      obtain ⟨x, xs, rfl⟩ := List.exists_cons_of_length_eq_add_one hlen
      refine ⟨x ++ [c], ⟨x, hxs x List.mem_cons_self, [c], rfl, rfl⟩, xs.flatMap (· ++ [c]),
        ih.mpr ⟨xs, by simpa using hlen, fun y hy => hxs y (List.mem_cons_of_mem x hy), rfl⟩,
        by simp⟩

/-- `[ *k( l c ) l ]`: at most `k + 1` words of `l` joined by the separator `c`. -/
theorem mem_one_add_repeatUpTo_mul {k : ℕ} {w : List α} :
    w ∈ 1 + repeatUpTo k (l * {[c]}) * l ↔
      ∃ xs : List (List α), xs.length ≤ k + 1 ∧ (∀ x ∈ xs, x ∈ l) ∧ w = [c].intercalate xs := by
  rw [mem_add, mem_one, mem_mul]
  constructor
  · rintro (rfl | ⟨u, ⟨i, hi, hu⟩, y, hy, rfl⟩)
    · exact ⟨[], by simp, by simp, rfl⟩
    · -- the last word closes the separated ones
      obtain ⟨xs, hlen, hxs, rfl⟩ := mem_mul_singleton_pow.mp hu
      refine ⟨xs ++ [y], by simp; omega, fun x hx => ?_, List.flatMap_append_singleton_append c xs y⟩
      rcases List.mem_append.mp hx with hx | hx
      · exact hxs x hx
      · exact List.mem_singleton.mp hx ▸ hy
  · rintro ⟨xs, hlen, hxs, rfl⟩
    rcases List.eq_nil_or_concat' xs with rfl | ⟨ys, y, rfl⟩
    · exact Or.inl rfl
    · refine Or.inr ⟨ys.flatMap (· ++ [c]), ⟨ys.length, by simp at hlen; omega,
        mem_mul_singleton_pow.mpr ⟨ys, rfl, fun x hx => hxs x (List.mem_append_left _ hx), rfl⟩⟩,
        y, hxs y (List.mem_append_right _ List.mem_cons_self), ?_⟩
      exact List.flatMap_append_singleton_append c ys y

end Separated

end Language
