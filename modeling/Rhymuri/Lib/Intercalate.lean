import Mathlib.Data.List.Basic

/-!
# Lists joined by a separator

A dotted or colon-separated address is a list of parts joined by a separator,
`[c].intercalate xs`. A scanner that reads it from the left sees first a run of
*terminated* parts, each followed by the separator, `xs.flatMap (· ++ [c])`, and then
the part it is in; an absolute path is its parts each *preceded* by the separator,
`xs.flatMap (c :: ·)`. The lemmas here move between these forms, and cut a list at its
first separator.
-/

namespace List

variable {α : Type*}

@[simp]
theorem flatMap_append_singleton_nil (c : α) :
    ([] : List (List α)).flatMap (· ++ [c]) = [] := rfl

theorem flatMap_append_singleton_snoc (c : α) (xs : List (List α)) (x : List α) :
    (xs ++ [x]).flatMap (· ++ [c]) = xs.flatMap (· ++ [c]) ++ x ++ [c] := by
  simp

/-- Terminated parts followed by one more part are the parts joined. -/
theorem flatMap_append_singleton_append (c : α) (xs : List (List α)) (y : List α) :
    xs.flatMap (· ++ [c]) ++ y = [c].intercalate (xs ++ [y]) := by
  induction xs with
  | nil => simp
  | cons x xs ih =>
    rw [flatMap_cons, append_assoc, ih, cons_append,
      intercalate_cons_of_ne_nil (append_ne_nil_of_right_ne_nil xs (cons_ne_nil y []))]

/-- Nonempty terminated parts are the parts joined, and one more separator. -/
theorem flatMap_append_singleton_of_ne_nil (c : α) {xs : List (List α)} (h : xs ≠ []) :
    xs.flatMap (· ++ [c]) = [c].intercalate xs ++ [c] := by
  obtain ⟨ys, y, rfl⟩ := (eq_nil_or_concat' xs).resolve_left h
  rw [flatMap_append_singleton_snoc, flatMap_append_singleton_append]

/-- Terminated parts followed by nonempty joined parts are all the parts joined. -/
theorem flatMap_append_singleton_append_intercalate (c : α) (xs : List (List α))
    {ys : List (List α)} (h : ys ≠ []) :
    xs.flatMap (· ++ [c]) ++ [c].intercalate ys = [c].intercalate (xs ++ ys) := by
  obtain ⟨zs, z, rfl⟩ := (eq_nil_or_concat' ys).resolve_left h
  rw [← flatMap_append_singleton_append, ← append_assoc, ← flatMap_append, ← append_assoc,
    flatMap_append_singleton_append]

/-- Parts joined: the first part, then each other part preceded by the separator. -/
theorem intercalate_cons_eq_append_flatMap (c : α) (x : List α) (xs : List (List α)) :
    [c].intercalate (x :: xs) = x ++ xs.flatMap (c :: ·) := by
  induction xs generalizing x with
  | nil => simp
  | cons y ys ih =>
    rw [intercalate_cons_of_ne_nil (cons_ne_nil y ys), ih, flatMap_cons]
    simp

/-- A property of the separator and of every part holds of the parts joined. -/
theorem forall_mem_intercalate {q : α → Prop} {sep : List α} {xs : List (List α)}
    (hsep : ∀ a ∈ sep, q a) (hxs : ∀ x ∈ xs, ∀ a ∈ x, q a) : ∀ a ∈ sep.intercalate xs, q a := by
  induction xs with
  | nil => simp
  | cons x xs ih =>
    have ih := ih (fun y hy => hxs y (mem_cons_of_mem x hy))
    cases xs with
    | nil => simpa using hxs x mem_cons_self
    | cons y ys =>
      intro a ha
      rw [intercalate_cons_cons, mem_append, mem_append] at ha
      rcases ha with (ha | ha) | ha
      · exact hxs x mem_cons_self a ha
      · exact hsep a ha
      · exact ih a ha

theorem mem_intercalate_of_mem {sep : List α} {xs : List (List α)} {x : List α} (hx : x ∈ xs)
    {a : α} (ha : a ∈ x) : a ∈ sep.intercalate xs := by
  induction xs with
  | nil => exact absurd hx (not_mem_nil)
  | cons y ys ih =>
    cases ys with
    | nil =>
      rw [mem_singleton.mp hx] at ha
      simpa using ha
    | cons z zs =>
      rw [intercalate_cons_cons]
      rcases mem_cons.mp hx with rfl | hx
      · exact mem_append_left _ (mem_append_left _ ha)
      · exact mem_append_right _ (ih hx)

/-- The pieces `splitOnP` cuts a list into hold no element it cuts at; the accumulator is the
piece being read. -/
theorem forall_mem_splitOnPPrepend (P : α → Bool) (l : List α) :
    ∀ acc : List α, (∀ a ∈ acc, P a = false) →
      ∀ x ∈ splitOnPPrepend P l acc, ∀ a ∈ x, P a = false := by
  induction l with
  | nil =>
    intro acc hacc x hx a ha
    rw [splitOnPPrepend_nil, mem_singleton] at hx
    subst hx
    exact hacc a (mem_reverse.mp ha)
  | cons b t ih =>
    intro acc hacc x hx a ha
    rw [splitOnPPrepend] at hx
    split at hx
    · -- a cut: the piece read so far is closed, and the next one starts empty
      rcases mem_cons.mp hx with rfl | hx
      · exact hacc a (mem_reverse.mp ha)
      · exact ih [] (by simp) x hx a ha
    · next hb =>
      refine ih (b :: acc) (fun c hc => ?_) x hx a ha
      rcases mem_cons.mp hc with rfl | hc
      · simpa using hb
      · exact hacc c hc

/-- **A piece of `splitOn` holds no separator.** -/
theorem not_mem_of_mem_splitOn [BEq α] [LawfulBEq α] {c : α} {l x : List α}
    (hx : x ∈ l.splitOn c) : c ∉ x := fun hc => by
  rw [splitOn_eq_splitOnP, splitOnP] at hx
  have h := forall_mem_splitOnPPrepend (· == c) l [] (by simp) x hx c hc
  simp at h

/-- **Cutting at the first separator**: a separator-free prefix followed by a separator
is determined. -/
theorem append_cons_eq_append_cons {c : α} {p q x y : List α} (hp : c ∉ p) (hq : c ∉ q)
    (h : p ++ c :: x = q ++ c :: y) : p = q ∧ x = y := by
  induction p generalizing q with
  | nil =>
    cases q with
    | nil => simpa using h
    | cons b q =>
      have hb : c = b := (cons.inj h).1
      exact absurd (hb ▸ mem_cons_self) hq
  | cons a p ih =>
    cases q with
    | nil =>
      have ha : a = c := (cons.inj h).1
      exact absurd (ha ▸ mem_cons_self) hp
    | cons b q =>
      obtain ⟨hab, h⟩ := cons.inj h
      obtain ⟨hpq, hxy⟩ := ih (fun hc => hp (mem_cons_of_mem a hc))
        (fun hc => hq (mem_cons_of_mem b hc)) h
      exact ⟨hab ▸ hpq ▸ rfl, hxy⟩

end List
