import Mathlib.Data.List.Basic

/-!
# Folds that can fail

`Iterator::try_fold` with a closure that returns a `Result` is `List.foldlM` in the
`Except` monad: the state is threaded through the elements, and the first error ends
the fold. Over `str::char_indices` the elements carry their position, which is
`List.zipIdx`.

Two rules carry the proofs about such folds, and both are stated for a fold over
`List.zipIdx`, with each element read at its position:

* an invariant of the consumed prefix that every successful step keeps holds after a
  successful fold (`List.foldlM_zipIdx_invariant`);
* a failed fold failed at one element, after a successful fold over the elements
  before it, which therefore satisfies the invariant (`List.foldlM_zipIdx_eq_error`).

The same invariant rule is given for a plain fold (`List.foldlM_invariant`). A run is
computed piece by piece: a fold that got through a prefix goes on from the state the
prefix left (`List.foldlM_except_append_of_ok`, `List.foldlM_zipIdx_append_of_ok`), and a
run over elements that each raise a rank is given by one step (`List.foldlM_zipIdx_of_step`).
A step that commutes with a map of the states commutes with the whole fold
(`List.foldlM_except_map_comm`). What a `mapM` collects is related, element by element, to
what it read by whatever each successful step establishes (`List.forall₂_of_mapM_except_eq_ok`,
`Option.rel_of_mapM_except_eq_ok`).
-/

namespace Except

variable {ε α β : Type*}

@[simp]
theorem pure_eq_ok (a : α) : (pure a : Except ε α) = .ok a := rfl

@[simp]
theorem ok_bind {γ δ : Type u} (a : γ) (f : γ → Except ε δ) :
    (Except.ok a >>= f) = f a := rfl

theorem bind_eq_ok {x : Except ε α} {f : α → Except ε β} {b : β} :
    x.bind f = .ok b ↔ ∃ a, x = .ok a ∧ f a = .ok b := by
  cases x <;> simp [Except.bind]

theorem bind_eq_error {x : Except ε α} {f : α → Except ε β} {e : ε} :
    x.bind f = .error e ↔ x = .error e ∨ ∃ a, x = .ok a ∧ f a = .error e := by
  cases x <;> simp [Except.bind]

end Except

namespace List

variable {σ α ε : Type*}

theorem foldlM_except_cons (f : σ → α → Except ε σ) (s : σ) (a : α) (l : List α) :
    (a :: l).foldlM f s = (f s a).bind fun s' => l.foldlM f s' := rfl

theorem foldlM_except_cons_of_ok {f : σ → α → Except ε σ} {s s₁ : σ} {a : α}
    (h : f s a = .ok s₁) (l : List α) : (a :: l).foldlM f s = l.foldlM f s₁ := by
  rw [foldlM_except_cons, h]
  rfl

theorem foldlM_except_cons_of_error {f : σ → α → Except ε σ} {s : σ} {a : α} {e : ε}
    (h : f s a = .error e) (l : List α) : (a :: l).foldlM f s = .error e := by
  rw [foldlM_except_cons, h]
  rfl

/-- A fold that got through a prefix goes on from where the prefix left it. -/
theorem foldlM_except_append_of_ok {f : σ → α → Except ε σ} {s s₁ : σ} {u : List α}
    (h : u.foldlM f s = .ok s₁) (w : List α) : (u ++ w).foldlM f s = w.foldlM f s₁ := by
  rw [foldlM_append, h]
  rfl

/-- The fold over a concatenation, with the positions of the second part shifted. -/
theorem foldlM_zipIdx_append (f : σ → α × ℕ → Except ε σ) (s : σ) (u w : List α) (n : ℕ) :
    ((u ++ w).zipIdx n).foldlM f s =
      ((u.zipIdx n).foldlM f s).bind fun s' => (w.zipIdx (n + u.length)).foldlM f s' := by
  rw [zipIdx_append, foldlM_append]
  rfl

theorem foldlM_zipIdx_append_of_ok {f : σ → α × ℕ → Except ε σ} {s s₁ : σ} {u : List α}
    {n : ℕ} (h : (u.zipIdx n).foldlM f s = .ok s₁) (w : List α) :
    ((u ++ w).zipIdx n).foldlM f s = (w.zipIdx (n + u.length)).foldlM f s₁ := by
  rw [foldlM_zipIdx_append, h]
  rfl

/-- **Invariant rule for a fold.** -/
theorem foldlM_invariant {f : σ → α → Except ε σ} (I : List α → σ → Prop)
    (hstep : ∀ u a s s', I u s → f s a = .ok s' → I (u ++ [a]) s') :
    ∀ (w u : List α) (s s' : σ), I u s → w.foldlM f s = .ok s' → I (u ++ w) s' := by
  intro w
  induction w with
  | nil =>
    intro u s s' hs h
    cases h
    simpa using hs
  | cons a w ih =>
    intro u s s' hs h
    obtain ⟨s₁, hf, h⟩ := Except.bind_eq_ok.mp h
    simpa using ih (u ++ [a]) s₁ s' (hstep u a s s₁ hs hf) h

/-- **Invariant rule for a fold in `Option`**, a loop whose body may return early. -/
theorem foldlM_option_invariant {f : σ → α → Option σ} (I : List α → σ → Prop)
    (hstep : ∀ u a s s', I u s → f s a = some s' → I (u ++ [a]) s') :
    ∀ (w u : List α) (s s' : σ), I u s → w.foldlM f s = some s' → I (u ++ w) s' := by
  intro w
  induction w with
  | nil =>
    intro u s s' hs h
    cases h
    simpa using hs
  | cons a w ih =>
    intro u s s' hs h
    rw [foldlM_cons] at h
    obtain ⟨s₁, hf, h⟩ := Option.bind_eq_some_iff.mp h
    simpa using ih (u ++ [a]) s₁ s' (hstep u a s s₁ hs hf) h

/-- **A fold commutes with a map of its states**: if a step, on mapped states and
elements, does what it does on the originals, mapped, and fails with the mapped error, then
so does the whole fold. -/
theorem foldlM_except_map_comm {σ' α' ε' : Type*} {f : σ → α → Except ε σ}
    {f' : σ' → α' → Except ε' σ'} (ms : σ → σ') (ma : α → α') (me : ε → ε')
    (h : ∀ s a, f' (ms s) (ma a) = ((f s a).map ms).mapError me) :
    ∀ (l : List α) (s : σ), (l.map ma).foldlM f' (ms s) = ((l.foldlM f s).map ms).mapError me
  | [], _ => rfl
  | a :: l, s => by
    rw [map_cons, foldlM_except_cons, foldlM_except_cons, h]
    cases f s a with
    | error e => rfl
    | ok t => exact foldlM_except_map_comm ms ma me h l t

/-- A fold that only checks each element succeeds exactly when every check does. -/
theorem foldlM_unit_eq_ok {f : Unit → α → Except ε Unit} :
    ∀ {l : List α}, l.foldlM f () = .ok () ↔ ∀ a ∈ l, f () a = .ok ()
  | [] => by simp
  | a :: l => by
    rw [foldlM_except_cons]
    cases h : f () a with
    | error e => simp [Except.bind, h]
    | ok u => simp [Except.bind, h, foldlM_unit_eq_ok]

/-- A `mapM` that gives back each element of a list it reads through a map gives back
the list. -/
theorem mapM_except_map_of_forall {β : Type*} {f : β → Except ε α} {g : α → β} :
    ∀ {l : List α}, (∀ a ∈ l, f (g a) = .ok a) → (l.map g).mapM f = .ok l
  | [], _ => rfl
  | a :: l, h => by
    rw [map_cons, mapM_cons, h a mem_cons_self,
      mapM_except_map_of_forall (fun b hb => h b (mem_cons_of_mem a hb))]
    rfl

/-- A `mapM` whose every step succeeds with the value of a function gives the map of the
list by that function. -/
theorem mapM_except_eq_ok_map {β : Type*} {f : α → Except ε β} {g : α → β} :
    ∀ {l : List α}, (∀ a ∈ l, f a = .ok (g a)) → l.mapM f = .ok (l.map g)
  | [], _ => rfl
  | a :: l, h => by
    rw [mapM_cons, h a mem_cons_self,
      mapM_except_eq_ok_map (fun b hb => h b (mem_cons_of_mem a hb))]
    rfl

/-- A `mapM` in `Option` whose every step is the step of a `mapM` in `Except`, read through
`Except.toOption` and a map, is that `mapM`, read the same way. -/
theorem mapM_option_eq_toOption_map {β γ : Type*} {f : α → Except ε β} {g : α → Option γ}
    {h : β → γ} (hfg : ∀ a, g a = (f a).toOption.map h) :
    ∀ l : List α, l.mapM g = (l.mapM f).toOption.map (List.map h)
  | [] => rfl
  | a :: l => by
    rw [mapM_cons, mapM_cons, hfg a, mapM_option_eq_toOption_map hfg l]
    cases f a <;> cases l.mapM f <;> rfl

/-- What a `mapM` collects stands, element by element, in every relation that each successful
step sets up between what it reads and what it gives. -/
theorem forall₂_of_mapM_except_eq_ok {β : Type*} {f : α → Except ε β} {R : α → β → Prop}
    (hf : ∀ a b, f a = .ok b → R a b) :
    ∀ {l : List α} {l' : List β}, l.mapM f = .ok l' → Forall₂ R l l'
  | [], l', h => by
    cases h
    exact .nil
  | a :: l, l', h => by
    rw [mapM_cons] at h
    obtain ⟨b, hb, h⟩ := Except.bind_eq_ok.mp h
    obtain ⟨bs, hbs, h⟩ := Except.bind_eq_ok.mp h
    cases h
    exact .cons (hf a b hb) (forall₂_of_mapM_except_eq_ok hf hbs)

section ZipIdx

variable {f : σ → α × ℕ → Except ε σ} (I : List α → σ → Prop)

/-- **Invariant rule for a fold over positions.** The step at the element after the
prefix `u` reads the position `u.length`. -/
theorem foldlM_zipIdx_invariant
    (hstep : ∀ u a s s', I u s → f s (a, u.length) = .ok s' → I (u ++ [a]) s') :
    ∀ (w u : List α) (s s' : σ), I u s →
      (w.zipIdx u.length).foldlM f s = .ok s' → I (u ++ w) s' := by
  intro w
  induction w with
  | nil =>
    intro u s s' hs h
    cases h
    simpa using hs
  | cons a w ih =>
    intro u s s' hs h
    rw [zipIdx_cons, foldlM_except_cons] at h
    obtain ⟨s₁, hf, h⟩ := Except.bind_eq_ok.mp h
    have h' : (w.zipIdx (u ++ [a]).length).foldlM f s₁ = .ok s' := by simpa using h
    simpa using ih (u ++ [a]) s₁ s' (hstep u a s s₁ hs hf) h'

/-- **A failed fold over positions failed at one element**, reached in a state that
satisfies the invariant. -/
theorem foldlM_zipIdx_eq_error
    (hstep : ∀ u a s s', I u s → f s (a, u.length) = .ok s' → I (u ++ [a]) s') :
    ∀ (w u : List α) (s : σ) (e : ε), I u s →
      (w.zipIdx u.length).foldlM f s = .error e →
      ∃ v a x s₁, w = v ++ a :: x ∧ I (u ++ v) s₁ ∧ f s₁ (a, (u ++ v).length) = .error e := by
  intro w
  induction w with
  | nil =>
    intro u s e _ h
    cases h
  | cons a w ih =>
    intro u s e hs h
    rw [zipIdx_cons, foldlM_except_cons] at h
    rcases Except.bind_eq_error.mp h with hf | ⟨s₁, hf, h⟩
    · -- the first element fails
      exact ⟨[], a, w, s, rfl, by simpa using hs, by simpa using hf⟩
    · have h' : (w.zipIdx (u ++ [a]).length).foldlM f s₁ = .error e := by simpa using h
      obtain ⟨v, b, x, s₂, rfl, hv, hb⟩ := ih (u ++ [a]) s₁ e (hstep u a s s₁ hs hf) h'
      exact ⟨a :: v, b, x, s₂, rfl, by simpa using hv, by simpa using hb⟩

/-- **Progress rule for a fold over positions.** If every element satisfying `q` takes a
state of rank `k` below `N` to one of rank `k + 1`, a fold over such elements raises the
rank by their number. -/
theorem foldlM_zipIdx_of_step (P : ℕ → σ → Prop) (q : α → Prop) {N : ℕ}
    (hstep : ∀ k s a i, P k s → q a → k + 1 ≤ N → ∃ s', f s (a, i) = .ok s' ∧ P (k + 1) s') :
    ∀ (w : List α) (k : ℕ) (s : σ) (i : ℕ), P k s → (∀ a ∈ w, q a) → k + w.length ≤ N →
      ∃ s', (w.zipIdx i).foldlM f s = .ok s' ∧ P (k + w.length) s' := by
  intro w
  induction w with
  | nil =>
    intro k s i hs _ _
    exact ⟨s, rfl, hs⟩
  | cons a w ih =>
    intro k s i hs hq hN
    rw [length_cons] at hN
    obtain ⟨s₁, h₁, hs₁⟩ := hstep k s a i hs (hq a mem_cons_self) (by omega)
    obtain ⟨s', h', hs'⟩ := ih (k + 1) s₁ (i + 1) hs₁ (fun b hb => hq b (mem_cons_of_mem a hb))
      (by omega)
    refine ⟨s', ?_, ?_⟩
    · rw [zipIdx_cons, foldlM_except_cons_of_ok h₁]
      exact h'
    · rw [length_cons, ← Nat.add_assoc, Nat.add_right_comm]
      exact hs'

end ZipIdx

end List

namespace Option

variable {ε α β : Type*}

/-- The same for a value that may be absent: absent in both, or related. -/
theorem rel_of_mapM_except_eq_ok {f : α → Except ε β} {R : α → β → Prop}
    (hf : ∀ a b, f a = .ok b → R a b) {o : Option α} {o' : Option β} (h : o.mapM f = .ok o') :
    Option.Rel R o o' := by
  cases o with
  | none =>
    cases h
    exact .none
  | some a =>
    rw [Option.mapM_some] at h
    obtain ⟨b, hb, h⟩ := Except.bind_eq_ok.mp h
    cases h
    exact .some (hf a b hb)

end Option
