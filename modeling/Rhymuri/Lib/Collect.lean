import Mathlib.Data.List.Basic

/-!
# Iterator adaptors as functions on lists

The Rust code this development models walks strings with iterator chains whose
closures carry mutable state: a `filter_map` whose closure updates a flag and a
decoder, collected into a `Result<Vec<_>, _>`. This file gives those two
adaptors a meaning on lists and proves the equations the later files rewrite
with; nothing here knows what is being decoded.

* `Rhymuri.filterMapScan` – `filter_map` with a closure that threads a state
  `σ` from one element to the next;
* `Rhymuri.collectResult` – `collect::<Result<Vec<_>, _>>()`, which stops at the
  first error;
* `Rhymuri.filterMapCollect` – the two together, run lazily with a closure that can panic.

Laziness is not modelled by the first two: `collect` stops pulling elements at the
first error, and the elements after it are computed here but never looked at, so the
result is the same. It matters once the closure can panic, since a closure that is never
run cannot panic, and `Rhymuri.filterMapCollect` runs it only up to the first error.
-/

namespace Rhymuri

variable {σ α β ε : Type*}

/-! ### `filter_map` with a stateful closure -/

/-- `filter_map` driven by a closure that reads and updates a state: each element
is given the state left by the previous one, and the values the closure returns
as `some` are kept, in order. -/
def filterMapScan (f : σ → α → σ × Option β) : σ → List α → List β
  | _, [] => []
  | s, a :: as =>
    match f s a with
    | (s', none) => filterMapScan f s' as
    | (s', some b) => b :: filterMapScan f s' as

@[simp] theorem filterMapScan_nil (f : σ → α → σ × Option β) (s : σ) :
    filterMapScan f s [] = [] := rfl

theorem filterMapScan_cons_none {f : σ → α → σ × Option β} {s s' : σ} {a : α}
    (h : f s a = (s', none)) (as : List α) :
    filterMapScan f s (a :: as) = filterMapScan f s' as := by
  rw [filterMapScan, h]

theorem filterMapScan_cons_some {f : σ → α → σ × Option β} {s s' : σ} {a : α} {b : β}
    (h : f s a = (s', some b)) (as : List α) :
    filterMapScan f s (a :: as) = b :: filterMapScan f s' as := by
  rw [filterMapScan, h]

/-! ### Collecting results -/

/-- `collect::<Result<Vec<_>, _>>()`: the first error of the list, or the list of
all its values when there is none. -/
def collectResult : List (Except ε β) → Except ε (List β)
  | [] => .ok []
  | .ok b :: rest => (collectResult rest).map (b :: ·)
  | .error e :: _ => .error e

@[simp] theorem collectResult_nil : collectResult ([] : List (Except ε β)) = .ok [] := rfl

@[simp] theorem collectResult_cons_ok (b : β) (rest : List (Except ε β)) :
    collectResult (.ok b :: rest) = (collectResult rest).map (b :: ·) := rfl

@[simp] theorem collectResult_cons_error (e : ε) (rest : List (Except ε β)) :
    collectResult (.error e :: rest) = .error e := rfl

/-- Collecting the successes of a list of values gives the list back. -/
@[simp] theorem collectResult_map_ok (bs : List β) :
    collectResult (bs.map (.ok : β → Except ε β)) = .ok bs := by
  induction bs with
  | nil => rfl
  | cons b bs ih => rw [List.map_cons, collectResult_cons_ok, ih]; rfl

/-! ### Collecting, lazily, with a closure that can panic -/

/-- `filter_map` then `collect::<Result<Vec<_>, _>>()`, run lazily with a closure that can
panic (`none`): the closure runs on each element until it returns the first error, and a
panic of the closure is a panic of the whole. -/
def filterMapCollect (f : σ → α → Option (σ × Option (Except ε β))) :
    σ → List α → Option (Except ε (List β))
  | _, [] => some (.ok [])
  | s, a :: as =>
    match f s a with
    | none => none
    | some (s', none) => filterMapCollect f s' as
    | some (s', some (.ok b)) => (filterMapCollect f s' as).map (·.map (b :: ·))
    | some (_, some (.error e)) => some (.error e)

/-- **A lazy collect that does not panic**: from any state of an invariant, the closure
does not panic, answers as a total closure does, and that closure keeps the invariant. -/
theorem filterMapCollect_eq_some {f : σ → α → Option (σ × Option (Except ε β))}
    {g : σ → α → σ × Option (Except ε β)} (I : σ → Prop)
    (hstep : ∀ s a, I s → f s a = some (g s a)) (hinv : ∀ s a, I s → I (g s a).1) :
    ∀ (l : List α) (s : σ), I s → filterMapCollect f s l = some (collectResult (filterMapScan g s l))
  | [], _, _ => rfl
  | a :: l, s, hs => by
    have ih := filterMapCollect_eq_some I hstep hinv l (g s a).1 (hinv s a hs)
    rw [filterMapCollect, hstep s a hs]
    -- one case for each answer of the closure
    rcases hg : g s a with ⟨s', _ | _ | b⟩ <;> rw [hg] at ih
    · rw [filterMapScan_cons_none hg]
      exact ih
    · rw [filterMapScan_cons_some hg, collectResult_cons_error]
    · rw [filterMapScan_cons_some hg, collectResult_cons_ok]
      exact congrArg (Option.map _) ih

/-- An `Except.map` that succeeds came from a success. -/
theorem Except.map_eq_ok {f : β → α} {x : Except ε β} {a : α} :
    x.map f = .ok a ↔ ∃ b, x = .ok b ∧ f b = a := by
  cases x with
  | error e => exact iff_of_false (by simp [Except.map]) (by simp)
  | ok b => simp [Except.map]

end Rhymuri
