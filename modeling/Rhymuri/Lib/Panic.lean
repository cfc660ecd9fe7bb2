import Mathlib.Data.List.Basic

/-!
# Computations that can panic

A Rust function that returns a `Result<T, E>` and can also panic is a value of
`ExceptT E Option T` here: `none` is a panic, `some r` the `Result` it returns. The `?`
operator is the bind of that monad, and each operation of the language that can panic
gives `none` where it does:

* the `unwrap` of a conversion to a byte (`Rhymuri.u8TryFrom`);
* an addition or a subtraction that leaves its type, which panics in a debug build
  (`Rhymuri.checkedAdd`, `Rhymuri.checkedSub`);
* a string slice off a character boundary (`Rhymuri.sliceBytes`, in `Rhymuri.Lib.Utf8`).

That such a computation never panics, and returns what a total model of it returns, is
`x.run = some y`. The rules below prove it through a `do` block one bind at a time
(`Rhymuri.run_bind_eq_some`, and `Rhymuri.run_liftM_bind` for a partial operation that
succeeds), through a fold with an invariant of its states (`Rhymuri.run_foldlM_eq_some`)
and through a `mapM` (`Rhymuri.run_mapM_eq_some`).
-/

namespace Rhymuri

/-! ### Partial operations -/

/-- `u8::try_from(n).ok()`: the byte `n`, if there is one. -/
def u8TryFrom (n : ℕ) : Option UInt8 := if n < 256 then some (UInt8.ofNat n) else none

/-- `u8::checked_add`: the sum, if it is a byte. -/
def checkedAdd (a b : UInt8) : Option UInt8 := if a.toNat + b.toNat < 256 then some (a + b) else none

/-- `usize::checked_sub`: the difference, if it is not negative. -/
def checkedSub (a b : ℕ) : Option ℕ := if b ≤ a then some (a - b) else none

theorem u8TryFrom_of_lt {n : ℕ} (h : n < 256) : u8TryFrom n = some (UInt8.ofNat n) :=
  if_pos h

theorem checkedAdd_of_lt {a b : UInt8} (h : a.toNat + b.toNat < 256) :
    checkedAdd a b = some (a + b) :=
  if_pos h

theorem checkedSub_of_le {a b : ℕ} (h : b ≤ a) : checkedSub a b = some (a - b) :=
  if_pos h

/-- The bytes of a list of characters below 256, converted one by one. -/
theorem mapM_u8TryFrom_of_lt {cs : List Char} (h : ∀ c ∈ cs, c.toNat < 256) :
    cs.mapM (fun c => u8TryFrom c.toNat) = some (cs.map fun c => UInt8.ofNat c.toNat) := by
  induction cs with
  | nil => rfl
  | cons c cs ih =>
    rw [List.mapM_cons, u8TryFrom_of_lt (h c List.mem_cons_self),
      ih fun d hd => h d (List.mem_cons_of_mem c hd)]
    rfl

/-! ### Never panicking -/

universe u

variable {ε α β σ : Type u}

/-- A total computation, lifted, does not panic. -/
theorem run_liftM_except (x : Except ε α) : (liftM x : ExceptT ε Option α).run = some x := by
  cases x <;> rfl

/-- **A bind that does not panic**: its first part does not, and neither does the rest on
any value the first part returns. -/
theorem run_bind_eq_some {x : ExceptT ε Option α} {y : Except ε α}
    {f : α → ExceptT ε Option β} {g : α → Except ε β} (hx : x.run = some y)
    (hf : ∀ a, y = .ok a → (f a).run = some (g a)) : (x >>= f).run = some (y >>= g) := by
  rw [ExceptT.run_bind, hx]
  cases y with
  | error e => rfl
  | ok a => exact hf a rfl

/-- A partial operation that succeeds passes its value on. -/
theorem run_liftM_bind {o : Option α} {a : α} (ho : o = some a) (f : α → ExceptT ε Option β) :
    (liftM o >>= f).run = (f a).run := by
  subst ho
  rfl

/-- **A fold that does not panic**: from any state of an invariant, a step does not panic
and keeps the invariant when it succeeds. -/
theorem run_foldlM_eq_some {f : σ → α → ExceptT ε Option σ} {g : σ → α → Except ε σ}
    (I : σ → Prop) (hstep : ∀ s a, I s → (f s a).run = some (g s a))
    (hinv : ∀ s a t, I s → g s a = .ok t → I t) :
    ∀ (l : List α) (s : σ), I s → (l.foldlM f s).run = some (l.foldlM g s)
  | [], _, _ => rfl
  | a :: l, s, hs => by
    rw [List.foldlM_cons, List.foldlM_cons]
    exact run_bind_eq_some (hstep s a hs) fun t ht =>
      run_foldlM_eq_some I hstep hinv l t (hinv s a t hs ht)

/-- A `mapM` that does not panic on any element does not panic. -/
theorem run_mapM_eq_some {f : α → ExceptT ε Option β} {g : α → Except ε β} :
    ∀ {l : List α}, (∀ a ∈ l, (f a).run = some (g a)) → (l.mapM f).run = some (l.mapM g)
  | [], _ => rfl
  | a :: l, h => by
    rw [List.mapM_cons, List.mapM_cons]
    refine run_bind_eq_some (h a List.mem_cons_self) fun b _ => ?_
    refine run_bind_eq_some (run_mapM_eq_some fun a' ha' => h a' (List.mem_cons_of_mem a ha'))
      fun bs _ => ?_
    rfl

end Rhymuri
