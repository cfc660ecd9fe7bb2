import Rhymuri.Cpp.ValidateIpv4Address
import Rhymuri.ValidateIpv6Address.Correct
import Rhymuri.Rfc.Ipv4Address

/-!
# The C++ IPv6 address validator

`ValidateIpv6Address` of `src/Uri.cpp` runs the same six-state machine as the crate's
validator (`Rhymuri.validateIpv6Address`), with the same counters, in a loop whose body is
a `switch`. Inside the loop it can `return false`, or, at the dot that ends a group of
decimal digits, set `ipv4AddressEncountered` and `break`; the variables it leaves are then
checked after the loop. The loop is a fold in `Except`, whose error says which of the two
ways out was taken (`Rhymuri.Cpp.ValidateIpv6Address.LoopExit`).

The two machines run in lockstep: the C++ variables that stand for a state of the crate's
machine (`Rhymuri.Cpp.ValidateIpv6Address.ofState`) step to those that stand for its next
state (`Rhymuri.Cpp.ValidateIpv6Address.step_ofState`). They part only after the loop. When
the loop breaks at an IPv4 part, the state is still `IN_GROUP_COULD_BE_IPV4`, so the group
before the dot is counted as a trailing group, and the IPv4 part is then counted as two
more groups: the first octet of the IPv4 part is counted twice, and an IPv4 part weighs
three groups where the crate counts two (`Rhymuri.Cpp.validateIpv6Address_eq_machine`).
Without an IPv4 part the two validators agree, and accept exactly `IPv6address`
(`Rhymuri.Cpp.validateIpv6Address_iff_of_dot_not_mem`).
-/

namespace Rhymuri

namespace Cpp

namespace ValidateIpv6Address

/-- `ValidationState`. -/
inductive ValidationState
  /-- `NO_GROUPS_YET`. -/
  | noGroupsYet
  /-- `COLON_BUT_NO_GROUPS_YET`. -/
  | colonButNoGroupsYet
  /-- `AFTER_DOUBLE_COLON`. -/
  | afterDoubleColon
  /-- `IN_GROUP_NOT_IPV4`. -/
  | inGroupNotIpv4
  /-- `IN_GROUP_COULD_BE_IPV4`. -/
  | inGroupCouldBeIpv4
  /-- `COLON_AFTER_GROUP`. -/
  | colonAfterGroup
  deriving DecidableEq, Repr

/-- The variables of the loop. -/
structure Locals where
  /-- `state`. -/
  state : ValidationState
  /-- `numGroups`: the groups completed so far. -/
  numGroups : ℕ
  /-- `numDigits`: the digits of the current group. -/
  numDigits : ℕ
  /-- `doubleColonEncountered`. -/
  doubleColonEncountered : Bool
  /-- `potentialIpv4AddressStart`: where the current group started, when it could be the
  first octet of an IPv4 part. -/
  potentialIpv4AddressStart : ℕ
  /-- `position`: the index of the character the loop reads. -/
  position : ℕ
  /-- `ipv4AddressEncountered`. -/
  ipv4AddressEncountered : Bool
  deriving DecidableEq, Repr

/-- The variables before the loop. -/
def init : Locals := ⟨.noGroupsYet, 0, 0, false, 0, 0, false⟩

/-- The `switch` of the loop on one character; `none` is `return false`. Each
`if (++numDigits > 4) return false;` is the test `l.numDigits + 1 > 4`. -/
def next (l : Locals) (c : Char) : Option Locals :=
  match l.state with
  | .noGroupsYet =>
    if c = ':' then some { l with state := .colonButNoGroupsYet }
    else if digit c then
      some { l with
        potentialIpv4AddressStart := l.position, numDigits := 1, state := .inGroupCouldBeIpv4 }
    else if hexdig c then some { l with numDigits := 1, state := .inGroupNotIpv4 }
    else none
  | .colonButNoGroupsYet =>
    if c = ':' then some { l with doubleColonEncountered := true, state := .afterDoubleColon }
    else none
  | .afterDoubleColon =>
    if digit c then
      if l.numDigits + 1 > 4 then none
      else
        some { l with
          potentialIpv4AddressStart := l.position, numDigits := l.numDigits + 1,
          state := .inGroupCouldBeIpv4 }
    else if hexdig c then
      if l.numDigits + 1 > 4 then none
      else some { l with numDigits := l.numDigits + 1, state := .inGroupNotIpv4 }
    else none
  | .inGroupNotIpv4 =>
    if c = ':' then
      some { l with numDigits := 0, numGroups := l.numGroups + 1, state := .colonAfterGroup }
    else if hexdig c then
      if l.numDigits + 1 > 4 then none else some { l with numDigits := l.numDigits + 1 }
    else none
  | .inGroupCouldBeIpv4 =>
    if c = ':' then
      some { l with numDigits := 0, numGroups := l.numGroups + 1, state := .colonAfterGroup }
    else if c = '.' then some { l with ipv4AddressEncountered := true }
    else if digit c then
      if l.numDigits + 1 > 4 then none else some { l with numDigits := l.numDigits + 1 }
    else if hexdig c then
      if l.numDigits + 1 > 4 then none
      else some { l with numDigits := l.numDigits + 1, state := .inGroupNotIpv4 }
    else none
  | .colonAfterGroup =>
    if c = ':' then
      if l.doubleColonEncountered then none
      else some { l with doubleColonEncountered := true, state := .afterDoubleColon }
    else if digit c then
      some { l with
        potentialIpv4AddressStart := l.position, numDigits := l.numDigits + 1,
        state := .inGroupCouldBeIpv4 }
    else if hexdig c then
      some { l with numDigits := l.numDigits + 1, state := .inGroupNotIpv4 }
    else none

/-- How the loop can be left before its end. -/
inductive LoopExit
  /-- `return false`. -/
  | returnFalse
  /-- `break`, once the IPv4 part is met, with the variables at that point. -/
  | breakLoop (l : Locals)
  deriving DecidableEq, Repr

/-- One turn of the loop: the `switch`, then `break` if it met the IPv4 part, or
`++position`. -/
def step (l : Locals) (c : Char) : Except LoopExit Locals :=
  match next l c with
  | none => .error .returnFalse
  | some l =>
    if l.ipv4AddressEncountered then .error (.breakLoop l)
    else .ok { l with position := l.position + 1 }

/-- What follows the loop: a trailing group is counted, a trailing colon fails, the IPv4
part, if there is one, is validated and counted as two groups, and the count is checked. -/
def finish (address : List Char) (l : Locals) : Bool :=
  -- count trailing group
  let numGroups :=
    if l.state = .inGroupNotIpv4 ∨ l.state = .inGroupCouldBeIpv4 then l.numGroups + 1
    else l.numGroups
  -- trailing single colon
  if l.position = address.length ∧
      (l.state = .colonButNoGroupsYet ∨ l.state = .colonAfterGroup) then false
  else if l.ipv4AddressEncountered ∧
      validateIpv4Address (address.drop l.potentialIpv4AddressStart) = false then false
  else
    let numGroups := if l.ipv4AddressEncountered then numGroups + 2 else numGroups
    if l.doubleColonEncountered then decide (numGroups ≤ 7) else decide (numGroups = 8)

end ValidateIpv6Address

open Rhymuri.Cpp.ValidateIpv6Address in
/-- `ValidateIpv6Address`. -/
def validateIpv6Address (address : List Char) : Bool :=
  match address.foldlM step init with
  | .ok l => finish address l
  | .error (.breakLoop l) => finish address l
  | .error .returnFalse => false

/-! ### The crate's machine, run by the C++ loop -/

namespace ValidateIpv6Address

open Rhymuri.ValidateIpv6Address (Shared State MachineExitStatus)

/-- The C++ variables for the fields of a state of the crate's machine, in the C++ state
`q`, at position `k`. -/
def ofShared (q : ValidationState) (k : ℕ) (ipv4 : Bool) (s : Shared) : Locals :=
  ⟨q, s.numGroups, s.numDigits, s.doubleColonEncountered, s.potentialIpv4AddressStart, k, ipv4⟩

/-- The C++ variables that stand for a state of the crate's machine at position `k`. The
crate's state for the IPv4 part is the C++ state at the `break`. -/
def ofState (k : ℕ) : State → Locals
  | .noGroupsYet s => ofShared .noGroupsYet k false s
  | .colonButNoGroupsYet s => ofShared .colonButNoGroupsYet k false s
  | .afterDoubleColon s => ofShared .afterDoubleColon k false s
  | .inGroupNotIpv4 s => ofShared .inGroupNotIpv4 k false s
  | .inGroupCouldBeIpv4 s => ofShared .inGroupCouldBeIpv4 k false s
  | .inGroupIpv4 s => ofShared .inGroupCouldBeIpv4 k true s
  | .colonAfterGroup s => ofShared .colonAfterGroup k false s

/-- The states of the crate's machine that read characters: all but the IPv4 part. -/
def reads : State → Bool
  | .inGroupIpv4 _ => false
  | _ => true

/-- The outcome of a turn of the C++ loop that stands for the outcome of a step of the
crate's machine at position `k`. -/
def ofNext (k : ℕ) : Except MachineExitStatus State → Except LoopExit Locals
  | .ok t => .ok (ofState (k + 1) t)
  | .error (.ipv4Trailer s) => .error (.breakLoop (ofState k (.inGroupIpv4 s)))
  | .error (.error _) => .error .returnFalse

/-- **One turn of the C++ loop is one step of the crate's machine.** The two `switch`es test
the same conditions in the same order, except that the crate counts a digit before it looks
at the character, which changes the error but not the outcome. -/
theorem step_ofState {s : State} (hs : reads s = true) (k : ℕ) (c : Char) :
    step (ofState k s) c = ofNext k (s.next k c) := by
  cases s with
  | noGroupsYet s =>
    simp only [step, next, ofState, ofShared, State.next, State.nextNoGroupsYet]
    split_ifs <;> simp [*, ofNext, ofState, ofShared]
  | colonButNoGroupsYet s =>
    simp only [step, next, ofState, ofShared, State.next, State.nextColonButNoGroupsYet]
    split_ifs <;> simp [*, ofNext, ofState, ofShared]
  | afterDoubleColon s =>
    simp only [step, next, ofState, ofShared, State.next, State.nextAfterDoubleColon]
    split_ifs <;> simp [*, ofNext, ofState, ofShared]
  | inGroupNotIpv4 s =>
    simp only [step, next, ofState, ofShared, State.next, State.nextInGroupNotIpv4]
    split_ifs <;> simp [*, ofNext, ofState, ofShared]
  | inGroupCouldBeIpv4 s =>
    simp only [step, next, ofState, ofShared, State.next, State.nextInGroupCouldBeIpv4]
    split_ifs <;> simp [*, ofNext, ofState, ofShared]
  | inGroupIpv4 s => simp [reads] at hs
  | colonAfterGroup s =>
    simp only [step, next, ofState, ofShared, State.next, State.nextColonAfterGroup]
    split_ifs <;> simp [*, ofNext, ofState, ofShared]

/-- A step of the crate's machine that goes on goes on reading. -/
theorem reads_of_next {s t : State} {k : ℕ} {c : Char} (hs : reads s = true)
    (h : s.next k c = .ok t) : reads t = true := by
  cases s with
  | noGroupsYet s =>
    simp only [State.next, State.nextNoGroupsYet] at h
    split_ifs at h <;> cases h <;> rfl
  | colonButNoGroupsYet s =>
    simp only [State.next, State.nextColonButNoGroupsYet] at h
    split_ifs at h
    cases h
    rfl
  | afterDoubleColon s =>
    simp only [State.next, State.nextAfterDoubleColon] at h
    split_ifs at h <;> cases h <;> rfl
  | inGroupNotIpv4 s =>
    simp only [State.next, State.nextInGroupNotIpv4] at h
    split_ifs at h <;> cases h <;> rfl
  | inGroupCouldBeIpv4 s =>
    simp only [State.next, State.nextInGroupCouldBeIpv4] at h
    split_ifs at h <;> cases h <;> rfl
  | inGroupIpv4 s => simp [reads] at hs
  | colonAfterGroup s =>
    simp only [State.next, State.nextColonAfterGroup] at h
    split_ifs at h <;> cases h <;> rfl

/-- How a run of the crate's machine from position `k` over `n` characters and the C++ loop
over the same characters end, side by side: in the states that stand for each other, at the
same IPv4 part, or both failing. -/
def LoopEnd (k n : ℕ) : Except MachineExitStatus State → Except LoopExit Locals → Prop
  | .ok t, r => r = .ok (ofState (k + n) t)
  | .error (.ipv4Trailer s), r => ∃ j, r = .error (.breakLoop (ofState j (.inGroupIpv4 s)))
  | .error (.error _), r => r = .error .returnFalse

theorem loopEnd_succ {k n : ℕ} {r : Except MachineExitStatus State}
    {r' : Except LoopExit Locals} (h : LoopEnd (k + 1) n r r') : LoopEnd k (n + 1) r r' := by
  rcases r with (e | s) | t
  · exact h
  · exact h
  · simp only [LoopEnd] at h ⊢
    rw [h, Nat.add_right_comm, Nat.add_assoc]

/-- **The C++ loop runs the crate's machine**, by induction on the characters, one
`step_ofState` for each. -/
theorem foldlM_step_ofState : ∀ (w : List Char) (k : ℕ) (s : State), reads s = true →
    LoopEnd k w.length ((w.zipIdx k).foldlM State.step s) (w.foldlM step (ofState k s))
  | [], k, s, _ => rfl
  | c :: w, k, s, hs => by
    have hc : step (ofState k s) c = ofNext k (s.next k c) := step_ofState hs k c
    have hr : State.step s (c, k) = s.next k c := rfl
    rw [List.zipIdx_cons, List.foldlM_except_cons, List.foldlM_except_cons, hc, hr]
    rcases hn : s.next k c with (e | st) | t
    · exact rfl
    · exact ⟨k, rfl⟩
    · exact loopEnd_succ (foldlM_step_ofState w (k + 1) t (reads_of_next hs hn))

/-- The count check of the crate, as a test. -/
theorem isOk_checkNumGroups (dc : Bool) (n : ℕ) :
    (State.checkNumGroups dc n).isOk = if dc then decide (n ≤ 7) else decide (n = 8) := by
  cases dc <;> simp only [State.checkNumGroups] <;> split_ifs <;> simp_all [Except.isOk,
    Except.toBool]

/-- After a run that reads to the end, the C++ checks are the crate's `finalize`. -/
theorem finish_ofState (a : List Char) {t : State} (ht : reads t = true) :
    finish a (ofState a.length t) = (t.finalize).isOk := by
  cases t with
  | inGroupIpv4 s => simp [reads] at ht
  | colonButNoGroupsYet s | colonAfterGroup s =>
    -- a trailing colon: both fail
    simp only [finish, ofState, ofShared]
    rfl
  | _ s => simp [finish, ofState, ofShared, State.finalize, isOk_checkNumGroups]

/-- After a `break` at an IPv4 part, the C++ checks validate it and count three groups more
than the groups before it. -/
theorem finish_ofState_inGroupIpv4 (a : List Char) (j : ℕ) (s : Shared) :
    finish a (ofState j (.inGroupIpv4 s)) =
      (validateIpv4Address (a.drop s.potentialIpv4AddressStart) &&
        (State.checkNumGroups s.doubleColonEncountered (s.numGroups + 3)).isOk) := by
  cases hv : validateIpv4Address (a.drop s.potentialIpv4AddressStart) <;>
    simp [finish, ofState, ofShared, hv, isOk_checkNumGroups, Nat.add_assoc]

end ValidateIpv6Address

open Rhymuri.ValidateIpv6Address (State)
open Rhymuri.Cpp.ValidateIpv6Address

/-- **The C++ IPv6 validator is the crate's machine with another IPv4 part**: the run of the
machine decides, except that an IPv4 part is validated by the C++ IPv4 validator and
counted as three groups, where the crate's `finalize` counts two. -/
theorem validateIpv6Address_eq_machine (address : List Char) :
    validateIpv6Address address =
      match address.zipIdx.foldlM State.step (State.new address) with
      | .ok t => t.finalize.isOk
      | .error (.ipv4Trailer s) =>
        validateIpv4Address (address.drop s.potentialIpv4AddressStart) &&
          (State.checkNumGroups s.doubleColonEncountered (s.numGroups + 3)).isOk
      | .error (.error _) => false := by
  have hrun := foldlM_step_ofState address 0 (State.new address) rfl
  have hinit : init = ofState 0 (State.new address) := rfl
  rw [validateIpv6Address, hinit]
  rcases hr : address.zipIdx.foldlM State.step (State.new address) with (e | s) | t
  · rw [hr] at hrun
    simp only [LoopEnd] at hrun
    rw [hrun]
  · rw [hr] at hrun
    obtain ⟨j, hj⟩ := hrun
    rw [hj]
    exact finish_ofState_inGroupIpv4 address j s
  · have ht : reads t = true :=
      List.foldlM_zipIdx_invariant (fun _ s => reads s = true)
        (fun _ _ _ _ hs h => reads_of_next hs h) address [] _ t rfl hr
    rw [hr] at hrun
    simp only [LoopEnd, Nat.zero_add] at hrun
    rw [hrun]
    exact finish_ofState address ht

/-- Without a dot, the crate's machine never hands over to an IPv4 part. -/
theorem foldlM_ne_ipv4Trailer {a : List Char} (ha : '.' ∉ a) (σ : State)
    (s : Rhymuri.ValidateIpv6Address.Shared) :
    a.zipIdx.foldlM State.step σ ≠ .error (.ipv4Trailer s) := by
  intro h
  obtain ⟨v, c, x, s₁, rfl, -, hc⟩ :=
    List.foldlM_zipIdx_eq_error (fun _ _ => True) (fun _ _ _ _ _ _ => trivial) a [] σ _ trivial h
  obtain ⟨-, rfl⟩ := Rhymuri.ValidateIpv6Address.State.next_eq_ipv4Trailer.mp hc
  exact ha (List.mem_append_right _ List.mem_cons_self)

/-- The IPv4 parts the crate's IPv6 validator accepts hold a dot. -/
theorem dot_mem_of_mem_acceptedIpv4Part {v : List Char}
    (hv : v ∈ Rhymuri.ValidateIpv6Address.acceptedIpv4Part) : '.' ∈ v := by
  obtain ⟨os, hlen, -, rfl⟩ := (Rhymuri.validateIpv4Address_eq_ok_iff v).mp hv.1
  obtain ⟨o₁, o₂, o₃, o₄, rfl⟩ := List.length_eq_four.mp hlen
  simp

/-- **Without an IPv4 part, the C++ IPv6 validator accepts exactly `IPv6address`.** -/
theorem validateIpv6Address_iff_of_dot_not_mem {a : List Char} (ha : '.' ∉ a) :
    validateIpv6Address a = true ↔ a ∈ Rfc.ipv6address Rfc.ipv4address := by
  -- the crate's validator accepts the same addresses, and neither depends on the IPv4 parts
  have hrfc : a ∈ Rfc.ipv6address Rfc.ipv4address ↔ Rhymuri.validateIpv6Address a = .ok () := by
    rw [Rfc.mem_ipv6address_iff, Rhymuri.validateIpv6Address_eq_ok_iff]
    exact ⟨fun h => Rfc.ipv6Text_of_dot_not_mem (fun _ => Rfc.dot_mem_of_mem_ipv4address) h ha,
      fun h => Rfc.ipv6Text_of_dot_not_mem (fun _ => dot_mem_of_mem_acceptedIpv4Part) h ha⟩
  rw [hrfc, validateIpv6Address_eq_machine, Rhymuri.validateIpv6Address]
  rcases hr : a.zipIdx.foldlM State.step (State.new a) with (e | s) | t
  · simp [Rhymuri.ValidateIpv6Address.afterFold, Except.bind]
  · exact absurd hr (foldlM_ne_ipv4Trailer ha _ s)
  · simp only [Rhymuri.ValidateIpv6Address.afterFold, Except.bind]
    cases t.finalize <;> simp [Except.isOk, Except.toBool]

/-- Six groups and an IPv4 part, with no double colon: an `IPv6address` that the C++
validator rejects, since it counts the IPv4 part as three groups and finds nine. -/
theorem validateIpv6Address_six_groups_ipv4 :
    validateIpv6Address
        ['1', ':', '2', ':', '3', ':', '4', ':', '5', ':', '6', ':', '1', '.', '2', '.', '3', '.',
          '4'] = false ∧
      ['1', ':', '2', ':', '3', ':', '4', ':', '5', ':', '6', ':', '1', '.', '2', '.', '3', '.',
          '4'] ∈ Rfc.ipv6address Rfc.ipv4address := by
  refine ⟨by decide, (Rfc.mem_ipv6address_iff _).mpr (.inl (.inr ⟨[['1'], ['2'], ['3'], ['4'],
    ['5'], ['6']], ['1', '.', '2', '.', '3', '.', '4'], rfl, ?_, ?_, rfl⟩))⟩
  · intro g hg
    simp only [List.mem_cons, List.not_mem_nil, or_false] at hg
    rcases hg with rfl | rfl | rfl | rfl | rfl | rfl <;>
      exact Rhymuri.ValidateIpv6Address.isH16_singleton rfl
  · refine Rfc.mem_ipv4address_iff.mpr ⟨[['1'], ['2'], ['3'], ['4']], rfl, ?_, rfl⟩
    intro o ho
    simp only [List.mem_cons, List.not_mem_nil, or_false] at ho
    rcases ho with rfl | rfl | rfl | rfl <;> exact Rfc.singleton_mem_decOctet rfl

end Cpp

end Rhymuri
