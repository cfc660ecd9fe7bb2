import Rhymuri.ValidateIpv4Address

/-!
# The IPv6 address validator

`src/validate_ipv6_address.rs` checks an IPv6 address with a seven-state machine
folded over `str::char_indices` (`try_fold`), then a final check (`finalize`). The
machine counts the completed groups and the digits of the current group, remembers
whether it has met the double colon, and, while the current group is all decimal
digits, where that group started: a dot there ends the fold early
(`MachineExitStatus::Ipv4Trailer`), and the rest of the address, from that start, is
handed to the IPv4 validator and counted as two groups.

The position of a character is its index in the list of characters, and the slice
`&address[start..]` is `address.drop start`. The source uses byte offsets for both,
which designate the same place.

This module holds the machine and what each of its steps can do, one lemma for each
step function. What the validator accepts is proved in
`Rhymuri.ValidateIpv6Address.Correct`.
-/

namespace Rhymuri

namespace ValidateIpv6Address

/-- The fields all states carry. -/
structure Shared where
  /-- The whole address. -/
  address : List Char
  /-- The number of groups completed so far. -/
  numGroups : ℕ
  /-- The number of digits of the current group. -/
  numDigits : ℕ
  /-- Whether the double colon has been met. -/
  doubleColonEncountered : Bool
  /-- Where the current group started, when it could be an IPv4 part. -/
  potentialIpv4AddressStart : ℕ
  deriving DecidableEq, Repr

/-- The states of the machine. -/
inductive State
  /-- Nothing read yet. -/
  | noGroupsYet (state : Shared)
  /-- A colon at the very start: a second one must follow. -/
  | colonButNoGroupsYet (state : Shared)
  /-- Just after the double colon. -/
  | afterDoubleColon (state : Shared)
  /-- Inside a group with a hexadecimal letter. -/
  | inGroupNotIpv4 (state : Shared)
  /-- Inside a group of decimal digits only, which an IPv4 part could start with. -/
  | inGroupCouldBeIpv4 (state : Shared)
  /-- In the IPv4 part, which the machine no longer reads. -/
  | inGroupIpv4 (state : Shared)
  /-- Just after the colon that ends a group. -/
  | colonAfterGroup (state : Shared)
  deriving DecidableEq, Repr

/-- Why the fold stopped early: an error, or the start of an IPv4 part. -/
inductive MachineExitStatus
  /-- The address is not valid. -/
  | error (error : Error)
  /-- A dot ended a group of decimal digits: the IPv4 part starts with that group. -/
  | ipv4Trailer (state : Shared)
  deriving DecidableEq, Repr

namespace State

/-- `State::new`. -/
def new (address : List Char) : State := .noGroupsYet ⟨address, 0, 0, false, 0⟩

/-- The check at the end of `finalize`: with the double colon at most seven groups, without
it exactly eight. -/
def checkNumGroups (doubleColonEncountered : Bool) (numGroups : ℕ) : Except Error Unit :=
  match doubleColonEncountered with
  | true => if numGroups ≤ 7 then .ok () else .error .tooManyAddressParts
  | false =>
    if numGroups = 8 then .ok ()
    else if numGroups < 8 then .error .tooFewAddressParts
    else .error .tooManyAddressParts

/-- `State::finalize`: count the group the address ends in, or validate and count the IPv4
part, then check the count; an address cannot end just after a colon. The two `match`es of
the source, one that counts and one that checks, are merged state by state. -/
def finalize : State → Except Error Unit
  | .noGroupsYet state | .afterDoubleColon state =>
    checkNumGroups state.doubleColonEncountered state.numGroups
  | .inGroupNotIpv4 state | .inGroupCouldBeIpv4 state =>
    checkNumGroups state.doubleColonEncountered (state.numGroups + 1)
  | .inGroupIpv4 state => do
    validateIpv4Address (state.address.drop state.potentialIpv4AddressStart)
    checkNumGroups state.doubleColonEncountered (state.numGroups + 2)
  | .colonButNoGroupsYet _ | .colonAfterGroup _ => .error .truncatedHost

/-- `next_no_groups_yet`. -/
def nextNoGroupsYet (state : Shared) (i : ℕ) (c : Char) : Except MachineExitStatus State :=
  if c = ':' then .ok (.colonButNoGroupsYet state)
  else if digit c then
    .ok (.inGroupCouldBeIpv4 { state with potentialIpv4AddressStart := i, numDigits := 1 })
  else if hexdig c then .ok (.inGroupNotIpv4 { state with numDigits := 1 })
  else .error (.error (.illegalCharacter .ipv6Address))

/-- `next_colon_but_no_groups_yet`. -/
def nextColonButNoGroupsYet (state : Shared) (c : Char) : Except MachineExitStatus State :=
  if c = ':' then .ok (.afterDoubleColon { state with doubleColonEncountered := true })
  else .error (.error (.illegalCharacter .ipv6Address))

/-- `next_after_double_colon`: the digit count goes up before the character is looked at. -/
def nextAfterDoubleColon (state : Shared) (i : ℕ) (c : Char) : Except MachineExitStatus State :=
  let state := { state with numDigits := state.numDigits + 1 }
  if state.numDigits > 4 then .error (.error .tooManyDigits)
  else if digit c then .ok (.inGroupCouldBeIpv4 { state with potentialIpv4AddressStart := i })
  else if hexdig c then .ok (.inGroupNotIpv4 state)
  else .error (.error (.illegalCharacter .ipv6Address))

/-- `next_in_group_not_ipv4`. -/
def nextInGroupNotIpv4 (state : Shared) (c : Char) : Except MachineExitStatus State :=
  if c = ':' then
    .ok (.colonAfterGroup { state with numDigits := 0, numGroups := state.numGroups + 1 })
  else if hexdig c then
    let state := { state with numDigits := state.numDigits + 1 }
    if state.numDigits > 4 then .error (.error .tooManyDigits) else .ok (.inGroupNotIpv4 state)
  else .error (.error (.illegalCharacter .ipv6Address))

/-- `next_in_group_could_be_ipv4`: a dot hands the address over to the IPv4 validator. -/
def nextInGroupCouldBeIpv4 (state : Shared) (c : Char) : Except MachineExitStatus State :=
  if c = ':' then
    .ok (.colonAfterGroup { state with numDigits := 0, numGroups := state.numGroups + 1 })
  else if c = '.' then .error (.ipv4Trailer state)
  else
    let state := { state with numDigits := state.numDigits + 1 }
    if state.numDigits > 4 then .error (.error .tooManyDigits)
    else if digit c then .ok (.inGroupCouldBeIpv4 state)
    else if hexdig c then .ok (.inGroupNotIpv4 state)
    else .error (.error (.illegalCharacter .ipv6Address))

/-- `next_colon_after_group`. -/
def nextColonAfterGroup (state : Shared) (i : ℕ) (c : Char) : Except MachineExitStatus State :=
  if c = ':' then
    if state.doubleColonEncountered then .error (.error .tooManyDoubleColons)
    else .ok (.afterDoubleColon { state with doubleColonEncountered := true })
  else if digit c then
    .ok (.inGroupCouldBeIpv4
      { state with potentialIpv4AddressStart := i, numDigits := state.numDigits + 1 })
  else if hexdig c then .ok (.inGroupNotIpv4 { state with numDigits := state.numDigits + 1 })
  else .error (.error (.illegalCharacter .ipv6Address))

/-- `State::next`, on the character `c` at position `i`. -/
def next : State → ℕ → Char → Except MachineExitStatus State
  | .noGroupsYet state, i, c => nextNoGroupsYet state i c
  | .colonButNoGroupsYet state, _, c => nextColonButNoGroupsYet state c
  | .afterDoubleColon state, i, c => nextAfterDoubleColon state i c
  | .inGroupNotIpv4 state, _, c => nextInGroupNotIpv4 state c
  | .inGroupCouldBeIpv4 state, _, c => nextInGroupCouldBeIpv4 state c
  | .inGroupIpv4 state, _, _ => .ok (.inGroupIpv4 state)
  | .colonAfterGroup state, i, c => nextColonAfterGroup state i c

/-- The closure given to `try_fold`: `char_indices` yields `(i, c)`, `List.zipIdx`
yields `(c, i)`. -/
def step (machine : State) (ci : Char × ℕ) : Except MachineExitStatus State :=
  machine.next ci.2 ci.1

end State

/-- What the fold leaves to `finalize`: its state, or the IPv4 part it stopped at
(the `or_else` of the source). -/
def afterFold : Except MachineExitStatus State → Except Error State
  | .ok machine => .ok machine
  | .error (.ipv4Trailer state) => .ok (.inGroupIpv4 state)
  | .error (.error error) => .error error

end ValidateIpv6Address

open ValidateIpv6Address

/-- `validate_ipv6_address`. -/
def validateIpv6Address (address : List Char) : Except Error Unit :=
  (afterFold (address.zipIdx.foldlM State.step (State.new address))).bind State.finalize

namespace ValidateIpv6Address.State

/-! ### What one step does -/

theorem digit_hexdig {c : Char} (h : digit c = true) : hexdig c = true := by
  simp [hexdig, h]

theorem digit_colon : digit ':' = false := rfl

theorem hexdig_colon : hexdig ':' = false := rfl

theorem hexdig_dot : hexdig '.' = false := rfl

theorem checkNumGroups_eq_ok {dc : Bool} {n : ℕ} :
    checkNumGroups dc n = .ok () ↔ dc = true ∧ n ≤ 7 ∨ dc = false ∧ n = 8 := by
  cases dc <;> simp only [checkNumGroups] <;> split_ifs <;> simp_all

theorem nextNoGroupsYet_eq_ok {s : Shared} {i : ℕ} {c : Char} {t : State} :
    nextNoGroupsYet s i c = .ok t ↔
      c = ':' ∧ .colonButNoGroupsYet s = t ∨
      digit c = true ∧
        .inGroupCouldBeIpv4 { s with potentialIpv4AddressStart := i, numDigits := 1 } = t ∨
      digit c = false ∧ hexdig c = true ∧ .inGroupNotIpv4 { s with numDigits := 1 } = t := by
  unfold nextNoGroupsYet
  by_cases hc : c = ':'
  · subst hc
    simp [digit_colon, hexdig_colon]
  · by_cases hd : digit c = true
    · simp [hc, hd]
    · by_cases hh : hexdig c = true <;> simp [hc, hd, hh]

theorem nextColonButNoGroupsYet_eq_ok {s : Shared} {c : Char} {t : State} :
    nextColonButNoGroupsYet s c = .ok t ↔
      c = ':' ∧ .afterDoubleColon { s with doubleColonEncountered := true } = t := by
  unfold nextColonButNoGroupsYet
  by_cases hc : c = ':' <;> simp [hc]

theorem nextAfterDoubleColon_eq_ok {s : Shared} {i : ℕ} {c : Char} {t : State} :
    nextAfterDoubleColon s i c = .ok t ↔ s.numDigits + 1 ≤ 4 ∧
      (digit c = true ∧ .inGroupCouldBeIpv4
          { s with numDigits := s.numDigits + 1, potentialIpv4AddressStart := i } = t ∨
        digit c = false ∧ hexdig c = true ∧
          .inGroupNotIpv4 { s with numDigits := s.numDigits + 1 } = t) := by
  unfold nextAfterDoubleColon
  dsimp only
  by_cases hn : s.numDigits + 1 > 4
  · simp only [hn, if_true, reduceCtorEq, false_iff, not_and]
    intro h
    omega
  · have hn' : s.numDigits + 1 ≤ 4 := by omega
    by_cases hd : digit c = true
    · simp [hn, hn', hd]
    · by_cases hh : hexdig c = true <;> simp [hn, hn', hd, hh]

theorem nextInGroupNotIpv4_eq_ok {s : Shared} {c : Char} {t : State} :
    nextInGroupNotIpv4 s c = .ok t ↔
      c = ':' ∧ .colonAfterGroup { s with numDigits := 0, numGroups := s.numGroups + 1 } = t ∨
      hexdig c = true ∧ s.numDigits + 1 ≤ 4 ∧
        .inGroupNotIpv4 { s with numDigits := s.numDigits + 1 } = t := by
  unfold nextInGroupNotIpv4
  by_cases hc : c = ':'
  · subst hc
    simp [hexdig_colon]
  · by_cases hh : hexdig c = true
    · dsimp only
      by_cases hn : s.numDigits + 1 > 4
      · simp only [hc, hh, hn, if_false, if_true, reduceCtorEq, false_and, false_or,
          true_and, false_iff, not_and]
        intro h
        omega
      · have hn' : s.numDigits + 1 ≤ 4 := by omega
        simp [hc, hh, hn, hn']
    · simp [hc, hh]

theorem nextInGroupCouldBeIpv4_eq_ok {s : Shared} {c : Char} {t : State} :
    nextInGroupCouldBeIpv4 s c = .ok t ↔
      c = ':' ∧ .colonAfterGroup { s with numDigits := 0, numGroups := s.numGroups + 1 } = t ∨
      s.numDigits + 1 ≤ 4 ∧
        (digit c = true ∧ .inGroupCouldBeIpv4 { s with numDigits := s.numDigits + 1 } = t ∨
          digit c = false ∧ hexdig c = true ∧
            .inGroupNotIpv4 { s with numDigits := s.numDigits + 1 } = t) := by
  unfold nextInGroupCouldBeIpv4
  by_cases hc : c = ':'
  · subst hc
    simp [digit_colon, hexdig_colon]
  · by_cases hdot : c = '.'
    · -- a dot is neither a digit nor a hexadecimal digit
      subst hdot
      have hd : digit '.' = false := rfl
      simp [hd, hexdig_dot]
    · dsimp only
      by_cases hn : s.numDigits + 1 > 4
      · simp only [hc, hdot, hn, if_false, if_true, reduceCtorEq, false_and, false_or,
          false_iff, not_and]
        intro h
        omega
      · have hn' : s.numDigits + 1 ≤ 4 := by omega
        by_cases hd : digit c = true
        · simp [hc, hdot, hn, hn', hd]
        · by_cases hh : hexdig c = true <;> simp [hc, hdot, hn, hn', hd, hh]

theorem nextColonAfterGroup_eq_ok {s : Shared} {i : ℕ} {c : Char} {t : State} :
    nextColonAfterGroup s i c = .ok t ↔
      c = ':' ∧ s.doubleColonEncountered = false ∧
        .afterDoubleColon { s with doubleColonEncountered := true } = t ∨
      digit c = true ∧ .inGroupCouldBeIpv4
        { s with potentialIpv4AddressStart := i, numDigits := s.numDigits + 1 } = t ∨
      digit c = false ∧ hexdig c = true ∧
        .inGroupNotIpv4 { s with numDigits := s.numDigits + 1 } = t := by
  unfold nextColonAfterGroup
  by_cases hc : c = ':'
  · subst hc
    cases hdc : s.doubleColonEncountered <;> simp [digit_colon, hexdig_colon]
  · by_cases hd : digit c = true
    · simp [hc, hd]
    · by_cases hh : hexdig c = true <;> simp [hc, hd, hh]

/-- Only a dot ending a group of decimal digits stops the fold early, and it hands over the
state of that group. -/
theorem next_eq_ipv4Trailer {t : State} {i : ℕ} {c : Char} {s : Shared} :
    t.next i c = .error (.ipv4Trailer s) ↔ t = .inGroupCouldBeIpv4 s ∧ c = '.' := by
  cases t with
  | inGroupCouldBeIpv4 state =>
    simp only [next, nextInGroupCouldBeIpv4, State.inGroupCouldBeIpv4.injEq]
    by_cases hc : c = ':'
    · subst hc
      simp
    · by_cases hdot : c = '.'
      · subst hdot
        simp [eq_comm]
      · simp only [hc, hdot, if_false, and_false, iff_false]
        split_ifs <;> simp
  | noGroupsYet state =>
    simp only [next, nextNoGroupsYet, reduceCtorEq, false_and, iff_false]
    split_ifs <;> simp
  | colonButNoGroupsYet state =>
    simp only [next, nextColonButNoGroupsYet, reduceCtorEq, false_and, iff_false]
    split_ifs <;> simp
  | afterDoubleColon state =>
    simp only [next, nextAfterDoubleColon, reduceCtorEq, false_and, iff_false]
    split_ifs <;> simp
  | inGroupNotIpv4 state =>
    simp only [next, nextInGroupNotIpv4, reduceCtorEq, false_and, iff_false]
    split_ifs <;> simp
  | inGroupIpv4 state => simp [next]
  | colonAfterGroup state =>
    simp only [next, nextColonAfterGroup, reduceCtorEq, false_and, iff_false]
    split_ifs <;> simp

end ValidateIpv6Address.State

end Rhymuri
