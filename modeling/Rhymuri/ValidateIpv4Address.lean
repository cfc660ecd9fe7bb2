import Rhymuri.Lib.Fold
import Rhymuri.Lib.Intercalate
import Rhymuri.Error
import Rhymuri.CharacterClasses
import Rhymuri.Rfc.Ipv4Address

/-!
# The IPv4 address validator

`src/validate_ipv4_address.rs` checks a dotted address with a two-state machine
folded over the characters (`try_fold`) and a final check (`finalize`). The machine
collects the digits of the current part in `octet_buffer`, counts the parts in
`num_groups`, and hands each complete part to `str::parse::<u8>`.

What the validator accepts is stated without the machine in
`Rhymuri.validateIpv4Address_eq_ok_iff`: four parts joined by dots, each a nonempty
run of digits that `str::parse::<u8>` reads (`Rhymuri.IsOctetText`). That is wider than
the RFC's `dec-octet`, since `u8::from_str` reads leading zeros.

The proof has the two halves of a machine proof. An invariant of the text read so far
(`Rhymuri.ValidateIpv4Address.Inv`) is kept by every step and gives the shape of an
accepted address; and the runs of the machine over the parts of a dotted address are
computed, which gives that every such address is accepted.
-/

namespace Rhymuri

namespace ValidateIpv4Address

/-- The fields both states carry. -/
structure Shared where
  /-- The number of parts completed so far. -/
  numGroups : ℕ
  /-- The digits of the current part. -/
  octetBuffer : List Char
  deriving DecidableEq, Repr

/-- The states of the machine: before a part, or inside one. -/
inductive State
  /-- Expecting the first digit of a part. -/
  | notInOctet (state : Shared)
  /-- Inside a part: a digit or a dot comes next. -/
  | expectDigitOrDot (state : Shared)
  deriving DecidableEq, Repr

namespace State

/-- `State::new`: no part read yet. -/
def new : State := .notInOctet ⟨0, []⟩

/-- `next_not_in_octet`: a part starts with a digit. -/
def nextNotInOctet (state : Shared) (c : Char) : Except Error State :=
  if digit c then .ok (.expectDigitOrDot { state with octetBuffer := state.octetBuffer ++ [c] })
  else .error (.illegalCharacter .ipv4Address)

/-- `next_expect_digit_or_dot`: a dot completes the part, counts it, and checks it with
`str::parse::<u8>`; a digit extends it. -/
def nextExpectDigitOrDot (state : Shared) (c : Char) : Except Error State :=
  if c = '.' then
    let state := { state with numGroups := state.numGroups + 1 }
    if state.numGroups > 4 then .error .tooManyAddressParts
    else
      match parseU8 state.octetBuffer with
      | .error _ => .error .invalidDecimalOctet
      | .ok _ => .ok (.notInOctet { state with octetBuffer := [] })
  else if digit c then .ok (.expectDigitOrDot { state with octetBuffer := state.octetBuffer ++ [c] })
  else .error (.illegalCharacter .ipv4Address)

/-- `State::next`. -/
def next : State → Char → Except Error State
  | .notInOctet state, c => nextNotInOctet state c
  | .expectDigitOrDot state, c => nextExpectDigitOrDot state c

/-- `finalize_expect_digit_or_dot`: count and check the last part, if there is one, then
require four parts. -/
def finalizeExpectDigitOrDot (state : Shared) : Except Error Unit := do
  let numGroups ←
    if state.octetBuffer.isEmpty then pure state.numGroups
    else
      match parseU8 state.octetBuffer with
      | .ok _ => pure (state.numGroups + 1)
      | .error _ => throw .invalidDecimalOctet
  if numGroups = 4 then pure ()
  else if numGroups < 4 then throw .tooFewAddressParts
  else throw .tooManyAddressParts

/-- `State::finalize`: an address cannot end before a part. -/
def finalize : State → Except Error Unit
  | .notInOctet _ => .error .truncatedHost
  | .expectDigitOrDot state => finalizeExpectDigitOrDot state

end State

end ValidateIpv4Address

open ValidateIpv4Address

/-- `validate_ipv4_address`: run the machine over the characters, then finalize. -/
def validateIpv4Address (address : List Char) : Except Error Unit :=
  (address.foldlM State.next State.new).bind State.finalize

/-! ### What one step does -/

namespace ValidateIpv4Address.State

theorem nextNotInOctet_eq_ok {state : Shared} {c : Char} {t : State} :
    nextNotInOctet state c = .ok t ↔
      digit c = true ∧ t = .expectDigitOrDot ⟨state.numGroups, state.octetBuffer ++ [c]⟩ := by
  unfold nextNotInOctet
  split
  · next hc => simp only [Except.ok.injEq, hc, true_and]; exact eq_comm
  · next hc => simp [hc]

theorem nextExpectDigitOrDot_eq_ok {state : Shared} {c : Char} {t : State} :
    nextExpectDigitOrDot state c = .ok t ↔
      (c = '.' ∧ state.numGroups + 1 ≤ 4 ∧ (∃ b, parseU8 state.octetBuffer = .ok b) ∧
        t = .notInOctet ⟨state.numGroups + 1, []⟩) ∨
      (digit c = true ∧ t = .expectDigitOrDot ⟨state.numGroups, state.octetBuffer ++ [c]⟩) := by
  unfold nextExpectDigitOrDot
  dsimp only
  by_cases hc : c = '.'
  · -- a dot: the count and the parse decide
    subst hc
    have hdot : digit '.' = false := rfl
    simp only [if_true, hdot, Bool.false_eq_true, false_and, or_false, true_and]
    by_cases hgt : state.numGroups + 1 > 4
    · simp only [hgt, if_true, reduceCtorEq, false_iff, not_and]
      intro h
      omega
    · simp only [hgt, if_false]
      cases hp : parseU8 state.octetBuffer with
      | error e => simp
      | ok b =>
        simp only [Except.ok.injEq]
        constructor
        · rintro rfl
          exact ⟨by omega, ⟨b, rfl⟩, rfl⟩
        · rintro ⟨-, -, rfl⟩
          rfl
  · simp only [hc, if_false, false_and, false_or]
    split
    · next hd => simp only [Except.ok.injEq, hd, true_and]; exact eq_comm
    · next hd => simp [hd]

/-- The last step succeeds exactly on a nonempty last part that `str::parse::<u8>` reads,
the fourth. -/
theorem finalize_eq_ok {t : State} :
    t.finalize = .ok () ↔ ∃ state, t = .expectDigitOrDot state ∧
      (state.octetBuffer = [] ∧ state.numGroups = 4 ∨
        state.octetBuffer ≠ [] ∧ (∃ b, parseU8 state.octetBuffer = .ok b) ∧
          state.numGroups + 1 = 4) := by
  cases t with
  | notInOctet state => simp [finalize]
  | expectDigitOrDot state =>
    simp only [finalize, finalizeExpectDigitOrDot, State.expectDigitOrDot.injEq, exists_eq_left']
    by_cases hb : state.octetBuffer = []
    · simp only [hb, List.isEmpty_nil, if_true, pure_bind]
      split_ifs <;> simp_all
    · simp only [List.isEmpty_iff, hb, if_false]
      cases hp : parseU8 state.octetBuffer with
      | error e => simp [hb, bind, Except.bind]
      | ok b =>
        simp only [pure_bind, hb, false_and, false_or, ne_eq, not_false_eq_true, true_and]
        split_ifs <;> simp_all

end ValidateIpv4Address.State

/-! ### The accepted addresses -/

/-- A part of a dotted address as the validator accepts it: a nonempty run of digits that
`str::parse::<u8>` reads. -/
def IsOctetText (o : List Char) : Prop :=
  o ≠ [] ∧ (∀ c ∈ o, digit c = true) ∧ ∃ b, parseU8 o = .ok b

namespace ValidateIpv4Address

/-- The parts completed so far, each followed by its dot. -/
def DottedPrefix (numGroups : ℕ) (u : List Char) : Prop :=
  ∃ os : List (List Char), os.length = numGroups ∧ (∀ o ∈ os, IsOctetText o) ∧
    u = os.flatMap (· ++ ['.'])

/-- **The invariant of the machine**, of the text `u` read so far: before a part, `u` is
the completed parts; inside one, `u` is the completed parts and the buffered digits. -/
def Inv (u : List Char) : State → Prop
  | .notInOctet state => state.octetBuffer = [] ∧ DottedPrefix state.numGroups u
  | .expectDigitOrDot state =>
    state.octetBuffer ≠ [] ∧ (∀ c ∈ state.octetBuffer, digit c = true) ∧
      ∃ p, DottedPrefix state.numGroups p ∧ u = p ++ state.octetBuffer

theorem inv_new : Inv [] State.new := ⟨rfl, [], rfl, by simp, rfl⟩

theorem dottedPrefix_snoc {g : ℕ} {p o : List Char} (hp : DottedPrefix g p)
    (ho : IsOctetText o) : DottedPrefix (g + 1) (p ++ o ++ ['.']) := by
  obtain ⟨os, hlen, hos, rfl⟩ := hp
  refine ⟨os ++ [o], by simp [hlen], ?_, by simp⟩
  intro x hx
  rcases List.mem_append.mp hx with hx | hx
  · exact hos x hx
  · rw [List.mem_singleton.mp hx]
    exact ho

/-- **Each step keeps the invariant.** -/
theorem inv_next {u : List Char} {c : Char} {s t : State} (hs : Inv u s)
    (h : s.next c = .ok t) : Inv (u ++ [c]) t := by
  cases s with
  | notInOctet state =>
    obtain ⟨hc, rfl⟩ := State.nextNotInOctet_eq_ok.mp h
    obtain ⟨hbuf, hp⟩ := hs
    refine ⟨by simp, fun d hd => ?_, u, hp, by simp [hbuf]⟩
    simp only [hbuf, List.nil_append, List.mem_singleton] at hd
    exact hd ▸ hc
  | expectDigitOrDot state =>
    obtain ⟨hne, hdig, p, hp, rfl⟩ := hs
    rcases State.nextExpectDigitOrDot_eq_ok.mp h with ⟨rfl, -, hparse, rfl⟩ | ⟨hc, rfl⟩
    · -- a dot closes the buffered part
      exact ⟨rfl, dottedPrefix_snoc hp ⟨hne, hdig, hparse⟩⟩
    · -- a digit extends it
      refine ⟨by simp, fun d hd => ?_, p, hp, by simp⟩
      rcases List.mem_append.mp hd with hd | hd
      · exact hdig d hd
      · exact List.mem_singleton.mp hd ▸ hc

theorem inv_foldlM {a : List Char} {t : State} (h : a.foldlM State.next State.new = .ok t) :
    Inv a t := by
  simpa using List.foldlM_invariant Inv (fun _ _ _ _ hs hst => inv_next hs hst) a [] _ t inv_new h

/-! ### Runs over dotted addresses -/

theorem foldlM_next_digits (g : ℕ) (buf : List Char) :
    ∀ d : List Char, (∀ c ∈ d, digit c = true) →
      d.foldlM State.next (.expectDigitOrDot ⟨g, buf⟩) = .ok (.expectDigitOrDot ⟨g, buf ++ d⟩) := by
  intro d
  induction d generalizing buf with
  | nil => intro _; simp
  | cons c d ih =>
    intro hd
    have hstep : State.next (.expectDigitOrDot ⟨g, buf⟩) c =
        .ok (.expectDigitOrDot ⟨g, buf ++ [c]⟩) :=
      State.nextExpectDigitOrDot_eq_ok.mpr (Or.inr ⟨hd c List.mem_cons_self, rfl⟩)
    rw [List.foldlM_except_cons_of_ok hstep,
      ih (buf ++ [c]) (fun x hx => hd x (List.mem_cons_of_mem c hx))]
    simp

/-- A part read from its start leaves its digits in the buffer. -/
theorem foldlM_next_octet (g : ℕ) {o : List Char} (ho : IsOctetText o) :
    o.foldlM State.next (.notInOctet ⟨g, []⟩) = .ok (.expectDigitOrDot ⟨g, o⟩) := by
  obtain ⟨hne, hdig, -⟩ := ho
  obtain ⟨c, d, rfl⟩ := List.exists_cons_of_ne_nil hne
  have hstep : State.next (.notInOctet ⟨g, []⟩) c = .ok (.expectDigitOrDot ⟨g, [c]⟩) :=
    State.nextNotInOctet_eq_ok.mpr ⟨hdig c List.mem_cons_self, rfl⟩
  rw [List.foldlM_except_cons_of_ok hstep]
  exact foldlM_next_digits g [c] d (fun x hx => hdig x (List.mem_cons_of_mem c hx))

/-- Completed parts read from a part boundary are counted, up to four. -/
theorem foldlM_next_dotted (g : ℕ) :
    ∀ os : List (List Char), (∀ o ∈ os, IsOctetText o) → g + os.length ≤ 4 →
      (os.flatMap (· ++ ['.'])).foldlM State.next (.notInOctet ⟨g, []⟩) =
        .ok (.notInOctet ⟨g + os.length, []⟩) := by
  intro os
  induction os generalizing g with
  | nil => intro _ _; simp
  | cons o os ih =>
    intro hos hlen
    rw [List.length_cons] at hlen
    have ho : IsOctetText o := hos o List.mem_cons_self
    have hdot : State.next (.expectDigitOrDot ⟨g, o⟩) '.' = .ok (.notInOctet ⟨g + 1, []⟩) :=
      State.nextExpectDigitOrDot_eq_ok.mpr (Or.inl ⟨rfl, show g + 1 ≤ 4 by omega, ho.2.2, rfl⟩)
    rw [List.flatMap_cons, List.append_assoc,
      List.foldlM_except_append_of_ok (foldlM_next_octet g ho), List.singleton_append,
      List.foldlM_except_cons_of_ok hdot,
      ih (g + 1) (fun x hx => hos x (List.mem_cons_of_mem o hx)) (by omega),
      List.length_cons, Nat.add_right_comm, Nat.add_assoc]

end ValidateIpv4Address

/-- **What the IPv4 validator accepts**: four parts joined by dots, each a nonempty run of
digits that `str::parse::<u8>` reads. -/
theorem validateIpv4Address_eq_ok_iff (a : List Char) :
    validateIpv4Address a = .ok () ↔
      ∃ os : List (List Char), os.length = 4 ∧ (∀ o ∈ os, IsOctetText o) ∧
        a = ['.'].intercalate os := by
  constructor
  · intro h
    obtain ⟨t, hrun, hfin⟩ := Except.bind_eq_ok.mp h
    have hinv := inv_foldlM hrun
    obtain ⟨state, rfl, hend⟩ := State.finalize_eq_ok.mp hfin
    obtain ⟨hne, hdig, p, ⟨os, hlen, hos, rfl⟩, rfl⟩ := hinv
    rcases hend with ⟨hb, -⟩ | ⟨-, hparse, hcount⟩
    · exact absurd hb hne
    · -- the buffered digits are the fourth part
      refine ⟨os ++ [state.octetBuffer], by simp [hlen, hcount], ?_,
        List.flatMap_append_singleton_append '.' os state.octetBuffer⟩
      intro o ho
      rcases List.mem_append.mp ho with ho | ho
      · exact hos o ho
      · exact List.mem_singleton.mp ho ▸ ⟨hne, hdig, hparse⟩
  · rintro ⟨os, hlen, hos, rfl⟩
    obtain ⟨qs, o, rfl⟩ := (List.eq_nil_or_concat' os).resolve_left (by rintro rfl; simp at hlen)
    have hqs : ∀ q ∈ qs, IsOctetText q := fun q hq => hos q (List.mem_append_left _ hq)
    have ho : IsOctetText o := hos o (List.mem_append_right _ List.mem_cons_self)
    have hqlen : qs.length = 3 := by simpa using hlen
    rw [← List.flatMap_append_singleton_append, validateIpv4Address, List.foldlM_append,
      State.new, foldlM_next_dotted 0 qs hqs (by omega)]
    simp only [bind, Except.bind, foldlM_next_octet _ ho]
    exact State.finalize_eq_ok.mpr ⟨_, rfl, Or.inr ⟨ho.1, ho.2.2, by simp [hqlen]⟩⟩

/-! ### Against the RFC -/

/-- `01.2.3.4`: an address the validator accepts, since `str::parse::<u8>` reads `01` as
`1`, and that is not an `IPv4address`, whose `dec-octet`s have no leading zero. -/
theorem validateIpv4Address_leading_zero :
    validateIpv4Address ['0', '1', '.', '2', '.', '3', '.', '4'] = .ok () ∧
      ['0', '1', '.', '2', '.', '3', '.', '4'] ∉ Rfc.ipv4address := by
  refine ⟨rfl, fun h => ?_⟩
  obtain ⟨os, hlen, hos, heq⟩ := Rfc.mem_ipv4address_iff.mp h
  obtain ⟨o₁, o₂, o₃, o₄, rfl⟩ := List.length_eq_four.mp hlen
  -- the first octet is what stands before the first dot
  have ho₁ : o₁ ∈ Rfc.decOctet := hos o₁ (by simp)
  have hdot : '.' ∉ o₁ := fun hd => absurd (Rfc.digits_of_mem_decOctet ho₁ '.' hd) (by decide)
  have heq' : ['0', '1'] ++ '.' :: ['2', '.', '3', '.', '4'] =
      o₁ ++ '.' :: ['.'].intercalate [o₂, o₃, o₄] := by
    rw [show ['0', '1'] ++ '.' :: ['2', '.', '3', '.', '4'] =
      ['0', '1', '.', '2', '.', '3', '.', '4'] from rfl, heq]
    rfl
  have h₁ : ['0', '1'] = o₁ := (List.append_cons_eq_append_cons (by decide) hdot heq').1
  subst h₁
  exact absurd (Rfc.eq_zero_of_mem_decOctet ho₁ rfl) (by decide)

end Rhymuri
