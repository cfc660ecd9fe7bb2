import Rhymuri.ValidateIpv6Address
import Rhymuri.Rfc.Ipv6Address

/-!
# What the IPv6 validator accepts

`Rhymuri.validateIpv6Address_eq_ok_iff` states what `validate_ipv6_address` accepts
without the machine: the addresses in groups of `Rhymuri.Rfc.Ipv6Text`, hence the nine
alternatives of `IPv6address`, whose IPv4 part ranges over
`Rhymuri.ValidateIpv6Address.acceptedIpv4Part`. That is what the IPv4 validator accepts,
cut down to the addresses whose first part has at most four characters: the machine
reads the first part of an IPv4 address as a group before it meets the dot, and a group
has at most four digits.

The proof has two halves.

* *Soundness.* An invariant of the text read so far (`Rhymuri.ValidateIpv6Address.Inv`)
  says, for each state, how that text is made of groups and colons. Every step keeps it
  (`Rhymuri.ValidateIpv6Address.inv_next`), so it holds after the fold, and `finalize`
  accepts only when the groups counted make an address; when the fold stops at the dot of
  an IPv4 part, the invariant of the state it stopped in places the IPv4 part.
* *Completeness.* The runs of the machine over the groups of an address are computed,
  group by group: from the start of a group, a group and its colon lead to the start of
  the next one.
-/

namespace Rhymuri

open Rfc

namespace ValidateIpv6Address

/-- The IPv4 parts that the IPv6 validator accepts: those the IPv4 validator accepts, with
at most four characters before the first dot. -/
def acceptedIpv4Part : Language Char :=
  {v | validateIpv4Address v = .ok () ∧ (v.takeWhile (· != '.')).length ≤ 4}

/-! ### Groups -/

theorem isH16_singleton {c : Char} (h : hexdig c = true) : IsH16 [c] :=
  ⟨by simp, by simp, by simpa using h⟩

theorem isH16_snoc {h : List Char} {c : Char} (hh : IsH16 h) (hc : hexdig c = true)
    (hl : h.length + 1 ≤ 4) : IsH16 (h ++ [c]) := by
  refine ⟨by simp, by simpa using hl, fun d hd => ?_⟩
  rcases List.mem_append.mp hd with hd | hd
  · exact hh.2.2 d hd
  · exact List.mem_singleton.mp hd ▸ hc

theorem forall_isH16_snoc {xs : List (List Char)} {y : List Char} (hxs : ∀ x ∈ xs, IsH16 x)
    (hy : IsH16 y) : ∀ x ∈ xs ++ [y], IsH16 x := by
  intro x hx
  rcases List.mem_append.mp hx with hx | hx
  · exact hxs x hx
  · exact List.mem_singleton.mp hx ▸ hy

/-- The text before a group, with `g` groups in it: groups each followed by a colon, and,
once the double colon has been met, groups joined by colons, the double colon, then groups
each followed by a colon. -/
def GroupsBefore (dc : Bool) (g : ℕ) (P : List Char) : Prop :=
  match dc with
  | false =>
    ∃ ls : List (List Char), ls.length = g ∧ (∀ x ∈ ls, IsH16 x) ∧ P = ls.flatMap (· ++ [':'])
  | true =>
    ∃ ls rs : List (List Char), ls.length + rs.length = g ∧ (∀ x ∈ ls, IsH16 x) ∧
      (∀ x ∈ rs, IsH16 x) ∧ P = [':'].intercalate ls ++ [':', ':'] ++ rs.flatMap (· ++ [':'])

theorem groupsBefore_nil : GroupsBefore false 0 [] := ⟨[], rfl, by simp, rfl⟩

theorem groupsBefore_doubleColon {ls : List (List Char)} (hls : ∀ x ∈ ls, IsH16 x) :
    GroupsBefore true ls.length ([':'].intercalate ls ++ [':', ':']) :=
  ⟨ls, [], rfl, hls, by simp, by simp⟩

/-- A group and its colon close: one group more before the next. -/
theorem groupsBefore_close {dc : Bool} {g : ℕ} {P h : List Char} (hP : GroupsBefore dc g P)
    (hh : IsH16 h) : GroupsBefore dc (g + 1) (P ++ h ++ [':']) := by
  cases dc with
  | false =>
    obtain ⟨ls, hl, hls, rfl⟩ := hP
    exact ⟨ls ++ [h], by simp [hl], forall_isH16_snoc hls hh,
      (List.flatMap_append_singleton_snoc ':' ls h).symm⟩
  | true =>
    obtain ⟨ls, rs, hl, hls, hrs, rfl⟩ := hP
    exact ⟨ls, rs ++ [h], by simp; omega, hls, forall_isH16_snoc hrs hh, by simp⟩

/-! ### The invariant -/

/-- **The invariant of the machine**, of the address `a` and the text `u` read so far:
for each state, how `u` is made of groups and colons, and what the counters count. A
state in the IPv4 part is never reached by a step of the fold. -/
def Inv (a u : List Char) : State → Prop
  | .noGroupsYet s =>
    s.address = a ∧ u = [] ∧ s.numGroups = 0 ∧ s.numDigits = 0 ∧
      s.doubleColonEncountered = false
  | .colonButNoGroupsYet s =>
    s.address = a ∧ u = [':'] ∧ s.numGroups = 0 ∧ s.numDigits = 0 ∧
      s.doubleColonEncountered = false
  | .afterDoubleColon s =>
    s.address = a ∧ s.numDigits = 0 ∧ s.doubleColonEncountered = true ∧
      ∃ ls : List (List Char), ls.length = s.numGroups ∧ (∀ x ∈ ls, IsH16 x) ∧
        u = [':'].intercalate ls ++ [':', ':']
  | .inGroupNotIpv4 s =>
    s.address = a ∧ ∃ P h, GroupsBefore s.doubleColonEncountered s.numGroups P ∧
      u = P ++ h ∧ h.length = s.numDigits ∧ IsH16 h
  | .inGroupCouldBeIpv4 s =>
    s.address = a ∧ ∃ P h, GroupsBefore s.doubleColonEncountered s.numGroups P ∧
      u = P ++ h ∧ h.length = s.numDigits ∧ IsH16 h ∧ (∀ c ∈ h, digit c = true) ∧
        s.potentialIpv4AddressStart = P.length
  | .inGroupIpv4 _ => False
  | .colonAfterGroup s =>
    s.address = a ∧ s.numDigits = 0 ∧ ∃ g P h, s.numGroups = g + 1 ∧
      GroupsBefore s.doubleColonEncountered g P ∧ IsH16 h ∧ u = P ++ h ++ [':']

theorem inv_new (a : List Char) : Inv a [] (State.new a) := ⟨rfl, rfl, rfl, rfl, rfl⟩

section Step

variable {a u : List Char} {c : Char} {t t' : State}

/-- The first digit of a group, read at a group start whose text is `P`. -/
theorem inv_groupStart_digit {s : Shared} (ha : s.address = a) (hd : digit c = true)
    (hP : GroupsBefore s.doubleColonEncountered s.numGroups u) :
    Inv a (u ++ [c]) (.inGroupCouldBeIpv4
      { s with potentialIpv4AddressStart := u.length, numDigits := 1 }) :=
  ⟨ha, u, [c], hP, rfl, rfl, isH16_singleton (State.digit_hexdig hd), by simpa using hd, rfl⟩

theorem inv_groupStart_hexdig {s : Shared} (ha : s.address = a) (hh : hexdig c = true)
    (hP : GroupsBefore s.doubleColonEncountered s.numGroups u) :
    Inv a (u ++ [c]) (.inGroupNotIpv4 { s with numDigits := 1 }) :=
  ⟨ha, u, [c], hP, rfl, rfl, isH16_singleton hh⟩

/-- A colon closes the group. -/
theorem inv_inGroup_colon {s : Shared} {P h : List Char} (ha : s.address = a)
    (hP : GroupsBefore s.doubleColonEncountered s.numGroups P) (hu : u = P ++ h)
    (hh : IsH16 h) :
    Inv a (u ++ [':'])
      (.colonAfterGroup { s with numDigits := 0, numGroups := s.numGroups + 1 }) :=
  ⟨ha, rfl, s.numGroups, P, h, rfl, hP, hh, by rw [hu]⟩

/-- **Each step keeps the invariant.** -/
theorem inv_next (hu : Inv a u t) (h : t.next u.length c = .ok t') : Inv a (u ++ [c]) t' := by
  cases t with
  | noGroupsYet s =>
    obtain ⟨ha, rfl, hg, hn, hdc⟩ := hu
    have hP : GroupsBefore s.doubleColonEncountered s.numGroups [] := by
      rw [hdc, hg]
      exact groupsBefore_nil
    rcases State.nextNoGroupsYet_eq_ok.mp h with ⟨rfl, rfl⟩ | ⟨hd, rfl⟩ | ⟨-, hh, rfl⟩
    · exact ⟨ha, rfl, hg, hn, hdc⟩
    · exact inv_groupStart_digit ha hd hP
    · exact inv_groupStart_hexdig ha hh hP
  | colonButNoGroupsYet s =>
    obtain ⟨ha, rfl, hg, hn, -⟩ := hu
    obtain ⟨rfl, rfl⟩ := State.nextColonButNoGroupsYet_eq_ok.mp h
    exact ⟨ha, hn, rfl, [], by simp [hg], by simp, rfl⟩
  | afterDoubleColon s =>
    obtain ⟨ha, hn, hdc, ls, hl, hls, rfl⟩ := hu
    have hP : GroupsBefore s.doubleColonEncountered s.numGroups
        ([':'].intercalate ls ++ [':', ':']) := by
      rw [hdc, ← hl]
      exact groupsBefore_doubleColon hls
    obtain ⟨-, ⟨hd, rfl⟩ | ⟨-, hh, rfl⟩⟩ := State.nextAfterDoubleColon_eq_ok.mp h
    · simpa [hn] using inv_groupStart_digit ha hd hP
    · simpa [hn] using inv_groupStart_hexdig ha hh hP
  | inGroupNotIpv4 s =>
    obtain ⟨ha, P, g, hP, rfl, hl, hg⟩ := hu
    rcases State.nextInGroupNotIpv4_eq_ok.mp h with ⟨rfl, rfl⟩ | ⟨hh, hn, rfl⟩
    · exact inv_inGroup_colon ha hP rfl hg
    · exact ⟨ha, P, g ++ [c], hP, by simp, by simp [hl], isH16_snoc hg hh (by omega)⟩
  | inGroupCouldBeIpv4 s =>
    obtain ⟨ha, P, g, hP, rfl, hl, hg, hdig, hstart⟩ := hu
    rcases State.nextInGroupCouldBeIpv4_eq_ok.mp h with
      ⟨rfl, rfl⟩ | ⟨hn, ⟨hd, rfl⟩ | ⟨-, hh, rfl⟩⟩
    · exact inv_inGroup_colon ha hP rfl hg
    · -- another decimal digit: the group could still start an IPv4 part
      refine ⟨ha, P, g ++ [c], hP, by simp, by simp [hl],
        isH16_snoc hg (State.digit_hexdig hd) (by omega), fun d hd' => ?_, hstart⟩
      rcases List.mem_append.mp hd' with hd' | hd'
      · exact hdig d hd'
      · exact List.mem_singleton.mp hd' ▸ hd
    · exact ⟨ha, P, g ++ [c], hP, by simp, by simp [hl], isH16_snoc hg hh (by omega)⟩
  | inGroupIpv4 s => exact hu.elim
  | colonAfterGroup s =>
    obtain ⟨ha, hn, g, P, grp, hg, hP, hgrp, rfl⟩ := hu
    have hP' : GroupsBefore s.doubleColonEncountered s.numGroups (P ++ grp ++ [':']) := by
      rw [hg]
      exact groupsBefore_close hP hgrp
    rcases State.nextColonAfterGroup_eq_ok.mp h with
      ⟨rfl, hdc, rfl⟩ | ⟨hd, rfl⟩ | ⟨-, hh, rfl⟩
    · -- the double colon, after groups each closed by a colon
      rw [hdc] at hP
      obtain ⟨ls, hl, hls, rfl⟩ := hP
      refine ⟨ha, hn, rfl, ls ++ [grp], by simp [hl, hg], forall_isH16_snoc hls hgrp, ?_⟩
      rw [← List.flatMap_append_singleton_snoc,
        List.flatMap_append_singleton_of_ne_nil ':' (by simp)]
      simp
    · simpa [hn] using inv_groupStart_digit ha hd hP'
    · simpa [hn] using inv_groupStart_hexdig ha hh hP'

end Step

theorem inv_foldlM {a : List Char} {t : State}
    (h : a.zipIdx.foldlM State.step (State.new a) = .ok t) : Inv a a t := by
  simpa using List.foldlM_zipIdx_invariant (Inv a) (fun _ _ _ _ hs hst => inv_next hs hst)
    a [] _ t (inv_new a) h

/-! ### Soundness -/

section Soundness

variable {V : Language Char}

/-- An address that ends in a group, with `g` groups before it. -/
theorem ipv6Text_of_group {dc : Bool} {g : ℕ} {P h : List Char} (hP : GroupsBefore dc g P)
    (hh : IsH16 h) (hcount : State.checkNumGroups dc (g + 1) = .ok ()) : Ipv6Text V (P ++ h) := by
  cases dc with
  | false =>
    obtain ⟨ls, rfl, hls, rfl⟩ := hP
    have h8 : ls.length + 1 = 8 := by simpa [State.checkNumGroups_eq_ok] using hcount
    exact Or.inl (Or.inl ⟨ls ++ [h], by simp [h8], forall_isH16_snoc hls hh,
      List.flatMap_append_singleton_append ':' ls h⟩)
  | true =>
    obtain ⟨ls, rs, rfl, hls, hrs, rfl⟩ := hP
    have h7 : ls.length + rs.length + 1 ≤ 7 := by simpa [State.checkNumGroups_eq_ok] using hcount
    refine Or.inr ⟨rs.length + 1, by omega, ls, rs.flatMap (· ++ [':']) ++ h, by omega, hls,
      Or.inl ⟨rs ++ [h], by simp, forall_isH16_snoc hrs hh,
        List.flatMap_append_singleton_append ':' rs h⟩, by simp⟩

/-- An address that ends in an IPv4 part, with `g` groups before it. -/
theorem ipv6Text_of_ipv4 {dc : Bool} {g : ℕ} {P v : List Char} (hP : GroupsBefore dc g P)
    (hv : v ∈ V) (hcount : State.checkNumGroups dc (g + 2) = .ok ()) : Ipv6Text V (P ++ v) := by
  cases dc with
  | false =>
    obtain ⟨ls, rfl, hls, rfl⟩ := hP
    have h8 : ls.length + 2 = 8 := by simpa [State.checkNumGroups_eq_ok] using hcount
    exact Or.inl (Or.inr ⟨ls, v, h8, hls, hv, rfl⟩)
  | true =>
    obtain ⟨ls, rs, rfl, hls, hrs, rfl⟩ := hP
    have h7 : ls.length + rs.length + 2 ≤ 7 := by simpa [State.checkNumGroups_eq_ok] using hcount
    exact Or.inr ⟨rs.length + 2, by omega, ls, rs.flatMap (· ++ [':']) ++ v, by omega, hls,
      Or.inr ⟨rs, v, rfl, hrs, hv, rfl⟩, by simp⟩

/-- A state that holds the invariant for the whole address and finalizes accepts an address
in groups. -/
theorem ipv6Text_of_finalize {a : List Char} {t : State} (ht : Inv a a t)
    (h : t.finalize = .ok ()) : Ipv6Text V a := by
  cases t with
  | noGroupsYet s =>
    obtain ⟨-, -, hg, -, hdc⟩ := ht
    simp [State.finalize, State.checkNumGroups_eq_ok, hg, hdc] at h
  | colonButNoGroupsYet s => simp [State.finalize] at h
  | afterDoubleColon s =>
    -- the address ends with the double colon
    obtain ⟨-, -, hdc, ls, hl, hls, ha⟩ := ht
    have h7 : ls.length ≤ 7 := by
      simpa [State.finalize, State.checkNumGroups_eq_ok, hdc, hl] using h
    exact Or.inr ⟨0, by omega, ls, [], by omega, hls, isTail_zero.mpr rfl, by simp [ha]⟩
  | inGroupNotIpv4 s =>
    obtain ⟨-, P, g, hP, rfl, -, hg⟩ := ht
    exact ipv6Text_of_group hP hg h
  | inGroupCouldBeIpv4 s =>
    obtain ⟨-, P, g, hP, rfl, -, hg, -⟩ := ht
    exact ipv6Text_of_group hP hg h
  | inGroupIpv4 s => exact ht.elim
  | colonAfterGroup s => simp [State.finalize] at h

theorem finalize_inGroupIpv4_eq_ok {s : Shared} :
    (State.inGroupIpv4 s).finalize = .ok () ↔
      validateIpv4Address (s.address.drop s.potentialIpv4AddressStart) = .ok () ∧
        State.checkNumGroups s.doubleColonEncountered (s.numGroups + 2) = .ok () := by
  simp only [State.finalize]
  cases validateIpv4Address (s.address.drop s.potentialIpv4AddressStart) <;>
    simp [bind, Except.bind]

/-- The digits read before the dot are the first part of the IPv4 address. -/
theorem takeWhile_digits_dot {h x : List Char} (hd : ∀ c ∈ h, digit c = true) :
    (h ++ '.' :: x).takeWhile (· != '.') = h := by
  have hne : ∀ c ∈ h, (c != '.') = true := by
    intro c hc
    have hdot : digit '.' = false := rfl
    have hcd := hd c hc
    simp only [bne_iff_ne, ne_eq]
    rintro rfl
    exact absurd hcd (by simp [hdot])
  rw [List.takeWhile_append_of_pos hne]
  simp

/-- The fold stopped at the dot of an IPv4 part: the invariant of the group it stopped in
places the IPv4 part, and `finalize` validates it. -/
theorem ipv6Text_of_ipv4Trailer {a v x : List Char} {t : State} {s : Shared}
    (ha : a = v ++ '.' :: x) (ht : Inv a v t) (hnext : t = .inGroupCouldBeIpv4 s)
    (h : (State.inGroupIpv4 s).finalize = .ok ()) : Ipv6Text acceptedIpv4Part a := by
  subst hnext
  obtain ⟨hs, P, g, hP, rfl, hl, hg, hdig, hstart⟩ := ht
  obtain ⟨hv4, hcount⟩ := finalize_inGroupIpv4_eq_ok.mp h
  rw [hs, hstart, ha, List.append_assoc, List.drop_left] at hv4
  have hpart : g ++ '.' :: x ∈ acceptedIpv4Part :=
    ⟨hv4, by rw [takeWhile_digits_dot hdig]; exact hg.2.1⟩
  rw [ha, List.append_assoc]
  exact ipv6Text_of_ipv4 hP hpart hcount

/-- **Soundness of the validator**: every address it accepts is an address in groups. -/
theorem ipv6Text_of_validateIpv6Address {a : List Char} (h : validateIpv6Address a = .ok ()) :
    Ipv6Text acceptedIpv4Part a := by
  obtain ⟨t, hfold, hfin⟩ := Except.bind_eq_ok.mp h
  cases hrun : a.zipIdx.foldlM State.step (State.new a) with
  | ok t' =>
    rw [hrun] at hfold
    cases hfold
    exact ipv6Text_of_finalize (inv_foldlM hrun) hfin
  | error exit =>
    rw [hrun] at hfold
    cases exit with
    | error e => cases hfold
    | ipv4Trailer s =>
      cases hfold
      -- the fold failed at one character, the dot of the IPv4 part
      obtain ⟨v, c, x, t₁, rfl, hinv, hstep⟩ := List.foldlM_zipIdx_eq_error (Inv _)
        (fun _ _ _ _ hs hst => inv_next hs hst) _ [] _ _ (inv_new _) hrun
      obtain ⟨rfl, rfl⟩ := State.next_eq_ipv4Trailer.mp hstep
      exact ipv6Text_of_ipv4Trailer rfl (by simpa using hinv) rfl hfin

end Soundness

/-! ### Completeness -/

/-- The counters of a state, as the runs below compute them: the address, the groups
completed, the digits of the current group, and whether the double colon has been met. -/
def Shared.Counts (s : Shared) (a : List Char) (g k : ℕ) (dc : Bool) : Prop :=
  s.address = a ∧ s.numGroups = g ∧ s.numDigits = k ∧ s.doubleColonEncountered = dc

/-- A state at the start of a group, before its first digit. -/
def IsGroupStart (a : List Char) (g : ℕ) (dc : Bool) : State → Prop
  | .noGroupsYet s | .afterDoubleColon s | .colonAfterGroup s => s.Counts a g 0 dc
  | _ => False

/-- A state inside a group, after `k` of its digits. -/
def IsInGroup (a : List Char) (g k : ℕ) (dc : Bool) : State → Prop
  | .inGroupNotIpv4 s | .inGroupCouldBeIpv4 s => s.Counts a g k dc
  | _ => False

/-- A state inside a group of `k` decimal digits that started at position `j`: the group
could be the first part of an IPv4 address. -/
def IsInDecimalGroup (a : List Char) (g k : ℕ) (dc : Bool) (j : ℕ) : State → Prop
  | .inGroupCouldBeIpv4 s => s.Counts a g k dc ∧ s.potentialIpv4AddressStart = j
  | _ => False

/-- The verdict of the validator on the rest `w` of the address, read from the state `σ`
with `w` starting at position `i`. -/
def verdict (σ : State) (i : ℕ) (w : List Char) : Except Error Unit :=
  (afterFold ((w.zipIdx i).foldlM State.step σ)).bind State.finalize

theorem validateIpv6Address_eq_verdict (a : List Char) :
    validateIpv6Address a = verdict (State.new a) 0 a := rfl

section Runs

variable {a : List Char} {dc : Bool}

theorem foldlM_step_cons_of_ok {σ σ₁ : State} {i : ℕ} {c : Char} (h : σ.next i c = .ok σ₁)
    (w : List Char) :
    ((c :: w).zipIdx i).foldlM State.step σ = (w.zipIdx (i + 1)).foldlM State.step σ₁ := by
  have h' : State.step σ (c, i) = .ok σ₁ := h
  rw [List.zipIdx_cons, List.foldlM_except_cons_of_ok h']

theorem verdict_append_of_ok {σ σ₁ : State} {i : ℕ} {u : List Char}
    (h : (u.zipIdx i).foldlM State.step σ = .ok σ₁) (w : List Char) :
    verdict σ i (u ++ w) = verdict σ₁ (i + u.length) w := by
  rw [verdict, List.foldlM_zipIdx_append_of_ok h, verdict]

theorem verdict_eq_finalize {σ σ₁ : State} {i : ℕ} {w : List Char}
    (h : (w.zipIdx i).foldlM State.step σ = .ok σ₁) : verdict σ i w = σ₁.finalize := by
  rw [verdict, h]
  rfl

/-- A dot that ends the fold hands the state over to the IPv4 part. -/
theorem verdict_cons_of_ipv4Trailer {σ : State} {s : Shared} {i : ℕ} {c : Char}
    (h : σ.next i c = .error (.ipv4Trailer s)) (w : List Char) :
    verdict σ i (c :: w) = (State.inGroupIpv4 s).finalize := by
  have h' : State.step σ (c, i) = .error (.ipv4Trailer s) := h
  rw [verdict, List.zipIdx_cons, List.foldlM_except_cons_of_error h']
  rfl

theorem isInGroup_of_isInDecimalGroup {σ : State} {g k j : ℕ}
    (h : IsInDecimalGroup a g k dc j σ) : IsInGroup a g k dc σ := by
  cases σ with
  | inGroupCouldBeIpv4 s => exact h.1
  | _ => exact h.elim

/-! #### One step -/

/-- A decimal digit at the start of a group starts a group that could be an IPv4 part. -/
theorem next_groupStart_digit {σ : State} {g : ℕ} (hσ : IsGroupStart a g dc σ) {c : Char}
    (hd : digit c = true) (i : ℕ) :
    ∃ σ', σ.next i c = .ok σ' ∧ IsInDecimalGroup a g 1 dc i σ' := by
  cases σ with
  | noGroupsYet s =>
    obtain ⟨ha, hg, -, hdc⟩ := hσ
    exact ⟨_, State.nextNoGroupsYet_eq_ok.mpr (Or.inr (Or.inl ⟨hd, rfl⟩)),
      ⟨ha, hg, rfl, hdc⟩, rfl⟩
  | afterDoubleColon s =>
    obtain ⟨ha, hg, hk, hdc⟩ := hσ
    exact ⟨_, State.nextAfterDoubleColon_eq_ok.mpr ⟨by omega, Or.inl ⟨hd, rfl⟩⟩,
      ⟨ha, hg, by simp [hk], hdc⟩, rfl⟩
  | colonAfterGroup s =>
    obtain ⟨ha, hg, hk, hdc⟩ := hσ
    exact ⟨_, State.nextColonAfterGroup_eq_ok.mpr (Or.inr (Or.inl ⟨hd, rfl⟩)),
      ⟨ha, hg, by simp [hk], hdc⟩, rfl⟩
  | _ => exact hσ.elim

/-- A hexadecimal digit at the start of a group starts a group. -/
theorem next_groupStart_hexdig {σ : State} {g : ℕ} (hσ : IsGroupStart a g dc σ) {c : Char}
    (hh : hexdig c = true) (i : ℕ) : ∃ σ', σ.next i c = .ok σ' ∧ IsInGroup a g 1 dc σ' := by
  cases hd : digit c with
  | true =>
    obtain ⟨σ', h, hσ'⟩ := next_groupStart_digit hσ hd i
    exact ⟨σ', h, isInGroup_of_isInDecimalGroup hσ'⟩
  | false =>
    cases σ with
    | noGroupsYet s =>
      obtain ⟨ha, hg, -, hdc⟩ := hσ
      exact ⟨_, State.nextNoGroupsYet_eq_ok.mpr (Or.inr (Or.inr ⟨hd, hh, rfl⟩)), ha, hg, rfl, hdc⟩
    | afterDoubleColon s =>
      obtain ⟨ha, hg, hk, hdc⟩ := hσ
      exact ⟨_, State.nextAfterDoubleColon_eq_ok.mpr ⟨by omega, Or.inr ⟨hd, hh, rfl⟩⟩,
        ha, hg, by simp [hk], hdc⟩
    | colonAfterGroup s =>
      obtain ⟨ha, hg, hk, hdc⟩ := hσ
      exact ⟨_, State.nextColonAfterGroup_eq_ok.mpr (Or.inr (Or.inr ⟨hd, hh, rfl⟩)),
        ha, hg, by simp [hk], hdc⟩
    | _ => exact hσ.elim

theorem next_inGroup_hexdig {σ : State} {g k : ℕ} (hσ : IsInGroup a g k dc σ) {c : Char}
    (hh : hexdig c = true) (hk : k + 1 ≤ 4) (i : ℕ) :
    ∃ σ', σ.next i c = .ok σ' ∧ IsInGroup a g (k + 1) dc σ' := by
  cases σ with
  | inGroupNotIpv4 s =>
    obtain ⟨ha, hg, rfl, hdc⟩ := hσ
    exact ⟨_, State.nextInGroupNotIpv4_eq_ok.mpr (Or.inr ⟨hh, hk, rfl⟩), ha, hg, rfl, hdc⟩
  | inGroupCouldBeIpv4 s =>
    obtain ⟨ha, hg, rfl, hdc⟩ := hσ
    -- a letter ends the possibility of an IPv4 part, a digit keeps it
    cases hd : digit c with
    | true =>
      exact ⟨_, State.nextInGroupCouldBeIpv4_eq_ok.mpr (Or.inr ⟨hk, Or.inl ⟨hd, rfl⟩⟩),
        ha, hg, rfl, hdc⟩
    | false =>
      exact ⟨_, State.nextInGroupCouldBeIpv4_eq_ok.mpr (Or.inr ⟨hk, Or.inr ⟨hd, hh, rfl⟩⟩),
        ha, hg, rfl, hdc⟩
  | _ => exact hσ.elim

theorem next_inDecimalGroup_digit {σ : State} {g k j : ℕ} (hσ : IsInDecimalGroup a g k dc j σ)
    {c : Char} (hd : digit c = true) (hk : k + 1 ≤ 4) (i : ℕ) :
    ∃ σ', σ.next i c = .ok σ' ∧ IsInDecimalGroup a g (k + 1) dc j σ' := by
  cases σ with
  | inGroupCouldBeIpv4 s =>
    obtain ⟨⟨ha, hg, rfl, hdc⟩, hj⟩ := hσ
    exact ⟨_, State.nextInGroupCouldBeIpv4_eq_ok.mpr (Or.inr ⟨hk, Or.inl ⟨hd, rfl⟩⟩),
      ⟨ha, hg, rfl, hdc⟩, hj⟩
  | _ => exact hσ.elim

/-- A colon closes the group: the next one starts, one group further. -/
theorem next_inGroup_colon {σ : State} {g k : ℕ} (hσ : IsInGroup a g k dc σ) (i : ℕ) :
    ∃ s, σ.next i ':' = .ok (.colonAfterGroup s) ∧ s.Counts a (g + 1) 0 dc := by
  cases σ with
  | inGroupNotIpv4 s =>
    obtain ⟨ha, hg, -, hdc⟩ := hσ
    exact ⟨_, State.nextInGroupNotIpv4_eq_ok.mpr (Or.inl ⟨rfl, rfl⟩), ha, by simp [hg], rfl, hdc⟩
  | inGroupCouldBeIpv4 s =>
    obtain ⟨ha, hg, -, hdc⟩ := hσ
    exact ⟨_, State.nextInGroupCouldBeIpv4_eq_ok.mpr (Or.inl ⟨rfl, rfl⟩), ha, by simp [hg], rfl,
      hdc⟩
  | _ => exact hσ.elim

/-- A second colon after a group, before any double colon, is the double colon. -/
theorem next_colonAfterGroup_colon {s : Shared} {g : ℕ} (hs : s.Counts a g 0 false) (i : ℕ) :
    ∃ s', (State.colonAfterGroup s).next i ':' = .ok (.afterDoubleColon s') ∧
      s'.Counts a g 0 true := by
  obtain ⟨ha, hg, hk, hdc⟩ := hs
  exact ⟨_, State.nextColonAfterGroup_eq_ok.mpr (Or.inl ⟨rfl, hdc, rfl⟩), ha, hg, hk, rfl⟩

/-- A dot ends a decimal group: the fold stops and hands over the state of the group. -/
theorem next_inDecimalGroup_dot {σ : State} {g k j : ℕ} (hσ : IsInDecimalGroup a g k dc j σ)
    (i : ℕ) : ∃ s, σ.next i '.' = .error (.ipv4Trailer s) ∧ s.Counts a g k dc ∧
      s.potentialIpv4AddressStart = j := by
  cases σ with
  | inGroupCouldBeIpv4 s => exact ⟨s, State.next_eq_ipv4Trailer.mpr ⟨rfl, rfl⟩, hσ⟩
  | _ => exact hσ.elim

theorem finalize_of_isInGroup {σ : State} {g k : ℕ} (hσ : IsInGroup a g k dc σ) :
    σ.finalize = State.checkNumGroups dc (g + 1) := by
  cases σ with
  | inGroupNotIpv4 s | inGroupCouldBeIpv4 s =>
    obtain ⟨-, hg, -, hdc⟩ := hσ
    simp [State.finalize, hg, hdc]
  | _ => exact hσ.elim

/-! #### Whole groups -/

/-- A group, read from its start. -/
theorem foldlM_group {σ : State} {g : ℕ} {h : List Char} (hσ : IsGroupStart a g dc σ)
    (hh : IsH16 h) (i : ℕ) :
    ∃ σ', (h.zipIdx i).foldlM State.step σ = .ok σ' ∧ IsInGroup a g h.length dc σ' := by
  obtain ⟨hlen, hlen4, hhex⟩ := hh
  obtain ⟨c, w, rfl⟩ := List.exists_cons_of_length_pos hlen
  rw [List.length_cons] at hlen4
  obtain ⟨σ₁, h₁, hσ₁⟩ := next_groupStart_hexdig hσ (hhex c List.mem_cons_self) i
  -- the rest of the group, one digit at a time
  have hstep : ∀ k σ c i, IsInGroup a g k dc σ → hexdig c = true → k + 1 ≤ 4 →
      ∃ σ', State.step σ (c, i) = .ok σ' ∧ IsInGroup a g (k + 1) dc σ' :=
    fun _ _ _ i hσ hh hk => next_inGroup_hexdig hσ hh hk i
  obtain ⟨σ', h', hσ'⟩ := List.foldlM_zipIdx_of_step (fun k σ => IsInGroup a g k dc σ)
    (fun c => hexdig c = true) hstep w 1 σ₁ (i + 1) hσ₁
    (fun d hd => hhex d (List.mem_cons_of_mem c hd)) (by omega)
  refine ⟨σ', ?_, ?_⟩
  · rw [foldlM_step_cons_of_ok h₁]
    exact h'
  · rw [List.length_cons, Nat.add_comm]
    exact hσ'

/-- A group of decimal digits, read from its start. -/
theorem foldlM_decimalGroup {σ : State} {g : ℕ} {d : List Char} (hσ : IsGroupStart a g dc σ)
    (hne : d ≠ []) (hd : ∀ c ∈ d, digit c = true) (hlen : d.length ≤ 4) (i : ℕ) :
    ∃ σ', (d.zipIdx i).foldlM State.step σ = .ok σ' ∧ IsInDecimalGroup a g d.length dc i σ' := by
  obtain ⟨c, w, rfl⟩ := List.exists_cons_of_ne_nil hne
  rw [List.length_cons] at hlen
  obtain ⟨σ₁, h₁, hσ₁⟩ := next_groupStart_digit hσ (hd c List.mem_cons_self) i
  have hstep : ∀ k σ c i', IsInDecimalGroup a g k dc i σ → digit c = true → k + 1 ≤ 4 →
      ∃ σ', State.step σ (c, i') = .ok σ' ∧ IsInDecimalGroup a g (k + 1) dc i σ' :=
    fun _ _ _ i' hσ hd hk => next_inDecimalGroup_digit hσ hd hk i'
  obtain ⟨σ', h', hσ'⟩ := List.foldlM_zipIdx_of_step (fun k σ => IsInDecimalGroup a g k dc i σ)
    (fun c => digit c = true) hstep w 1 σ₁ (i + 1) hσ₁
    (fun e he => hd e (List.mem_cons_of_mem c he)) (by omega)
  refine ⟨σ', ?_, ?_⟩
  · rw [foldlM_step_cons_of_ok h₁]
    exact h'
  · rw [List.length_cons, Nat.add_comm]
    exact hσ'

/-- A group and the colon that closes it. -/
theorem foldlM_group_colon {σ : State} {g : ℕ} {h : List Char} (hσ : IsGroupStart a g dc σ)
    (hh : IsH16 h) (i : ℕ) :
    ∃ s, ((h ++ [':']).zipIdx i).foldlM State.step σ = .ok (.colonAfterGroup s) ∧
      s.Counts a (g + 1) 0 dc := by
  obtain ⟨σ₁, h₁, hσ₁⟩ := foldlM_group hσ hh i
  obtain ⟨s, h₂, hs⟩ := next_inGroup_colon hσ₁ (i + h.length)
  refine ⟨s, ?_, hs⟩
  rw [List.foldlM_zipIdx_append_of_ok h₁, foldlM_step_cons_of_ok h₂]
  rfl

/-- **Groups each closed by a colon**, read from the start of the first: each leads to the
start of the next. -/
theorem foldlM_groups {gs : List (List Char)} (hgs : ∀ x ∈ gs, IsH16 x) :
    ∀ {σ : State} {g : ℕ} (i : ℕ), IsGroupStart a g dc σ →
      ∃ σ', ((gs.flatMap (· ++ [':'])).zipIdx i).foldlM State.step σ = .ok σ' ∧
        IsGroupStart a (g + gs.length) dc σ' := by
  induction gs with
  | nil =>
    intro σ g i hσ
    exact ⟨σ, rfl, hσ⟩
  | cons h gs ih =>
    intro σ g i hσ
    obtain ⟨s, h₁, hs⟩ := foldlM_group_colon hσ (hgs h List.mem_cons_self) i
    have hs' : IsGroupStart a (g + 1) dc (.colonAfterGroup s) := hs
    obtain ⟨σ', h', hσ'⟩ := ih (fun x hx => hgs x (List.mem_cons_of_mem h hx))
      (i + (h ++ [':']).length) hs'
    refine ⟨σ', ?_, ?_⟩
    · rw [List.flatMap_cons, List.foldlM_zipIdx_append_of_ok h₁]
      exact h'
    · rw [List.length_cons, ← Nat.add_assoc, Nat.add_right_comm]
      exact hσ'

/-! #### Tails and the double colon -/

/-- An IPv4 part the machine accepts starts with a group of one to four decimal digits,
then a dot. -/
theorem acceptedIpv4Part_split {v : List Char} (hv : v ∈ acceptedIpv4Part) :
    ∃ d r, v = d ++ '.' :: r ∧ d ≠ [] ∧ (∀ c ∈ d, digit c = true) ∧ d.length ≤ 4 := by
  obtain ⟨hv4, hfirst⟩ := hv
  obtain ⟨os, hlen, hos, rfl⟩ := (validateIpv4Address_eq_ok_iff _).mp hv4
  obtain ⟨o, os', rfl⟩ := List.exists_cons_of_length_pos (by omega : 0 < os.length)
  have hne : os' ≠ [] := by
    rintro rfl
    simp at hlen
  obtain ⟨ho, hdig, -⟩ := hos o List.mem_cons_self
  have htext : ['.'].intercalate (o :: os') = o ++ '.' :: ['.'].intercalate os' := by
    rw [List.intercalate_cons_of_ne_nil hne]
    simp
  rw [htext] at hfirst ⊢
  rw [takeWhile_digits_dot hdig] at hfirst
  exact ⟨o, _, rfl, ho, hdig, hfirst⟩

/-- **A tail of `n` groups' worth is accepted** from the start of a group with `g` groups
before it, when the count `g + n` is right. -/
theorem verdict_tail {σ : State} {g n i : ℕ} {w : List Char} (hσ : IsGroupStart a g dc σ)
    (hw : a.drop i = w) (htail : IsTail acceptedIpv4Part n w) (hn : 1 ≤ n)
    (hcount : State.checkNumGroups dc (g + n) = .ok ()) : verdict σ i w = .ok () := by
  rcases htail with ⟨gs, rfl, hgs, rfl⟩ | ⟨gs, v, rfl, hgs, hv, rfl⟩
  · -- groups joined by colons: all but the last are closed by a colon
    obtain ⟨ls, x, rfl⟩ := (List.eq_nil_or_concat' gs).resolve_left (by rintro rfl; simp at hn)
    rw [← List.flatMap_append_singleton_append]
    obtain ⟨σ₁, h₁, hσ₁⟩ := foldlM_groups (fun y hy => hgs y (List.mem_append_left _ hy)) i hσ
    obtain ⟨σ₂, h₂, hσ₂⟩ := foldlM_group hσ₁ (hgs x (by simp))
      (i + (ls.flatMap (· ++ [':'])).length)
    rw [verdict_append_of_ok h₁, verdict_eq_finalize h₂, finalize_of_isInGroup hσ₂]
    simpa [Nat.add_assoc] using hcount
  · -- the IPv4 part: its first group ends at a dot, which hands the rest over
    obtain ⟨d, r, rfl, hne, hd, hlen⟩ := acceptedIpv4Part_split hv
    obtain ⟨σ₁, h₁, hσ₁⟩ := foldlM_groups hgs i hσ
    obtain ⟨σ₂, h₂, hσ₂⟩ := foldlM_decimalGroup hσ₁ hne hd hlen
      (i + (gs.flatMap (· ++ [':'])).length)
    obtain ⟨s, h₃, ⟨ha, hg, -, hdc⟩, hj⟩ := next_inDecimalGroup_dot hσ₂
      (i + (gs.flatMap (· ++ [':'])).length + d.length)
    rw [verdict_append_of_ok h₁, verdict_append_of_ok h₂, verdict_cons_of_ipv4Trailer h₃]
    refine finalize_inGroupIpv4_eq_ok.mpr ⟨?_, ?_⟩
    · -- the IPv4 part is the rest of the address from the start of its first group
      rw [ha, hj, ← List.drop_drop, hw, List.drop_left]
      exact hv.1
    · rw [hdc, hg]
      simpa [Nat.add_assoc] using hcount

/-- **The text up to the double colon**: the groups before it, each closed by a colon, and
a second colon. -/
theorem foldlM_doubleColon {ls : List (List Char)} (hls : ∀ x ∈ ls, IsH16 x) (a : List Char) :
    ∃ s, (([':'].intercalate ls ++ [':', ':']).zipIdx).foldlM State.step (State.new a) =
      .ok (.afterDoubleColon s) ∧ s.Counts a ls.length 0 true := by
  rcases List.eq_nil_or_concat' ls with rfl | ⟨ls, x, rfl⟩
  · -- the address starts with the double colon
    exact ⟨⟨a, 0, 0, true, 0⟩, rfl, rfl, rfl, rfl, rfl⟩
  · have hstart : IsGroupStart a 0 false (State.new a) := ⟨rfl, rfl, rfl, rfl⟩
    obtain ⟨σ₁, h₁, hσ₁⟩ := foldlM_groups (fun y hy => hls y (List.mem_append_left _ hy)) 0 hstart
    obtain ⟨s, h₂, hs⟩ := foldlM_group_colon hσ₁ (hls x (by simp))
      (0 + (ls.flatMap (· ++ [':'])).length)
    obtain ⟨s', h₃, hs'⟩ := next_colonAfterGroup_colon hs
      (0 + (ls.flatMap (· ++ [':'])).length + (x ++ [':']).length)
    have htext : [':'].intercalate (ls ++ [x]) ++ [':', ':'] =
        ls.flatMap (· ++ [':']) ++ (x ++ [':']) ++ [':'] := by
      rw [← List.flatMap_append_singleton_append]
      simp
    have h₁₂ : ((ls.flatMap (· ++ [':']) ++ (x ++ [':'])).zipIdx 0).foldlM State.step
        (State.new a) = .ok (.colonAfterGroup s) := by
      rw [List.foldlM_zipIdx_append_of_ok h₁]
      exact h₂
    refine ⟨s', ?_, by simpa using hs'⟩
    rw [htext, List.foldlM_zipIdx_append_of_ok h₁₂, List.length_append, ← Nat.add_assoc,
      foldlM_step_cons_of_ok h₃]
    rfl

end Runs

/-- **Completeness of the validator**: every address in groups whose IPv4 part is one the
machine accepts is accepted. -/
theorem validateIpv6Address_of_ipv6Text {a : List Char} (h : Ipv6Text acceptedIpv4Part a) :
    validateIpv6Address a = .ok () := by
  rw [validateIpv6Address_eq_verdict]
  rcases h with h8 | ⟨r, -, ls, w, hlr, hls, htail, rfl⟩
  · -- eight groups' worth, without a double colon
    exact verdict_tail ⟨rfl, rfl, rfl, rfl⟩ (List.drop_zero) h8 (by omega)
      (State.checkNumGroups_eq_ok.mpr (Or.inr ⟨rfl, rfl⟩))
  · obtain ⟨s, h₁, hs⟩ := foldlM_doubleColon hls ([':'].intercalate ls ++ [':', ':'] ++ w)
    rw [verdict_append_of_ok h₁]
    rcases Nat.eq_zero_or_pos r with rfl | hr
    · -- the address ends with the double colon
      obtain ⟨-, hg, -, hdc⟩ := hs
      rw [isTail_zero.mp htail, verdict_eq_finalize rfl]
      simp only [State.finalize, hg, hdc]
      exact State.checkNumGroups_eq_ok.mpr (Or.inl ⟨rfl, by omega⟩)
    · exact verdict_tail hs (by rw [Nat.zero_add, List.drop_left]) htail hr
        (State.checkNumGroups_eq_ok.mpr (Or.inl ⟨rfl, by omega⟩))

end ValidateIpv6Address

open ValidateIpv6Address

/-- **What the IPv6 validator accepts**: the addresses in groups whose IPv4 part, if any,
the IPv4 validator accepts with at most four characters before its first dot. -/
theorem validateIpv6Address_eq_ok_iff (a : List Char) :
    validateIpv6Address a = .ok () ↔ Rfc.Ipv6Text acceptedIpv4Part a :=
  ⟨ipv6Text_of_validateIpv6Address, validateIpv6Address_of_ipv6Text⟩

/-- The IPv4 parts the IPv6 validator accepts are digits and dots. -/
theorem ValidateIpv6Address.acceptedIpv4Part_chars {v : List Char} (hv : v ∈ acceptedIpv4Part) :
    ∀ c ∈ v, digit c = true ∨ c = '.' := by
  obtain ⟨os, -, hos, rfl⟩ := (validateIpv4Address_eq_ok_iff v).mp hv.1
  exact List.forall_mem_intercalate (by simp) fun o ho c hc => .inl ((hos o ho).2.1 c hc)

/-- **The IPv6 validator accepts only hexadecimal digits, colons and dots.** -/
theorem validateIpv6Address_chars {a : List Char} (h : validateIpv6Address a = .ok ()) :
    ∀ c ∈ a, hexdig c = true ∨ c = ':' ∨ c = '.' :=
  Rfc.ipv6Text_chars (fun _ hc => .inl hc) (.inr (.inl rfl))
    (fun _ hv c hc => (acceptedIpv4Part_chars hv c hc).elim
      (fun hd => .inl (State.digit_hexdig hd)) (fun hdot => .inr (.inr hdot)))
    (ipv6Text_of_validateIpv6Address h)

/-- `validate_ipv6_address` accepts exactly the nine alternatives of `IPv6address`, with the
IPv4 part ranging over `Rhymuri.ValidateIpv6Address.acceptedIpv4Part`. -/
theorem validateIpv6Address_eq_ok_iff_mem_ipv6address (a : List Char) :
    validateIpv6Address a = .ok () ↔ a ∈ Rfc.ipv6address acceptedIpv4Part := by
  rw [validateIpv6Address_eq_ok_iff, Rfc.mem_ipv6address_iff]

/-- With the IPv4 part ranging over all that the IPv4 validator accepts, the nine
alternatives hold `::00000.1.2.3`, since the IPv4 validator reads `00000` as the octet `0`;
the IPv6 validator rejects it, since it reads `00000` as a group first, and a group has at
most four digits. -/
theorem validateIpv6Address_five_digit_octet :
    validateIpv6Address [':', ':', '0', '0', '0', '0', '0', '.', '1', '.', '2', '.', '3'] =
        .error .tooManyDigits ∧
      [':', ':', '0', '0', '0', '0', '0', '.', '1', '.', '2', '.', '3'] ∈
        Rfc.ipv6address {v | validateIpv4Address v = .ok ()} := by
  refine ⟨rfl, (Rfc.mem_ipv6address_iff _).mpr (Or.inr ⟨2, by omega, [], _, by simp, by simp,
    Or.inr ⟨[], _, rfl, by simp, ?_, rfl⟩, rfl⟩)⟩
  show validateIpv4Address _ = .ok ()
  rfl

end Rhymuri
