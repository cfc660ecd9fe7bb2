import Mathlib.Algebra.Group.Nat.Defs
import Rhymuri.CharacterClasses
import Rhymuri.Lib.Fold
import Rhymuri.Lib.Intercalate

/-!
# The C++ octet and IPv4 address validators

`src/Uri.cpp` has its own validators, written separately from the crate's. Its character
sets (`ALPHA`, `DIGIT`, `HEXDIG` and the rest, at the top of the file) hold the same
characters as `src/character_classes.rs`, and are the predicates of
`Rhymuri.CharacterClasses`. A `std::string` is a list of characters, one for each `char`.

`ValidateOctet` reads a run of digits into an `int`, `octet = octet * 10 + (c - '0')`, with
no bound on the number of digits. Signed overflow is undefined in C++; what the compiled
loop computes is two's-complement arithmetic on 32 bits, which is `Int32` here, and the
value the digits denote is `Rhymuri.Cpp.decimalValue`. The two agree while the value fits
in an `int`, and `ValidateOctet` then decides `value ≤ 255`
(`Rhymuri.Cpp.validateOctet_iff_of_lt`). Past that the accumulator wraps, and a run of
digits whose value is `2 ^ 32` passes as `0`.

`ValidateIpv4Address` is a two-state machine, like the crate's, whose `return false`
inside the loop is the `none` of a fold in `Option`. Unlike the crate's, it does not reject
an address that ends just after a dot: a fourth dot is allowed as long as it comes after
the fourth part.
-/

namespace Rhymuri

namespace Cpp

/-! ### `ValidateOctet` -/

/-- One turn of the loop of `ValidateOctet`: a digit is shifted into the `int`
accumulator, anything else is `return false`. -/
def validateOctetStep (octet : Int32) (c : Char) : Option Int32 :=
  if digit c then some (octet * 10 + Int32.ofNat (c.toNat - '0'.toNat)) else none

/-- `ValidateOctet`. -/
def validateOctet (octetString : List Char) : Bool :=
  match octetString.foldlM validateOctetStep 0 with
  | some octet => octet ≤ 255
  | none => false

/-- The number a run of decimal digits denotes: the value the accumulator of
`ValidateOctet` would hold in unbounded arithmetic. -/
def decimalValue (octetString : List Char) : ℕ :=
  octetString.foldl (fun octet c => octet * 10 + (c.toNat - '0'.toNat)) 0

/-- The loop over digits computes the value the digits denote, modulo `2 ^ 32`. -/
theorem foldlM_validateOctetStep {d : List Char} (hd : ∀ c ∈ d, digit c = true) (n : ℕ) :
    d.foldlM validateOctetStep (Int32.ofNat n) =
      some (Int32.ofNat (d.foldl (fun octet c => octet * 10 + (c.toNat - '0'.toNat)) n)) := by
  induction d generalizing n with
  | nil => rfl
  | cons c d ih =>
    have hstep : validateOctetStep (Int32.ofNat n) c =
        some (Int32.ofNat (n * 10 + (c.toNat - '0'.toNat))) := by
      rw [validateOctetStep, if_pos (hd c List.mem_cons_self), Int32.ofNat_add, Int32.ofNat_mul]
      rfl
    rw [List.foldlM_cons, hstep]
    exact ih (fun x hx => hd x (List.mem_cons_of_mem c hx)) _

/-- On a run of digits, `ValidateOctet` compares the value modulo `2 ^ 32`, read as a
signed number, with `255`. -/
theorem validateOctet_eq_of_digits {d : List Char} (hd : ∀ c ∈ d, digit c = true) :
    validateOctet d = decide (Int32.ofNat (decimalValue d) ≤ 255) := by
  rw [validateOctet, show (0 : Int32) = Int32.ofNat 0 from rfl, foldlM_validateOctetStep hd]
  rfl

/-- A character outside `DIGIT` fails `ValidateOctet`. -/
theorem validateOctet_of_not_digit {d : List Char} {c : Char} (hc : c ∈ d)
    (h : digit c = false) : validateOctet d = false := by
  have hrun : ∀ o : Int32, d.foldlM validateOctetStep o = none := by
    induction d with
    | nil => simp at hc
    | cons x d ih =>
      intro o
      rcases List.mem_cons.mp hc with rfl | hc
      · simp [validateOctetStep, h]
      · rw [List.foldlM_cons]
        cases validateOctetStep o x with
        | none => rfl
        | some o' => exact ih hc o'
  rw [validateOctet, hrun]

/-- **`ValidateOctet` decides the octet range while the value fits in an `int`.** -/
theorem validateOctet_iff_of_lt {d : List Char} (hd : ∀ c ∈ d, digit c = true)
    (hv : decimalValue d < 2 ^ 31) : validateOctet d = true ↔ decimalValue d ≤ 255 := by
  rw [validateOctet_eq_of_digits hd, decide_eq_true_iff, Int32.le_iff_toInt_le,
    Int32.toInt_ofNat_of_lt hv]
  have h255 : (255 : Int32).toInt = 255 := rfl
  rw [h255]
  omega

theorem validateOctet_iff_of_lt_three_digits :
    (∀ c ∈ ['2', '5', '6'], digit c = true) ∧ decimalValue ['2', '5', '6'] < 2 ^ 31 ∧
      (validateOctet ['2', '5', '6'] = true ↔ decimalValue ['2', '5', '6'] ≤ 255) := by
  have hdigits : ∀ c ∈ ['2', '5', '6'], digit c = true := List.all_eq_true.mp rfl
  have hv : decimalValue ['2', '5', '6'] < 2 ^ 31 := by decide
  exact ⟨hdigits, hv, validateOctet_iff_of_lt hdigits hv⟩

/-- Ten digits that denote `2 ^ 32`: the accumulator leaves the range of `int` on the
last digit, and what wraps around to `0` passes `ValidateOctet`. -/
theorem validateOctet_ten_digits :
    (∀ c ∈ ['4', '2', '9', '4', '9', '6', '7', '2', '9', '6'], digit c = true) ∧
      2 ^ 31 ≤ decimalValue ['4', '2', '9', '4', '9', '6', '7', '2', '9', '6'] ∧
      255 < decimalValue ['4', '2', '9', '4', '9', '6', '7', '2', '9', '6'] ∧
      validateOctet ['4', '2', '9', '4', '9', '6', '7', '2', '9', '6'] = true := by
  have hdigits : ∀ c ∈ ['4', '2', '9', '4', '9', '6', '7', '2', '9', '6'], digit c = true :=
    List.all_eq_true.mp rfl
  refine ⟨hdigits, by decide, by decide, ?_⟩
  rw [validateOctet_eq_of_digits hdigits]
  rfl

/-! ### `ValidateIpv4Address` -/

namespace ValidateIpv4Address

/-- The values of `state`: `0`, not in an octet yet, and `1`, expecting a digit or a
dot. -/
inductive State
  /-- `0`: not in an octet yet. -/
  | notInOctet
  /-- `1`: expecting a digit or a dot. -/
  | expectDigitOrDot
  deriving DecidableEq, Repr

/-- The variables of the loop. -/
structure Locals where
  /-- `numGroups`: the octets completed so far. -/
  numGroups : ℕ
  /-- `state`. -/
  state : State
  /-- `octetBuffer`: the digits of the current octet. -/
  octetBuffer : List Char
  deriving DecidableEq, Repr

/-- The variables before the loop. -/
def init : Locals := ⟨0, .notInOctet, []⟩

/-- The `switch` of the loop on one character; `none` is `return false`. A dot counts
the octet before it, fails past the fourth, and checks it with `ValidateOctet`. -/
def next (l : Locals) (c : Char) : Option Locals :=
  match l.state with
  | .notInOctet =>
    if digit c then some { l with octetBuffer := l.octetBuffer ++ [c], state := .expectDigitOrDot }
    else none
  | .expectDigitOrDot =>
    if c = '.' then
      -- `if (numGroups++ >= 4) return false;`
      if l.numGroups ≥ 4 then none
      else if !validateOctet l.octetBuffer then none
      else some { l with numGroups := l.numGroups + 1, octetBuffer := [], state := .notInOctet }
    else if digit c then some { l with octetBuffer := l.octetBuffer ++ [c] }
    else none

/-- What follows the loop: the last octet, if the buffer holds one, is counted and
checked, and four octets are required. -/
def finish (l : Locals) : Bool :=
  if !l.octetBuffer.isEmpty then validateOctet l.octetBuffer && l.numGroups + 1 == 4
  else l.numGroups == 4

end ValidateIpv4Address

open Rhymuri.Cpp.ValidateIpv4Address in
/-- `ValidateIpv4Address`. -/
def validateIpv4Address (address : List Char) : Bool :=
  match address.foldlM next init with
  | some l => finish l
  | none => false

/-! ### The accepted addresses -/

/-- An octet as `ValidateIpv4Address` accepts it: a nonempty run of digits that
`ValidateOctet` passes. -/
def IsOctetText (o : List Char) : Prop :=
  o ≠ [] ∧ (∀ c ∈ o, digit c = true) ∧ validateOctet o = true

namespace ValidateIpv4Address

/-- **The invariant of the loop**, of the text `u` read so far: the completed octets, each
with its dot, then the buffer, which is empty exactly before an octet. -/
structure Inv (u : List Char) (l : Locals) : Prop where
  digits : ∀ c ∈ l.octetBuffer, digit c = true
  state_iff : l.state = .notInOctet ↔ l.octetBuffer = []
  text : ∃ os : List (List Char), os.length = l.numGroups ∧ (∀ o ∈ os, IsOctetText o) ∧
    u = os.flatMap (· ++ ['.']) ++ l.octetBuffer

theorem inv_init : Inv [] init := ⟨by simp [init], by simp [init], [], rfl, by simp, rfl⟩

/-- **Each turn of the loop keeps the invariant.** -/
theorem inv_next {u : List Char} {c : Char} {l l' : Locals} (hl : Inv u l)
    (h : next l c = some l') : Inv (u ++ [c]) l' := by
  obtain ⟨hdig, hstate, os, hlen, hos, rfl⟩ := hl
  rcases hs : l.state with _ | _
  · -- before an octet: a digit starts one
    have hbuf : l.octetBuffer = [] := hstate.mp hs
    simp only [next, hs] at h
    split_ifs at h with hc
    cases h
    refine ⟨by simp [hbuf, hc], by simp, os, hlen, hos, by simp [hbuf]⟩
  · have hne : l.octetBuffer ≠ [] := fun hb => by simp [hstate.mpr hb] at hs
    simp only [next, hs] at h
    split_ifs at h with hdot hfour hoct hc
    · -- a dot completes the octet in the buffer
      cases h
      refine ⟨by simp, by simp, os ++ [l.octetBuffer], by simp [hlen], ?_, by simp [hdot]⟩
      intro o ho
      rcases List.mem_append.mp ho with ho | ho
      · exact hos o ho
      · rw [List.mem_singleton.mp ho]
        exact ⟨hne, hdig, by simpa using hoct⟩
    · -- a digit extends it
      cases h
      refine ⟨fun d hd => ?_, by simp, os, hlen, hos, by simp⟩
      rcases List.mem_append.mp hd with hd | hd
      · exact hdig d hd
      · exact List.mem_singleton.mp hd ▸ hc

theorem inv_foldlM {a : List Char} {l : Locals} (h : a.foldlM next init = some l) :
    Inv a l := by
  simpa using List.foldlM_option_invariant Inv (fun _ _ _ _ hs hst => inv_next hs hst) a [] _ l
    inv_init h

/-! ### Runs over dotted addresses -/

theorem foldlM_next_digits (g : ℕ) (buf : List Char) :
    ∀ d : List Char, (∀ c ∈ d, digit c = true) →
      d.foldlM next ⟨g, .expectDigitOrDot, buf⟩ = some ⟨g, .expectDigitOrDot, buf ++ d⟩ := by
  intro d
  induction d generalizing buf with
  | nil => intro _; simp
  | cons c d ih =>
    intro hd
    have hc : digit c = true := hd c List.mem_cons_self
    have hdot : c ≠ '.' := fun h => absurd (h ▸ hc) (by decide)
    have hstep : next ⟨g, .expectDigitOrDot, buf⟩ c = some ⟨g, .expectDigitOrDot, buf ++ [c]⟩ := by
      simp [next, hdot, hc]
    rw [List.foldlM_cons, hstep, Option.bind_eq_bind, Option.bind_some,
      ih (buf ++ [c]) (fun x hx => hd x (List.mem_cons_of_mem c hx))]
    simp

/-- An octet read from its start leaves its digits in the buffer. -/
theorem foldlM_next_octet (g : ℕ) {o : List Char} (ho : IsOctetText o) :
    o.foldlM next ⟨g, .notInOctet, []⟩ = some ⟨g, .expectDigitOrDot, o⟩ := by
  obtain ⟨hne, hdig, -⟩ := ho
  obtain ⟨c, d, rfl⟩ := List.exists_cons_of_ne_nil hne
  have hstep : next ⟨g, .notInOctet, []⟩ c = some ⟨g, .expectDigitOrDot, [c]⟩ := by
    simp [next, hdig c List.mem_cons_self]
  rw [List.foldlM_cons, hstep, Option.bind_eq_bind, Option.bind_some]
  exact foldlM_next_digits g [c] d (fun x hx => hdig x (List.mem_cons_of_mem c hx))

/-- Completed octets read from an octet boundary are counted, up to four. -/
theorem foldlM_next_dotted (g : ℕ) :
    ∀ os : List (List Char), (∀ o ∈ os, IsOctetText o) → g + os.length ≤ 4 →
      (os.flatMap (· ++ ['.'])).foldlM next ⟨g, .notInOctet, []⟩ =
        some ⟨g + os.length, .notInOctet, []⟩ := by
  intro os
  induction os generalizing g with
  | nil => intro _ _; simp
  | cons o os ih =>
    intro hos hlen
    rw [List.length_cons] at hlen
    have ho : IsOctetText o := hos o List.mem_cons_self
    have hdot : next ⟨g, .expectDigitOrDot, o⟩ '.' = some ⟨g + 1, .notInOctet, []⟩ := by
      simp [next, show ¬(4 ≤ g) by omega, ho.2.2]
    rw [List.flatMap_cons, List.append_assoc, List.foldlM_append, foldlM_next_octet g ho,
      Option.bind_eq_bind, Option.bind_some, List.singleton_append, List.foldlM_cons, hdot,
      Option.bind_eq_bind, Option.bind_some,
      ih (g + 1) (fun x hx => hos x (List.mem_cons_of_mem o hx)) (by omega),
      List.length_cons, Nat.add_right_comm, Nat.add_assoc]

end ValidateIpv4Address

open Rhymuri.Cpp.ValidateIpv4Address in
/-- **What the C++ IPv4 validator accepts**: four octets joined by dots, each a nonempty
run of digits that `ValidateOctet` passes, and possibly one dot after the last. -/
theorem validateIpv4Address_eq_true_iff (a : List Char) :
    validateIpv4Address a = true ↔
      ∃ os : List (List Char), os.length = 4 ∧ (∀ o ∈ os, IsOctetText o) ∧
        (a = ['.'].intercalate os ∨ a = ['.'].intercalate os ++ ['.']) := by
  constructor
  · intro h
    rw [validateIpv4Address] at h
    split at h
    case h_2 => simp at h
    rename_i l hrun
    obtain ⟨hdig, hstate, os, hlen, hos, rfl⟩ := inv_foldlM hrun
    rw [finish] at h
    split_ifs at h with hbuf
    · -- the buffer holds the fourth octet
      simp only [Bool.and_eq_true, beq_iff_eq] at h
      have hne : l.octetBuffer ≠ [] := by simpa using hbuf
      refine ⟨os ++ [l.octetBuffer], by simp [hlen, h.2], ?_,
        .inl (List.flatMap_append_singleton_append '.' os l.octetBuffer)⟩
      intro o ho
      rcases List.mem_append.mp ho with ho | ho
      · exact hos o ho
      · exact List.mem_singleton.mp ho ▸ ⟨hne, hdig, h.1⟩
    · -- four octets, each with its dot
      have hb : l.octetBuffer = [] := by simpa using hbuf
      have h4 : os.length = 4 := by simpa [hlen] using h
      refine ⟨os, h4, hos, .inr ?_⟩
      rw [hb, List.append_nil, List.flatMap_append_singleton_of_ne_nil '.'
        (List.ne_nil_of_length_pos (by omega))]
  · rintro ⟨os, hlen, hos, ha⟩
    obtain ⟨qs, o, rfl⟩ := (List.eq_nil_or_concat' os).resolve_left (by rintro rfl; simp at hlen)
    have hqs : ∀ q ∈ qs, IsOctetText q := fun q hq => hos q (List.mem_append_left _ hq)
    have ho : IsOctetText o := hos o (List.mem_append_right _ List.mem_cons_self)
    have hqlen : qs.length = 3 := by simpa using hlen
    have hprefix : (qs.flatMap (· ++ ['.'])).foldlM next init = some ⟨3, .notInOctet, []⟩ := by
      rw [init, foldlM_next_dotted 0 qs hqs (by omega), hqlen]
    rcases ha with rfl | rfl
    · rw [← List.flatMap_append_singleton_append, validateIpv4Address, List.foldlM_append,
        hprefix, Option.bind_eq_bind, Option.bind_some, foldlM_next_octet 3 ho]
      simp [finish, ho.1, ho.2.2]
    · have hlast : (o ++ ['.']).foldlM next ⟨3, .notInOctet, []⟩ = some ⟨4, .notInOctet, []⟩ := by
        rw [List.foldlM_append, foldlM_next_octet 3 ho, Option.bind_eq_bind, Option.bind_some]
        simp [next, ho.2.2]
      rw [← List.flatMap_append_singleton_of_ne_nil '.' (by simp), List.flatMap_append,
        validateIpv4Address, List.foldlM_append, hprefix, Option.bind_eq_bind, Option.bind_some,
        List.flatMap_singleton, hlast]
      rfl

end Cpp

end Rhymuri
