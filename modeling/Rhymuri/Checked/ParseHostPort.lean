import Rhymuri.Checked.Codec
import Rhymuri.Lib.Utf8
import Rhymuri.Authority.RoundTrip

/-!
# The host machine and `Authority::parse`, with their panics

The model of `src/validate_ipv6_address.rs` reads the position of each character as its
index. The code reads it from `str::char_indices`, as a byte offset, and slices the address
at the offset it kept, `&state.address[state.potential_ipv4_address_start..]`. The machine
itself never looks at a position: it only stores one. So a run over the byte offsets is the
run over the indices with each stored index moved to its offset
(`Rhymuri.ValidateIpv6Address.State.next_relocate`), and the slice is at the offset of an
index, a boundary (`Rhymuri.Checked.run_validateIpv6Address`).

`src/parse_host_port.rs` unwraps `u8::try_from(c as u32)` in four places and slices off the
`[v` or `[` it has just matched. Each unwrap is reached with an ASCII character only: a
reg-name character, a hexadecimal digit, a character of an IPvFuture body, or a character of
an IPv6 literal that the validator has accepted; and the decoder of percent-encodings stays
well formed along the run (`Rhymuri.Checked.run_parseHostPort`).
-/

namespace Rhymuri

/-! ### The IPv6 validator at byte offsets -/

namespace ValidateIpv6Address

/-- The fields of a machine's state, mapped. -/
def State.map (m : Shared → Shared) : State → State
  | .noGroupsYet s => .noGroupsYet (m s)
  | .colonButNoGroupsYet s => .colonButNoGroupsYet (m s)
  | .afterDoubleColon s => .afterDoubleColon (m s)
  | .inGroupNotIpv4 s => .inGroupNotIpv4 (m s)
  | .inGroupCouldBeIpv4 s => .inGroupCouldBeIpv4 (m s)
  | .inGroupIpv4 s => .inGroupIpv4 (m s)
  | .colonAfterGroup s => .colonAfterGroup (m s)

/-- The fields of an exit status, mapped. -/
def MachineExitStatus.map (m : Shared → Shared) : MachineExitStatus → MachineExitStatus
  | .error e => .error e
  | .ipv4Trailer s => .ipv4Trailer (m s)

/-- The address, replaced, and the stored position, moved by `g`: the two fields the machine
only ever copies. -/
def Shared.relocate (address : List Char) (g : ℕ → ℕ) (s : Shared) : Shared :=
  { s with address, potentialIpv4AddressStart := g s.potentialIpv4AddressStart }

namespace State

/-- **The machine does not look at positions**: on a relocated state, at a moved position,
a step does what it does on the original, relocated. -/
theorem next_relocate (a : List Char) (g : ℕ → ℕ) (st : State) (i : ℕ) (c : Char) :
    (st.map (Shared.relocate a g)).next (g i) c =
      ((st.next i c).map (State.map (Shared.relocate a g))).mapError
        (MachineExitStatus.map (Shared.relocate a g)) := by
  -- every branch writes the same counters on both sides, and the position it stores is moved
  cases st
  case inGroupIpv4 => rfl
  all_goals
    simp only [State.map, next, nextNoGroupsYet, nextColonButNoGroupsYet, nextAfterDoubleColon,
      nextInGroupNotIpv4, nextInGroupCouldBeIpv4, nextColonAfterGroup, Shared.relocate]
    split_ifs <;> rfl

/-- The fold over the positions of `address`, with the positions moved by `g`. -/
theorem foldlM_relocate (a : List Char) (g : ℕ → ℕ) (l : List (Char × ℕ)) (st : State) :
    (l.map fun p => (p.1, g p.2)).foldlM step (st.map (Shared.relocate a g)) =
      ((l.foldlM step st).map (State.map (Shared.relocate a g))).mapError
        (MachineExitStatus.map (Shared.relocate a g)) :=
  List.foldlM_except_map_comm _ _ _ (fun st p => next_relocate a g st p.2 p.1) l st

theorem afterFold_map (m : Shared → Shared) (x : Except MachineExitStatus State) :
    afterFold ((x.map (State.map m)).mapError (MachineExitStatus.map m)) =
      (afterFold x).map (State.map m) := by
  cases x with
  | error e => cases e <;> rfl
  | ok st => rfl

end State

end ValidateIpv6Address

namespace Checked

section Ipv6

open ValidateIpv6Address

/-- `State::finalize` of the IPv6 validator, with its slice at the stored byte offset. -/
def finalize (machine : ValidateIpv6Address.State) : ExceptT Error Option Unit :=
  match machine with
  | .inGroupIpv4 state => do
    let ipv4Part ← sliceFrom state.address state.potentialIpv4AddressStart
    validateIpv4Address ipv4Part
    State.checkNumGroups state.doubleColonEncountered (state.numGroups + 2)
  -- no other state slices
  | _ => machine.finalize

/-- `validate_ipv6_address`: the machine runs over `char_indices`, whose positions are byte
offsets. -/
def validateIpv6Address (address : List Char) : ExceptT Error Option Unit := do
  let machine ← afterFold ((charIndices address).foldlM State.step (State.new address))
  finalize machine

/-- At the byte offset of a stored index, the slice of `finalize` does not panic. -/
theorem run_finalize_relocate (a : List Char) (st : ValidateIpv6Address.State) :
    (finalize (st.map (Shared.relocate a (byteOffset a)))).run =
      some (st.map (Shared.relocate a id)).finalize := by
  cases st with
  | inGroupIpv4 s =>
    simp only [finalize, State.map, ValidateIpv6Address.State.finalize, Shared.relocate, id]
    rw [run_liftM_bind (sliceFrom_byteOffset a s.potentialIpv4AddressStart)]
    simp only [ExceptT.run_bind, run_liftM_except]
    cases validateIpv4Address (a.drop s.potentialIpv4AddressStart) <;> rfl
  | _ => exact run_liftM_except _

/-- **The IPv6 validator never panics**, and gives the verdict of the model. -/
theorem run_validateIpv6Address (a : List Char) :
    (validateIpv6Address a).run = some (Rhymuri.validateIpv6Address a) := by
  -- the run over byte offsets is the run over indices, relocated; and the run over indices is
  -- its own relocation to the address it holds
  have hbytes := State.foldlM_relocate a (byteOffset a) a.zipIdx (State.new a)
  have hself := State.foldlM_relocate a id a.zipIdx (State.new a)
  have hnew : ∀ g : ℕ → ℕ, g 0 = 0 → (State.new a).map (Shared.relocate a g) = State.new a := by
    intro g hg
    simp only [State.new, State.map, Shared.relocate, hg]
  rw [hnew _ (byteOffset_zero a)] at hbytes
  have hid : (a.zipIdx.map fun p : Char × ℕ => (p.1, id p.2)) = a.zipIdx := by simp
  rw [hnew id rfl, hid] at hself
  rw [validateIpv6Address, charIndices, hbytes, State.afterFold_map, Rhymuri.validateIpv6Address]
  have hfix := congrArg afterFold hself
  rw [State.afterFold_map] at hfix
  cases h : afterFold (a.zipIdx.foldlM State.step (State.new a)) with
  | error e => rfl
  | ok st =>
    rw [h] at hfix
    have hst : st.map (Shared.relocate a id) = st := (Except.ok.inj hfix).symm
    calc (liftM (Except.ok (st.map (Shared.relocate a (byteOffset a)))) >>= finalize).run
        = (finalize (st.map (Shared.relocate a (byteOffset a)))).run := rfl
      _ = some (st.map (Shared.relocate a id)).finalize := run_finalize_relocate a st
      _ = some ((Except.ok st).bind State.finalize) := by rw [hst]; rfl

end Ipv6

/-! ### The host machine -/

/-- A character of an IPvFuture body is ASCII. -/
theorem ipvFutureLastPart_ascii {c : Char} (h : ipvFutureLastPart c = true) : c.toNat < 128 := by
  simp only [ipvFutureLastPart, Bool.or_eq_true] at h
  rcases h with (h | h) | h
  · exact unreserved_ascii h
  · exact subDelims_ascii h
  · exact elem_ascii (by decide) h

namespace ParseHostPort

open Rhymuri.ParseHostPort (Shared State)

/-- `State::new`, with its slices `&host_port_string[2..]` and `&host_port_string[1..]` after
`starts_with`. -/
def new (hostPortString : List Char) : Option (State × List Char) :=
  let shared : Shared := ⟨[], false, [], Rhymuri.PercentEncodedCharacterDecoder.new, []⟩
  if ['[', 'v'].isPrefixOf hostPortString then do
    let hostPortString ← sliceFrom hostPortString 2
    pure (.ipvFutureNumber { shared with host := [118] }, hostPortString)
  else if ['['].isPrefixOf hostPortString then do
    let hostPortString ← sliceFrom hostPortString 1
    pure (.ipv6Address shared, hostPortString)
  else pure (.notIpLiteral { shared with hostIsRegName := true }, hostPortString)

/-- `next_not_ip_literal`, with the `unwrap` of `u8::try_from(c as u32)`. -/
def nextNotIpLiteral (state : Shared) (c : Char) : ExceptT Error Option State :=
  if c = '%' then pure (.percentEncodedCharacter state)
  else if c = ':' then pure (.port state)
  else if regNameNotPctEncoded c then do
    let b ← u8TryFrom c.toNat
    pure (.notIpLiteral { state with host := state.host ++ [b] })
  else throw (.illegalCharacter .host)

/-- `next_percent_encoded_character`, with the panics of the decoder. -/
def nextPercentEncodedCharacter (state : Shared) (c : Char) : ExceptT Error Option State := do
  match ← Checked.PercentEncodedCharacterDecoder.next state.pecDecoder c with
  | (_, .error e) => throw e
  | (pecDecoder, .ok (some ci)) =>
    pure (.notIpLiteral { state with pecDecoder, host := state.host ++ [ci] })
  | (pecDecoder, .ok none) => pure (.percentEncodedCharacter { state with pecDecoder })

/-- `next_ipv6_address`, with the panics of the validator and the `unwrap` of each
`u8::try_from(c as u32)`. -/
def nextIpv6Address (state : Shared) (c : Char) : ExceptT Error Option State :=
  if c = ']' then do
    Checked.validateIpv6Address state.ipv6Address
    let host ← (state.ipv6Address.mapM fun c => u8TryFrom c.toNat : Option (List UInt8))
    pure (.garbageCheck { state with host })
  else pure (.ipv6Address { state with ipv6Address := state.ipv6Address ++ [c] })

/-- `next_ipv_future_number`, with the `unwrap` of `u8::try_from(c as u32)`. -/
def nextIpvFutureNumber (state : Shared) (c : Char) : ExceptT Error Option State :=
  if c = '.' then pure (.ipvFutureBody { state with host := state.host ++ [46] })
  else if c = ']' then throw .truncatedHost
  else if hexdig c then do
    let b ← u8TryFrom c.toNat
    pure (.ipvFutureNumber { state with host := state.host ++ [b] })
  else throw (.illegalCharacter .ipvFuture)

/-- `next_ipv_future_body`, with the `unwrap` of `u8::try_from(c as u32)`. -/
def nextIpvFutureBody (state : Shared) (c : Char) : ExceptT Error Option State :=
  if c = ']' then pure (.garbageCheck state)
  else if ipvFutureLastPart c then do
    let b ← u8TryFrom c.toNat
    pure (.ipvFutureBody { state with host := state.host ++ [b] })
  else throw (.illegalCharacter .ipvFuture)

/-- `State::next`, with the panics of each state. -/
def next : State → Char → ExceptT Error Option State
  | .notIpLiteral state, c => nextNotIpLiteral state c
  | .percentEncodedCharacter state, c => nextPercentEncodedCharacter state c
  | .ipv6Address state, c => nextIpv6Address state c
  | .ipvFutureNumber state, c => nextIpvFutureNumber state c
  | .ipvFutureBody state, c => nextIpvFutureBody state c
  -- neither of the last two can panic
  | .garbageCheck state, c => liftM (State.nextGarbageCheck state c)
  | .port state, c => pure (State.nextPort state c)

end ParseHostPort

/-- `parse_host_port`, with the panics of the machine. -/
def parseHostPort (hostPortString : List Char) :
    ExceptT Error Option (List UInt8 × Option UInt16) := do
  let (machine, hostPortString) ← ParseHostPort.new hostPortString
  let machine ← hostPortString.foldlM ParseHostPort.next machine
  machine.finalize

namespace ParseHostPort

open Rhymuri.ParseHostPort (Shared State)

open Rhymuri.PercentEncodedCharacterDecoder (WellFormed)

/-- **`State::new` never panics**: it slices off the ASCII `[v` or `[` it has matched. -/
theorem new_eq_some (hostPortString : List Char) :
    new hostPortString = some (State.new hostPortString) := by
  unfold new
  split
  · next h =>
    obtain ⟨rest, rfl⟩ := List.isPrefixOf_iff_prefix.mp h
    rw [show (2 : ℕ) = ['[', 'v'].length from rfl,
      sliceFrom_append_of_ascii rest fun c hc => elem_ascii (by decide) (List.elem_iff.mpr hc)]
    rfl
  · next h =>
    split
    · next h' =>
      obtain ⟨rest, rfl⟩ := List.isPrefixOf_iff_prefix.mp h'
      rw [show (1 : ℕ) = ['['].length from rfl,
        sliceFrom_append_of_ascii rest fun c hc => elem_ascii (by decide) (List.elem_iff.mpr hc)]
      -- what follows the `[` is not a `v`
      cases rest with
      | nil => rfl
      | cons d ds =>
        have hd : d ≠ 'v' := by
          rintro rfl
          exact h (by simp)
        simp [State.new, hd]
    · next h' =>
      -- the string does not start with `[`
      cases hostPortString with
      | nil => rfl
      | cons c cs =>
        have hc : c ≠ '[' := by
          rintro rfl
          exact h' (by simp)
        simp [State.new, hc]

/-- The machine starts with a fresh decoder. -/
theorem pecDecoder_new (hostPortString : List Char) :
    (State.new hostPortString).1.shared.pecDecoder = Rhymuri.PercentEncodedCharacterDecoder.new := by
  unfold State.new
  split <;> rfl

theorem run_nextNotIpLiteral (state : Shared) (c : Char) :
    (nextNotIpLiteral state c).run = some (State.nextNotIpLiteral state c) := by
  unfold nextNotIpLiteral State.nextNotIpLiteral
  split_ifs with _ _ hreg
  · rfl
  · rfl
  · -- a reg-name character is ASCII
    have hlt : c.toNat < 256 := by
      have := regNameNotPctEncoded_isAsciiSet.ascii c hreg
      omega
    rw [run_liftM_bind (u8TryFrom_of_lt hlt)]
    rfl
  · rfl

theorem run_nextPercentEncodedCharacter {state : Shared} (h : WellFormed state.pecDecoder)
    (c : Char) :
    (nextPercentEncodedCharacter state c).run = some (State.nextPercentEncodedCharacter state c) := by
  unfold nextPercentEncodedCharacter State.nextPercentEncodedCharacter
  rw [run_liftM_bind (Checked.PercentEncodedCharacterDecoder.next_of_wellFormed h c)]
  rcases state.pecDecoder.next c with ⟨d, _ | _ | ci⟩ <;> rfl

theorem run_nextIpv6Address (state : Shared) (c : Char) :
    (nextIpv6Address state c).run = some (State.nextIpv6Address state c) := by
  unfold nextIpv6Address State.nextIpv6Address
  split_ifs
  · refine run_bind_eq_some (run_validateIpv6Address state.ipv6Address) fun u hv => ?_
    -- the characters the validator accepts are ASCII
    have hlt : ∀ c ∈ state.ipv6Address, c.toNat < 256 := fun c hc => by
      have := ascii_of_validateIpv6Address hv c hc
      omega
    rw [run_liftM_bind (mapM_u8TryFrom_of_lt hlt)]
    rfl
  · rfl

theorem run_nextIpvFutureNumber (state : Shared) (c : Char) :
    (nextIpvFutureNumber state c).run = some (State.nextIpvFutureNumber state c) := by
  unfold nextIpvFutureNumber State.nextIpvFutureNumber
  split_ifs with _ _ hhex
  · rfl
  · rfl
  · have hlt : c.toNat < 256 := by
      have := hexdig_ascii hhex
      omega
    rw [run_liftM_bind (u8TryFrom_of_lt hlt)]
    rfl
  · rfl

theorem run_nextIpvFutureBody (state : Shared) (c : Char) :
    (nextIpvFutureBody state c).run = some (State.nextIpvFutureBody state c) := by
  unfold nextIpvFutureBody State.nextIpvFutureBody
  split_ifs with _ hlast
  · rfl
  · have hlt : c.toNat < 256 := by
      have := ipvFutureLastPart_ascii hlast
      omega
    rw [run_liftM_bind (u8TryFrom_of_lt hlt)]
    rfl
  · rfl

/-- **A step never panics** while the decoder is well formed. -/
theorem run_next {st : State} (h : WellFormed st.shared.pecDecoder) (c : Char) :
    (next st c).run = some (st.next c) := by
  cases st with
  | notIpLiteral s => exact run_nextNotIpLiteral s c
  | percentEncodedCharacter s => exact run_nextPercentEncodedCharacter h c
  | ipv6Address s => exact run_nextIpv6Address s c
  | ipvFutureNumber s => exact run_nextIpvFutureNumber s c
  | ipvFutureBody s => exact run_nextIpvFutureBody s c
  | garbageCheck s => exact run_liftM_except _
  | port s => rfl

/-- **A step keeps the decoder well formed**: only a percent-encoding changes it, by a step of
the decoder. -/
theorem wellFormed_next {st t : State} {c : Char} (h : WellFormed st.shared.pecDecoder)
    (ht : st.next c = .ok t) : WellFormed t.shared.pecDecoder := by
  cases st with
  | percentEncodedCharacter s =>
    have hd : WellFormed (s.pecDecoder.next c).1 :=
      Rhymuri.PercentEncodedCharacterDecoder.wellFormed_next h c
    simp only [State.next, State.nextPercentEncodedCharacter] at ht
    rcases hn : s.pecDecoder.next c with ⟨d, _ | _ | ci⟩ <;> rw [hn] at ht hd <;> cases ht <;>
      exact hd
  | ipv6Address s =>
    simp only [State.next, State.nextIpv6Address] at ht
    split_ifs at ht
    · obtain ⟨-, -, ht⟩ := Except.bind_eq_ok.mp ht
      cases ht
      exact h
    · cases ht
      exact h
  | _ =>
    simp only [State.next, State.nextNotIpLiteral, State.nextIpvFutureNumber,
      State.nextIpvFutureBody, State.nextGarbageCheck, State.nextPort] at ht
    first
    | (cases ht; exact h)
    | (split_ifs at ht <;> cases ht <;> exact h)

end ParseHostPort

open Rhymuri.PercentEncodedCharacterDecoder (WellFormed)

/-- **`parse_host_port` never panics**, and returns what the model returns. -/
theorem run_parseHostPort (hostPortString : List Char) :
    (parseHostPort hostPortString).run = some (Rhymuri.parseHostPort hostPortString) := by
  unfold parseHostPort Rhymuri.parseHostPort
  rw [run_liftM_bind (ParseHostPort.new_eq_some hostPortString)]
  have hnew : WellFormed (Rhymuri.ParseHostPort.State.new hostPortString).1.shared.pecDecoder := by
    rw [ParseHostPort.pecDecoder_new]
    exact .inl ⟨rfl, rfl⟩
  rcases hp : Rhymuri.ParseHostPort.State.new hostPortString with ⟨machine, rest⟩
  rw [hp] at hnew
  -- the decoder stays well formed along the run
  exact run_bind_eq_some
    (run_foldlM_eq_some (fun st => WellFormed st.shared.pecDecoder)
      (fun _ c h => ParseHostPort.run_next h c) (fun _ _ _ h ht => ParseHostPort.wellFormed_next h ht)
      rest machine hnew)
    fun m _ => run_liftM_except m.finalize

/-! ### `Authority::parse` -/

/-- A search for a one-character ASCII delimiter. -/
theorem eq_delimiter_ascii {d c : Char} (hd : d.toNat < 128) (h : decide (c = d) = true) :
    c.toNat < 128 := by
  rw [of_decide_eq_true h]
  exact hd

namespace Authority

/-- `Authority::parse_userinfo`, with its slices around the `@` that `str::find` found. -/
def parseUserinfo (authority : List Char) :
    ExceptT Error Option (Option (List UInt8) × List Char) :=
  match findByte authority (· = '@') with
  | some delimiter => do
    let userinfo ← Checked.decodeElement (← sliceBytes authority 0 delimiter)
      userInfoNotPctEncoded .userinfo
    let rest ← sliceFrom authority (delimiter + 1)
    pure (some userinfo, rest)
  | none => pure (none, authority)

/-- `Authority::parse`, with its panics. -/
def parse (authorityString : List Char) : ExceptT Error Option Authority := do
  let (userinfo, hostPortString) ← parseUserinfo authorityString
  let (host, port) ← parseHostPort hostPortString
  pure ⟨userinfo, host, port⟩

theorem run_parseUserinfo (authority : List Char) :
    (parseUserinfo authority).run = some (Rhymuri.Authority.parseUserinfo authority) := by
  unfold parseUserinfo Rhymuri.Authority.parseUserinfo
  rw [findByte]
  cases h : authority.findIdx? (· = '@') with
  | none => rfl
  | some j =>
    -- the `@` is one byte: both slices are at boundaries
    obtain ⟨hbefore, hafter⟩ := slices_findIdx?_of_ascii h fun c => eq_delimiter_ascii (by decide)
    simp only [Option.map_some]
    rw [run_liftM_bind hbefore]
    refine run_bind_eq_some (run_decodeElement _ _ _) fun userinfo _ => ?_
    rw [run_liftM_bind hafter]
    rfl

/-- **`Authority::parse` never panics**, and returns what the model returns. -/
theorem run_parse (authorityString : List Char) :
    (parse authorityString).run = some (Rhymuri.Authority.parse authorityString) :=
  run_bind_eq_some (run_parseUserinfo authorityString) fun _ _ =>
    run_bind_eq_some (run_parseHostPort _) fun _ _ => rfl

end Authority

end Checked

end Rhymuri
