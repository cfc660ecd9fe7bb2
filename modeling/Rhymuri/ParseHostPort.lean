import Rhymuri.PercentEncodedCharacterDecoder
import Rhymuri.ValidateIpv6Address

/-!
# The host and port machine

`src/parse_host_port.rs` splits the part of an authority after the userinfo into a host
and a port with a seven-state machine, folded over the characters (`try_fold`), after a
first look at the start of the string (`State::new`) and before a final check
(`State::finalize`):

* a host that does not start with `[` is a reg-name: its characters are reg-name
  characters or percent-encodings, which the machine decodes, and a `:` ends it;
* a host that starts with `[v` is an IPvFuture literal, a version number of hexadecimal
  digits, a `.` and a body, up to `]`;
* any other host that starts with `[` is an IPv6 literal, whose text up to `]` is handed
  to the IPv6 validator;
* after the `]` of a literal only a `:` may come, and everything after a `:` is the port.

The final check rejects a host that ends inside a percent-encoding or a literal,
lower-cases a reg-name (and only a reg-name), and parses the port as a `u16` with
`str::parse`, which, like the port of `Rhymuri.parseU16`, accepts a leading `+`.
-/

namespace Rhymuri

namespace ParseHostPort

/-- The fields all states carry. -/
structure Shared where
  /-- The host read so far, as bytes. -/
  host : List UInt8
  /-- Whether the host is a reg-name. -/
  hostIsRegName : Bool
  /-- The text of an IPv6 literal read so far. -/
  ipv6Address : List Char
  /-- The decoder of the current percent-encoding. -/
  pecDecoder : PercentEncodedCharacterDecoder
  /-- The text of the port read so far. -/
  portString : List Char
  deriving DecidableEq, Repr

/-- The states of the machine. -/
inductive State
  /-- In a reg-name. -/
  | notIpLiteral (state : Shared)
  /-- In a percent-encoding of a reg-name. -/
  | percentEncodedCharacter (state : Shared)
  /-- In an IPv6 literal. -/
  | ipv6Address (state : Shared)
  /-- In the version number of an IPvFuture literal. -/
  | ipvFutureNumber (state : Shared)
  /-- In the body of an IPvFuture literal. -/
  | ipvFutureBody (state : Shared)
  /-- After the `]` of a literal. -/
  | garbageCheck (state : Shared)
  /-- In the port. -/
  | port (state : Shared)
  deriving DecidableEq, Repr

/-- `<[u8]>::make_ascii_lowercase`, on one byte. -/
def asciiLowercase (b : UInt8) : UInt8 := if 65 ≤ b ∧ b ≤ 90 then b + 32 else b

namespace State

/-- The fields of the state. -/
def shared : State → Shared
  | .notIpLiteral s | .percentEncodedCharacter s | .ipv6Address s | .ipvFutureNumber s
  | .ipvFutureBody s | .garbageCheck s | .port s => s

/-- `State::finalize`. -/
def finalize : State → Except Error (List UInt8 × Option UInt16)
  | .percentEncodedCharacter _ | .ipv6Address _ | .ipvFutureNumber _ | .ipvFutureBody _ =>
    -- truncated or ended early
    .error .truncatedHost
  | .notIpLiteral state | .garbageCheck state | .port state =>
    let host := if state.hostIsRegName then state.host.map asciiLowercase else state.host
    if state.portString.isEmpty then .ok (host, none)
    else
      match parseU16 state.portString with
      -- `port` would name the constructor here
      | .ok portNumber => .ok (host, some portNumber)
      | .error error => .error (.illegalPortNumber error)

/-- `State::new`: the machine's first state, from the start of the string, and the rest
of the string. -/
def new (hostPortString : List Char) : State × List Char :=
  let shared : Shared := ⟨[], false, [], PercentEncodedCharacterDecoder.new, []⟩
  match hostPortString with
  | '[' :: 'v' :: rest => (.ipvFutureNumber { shared with host := [118] }, rest)
  | '[' :: rest => (.ipv6Address shared, rest)
  | rest => (.notIpLiteral { shared with hostIsRegName := true }, rest)

/-- `next_not_ip_literal`. -/
def nextNotIpLiteral (state : Shared) (c : Char) : Except Error State :=
  if c = '%' then .ok (.percentEncodedCharacter state)
  else if c = ':' then .ok (.port state)
  else if regNameNotPctEncoded c then
    .ok (.notIpLiteral { state with host := state.host ++ [UInt8.ofNat c.toNat] })
  else .error (.illegalCharacter .host)

/-- `next_percent_encoded_character`: the decoder keeps its state between characters. -/
def nextPercentEncodedCharacter (state : Shared) (c : Char) : Except Error State :=
  match state.pecDecoder.next c with
  | (_, .error e) => .error e
  | (pecDecoder, .ok (some ci)) =>
    .ok (.notIpLiteral { state with pecDecoder, host := state.host ++ [ci] })
  | (pecDecoder, .ok none) => .ok (.percentEncodedCharacter { state with pecDecoder })

/-- `next_ipv6_address`: at `]`, the text read is validated and becomes the host. -/
def nextIpv6Address (state : Shared) (c : Char) : Except Error State :=
  if c = ']' then do
    validateIpv6Address state.ipv6Address
    .ok (.garbageCheck
      { state with host := state.ipv6Address.map fun c => UInt8.ofNat c.toNat })
  else .ok (.ipv6Address { state with ipv6Address := state.ipv6Address ++ [c] })

/-- `next_ipv_future_number`. -/
def nextIpvFutureNumber (state : Shared) (c : Char) : Except Error State :=
  if c = '.' then .ok (.ipvFutureBody { state with host := state.host ++ [46] })
  else if c = ']' then .error .truncatedHost
  else if hexdig c then
    .ok (.ipvFutureNumber { state with host := state.host ++ [UInt8.ofNat c.toNat] })
  else .error (.illegalCharacter .ipvFuture)

/-- `next_ipv_future_body`. -/
def nextIpvFutureBody (state : Shared) (c : Char) : Except Error State :=
  if c = ']' then .ok (.garbageCheck state)
  else if ipvFutureLastPart c then
    .ok (.ipvFutureBody { state with host := state.host ++ [UInt8.ofNat c.toNat] })
  else .error (.illegalCharacter .ipvFuture)

/-- `next_garbage_check`: after a literal, only the port delimiter. -/
def nextGarbageCheck (state : Shared) (c : Char) : Except Error State :=
  if c = ':' then .ok (.port state) else .error (.illegalCharacter .host)

/-- `next_port`. -/
def nextPort (state : Shared) (c : Char) : State :=
  .port { state with portString := state.portString ++ [c] }

/-- `State::next`. -/
def next : State → Char → Except Error State
  | .notIpLiteral state, c => nextNotIpLiteral state c
  | .percentEncodedCharacter state, c => nextPercentEncodedCharacter state c
  | .ipv6Address state, c => nextIpv6Address state c
  | .ipvFutureNumber state, c => nextIpvFutureNumber state c
  | .ipvFutureBody state, c => nextIpvFutureBody state c
  | .garbageCheck state, c => nextGarbageCheck state c
  | .port state, c => .ok (nextPort state c)

end State

end ParseHostPort

open ParseHostPort

/-- `parse_host_port`. -/
def parseHostPort (hostPortString : List Char) : Except Error (List UInt8 × Option UInt16) :=
  let (machine, hostPortString) := State.new hostPortString
  (hostPortString.foldlM State.next machine).bind State.finalize

example : parseHostPort ['E', 'x', ':', '8', '0'] = .ok ([101, 120], some 80) := by
  decide

example : parseHostPort ['[', 'A', ':', ':', ']'] = .ok ([65, 58, 58], none) := by
  decide

end Rhymuri
