import Rhymuri.Cpp.PercentEncodedCharacterDecoder
import Rhymuri.Cpp.ValidateIpv6Address
import Rhymuri.Lib.Stoi

/-!
# The C++ parser, `Uri::ParseFromString`

`src/Uri.cpp` keeps the components of a URI in the fields of `Uri::Impl`
(`Rhymuri.Cpp.Impl`): strings for the scheme, the userinfo, the host, the query and the
fragment, flags for whether a port, a query and a fragment are present, the port, and the path
as a vector of segments. `ParseFromString` fills the fields one helper at a time, each a
method that writes some of the fields and returns `false` to fail:

| helper | writes |
|---|---|
| `ParseScheme` | `scheme` |
| `SplitAuthorityFromPathAndParseIt`, `ParseAuthority` | `userInfo`, `host`, `hasPort`, and `port` when there is one |
| `ParsePath` | `path` |
| `SetDefaultPathIfAuthorityPresentAndPathEmpty` | `path`, from `host` and `path` |
| `ParseFragment` | `hasFragment`, `fragment` |
| `ParseQuery` | `hasQuery`, `query` |

Each helper is a function of the fields it starts from, returning the fields it leaves, or
`none` for `false`; the fields a helper leaves after a failure are never read again.

`ParseAuthority` runs its own host machine, a `switch` over nine states in which two cases fall
through into the next one (`FIRST_CHARACTER` into `NOT_IP_LITERAL`, `IP_LITERAL` into
`IPV6_ADDRESS`), and converts the port with `std::stoi` (`Rhymuri.stoi`).
-/

namespace Rhymuri

namespace Cpp

/-- `Uri::Impl`. -/
structure Impl where
  /-- `scheme`. -/
  scheme : List Char
  /-- `userInfo`. -/
  userInfo : List Char
  /-- `host`. -/
  host : List Char
  /-- `hasPort`. -/
  hasPort : Bool
  /-- `port`. -/
  port : UInt16
  /-- `path`, segment by segment. -/
  path : List (List Char)
  /-- `hasQuery`. -/
  hasQuery : Bool
  /-- `query`. -/
  query : List Char
  /-- `hasFragment`. -/
  hasFragment : Bool
  /-- `fragment`. -/
  fragment : List Char
  deriving DecidableEq, Repr

namespace Impl

/-- The fields of a `Uri` made by `Uri::Uri()`. -/
def new : Impl := ⟨[], [], [], false, 0, [], false, [], false, []⟩

/-- `Uri::operator==`: the port is compared only when both have one, and so are the query and
the fragment. -/
def isEqual (a b : Impl) : Bool :=
  a.scheme == b.scheme && a.userInfo == b.userInfo && a.host == b.host &&
    ((!a.hasPort && !b.hasPort) || ((a.hasPort && b.hasPort) && a.port == b.port)) &&
    a.path == b.path &&
    ((!a.hasQuery && !b.hasQuery) || ((a.hasQuery && b.hasQuery) && a.query == b.query)) &&
    ((!a.hasFragment && !b.hasFragment) ||
      ((a.hasFragment && b.hasFragment) && a.fragment == b.fragment))

end Impl

/-! ### The scheme -/

/-- `FailsMatch`: the strategy `stillPassing` is a function with a state of its own (a closure
over a shared flag in the source), called on each character and then once with `end` set. -/
def failsMatch {σ : Type} (candidate : List Char) (stillPassing : σ → Char → Bool → Bool × σ)
    (state : σ) : Bool :=
  match candidate with
  | [] => !(stillPassing state ' ' true).1
  | c :: cs =>
    let (passing, state) := stillPassing state c false
    if !passing then true else failsMatch cs stillPassing state

/-- The strategy of `LegalSchemeCheckStrategy`, over its flag `isFirstCharacter`: the first
character is a letter, the others scheme characters, and there is a first character. -/
def legalSchemeCheckStrategy (isFirstCharacter : Bool) (c : Char) (atEnd : Bool) :
    Bool × Bool :=
  if atEnd then (!isFirstCharacter, isFirstCharacter)
  else ((if isFirstCharacter then alpha c else schemeNotFirst c), false)

/-- `ParseScheme`: the scheme ends at the first `:` before the first `/`. -/
def Impl.parseScheme (impl : Impl) (uriString : List Char) : Option (Impl × List Char) :=
  let authorityOrPathDelimiterStart := (uriString.findIdx? (· = '/')).getD uriString.length
  match (uriString.take authorityOrPathDelimiterStart).findIdx? (· = ':') with
  | none => some ({ impl with scheme := [] }, uriString)
  | some schemeEnd =>
    let scheme := uriString.take schemeEnd
    if failsMatch scheme legalSchemeCheckStrategy true then none
    else some ({ impl with scheme := scheme.map Char.toLower }, uriString.drop (schemeEnd + 1))

/-! ### The path -/

/-- The `for (;;)` loop of `ParsePath`: cut the path string at each `/` in turn. -/
def splitPath (pathString : List Char) : List (List Char) :=
  match h : pathString.findIdx? (· = '/') with
  | none => [pathString]
  | some pathDelimiter =>
    pathString.take pathDelimiter :: splitPath (pathString.drop (pathDelimiter + 1))
termination_by pathString.length
decreasing_by
  have := (List.findIdx?_eq_some_iff_getElem.mp h).1
  simp only [List.length_drop]
  omega

/-- `ParsePath`: `/` is the one empty segment, the empty string no segment, and any other
path string its segments, each decoded. -/
def Impl.parsePath (impl : Impl) (pathString : List Char) : Option Impl :=
  let path :=
    if pathString = ['/'] then [[]]
    else if pathString ≠ [] then splitPath pathString
    else []
  (path.mapM (decodeElement · pcharNotPctEncoded)).map fun path => { impl with path }

/-! ### The authority -/

/-- `HostParsingState`. -/
inductive HostParsingState
  /-- `FIRST_CHARACTER`. -/
  | firstCharacter
  /-- `NOT_IP_LITERAL`. -/
  | notIpLiteral
  /-- `PERCENT_ENCODED_CHARACTER`. -/
  | percentEncodedCharacter
  /-- `IP_LITERAL`. -/
  | ipLiteral
  /-- `IPV6_ADDRESS`. -/
  | ipv6Address
  /-- `IPV_FUTURE_NUMBER`. -/
  | ipvFutureNumber
  /-- `IPV_FUTURE_BODY`. -/
  | ipvFutureBody
  /-- `GARBAGE_CHECK`. -/
  | garbageCheck
  /-- `PORT`. -/
  | port
  deriving DecidableEq, Repr

/-- The variables of the host loop of `ParseAuthority`; `host` is the field of `Impl`, which
the loop builds from empty. -/
structure HostLocals where
  /-- `hostParsingState`. -/
  hostParsingState : HostParsingState
  /-- `host`. -/
  host : List Char
  /-- `pecDecoder`. -/
  pecDecoder : PercentEncodedCharacterDecoder
  /-- `hostIsRegName`. -/
  hostIsRegName : Bool
  /-- `portString`. -/
  portString : List Char
  deriving DecidableEq, Repr

namespace HostLocals

/-- The variables before the loop. -/
def init : HostLocals := ⟨.firstCharacter, [], PercentEncodedCharacterDecoder.new, false, []⟩

/-- The case `NOT_IP_LITERAL`. -/
def notIpLiteral (l : HostLocals) (c : Char) : Option HostLocals :=
  if c = '%' then
    some { l with
      pecDecoder := PercentEncodedCharacterDecoder.new,
      hostParsingState := .percentEncodedCharacter }
  else if c = ':' then some { l with hostParsingState := .port }
  else if regNameNotPctEncoded c then some { l with host := l.host ++ [c] }
  else none

/-- The case `IPV6_ADDRESS`: the closing bracket validates what was collected. -/
def ipv6Address (l : HostLocals) (c : Char) : Option HostLocals :=
  if c = ']' then
    if !validateIpv6Address l.host then none
    else some { l with hostParsingState := .garbageCheck }
  else some { l with host := l.host ++ [c] }

/-- The body of the host loop, on one character; `none` is `return false`. -/
def next (l : HostLocals) (c : Char) : Option HostLocals :=
  match l.hostParsingState with
  | .firstCharacter =>
    if c = '[' then some { l with hostParsingState := .ipLiteral }
    else
      -- falls through into `NOT_IP_LITERAL` with the same character
      notIpLiteral { l with hostParsingState := .notIpLiteral, hostIsRegName := true } c
  | .notIpLiteral => notIpLiteral l c
  | .percentEncodedCharacter =>
    match l.pecDecoder.nextEncodedCharacter c with
    | none => none
    | some pecDecoder =>
      if pecDecoder.done then
        some { l with
          pecDecoder, hostParsingState := .notIpLiteral,
          host := l.host ++ [pecDecoder.getDecodedCharacter] }
      else some { l with pecDecoder }
  | .ipLiteral =>
    if c = 'v' then some { l with host := l.host ++ [c], hostParsingState := .ipvFutureNumber }
    else
      -- falls through into `IPV6_ADDRESS` with the same character
      ipv6Address { l with hostParsingState := .ipv6Address } c
  | .ipv6Address => ipv6Address l c
  | .ipvFutureNumber =>
    if c = '.' then
      some { l with hostParsingState := .ipvFutureBody, host := l.host ++ [c] }
    else if !hexdig c then none
    else some { l with host := l.host ++ [c] }
  | .ipvFutureBody =>
    if c = ']' then some { l with hostParsingState := .garbageCheck }
    else if !ipvFutureLastPart c then none
    else some { l with host := l.host ++ [c] }
  | .garbageCheck => if c = ':' then some { l with hostParsingState := .port } else none
  | .port => some { l with portString := l.portString ++ [c] }

/-- The states in which the host may end: anything else is truncated or ended early. -/
def mayEnd (hostParsingState : HostParsingState) : Bool :=
  match hostParsingState with
  | .firstCharacter | .notIpLiteral | .garbageCheck | .port => true
  | _ => false

end HostLocals

/-- The port conversion at the end of `ParseAuthority`: no port string is no port, and a port
string must give `std::stoi` a value from 0 to 65535. -/
def portOfPortString (portString : List Char) : Option (Option UInt16) :=
  if portString.isEmpty then some none
  else
    match stoi portString with
    | none => none
    | some portAsInt =>
      if portAsInt < 0 ∨ 65535 < portAsInt then none
      else some (some (UInt16.ofNat portAsInt.toNat))

/-- The userinfo part of `ParseAuthority`: the text before the first `@`, decoded, and the
host and port after it. -/
def splitUserInfo (authorityString : List Char) : Option (List Char × List Char) :=
  match authorityString.findIdx? (· = '@') with
  | none => some ([], authorityString)
  | some userInfoDelimiter =>
    (decodeElement (authorityString.take userInfoDelimiter) userInfoNotPctEncoded).map
      fun userInfo => (userInfo, authorityString.drop (userInfoDelimiter + 1))

/-- The checks after the host loop of `ParseAuthority`: the state the host ended in, the host
lower-cased if it is a reg-name, and the port. -/
def HostLocals.finish (l : HostLocals) : Option (List Char × Option UInt16) :=
  if !HostLocals.mayEnd l.hostParsingState then none
  else
    let host := if l.hostIsRegName then l.host.map Char.toLower else l.host
    (portOfPortString l.portString).map fun port => (host, port)

/-- `ParseAuthority`: the userinfo, then the host machine over the rest, then the port. -/
def Impl.parseAuthority (impl : Impl) (authorityString : List Char) : Option Impl := do
  let (userInfo, hostPortString) ← splitUserInfo authorityString
  let l ← hostPortString.foldlM HostLocals.next HostLocals.init
  let (host, port) ← l.finish
  match port with
  | none => some { impl with userInfo, host, hasPort := false }
  | some port => some { impl with userInfo, host, port, hasPort := true }

/-- `SplitAuthorityFromPathAndParseIt`: a leading `//` starts an authority, which runs to the
next `/`; without one, there is no userinfo, no host and no port. -/
def Impl.splitAuthorityFromPathAndParseIt (impl : Impl) (authorityAndPathString : List Char) :
    Option (Impl × List Char) :=
  if authorityAndPathString.take 2 = ['/', '/'] then
    let authorityAndPathString := authorityAndPathString.drop 2
    let authorityEnd :=
      (authorityAndPathString.findIdx? (· = '/')).getD authorityAndPathString.length
    let pathString := authorityAndPathString.drop authorityEnd
    let authorityString := authorityAndPathString.take authorityEnd
    (impl.parseAuthority authorityString).map fun impl => (impl, pathString)
  else some ({ impl with userInfo := [], host := [], hasPort := false }, authorityAndPathString)

/-- `SetDefaultPathIfAuthorityPresentAndPathEmpty`: a nonempty host and an empty path give
the path `/`. -/
def Impl.setDefaultPathIfAuthorityPresentAndPathEmpty (impl : Impl) : Impl :=
  if impl.host ≠ [] ∧ impl.path = [] then { impl with path := [[]] } else impl

/-! ### The query and the fragment -/

/-- `ParseFragment`: the fragment follows the first `#`; the rest is what comes before. -/
def Impl.parseFragment (impl : Impl) (queryAndOrFragment : List Char) :
    Option (Impl × List Char) :=
  let (hasFragment, fragment, rest) : Bool × List Char × List Char :=
    match queryAndOrFragment.findIdx? (· = '#') with
    | none => (false, [], queryAndOrFragment)
    | some fragmentDelimiter =>
      (true, queryAndOrFragment.drop (fragmentDelimiter + 1),
        queryAndOrFragment.take fragmentDelimiter)
  (decodeQueryOrFragment fragment).map fun fragment => ({ impl with hasFragment, fragment }, rest)

/-- `ParseQuery`: a nonempty rest is `?` and the query. -/
def Impl.parseQuery (impl : Impl) (queryWithDelimiter : List Char) : Option Impl :=
  let hasQuery := !queryWithDelimiter.isEmpty
  let query := if hasQuery then queryWithDelimiter.drop 1 else []
  (decodeQueryOrFragment query).map fun query => { impl with hasQuery, query }

/-! ### The whole reference -/

/-- **`Uri::ParseFromString`**, from the fields the object holds before: the fields after it
returns `true`, or `none` when it returns `false`. -/
def Impl.parseFromString (impl : Impl) (uriString : List Char) : Option Impl := do
  let (impl, rest) ← impl.parseScheme uriString
  let pathEnd := rest.findIdx? fun c => c = '?' ∨ c = '#'
  let authorityAndPathString := rest.take (pathEnd.getD rest.length)
  let queryAndOrFragment := rest.drop authorityAndPathString.length
  let (impl, pathString) ← impl.splitAuthorityFromPathAndParseIt authorityAndPathString
  let impl ← impl.parsePath pathString
  let impl := impl.setDefaultPathIfAuthorityPresentAndPathEmpty
  let (impl, rest) ← impl.parseFragment queryAndOrFragment
  impl.parseQuery rest

example : (Impl.new.parseFromString ['h', 't', ':', '/', '/', 'E', 'x', ':', '8', '?', 'q']) =
    some ⟨['h', 't'], [], ['e', 'x'], true, 8, [[]], true, ['q'], false, []⟩ := by
  decide

end Cpp

end Rhymuri
