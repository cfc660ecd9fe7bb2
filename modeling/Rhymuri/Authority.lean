import Rhymuri.Uri.Basic
import Rhymuri.ParseHostPort
import Rhymuri.Codec

/-!
# Parsing and printing an authority

`Authority::parse` of `src/authority.rs` cuts the userinfo off at the first `@` and
decodes it, then hands the rest to the host and port machine (`Rhymuri.parseHostPort`).
`Display for Authority` writes the userinfo back, encoded, and an `@`; the host, in
brackets and lower-cased if its bytes are a UTF-8 string that the IPv6 validator accepts,
and otherwise encoded as a reg-name; and the port in decimal after a `:`.

A Rust string slice `&s[..i]` at a position `i` found by `str::find` is `List.take i`, and
`&s[i + 1..]` is `List.drop (i + 1)`; positions count characters, which designate the same
places as the byte offsets of the source.
-/

namespace Rhymuri

namespace Authority

/-- `Authority::parse_userinfo`: the userinfo, decoded, up to the first `@`, and the rest. -/
def parseUserinfo (authority : List Char) : Except Error (Option (List UInt8) × List Char) :=
  match authority.findIdx? (· = '@') with
  | some delimiter => do
    let userinfo ← decodeElement (authority.take delimiter) userInfoNotPctEncoded .userinfo
    pure (some userinfo, authority.drop (delimiter + 1))
  | none => pure (none, authority)

/-- `Authority::parse`. -/
def parse (authorityString : List Char) : Except Error Authority := do
  let (userinfo, hostPortString) ← parseUserinfo authorityString
  let (host, port) ← parseHostPort hostPortString
  pure ⟨userinfo, host, port⟩

/-- `String::from_utf8` of the host's bytes. -/
def hostToString (host : List UInt8) : Option (List Char) :=
  (String.fromUTF8? ⟨host.toArray⟩).map String.toList

/-- The part of `Display for Authority` that writes the userinfo: encoded, then `@`. -/
def fmtUserinfo : Option (List UInt8) → List Char
  | some userinfo => encodeElement userinfo userInfoNotPctEncoded ++ ['@']
  | none => []

/-- The part of `Display for Authority` that writes the host: in brackets and lower-cased
if its bytes are a UTF-8 string that the IPv6 validator accepts, otherwise encoded as a
reg-name. -/
def fmtHost (host : List UInt8) : List Char :=
  match hostToString host with
  | some hostToString =>
    if validateIpv6Address hostToString = .ok () then
      '[' :: hostToString.map Char.toLower ++ [']']
    else encodeElement host regNameNotPctEncoded
  | none => encodeElement host regNameNotPctEncoded

/-- The part of `Display for Authority` that writes the port: `:`, then the port in
decimal. -/
def fmtPort : Option UInt16 → List Char
  | some port => ':' :: Nat.toDigits 10 port.toNat
  | none => []

/-- `Display for Authority`. -/
def toString (self : Authority) : List Char :=
  fmtUserinfo self.userinfo ++ fmtHost self.host ++ fmtPort self.port

example : parse ['u', '@', '[', 'A', ':', ':', ']', ':', '8'] =
    .ok ⟨some [117], [65, 58, 58], some 8⟩ := by
  decide

end Authority

end Rhymuri
