import Mathlib.Data.List.Basic

/-!
# URIs and their authorities

The data of `src/authority.rs` and `src/uri.rs`. An authority is an optional userinfo, a
host and an optional port; a URI is an optional scheme, an optional authority, a path of
segments, and an optional query and fragment. The userinfo, host, path segments, query
and fragment are bytes, decoded from their percent-encoded form by the parser; the scheme
is a string of characters.

A query or a fragment that is present but empty (`?` or `#` with nothing after) is
`some []`, distinct from an absent one, `none`.
-/

namespace Rhymuri

/-- `Authority`. -/
structure Authority where
  /-- The userinfo, before the `@`. -/
  userinfo : Option (List UInt8)
  /-- The host. -/
  host : List UInt8
  /-- The port. -/
  port : Option UInt16
  deriving DecidableEq, Repr

/-- `Uri`. -/
structure Uri where
  /-- The scheme. -/
  scheme : Option (List Char)
  /-- The authority. -/
  authority : Option Authority
  /-- The path, segment by segment. -/
  path : List (List UInt8)
  /-- The query. -/
  query : Option (List UInt8)
  /-- The fragment. -/
  fragment : Option (List UInt8)
  deriving DecidableEq, Repr

end Rhymuri
