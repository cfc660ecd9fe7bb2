import Rhymuri.Authority
import Rhymuri.Uri.Path

/-!
# Printing a URI

`Display for Uri` of `src/uri.rs` writes the components in their order, each with its
delimiter: the scheme and `:`, `//` and the authority (`Display for Authority`,
`Rhymuri.Authority.toString`), the path, `?` and the query, `#` and the fragment. The
path, the query and the fragment are percent-encoded with their own classes: the path
segments as `pchar`s, the query with `+` encoded as well, the fragment with `/` and `?`
left as they are. A path that is absolute but otherwise empty, `[""]`, is written `/`;
any other path is its segments with a `/` between two of them, which the source's loop
writes after each segment but the last.

Nothing here escapes what the parser would read differently: a `:` in the first segment
of a path without a scheme, two empty segments at the start of a path without an
authority, or a path that does not start with `/` after an authority. What does come back
is in `Rhymuri.Uri.RoundTrip`.
-/

namespace Rhymuri

namespace Uri

/-- The part of `Display for Uri` that writes the scheme: the scheme, then `:`. -/
def fmtScheme : Option (List Char) → List Char
  | some scheme => scheme ++ [':']
  | none => []

/-- The part of `Display for Uri` that writes the authority: `//`, then the authority. -/
def fmtAuthority : Option Authority → List Char
  | some authority => '/' :: '/' :: authority.toString
  | none => []

/-- The part of `Display for Uri` that writes the path. -/
def fmtPath (path : List (List UInt8)) : List Char :=
  -- special case: absolute but otherwise empty path
  (if isPathAbsolute path && path.length == 1 then ['/'] else []) ++
    ['/'].intercalate (path.map fun segment => encodeElement segment pcharNotPctEncoded)

/-- The part of `Display for Uri` that writes the query: `?`, then the query, encoded with
`+` escaped. -/
def fmtQuery : Option (List UInt8) → List Char
  | some query => '?' :: encodeElement query queryNotPctEncodedWithoutPlus
  | none => []

/-- The part of `Display for Uri` that writes the fragment: `#`, then the fragment,
encoded. -/
def fmtFragment : Option (List UInt8) → List Char
  | some fragment => '#' :: encodeElement fragment queryOrFragmentNotPctEncoded
  | none => []

/-- `Display for Uri`, the string `to_string` returns. -/
def toString (self : Uri) : List Char :=
  fmtScheme self.scheme ++ fmtAuthority self.authority ++ fmtPath self.path ++
    fmtQuery self.query ++ fmtFragment self.fragment

example : toString ⟨some ['h'], some ⟨none, [97], some 8⟩, [[], [98, 32]], some [43], none⟩ =
    ['h', ':', '/', '/', 'a', ':', '8', '/', 'b', '%', '2', '0', '?', '%', '2', 'B'] := by
  decide

end Uri

end Rhymuri
