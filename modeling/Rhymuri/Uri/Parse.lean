import Rhymuri.Authority
import Rhymuri.Uri.Path
import Rhymuri.Rfc.Grammar

/-!
# Parsing a URI

`Uri::parse` of `src/uri.rs` takes a string apart in a fixed order:

1. the scheme, up to the first `:` that stands before the first `/` (`parse_scheme`),
   checked and lower-cased;
2. the rest is cut at the first `?` or `#`: before it the authority and the path, after
   it the query and the fragment;
3. an authority, when the rest starts with `//`, up to the next `/`, parsed by
   `Authority::parse` (`Rhymuri.Authority.parse`); then the path, split at `/` and each
   segment decoded (`parse_path`), with `/` read as `[""]` and the empty path as `[]`, or
   as `[""]` after an authority;
4. the fragment, after the first `#`, and the query, after the `?` that starts what is
   left (`parse_fragment`, `parse_query`), both decoded.

`str::find` is `List.findIdx?` and a slice is `List.take` or `List.drop`; `str::split` is
`List.splitOn`, which also gives one empty piece for each separator at an end.
`str::to_lowercase` is `Char.toLower` on each character: it runs after `check_scheme`,
which lets only ASCII characters through, and the two agree there.
-/

namespace Rhymuri

namespace Uri

/-- The closure `Uri::check_scheme` gives to `try_fold`, on the character `c` at position
`i`: the first character is a letter, the others letters, digits, `+`, `-` or `.`. -/
def checkSchemeCharacter (_ : Unit) (ci : Char × ℕ) : Except Error Unit :=
  let validCharacters := if ci.2 = 0 then alpha else schemeNotFirst
  if validCharacters ci.1 then .ok () else .error (.illegalCharacter .scheme)

/-- `Uri::check_scheme`. -/
def checkScheme (scheme : List Char) : Except Error (List Char) :=
  match scheme with
  | [] => .error .emptyScheme
  | _ => do
    scheme.zipIdx.foldlM checkSchemeCharacter ()
    pure scheme

/-- `Uri::parse_scheme`: the scheme, if a `:` stands before the first `/`, and the rest. -/
def parseScheme (uriString : List Char) : Except Error (Option (List Char) × List Char) :=
  -- the search stops at the authority or the path, which may hold a `:` of their own
  let authorityOrPathDelimiterStart := (uriString.findIdx? (· = '/')).getD uriString.length
  match (uriString.take authorityOrPathDelimiterStart).findIdx? (· = ':') with
  | some schemeEnd => do
    let scheme ← checkScheme (uriString.take schemeEnd)
    pure (some (scheme.map Char.toLower), uriString.drop (schemeEnd + 1))
  | none => pure (none, uriString)

/-- `Uri::parse_path`. -/
def parsePath (pathString : List Char) : Except Error (List (List UInt8)) :=
  match pathString with
  -- an empty absolute path: one empty segment
  | ['/'] => .ok [[]]
  -- an empty relative path: no segment
  | [] => .ok []
  | pathString =>
    (pathString.splitOn '/').mapM fun segment =>
      decodeElement segment pcharNotPctEncoded .path

/-- `Uri::decode_query_or_fragment`. -/
def decodeQueryOrFragment (queryOrFragment : List Char) (context : Context) :
    Except Error (List UInt8) :=
  decodeElement queryOrFragment queryOrFragmentNotPctEncoded context

/-- `Uri::parse_fragment`: the fragment, decoded, after the first `#`, and what stands
before it. -/
def parseFragment (queryAndOrFragment : List Char) :
    Except Error (Option (List UInt8) × List Char) :=
  match queryAndOrFragment.findIdx? (· = '#') with
  | some fragmentDelimiter => do
    let fragment ←
      decodeQueryOrFragment (queryAndOrFragment.drop (fragmentDelimiter + 1)) .fragment
    pure (some fragment, queryAndOrFragment.take fragmentDelimiter)
  | none => pure (none, queryAndOrFragment)

/-- `Uri::parse_query`: what is left after the fragment is cut off is empty, or a `?` and
the query. -/
def parseQuery (queryAndOrFragment : List Char) : Except Error (Option (List UInt8)) :=
  if queryAndOrFragment.isEmpty then .ok none
  else do
    let query ← decodeQueryOrFragment (queryAndOrFragment.drop 1) .query
    pure (some query)

/-- `Uri::split_authority_from_path_and_parse_them`. -/
def splitAuthorityFromPathAndParseThem (authorityAndPathString : List Char) :
    Except Error (Option Authority × List (List UInt8)) :=
  match authorityAndPathString with
  | '/' :: '/' :: authorityAndPathString => do
    let authorityEnd :=
      (authorityAndPathString.findIdx? (· = '/')).getD authorityAndPathString.length
    let authorityString := authorityAndPathString.take authorityEnd
    let pathString := authorityAndPathString.drop authorityEnd
    let authority ← Authority.parse authorityString
    -- an empty path after an authority is read as `/`
    let path ← if pathString.isEmpty then pure [[]] else parsePath pathString
    pure (some authority, path)
  | authorityAndPathString => do
    let path ← parsePath authorityAndPathString
    pure (none, path)

/-- `Uri::parse`. -/
def parse (uriString : List Char) : Except Error Uri := do
  let (scheme, rest) ← parseScheme uriString
  let pathEnd := (rest.findIdx? fun c => c = '?' ∨ c = '#').getD rest.length
  let authorityAndPathString := rest.take pathEnd
  let queryAndOrFragment := rest.drop pathEnd
  let (authority, path) ← splitAuthorityFromPathAndParseThem authorityAndPathString
  let (fragment, possibleQuery) ← parseFragment queryAndOrFragment
  let query ← parseQuery possibleQuery
  pure ⟨scheme, authority, path, query, fragment⟩

example : parse ['H', 't', ':', '/', '/', 'a', '/', 'b', '?', 'q', '#'] =
    .ok ⟨some ['h', 't'], some ⟨none, [97], none⟩, [[], [98]], some [113], some []⟩ := by
  decide

/-! ### Against the grammar -/

/-- **The scheme scan runs into the query**: `?a:b` is a relative reference, the empty path
and the query `a:b`, but `parse_scheme` looks for a `:` up to the first `/`, of which there
is none, so it takes `?a` for a scheme and rejects it. -/
theorem parse_query_colon :
    parse ['?', 'a', ':', 'b'] = .error (.illegalCharacter .scheme) ∧
      ['?', 'a', ':', 'b'] ∈ Rfc.uriReference := by
  refine ⟨by decide, ?_⟩
  -- the query `a:b`: two unreserved letters around a `:`
  have hquery : ['a', ':', 'b'] ∈ Rfc.query := by
    rw [Rfc.query, Language.mem_kstar]
    refine ⟨[['a'], [':'], ['b']], rfl, ?_⟩
    simp only [List.mem_cons, List.not_mem_nil, or_false, forall_eq_or_imp, forall_eq,
      Rfc.pchar, Language.mem_add, Language.mem_ofPred, Rfc.mem_lit]
    exact ⟨Or.inl (Or.inl (Or.inl (Or.inl (Or.inl (Or.inl ⟨'a', by decide, rfl⟩))))),
      Or.inl (Or.inl (Or.inl (Or.inr trivial))),
      Or.inl (Or.inl (Or.inl (Or.inl (Or.inl (Or.inl ⟨'b', by decide, rfl⟩)))))⟩
  -- a relative reference: the empty path, then `?` and the query, and no fragment
  have hpart : ([] : List Char) ∈ Rfc.relativePart := by
    simp [Rfc.relativePart, Rfc.pathEmpty, Language.mem_add]
  rw [Rfc.uriReference, Language.mem_add, Rfc.relativeRef]
  refine Or.inr (Language.mem_mul.mpr ⟨['?', 'a', ':', 'b'], Language.mem_mul.mpr
    ⟨[], hpart, ['?', 'a', ':', 'b'], ?_, rfl⟩, [], ?_, rfl⟩)
  · exact (Language.mem_add _ _ _).mpr
      (Or.inr (Language.mem_mul.mpr ⟨['?'], rfl, _, hquery, rfl⟩))
  · exact (Language.mem_add _ _ _).mpr (Or.inl rfl)

end Uri

end Rhymuri
