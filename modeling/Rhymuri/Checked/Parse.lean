import Rhymuri.Checked.ParseHostPort
import Rhymuri.Uri.Parse

/-!
# `Uri::parse` never panics

`Uri::parse` of `src/uri.rs` cuts its string with byte slices at offsets that `str::find`
returns: at the first `/` and the first `:` (`parse_scheme`), at the first `?` or `#`
(`parse`), at the first `/` after `//` (`split_authority_from_path_and_parse_them`), at the
first `#` (`parse_fragment`), and one byte past the start (`parse_query`). Each offset is
that of a character index, or that index plus one after a delimiter of one byte, so each
slice is at a character boundary. The only slice whose offset is not found by a search is the
one of `parse_query`, past a first character that is always the `?` the query starts with
(`Rhymuri.Uri.head?_possibleQuery`).

Put together with the decoder, the host machine and `Authority::parse`
(`Rhymuri.Checked.Codec`, `Rhymuri.Checked.ParseHostPort`), no input makes `Uri::parse`
panic, and on every input it returns what the model of the crate returns
(`Rhymuri.Checked.parse_never_panics`).
-/

namespace Rhymuri

namespace Checked

namespace Uri

/-- `Uri::parse_scheme`, with its slices at the `/` and the `:` that `str::find` found. -/
def parseScheme (uriString : List Char) :
    ExceptT Error Option (Option (List Char) × List Char) := do
  let authorityOrPathDelimiterStart := (findByte uriString (· = '/')).getD (byteLength uriString)
  match findByte (← sliceBytes uriString 0 authorityOrPathDelimiterStart) (· = ':') with
  | some schemeEnd => do
    let scheme ← Rhymuri.Uri.checkScheme (← sliceBytes uriString 0 schemeEnd)
    let rest ← sliceFrom uriString (schemeEnd + 1)
    pure (some (scheme.map Char.toLower), rest)
  | none => pure (none, uriString)

/-- `Uri::parse_path`, with the panics of the decoder. -/
def parsePath (pathString : List Char) : ExceptT Error Option (List (List UInt8)) :=
  match pathString with
  | ['/'] => pure [[]]
  | [] => pure []
  | pathString =>
    (pathString.splitOn '/').mapM fun segment =>
      Checked.decodeElement segment pcharNotPctEncoded .path

/-- `Uri::decode_query_or_fragment`, with the panics of the decoder. -/
def decodeQueryOrFragment (queryOrFragment : List Char) (context : Context) :
    ExceptT Error Option (List UInt8) :=
  Checked.decodeElement queryOrFragment queryOrFragmentNotPctEncoded context

/-- `Uri::parse_fragment`, with its slices around the `#` that `str::find` found. -/
def parseFragment (queryAndOrFragment : List Char) :
    ExceptT Error Option (Option (List UInt8) × List Char) :=
  match findByte queryAndOrFragment (· = '#') with
  | some fragmentDelimiter => do
    let fragment ← decodeQueryOrFragment
      (← sliceFrom queryAndOrFragment (fragmentDelimiter + 1)) .fragment
    let possibleQuery ← sliceBytes queryAndOrFragment 0 fragmentDelimiter
    pure (some fragment, possibleQuery)
  | none => pure (none, queryAndOrFragment)

/-- `Uri::parse_query`, with its slice `&query_and_or_fragment[1..]`. -/
def parseQuery (queryAndOrFragment : List Char) : ExceptT Error Option (Option (List UInt8)) :=
  if queryAndOrFragment.isEmpty then pure none
  else do
    let query ← decodeQueryOrFragment (← sliceFrom queryAndOrFragment 1) .query
    pure (some query)

/-- `Uri::split_authority_from_path_and_parse_them`, with its slices at the `/` that
`str::find` found; `strip_prefix("//")` cannot panic. -/
def splitAuthorityFromPathAndParseThem (authorityAndPathString : List Char) :
    ExceptT Error Option (Option Authority × List (List UInt8)) :=
  match authorityAndPathString with
  | '/' :: '/' :: authorityAndPathString => do
    let authorityEnd := (findByte authorityAndPathString (· = '/')).getD
      (byteLength authorityAndPathString)
    let authorityString ← sliceBytes authorityAndPathString 0 authorityEnd
    let pathString ← sliceFrom authorityAndPathString authorityEnd
    let authority ← Checked.Authority.parse authorityString
    let path ← if pathString.isEmpty then pure [[]] else parsePath pathString
    pure (some authority, path)
  | authorityAndPathString => do
    let path ← parsePath authorityAndPathString
    pure (none, path)

/-- `Uri::parse`, with its slices at the first `?` or `#` and the panics of its helpers. -/
def parse (uriString : List Char) : ExceptT Error Option Rhymuri.Uri := do
  let (scheme, rest) ← parseScheme uriString
  let pathEnd := (findByte rest fun c => c = '?' ∨ c = '#').getD (byteLength rest)
  let authorityAndPathString ← sliceBytes rest 0 pathEnd
  let queryAndOrFragment ← sliceFrom rest pathEnd
  let (authority, path) ← splitAuthorityFromPathAndParseThem authorityAndPathString
  let (fragment, possibleQuery) ← parseFragment queryAndOrFragment
  let query ← parseQuery possibleQuery
  pure ⟨scheme, authority, path, query, fragment⟩

/-! ### Each helper -/

/-- Cutting at the first match of `p`, or at the end: both slices are at boundaries. -/
theorem slices_findByte_getD (s : List Char) (p : Char → Bool) :
    sliceBytes s 0 ((findByte s p).getD (byteLength s)) =
        some (s.take ((s.findIdx? p).getD s.length)) ∧
      sliceFrom s ((findByte s p).getD (byteLength s)) =
        some (s.drop ((s.findIdx? p).getD s.length)) := by
  rw [findByte_getD]
  exact ⟨sliceBytes_zero_byteOffset (List.getD_findIdx?_le s), sliceFrom_byteOffset s _⟩

theorem run_parseScheme (uriString : List Char) :
    (parseScheme uriString).run = some (Rhymuri.Uri.parseScheme uriString) := by
  unfold parseScheme Rhymuri.Uri.parseScheme
  dsimp only
  rw [run_liftM_bind (slices_findByte_getD uriString _).1, findByte_take]
  cases h : (uriString.take ((uriString.findIdx? (· = '/')).getD uriString.length)).findIdx?
      (· = ':') with
  | none => rfl
  | some j =>
    -- the `:` found before the first `/` is the first `:` of the whole string, one byte long
    obtain ⟨hbefore, hafter⟩ :=
      slices_findIdx?_of_ascii (findIdx?_eq_some_of_take h) fun c => eq_delimiter_ascii (by decide)
    simp only [Option.map_some]
    rw [run_liftM_bind hbefore]
    refine run_bind_eq_some (run_liftM_except _) fun scheme _ => ?_
    rw [run_liftM_bind hafter]
    rfl

theorem run_parsePath (pathString : List Char) :
    (parsePath pathString).run = some (Rhymuri.Uri.parsePath pathString) := by
  -- the two definitions make the same case split: `/`, the empty path, and segments
  by_cases h1 : pathString = ['/']
  · rw [h1]
    rfl
  by_cases h2 : pathString = []
  · rw [h2]
    rfl
  rw [parsePath.eq_3 _ h1 h2, Rhymuri.Uri.parsePath.eq_3 _ h1 h2]
  exact run_mapM_eq_some fun segment _ => run_decodeElement _ _ segment

theorem run_parseFragment (queryAndOrFragment : List Char) :
    (parseFragment queryAndOrFragment).run =
      some (Rhymuri.Uri.parseFragment queryAndOrFragment) := by
  unfold parseFragment Rhymuri.Uri.parseFragment
  rw [findByte]
  cases h : queryAndOrFragment.findIdx? (· = '#') with
  | none => rfl
  | some j =>
    obtain ⟨hbefore, hafter⟩ := slices_findIdx?_of_ascii h fun c => eq_delimiter_ascii (by decide)
    simp only [Option.map_some]
    rw [run_liftM_bind hafter]
    refine run_bind_eq_some (run_decodeElement _ _ _) fun fragment _ => ?_
    rw [run_liftM_bind hbefore]
    rfl

/-- The slice of `parse_query` does not panic when the text starts with an ASCII character. -/
theorem run_parseQuery {queryAndOrFragment : List Char}
    (h : ∀ c ∈ queryAndOrFragment.head?, c.toNat < 128) :
    (parseQuery queryAndOrFragment).run = some (Rhymuri.Uri.parseQuery queryAndOrFragment) := by
  unfold parseQuery Rhymuri.Uri.parseQuery
  cases queryAndOrFragment with
  | nil => rfl
  | cons c rest =>
    have hslice : sliceFrom (c :: rest) 1 = some rest :=
      sliceFrom_append_of_ascii (p := [c]) rest (by simpa using h c rfl)
    simp only [List.isEmpty_cons, Bool.false_eq_true, if_false]
    rw [run_liftM_bind hslice]
    exact run_bind_eq_some (run_decodeElement _ _ _) fun query _ => rfl

theorem run_splitAuthorityFromPathAndParseThem (authorityAndPathString : List Char) :
    (splitAuthorityFromPathAndParseThem authorityAndPathString).run =
      some (Rhymuri.Uri.splitAuthorityFromPathAndParseThem authorityAndPathString) := by
  by_cases h : ∃ rest, authorityAndPathString = '/' :: '/' :: rest
  · obtain ⟨rest, rfl⟩ := h
    rw [splitAuthorityFromPathAndParseThem.eq_1,
      Rhymuri.Uri.splitAuthorityFromPathAndParseThem.eq_1]
    obtain ⟨hbefore, hafter⟩ := slices_findByte_getD rest (· = '/')
    rw [run_liftM_bind hbefore, run_liftM_bind hafter]
    refine run_bind_eq_some (Checked.Authority.run_parse _) fun authority _ => ?_
    -- an empty path after an authority is read as `/`
    split
    · rfl
    · exact run_bind_eq_some (run_parsePath _) fun path _ => rfl
  · have hnot : ∀ rest, authorityAndPathString = '/' :: '/' :: rest → False :=
      fun rest hrest => h ⟨rest, hrest⟩
    rw [splitAuthorityFromPathAndParseThem.eq_2 _ hnot,
      Rhymuri.Uri.splitAuthorityFromPathAndParseThem.eq_2 _ hnot]
    exact run_bind_eq_some (run_parsePath _) fun path _ => rfl

/-! ### The whole parse -/

/-- What `parse_fragment` leaves for the query is a prefix of its text. -/
theorem possibleQuery_prefix {queryAndOrFragment possibleQuery : List Char}
    {fragment : Option (List UInt8)}
    (h : Rhymuri.Uri.parseFragment queryAndOrFragment = .ok (fragment, possibleQuery)) :
    possibleQuery <+: queryAndOrFragment := by
  unfold Rhymuri.Uri.parseFragment at h
  split at h
  · obtain ⟨_, -, h⟩ := Except.bind_eq_ok.mp h
    cases h
    exact List.take_prefix _ _
  · cases h
    exact List.prefix_refl _

/-- **The text of the query starts with the `?` that starts it**: `parse` cuts at the first
`?` or `#`, and `parse_fragment` leaves a prefix of what follows. -/
theorem head?_possibleQuery {rest possibleQuery : List Char} {fragment : Option (List UInt8)}
    (h : Rhymuri.Uri.parseFragment
        (rest.drop ((rest.findIdx? fun c => c = '?' ∨ c = '#').getD rest.length)) =
      .ok (fragment, possibleQuery)) :
    ∀ c ∈ possibleQuery.head?, c.toNat < 128 := by
  intro c hc
  obtain ⟨t, ht⟩ := possibleQuery_prefix h
  have hhead := head?_drop_findIdx? rest fun c => c = '?' ∨ c = '#'
  rw [← ht] at hhead
  cases possibleQuery with
  | nil => simp at hc
  | cons d ds =>
    have hd : d = '?' ∨ d = '#' := by simpa using hhead d rfl
    rw [Option.mem_some_iff.mp hc] at hd
    rcases hd with rfl | rfl <;> decide

theorem run_parse (uriString : List Char) :
    (parse uriString).run = some (Rhymuri.Uri.parse uriString) := by
  unfold parse Rhymuri.Uri.parse
  refine run_bind_eq_some (run_parseScheme uriString) fun p _ => ?_
  obtain ⟨scheme, rest⟩ := p
  obtain ⟨hbefore, hafter⟩ := slices_findByte_getD rest fun c => c = '?' ∨ c = '#'
  dsimp only
  rw [run_liftM_bind hbefore, run_liftM_bind hafter]
  refine run_bind_eq_some (run_splitAuthorityFromPathAndParseThem _) fun q _ => ?_
  refine run_bind_eq_some (run_parseFragment _) fun f hf => ?_
  obtain ⟨fragment, possibleQuery⟩ := f
  exact run_bind_eq_some (run_parseQuery (head?_possibleQuery hf)) fun query _ => rfl

end Uri

/-- **`Uri::parse` and `Authority::parse` never panic**: on every input, every `unwrap` of
the host machine and of the decoder is applied to a success, every slice is at a character
boundary, neither counter of the decoder overflows or goes below zero, and what each returns
is the `Result` the model of the crate computes. -/
theorem parse_never_panics :
    (∀ uriString, (Uri.parse uriString).run = some (Rhymuri.Uri.parse uriString)) ∧
      ∀ authorityString,
        (Authority.parse authorityString).run = some (Rhymuri.Authority.parse authorityString) :=
  ⟨Uri.run_parse, Authority.run_parse⟩

end Checked

end Rhymuri
