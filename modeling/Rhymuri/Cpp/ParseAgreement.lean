import Rhymuri.Cpp.Codec
import Rhymuri.Cpp.ParseFromString
import Rhymuri.Uri.RoundTrip
import Rhymuri.Lib.Cut
import Mathlib.Data.List.TakeWhile

/-!
# The C++ parser against the crate's, off the authority

`Uri::ParseFromString` of `src/Uri.cpp` and `Uri::parse` of `src/uri.rs` cut a reference at
the same places, in the same order: the scheme before the first `:` that comes before the
first `/`, the authority and the path before the first `?` or `#`, the fragment after the
first `#`, and the query. `Rhymuri.Cpp.Refinement` shows where the two part in the
authority: the port text and the path of an empty authority. Everywhere else they agree,
helper by helper, read through `Rhymuri.Cpp.Impl.ofUri`:

| C++ | crate | lemma |
|---|---|---|
| `FailsMatch` with `LegalSchemeCheckStrategy` | `check_scheme` | `Rhymuri.Cpp.failsMatch_legalSchemeCheckStrategy_eq_false_iff` |
| `ParseScheme` | `parse_scheme` | `Rhymuri.Cpp.Impl.parseScheme_eq` |
| the loop of `ParsePath` | `str::split('/')` | `Rhymuri.Cpp.splitPath_eq_splitOn` |
| `ParsePath` | `parse_path` | `Rhymuri.Cpp.Impl.parsePath_eq` |
| `ParseFragment`, `ParseQuery` | `parse_fragment`, `parse_query` | `Rhymuri.Cpp.Impl.parseFragment_eq`, `Rhymuri.Cpp.Impl.parseQuery_eq` |

Each helper fails exactly when the crate's returns an error, and otherwise writes the fields
of the crate's result, because `DecodeElement` is `decode_element` on sets of one-byte
characters (`Rhymuri.Cpp.decodeElement_eq_map_ofBytes`). So **on every reference that has no
authority, a fresh `Uri` parses exactly what the crate parses, into the crate's URI**
(`Rhymuri.Cpp.Impl.parseFromString_eq_ofUri`).
-/

namespace Rhymuri

namespace Cpp

/-! ### The scheme -/

theorem failsMatch_legalSchemeCheckStrategy_false_iff (cs : List Char) :
    failsMatch cs legalSchemeCheckStrategy false = false ↔ ∀ d ∈ cs, schemeNotFirst d = true := by
  induction cs with
  | nil => simp [failsMatch, legalSchemeCheckStrategy]
  | cons c cs ih =>
    cases hc : schemeNotFirst c <;> simp [failsMatch, legalSchemeCheckStrategy, hc, ih]

/-- **`FailsMatch` with `LegalSchemeCheckStrategy` is `check_scheme`**: it passes exactly the
schemes `check_scheme` accepts, a letter and then scheme characters. -/
theorem failsMatch_legalSchemeCheckStrategy_eq_false_iff (scheme : List Char) :
    failsMatch scheme legalSchemeCheckStrategy true = false ↔
      Uri.checkScheme scheme = .ok scheme := by
  rw [Uri.checkScheme_eq_ok_iff]
  cases scheme with
  | nil => simp [failsMatch, legalSchemeCheckStrategy]
  | cons c cs =>
    cases hc : alpha c <;>
      simp [failsMatch, legalSchemeCheckStrategy, hc, failsMatch_legalSchemeCheckStrategy_false_iff]

/-- `ParseScheme` fails when `parse_scheme` does, and otherwise writes its scheme, absent as
empty, and leaves its rest. -/
theorem Impl.parseScheme_eq (impl : Impl) (s : List Char) :
    impl.parseScheme s =
      (Uri.parseScheme s).toOption.map fun p => ({ impl with scheme := p.1.getD [] }, p.2) := by
  unfold Impl.parseScheme Uri.parseScheme
  dsimp only
  rcases (s.take ((s.findIdx? (· = '/')).getD s.length)).findIdx? (· = ':') with _ | schemeEnd
  · rfl
  · simp only
    cases hc : Uri.checkScheme (s.take schemeEnd) with
    | error e =>
      -- a scheme `check_scheme` rejects fails the match
      have hfails : failsMatch (s.take schemeEnd) legalSchemeCheckStrategy true = true := by
        by_contra h
        rw [Bool.not_eq_true, failsMatch_legalSchemeCheckStrategy_eq_false_iff, hc] at h
        cases h
      simp [hfails, Except.toOption, bind, Except.bind]
    | ok x =>
      obtain ⟨rfl, -⟩ := Uri.checkScheme_eq_ok_iff.mp hc
      have hfails := (failsMatch_legalSchemeCheckStrategy_eq_false_iff _).mpr hc
      simp [hfails, Except.toOption, bind, Except.bind, pure, Except.pure]

/-! ### The path -/

/-- The loop of `ParsePath` cuts the path string as `str::split('/')` does. The induction is
the loop's own: a piece up to the first `/`, then the pieces of the rest. -/
theorem splitPath_eq_splitOn (p : List Char) : splitPath p = p.splitOn '/' := by
  fun_induction splitPath p with
  | case1 p h =>
    rw [List.splitOn_eq_splitOnP, List.splitOnP_eq_singleton]
    intro x hx
    simpa using List.findIdx?_eq_none_iff.mp h x hx
  | case2 p k h ih =>
    obtain ⟨a, ha, hp⟩ := List.eq_take_append_cons_drop_of_findIdx? h
    have htake : p.take k = p.takeWhile fun x => !decide (x = '/') := by
      simpa [h] using List.take_getD_findIdx? (p := fun x => decide (x = '/')) p
    have hpre : ∀ x ∈ p.take k, (x == '/') = false := by
      intro x hx
      rw [htake] at hx
      simpa using List.mem_takeWhile_imp hx
    obtain rfl : a = '/' := by simpa using ha
    conv_rhs => rw [hp]
    rw [List.splitOn_eq_splitOnP, List.splitOnP_append_cons_of_forall_mem hpre '/' (by simp),
      ← List.splitOn_eq_splitOnP, ih]

/-- `ParsePath` fails when `parse_path` does, and otherwise writes its segments as
strings. -/
theorem Impl.parsePath_eq (impl : Impl) (p : List Char) :
    impl.parsePath p = (Uri.parsePath p).toOption.map fun path =>
      { impl with path := path.map ofBytes } := by
  have hS : ∀ c, pcharNotPctEncoded c = true → c.toNat < 256 :=
    fun c hc => (pcharNotPctEncoded_isAsciiSet.ascii c hc).trans (by norm_num)
  by_cases h1 : p = ['/']
  · subst h1
    rfl
  by_cases h2 : p = []
  · subst h2
    rfl
  -- any other path string: its pieces, each decoded by both decoders
  rw [Impl.parsePath, if_neg h1, if_pos h2, Uri.parsePath_of_ne h1 h2, splitPath_eq_splitOn,
    List.mapM_option_eq_toOption_map fun x => decodeElement_eq_map_ofBytes hS x .path]
  cases (p.splitOn '/').mapM (Rhymuri.decodeElement · pcharNotPctEncoded .path) <;> rfl

/-- Without a leading `//`, `SplitAuthorityFromPathAndParseIt` clears the authority and
leaves the whole text to the path. -/
theorem Impl.splitAuthorityFromPathAndParseIt_of_ne {t : List Char}
    (h : ∀ r, t ≠ '/' :: '/' :: r) (impl : Impl) :
    impl.splitAuthorityFromPathAndParseIt t =
      some ({ impl with userInfo := [], host := [], hasPort := false }, t) := by
  have htake : t.take 2 ≠ ['/', '/'] := fun he => h (t.drop 2) (by
    rw [← List.take_append_drop 2 t, he]
    rfl)
  rw [Impl.splitAuthorityFromPathAndParseIt, if_neg htake]

/-- Without a leading `//`, `split_authority_from_path_and_parse_them` parses the whole text
as the path. -/
theorem splitAuthorityFromPathAndParseThem_of_ne {t : List Char}
    (h : ∀ r, t ≠ '/' :: '/' :: r) :
    Uri.splitAuthorityFromPathAndParseThem t = (Uri.parsePath t).map (none, ·) := by
  unfold Uri.splitAuthorityFromPathAndParseThem
  split
  · next r => exact absurd rfl (h r)
  · cases Uri.parsePath t <;> rfl

/-! ### The query and the fragment -/

theorem decodeQueryOrFragment_eq (t : List Char) (ctx : Context) :
    decodeQueryOrFragment t = (Uri.decodeQueryOrFragment t ctx).toOption.map ofBytes :=
  decodeElement_eq_map_ofBytes
    (fun c hc => (queryOrFragmentNotPctEncoded_isAsciiSet.ascii c hc).trans (by norm_num)) t ctx

/-- `ParseFragment` fails when `parse_fragment` does, and otherwise writes its fragment, with
its flag, and leaves its rest. -/
theorem Impl.parseFragment_eq (impl : Impl) (t : List Char) :
    impl.parseFragment t = (Uri.parseFragment t).toOption.map fun p =>
      ({ impl with hasFragment := p.1.isSome, fragment := ofBytes (p.1.getD []) }, p.2) := by
  unfold Impl.parseFragment Uri.parseFragment
  rcases t.findIdx? (· = '#') with _ | k
  · rfl
  · simp only
    rw [decodeQueryOrFragment_eq _ .fragment]
    cases Uri.decodeQueryOrFragment (t.drop (k + 1)) .fragment <;> rfl

/-- `ParseQuery` fails when `parse_query` does, and otherwise writes its query, with its
flag. -/
theorem Impl.parseQuery_eq (impl : Impl) (t : List Char) :
    impl.parseQuery t = (Uri.parseQuery t).toOption.map fun q =>
      { impl with hasQuery := q.isSome, query := ofBytes (q.getD []) } := by
  unfold Impl.parseQuery Uri.parseQuery
  cases t with
  | nil => rfl
  | cons c t =>
    simp only [List.isEmpty_cons, Bool.not_false, if_true, Bool.false_eq_true, if_false]
    rw [decodeQueryOrFragment_eq _ .query]
    cases Uri.decodeQueryOrFragment ((c :: t).drop 1) .query <;> rfl

/-! ### The whole reference -/

/-- **Off the authority, the C++ parser is the crate's**: on a reference whose text after the
scheme does not start with `//`, `ParseFromString` into a fresh `Uri` fails exactly when
`Uri::parse` fails, and otherwise holds the fields of the crate's URI. -/
theorem Impl.parseFromString_eq_ofUri {s : List Char}
    (hauthority : ∀ scheme rest, Uri.parseScheme s = .ok (scheme, rest) →
      ∀ r, rest ≠ '/' :: '/' :: r) :
    Impl.new.parseFromString s = (Uri.parse s).toOption.map Impl.ofUri := by
  unfold Impl.parseFromString Uri.parse
  rw [Impl.parseScheme_eq]
  rcases hs : Uri.parseScheme s with e | ⟨scheme, rest⟩
  · rfl
  have hrest := hauthority scheme rest hs
  -- the text before the query and the fragment starts with no authority either
  obtain ⟨n, hn⟩ : ∃ n, (rest.findIdx? fun c => decide (c = '?' ∨ c = '#')).getD rest.length = n :=
    ⟨_, rfl⟩
  have hle : n ≤ rest.length := hn ▸ List.getD_findIdx?_le rest
  have hne : ∀ r, rest.take n ≠ '/' :: '/' :: r := fun r he => by
    have hsplit := List.take_append_drop n rest
    rw [he] at hsplit
    exact hrest (r ++ rest.drop n) hsplit.symm
  simp only [Except.toOption, Option.map_some, Option.bind_eq_bind, Option.bind_some,
    Except.ok_bind, hn, List.length_take_of_le hle, Impl.splitAuthorityFromPathAndParseIt_of_ne hne,
    splitAuthorityFromPathAndParseThem_of_ne hne, Impl.parsePath_eq]
  -- then the path, the fragment and the query, each failing in both or in neither
  cases Uri.parsePath (rest.take n) with
  | error e => rfl
  | ok path =>
    simp only [Option.map_some, Option.bind_some, Except.map, Except.ok_bind,
      Impl.setDefaultPathIfAuthorityPresentAndPathEmpty_eq, ne_eq, not_true_eq_false, false_and,
      if_false, Impl.parseFragment_eq]
    cases Uri.parseFragment (rest.drop n) with
    | error e => rfl
    | ok p =>
      obtain ⟨fragment, possibleQuery⟩ := p
      simp only [Except.toOption, Option.map_some, Option.bind_some, Except.ok_bind,
        Impl.parseQuery_eq]
      cases Uri.parseQuery possibleQuery <;> rfl

/-- `h:x?q`, a scheme, a path and a query. -/
theorem Impl.parseFromString_eq_ofUri_query :
    Impl.new.parseFromString ['h', ':', 'x', '?', 'q'] =
      (Uri.parse ['h', ':', 'x', '?', 'q']).toOption.map Impl.ofUri :=
  Impl.parseFromString_eq_ofUri fun scheme rest h r => by
    have hs : Uri.parseScheme ['h', ':', 'x', '?', 'q'] = .ok (some ['h'], ['x', '?', 'q']) := by
      decide
    rw [hs] at h
    obtain ⟨-, rfl⟩ := Prod.mk.inj (Except.ok.inj h)
    simp

end Cpp

end Rhymuri
