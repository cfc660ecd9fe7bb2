import Rhymuri.Uri.Display
import Rhymuri.Uri.Parse
import Rhymuri.Authority.RoundTrip
import Rhymuri.Lib.Cut

/-!
# A URI printed, then parsed

`Uri::parse` reads back what `Display for Uri` writes, as long as the URI keeps the
rules that hold its components apart in the text (`Rhymuri.Uri.PrintsBack`); it then
gives the URI back, but for an empty path after an authority, which comes back as `[""]`
(`Rhymuri.Uri.parse_toString`). The rules are those of the RFC's grammar, which the
printer does not enforce:

* the scheme is one that `check_scheme` accepts, in lower case, as the parser gives it;
* the host has no ASCII upper-case letter, since the parser lower-cases a reg-name and
  the printer an IPv6 address;
* after an authority, the path is empty or starts with `/`;
* without an authority, the path does not start with two empty segments followed by
  more, which the printer writes as `//`, the start of an authority; and no path is
  `["", ""]`, which the printer writes `/`, as it writes `[""]`;
* without a scheme and an authority, the first segment has no `:`, and, if the printed
  path has no `/`, neither have the query and the fragment: the parser looks for the
  scheme's `:` up to the first `/`, wherever that is.

The proof follows the parser. The scheme and its `:` are cut off
(`Rhymuri.Uri.parseScheme_fmtScheme`), or no scheme is found
(`Rhymuri.Uri.parseScheme_of_takeWhile`); the rest is cut at the `?` or `#` that starts
the query or the fragment, which the printed authority and path do not hold; the
authority and the path are read back
(`Rhymuri.Authority.parse_toString_of_not_upper`, `Rhymuri.Uri.parsePath_fmtPath`); then the fragment and the query.
-/

namespace Rhymuri

namespace Uri

/-! ### The scheme -/

theorem checkSchemeCharacter_eq_ok {p : Char × ℕ} :
    checkSchemeCharacter () p = .ok () ↔
      (if p.2 = 0 then alpha else schemeNotFirst) p.1 = true := by
  cases h : (if p.2 = 0 then alpha else schemeNotFirst) p.1 <;> simp [checkSchemeCharacter, h]

/-- **What `check_scheme` accepts**: a letter, then letters, digits, `+`, `-` and `.`; and
it gives the scheme back. -/
theorem checkScheme_eq_ok_iff {scheme x : List Char} :
    checkScheme scheme = .ok x ↔ x = scheme ∧
      ∃ c cs, scheme = c :: cs ∧ alpha c = true ∧ ∀ d ∈ cs, schemeNotFirst d = true := by
  rcases scheme with _ | ⟨c, cs⟩
  · simp [checkScheme]
  · -- the first character is at position 0, the others after it
    have hrest : (∀ p ∈ cs.zipIdx 1, checkSchemeCharacter () p = .ok ()) ↔
        ∀ d ∈ cs, schemeNotFirst d = true := by
      constructor
      · intro h d hd
        rw [← List.zipIdx_map_fst 1 cs] at hd
        obtain ⟨⟨d, i⟩, hp, rfl⟩ := List.mem_map.mp hd
        have hi : i ≠ 0 := by have := (List.mem_zipIdx hp).1; omega
        simpa [hi] using checkSchemeCharacter_eq_ok.mp (h _ hp)
      · rintro h ⟨d, i⟩ hp
        have hi : i ≠ 0 := by have := (List.mem_zipIdx hp).1; omega
        exact checkSchemeCharacter_eq_ok.mpr (by simpa [hi] using h d (List.fst_mem_of_mem_zipIdx hp))
    have hfold : (c :: cs).zipIdx.foldlM checkSchemeCharacter () = .ok () ↔
        alpha c = true ∧ ∀ d ∈ cs, schemeNotFirst d = true := by
      rw [List.foldlM_unit_eq_ok, List.zipIdx_cons, List.forall_mem_cons, checkSchemeCharacter_eq_ok,
        hrest]
      rfl
    show ((c :: cs).zipIdx.foldlM checkSchemeCharacter ()).bind (fun _ => .ok (c :: cs)) = .ok x ↔ _
    rw [Except.bind_eq_ok]
    constructor
    · rintro ⟨⟨⟩, hf, hx⟩
      exact ⟨(Except.ok.inj hx).symm, c, cs, rfl, hfold.mp hf⟩
    · rintro ⟨rfl, c', cs', he, hc, hcs⟩
      obtain ⟨rfl, rfl⟩ := List.cons.inj he
      exact ⟨(), hfold.mpr ⟨hc, hcs⟩, rfl⟩

/-- The characters of a scheme `check_scheme` accepts are scheme characters. -/
theorem schemeNotFirst_of_checkScheme {scheme x : List Char} (h : checkScheme scheme = .ok x) :
    ∀ c ∈ scheme, schemeNotFirst c = true := by
  obtain ⟨-, c, cs, rfl, hc, hcs⟩ := checkScheme_eq_ok_iff.mp h
  intro d hd
  rcases List.mem_cons.mp hd with rfl | hd
  · simp [schemeNotFirst, hc]
  · exact hcs d hd

/-- `check_scheme` accepts the lower case of a scheme it accepts. -/
theorem checkScheme_map_toLower {scheme : List Char} (h : checkScheme scheme = .ok scheme) :
    checkScheme (scheme.map Char.toLower) = .ok (scheme.map Char.toLower) := by
  obtain ⟨-, c, cs, rfl, hc, hcs⟩ := checkScheme_eq_ok_iff.mp h
  refine checkScheme_eq_ok_iff.mpr ⟨rfl, c.toLower, cs.map Char.toLower, rfl, alpha_toLower hc, ?_⟩
  intro d hd
  obtain ⟨e, he, rfl⟩ := List.mem_map.mp hd
  exact schemeNotFirst_toLower (hcs e he)

/-- **The printed scheme is cut off at its `:`**, and lower-cased. -/
theorem parseScheme_fmtScheme {scheme : List Char} (h : checkScheme scheme = .ok scheme)
    (rest : List Char) :
    parseScheme (scheme ++ ':' :: rest) = .ok (some (scheme.map Char.toLower), rest) := by
  have hsnf := schemeNotFirst_of_checkScheme h
  -- a scheme has neither `/` nor `:`
  have hslash : ∀ c ∈ scheme, (!decide (c = '/')) = true := fun c hc => by
    have := hsnf c hc
    simpa using fun he : c = '/' => by rw [he] at this; exact absurd this (by decide)
  have hcolon : ∀ c ∈ scheme, decide (c = ':') = false := fun c hc => by
    have := hsnf c hc
    simpa using fun he : c = ':' => by rw [he] at this; exact absurd this (by decide)
  have htake : (scheme ++ ':' :: rest).takeWhile (fun c => !decide (c = '/')) =
      scheme ++ ':' :: rest.takeWhile (fun c => !decide (c = '/')) := by
    rw [List.takeWhile_append_of_pos hslash, List.takeWhile_cons_of_pos (by decide)]
  have hfind := List.findIdx?_append_cons hcolon (by decide : decide (':' = ':') = true)
    (rest.takeWhile fun c => !decide (c = '/'))
  have hdrop : (scheme ++ ':' :: rest).drop (scheme.length + 1) = rest := by
    rw [← List.singleton_append, ← List.append_assoc, List.drop_left' (by simp)]
  simp only [parseScheme, List.take_getD_findIdx?, htake, hfind, List.take_left', h, hdrop]
  rfl

/-- **No scheme is found** in a text whose part before the first `/` has no `:`. -/
theorem parseScheme_of_takeWhile {s : List Char}
    (h : ':' ∉ s.takeWhile (fun c => !decide (c = '/'))) : parseScheme s = .ok (none, s) := by
  have hfind : (s.takeWhile (fun c => !decide (c = '/'))).findIdx? (· = ':') = none :=
    List.findIdx?_eq_none_iff.mpr fun c hc => decide_eq_false fun he : c = ':' => h (he ▸ hc)
  simp only [parseScheme, List.take_getD_findIdx?, hfind]
  rfl

/-! ### The path -/

@[simp]
theorem fmtPath_nil : fmtPath [] = [] := rfl

@[simp]
theorem fmtPath_root : fmtPath [[]] = ['/'] := rfl

theorem fmtPath_singleton {s : List UInt8} (hs : s ≠ []) :
    fmtPath [s] = encodeElement s pcharNotPctEncoded := by
  have habs : isPathAbsolute [s] = false := by
    rcases s with _ | ⟨x, s⟩
    · exact absurd rfl hs
    · rfl
  simp [fmtPath, habs]

/-- A path of two segments or more is its segments, with a `/` before all but the first. -/
theorem fmtPath_cons_cons (s t : List UInt8) (rest : List (List UInt8)) :
    fmtPath (s :: t :: rest) = encodeElement s pcharNotPctEncoded ++
      ((t :: rest).map fun segment => encodeElement segment pcharNotPctEncoded).flatMap
        ('/' :: ·) := by
  rw [fmtPath, List.map_cons, List.intercalate_cons_eq_append_flatMap]
  simp

theorem fmtPath_eq_intercalate_of_ne_root {path : List (List UInt8)} (h : path ≠ [[]]) :
    fmtPath path =
      ['/'].intercalate (path.map fun segment => encodeElement segment pcharNotPctEncoded) := by
  have habs : (isPathAbsolute path && path.length == 1) = false := by
    rcases path with _ | ⟨s, _ | ⟨t, rest⟩⟩
    · rfl
    · rcases s with _ | ⟨x, s⟩
      · exact absurd rfl h
      · rfl
    · simp
  simp [fmtPath, habs]

theorem fmtPath_eq_nil_iff {path : List (List UInt8)} : fmtPath path = [] ↔ path = [] := by
  constructor
  · intro h
    rcases path with _ | ⟨s, _ | ⟨t, rest⟩⟩
    · rfl
    · by_cases hs : s = []
      · subst hs
        simp at h
      · rw [fmtPath_singleton hs, encodeElement_eq_nil_iff] at h
        exact absurd h hs
    · simp [fmtPath_cons_cons] at h
  · rintro rfl
    rfl

/-- The separators that do not occur in a printed path. -/
theorem not_mem_fmtPath {d : Char} (hd : pcharNotPctEncoded d = false) (hp : d ≠ '%')
    (hh : hexdig d = false) (hs : d ≠ '/') (path : List (List UInt8)) : d ∉ fmtPath path := by
  rw [fmtPath, List.mem_append, not_or]
  refine ⟨by split <;> simp [hs], ?_⟩
  have hsep : ∀ c ∈ ['/'], c ≠ d := by simpa using Ne.symm hs
  refine fun hm => List.forall_mem_intercalate hsep ?_ d hm rfl
  intro x hx c hc
  obtain ⟨s, -, rfl⟩ := List.mem_map.mp hx
  exact fun he => not_mem_encodeElement hd hp hh s (he ▸ hc)

/-- A segment without the byte of `:` is printed without `:`. -/
theorem colon_not_mem_encodeElement {S : Char → Bool} {b : List UInt8} (h : (58 : UInt8) ∉ b) :
    ':' ∉ encodeElement b S := fun hm =>
  h (mem_encodeElement hm (by decide) (by decide)).2

theorem parsePath_of_ne {s : List Char} (h1 : s ≠ ['/']) (h2 : s ≠ []) :
    parsePath s = (s.splitOn '/').mapM fun segment =>
      decodeElement segment pcharNotPctEncoded .path := by
  unfold parsePath
  split
  · exact absurd rfl h1
  · exact absurd rfl h2
  · rfl

/-- Segments joined by `/` are split and decoded back. -/
theorem parsePath_intercalate {path : List (List UInt8)} (hne : path ≠ [])
    (h1 : ['/'].intercalate (path.map fun s => encodeElement s pcharNotPctEncoded) ≠ ['/'])
    (h2 : ['/'].intercalate (path.map fun s => encodeElement s pcharNotPctEncoded) ≠ []) :
    parsePath (['/'].intercalate (path.map fun s => encodeElement s pcharNotPctEncoded)) =
      .ok path := by
  have hsplit : (['/'].intercalate (path.map fun s => encodeElement s pcharNotPctEncoded)).splitOn
      '/' = path.map fun s => encodeElement s pcharNotPctEncoded := by
    refine List.splitOn_intercalate '/' (fun l hl => ?_) (by simpa using hne)
    obtain ⟨s, -, rfl⟩ := List.mem_map.mp hl
    exact not_mem_encodeElement (by decide) (by decide) (by decide) s
  rw [parsePath_of_ne h1 h2, hsplit]
  exact List.mapM_except_map_of_forall fun s _ =>
    decodeElement_encodeElement_of_isAsciiSet pcharNotPctEncoded_isAsciiSet (fun _ h => h) s

/-- **The printed path is read back**, but for `["", ""]`, which is printed as `[""]` is. -/
theorem parsePath_fmtPath {path : List (List UInt8)} (h : path ≠ [[], []]) :
    parsePath (fmtPath path) = .ok path := by
  rcases path with _ | ⟨s, _ | ⟨t, rest⟩⟩
  · rfl
  · by_cases hs : s = []
    · subst hs
      rfl
    · have henc : encodeElement s pcharNotPctEncoded ≠ [] := mt encodeElement_eq_nil_iff.mp hs
      have hslash : '/' ∉ encodeElement s pcharNotPctEncoded :=
        not_mem_encodeElement (by decide) (by decide) (by decide) s
      have hone : parsePath (['/'].intercalate ([s].map fun s => encodeElement s
          pcharNotPctEncoded)) = .ok [s] :=
        parsePath_intercalate (List.cons_ne_nil _ _)
          (by simpa using fun he => hslash (by rw [he]; simp)) (by simpa using henc)
      rw [fmtPath_singleton hs]
      simpa using hone
  · have hfmt : fmtPath (s :: t :: rest) = ['/'].intercalate ((s :: t :: rest).map
        fun segment => encodeElement segment pcharNotPctEncoded) :=
      fmtPath_eq_intercalate_of_ne_root (by simp)
    rw [hfmt]
    refine parsePath_intercalate (List.cons_ne_nil _ _) ?_ ?_
    · -- `/` alone is two empty segments, and nothing after them
      rw [← hfmt, fmtPath_cons_cons, List.map_cons, List.flatMap_cons]
      intro he
      have key : ∀ x y : List Char, x ++ '/' :: y = ['/'] → x = [] ∧ y = [] := by
        intro x y hxy
        rcases x with _ | ⟨c, x⟩
        · exact ⟨rfl, (List.cons.inj hxy).2⟩
        · simp at hxy
      obtain ⟨hs, htr⟩ := key _ _ (by simpa using he)
      obtain ⟨ht, hr⟩ := List.append_eq_nil_iff.mp htr
      have hrest : rest = [] :=
        List.eq_nil_iff_forall_not_mem.mpr (by simpa [List.flatMap_eq_nil_iff] using hr)
      rw [encodeElement_eq_nil_iff] at hs ht
      exact h (by rw [hs, ht, hrest])
    · rw [← hfmt, fmtPath_cons_cons]
      simp

/-! ### The query and the fragment -/

theorem hash_not_mem_fmtQuery (query : Option (List UInt8)) : '#' ∉ fmtQuery query := by
  cases query with
  | none => simp [fmtQuery]
  | some query =>
    rw [fmtQuery, List.mem_cons, not_or]
    exact ⟨by decide, not_mem_encodeElement (by decide) (by decide) (by decide) query⟩

theorem colon_not_mem_fmtQuery {query : Option (List UInt8)} (h : ∀ q ∈ query, (58 : UInt8) ∉ q) :
    ':' ∉ fmtQuery query := by
  cases query with
  | none => simp [fmtQuery]
  | some query =>
    rw [fmtQuery, List.mem_cons, not_or]
    exact ⟨by decide, colon_not_mem_encodeElement (h query rfl)⟩

theorem colon_not_mem_fmtFragment {fragment : Option (List UInt8)}
    (h : ∀ f ∈ fragment, (58 : UInt8) ∉ f) : ':' ∉ fmtFragment fragment := by
  cases fragment with
  | none => simp [fmtFragment]
  | some fragment =>
    rw [fmtFragment, List.mem_cons, not_or]
    exact ⟨by decide, colon_not_mem_encodeElement (h fragment rfl)⟩

/-- The printed query, `?` and the query encoded, is decoded back. -/
theorem parseQuery_fmtQuery (query : Option (List UInt8)) :
    parseQuery (fmtQuery query) = .ok query := by
  cases query with
  | none => rfl
  | some query =>
    have h : decodeQueryOrFragment (encodeElement query queryNotPctEncodedWithoutPlus) .query =
        .ok query :=
      decodeElement_encodeElement_of_isAsciiSet queryNotPctEncodedWithoutPlus_isAsciiSet
        (fun _ h => queryNotPctEncodedWithoutPlus_sub h) query
    simp only [parseQuery, fmtQuery, List.isEmpty_cons, List.drop_succ_cons, List.drop_zero, h]
    rfl

/-- **The printed fragment is cut off at its `#`** and decoded; what stands before it is
the printed query. -/
theorem parseFragment_fmt (query fragment : Option (List UInt8)) :
    parseFragment (fmtQuery query ++ fmtFragment fragment) = .ok (fragment, fmtQuery query) := by
  have hq : ∀ c ∈ fmtQuery query, decide (c = '#') = false := fun c hc =>
    decide_eq_false fun he : c = '#' => hash_not_mem_fmtQuery query (he ▸ hc)
  cases fragment with
  | none =>
    have hfind : (fmtQuery query).findIdx? (· = '#') = none := List.findIdx?_eq_none_iff.mpr hq
    simp only [parseFragment, fmtFragment, List.append_nil, hfind]
    rfl
  | some fragment =>
    have hdecode : decodeQueryOrFragment (encodeElement fragment queryOrFragmentNotPctEncoded)
        .fragment = .ok fragment :=
      decodeElement_encodeElement_of_isAsciiSet queryOrFragmentNotPctEncoded_isAsciiSet
        (fun _ h => h) fragment
    rw [fmtFragment]
    set e := encodeElement fragment queryOrFragmentNotPctEncoded
    have hfind := List.findIdx?_append_cons hq (by decide : decide ('#' = '#') = true) e
    have htake : (fmtQuery query ++ '#' :: e).take (fmtQuery query).length = fmtQuery query :=
      List.take_left' rfl
    have hdrop : (fmtQuery query ++ '#' :: e).drop ((fmtQuery query).length + 1) = e := by
      rw [← List.singleton_append, ← List.append_assoc, List.drop_left' (by simp)]
    simp only [parseFragment, hfind, htake, hdrop, hdecode]
    rfl

/-! ### The authority and the path -/

/-- A path that is empty or starts with an empty segment is printed empty or from a `/`. -/
theorem head_fmtPath {path : List (List UInt8)} (h : path = [] ∨ path.head? = some []) :
    ∀ c ∈ (fmtPath path).head?, c = '/' := by
  rcases h with rfl | h
  · simp
  · rcases path with _ | ⟨s, _ | ⟨t, rest⟩⟩
    · simp at h
    · obtain rfl : s = [] := by simpa using h
      simp
    · obtain rfl : s = [] := by simpa using h
      simp [fmtPath_cons_cons]

/-- **The printed authority and path are read back**: the authority up to the `/` that
starts the path, or to the end, when the path is empty and is read as `[""]`. -/
theorem splitAuthorityFromPathAndParseThem_some {a : Authority}
    (ha : ∀ b ∈ a.host, ¬(65 ≤ b ∧ b ≤ 90)) {path : List (List UInt8)}
    (hpath : path = [] ∨ path.head? = some []) (hne : path ≠ [[], []]) :
    splitAuthorityFromPathAndParseThem (fmtAuthority (some a) ++ fmtPath path) =
      .ok (some a, if path.isEmpty then [[]] else path) := by
  have hslash : ∀ c ∈ a.toString, (!decide (c = '/')) = true := fun c hc => by
    simpa using fun he : c = '/' => Authority.not_mem_toString (.inl rfl) a (he ▸ hc)
  have hhead : ∀ c ∈ (fmtPath path).head?, (!decide (c = '/')) = false := fun c hc => by
    simpa using head_fmtPath hpath c hc
  rw [fmtAuthority, List.cons_append, List.cons_append, splitAuthorityFromPathAndParseThem]
  simp only [List.take_getD_findIdx?, List.drop_getD_findIdx?,
    List.takeWhile_append_of_head hslash hhead, List.dropWhile_append_of_head hslash hhead,
    Authority.parse_toString_of_not_upper a ha, Except.ok_bind]
  by_cases h0 : path = []
  · -- an empty path after an authority is read as `/`
    subst h0
    rfl
  · have h1 : (fmtPath path).isEmpty = false :=
      List.isEmpty_eq_false_iff.mpr (mt fmtPath_eq_nil_iff.mp h0)
    have h2 : path.isEmpty = false := List.isEmpty_eq_false_iff.mpr h0
    simp only [h1, h2, parsePath_fmtPath hne]
    rfl

/-- Without an authority, the path is parsed from the start. -/
theorem splitAuthorityFromPathAndParseThem_none {s : List Char} (h : ∀ r, s ≠ '/' :: '/' :: r)
    {path : List (List UInt8)} (hpath : parsePath s = .ok path) :
    splitAuthorityFromPathAndParseThem s = .ok (none, path) := by
  unfold splitAuthorityFromPathAndParseThem
  split
  · next r => exact absurd rfl (h r)
  · simp only [hpath]
    rfl

/-- A text that starts with a nonempty part without `c` does not start with `c`. -/
theorem head_ne_of_not_mem {c : Char} {x y z : List Char} (hx : x ≠ []) (hc : c ∉ x) :
    x ++ y ≠ c :: z := by
  rcases x with _ | ⟨d, x⟩
  · exact absurd rfl hx
  · intro h
    exact hc ((List.cons.inj h).1 ▸ List.mem_cons_self)

/-- **Without an authority, the printed path does not start with `//`**, when it does not
start with two empty segments. -/
theorem fmtPath_ne_slash_slash {path : List (List UInt8)} (h1 : path ≠ [[], []])
    (h2 : ∀ s rest, path ≠ [] :: [] :: s :: rest) (r : List Char) :
    fmtPath path ≠ '/' :: '/' :: r := by
  have hslash : ∀ s, '/' ∉ encodeElement s pcharNotPctEncoded := fun s =>
    not_mem_encodeElement (by decide) (by decide) (by decide) s
  have henc : ∀ {s : List UInt8}, s ≠ [] → encodeElement s pcharNotPctEncoded ≠ [] :=
    fun hs => mt encodeElement_eq_nil_iff.mp hs
  rcases path with _ | ⟨s, _ | ⟨t, rest⟩⟩
  · simp
  · by_cases hs : s = []
    · subst hs
      simp
    · rw [fmtPath_singleton hs]
      simpa using head_ne_of_not_mem (y := []) (henc hs) (hslash s)
  · rw [fmtPath_cons_cons, List.map_cons, List.flatMap_cons]
    by_cases hs : s = []
    · -- the first segment is empty: the second must not be
      subst hs
      simp only [encodeElement_nil, List.nil_append, List.cons_append, ne_eq, List.cons.injEq,
        true_and]
      by_cases ht : t = []
      · subst ht
        rcases rest with _ | ⟨u, rest⟩
        · exact absurd rfl h1
        · exact absurd rfl (h2 u rest)
      · exact head_ne_of_not_mem (henc ht) (hslash t)
    · exact head_ne_of_not_mem (henc hs) (hslash s)

/-! ### No scheme -/

/-- **Without a scheme, the printed URI has no `:` before its first `/`**, if the first
segment has none and, when the printed path has no `/`, the query and the fragment have
none. -/
theorem colon_not_mem_takeWhile {authority : Option Authority} {path : List (List UInt8)}
    {query fragment : Option (List UInt8)}
    (hfirst : authority = none → ∀ s ∈ path.head?, (58 : UInt8) ∉ s)
    (hqf : authority = none → path.length ≤ 1 → path ≠ [[]] →
      (∀ q ∈ query, (58 : UInt8) ∉ q) ∧ ∀ f ∈ fragment, (58 : UInt8) ∉ f) :
    ':' ∉ (fmtAuthority authority ++ fmtPath path ++ (fmtQuery query ++ fmtFragment fragment)).takeWhile
      (fun c => !decide (c = '/')) := by
  cases authority with
  | some a => simp [fmtAuthority]
  | none =>
    have hqf' : path.length ≤ 1 → path ≠ [[]] → ':' ∉ fmtQuery query ++ fmtFragment fragment :=
      fun hl hr => by
        obtain ⟨hq, hf⟩ := hqf rfl hl hr
        rw [List.mem_append, not_or]
        exact ⟨colon_not_mem_fmtQuery hq, colon_not_mem_fmtFragment hf⟩
    simp only [fmtAuthority, List.nil_append]
    rcases path with _ | ⟨s, _ | ⟨t, rest⟩⟩
    · -- nothing is printed before the query
      exact fun hm => hqf' (by simp) (by simp) (List.takeWhile_subset _ hm)
    · by_cases hs : s = []
      · subst hs
        simp
      · -- one segment, and the query and the fragment after it
        have hcolon := colon_not_mem_encodeElement (S := pcharNotPctEncoded) (hfirst rfl s rfl)
        rw [fmtPath_singleton hs]
        intro hm
        rcases List.mem_append.mp (List.takeWhile_subset _ hm) with hm | hm
        · exact hcolon hm
        · exact hqf' (by simp) (by simpa using hs) hm
    · -- the first segment ends at a `/`
      have hcolon := colon_not_mem_encodeElement (S := pcharNotPctEncoded) (hfirst rfl s rfl)
      have hslash : ∀ c ∈ encodeElement s pcharNotPctEncoded, (!decide (c = '/')) = true :=
        fun c hc => by
          simpa using fun he : c = '/' =>
            not_mem_encodeElement (by decide) (by decide) (by decide) s (he ▸ hc)
      rw [fmtPath_cons_cons, List.map_cons, List.flatMap_cons, List.append_assoc,
        List.takeWhile_append_of_head hslash (by simp)]
      exact hcolon

/-! ### The round trip -/

/-- **The URIs that `Display` prints so that `parse` reads them back.** -/
structure PrintsBack (u : Uri) : Prop where
  /-- The scheme is one `check_scheme` accepts, without upper-case letters. -/
  scheme : ∀ scheme ∈ u.scheme, checkScheme scheme = .ok scheme ∧ ∀ c ∈ scheme, c.isUpper = false
  /-- The host has no ASCII upper-case letter. -/
  host : ∀ authority ∈ u.authority, ∀ b ∈ authority.host, ¬(65 ≤ b ∧ b ≤ 90)
  /-- The path is not `["", ""]`. -/
  path_ne : u.path ≠ [[], []]
  /-- After an authority, the path is empty or starts with `/`. -/
  path_of_authority : ∀ _ ∈ u.authority, u.path = [] ∨ u.path.head? = some []
  /-- Without an authority, the path does not start with two empty segments and more. -/
  path_of_no_authority : u.authority = none → ∀ s rest, u.path ≠ [] :: [] :: s :: rest
  /-- Without a scheme and an authority, the first segment has no `:`. -/
  first_segment : u.scheme = none → u.authority = none → ∀ s ∈ u.path.head?, (58 : UInt8) ∉ s
  /-- Without a scheme, an authority and a `/` in the printed path, the query and the
  fragment have no `:`. -/
  query_fragment : u.scheme = none → u.authority = none → u.path.length ≤ 1 → u.path ≠ [[]] →
    (∀ q ∈ u.query, (58 : UInt8) ∉ q) ∧ ∀ f ∈ u.fragment, (58 : UInt8) ∉ f

/-- `Uri::parse` on a text cut into the parts it cuts it into. -/
theorem parse_eq_ok_of {s rest ap qf possibleQuery : List Char} {scheme : Option (List Char)}
    {authority : Option Authority} {path : List (List UInt8)}
    {query fragment : Option (List UInt8)}
    (hscheme : parseScheme s = .ok (scheme, rest)) (hrest : rest = ap ++ qf)
    (hap : ∀ c ∈ ap, c ≠ '?' ∧ c ≠ '#') (hqf : ∀ c ∈ qf.head?, c = '?' ∨ c = '#')
    (hsplit : splitAuthorityFromPathAndParseThem ap = .ok (authority, path))
    (hfragment : parseFragment qf = .ok (fragment, possibleQuery))
    (hquery : parseQuery possibleQuery = .ok query) :
    parse s = .ok ⟨scheme, authority, path, query, fragment⟩ := by
  have h₁ : ∀ c ∈ ap, (!decide (c = '?' ∨ c = '#')) = true := fun c hc => by
    simpa using hap c hc
  have h₂ : ∀ c ∈ qf.head?, (!decide (c = '?' ∨ c = '#')) = false := fun c hc => by
    rcases hqf c hc with rfl | rfl <;> rfl
  simp only [parse, hscheme, hrest, List.take_getD_findIdx?, List.drop_getD_findIdx?,
    Except.ok_bind, List.takeWhile_append_of_head h₁ h₂, List.dropWhile_append_of_head h₁ h₂,
    hsplit, hfragment, hquery]
  rfl

/-- **A URI printed, then parsed, comes back**, if it keeps the rules that hold its
components apart; an empty path after an authority comes back as `[""]`. -/
theorem parse_toString {u : Uri} (h : PrintsBack u) :
    parse u.toString =
      .ok { u with path := if u.authority.isSome && u.path.isEmpty then [[]] else u.path } := by
  obtain ⟨scheme, authority, path, query, fragment⟩ := u
  obtain ⟨hsch, hhost, hne, hauth, hnoauth, hfirst, hqf⟩ := h
  -- the printed authority and path hold neither `?` nor `#`
  have hap : ∀ c ∈ fmtAuthority authority ++ fmtPath path, c ≠ '?' ∧ c ≠ '#' := by
    intro c hc
    refine ⟨fun he => ?_, fun he => ?_⟩ <;> subst he <;> rcases List.mem_append.mp hc with hc | hc
    all_goals first
      | exact not_mem_fmtPath (by decide) (by decide) (by decide) (by decide) path hc
      | cases authority with
        | none => simp [fmtAuthority] at hc
        | some a =>
          rcases List.mem_cons.mp hc with hc | hc
          · exact absurd hc (by decide)
          rcases List.mem_cons.mp hc with hc | hc
          · exact absurd hc (by decide)
          exact Authority.not_mem_toString (by simp) a hc
  have hqfhead : ∀ c ∈ (fmtQuery query ++ fmtFragment fragment).head?, c = '?' ∨ c = '#' := by
    cases query <;> cases fragment <;> simp [fmtQuery, fmtFragment]
  have hscheme : parseScheme (fmtScheme scheme ++
      ((fmtAuthority authority ++ fmtPath path) ++ (fmtQuery query ++ fmtFragment fragment))) =
      .ok (scheme, (fmtAuthority authority ++ fmtPath path) ++
        (fmtQuery query ++ fmtFragment fragment)) := by
    cases scheme with
    | some sc =>
      obtain ⟨hcheck, hupper⟩ := hsch sc rfl
      have hlower : sc.map Char.toLower = sc :=
        (List.map_congr_left fun c hc => Char.toLower_eq_self (hupper c hc)).trans (List.map_id _)
      rw [fmtScheme, List.append_assoc, List.singleton_append, parseScheme_fmtScheme hcheck,
        hlower]
    | none =>
      exact parseScheme_of_takeWhile (colon_not_mem_takeWhile (hfirst rfl) (hqf rfl))
  have hsplit : splitAuthorityFromPathAndParseThem (fmtAuthority authority ++ fmtPath path) =
      .ok (authority, if authority.isSome && path.isEmpty then [[]] else path) := by
    cases authority with
    | some a =>
      rw [splitAuthorityFromPathAndParseThem_some (hhost a rfl) (hauth a rfl) hne]
      rfl
    | none =>
      exact splitAuthorityFromPathAndParseThem_none (fmtPath_ne_slash_slash hne (hnoauth rfl))
        (parsePath_fmtPath hne)
  have htext : toString ⟨scheme, authority, path, query, fragment⟩ = fmtScheme scheme ++
      ((fmtAuthority authority ++ fmtPath path) ++ (fmtQuery query ++ fmtFragment fragment)) := by
    simp only [toString, List.append_assoc]
  rw [htext]
  exact parse_eq_ok_of hscheme rfl hap hqfhead hsplit (parseFragment_fmt query fragment)
    (parseQuery_fmtQuery query)

theorem parse_toString_port :
    parse (toString ⟨some ['h'], some ⟨none, [97], some 8⟩, [[], [98]], some [113], none⟩) =
      .ok ⟨some ['h'], some ⟨none, [97], some 8⟩, [[], [98]], some [113], none⟩ :=
  parse_toString
    { scheme := fun s hs => by
        obtain rfl := Option.some_inj.mp hs
        refine ⟨rfl, fun c hc => ?_⟩
        obtain rfl := List.mem_singleton.mp hc
        rfl
      host := fun a ha b hb => by
        obtain rfl := Option.some_inj.mp ha
        obtain rfl := List.mem_singleton.mp hb
        decide
      path_ne := by decide
      path_of_authority := fun _ _ => .inr rfl
      path_of_no_authority := fun h => absurd h (by simp)
      first_segment := fun _ h => absurd h (by simp)
      query_fragment := fun _ h => absurd h (by simp) }

end Uri

end Rhymuri
