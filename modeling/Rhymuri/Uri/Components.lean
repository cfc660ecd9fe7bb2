import Rhymuri.Uri.RoundTrip
import Rhymuri.Rfc.AppendixB
import Mathlib.Data.List.TakeWhile

/-!
# The parser splits as Appendix B does

`Uri::parse` finds its delimiters with scans of its own: the first `/`, the first `:`
before it, the first `?` or `#`, the leading `//`, the next `/`, the first `#`. When it
succeeds, the pieces it cuts are the groups of the pattern of Appendix B
(`Rhymuri.Rfc.appendixB`), each parsed as its component: the scheme lower-cased, the
authority by `Authority::parse`, the path split at `/` and decoded, the query and the
fragment decoded (`Rhymuri.Uri.parse_eq_ok_appendixB`).

Read in the pct-encoded language (`Rhymuri.PctDecodes`), each element the parser decodes is
a word of that language standing for the bytes it returns, followed by nothing or by an
unfinished escape, a `%` or a `%` and one digit, which the parser drops where RFC 3986 has no
reading for it (`Rhymuri.Uri.parse_eq_ok_appendixB_decodes`): `/a%` parses as `/a` does
(`Rhymuri.Uri.parse_path_truncated_escape`).

The scans agree with the pattern only because of what the parser rejects: its scheme scan
may stop at a `:` that stands after a `?` or a `#`, but what it then takes for a scheme
fails `check_scheme`.
-/

namespace Rhymuri

namespace Uri

open Rfc

/-- How a path is read from group 5: the empty path is `[]`, or `[""]` after an authority,
`/` is `[""]`, and any other path is split at `/` and each segment decoded. -/
def PathOfGroup (hasAuthority : Bool) (group : List Char) (path : List (List UInt8)) : Prop :=
  (group = [] → path = if hasAuthority then [[]] else []) ∧
  (group = ['/'] → path = [[]]) ∧
  (group ≠ [] → group ≠ ['/'] →
    (group.splitOn '/').mapM (fun segment => decodeElement segment pcharNotPctEncoded .path) =
      .ok path)

/-! ### The scheme -/

theorem notSchemeDelimiter_of_schemeNotFirst {c : Char} (h : schemeNotFirst c = true) :
    notSchemeDelimiter c = true := by
  rw [notSchemeDelimiter, Bool.not_eq_true', decide_eq_false_iff_not]
  rintro (rfl | rfl | rfl | rfl) <;> exact absurd h (by decide)

/-- A scheme that `check_scheme` accepts is a nonempty run of scheme characters. -/
theorem checkScheme_eq_ok_chars {scheme x : List Char} (h : checkScheme scheme = .ok x) :
    x = scheme ∧ scheme ≠ [] ∧ ∀ c ∈ scheme, notSchemeDelimiter c = true := by
  obtain ⟨rfl, c, cs, rfl, hc, hcs⟩ := checkScheme_eq_ok_iff.mp h
  refine ⟨rfl, List.cons_ne_nil c cs, fun d hd => ?_⟩
  rcases List.mem_cons.mp hd with rfl | hd
  · exact notSchemeDelimiter_of_schemeNotFirst (by simp [schemeNotFirst, hc])
  · exact notSchemeDelimiter_of_schemeNotFirst (hcs d hd)

/-- **The scheme is group 2**, lower-cased, and the parser goes on where the pattern does. -/
theorem schemeGroup_of_parseScheme {s rest : List Char} {scheme : Option (List Char)}
    (h : parseScheme s = .ok (scheme, rest)) :
    ∃ g, schemeGroup s = (g, rest) ∧ scheme = g.map (List.map Char.toLower) := by
  unfold parseScheme at h
  dsimp only at h
  rw [List.take_getD_findIdx?] at h
  split at h
  · next e hfind =>
    -- a `:` before the first `/`, and a scheme `check_scheme` accepts before it
    obtain ⟨sc, hsc, hpure⟩ := Except.bind_eq_ok.mp h
    obtain ⟨rfl, hne, hchars⟩ := checkScheme_eq_ok_chars hsc
    obtain ⟨hscheme, hrest⟩ := Prod.mk.inj (Except.ok.inj hpure)
    obtain ⟨a, ha, hs⟩ := List.eq_take_append_cons_drop_of_findIdx? (List.findIdx?_of_takeWhile hfind)
    obtain rfl : a = ':' := by simpa using ha
    have h₂ : ∀ c ∈ (':' :: s.drop (e + 1)).head?, notSchemeDelimiter c = false := by
      simp [notSchemeDelimiter]
    have htake : s.takeWhile notSchemeDelimiter = s.take e :=
      (congrArg (List.takeWhile notSchemeDelimiter) hs).trans
        (List.takeWhile_append_of_head hchars h₂)
    have hdrop : s.dropWhile notSchemeDelimiter = ':' :: s.drop (e + 1) :=
      (congrArg (List.dropWhile notSchemeDelimiter) hs).trans
        (List.dropWhile_append_of_head hchars h₂)
    obtain ⟨x, xs, hx⟩ := List.exists_cons_of_ne_nil hne
    refine ⟨some (s.take e), ?_, hscheme.symm⟩
    unfold schemeGroup
    rw [htake, hdrop, hx, ← hrest]
    rfl
  · next hnone =>
    obtain ⟨rfl, rfl⟩ := Prod.mk.inj (Except.ok.inj h)
    refine ⟨none, ?_, rfl⟩
    unfold schemeGroup
    split
    · next _ _ x xs r htw hdw =>
      -- a run of scheme characters, then `:`: the parser finds that `:` before any `/`
      exfalso
      have hs : s = (x :: xs) ++ ':' :: r := by
        rw [← htw, ← hdw, List.takeWhile_append_dropWhile]
      have hslash : ∀ c ∈ x :: xs, (!decide (c = '/')) = true := by
        intro c hc
        have hc' : notSchemeDelimiter c = true := by
          rw [← htw] at hc
          exact List.mem_takeWhile_imp hc
        simp only [notSchemeDelimiter, Bool.not_eq_true', decide_eq_false_iff_not] at hc'
        simp only [Bool.not_eq_true', decide_eq_false_iff_not]
        exact fun h => hc' (.inr (.inl h))
      have hmem : ':' ∈ s.takeWhile fun c => !decide (c = '/') := by
        rw [hs, List.takeWhile_append_of_pos hslash, List.takeWhile_cons_of_pos (by decide)]
        simp
      exact absurd (List.findIdx?_eq_none_iff.mp hnone ':' hmem) (by decide)
    · rfl

/-! ### The authority and the path -/

/-- What `split_authority_from_path_and_parse_them` does to a text without a leading
`//`. -/
theorem splitAuthorityFromPathAndParseThem_eq_ok_of_not {s : List Char}
    (hs : ∀ r, s ≠ '/' :: '/' :: r) {authority : Option Authority} {path : List (List UInt8)}
    (h : splitAuthorityFromPathAndParseThem s = .ok (authority, path)) :
    authority = none ∧ parsePath s = .ok path := by
  unfold splitAuthorityFromPathAndParseThem at h
  split at h
  · next r => exact absurd rfl (hs r)
  · obtain ⟨p, hp, hpure⟩ := Except.bind_eq_ok.mp h
    obtain ⟨rfl, rfl⟩ := Prod.mk.inj (Except.ok.inj hpure)
    exact ⟨rfl, hp⟩

/-- `parse_path` reads a path as group 5 is read. -/
theorem pathOfGroup_of_parsePath {hasAuthority : Bool} {group : List Char}
    {path : List (List UInt8)} (h : parsePath group = .ok path)
    (hnil : group = [] → path = if hasAuthority then [[]] else []) :
    PathOfGroup hasAuthority group path := by
  refine ⟨hnil, fun hg => ?_, fun h1 h2 => ?_⟩
  · subst hg
    exact (Except.ok.inj h).symm
  · rwa [← parsePath_of_ne h2 h1]

/-- **The authority is group 4, and the path group 5.** -/
theorem authorityGroup_of_split {rest : List Char} {authority : Option Authority}
    {path : List (List UInt8)}
    (h : splitAuthorityFromPathAndParseThem (rest.takeWhile notPathDelimiter) =
      .ok (authority, path)) :
    (authorityGroup rest).1.mapM Authority.parse = .ok authority ∧
      PathOfGroup authority.isSome ((authorityGroup rest).2.takeWhile notPathDelimiter) path := by
  by_cases hr : ∃ r, rest = '/' :: '/' :: r
  · obtain ⟨r, rfl⟩ := hr
    have htw : ('/' :: '/' :: r).takeWhile notPathDelimiter =
        '/' :: '/' :: r.takeWhile notPathDelimiter := by
      simp [notPathDelimiter]
    -- the authority runs to the next `/`, the path from there to the first `?` or `#`
    have hauth : (r.takeWhile notPathDelimiter).takeWhile (fun c => !decide (c = '/')) =
        r.takeWhile notAuthorityDelimiter := by
      rw [List.takeWhile_takeWhile]
      congr 1
      funext c
      simp only [notPathDelimiter, notAuthorityDelimiter]
      by_cases h1 : c = '/' <;> by_cases h2 : c = '?' <;> by_cases h3 : c = '#' <;> simp [h1, h2, h3]
    have hpath : (r.takeWhile notPathDelimiter).dropWhile (fun c => !decide (c = '/')) =
        (r.dropWhile notAuthorityDelimiter).takeWhile notPathDelimiter := by
      rw [List.dropWhile_takeWhile]
      congr 2
      funext c
      simp only [notPathDelimiter, notAuthorityDelimiter]
      by_cases h1 : c = '/' <;> by_cases h2 : c = '?' <;> by_cases h3 : c = '#' <;> simp [h1, h2, h3]
    rw [htw] at h
    simp only [splitAuthorityFromPathAndParseThem, List.take_getD_findIdx?,
      List.drop_getD_findIdx?, hauth, hpath] at h
    obtain ⟨a, ha, h⟩ := Except.bind_eq_ok.mp h
    have hgroup : authorityGroup ('/' :: '/' :: r) =
        (some (r.takeWhile notAuthorityDelimiter), r.dropWhile notAuthorityDelimiter) := rfl
    rw [hgroup]
    split_ifs at h with hnil
    · -- an empty path after an authority is read as `/`
      obtain ⟨p, hp, hpure⟩ := Except.bind_eq_ok.mp h
      obtain ⟨rfl, rfl⟩ := Prod.mk.inj (Except.ok.inj hpure)
      have hnil' := List.isEmpty_iff.mp hnil
      refine ⟨by simp [ha], fun _ => (Except.ok.inj hp).symm, fun h1 => ?_,
        fun h1 => absurd hnil' h1⟩
      rw [hnil'] at h1
      exact absurd h1 (by decide)
    · obtain ⟨p, hp, hpure⟩ := Except.bind_eq_ok.mp h
      obtain ⟨rfl, rfl⟩ := Prod.mk.inj (Except.ok.inj hpure)
      exact ⟨by simp [ha],
        pathOfGroup_of_parsePath hp fun h1 => absurd (List.isEmpty_iff.mpr h1) hnil⟩
  · have hr' : ∀ r, rest.takeWhile notPathDelimiter ≠ '/' :: '/' :: r := by
      intro r hrest
      apply hr
      refine ⟨r ++ rest.dropWhile notPathDelimiter, ?_⟩
      have hsplit := List.takeWhile_append_dropWhile (p := notPathDelimiter) (l := rest)
      rw [hrest] at hsplit
      exact hsplit.symm
    obtain ⟨rfl, hp⟩ := splitAuthorityFromPathAndParseThem_eq_ok_of_not hr' h
    have hgroup : authorityGroup rest = (none, rest) := by
      unfold authorityGroup
      split
      · next r => exact absurd ⟨r, rfl⟩ hr
      · rfl
    rw [hgroup]
    refine ⟨rfl, pathOfGroup_of_parsePath hp fun hnil => ?_⟩
    rw [hnil] at hp
    exact (Except.ok.inj hp).symm

/-- What follows the authority and the path is what follows group 5. -/
theorem dropWhile_authorityGroup (rest : List Char) :
    (authorityGroup rest).2.dropWhile notPathDelimiter = rest.dropWhile notPathDelimiter := by
  unfold authorityGroup
  split
  · next r =>
    have himp : ∀ c, notAuthorityDelimiter c = true → notPathDelimiter c = true := by
      intro c hc
      simp only [notAuthorityDelimiter, notPathDelimiter, Bool.not_eq_true',
        decide_eq_false_iff_not] at hc ⊢
      exact fun h => hc (.inr h)
    rw [List.dropWhile_dropWhile_of_imp himp]
    simp [notPathDelimiter]
  · rfl

/-! ### The query and the fragment -/

/-- **The fragment is group 9**: `parse_fragment` leaves before the first `#` what the
query is read from. -/
theorem parseFragment_eq_ok {t possibleQuery : List Char} {fragment : Option (List UInt8)}
    (h : parseFragment t = .ok (fragment, possibleQuery)) :
    possibleQuery = t.takeWhile notFragmentDelimiter ∧
      (fragmentGroup (t.dropWhile notFragmentDelimiter)).mapM
        (decodeQueryOrFragment · .fragment) = .ok fragment := by
  have htake := List.take_getD_findIdx? (p := (· = '#')) t
  have hdrop := List.drop_getD_findIdx? (p := (· = '#')) t
  unfold parseFragment at h
  split at h
  · next i hi =>
    obtain ⟨f, hf, hpure⟩ := Except.bind_eq_ok.mp h
    obtain ⟨rfl, rfl⟩ := Prod.mk.inj (Except.ok.inj hpure)
    obtain ⟨hlt, hhash, -⟩ := List.findIdx?_eq_some_iff_getElem.mp hi
    rw [hi, Option.getD_some] at htake hdrop
    have hd : t.drop i = '#' :: t.drop (i + 1) := by
      rw [List.drop_eq_getElem_cons hlt, show t[i] = '#' by simpa using hhash]
    refine ⟨htake, ?_⟩
    rw [show t.dropWhile notFragmentDelimiter = t.drop i from hdrop.symm, hd]
    simp [fragmentGroup, hf]
  · next hnone =>
    obtain ⟨rfl, rfl⟩ := Prod.mk.inj (Except.ok.inj h)
    have hall : ∀ c ∈ t, notFragmentDelimiter c = true := fun c hc => by
      simpa [notFragmentDelimiter] using List.findIdx?_eq_none_iff.mp hnone c hc
    refine ⟨(List.takeWhile_eq_self_iff.mpr hall).symm, ?_⟩
    rw [List.dropWhile_eq_nil_iff.mpr hall]
    rfl

/-- **The query is group 7.** -/
theorem parseQuery_eq_ok {t : List Char} (ht : ∀ c ∈ t.head?, c = '?' ∨ c = '#')
    {query : Option (List UInt8)}
    (h : parseQuery (t.takeWhile notFragmentDelimiter) = .ok query) :
    (queryGroup t).1.mapM (decodeQueryOrFragment · .query) = .ok query ∧
      (queryGroup t).2 = t.dropWhile notFragmentDelimiter := by
  cases t with
  | nil => exact ⟨by simpa [parseQuery, queryGroup] using h, rfl⟩
  | cons c r =>
    rcases ht c rfl with rfl | rfl
    · -- a `?`: the query runs to the first `#`
      have htw : ('?' :: r).takeWhile notFragmentDelimiter =
          '?' :: r.takeWhile notFragmentDelimiter := by
        simp [notFragmentDelimiter]
      rw [htw] at h
      obtain ⟨q, hq, hpure⟩ := Except.bind_eq_ok.mp h
      obtain rfl := Except.ok.inj hpure
      have hq' : decodeQueryOrFragment (r.takeWhile notFragmentDelimiter) .query = .ok q := hq
      refine ⟨?_, by simp [queryGroup, notFragmentDelimiter]⟩
      simp only [queryGroup, Option.mapM_some, hq']
      rfl
    · -- a `#`: no query
      have htw : ('#' :: r).takeWhile notFragmentDelimiter = [] := by
        simp [notFragmentDelimiter]
      rw [htw] at h
      exact ⟨by simpa [parseQuery, queryGroup] using h, by simp [queryGroup, notFragmentDelimiter]⟩

/-! ### The whole reference -/

/-- `Uri::parse` succeeds when each of its parts does, on the pieces it cuts. -/
theorem parse_eq_ok_parts {s : List Char} {u : Uri} (h : parse s = .ok u) :
    ∃ rest possibleQuery, parseScheme s = .ok (u.scheme, rest) ∧
      splitAuthorityFromPathAndParseThem (rest.takeWhile notPathDelimiter) =
        .ok (u.authority, u.path) ∧
      parseFragment (rest.dropWhile notPathDelimiter) = .ok (u.fragment, possibleQuery) ∧
      parseQuery possibleQuery = .ok u.query := by
  simp only [parse, List.take_getD_findIdx?, List.drop_getD_findIdx?] at h
  obtain ⟨⟨scheme, rest⟩, h₁, h⟩ := Except.bind_eq_ok.mp h
  obtain ⟨⟨authority, path⟩, h₂, h⟩ := Except.bind_eq_ok.mp h
  obtain ⟨⟨fragment, possibleQuery⟩, h₃, h⟩ := Except.bind_eq_ok.mp h
  obtain ⟨query, h₄, h⟩ := Except.bind_eq_ok.mp h
  obtain rfl := Except.ok.inj h
  exact ⟨rest, possibleQuery, h₁, h₂, h₃, h₄⟩

/-- **`Uri::parse` splits as Appendix B does**: when it succeeds, its scheme is group 2
lower-cased, its authority is group 4 parsed by `Authority::parse` (the userinfo decoded
before the first `@`, then host and port), its path is group 5 read by `PathOfGroup`, and its
query and fragment are groups 7 and 9 decoded, each present exactly when its group is. -/
theorem parse_eq_ok_appendixB {s : List Char} {u : Uri} (h : parse s = .ok u) :
    u.scheme = (appendixB s).scheme.map (List.map Char.toLower) ∧
      (appendixB s).authority.mapM Authority.parse = .ok u.authority ∧
      PathOfGroup u.authority.isSome (appendixB s).path u.path ∧
      (appendixB s).query.mapM (decodeQueryOrFragment · .query) = .ok u.query ∧
      (appendixB s).fragment.mapM (decodeQueryOrFragment · .fragment) = .ok u.fragment := by
  obtain ⟨rest, possibleQuery, hscheme, hsplit, hfragment, hquery⟩ := parse_eq_ok_parts h
  obtain ⟨g, hg, hsch⟩ := schemeGroup_of_parseScheme hscheme
  obtain ⟨hauth, hpath⟩ := authorityGroup_of_split hsplit
  obtain ⟨rfl, hfrag⟩ := parseFragment_eq_ok hfragment
  have hhead : ∀ c ∈ (rest.dropWhile notPathDelimiter).head?, c = '?' ∨ c = '#' := by
    intro c hc
    have h := List.head?_dropWhile_not notPathDelimiter rest
    rw [hc] at h
    simp only [notPathDelimiter, Bool.not_eq_false', decide_eq_true_eq] at h
    exact h
  obtain ⟨hq, hq2⟩ := parseQuery_eq_ok hhead hquery
  simp only [appendixB, hg, dropWhile_authorityGroup]
  exact ⟨hsch, hauth, hpath, hq, by rw [hq2]; exact hfrag⟩

/-! ### Against the pct-encoded language

`decode_element` reads an element as a word of the pct-encoded language followed by an
unfinished escape (`Rhymuri.decodeElement_eq_ok_iff`), so each component `Uri::parse` decodes
is its group in that language, up to a `%`, or a `%` and one digit, at its very end, which is
dropped. -/

/-- How an authority is read from group 4: with an `@`, the userinfo is the text before the
first one, decoded, and the host and the port are parsed from what follows it; without one,
there is no userinfo, and the host and the port are parsed from the whole group. -/
def AuthorityDecodes (group : List Char) (a : Authority) : Prop :=
  ('@' ∉ group → a.userinfo = none ∧ parseHostPort group = .ok (a.host, a.port)) ∧
  ('@' ∈ group → ∃ userinfo, a.userinfo = some userinfo ∧
    DecodesUpToTruncation userInfoNotPctEncoded (group.takeWhile fun c => !decide (c = '@'))
      userinfo ∧
    parseHostPort (group.dropWhile fun c => !decide (c = '@')).tail = .ok (a.host, a.port))

/-- How a path is read from group 5, in the pct-encoded language: the empty path is `[]`, or
`[""]` after an authority, `/` is `[""]`, and any other path is split at `/`, each segment a
pct-encoded word, up to an unfinished escape at its end, standing for its bytes. -/
def PathDecodes (hasAuthority : Bool) (group : List Char) (path : List (List UInt8)) : Prop :=
  (group = [] → path = if hasAuthority then [[]] else []) ∧
  (group = ['/'] → path = [[]]) ∧
  (group ≠ [] → group ≠ ['/'] →
    List.Forall₂ (DecodesUpToTruncation pcharNotPctEncoded) (group.splitOn '/') path)

/-- `Authority::parse` reads group 4 as `AuthorityDecodes` says. -/
theorem authorityDecodes_of_parse {g : List Char} {a : Authority}
    (h : Authority.parse g = .ok a) : AuthorityDecodes g a := by
  unfold Authority.parse at h
  obtain ⟨⟨userinfo, rest⟩, hu, h⟩ := Except.bind_eq_ok.mp h
  obtain ⟨⟨host, port⟩, hhp, h⟩ := Except.bind_eq_ok.mp h
  cases h
  have htake := List.take_getD_findIdx? (p := (· = '@')) g
  have hdrop := List.drop_getD_findIdx? (p := (· = '@')) g
  unfold Authority.parseUserinfo at hu
  split at hu
  · next k hk =>
    -- an `@`: the userinfo before it, the host and the port after it
    obtain ⟨ui, hui, hu⟩ := Except.bind_eq_ok.mp hu
    cases hu
    obtain ⟨hlt, hat, -⟩ := List.findIdx?_eq_some_iff_getElem.mp hk
    have hmem : '@' ∈ g := by
      have := List.getElem_mem hlt
      rwa [show g[k] = '@' by simpa using hat] at this
    rw [hk, Option.getD_some] at htake hdrop
    refine ⟨fun hn => absurd hmem hn, fun _ => ⟨ui, rfl, ?_, ?_⟩⟩
    · rw [← htake]
      exact (decodeElement_eq_ok_iff (by decide) _ _).mp hui
    · rw [← hdrop, List.tail_drop]
      exact hhp
  · next hnone =>
    -- no `@`: no userinfo, and the whole group is the host and the port
    cases hu
    have hmem : '@' ∉ g := fun hm => by
      simpa using List.findIdx?_eq_none_iff.mp hnone '@' hm
    exact ⟨fun _ => ⟨rfl, hhp⟩, fun hm => absurd hm hmem⟩

/-- `parse_path` reads group 5 as `PathDecodes` says. -/
theorem pathDecodes_of_pathOfGroup {hasAuthority : Bool} {group : List Char}
    {path : List (List UInt8)} (h : PathOfGroup hasAuthority group path) :
    PathDecodes hasAuthority group path :=
  ⟨h.1, h.2.1, fun h1 h2 => List.forall₂_of_mapM_except_eq_ok
    (fun e d => (decodeElement_eq_ok_iff (by decide) e d).mp) (h.2.2 h1 h2)⟩

/-- **`Uri::parse` splits as Appendix B does, and decodes each group in the pct-encoded
language**: when it succeeds, its scheme is group 2 lower-cased; it has an authority exactly
when group 3 is there, whose userinfo is the text before the first `@` of group 4, decoded,
and whose host and port are parsed from the rest; its path is group 5 read by
`PathDecodes`; and its query and fragment are groups 7 and 9 decoded, each there exactly when
its group is. Each decoded element is a pct-encoded word standing for the bytes, followed by
nothing, or by an unfinished escape that the parser drops. -/
theorem parse_eq_ok_appendixB_decodes {s : List Char} {u : Uri} (h : parse s = .ok u) :
    u.scheme = (appendixB s).scheme.map (List.map Char.toLower) ∧
      Option.Rel AuthorityDecodes (appendixB s).authority u.authority ∧
      PathDecodes u.authority.isSome (appendixB s).path u.path ∧
      Option.Rel (DecodesUpToTruncation queryOrFragmentNotPctEncoded) (appendixB s).query
        u.query ∧
      Option.Rel (DecodesUpToTruncation queryOrFragmentNotPctEncoded) (appendixB s).fragment
        u.fragment := by
  obtain ⟨hscheme, hauthority, hpath, hquery, hfragment⟩ := parse_eq_ok_appendixB h
  -- each group is read by its own parser, and each parser establishes its reading
  exact ⟨hscheme,
    Option.rel_of_mapM_except_eq_ok (fun _ _ => authorityDecodes_of_parse) hauthority,
    pathDecodes_of_pathOfGroup hpath,
    Option.rel_of_mapM_except_eq_ok (fun e d => (decodeElement_eq_ok_iff (by decide) e d).mp)
      hquery,
    Option.rel_of_mapM_except_eq_ok (fun e d => (decodeElement_eq_ok_iff (by decide) e d).mp)
      hfragment⟩

/-- `//u%41@h/a`: the userinfo `uA` and the host `h`. -/
theorem parse_eq_ok_appendixB_decodes_userinfo :
    Option.Rel AuthorityDecodes
      (appendixB ['/', '/', 'u', '%', '4', '1', '@', 'h', '/', 'a']).authority
      (some ⟨some [117, 65], [104], none⟩) :=
  (parse_eq_ok_appendixB_decodes (s := ['/', '/', 'u', '%', '4', '1', '@', 'h', '/', 'a'])
    (u := ⟨none, some ⟨some [117, 65], [104], none⟩, [[], [97]], none, none⟩) (by decide)).2.1

/-- **A truncated escape is dropped from the path**: `Uri::parse` accepts `/a%` and gives it
the path `["", "a"]` it gives `/a`, although the last piece of group 5, `a%`, is no word of the
pct-encoded language: its `%` starts no triple. The `%` is neither decoded nor rejected, as
in `decode_element` (`Rhymuri.decodeElement_percent_truncated`). -/
theorem parse_path_truncated_escape :
    parse ['/', 'a', '%'] = .ok ⟨none, none, [[], [97]], none, none⟩ ∧
      (appendixB ['/', 'a', '%']).path.splitOn '/' = [[], ['a', '%']] ∧
      (∀ d, ¬ PctDecodes pcharNotPctEncoded ['a', '%'] d) ∧
      parse ['/', 'a', '%'] = parse ['/', 'a'] := by
  refine ⟨by decide, by decide, fun d h => ?_, by decide⟩
  -- `a` is its own byte, and what is left, `%`, is no triple
  obtain ⟨-, d', -, hd'⟩ := (pctDecodes_cons_of_ne (by decide)).mp h
  obtain ⟨_, _, _, _, _, _, _, _, he, -⟩ := pctDecodes_percent (by decide) hd'
  exact List.cons_ne_nil _ _ he.symm

end Uri

end Rhymuri
