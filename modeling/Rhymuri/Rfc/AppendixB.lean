import Mathlib.Data.List.Basic

/-!
# The components of a URI reference, after Appendix B

Appendix B of RFC 3986 splits a URI reference into its components with one pattern,

    ^(([^:/?#]+):)?(//([^/?#]*))?([^?#]*)(\?([^#]*))?(#(.*))?

whose group 2 is the scheme, group 4 the authority, group 5 the path, group 7 the query and
group 9 the fragment. Matched from the left, each optional group is taken when it can be
and each starred class runs as far as it can; no choice made this way is ever undone,
since what follows always matches. `Rhymuri.Rfc.appendixB` computes these choices one group
at a time, and `Rhymuri.Rfc.appendixB_reassemble` checks that the groups and their
delimiters make up the whole string.
-/

namespace Rhymuri

namespace Rfc

/-- `[^:/?#]`, the characters of a scheme in the pattern. -/
def notSchemeDelimiter (c : Char) : Bool := !decide (c = ':' ∨ c = '/' ∨ c = '?' ∨ c = '#')

/-- `[^/?#]`, the characters of an authority. -/
def notAuthorityDelimiter (c : Char) : Bool := !decide (c = '/' ∨ c = '?' ∨ c = '#')

/-- `[^?#]`, the characters of a path. -/
def notPathDelimiter (c : Char) : Bool := !decide (c = '?' ∨ c = '#')

/-- `[^#]`, the characters of a query. -/
def notFragmentDelimiter (c : Char) : Bool := !decide (c = '#')

/-- The groups of the pattern that hold the components: each optional one is `none` when
its group did not match. -/
structure Components where
  /-- Group 2. -/
  scheme : Option (List Char)
  /-- Group 4. -/
  authority : Option (List Char)
  /-- Group 5. -/
  path : List Char
  /-- Group 7. -/
  query : Option (List Char)
  /-- Group 9. -/
  fragment : Option (List Char)
  deriving DecidableEq, Repr

/-- Groups 1 and 2, `(([^:/?#]+):)?`: a nonempty run of scheme characters followed by `:`,
and what follows. -/
def schemeGroup (s : List Char) : Option (List Char) × List Char :=
  match s.takeWhile notSchemeDelimiter, s.dropWhile notSchemeDelimiter with
  | _ :: _, ':' :: rest => (some (s.takeWhile notSchemeDelimiter), rest)
  | _, _ => (none, s)

/-- Groups 3 and 4, `(//([^/?#]*))?`. -/
def authorityGroup (s : List Char) : Option (List Char) × List Char :=
  match s with
  | '/' :: '/' :: rest =>
    (some (rest.takeWhile notAuthorityDelimiter), rest.dropWhile notAuthorityDelimiter)
  | _ => (none, s)

/-- Groups 6 and 7, `(\?([^#]*))?`. -/
def queryGroup (s : List Char) : Option (List Char) × List Char :=
  match s with
  | '?' :: rest => (some (rest.takeWhile notFragmentDelimiter), rest.dropWhile notFragmentDelimiter)
  | _ => (none, s)

/-- Groups 8 and 9, `(#(.*))?`. -/
def fragmentGroup (s : List Char) : Option (List Char) :=
  match s with
  | '#' :: rest => some rest
  | _ => none

/-- **The pattern of Appendix B**, matched group by group. -/
def appendixB (s : List Char) : Components :=
  let afterScheme := schemeGroup s
  let afterAuthority := authorityGroup afterScheme.2
  let afterPath := afterAuthority.2.dropWhile notPathDelimiter
  let afterQuery := queryGroup afterPath
  ⟨afterScheme.1, afterAuthority.1, afterAuthority.2.takeWhile notPathDelimiter, afterQuery.1,
    fragmentGroup afterQuery.2⟩

example : appendixB ['h', ':', '/', '/', 'a', '/', 'b', '?', 'q', '#', 'f'] =
    ⟨some ['h'], some ['a'], ['/', 'b'], some ['q'], some ['f']⟩ := by
  decide

/-! ### The groups make up the string -/

/-- A component with the delimiter that introduces or ends it, or nothing. -/
def withDelimiter (f : List Char → List Char) : Option (List Char) → List Char
  | some x => f x
  | none => []

theorem schemeGroup_reassemble (s : List Char) :
    withDelimiter (· ++ [':']) (schemeGroup s).1 ++ (schemeGroup s).2 = s := by
  unfold schemeGroup
  split
  · next _ _ _ _ rest _ hdrop =>
    calc withDelimiter (· ++ [':']) (some (s.takeWhile notSchemeDelimiter)) ++ rest
        = s.takeWhile notSchemeDelimiter ++ ':' :: rest := by simp [withDelimiter]
      _ = s := by rw [← hdrop, List.takeWhile_append_dropWhile]
  · rfl

theorem authorityGroup_reassemble (s : List Char) :
    withDelimiter (fun a => '/' :: '/' :: a) (authorityGroup s).1 ++ (authorityGroup s).2 =
      s := by
  unfold authorityGroup
  split
  · simp [withDelimiter]
  · rfl

theorem queryGroup_reassemble (s : List Char) :
    withDelimiter ('?' :: ·) (queryGroup s).1 ++ (queryGroup s).2 = s := by
  unfold queryGroup
  split
  · simp [withDelimiter]
  · rfl

/-- After the query, what is left is empty or starts with `#`. -/
theorem head_queryGroup_dropWhile (s : List Char) :
    ∀ c ∈ (queryGroup (s.dropWhile notPathDelimiter)).2.head?, c = '#' := by
  have hpath := List.head?_dropWhile_not notPathDelimiter s
  generalize s.dropWhile notPathDelimiter = t at hpath ⊢
  cases t with
  | nil => simp [queryGroup]
  | cons d rest =>
    intro c hc
    by_cases hd : d = '?'
    · -- the query runs up to the first `#`
      subst hd
      have hq := List.head?_dropWhile_not notFragmentDelimiter rest
      simp only [queryGroup] at hc
      rw [hc] at hq
      simpa [notFragmentDelimiter] using hq
    · -- no query: a path delimiter other than `?` is `#`
      have hq : queryGroup (d :: rest) = (none, d :: rest) := by simp [queryGroup, hd]
      rw [hq, List.head?_cons, Option.mem_some_iff] at hc
      subst hc
      simp only [List.head?_cons, notPathDelimiter, Bool.not_eq_false',
        decide_eq_true_eq] at hpath
      exact hpath.resolve_left hd

theorem fragmentGroup_reassemble {s : List Char} (h : ∀ c ∈ s.head?, c = '#') :
    withDelimiter ('#' :: ·) (fragmentGroup s) = s := by
  cases s with
  | nil => rfl
  | cons c rest =>
    obtain rfl : c = '#' := h c rfl
    rfl

/-- **The groups and their delimiters make up the string**: the pattern matches all of it. -/
theorem appendixB_reassemble (s : List Char) :
    withDelimiter (· ++ [':']) (appendixB s).scheme ++
      withDelimiter (fun a => '/' :: '/' :: a) (appendixB s).authority ++ (appendixB s).path ++
      withDelimiter ('?' :: ·) (appendixB s).query ++
      withDelimiter ('#' :: ·) (appendixB s).fragment = s := by
  simp only [appendixB]
  rw [fragmentGroup_reassemble (head_queryGroup_dropWhile _), List.append_assoc _ _
    (queryGroup _).2, queryGroup_reassemble, List.append_assoc _ _ (List.dropWhile _ _),
    List.takeWhile_append_dropWhile, List.append_assoc _ _ (authorityGroup _).2,
    authorityGroup_reassemble, schemeGroup_reassemble]

end Rfc

end Rhymuri
