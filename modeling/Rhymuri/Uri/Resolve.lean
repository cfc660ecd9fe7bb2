import Rhymuri.Uri.Basic
import Rhymuri.Uri.Path
import Rhymuri.Rfc.Resolve

/-!
# Reference resolution

`Uri::resolve` follows the case analysis of RFC 3986 section 5.2.2 on the segment lists
of `src/uri.rs`: the merge of section 5.2.3 is the base's path without its last segment,
unless it has only one, followed by the reference's segments, and `remove_dot_segments`
is `Uri::normalize_path`.

A URI is read as the five components of the RFC by `Rhymuri.Uri.toReference`, with its
path as its path string and an empty path under an authority as `/`, which is how the
parser reads it. Under that reading:

* the scheme, the authority, the query and the fragment of the result are those of the
  RFC's target, for every base and every reference
  (`Rhymuri.Uri.toReference_resolve_except_path`);
* so is the path in the main case, a relative path merged with an absolute base path, when
  the segments meet the conditions under which `normalize_path` is `remove_dot_segments`
  (`Rhymuri.Uri.pathString_resolve_merge`);
* a reference whose path starts with `/` keeps its path as it is, dot segments included,
  where the RFC removes them (`Rhymuri.Uri.resolve_absolute_path_dot`).
-/

namespace Rhymuri

namespace Uri

/-- `Uri::resolve`: the target of `relativeReference` against the base `self`. -/
def resolve (self relativeReference : Uri) : Uri :=
  let (scheme, authority, path, query) :=
    if relativeReference.scheme.isSome then
      (relativeReference.scheme, relativeReference.authority,
        normalizePath relativeReference.path, relativeReference.query)
    else
      match relativeReference.authority with
      | none =>
        let scheme := self.scheme
        let authority := self.authority
        if relativeReference.path.isEmpty then
          let path := self.path
          let query :=
            if relativeReference.query.isNone then self.query else relativeReference.query
          (scheme, authority, path, query)
        else
          let query := relativeReference.query
          -- "if (R.path starts-with "/") then"
          if isPathAbsolute relativeReference.path then
            (scheme, authority, relativeReference.path, query)
          else
            -- "T.path = merge(Base.path, R.path);"
            let path := if self.path.length > 1 then self.path.dropLast else self.path
            let path := path ++ relativeReference.path
            (scheme, authority, normalizePath path, query)
      | some authority =>
        (self.scheme, some authority, normalizePath relativeReference.path,
          relativeReference.query)
  { scheme, authority, path, query, fragment := relativeReference.fragment }

/-! ### The branches of `resolve` -/

section Branches

variable {base r : Uri}

/-- A reference with a scheme is its own target, its path normalized. -/
theorem resolve_of_scheme (h : r.scheme.isSome) :
    base.resolve r = { r with path := normalizePath r.path } := by
  simp only [resolve, h, if_true]

/-- A reference with an authority and no scheme: the base's scheme, and the rest the
reference's, its path normalized. -/
theorem resolve_of_authority {a : Authority} (hs : r.scheme = none) (ha : r.authority = some a) :
    base.resolve r = { r with scheme := base.scheme, path := normalizePath r.path } := by
  simp only [resolve, hs, ha, Option.isSome_none, Bool.false_eq_true, if_false]

/-- No scheme, no authority and the empty path: the base, with the reference's query if it
has one, and the reference's fragment. -/
theorem resolve_of_path_nil (hs : r.scheme = none) (ha : r.authority = none) (hp : r.path = []) :
    base.resolve r =
      { base with query := if r.query.isNone then base.query else r.query, fragment := r.fragment } := by
  simp only [resolve, hs, ha, hp, Option.isSome_none, Bool.false_eq_true, if_false, List.isEmpty_nil, if_true]

/-- A path that starts with `/`: the base's scheme and authority, and the reference's path as
it is. -/
theorem resolve_of_isPathAbsolute (hs : r.scheme = none) (ha : r.authority = none) (hp : r.path ≠ [])
    (habs : isPathAbsolute r.path = true) :
    base.resolve r = { base with path := r.path, query := r.query, fragment := r.fragment } := by
  simp only [resolve, hs, ha, Option.isSome_none, Bool.false_eq_true, if_false, habs, if_true,
    List.isEmpty_iff, hp]

/-- A relative path: merged with the base's, then normalized. -/
theorem resolve_of_merge (hs : r.scheme = none) (ha : r.authority = none) (hp : r.path ≠ [])
    (habs : isPathAbsolute r.path = false) :
    base.resolve r = { base with
      path := normalizePath ((if base.path.length > 1 then base.path.dropLast else base.path) ++ r.path),
      query := r.query, fragment := r.fragment } := by
  simp only [resolve, hs, ha, Option.isSome_none, Bool.false_eq_true, if_false, habs,
    List.isEmpty_iff, hp]

end Branches

/-- A URI read as the five components of RFC 3986 section 5.2.1: its path as its path
string, with an empty path under an authority read as `/`. -/
def toReference (u : Uri) : Rfc.Reference (List Char) Authority :=
  ⟨u.scheme, u.authority,
    if u.authority.isSome && u.path.isEmpty then [47] else pathString u.path, u.query,
    u.fragment⟩

@[simp]
theorem toReference_scheme (u : Uri) : u.toReference.scheme = u.scheme := rfl

@[simp]
theorem toReference_authority (u : Uri) : u.toReference.authority = u.authority := rfl

@[simp]
theorem toReference_query (u : Uri) : u.toReference.query = u.query := rfl

@[simp]
theorem toReference_fragment (u : Uri) : u.toReference.fragment = u.fragment := rfl

/-- Without an authority, the path read is the path string. -/
theorem toReference_path_of_authority_none {u : Uri} (h : u.authority = none) :
    u.toReference.path = pathString u.path := by
  simp [toReference, h]

/-- **Resolution agrees with RFC 3986 on every component but the path**: the scheme, the
authority, the query and the fragment of the result are those of the RFC's target. -/
theorem toReference_resolve_except_path (base r : Uri) :
    { (base.resolve r).toReference with path := [] } =
      { Rfc.transformReferences base.toReference r.toReference with path := [] } := by
  rcases r with ⟨_ | s, _ | a, p, q, f⟩
  · -- no scheme and no authority: the query depends on whether the path is empty
    have hpath : (toReference ⟨none, none, p, q, f⟩).path = pathString p :=
      toReference_path_of_authority_none rfl
    by_cases hp : p = []
    · subst hp
      cases q <;> simp [resolve, toReference, Rfc.transformReferences]
    · have hp' : pathString p ≠ [] := fun h => hp (pathString_eq_nil_iff.mp h)
      simp only [resolve, Rfc.transformReferences, hpath, toReference_scheme,
        toReference_authority, Option.isSome_none, Bool.false_eq_true, if_false, hp',
        List.isEmpty_iff, hp]
      split_ifs <;> simp [toReference]
  · simp [resolve, toReference, Rfc.transformReferences]
  · simp [resolve, toReference, Rfc.transformReferences]
  · simp [resolve, toReference, Rfc.transformReferences]

/-- The RFC merges a reference without a scheme and an authority, whose path is relative
and does not start with a `/` byte, with the base. -/
theorem transformReferences_path_of_relative {base r : Uri} {t : List UInt8}
    {ts : List (List UInt8)} (hscheme : r.scheme = none) (hauthority : r.authority = none)
    (hr : r.path = t :: ts) (ht : t ≠ []) (h47 : 47 ∉ t) :
    (Rfc.transformReferences base.toReference r.toReference).path =
      Rfc.removeDotSegments (Rfc.merge base.toReference (t ++ Rfc.slashed ts)) := by
  have hrpath : r.toReference.path = t ++ Rfc.slashed ts := by
    rw [toReference_path_of_authority_none hauthority, hr, pathString_cons_of_ne_nil ht]
  have hhead : (t ++ Rfc.slashed ts).head? ≠ some 47 := by
    obtain ⟨c, t', rfl⟩ := List.exists_cons_of_ne_nil ht
    simp only [List.cons_append, List.head?_cons, ne_eq, Option.some.injEq]
    rintro rfl
    exact h47 List.mem_cons_self
  rw [Rfc.transformReferences, if_neg (by simp [hscheme]), if_neg (by simp [hauthority]),
    hrpath, if_neg (by simp [ht]), if_neg hhead]

/-- **Resolution by merging meets the RFC** on a relative reference path against an
absolute base path of at least two segments, when no segment holds a `/` and no segment
inside the merged path is empty. -/
theorem pathString_resolve_merge {base r : Uri} {bs : List (List UInt8)} {b t : List UInt8}
    {ts : List (List UInt8)} (hbase : base.path = [] :: (bs ++ [b]))
    (hscheme : r.scheme = none) (hauthority : r.authority = none) (hr : r.path = t :: ts)
    (ht : t ≠ []) (hslash : ∀ s ∈ bs ++ b :: t :: ts, 47 ∉ s)
    (hempty : ∀ s ∈ bs ++ (t :: ts).dropLast, s ≠ []) :
    pathString (base.resolve r).path =
      (Rfc.transformReferences base.toReference r.toReference).path := by
  have hslash' : ∀ s ∈ bs ++ t :: ts, 47 ∉ s := fun s hs => hslash s (by
    rcases List.mem_append.mp hs with hs | hs
    · exact List.mem_append_left _ hs
    · exact List.mem_append_right _ (List.mem_cons_of_mem b hs))
  have hb : 47 ∉ b := hslash b (by simp)
  have ht47 : 47 ∉ t := hslash t (by simp)
  -- the code: the base path without its last segment, then the reference's segments
  have hcode : (base.resolve r).path = normalizePath ([] :: (bs ++ t :: ts)) := by
    have hlen : base.path.length > 1 := by simp [hbase]
    have habs : isPathAbsolute (t :: ts) = false := by simpa [isPathAbsolute] using ht
    have hdrop : ([] :: (bs ++ [b])).dropLast = [] :: bs := by
      rw [← List.cons_append, List.dropLast_concat]
    simp only [resolve, hscheme, hauthority, hr, habs, hlen, Option.isSome_none,
      Bool.false_eq_true, if_false, List.isEmpty_cons, if_true]
    rw [hbase, hdrop]
    rfl
  -- the RFC: the reference's path after the base's path up to its last `/`
  have hbpath : base.toReference.path = Rfc.slashed (bs ++ [b]) := by
    rw [toReference, ← pathString_nil_cons (by simp), ← hbase]
    simp [hbase]
  have hrfc : (Rfc.transformReferences base.toReference r.toReference).path =
      Rfc.removeDotSegments (Rfc.slashed (bs ++ t :: ts)) := by
    rw [transformReferences_path_of_relative hscheme hauthority hr ht ht47,
      Rfc.merge_slashed hbpath hb]
    simp
  have hdropLast : (bs ++ t :: ts).dropLast = bs ++ (t :: ts).dropLast :=
    List.dropLast_append_of_ne_nil (List.cons_ne_nil t ts)
  rw [hcode, hrfc, pathString_normalizePath_nil_cons hslash' (hdropLast ▸ hempty),
    pathString_nil_cons (by simp)]

theorem pathString_resolve_merge_g :
    pathString (resolve ⟨some ['h'], some ⟨none, [97], none⟩, [[], [98], [99]], none, none⟩
        ⟨none, none, [[103]], none, none⟩).path =
      (Rfc.transformReferences
        (toReference ⟨some ['h'], some ⟨none, [97], none⟩, [[], [98], [99]], none, none⟩)
        (toReference ⟨none, none, [[103]], none, none⟩)).path := by
  have hslash : ∀ s ∈ [[98]] ++ [99] :: [103] :: [], (47 : UInt8) ∉ s := by
    intro s hs
    simp only [List.cons_append, List.nil_append, List.mem_cons, List.not_mem_nil,
      or_false] at hs
    rcases hs with rfl | rfl | rfl <;> decide
  have hempty : ∀ s ∈ [[98]] ++ ([103] :: ([] : List (List UInt8))).dropLast, s ≠ [] := by
    intro s hs
    simp only [List.dropLast_singleton, List.append_nil, List.mem_singleton] at hs
    rw [hs]
    exact List.cons_ne_nil _ _
  exact @pathString_resolve_merge _ _ [[98]] [99] [103] [] rfl rfl rfl rfl (List.cons_ne_nil _ _)
    hslash hempty

/-- **A reference path that starts with `/` keeps its dot segments**: against
`http://a/b/c/d;p?q`, the reference `/./g` resolves to the path `/./g`, where the RFC gives
`/g` (section 5.4.2); so does `Uri::Resolve` of `src/Uri.cpp`, which normalizes the path in
this branch as in the others. -/
theorem resolve_absolute_path_dot :
    (resolve
        ⟨some ['h', 't', 't', 'p'], some ⟨none, [97], none⟩, [[], [98], [99], [100, 59, 112]],
          some [113], none⟩
        ⟨none, none, [[], [46], [103]], none, none⟩).path = [[], [46], [103]] ∧
      (Rfc.transformReferences
        (toReference
          ⟨some ['h', 't', 't', 'p'], some ⟨none, [97], none⟩, [[], [98], [99], [100, 59, 112]],
            some [113], none⟩)
        (toReference ⟨none, none, [[], [46], [103]], none, none⟩)).path = [47, 103] := by
  refine ⟨rfl, ?_⟩
  have hpath : (toReference ⟨none, none, [[], [46], [103]], none, none⟩).path =
      Rfc.slashed [[46], [103]] := rfl
  have hhead : (Rfc.slashed [[46], [103]]).head? = some 47 := rfl
  rw [Rfc.transformReferences, if_neg (by simp), if_neg (by simp), hpath, if_neg (by simp),
    if_pos hhead, Rfc.removeDotSegments, ← Rfc.slashed_nil,
    Rfc.removeDotSegmentsLoop_slashed (by simp) (by simp)]
  rfl

end Uri

end Rhymuri
