import Rhymuri.Cpp.Translation
import Rhymuri.Uri.Resolve
import Rhymuri.Uri.Normalize

/-!
# The C++ `NormalizePath` and `Resolve`, against the crate's

`Uri::Impl::NormalizePath` of `src/Uri.cpp` runs the loop of the crate's `normalize_path` on
strings, with the same flag; only its test for going up a level is written differently
(`CanNavigatePathUpOneLevel`: not absolute, or more than one segment). `Uri::Resolve` follows
the case analysis of RFC 3986 section 5.2.2 with the `Copy` helpers of `Uri::Impl`, testing
whether a component is there by whether its string is empty.

A URI of the crate stands for the fields of `Uri::Impl` that hold its components
(`Rhymuri.Cpp.Impl.ofUri`): a byte is the `char` of that code, and an absent component is
the empty string, with its flag down. Read so:

* the two normalizations are the same function of the path
  (`Rhymuri.Cpp.Impl.normalizePath_ofUri`), one step of one loop standing for one step of
  the other (`Rhymuri.Cpp.NormalizeLocals.next_ofState`);
* the two resolutions agree, but for a reference whose path starts with `/`, which the C++
  resolution normalizes, as the RFC asks, and the crate's does not
  (`Rhymuri.Cpp.Impl.resolve_ofUri`). They agree only where the tests by emptiness mean what
  the crate's tests by `Option` mean: a reference whose scheme, host or query (when the
  query decides) is there but empty is read by the C++ code as one without it.

Each resolution is first computed on each of its five branches (scheme, authority, empty
path, absolute path, merge: `Rhymuri.Cpp.Impl.resolve_of_merge` and
`Rhymuri.Uri.resolve_of_merge`, and their siblings), and the agreement is proved branch by
branch from them.
-/

namespace Rhymuri

namespace Cpp

/-! ### Paths -/

/-- `Impl::IsPathAbsolute`. -/
def isPathAbsolute (path : List (List Char)) : Bool := !path.isEmpty && path.head? == some []

/-- `Impl::CanNavigatePathUpOneLevel`. -/
def canNavigatePathUpOneLevel (path : List (List Char)) : Bool :=
  !isPathAbsolute path || decide (path.length > 1)

/-- The variables of the loop of `Impl::NormalizePath`. -/
structure NormalizeLocals where
  /-- `atDirectoryLevel`. -/
  atDirectoryLevel : Bool
  /-- `path`, rebuilt. -/
  path : List (List Char)
  deriving DecidableEq, Repr

namespace NormalizeLocals

/-- The body of the loop of `Impl::NormalizePath`, on one segment. -/
def next (l : NormalizeLocals) (segment : List Char) : NormalizeLocals :=
  if segment = ['.'] then { l with atDirectoryLevel := true }
  else if segment = ['.', '.'] then
    -- remove the last path element, if we can navigate up a level
    { atDirectoryLevel := true
      path :=
        if !l.path.isEmpty then
          if canNavigatePathUpOneLevel l.path then l.path.dropLast else l.path
        else l.path }
  else
    { atDirectoryLevel := segment.isEmpty
      path := if !l.atDirectoryLevel || !segment.isEmpty then l.path ++ [segment] else l.path }

/-- The step after the loop of `Impl::NormalizePath`: a path at a directory level ends with
an empty segment. -/
def finish (l : NormalizeLocals) : List (List Char) :=
  if l.atDirectoryLevel && (!l.path.isEmpty && !(l.path.getLastD []).isEmpty) then l.path ++ [[]]
  else l.path

end NormalizeLocals

/-- `Impl::NormalizePath`. -/
def Impl.normalizePath (impl : Impl) : Impl :=
  { impl with path := (impl.path.foldl NormalizeLocals.next ⟨false, []⟩).finish }

/-! ### `Resolve` -/

/-- `Impl::CopyScheme`. -/
def Impl.copyScheme (impl other : Impl) : Impl := { impl with scheme := other.scheme }

/-- `Impl::CopyAuthority`. -/
def Impl.copyAuthority (impl other : Impl) : Impl :=
  { impl with host := other.host, userInfo := other.userInfo, hasPort := other.hasPort,
              port := other.port }

/-- `Impl::CopyPath`. -/
def Impl.copyPath (impl other : Impl) : Impl := { impl with path := other.path }

/-- `Impl::CopyAndNormalizePath`. -/
def Impl.copyAndNormalizePath (impl other : Impl) : Impl := (impl.copyPath other).normalizePath

/-- `Impl::CopyQuery`. -/
def Impl.copyQuery (impl other : Impl) : Impl :=
  { impl with hasQuery := other.hasQuery, query := other.query }

/-- `Impl::CopyFragment`. -/
def Impl.copyFragment (impl other : Impl) : Impl :=
  { impl with hasFragment := other.hasFragment, fragment := other.fragment }

/-- `Uri::Resolve`: the target of `relativeReference` against the base `self`, built in a
fresh `Uri`. -/
def Impl.resolve (self relativeReference : Impl) : Impl :=
  let target :=
    if !relativeReference.scheme.isEmpty then
      (((Impl.new.copyScheme relativeReference).copyAuthority relativeReference).copyAndNormalizePath
        relativeReference).copyQuery relativeReference
    else
      let target :=
        if !relativeReference.host.isEmpty then
          ((Impl.new.copyAuthority relativeReference).copyAndNormalizePath
            relativeReference).copyQuery relativeReference
        else
          let target :=
            if relativeReference.path.isEmpty then
              let target := { Impl.new with path := self.path }
              if !relativeReference.query.isEmpty then target.copyQuery relativeReference
              else target.copyQuery self
            else
              let target :=
                -- "if (R.path starts-with "/") then"
                if isPathAbsolute relativeReference.path then
                  Impl.new.copyAndNormalizePath relativeReference
                else
                  -- "T.path = merge(Base.path, R.path);"
                  let target := Impl.new.copyPath self
                  let target :=
                    if target.path.length > 1 then { target with path := target.path.dropLast }
                    else target
                  { target with path := target.path ++ relativeReference.path }.normalizePath
              target.copyQuery relativeReference
          target.copyAuthority self
      target.copyScheme self
  target.copyFragment relativeReference

/-! #### The branches of `Uri::Resolve` -/

section Branches

variable {self r : Impl}

/-- `Uri::Resolve` with a scheme: the reference, its path normalized. -/
theorem Impl.resolve_of_scheme (h : r.scheme ≠ []) : self.resolve r = r.normalizePath := by
  rw [Impl.resolve, if_pos (by simpa using h)]
  rfl

/-- `Uri::Resolve` with a host and no scheme: the base's scheme, and the rest the reference's,
its path normalized. -/
theorem Impl.resolve_of_host (hs : r.scheme = []) (hh : r.host ≠ []) :
    self.resolve r = (r.copyScheme self).normalizePath := by
  rw [Impl.resolve, if_neg (by simp [hs])]
  dsimp only
  rw [if_pos (by simpa using hh)]
  rfl

/-- `Uri::Resolve` with no scheme, no host and the empty path: the base, with the reference's
query if it is not empty, and the reference's fragment. -/
theorem Impl.resolve_of_path_nil (hs : r.scheme = []) (hh : r.host = []) (hp : r.path = []) :
    self.resolve r = (self.copyQuery (if r.query.isEmpty then self else r)).copyFragment r := by
  rw [Impl.resolve, if_neg (by simp [hs])]
  dsimp only
  rw [if_neg (by simp [hh]), if_pos (by simp [hp])]
  cases r.query.isEmpty <;> rfl

/-- `Uri::Resolve` with a path that starts with `/`: the base's scheme and authority, and the
reference's path normalized. -/
theorem Impl.resolve_of_isPathAbsolute (hs : r.scheme = []) (hh : r.host = []) (hp : r.path ≠ [])
    (habs : isPathAbsolute r.path = true) :
    self.resolve r = ((self.copyAndNormalizePath r).copyQuery r).copyFragment r := by
  rw [Impl.resolve, if_neg (by simp [hs])]
  dsimp only
  rw [if_neg (by simp [hh]), if_neg (by simpa using hp), if_pos habs]
  rfl

/-- `Uri::Resolve` with a relative path: merged with the base's, then normalized. -/
theorem Impl.resolve_of_merge (hs : r.scheme = []) (hh : r.host = []) (hp : r.path ≠ [])
    (habs : isPathAbsolute r.path = false) :
    self.resolve r = (({ self with path :=
      (if self.path.length > 1 then self.path.dropLast else self.path) ++ r.path }.normalizePath).copyQuery r).copyFragment r := by
  rw [Impl.resolve, if_neg (by simp [hs])]
  dsimp only
  rw [if_neg (by simp [hh]), if_neg (by simpa using hp), if_neg (by simp [habs])]
  -- the base's path is copied into a fresh object before its last segment is dropped
  have hcopy : (Impl.new.copyPath self).path = self.path := rfl
  simp only [hcopy]
  split_ifs <;> rfl

end Branches

/-! ### Paths as strings -/

theorem ofBytes_eq_dot_iff {b : List UInt8} : ofBytes b = ['.'] ↔ b = [46] :=
  ofBytes_inj (b := [46])

theorem ofBytes_eq_dotDot_iff {b : List UInt8} : ofBytes b = ['.', '.'] ↔ b = [46, 46] :=
  ofBytes_inj (b := [46, 46])

@[simp]
theorem isPathAbsolute_map_ofBytes (p : List (List UInt8)) :
    isPathAbsolute (p.map ofBytes) = Uri.isPathAbsolute p := by
  cases p with
  | nil => rfl
  | cons s ps => simp [isPathAbsolute, Uri.isPathAbsolute]

/-- The two tests for going up a level agree on a path that is not empty, the only one they
are asked about. -/
theorem canNavigatePathUpOneLevel_map_ofBytes {p : List (List UInt8)} (hp : p ≠ []) :
    canNavigatePathUpOneLevel (p.map ofBytes) = Uri.canNavigatePathUpOneLevel p := by
  obtain ⟨s, ps, rfl⟩ := List.exists_cons_of_ne_nil hp
  by_cases hs : s = [] <;> simp [canNavigatePathUpOneLevel, isPathAbsolute,
    Uri.canNavigatePathUpOneLevel, hs]

/-! ### The two normalizations -/

namespace NormalizeLocals

/-- The C++ loop variables that stand for those of the crate's loop. -/
def ofState (state : Uri.NormalizeState) : NormalizeLocals :=
  ⟨state.atDirectoryLevel, state.normalizedPath.map ofBytes⟩

/-- **One step of the C++ loop stands for one step of the crate's.** -/
theorem next_ofState (state : Uri.NormalizeState) (segment : List UInt8) :
    (ofState state).next (ofBytes segment) = ofState (state.next segment) := by
  by_cases h1 : segment = [46]
  · -- `.`
    subst h1
    rfl
  by_cases h2 : segment = [46, 46]
  · -- `..`: both test a nonempty path, where their tests agree
    subst h2
    simp only [next, ofState, Uri.NormalizeState.next, ofBytes_eq_dot_iff, if_neg h1,
      ofBytes_eq_dotDot_iff, if_true, List.isEmpty_map]
    by_cases hp : state.normalizedPath = []
    · simp [hp]
    · simp only [canNavigatePathUpOneLevel_map_ofBytes hp]
      split_ifs <;> simp_all [List.map_dropLast]
  · -- any other segment
    simp only [next, ofState, Uri.NormalizeState.next, ofBytes_eq_dot_iff, if_neg h1,
      ofBytes_eq_dotDot_iff, if_neg h2, isEmpty_ofBytes]
    split_ifs <;> simp

/-- The last steps agree. -/
theorem finish_ofState (state : Uri.NormalizeState) :
    (ofState state).finish = state.finish.map ofBytes := by
  rcases List.eq_nil_or_concat' state.normalizedPath with hp | ⟨ps, s, hp⟩
  · simp [finish, Uri.NormalizeState.finish, ofState, hp]
  · cases hd : state.atDirectoryLevel <;>
      simp [finish, Uri.NormalizeState.finish, ofState, hp, hd, apply_ite (List.map ofBytes)]

end NormalizeLocals

open NormalizeLocals

/-- The C++ loop and its last step, on the segments as strings, give the crate's normalized
path as strings. -/
theorem normalize_map_ofBytes (p : List (List UInt8)) :
    ((p.map ofBytes).foldl NormalizeLocals.next ⟨false, []⟩).finish = (Uri.normalizePath p).map ofBytes := by
  have hinit : (⟨false, []⟩ : NormalizeLocals) = ofState ⟨false, []⟩ := rfl
  -- the C++ loop runs on the segments as strings, and steps as the crate's loop does
  have hloop : (p.map ofBytes).foldl NormalizeLocals.next ⟨false, []⟩ =
      ofState (p.foldl Uri.NormalizeState.next ⟨false, []⟩) := by
    rw [List.foldl_map, hinit]
    exact List.foldl_hom ofState fun state segment => next_ofState state segment
  rw [hloop, finish_ofState, Uri.normalizePath]

/-- **The C++ normalization is the crate's**: on the fields of any URI of the crate, it gives
the fields of the normalized URI. -/
theorem Impl.normalizePath_ofUri (u : Uri) :
    (Impl.ofUri u).normalizePath = Impl.ofUri u.normalize := by
  simp only [Impl.normalizePath, Impl.ofUri, normalize_map_ofBytes, Uri.normalize_path]
  rfl

/-! ### The two resolutions -/

section Branches

variable (base r : Uri)

/-- The branch with a scheme. -/
theorem Impl.resolve_ofUri_of_scheme {sc : List Char} (hs : r.scheme = some sc) (hsc : sc ≠ []) :
    (Impl.ofUri base).resolve (Impl.ofUri r) = Impl.ofUri (base.resolve r) := by
  rw [Impl.resolve_of_scheme (by simpa [hs] using hsc), Uri.resolve_of_scheme (by simp [hs])]
  simp only [Impl.normalizePath, Impl.ofUri, normalize_map_ofBytes]

/-- The branch with an authority and no scheme: a host that is there is not empty. -/
theorem Impl.resolve_ofUri_of_authority {a : Authority} (hs : r.scheme = none)
    (ha : r.authority = some a) (hh : a.host ≠ []) :
    (Impl.ofUri base).resolve (Impl.ofUri r) = Impl.ofUri (base.resolve r) := by
  rw [Impl.resolve_of_host (by simp [hs]) (by simpa [ha] using hh), Uri.resolve_of_authority hs ha]
  simp only [Impl.normalizePath, Impl.copyScheme, Impl.ofUri, normalize_map_ofBytes]

/-- The branch with the empty path: a query that is there is not empty. -/
theorem Impl.resolve_ofUri_of_path_nil (hs : r.scheme = none) (ha : r.authority = none)
    (hp : r.path = []) (hq : r.query ≠ some []) :
    (Impl.ofUri base).resolve (Impl.ofUri r) = Impl.ofUri (base.resolve r) := by
  rw [Impl.resolve_of_path_nil (by simp [hs]) (by simp [ha]) (by simp [hp]),
    Uri.resolve_of_path_nil hs ha hp]
  -- the C++ test for a query is by emptiness, the crate's by presence
  cases hr : r.query with
  | none => simp [Impl.copyQuery, Impl.copyFragment, Impl.ofUri, hr]
  | some q =>
    have hq' : q ≠ [] := fun h => hq (by rw [hr, h])
    simp [Impl.copyQuery, Impl.copyFragment, Impl.ofUri, hr, hq']

/-- The branch with a path that starts with `/`, which only the C++ resolution normalizes. -/
theorem Impl.resolve_ofUri_of_isPathAbsolute (hs : r.scheme = none) (ha : r.authority = none)
    (hp : r.path ≠ []) (habs : Uri.isPathAbsolute r.path = true) :
    (Impl.ofUri base).resolve (Impl.ofUri r) =
      Impl.ofUri { base.resolve r with path := Uri.normalizePath r.path } := by
  rw [Impl.resolve_of_isPathAbsolute (by simp [hs]) (by simp [ha]) (by simpa using hp)
      (by simpa using habs), Uri.resolve_of_isPathAbsolute hs ha hp habs]
  simp only [Impl.copyAndNormalizePath, Impl.copyPath, Impl.normalizePath, Impl.copyQuery,
    Impl.copyFragment, Impl.ofUri, normalize_map_ofBytes]

/-- The merge. -/
theorem Impl.resolve_ofUri_of_merge (hs : r.scheme = none) (ha : r.authority = none)
    (hp : r.path ≠ []) (habs : Uri.isPathAbsolute r.path = false) :
    (Impl.ofUri base).resolve (Impl.ofUri r) = Impl.ofUri (base.resolve r) := by
  rw [Impl.resolve_of_merge (by simp [hs]) (by simp [ha]) (by simpa using hp)
      (by simpa using habs), Uri.resolve_of_merge hs ha hp habs]
  -- both drop the last segment of a base path of more than one
  have hmerge : ((if (Impl.ofUri base).path.length > 1 then (Impl.ofUri base).path.dropLast
      else (Impl.ofUri base).path) ++ (Impl.ofUri r).path) =
      ((if base.path.length > 1 then base.path.dropLast else base.path) ++ r.path).map ofBytes := by
    split_ifs <;> simp_all [List.map_dropLast]
  simp only [Impl.normalizePath, Impl.copyQuery, Impl.copyFragment, hmerge, normalize_map_ofBytes]
  rfl

end Branches

/-- **The C++ resolution is the crate's, but for a reference path that starts with `/`, which
it normalizes**: for any base and any reference of the crate whose scheme and host are not
empty when they are there, and whose query is not there and empty when it is the query that
decides (no scheme, no authority, the empty path). -/
theorem Impl.resolve_ofUri (base r : Uri) (hscheme : r.scheme ≠ some [])
    (hhost : ∀ authority ∈ r.authority, authority.host ≠ [])
    (hquery : r.scheme = none → r.authority = none → r.path = [] → r.query ≠ some []) :
    (Impl.ofUri base).resolve (Impl.ofUri r) =
      Impl.ofUri (if r.scheme = none ∧ r.authority = none ∧ r.path ≠ [] ∧
          Uri.isPathAbsolute r.path = true then
        { base.resolve r with path := Uri.normalizePath r.path } else base.resolve r) := by
  -- one case for each branch of `Uri::Resolve`
  rcases hs : r.scheme with _ | sc
  · rcases ha : r.authority with _ | a
    · by_cases hp : r.path = []
      · rw [if_neg fun h => h.2.2.1 hp]
        exact Impl.resolve_ofUri_of_path_nil base r hs ha hp (hquery hs ha hp)
      · by_cases habs : Uri.isPathAbsolute r.path = true
        · rw [if_pos ⟨rfl, rfl, hp, habs⟩]
          exact Impl.resolve_ofUri_of_isPathAbsolute base r hs ha hp habs
        · rw [if_neg fun h => habs h.2.2.2]
          exact Impl.resolve_ofUri_of_merge base r hs ha hp (by simpa using habs)
    · rw [if_neg fun h => by simp at h]
      exact Impl.resolve_ofUri_of_authority base r hs ha (hhost a ha)
  · rw [if_neg fun h => by simp at h]
    exact Impl.resolve_ofUri_of_scheme base r hs fun h => hscheme (by rw [hs, h])

/-- `/x/../y` against `h://a/b`: the C++ resolution gives `h://a/y`, where the crate's keeps
`h://a/x/../y`. -/
theorem Impl.resolve_ofUri_dotDot :
    (Impl.ofUri ⟨some ['h'], some ⟨none, [97], none⟩, [[], [98]], none, none⟩).resolve
        (Impl.ofUri ⟨none, none, [[], [120], [46, 46], [121]], none, none⟩) =
      Impl.ofUri ⟨some ['h'], some ⟨none, [97], none⟩, [[], [121]], none, none⟩ :=
  (Impl.resolve_ofUri _ _ (by simp) (by simp) (by simp)).trans (by decide)

end Cpp

end Rhymuri
