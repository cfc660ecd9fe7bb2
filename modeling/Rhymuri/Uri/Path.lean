import Rhymuri.Lib.Intercalate
import Rhymuri.Rfc.RemoveDotSegments

/-!
# Paths and their normalization

A path of `src/uri.rs` is a list of segments, each a list of bytes: `/foo/bar` is
`["", "foo", "bar"]`, `foo/bar/` is `["foo", "bar", ""]`, `/` is `[""]` and the empty path
is `[]`. An absolute path is one whose first segment is empty (`Uri::is_path_absolute`).

`Uri::normalize_path` applies `.` and `..` segments with a loop over the segments that
rebuilds the path, keeping a flag (`at_directory_level`) that says whether the path built
so far names a directory, and a final step that marks such a path with a trailing empty
segment. It is modelled as a fold with the loop's two variables as its state
(`Rhymuri.Uri.NormalizeState`).

The RFC states `remove_dot_segments` on the path as a string; the path string of a list
of segments is the segments joined by `/`, with `[""]` read as `/`, which is what
`Uri::path_to_string` converts to UTF-8 (`Rhymuri.Uri.pathString`). The code and the RFC
agree on the absolute paths whose segments hold no `/` and in which no segment but the
first and the last is empty (`Rhymuri.Uri.pathString_normalizePath_eq_removeDotSegments`).
They disagree on an empty segment after a `.`, a `..` or another empty segment, which the
code drops and the RFC keeps: the code gives `/a/b` for `/a/.//b`, the RFC `/a//b`.
-/

namespace Rhymuri

namespace Uri

/-- `Uri::can_navigate_path_up_one_level`: a path with a leading `/` keeps its first,
empty, segment. -/
def canNavigatePathUpOneLevel (path : List (List UInt8)) : Bool :=
  match path.head? with
  | some segment => if segment.isEmpty then decide (path.length > 1) else true
  | none => false

/-- `Uri::is_path_absolute`. -/
def isPathAbsolute (path : List (List UInt8)) : Bool :=
  match path with
  | segment :: _ => segment.isEmpty
  | [] => false

/-- The variables of the loop of `Uri::normalize_path`. -/
structure NormalizeState where
  /-- Whether the path built so far names a directory. -/
  atDirectoryLevel : Bool
  /-- The path built so far. -/
  normalizedPath : List (List UInt8)
  deriving DecidableEq, Repr

namespace NormalizeState

/-- The body of the loop of `Uri::normalize_path`, on one segment. -/
def next (state : NormalizeState) (segment : List UInt8) : NormalizeState :=
  if segment = [46] then { state with atDirectoryLevel := true }
  else if segment = [46, 46] then
    -- remove the last segment, if the path can go up a level
    { atDirectoryLevel := true
      normalizedPath :=
        if !state.normalizedPath.isEmpty && canNavigatePathUpOneLevel state.normalizedPath then
          state.normalizedPath.dropLast
        else state.normalizedPath }
  else
    -- an empty segment is a directory level, and is not repeated
    { atDirectoryLevel := segment.isEmpty
      normalizedPath :=
        if !state.atDirectoryLevel || !segment.isEmpty then state.normalizedPath ++ [segment]
        else state.normalizedPath }

/-- The step after the loop of `Uri::normalize_path`: a path that names a directory ends
with an empty segment. -/
def finish (state : NormalizeState) : List (List UInt8) :=
  match state.atDirectoryLevel, state.normalizedPath.getLast? with
  | true, some segment =>
    if !segment.isEmpty then state.normalizedPath ++ [[]] else state.normalizedPath
  | _, _ => state.normalizedPath

end NormalizeState

/-- `Uri::normalize_path`. -/
def normalizePath (originalPath : List (List UInt8)) : List (List UInt8) :=
  (originalPath.foldl NormalizeState.next ⟨false, []⟩).finish

/-- The path string: `[""]` is `/`, any other path its segments joined by `/`. These are
the bytes that `Uri::path_to_string` converts to UTF-8. -/
def pathString (path : List (List UInt8)) : List UInt8 :=
  match path with
  | [[]] => [47]
  | path => [47].intercalate path

/-! ### The path string of an absolute path -/

@[simp]
theorem pathString_nil : pathString [] = [] := rfl

/-- An absolute path with more than its first segment reads as its other segments, each
preceded by `/`. -/
theorem pathString_nil_cons {ss : List (List UInt8)} (h : ss ≠ []) :
    pathString ([] :: ss) = Rfc.slashed ss := by
  have hne : ([] :: ss) ≠ [[]] := by simpa using h
  rw [pathString.eq_2 _ hne, List.intercalate_cons_eq_append_flatMap, List.nil_append]
  rfl

/-- A path of one empty segment reads as `/`, the one empty segment preceded by `/`. -/
theorem pathString_nil_singleton : pathString [[]] = Rfc.slashed [[]] := rfl

/-- A relative path reads as its first segment, then the others each preceded by `/`. -/
theorem pathString_cons_of_ne_nil {s : List UInt8} (hs : s ≠ []) (ss : List (List UInt8)) :
    pathString (s :: ss) = s ++ Rfc.slashed ss := by
  have hne : s :: ss ≠ [[]] := by simp [hs]
  rw [pathString.eq_2 _ hne, List.intercalate_cons_eq_append_flatMap]
  rfl

/-- Only the empty path reads as the empty string. -/
theorem pathString_eq_nil_iff {p : List (List UInt8)} : pathString p = [] ↔ p = [] := by
  cases p with
  | nil => exact iff_of_true rfl rfl
  | cons s ss =>
    refine iff_of_false ?_ (List.cons_ne_nil s ss)
    intro hnil
    by_cases hs : s = []
    · subst hs
      cases ss with
      | nil => exact absurd hnil (by decide)
      | cons t ts => simp [pathString_nil_cons] at hnil
    · rw [pathString_cons_of_ne_nil hs] at hnil
      exact hs (List.append_eq_nil_iff.mp hnil).1

/-! ### The loop on an absolute path

Once its first, empty, segment is read, the loop builds an absolute path `"" :: outs`;
these are its steps on such a path. -/

namespace NormalizeState

variable {b : Bool} {outs : List (List UInt8)}

theorem next_dot (state : NormalizeState) :
    state.next [46] = { state with atDirectoryLevel := true } := rfl

/-- A `..` removes the last segment of an absolute path, but never its first. -/
theorem next_dotDot_nil_cons :
    (⟨b, [] :: outs⟩ : NormalizeState).next [46, 46] = ⟨true, [] :: outs.dropLast⟩ := by
  simp only [next, if_neg (by decide : ([46, 46] : List UInt8) ≠ [46]), if_true]
  cases outs with
  | nil => simp [canNavigatePathUpOneLevel]
  | cons o os => simp [canNavigatePathUpOneLevel]

/-- A segment other than `.`, `..` and the empty one is added, and the path no longer
names a directory. -/
theorem next_segment (state : NormalizeState) {s : List UInt8} (h0 : s ≠ []) (h1 : s ≠ [46])
    (h2 : s ≠ [46, 46]) : state.next s = ⟨false, state.normalizedPath ++ [s]⟩ := by
  simp [next, h0, h1, h2]

/-- An empty segment is added unless the path already names a directory. -/
theorem next_nil (state : NormalizeState) :
    state.next [] = ⟨true, if state.atDirectoryLevel then state.normalizedPath
      else state.normalizedPath ++ [[]]⟩ := by
  cases h : state.atDirectoryLevel <;> simp [next, h]

/-- The path string after the last step, when the path names a directory: a trailing `/`. -/
theorem pathString_finish_true (hout : ∀ s ∈ outs, s ≠ []) :
    pathString (finish ⟨true, [] :: outs⟩) = Rfc.slashed (outs ++ [[]]) := by
  rcases List.eq_nil_or_concat' outs with rfl | ⟨os, o, rfl⟩
  · rfl
  · have ho : o ≠ [] := hout o (by simp)
    have hfinish : finish ⟨true, [] :: (os ++ [o])⟩ = [] :: (os ++ [o] ++ [[]]) := by
      simp [finish, List.getLast?_cons, ho]
    rw [hfinish, pathString_nil_cons (by simp)]

theorem pathString_finish_false :
    pathString (finish ⟨false, [] :: outs⟩) = pathString ([] :: outs) := rfl

end NormalizeState

open NormalizeState

/-- **The loop on the segments after the first**, against `remove_dot_segments` on
segments: from an absolute path `"" :: outs` of nonempty segments, the loop and its last
step give the path string of the RFC's output, whichever the flag. -/
theorem pathString_finish_foldl :
    ∀ {rest : List (List UInt8)}, rest ≠ [] → (∀ s ∈ rest.dropLast, s ≠ []) →
      ∀ (b : Bool) (outs : List (List UInt8)), (∀ s ∈ outs, s ≠ []) →
        pathString (finish (rest.foldl next ⟨b, [] :: outs⟩)) =
          Rfc.slashed (Rfc.removeDotSegmentsSegments rest outs)
  | [], h, _ => absurd rfl h
  | [s], _, _ => by
    intro b outs hout
    have hdropLast : ∀ t ∈ outs.dropLast, t ≠ [] :=
      fun t ht => hout t (List.dropLast_subset outs ht)
    by_cases h1 : s = [46]
    · subst h1
      simp [Rfc.removeDotSegmentsSegments, next_dot, pathString_finish_true hout]
    · by_cases h2 : s = [46, 46]
      · subst h2
        simp [Rfc.removeDotSegmentsSegments, next_dotDot_nil_cons,
          pathString_finish_true hdropLast]
      · by_cases h0 : s = []
        · -- a final empty segment: added, or already marked by the flag
          subst h0
          cases b with
          | true => simp [Rfc.removeDotSegmentsSegments, next_nil, pathString_finish_true hout]
          | false =>
            have hlast : ([] :: (outs ++ [[]])).getLast? = some [] := by
              rw [← List.cons_append, List.getLast?_concat]
            have hfinish : finish ⟨true, [] :: (outs ++ [[]])⟩ = [] :: (outs ++ [[]]) := by
              simp [finish, hlast]
            simp only [List.foldl_cons, List.foldl_nil, next_nil, Bool.false_eq_true, if_false,
              List.cons_append]
            rw [hfinish, pathString_nil_cons (by simp)]
            simp [Rfc.removeDotSegmentsSegments]
        · simp [Rfc.removeDotSegmentsSegments, h1, h2, next_segment _ h0 h1 h2,
            pathString_finish_false, pathString_nil_cons]
  | s :: t :: rest, _, hempty => by
    intro b outs hout
    have hs : s ≠ [] := hempty s (by simp)
    have hrest : ∀ u ∈ (t :: rest).dropLast, u ≠ [] :=
      fun u hu => hempty u (by rw [List.dropLast_cons_cons]; exact List.mem_cons_of_mem s hu)
    have ih := fun b outs hout =>
      pathString_finish_foldl (List.cons_ne_nil t rest) hrest b outs hout
    by_cases h1 : s = [46]
    · -- a `.` inside the path is dropped
      subst h1
      rw [List.foldl_cons, next_dot, Rfc.removeDotSegmentsSegments, if_pos rfl,
        if_neg (List.cons_ne_nil t rest)]
      exact ih true outs hout
    · by_cases h2 : s = [46, 46]
      · -- a `..` inside the path removes the last segment built
        subst h2
        rw [List.foldl_cons, next_dotDot_nil_cons, Rfc.removeDotSegmentsSegments, if_neg h1,
          if_pos rfl, if_neg (List.cons_ne_nil t rest)]
        exact ih true outs.dropLast (fun u hu => hout u (List.dropLast_subset outs hu))
      · -- any other segment is added
        have hout' : ∀ u ∈ outs ++ [s], u ≠ [] := by
          intro u hu
          rcases List.mem_append.mp hu with hu | hu
          · exact hout u hu
          · exact List.mem_singleton.mp hu ▸ hs
        rw [List.foldl_cons, next_segment _ hs h1 h2, Rfc.removeDotSegmentsSegments, if_neg h1,
          if_neg h2]
        exact ih false (outs ++ [s]) hout'

/-- `normalize_path` against `remove_dot_segments`, on the absolute path `"" :: rest`. -/
theorem pathString_normalizePath_nil_cons {rest : List (List UInt8)}
    (hslash : ∀ s ∈ rest, 47 ∉ s) (hempty : ∀ s ∈ rest.dropLast, s ≠ []) :
    pathString (normalizePath ([] :: rest)) = Rfc.removeDotSegments (pathString ([] :: rest)) := by
  -- the first segment starts an absolute path that names a directory
  have hfirst : next ⟨false, []⟩ [] = ⟨true, [] :: []⟩ := rfl
  rw [normalizePath, List.foldl_cons, hfirst]
  rcases eq_or_ne rest [] with rfl | hne
  · -- the path `/`
    rw [Rfc.removeDotSegments, pathString_nil_singleton, Rfc.slashed_cons, Rfc.slashed_nil,
      List.append_nil, Rfc.removeDotSegmentsLoop_slash]
    rfl
  · rw [pathString_finish_foldl hne hempty true [] (by simp), pathString_nil_cons hne,
      Rfc.removeDotSegments, ← Rfc.slashed_nil, Rfc.removeDotSegmentsLoop_slashed hslash (by simp)]

/-- **`normalize_path` is `remove_dot_segments` on absolute paths without inner empty
segments**: on an absolute path whose segments hold no `/` and whose segments other than
the first and the last are not empty, the path string of the normalized path is the RFC's
`remove_dot_segments` of the path string. -/
theorem pathString_normalizePath_eq_removeDotSegments {p : List (List UInt8)}
    (hp : isPathAbsolute p = true) (hslash : ∀ s ∈ p, 47 ∉ s)
    (hempty : ∀ s ∈ p.tail.dropLast, s ≠ []) :
    pathString (normalizePath p) = Rfc.removeDotSegments (pathString p) := by
  obtain ⟨rest, rfl⟩ : ∃ rest, p = [] :: rest := by
    cases p with
    | nil => simp [isPathAbsolute] at hp
    | cons s rest => exact ⟨rest, by simpa [isPathAbsolute] using hp⟩
  exact pathString_normalizePath_nil_cons (fun s hs => hslash s (List.mem_cons_of_mem [] hs))
    hempty

/-- `/a/../b/.`, whose `..` goes up a level and whose final `.` leaves a trailing `/`:
`/b/` for the code and for the RFC. -/
theorem pathString_normalizePath_dotDot_dot :
    isPathAbsolute [[], [97], [46, 46], [98], [46]] = true ∧
      (∀ s ∈ [[], [97], [46, 46], [98], [46]], (47 : UInt8) ∉ s) ∧
      (∀ s ∈ [[97], [46, 46], [98]], s ≠ []) ∧
      pathString (normalizePath [[], [97], [46, 46], [98], [46]]) =
        Rfc.removeDotSegments (pathString [[], [97], [46, 46], [98], [46]]) :=
  ⟨rfl, by simp, by simp, pathString_normalizePath_eq_removeDotSegments rfl (by simp) (by simp)⟩

/-- **An empty segment after a `.`**: for `/a/.//b` the code gives `/a/b`, dropping the
empty segment because the `.` already marked a directory level, while
`remove_dot_segments` gives `/a//b`. -/
theorem normalizePath_dot_empty :
    pathString (normalizePath [[], [97], [46], [], [98]]) = [47, 97, 47, 98] ∧
      Rfc.removeDotSegments (pathString [[], [97], [46], [], [98]]) = [47, 97, 47, 47, 98] := by
  refine ⟨by decide, ?_⟩
  have h : pathString [[], [97], [46], [], [98]] = Rfc.slashed [[97], [46], [], [98]] := rfl
  rw [h, Rfc.removeDotSegments, ← Rfc.slashed_nil,
    Rfc.removeDotSegmentsLoop_slashed (by simp) (by simp)]
  decide

end Uri

end Rhymuri
