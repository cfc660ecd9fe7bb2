import Mathlib.Data.List.Chain
import Rhymuri.Uri.Path

/-!
# The paths `normalize_path` returns

`Uri::normalize_path` is a normalization: what it returns is a path in normal form, and it
leaves a path in normal form as it is, so that applying it twice is applying it once
(`Rhymuri.Uri.normalizePath_idempotent`). A path is in normal form (`Rhymuri.Uri.IsNormal`)
when it holds no `.` and no `..` segment and no empty segment right after another. Such a
path can still hold empty segments: `a//b` is `["a", "", "b"]`, which the loop copies.

Both halves come from one description of the loop variables (`NormalizeState.Inv`): the
path built so far is in normal form, and it ends with a nonempty segment, or is empty,
whenever the flag says that it does not name a directory, which is what lets the loop add
an empty segment without making a pair.

The first segment decides whether a path is absolute, and the loop never changes it: a `..`
never removes the first, empty, segment of an absolute path
(`Uri::can_navigate_path_up_one_level`), and a relative path that loses all its segments has
set the flag, so that an empty segment cannot start it again (`NormalizeState.KeepsHead`).
-/

namespace Rhymuri

namespace Uri

/-- Two neighbouring segments of a path in normal form are not both empty. -/
def NotBothEmpty (a b : List UInt8) : Prop := a ≠ [] ∨ b ≠ []

/-- A path in normal form: no `.` or `..` segment, and no empty segment after an empty
one. -/
structure IsNormal (path : List (List UInt8)) : Prop where
  no_dot : ∀ s ∈ path, s ≠ [46] ∧ s ≠ [46, 46]
  chain : path.IsChain NotBothEmpty

theorem isNormal_nil : IsNormal [] := ⟨by simp, .nil⟩

/-- A path in normal form stays so when a segment other than `.` and `..` is added, unless
the path ended with an empty segment and the new one is empty too. -/
theorem IsNormal.append_singleton {path : List (List UInt8)} {s : List UInt8}
    (h : IsNormal path) (hs : s ≠ [46] ∧ s ≠ [46, 46])
    (hlast : ∀ t ∈ path.getLast?, NotBothEmpty t s) : IsNormal (path ++ [s]) := by
  refine ⟨?_, h.chain.append (.singleton s) (fun t ht u hu => ?_)⟩
  · intro t ht
    rcases List.mem_append.mp ht with ht | ht
    · exact h.no_dot t ht
    · exact List.mem_singleton.mp ht ▸ hs
  · obtain rfl : u = s := by simpa using hu.symm
    exact hlast t ht

theorem IsNormal.dropLast {path : List (List UInt8)} (h : IsNormal path) :
    IsNormal path.dropLast :=
  ⟨fun s hs => h.no_dot s (List.dropLast_subset path hs), h.chain.dropLast⟩

namespace NormalizeState

/-- What the loop of `normalize_path` keeps true: the path built so far is in normal form,
and, while it does not name a directory, it does not end with an empty segment. -/
structure Inv (state : NormalizeState) : Prop where
  normal : IsNormal state.normalizedPath
  last_of_not : state.atDirectoryLevel = false → ∀ s ∈ state.normalizedPath.getLast?, s ≠ []

theorem inv_init : Inv ⟨false, []⟩ := ⟨isNormal_nil, by simp⟩

/-- **One step of the loop keeps the invariant.** -/
theorem inv_next {state : NormalizeState} (h : Inv state) (segment : List UInt8) :
    Inv (state.next segment) := by
  by_cases h1 : segment = [46]
  · -- `.` only sets the flag
    subst h1
    exact ⟨h.normal, by simp [next_dot]⟩
  by_cases h2 : segment = [46, 46]
  · -- `..` removes the last segment, or nothing, and sets the flag
    subst h2
    simp only [next, if_neg h1, if_true]
    refine ⟨?_, by simp⟩
    split_ifs
    · exact h.normal.dropLast
    · exact h.normal
  · -- any other segment is added, unless it is empty and the flag is already set
    simp only [next, if_neg h1, if_neg h2]
    refine ⟨?_, fun hflag => ?_⟩
    · split_ifs with hadd
      · refine h.normal.append_singleton ⟨h1, h2⟩ (fun t ht => ?_)
        cases hs : segment.isEmpty
        · exact .inr (by simpa using hs)
        · have hflag : state.atDirectoryLevel = false := by simpa [hs] using hadd
          exact .inl (h.last_of_not hflag t ht)
      · exact h.normal
    · have hs : segment ≠ [] := by simpa using hflag
      have hadd : (!state.atDirectoryLevel || !segment.isEmpty) = true := by simp [hs]
      simp [hadd, hs]

theorem inv_foldl (path : List (List UInt8)) {state : NormalizeState} (h : Inv state) :
    Inv (path.foldl next state) := by
  induction path generalizing state with
  | nil => exact h
  | cons s rest ih => exact ih (inv_next h s)

/-- The last step keeps the normal form: the empty segment it may add follows a nonempty
one. -/
theorem isNormal_finish {state : NormalizeState} (h : Inv state) : IsNormal state.finish := by
  unfold finish
  split
  · next segment _ hlast =>
    split_ifs with hne
    · refine h.normal.append_singleton (by simp) (fun t ht => .inl ?_)
      obtain rfl : t = segment := by simpa [hlast] using ht.symm
      simpa using hne
    · exact h.normal
  · exact h.normal

/-- On a path in normal form the loop copies every segment, and the flag records whether the
path built so far ends with an empty segment. -/
theorem foldl_next_of_isNormal :
    ∀ (path pre : List (List UInt8)), IsNormal (pre ++ path) →
      path.foldl next ⟨decide (pre.getLast? = some []), pre⟩ =
        ⟨decide ((pre ++ path).getLast? = some []), pre ++ path⟩
  | [], pre, _ => by simp
  | s :: rest, pre, h => by
    obtain ⟨hs1, hs2⟩ := h.no_dot s (by simp)
    -- the chain forbids an empty `s` after an empty last segment
    have hpair : ¬(pre.getLast? = some [] ∧ s = []) := by
      rintro ⟨hlast, rfl⟩
      have hrel := (List.isChain_append.mp h.chain).2.2 [] (by simp [hlast]) [] (by simp)
      simp [NotBothEmpty] at hrel
    have hstep : next ⟨decide (pre.getLast? = some []), pre⟩ s =
        ⟨decide ((pre ++ [s]).getLast? = some []), pre ++ [s]⟩ := by
      have hadd : (!decide (pre.getLast? = some []) || !s.isEmpty) = true := by
        by_cases hs : s = [] <;> simp_all
      simp only [next, if_neg hs1, if_neg hs2, hadd, if_true, List.getLast?_concat,
        Option.some.injEq]
      cases s <;> rfl
    have hrest : IsNormal ((pre ++ [s]) ++ rest) := by simpa using h
    rw [List.foldl_cons, hstep, foldl_next_of_isNormal rest (pre ++ [s]) hrest]
    simp

end NormalizeState

open NormalizeState

/-- **`normalize_path` returns a path in normal form.** -/
theorem isNormal_normalizePath (path : List (List UInt8)) : IsNormal (normalizePath path) :=
  isNormal_finish (inv_foldl path inv_init)

/-- **`normalize_path` leaves a path in normal form as it is.** -/
theorem normalizePath_of_isNormal {path : List (List UInt8)} (h : IsNormal path) :
    normalizePath path = path := by
  have hloop := foldl_next_of_isNormal path [] (by simpa using h)
  simp only [List.getLast?_nil, reduceCtorEq, decide_false, List.nil_append] at hloop
  rw [normalizePath, hloop, finish]
  split
  · next segment hflag hlast =>
    -- the flag is set only when the path ends with an empty segment
    have hempty : segment = [] := by simpa [hlast] using hflag
    simp [hempty]
  · rfl

/-- `a//b` is in normal form, and kept. -/
example : normalizePath [[97], [], [98]] = [[97], [], [98]] := by decide

/-! ### The first segment -/

namespace NormalizeState

/-- What the loop keeps of the first segment: whether the path built so far is absolute,
and, if it is empty, that the path is relative and the flag set. -/
structure KeepsHead (absolute : Bool) (state : NormalizeState) : Prop where
  isPathAbsolute_eq : isPathAbsolute state.normalizedPath = absolute
  flag_of_nil : state.normalizedPath = [] → state.atDirectoryLevel = true ∧ absolute = false

theorem isPathAbsolute_append_singleton {path : List (List UInt8)} (h : path ≠ [])
    (s : List UInt8) : isPathAbsolute (path ++ [s]) = isPathAbsolute path := by
  obtain ⟨t, ts, rfl⟩ := List.exists_cons_of_ne_nil h
  rfl

/-- A `..` removes the last segment only when that keeps the first segment of an absolute
path, so the path stays absolute or relative, and a relative path that becomes empty has the
flag set. -/
theorem keepsHead_next_dotDot {absolute : Bool} {state : NormalizeState}
    (h : KeepsHead absolute state) : KeepsHead absolute (state.next [46, 46]) := by
  simp only [next, if_neg (by decide : ([46, 46] : List UInt8) ≠ [46]), if_true]
  split_ifs with hpop
  · obtain ⟨hne, hup⟩ : state.normalizedPath ≠ [] ∧
        canNavigatePathUpOneLevel state.normalizedPath = true := by simpa using hpop
    obtain ⟨t, ts, hpath⟩ := List.exists_cons_of_ne_nil hne
    have habs := h.isPathAbsolute_eq
    rw [hpath] at habs hup
    cases ts with
    | nil =>
      -- only a nonempty first segment is removed, and the path is then relative
      have ht : t ≠ [] := by
        rintro rfl
        simp [canNavigatePathUpOneLevel] at hup
      refine ⟨?_, fun _ => ⟨rfl, ?_⟩⟩
      · simp [hpath, isPathAbsolute, ← habs, ht]
      · simp [← habs, isPathAbsolute, ht]
    | cons u us =>
      refine ⟨?_, fun hnil => absurd hnil (by simp [hpath])⟩
      simp [hpath, List.dropLast_cons_cons, ← habs, isPathAbsolute]
  · exact ⟨h.isPathAbsolute_eq, fun hnil => ⟨rfl, (h.flag_of_nil hnil).2⟩⟩

/-- **One step of the loop keeps the first segment.** -/
theorem keepsHead_next {absolute : Bool} {state : NormalizeState}
    (h : KeepsHead absolute state) (segment : List UInt8) :
    KeepsHead absolute (state.next segment) := by
  by_cases h1 : segment = [46]
  · subst h1
    exact ⟨h.isPathAbsolute_eq, fun hnil => ⟨rfl, (h.flag_of_nil hnil).2⟩⟩
  by_cases h2 : segment = [46, 46]
  · subst h2
    exact keepsHead_next_dotDot h
  simp only [next, if_neg h1, if_neg h2]
  split_ifs with hadd
  · refine ⟨?_, fun hnil => absurd hnil (by simp)⟩
    rcases eq_or_ne state.normalizedPath [] with hnil | hne
    · -- the first segment added to an empty path: the flag is set, so it is not empty
      obtain ⟨hflag, habs⟩ := h.flag_of_nil hnil
      have hs : segment ≠ [] := by simpa [hflag] using hadd
      simp only [hnil, List.nil_append, habs]
      cases segment with
      | nil => exact absurd rfl hs
      | cons b bs => rfl
    · rw [isPathAbsolute_append_singleton hne, h.isPathAbsolute_eq]
  · -- not added: the flag was set and the segment is empty, so the flag stays set
    obtain ⟨hflag, hs⟩ : state.atDirectoryLevel = true ∧ segment.isEmpty = true := by
      simpa using hadd
    exact ⟨h.isPathAbsolute_eq, fun hnil => ⟨hs, (h.flag_of_nil hnil).2⟩⟩

theorem keepsHead_foldl {absolute : Bool} (path : List (List UInt8)) {state : NormalizeState}
    (h : KeepsHead absolute state) : KeepsHead absolute (path.foldl next state) := by
  induction path generalizing state with
  | nil => exact h
  | cons s rest ih => exact ih (keepsHead_next h s)

/-- The first step decides: after the first segment, the path built so far is absolute
exactly when that segment is empty. -/
theorem keepsHead_first (segment : List UInt8) :
    KeepsHead segment.isEmpty ((⟨false, []⟩ : NormalizeState).next segment) := by
  by_cases h1 : segment = [46]
  · subst h1
    exact ⟨rfl, fun _ => ⟨rfl, rfl⟩⟩
  by_cases h2 : segment = [46, 46]
  · subst h2
    exact ⟨rfl, fun _ => ⟨rfl, rfl⟩⟩
  · simp only [next, if_neg h1, if_neg h2, Bool.not_false, Bool.true_or, if_true,
      List.nil_append]
    exact ⟨by cases segment <;> rfl, fun hnil => absurd hnil (by simp)⟩

/-- The last step adds a segment only to a nonempty path, so it keeps the first one. -/
theorem isPathAbsolute_finish {absolute : Bool} {state : NormalizeState}
    (h : KeepsHead absolute state) : isPathAbsolute state.finish = absolute := by
  unfold finish
  split
  · next segment _ hlast =>
    have hne : state.normalizedPath ≠ [] := by
      intro hnil
      simp [hnil] at hlast
    split_ifs
    · rw [isPathAbsolute_append_singleton hne, h.isPathAbsolute_eq]
    · exact h.isPathAbsolute_eq
  · exact h.isPathAbsolute_eq

end NormalizeState

/-- `normalize_path` keeps a path absolute or relative. -/
theorem isPathAbsolute_normalizePath (path : List (List UInt8)) :
    isPathAbsolute (normalizePath path) = isPathAbsolute path := by
  cases path with
  | nil => rfl
  | cons segment rest =>
    have h := keepsHead_foldl rest (keepsHead_first segment)
    rw [normalizePath, List.foldl_cons, isPathAbsolute_finish h]
    rfl

/-- **`normalize_path` is idempotent and keeps absoluteness.** -/
theorem normalizePath_idempotent (path : List (List UInt8)) :
    normalizePath (normalizePath path) = normalizePath path ∧
      isPathAbsolute (normalizePath path) = isPathAbsolute path :=
  ⟨normalizePath_of_isNormal (isNormal_normalizePath path), isPathAbsolute_normalizePath path⟩

end Uri

end Rhymuri
