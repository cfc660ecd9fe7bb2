import Rhymuri.Uri.PathNormalForm
import Rhymuri.Uri.Parse
import Rhymuri.Lib.Cut

/-!
# `Uri::normalize`

`Uri::normalize` of `src/uri.rs` replaces the path by `normalize_path` of it and leaves
every other component as it is. Of the equivalences of RFC 3986 section 6.2.2, the parser
already takes care of three: it lower-cases the scheme and a reg-name host, and it decodes
every percent-encoding into the byte it stands for, whatever the case of its hexadecimal
digits. What `normalize` adds is dot-segment removal (6.2.2.3).

On the paths where `normalize_path` is `remove_dot_segments`, normalization decides that
last equivalence: two URIs that agree on everything but the path, and whose paths
`remove_dot_segments` takes to the same string, normalize to the same URI
(`Rhymuri.Uri.normalize_eq_of_removeDotSegments`). The path string alone determines the
path, because a normalized path holds no `/` inside a segment and never ends with two empty
segments (`Rhymuri.Uri.eq_of_pathString_eq`).

An IP-literal host is not lower-cased, by the parser or by `normalize`: `[FFFF::1]` and
`[ffff::1]` stay apart.
-/

namespace Rhymuri

namespace Uri

/-- `Uri::normalize`. -/
def normalize (self : Uri) : Uri := { self with path := normalizePath self.path }

@[simp]
theorem normalize_path (self : Uri) : self.normalize.path = normalizePath self.path := rfl

/-! ### The segments of a normalized path -/

namespace NormalizeState

/-- A step of the loop keeps segments it has already built, and may add the one it reads. -/
theorem mem_next {state : NormalizeState} {segment t : List UInt8}
    (h : t ∈ (state.next segment).normalizedPath) : t ∈ state.normalizedPath ∨ t = segment := by
  simp only [next] at h
  split_ifs at h with h1 h2 hup hadd
  · exact .inl h
  · exact .inl (List.dropLast_subset _ h)
  · exact .inl h
  · exact List.mem_append.mp h |>.imp id List.mem_singleton.mp
  · exact .inl h

/-- The last step may only add an empty segment. -/
theorem mem_finish {state : NormalizeState} {t : List UInt8} (h : t ∈ state.finish) :
    t ∈ state.normalizedPath ∨ t = [] := by
  unfold finish at h
  split at h
  · split_ifs at h
    · exact List.mem_append.mp h |>.imp id List.mem_singleton.mp
    · exact .inl h
  · exact .inl h

/-- A property of every segment read, and of the segments already built, holds of the
segments the loop builds. -/
theorem forall_mem_foldl_next {P : List UInt8 → Prop} :
    ∀ (path : List (List UInt8)) (state : NormalizeState), (∀ t ∈ state.normalizedPath, P t) →
      (∀ s ∈ path, P s) → ∀ t ∈ (path.foldl next state).normalizedPath, P t
  | [], _, hstate, _ => hstate
  | s :: rest, state, hstate, hpath => by
    refine forall_mem_foldl_next rest (state.next s) (fun t ht => ?_)
      (fun t ht => hpath t (List.mem_cons_of_mem s ht))
    rcases mem_next ht with ht | rfl
    · exact hstate t ht
    · exact hpath t List.mem_cons_self

end NormalizeState

open NormalizeState

/-- **A normalized path holds only segments of the path, and empty ones.** -/
theorem forall_mem_normalizePath {P : List UInt8 → Prop} (hnil : P []) {path : List (List UInt8)}
    (hpath : ∀ s ∈ path, P s) : ∀ t ∈ normalizePath path, P t := by
  intro t ht
  rcases mem_finish ht with ht | rfl
  · exact forall_mem_foldl_next path ⟨false, []⟩ (by simp) hpath t ht
  · exact hnil

/-! ### A path string determines a normalized path -/

/-- Segments that hold no `/` are read back from their string, each segment being what
stands between one `/` and the next. -/
theorem slashed_inj :
    ∀ {ss ts : List (List UInt8)}, (∀ s ∈ ss, 47 ∉ s) → (∀ t ∈ ts, 47 ∉ t) →
      Rfc.slashed ss = Rfc.slashed ts → ss = ts
  | [], [], _, _, _ => rfl
  | [], _ :: _, _, _, h => absurd h.symm (by simp)
  | _ :: _, [], _, _, h => absurd h (by simp)
  | s :: ss, t :: ts, hss, hts, h => by
    have hrest : s ++ Rfc.slashed ss = t ++ Rfc.slashed ts := by
      simpa only [Rfc.slashed_cons, List.cons.injEq, true_and] using h
    -- the first segment is what stands before the next `/`
    have hfree : ∀ {r : List UInt8}, 47 ∉ r → ∀ b ∈ r, (b != 47) = true := by
      intro r hr b hb
      simpa using ne_of_mem_of_not_mem hb hr
    have hhead : ∀ rs : List (List UInt8), ∀ b ∈ (Rfc.slashed rs).head?, (b != 47) = false := by
      intro rs b hb
      simp [Rfc.head_slashed rs b hb]
    have hst : s = t := by
      have htake := congrArg (List.takeWhile (· != 47)) hrest
      rwa [List.takeWhile_append_of_head (hfree (hss s List.mem_cons_self)) (hhead ss),
        List.takeWhile_append_of_head (hfree (hts t List.mem_cons_self)) (hhead ts)] at htake
    subst hst
    rw [slashed_inj (fun r hr => hss r (List.mem_cons_of_mem s hr))
      (fun r hr => hts r (List.mem_cons_of_mem s hr)) (List.append_cancel_left hrest)]

/-- The absolute path `"" :: ps` reads as the segments after the first, each preceded by
`/`; the path `/` reads as one empty segment so preceded. -/
theorem pathString_nil_cons_eq_slashed (ps : List (List UInt8)) :
    pathString ([] :: ps) = Rfc.slashed (if ps = [] then [[]] else ps) := by
  by_cases h : ps = []
  · subst h
    rfl
  · rw [if_neg h, pathString_nil_cons h]

/-- An absolute path in normal form does not end with two empty segments: `["", ""]` is not
in normal form. -/
theorem ne_nil_singleton_of_isNormal {ps : List (List UInt8)} (h : IsNormal ([] :: ps)) :
    ps ≠ [[]] := by
  rintro rfl
  have hchain := h.chain
  simp [NotBothEmpty] at hchain

/-- **Two absolute paths in normal form, whose segments hold no `/`, with the same path
string, are the same.** -/
theorem eq_of_pathString_eq {ps qs : List (List UInt8)} (hp : IsNormal ([] :: ps))
    (hq : IsNormal ([] :: qs)) (hps : ∀ s ∈ ps, 47 ∉ s) (hqs : ∀ s ∈ qs, 47 ∉ s)
    (h : pathString ([] :: ps) = pathString ([] :: qs)) : ps = qs := by
  have hfree : ∀ rs : List (List UInt8), (∀ s ∈ rs, 47 ∉ s) →
      ∀ s ∈ (if rs = [] then [[]] else rs), 47 ∉ s := by
    intro rs hrs
    split_ifs
    · simp
    · exact hrs
  rw [pathString_nil_cons_eq_slashed, pathString_nil_cons_eq_slashed] at h
  have heq := slashed_inj (hfree ps hps) (hfree qs hqs) h
  -- `/` is `[""]`, and `["", ""]` is not in normal form
  split_ifs at heq with hpn hqn hqn
  · rw [hpn, hqn]
  · exact absurd heq.symm (ne_nil_singleton_of_isNormal hq)
  · exact absurd heq (ne_nil_singleton_of_isNormal hp)
  · exact heq

/-- A path that is absolute is its empty first segment followed by the others. -/
theorem exists_eq_nil_cons {p : List (List UInt8)} (h : isPathAbsolute p = true) :
    ∃ ps, p = [] :: ps := by
  cases p with
  | nil => simp [isPathAbsolute] at h
  | cons s ps => exact ⟨ps, by simpa [isPathAbsolute] using h⟩

/-- The normalized path of an absolute path whose segments hold no `/`, and no empty
segment but the first and the last: an absolute path in normal form whose segments hold no
`/`, and whose path string is `remove_dot_segments` of the path string. -/
theorem normalizePath_of_absolute {p : List (List UInt8)} (hp : isPathAbsolute p = true)
    (hslash : ∀ s ∈ p, 47 ∉ s) (hempty : ∀ s ∈ p.tail.dropLast, s ≠ []) :
    ∃ ns, normalizePath p = [] :: ns ∧ IsNormal ([] :: ns) ∧ (∀ s ∈ ns, 47 ∉ s) ∧
      pathString ([] :: ns) = Rfc.removeDotSegments (pathString p) := by
  obtain ⟨ps, rfl⟩ := exists_eq_nil_cons hp
  obtain ⟨ns, hns⟩ := exists_eq_nil_cons ((isPathAbsolute_normalizePath _).trans hp)
  have hfree := forall_mem_normalizePath (P := fun s => 47 ∉ s) List.not_mem_nil hslash
  rw [hns] at hfree
  refine ⟨ns, hns, hns ▸ isNormal_normalizePath _,
    fun s hs => hfree s (List.mem_cons_of_mem [] hs), ?_⟩
  rw [← hns]
  exact pathString_normalizePath_nil_cons (fun s hs => hslash s (List.mem_cons_of_mem [] hs))
    hempty

/-! ### Equivalent URIs -/

/-- **Normalization makes URIs that are equal up to dot segments equal**: two URIs that
agree on the scheme, the authority, the query and the fragment, whose paths are absolute,
hold no `/` inside a segment and no empty segment but the first and the last, and whose path
strings `remove_dot_segments` takes to the same string, normalize to the same URI. -/
theorem normalize_eq_of_removeDotSegments {u v : Uri} (hscheme : u.scheme = v.scheme)
    (hauthority : u.authority = v.authority) (hquery : u.query = v.query)
    (hfragment : u.fragment = v.fragment)
    (hu : isPathAbsolute u.path = true) (hv : isPathAbsolute v.path = true)
    (huslash : ∀ s ∈ u.path, 47 ∉ s) (hvslash : ∀ s ∈ v.path, 47 ∉ s)
    (huempty : ∀ s ∈ u.path.tail.dropLast, s ≠ []) (hvempty : ∀ s ∈ v.path.tail.dropLast, s ≠ [])
    (hpath : Rfc.removeDotSegments (pathString u.path) = Rfc.removeDotSegments (pathString v.path)) :
    u.normalize = v.normalize := by
  obtain ⟨ns, hns, hnsNormal, hnsSlash, hnsString⟩ := normalizePath_of_absolute hu huslash huempty
  obtain ⟨ms, hms, hmsNormal, hmsSlash, hmsString⟩ := normalizePath_of_absolute hv hvslash hvempty
  -- both normalized paths have the path string the RFC gives, which determines them
  have hnormal : normalizePath u.path = normalizePath v.path := by
    rw [hns, hms, eq_of_pathString_eq hnsNormal hmsNormal hnsSlash hmsSlash
      (by rw [hnsString, hmsString, hpath])]
  obtain ⟨scheme, authority, path, query, fragment⟩ := u
  obtain ⟨scheme', authority', path', query', fragment'⟩ := v
  simp only at hscheme hauthority hquery hfragment hnormal
  simp only [normalize, hscheme, hauthority, hquery, hfragment, hnormal]

/-- `http://a/b/./c` and `http://a/b/c`. -/
theorem normalize_eq_of_removeDotSegments_dot :
    normalize ⟨some ['h'], some ⟨none, [97], none⟩, [[], [98], [46], [99]], none, none⟩ =
      normalize ⟨some ['h'], some ⟨none, [97], none⟩, [[], [98], [99]], none, none⟩ := by
  have hu : Rfc.removeDotSegments (pathString [[], [98], [46], [99]]) = [47, 98, 47, 99] := by
    rw [← pathString_normalizePath_nil_cons (by simp) (by simp)]
    decide
  have hv : Rfc.removeDotSegments (pathString [[], [98], [99]]) = [47, 98, 47, 99] := by
    rw [← pathString_normalizePath_nil_cons (by simp) (by simp)]
    decide
  exact normalize_eq_of_removeDotSegments rfl rfl rfl rfl rfl rfl (by simp) (by simp) (by simp)
    (by simp) (hu.trans hv.symm)

/- An IP-literal host keeps its case: `http://[FFFF::1]/` and `http://[ffff::1]/` differ
only by the case of their hosts, which RFC 3986 compares case-insensitively, but only a
reg-name host is lower-cased, so they normalize to different URIs. -/
example :
    parse ['h', 't', 't', 'p', ':', '/', '/', '[', 'F', 'F', 'F', 'F', ':', ':', '1', ']', '/'] =
        .ok ⟨some ['h', 't', 't', 'p'], some ⟨none, [70, 70, 70, 70, 58, 58, 49], none⟩, [[]],
          none, none⟩ ∧
      parse ['h', 't', 't', 'p', ':', '/', '/', '[', 'f', 'f', 'f', 'f', ':', ':', '1', ']', '/'] =
        .ok ⟨some ['h', 't', 't', 'p'], some ⟨none, [102, 102, 102, 102, 58, 58, 49], none⟩, [[]],
          none, none⟩ ∧
      normalize ⟨some ['h', 't', 't', 'p'], some ⟨none, [70, 70, 70, 70, 58, 58, 49], none⟩, [[]],
          none, none⟩ ≠
        normalize ⟨some ['h', 't', 't', 'p'], some ⟨none, [102, 102, 102, 102, 58, 58, 49], none⟩,
          [[]], none, none⟩ :=
  ⟨by decide, by decide, by decide⟩

end Uri

end Rhymuri
