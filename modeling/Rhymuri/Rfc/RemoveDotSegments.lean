import Mathlib.Data.List.Basic

/-!
# `remove_dot_segments`, RFC 3986 section 5.2.4

The RFC removes the special segments `.` and `..` from a path with a loop over two
buffers: the input, initialized with the path, and the output, initially empty. Each
round applies the first of five rules (A to E) whose condition holds, until the input is
empty; the output is then the result. `Rhymuri.Rfc.removeDotSegmentsLoop` is that loop,
one `match` arm for each case of a rule and in the RFC's order, over the bytes of a path
(`46` is `.`, `47` is `/`), which is what the path segments of `src/uri.rs` hold.

A path whose segments hold no `/` is, read as bytes, its segments each preceded by a
`/` (`Rhymuri.Rfc.slashed`), and on such paths the loop takes one segment a round: a `.`
is dropped, a `..` drops the last segment of the output, any other segment moves over,
and a `.` or `..` at the very end leaves a trailing `/`.
`Rhymuri.Rfc.removeDotSegmentsLoop_slashed` proves that the loop computes
`Rhymuri.Rfc.removeDotSegmentsSegments`, which says this on lists of segments; the
normalization of `src/uri.rs`, which works on lists of segments, is compared with it.
-/

namespace Rhymuri

namespace Rfc

/-- "Remove the last segment and its preceding `/` (if any) from the output buffer": what
stands before the last `/`, or nothing when there is no `/`. -/
def removeLastSegment (output : List UInt8) : List UInt8 :=
  ((output.reverse.dropWhile (· != 47)).drop 1).reverse

/-- The loop of `remove_dot_segments` on the input and output buffers. -/
def removeDotSegmentsLoop (input output : List UInt8) : List UInt8 :=
  match input with
  | [] => output
  -- A. a prefix `../` or `./` is removed
  | 46 :: 46 :: 47 :: rest => removeDotSegmentsLoop rest output
  | 46 :: 47 :: rest => removeDotSegmentsLoop rest output
  -- B. a prefix `/./`, or `/.` as a complete segment, is replaced by `/`
  | 47 :: 46 :: 47 :: rest => removeDotSegmentsLoop (47 :: rest) output
  | [47, 46] => removeDotSegmentsLoop [47] output
  -- C. a prefix `/../`, or `/..` as a complete segment, is replaced by `/`, and the last
  -- segment of the output is removed
  | 47 :: 46 :: 46 :: 47 :: rest =>
    removeDotSegmentsLoop (47 :: rest) (removeLastSegment output)
  | [47, 46, 46] => removeDotSegmentsLoop [47] (removeLastSegment output)
  -- D. an input that is only `.` or `..` is removed
  | [46] | [46, 46] => output
  -- E. the first segment, with its initial `/` if any, moves to the output
  | c :: rest =>
    removeDotSegmentsLoop (rest.dropWhile (· != 47)) (output ++ c :: rest.takeWhile (· != 47))
termination_by input.length
decreasing_by
  all_goals simp only [List.length_cons]
  all_goals first
    | omega
    | have := (List.dropWhile_suffix (· != 47) : rest.dropWhile (· != 47) <:+ rest).length_le
      omega

/-- `remove_dot_segments`. -/
def removeDotSegments (path : List UInt8) : List UInt8 := removeDotSegmentsLoop path []

/-! ### Paths as segments -/

/-- Segments, each preceded by a `/`. -/
def slashed (segments : List (List UInt8)) : List UInt8 := segments.flatMap (47 :: ·)

/-- **`remove_dot_segments` on segments**: the loop on a path of segments each preceded by
`/`, one segment a round. -/
def removeDotSegmentsSegments : List (List UInt8) → List (List UInt8) → List (List UInt8)
  | [], output => output
  | segment :: input, output =>
    if segment = [46] then
      if input = [] then output ++ [[]] else removeDotSegmentsSegments input output
    else if segment = [46, 46] then
      if input = [] then output.dropLast ++ [[]]
      else removeDotSegmentsSegments input output.dropLast
    else removeDotSegmentsSegments input (output ++ [segment])

@[simp]
theorem slashed_nil : slashed [] = [] := rfl

@[simp]
theorem slashed_cons (s : List UInt8) (ss : List (List UInt8)) :
    slashed (s :: ss) = 47 :: (s ++ slashed ss) := rfl

@[simp]
theorem slashed_append (ss ts : List (List UInt8)) :
    slashed (ss ++ ts) = slashed ss ++ slashed ts := by
  simp [slashed]

/-- A path of segments starts with a `/`, if it is not empty. -/
theorem head_slashed (ss : List (List UInt8)) : ∀ b ∈ (slashed ss).head?, b = 47 := by
  cases ss <;> simp

/-- Read from the end, segments that hold no `/` lose their last segment at the first `/`. -/
theorem reverse_slashed_dropWhile {ts : List (List UInt8)} {t : List UInt8} (ht : 47 ∉ t) :
    (slashed (ts ++ [t])).reverse.dropWhile (· != 47) = 47 :: (slashed ts).reverse := by
  have ht' : ∀ b ∈ t.reverse, (b != 47) = true := by
    intro b hb
    have hb' : b ≠ 47 := by
      rintro rfl
      exact ht (List.mem_reverse.mp hb)
    simpa using hb'
  have hrev : (slashed (ts ++ [t])).reverse = t.reverse ++ 47 :: (slashed ts).reverse := by
    simp
  rw [hrev, List.dropWhile_append_of_pos ht']
  simp

/-- Removing the last segment of segments that hold no `/`. -/
theorem removeLastSegment_slashed {ss : List (List UInt8)} (h : ∀ s ∈ ss, 47 ∉ s) :
    removeLastSegment (slashed ss) = slashed ss.dropLast := by
  rcases List.eq_nil_or_concat' ss with rfl | ⟨ts, t, rfl⟩
  · rfl
  · rw [removeLastSegment, reverse_slashed_dropWhile (h t (by simp))]
    simp

/-! ### The rounds of the loop on segments -/

section Rounds

variable (output : List UInt8)

theorem removeDotSegmentsLoop_slash_dot (w : List UInt8) :
    removeDotSegmentsLoop (47 :: 46 :: 47 :: w) output = removeDotSegmentsLoop (47 :: w) output := by
  rw [removeDotSegmentsLoop]

theorem removeDotSegmentsLoop_slash_dotDot (w : List UInt8) :
    removeDotSegmentsLoop (47 :: 46 :: 46 :: 47 :: w) output =
      removeDotSegmentsLoop (47 :: w) (removeLastSegment output) := by
  rw [removeDotSegmentsLoop]

/-- **Rule E on an ordinary segment**: a segment that holds no `/` and is neither `.` nor
`..`, followed by nothing or by a `/`, moves over with its `/`. -/
theorem removeDotSegmentsLoop_segment {s w : List UInt8} (hs : 47 ∉ s) (h1 : s ≠ [46])
    (h2 : s ≠ [46, 46]) (hw : ∀ b ∈ w.head?, b = 47) :
    removeDotSegmentsLoop (47 :: (s ++ w)) output = removeDotSegmentsLoop w (output ++ 47 :: s) := by
  have hs' : ∀ b ∈ s, (b != 47) = true := by
    intro b hb
    have hb' : b ≠ 47 := by
      rintro rfl
      exact hs hb
    simpa using hb'
  have hw' : w.takeWhile (· != 47) = [] ∧ w.dropWhile (· != 47) = w := by
    cases w with
    | nil => simp
    | cons b w =>
      obtain rfl : b = 47 := hw b rfl
      simp
  -- the segment is what stands before the next `/`
  have hcut : ∀ v, s ++ w = v → s = v.takeWhile (· != 47) := by
    intro v h
    rw [← h, List.takeWhile_append_of_pos hs', hw'.1, List.append_nil]
  -- so the rules before E, which need a `.` or `..` segment, do not apply
  have hdot : ∀ v, (∀ b ∈ v.head?, b = 47) → s ++ w ≠ 46 :: v := by
    intro v hv h
    apply h1
    rw [hcut _ h]
    cases v with
    | nil => rfl
    | cons b v =>
      obtain rfl : b = 47 := hv b rfl
      simp
  have hdotDot : ∀ v, (∀ b ∈ v.head?, b = 47) → s ++ w ≠ 46 :: 46 :: v := by
    intro v hv h
    apply h2
    rw [hcut _ h]
    cases v with
    | nil => rfl
    | cons b v =>
      obtain rfl : b = 47 := hv b rfl
      simp
  rw [removeDotSegmentsLoop.eq_10 output 47 (s ++ w)
      (fun _ h _ => absurd h (by decide)) (fun _ h _ => absurd h (by decide))
      (fun _ _ h => hdot _ (by simp) h) (fun _ h => hdot [] (by simp) h)
      (fun _ _ h => hdotDot _ (by simp) h) (fun _ h => hdotDot [] (by simp) h)
      (fun h _ => absurd h (by decide)) (fun h _ => absurd h (by decide)),
    List.takeWhile_append_of_pos hs', List.dropWhile_append_of_pos hs', hw'.1, hw'.2,
    List.append_nil]

theorem removeDotSegmentsLoop_slash : removeDotSegmentsLoop [47] output = output ++ [47] := by
  -- the segment `/` alone, with nothing after it
  have h : removeDotSegmentsLoop (47 :: ([] ++ [])) output =
      removeDotSegmentsLoop [] (output ++ [47]) :=
    removeDotSegmentsLoop_segment output (by simp) (by simp) (by simp) (by simp)
  rw [List.nil_append] at h
  rw [h, removeDotSegmentsLoop]

theorem removeDotSegmentsLoop_slash_dot_end :
    removeDotSegmentsLoop [47, 46] output = output ++ [47] := by
  rw [removeDotSegmentsLoop, removeDotSegmentsLoop_slash]

theorem removeDotSegmentsLoop_slash_dotDot_end :
    removeDotSegmentsLoop [47, 46, 46] output = removeLastSegment output ++ [47] := by
  rw [removeDotSegmentsLoop, removeDotSegmentsLoop_slash]

end Rounds

/-- **The loop on segments**: on segments that hold no `/`, the loop of
`remove_dot_segments` takes one segment a round. -/
theorem removeDotSegmentsLoop_slashed :
    ∀ {input output : List (List UInt8)}, (∀ s ∈ input, 47 ∉ s) → (∀ s ∈ output, 47 ∉ s) →
      removeDotSegmentsLoop (slashed input) (slashed output) =
        slashed (removeDotSegmentsSegments input output)
  | [], output, _, _ => by simp [removeDotSegmentsLoop, removeDotSegmentsSegments]
  | s :: input, output, hin, hout => by
    have hinput : ∀ t ∈ input, 47 ∉ t := fun t ht => hin t (List.mem_cons_of_mem s ht)
    have hdropLast : ∀ t ∈ output.dropLast, 47 ∉ t :=
      fun t ht => hout t (List.dropLast_subset output ht)
    by_cases h1 : s = [46]
    · -- `.`: dropped, leaving a trailing `/` at the end
      subst h1
      cases input with
      | nil => simp [removeDotSegmentsSegments, removeDotSegmentsLoop_slash_dot_end]
      | cons t ts =>
        rw [removeDotSegmentsSegments, if_pos rfl, if_neg (List.cons_ne_nil t ts),
          ← removeDotSegmentsLoop_slashed hinput hout]
        exact removeDotSegmentsLoop_slash_dot _ _
    · by_cases h2 : s = [46, 46]
      · -- `..`: the last segment of the output goes
        subst h2
        cases input with
        | nil =>
          simp [removeDotSegmentsSegments, removeDotSegmentsLoop_slash_dotDot_end,
            removeLastSegment_slashed hout]
        | cons t ts =>
          rw [removeDotSegmentsSegments, if_neg h1, if_pos rfl, if_neg (List.cons_ne_nil t ts),
            ← removeDotSegmentsLoop_slashed hinput hdropLast, ← removeLastSegment_slashed hout]
          exact removeDotSegmentsLoop_slash_dotDot _ _
      · -- any other segment moves over
        have hs : 47 ∉ s := hin s List.mem_cons_self
        have hout' : ∀ t ∈ output ++ [s], 47 ∉ t := by
          intro t ht
          rcases List.mem_append.mp ht with ht | ht
          · exact hout t ht
          · exact List.mem_singleton.mp ht ▸ hs
        rw [removeDotSegmentsSegments, if_neg h1, if_neg h2, slashed_cons,
          removeDotSegmentsLoop_segment _ hs h1 h2 (head_slashed input),
          ← removeDotSegmentsLoop_slashed hinput hout']
        simp

end Rfc

end Rhymuri
