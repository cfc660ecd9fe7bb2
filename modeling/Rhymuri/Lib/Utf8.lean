import Mathlib
import Rhymuri.Lib.Cut

/-!
# Byte offsets into UTF-8 text

A Rust `str` is UTF-8, and its searches and slices count bytes: `str::find` returns the byte
offset of the first match, `str::char_indices` pairs each character with its byte offset, and
`&s[a..b]` panics unless `a ≤ b` and both offsets are character boundaries
(`str::is_char_boundary`: the offset where a character starts, or the length). A string is a
list of characters here, and the byte offset of the character at index `i` is the sum of the
UTF-8 lengths of the characters before it (`Rhymuri.byteOffset`).

The one fact every slice of the crate rests on is `Rhymuri.sliceBytes_byteOffset`: slicing at
the byte offsets of two character indices never panics, and gives the characters between them.
A search returns such an offset, and the offset just after a one-byte character, an ASCII
delimiter, is the offset of the next index (`Rhymuri.byteOffset_succ_of_ascii`).
-/

namespace Rhymuri

/-- The byte offset, in UTF-8, of the character at index `i`. -/
def byteOffset (s : List Char) (i : ℕ) : ℕ := ((s.take i).map Char.utf8Size).sum

/-- `str::len`: the length in bytes. -/
def byteLength (s : List Char) : ℕ := byteOffset s s.length

/-- The index of the character that starts at byte `b`, counting from `i`, or the index of
the end when `b` is the length; `none` when `b` falls inside a character or past the end. -/
def charIndexAt : List Char → ℕ → ℕ → Option ℕ
  | _, 0, i => some i
  | [], _ + 1, _ => none
  | c :: cs, b + 1, i => if c.utf8Size ≤ b + 1 then charIndexAt cs (b + 1 - c.utf8Size) (i + 1)
    else none

/-- `&s[a..b]`: the characters between the byte offsets `a` and `b`, or `none` where Rust
panics. -/
def sliceBytes (s : List Char) (a b : ℕ) : Option (List Char) := do
  let i ← charIndexAt s a 0
  let j ← charIndexAt s b 0
  if i ≤ j then some ((s.drop i).take (j - i)) else none

/-- `&s[a..]`. -/
def sliceFrom (s : List Char) (a : ℕ) : Option (List Char) := sliceBytes s a (byteLength s)

/-- `str::find` with a character predicate: the byte offset of the first match. -/
def findByte (s : List Char) (p : Char → Bool) : Option ℕ := (s.findIdx? p).map (byteOffset s)

/-- `str::char_indices`: each character with its byte offset. -/
def charIndices (s : List Char) : List (Char × ℕ) := s.zipIdx.map fun p => (p.1, byteOffset s p.2)

/-! ### Offsets -/

@[simp]
theorem byteOffset_zero (s : List Char) : byteOffset s 0 = 0 := by simp [byteOffset]

@[simp]
theorem byteOffset_cons_succ (c : Char) (cs : List Char) (i : ℕ) :
    byteOffset (c :: cs) (i + 1) = c.utf8Size + byteOffset cs i := by
  simp [byteOffset]

theorem byteOffset_succ {s : List Char} {i : ℕ} (h : i < s.length) :
    byteOffset s (i + 1) = byteOffset s i + s[i].utf8Size := by
  induction s generalizing i with
  | nil => exact absurd h (by simp)
  | cons c cs ih =>
    cases i with
    | zero => simp
    | succ i =>
      rw [byteOffset_cons_succ, byteOffset_cons_succ, ih (by simpa using h)]
      simp only [List.getElem_cons_succ]
      omega

/-- An ASCII character takes one byte. -/
theorem utf8Size_of_ascii {c : Char} (h : c.toNat < 128) : c.utf8Size = 1 := by
  refine Char.utf8Size_eq_one_iff.mpr ?_
  simp only [Char.toNat] at h
  simp only [UInt32.le_iff_toNat_le]
  exact Nat.le_of_lt_succ h

/-- Just after an ASCII character, the offset of the next index. -/
theorem byteOffset_succ_of_ascii {s : List Char} {i : ℕ} (h : i < s.length)
    (hascii : s[i].toNat < 128) : byteOffset s (i + 1) = byteOffset s i + 1 := by
  rw [byteOffset_succ h, utf8Size_of_ascii hascii]

/-- Past the end, the offset is the length. -/
theorem byteOffset_of_length_le {s : List Char} {i : ℕ} (h : s.length ≤ i) :
    byteOffset s i = byteLength s := by
  rw [byteOffset, byteLength, byteOffset, List.take_of_length_le h, List.take_length]

/-- The offsets of a prefix are those of the whole string. -/
theorem byteOffset_take {s : List Char} {i j : ℕ} (h : j ≤ i) :
    byteOffset (s.take i) j = byteOffset s j := by
  rw [byteOffset, byteOffset, List.take_take, Nat.min_eq_left h]

/-- The offset just after an ASCII prefix is its length. -/
theorem byteOffset_append_of_ascii {p : List Char} (s : List Char)
    (hp : ∀ c ∈ p, c.toNat < 128) : byteOffset (p ++ s) p.length = p.length := by
  induction p with
  | nil => simp
  | cons c p ih =>
    rw [List.cons_append, List.length_cons, byteOffset_cons_succ,
      utf8Size_of_ascii (hp c List.mem_cons_self),
      ih fun d hd => hp d (List.mem_cons_of_mem c hd), Nat.add_comm]

/-! ### Slices at character boundaries -/

/-- The byte offset of an index is a boundary, found at that index. -/
theorem charIndexAt_byteOffset :
    ∀ (s : List Char) (i k : ℕ), i ≤ s.length → charIndexAt s (byteOffset s i) k = some (k + i)
  | _, 0, k, _ => by simp [charIndexAt]
  | [], _ + 1, _, h => absurd h (by simp)
  | c :: cs, i + 1, k, h => by
    -- a character takes at least one byte, so the offset is a successor
    obtain ⟨b, hb⟩ : ∃ b, c.utf8Size + byteOffset cs i = b + 1 :=
      ⟨c.utf8Size + byteOffset cs i - 1, by have := Char.utf8Size_pos c; omega⟩
    have hle : c.utf8Size ≤ b + 1 := by omega
    rw [byteOffset_cons_succ, hb, charIndexAt, if_pos hle,
      show b + 1 - c.utf8Size = byteOffset cs i by omega,
      charIndexAt_byteOffset cs i (k + 1) (by simpa using h)]
    congr 1
    omega

/-- **Slicing between the offsets of two indices never panics**, and gives the characters
between them. -/
theorem sliceBytes_byteOffset {s : List Char} {i j : ℕ} (hij : i ≤ j) (hj : j ≤ s.length) :
    sliceBytes s (byteOffset s i) (byteOffset s j) = some ((s.drop i).take (j - i)) := by
  simp only [sliceBytes, charIndexAt_byteOffset s i 0 (Nat.le_trans hij hj),
    charIndexAt_byteOffset s j 0 hj, Nat.zero_add, Option.bind_eq_bind, Option.bind_some,
    if_pos hij]

/-- Slicing from the start to the offset of an index gives what precedes the index. -/
theorem sliceBytes_zero_byteOffset {s : List Char} {i : ℕ} (hi : i ≤ s.length) :
    sliceBytes s 0 (byteOffset s i) = some (s.take i) := by
  rw [← byteOffset_zero s, sliceBytes_byteOffset (Nat.zero_le i) hi]
  simp

/-- Slicing from the offset of an index to the end gives what follows the index, past the
end included. -/
theorem sliceFrom_byteOffset (s : List Char) (i : ℕ) :
    sliceFrom s (byteOffset s i) = some (s.drop i) := by
  rcases Nat.le_total i s.length with hi | hi
  · rw [sliceFrom, byteLength, sliceBytes_byteOffset hi (Nat.le_refl _),
      List.take_of_length_le]
    simp
  · rw [byteOffset_of_length_le hi, sliceFrom, byteLength,
      sliceBytes_byteOffset (Nat.le_refl _) (Nat.le_refl _), List.drop_of_length_le hi]
    simp

/-- Slicing off an ASCII prefix by its length never panics. -/
theorem sliceFrom_append_of_ascii {p : List Char} (s : List Char)
    (hp : ∀ c ∈ p, c.toNat < 128) : sliceFrom (p ++ s) p.length = some s := by
  conv_lhs => rw [← byteOffset_append_of_ascii s hp]
  rw [sliceFrom_byteOffset, List.drop_left]

/-! ### Searches -/

/-- A search that finds nothing stands for the end. -/
theorem findByte_getD (s : List Char) (p : Char → Bool) :
    (findByte s p).getD (byteLength s) = byteOffset s ((s.findIdx? p).getD s.length) := by
  rw [findByte]
  cases s.findIdx? p <;> rfl

/-- A search in a prefix finds what a search of the whole string finds there. -/
theorem findByte_take (s : List Char) (p : Char → Bool) (i : ℕ) :
    findByte (s.take i) p = ((s.take i).findIdx? p).map (byteOffset s) := by
  rw [findByte]
  cases h : (s.take i).findIdx? p with
  | none => rfl
  | some j =>
    obtain ⟨hj, -⟩ := List.findIdx?_eq_some_iff_getElem.mp h
    rw [Option.map_some, Option.map_some,
      byteOffset_take (Nat.le_of_lt (Nat.lt_of_lt_of_le hj (List.length_take_le i s)))]

/-- A search in a prefix that finds a match has found the first match of the whole string. -/
theorem findIdx?_eq_some_of_take {s : List Char} {p : Char → Bool} {i j : ℕ}
    (h : (s.take i).findIdx? p = some j) : s.findIdx? p = some j := by
  obtain ⟨hj, hpj, hbefore⟩ := List.findIdx?_eq_some_iff_getElem.mp h
  have hjs : j < s.length := Nat.lt_of_lt_of_le hj (List.length_take_le' i s)
  refine List.findIdx?_eq_some_iff_getElem.mpr ⟨hjs, ?_, fun k hk => ?_⟩
  · rwa [List.getElem_take] at hpj
  · have := hbefore k hk
    rwa [List.getElem_take] at this

/-- What is left after the first match starts with a match, if anything is left. -/
theorem head?_drop_findIdx? (s : List Char) (p : Char → Bool) :
    ∀ c ∈ (s.drop ((s.findIdx? p).getD s.length)).head?, p c = true := by
  intro c hc
  cases h : s.findIdx? p with
  | none => simp [h] at hc
  | some j =>
    obtain ⟨hj, hpj, -⟩ := List.findIdx?_eq_some_iff_getElem.mp h
    rw [h, Option.getD_some, List.head?_drop, List.getElem?_eq_getElem hj] at hc
    exact Option.some_inj.mp hc ▸ hpj

/-- **Cutting at a found ASCII delimiter never panics**: before it, the prefix up to its
index; after it, the rest past its index. -/
theorem slices_findIdx?_of_ascii {s : List Char} {p : Char → Bool} {j : ℕ}
    (h : s.findIdx? p = some j) (hp : ∀ c, p c = true → c.toNat < 128) :
    sliceBytes s 0 (byteOffset s j) = some (s.take j) ∧
      sliceFrom s (byteOffset s j + 1) = some (s.drop (j + 1)) := by
  obtain ⟨hj, hpj, -⟩ := List.findIdx?_eq_some_iff_getElem.mp h
  refine ⟨sliceBytes_zero_byteOffset (Nat.le_of_lt hj), ?_⟩
  rw [← byteOffset_succ_of_ascii hj (hp _ hpj), sliceFrom_byteOffset]

end Rhymuri
