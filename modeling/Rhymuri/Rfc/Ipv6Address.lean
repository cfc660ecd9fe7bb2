import Rhymuri.Rfc.Grammar

/-!
# The nine alternatives of `IPv6address`, in groups

The rule `IPv6address` of RFC 3986 lists nine alternatives, one for each place the
double colon can stand in. Read as words, they say one thing: an address is eight
groups' worth without a double colon, or at most seven groups' worth around one,
where a group is one to four hexadecimal digits (`Rhymuri.Rfc.IsH16`) and an IPv4 part,
which may only come last, is worth two.

`Rhymuri.Rfc.Ipv6Text` states this in terms of lists of groups, and
`Rhymuri.Rfc.mem_ipv6address_iff` proves that it is the language of the nine
alternatives. The validator of `src/validate_ipv6_address.rs` is compared with
`Rhymuri.Rfc.Ipv6Text`, the form in which its groups and colons appear.
-/

namespace Rhymuri

namespace Rfc

open Language

/-- A group of an IPv6 address: one to four hexadecimal digits. -/
def IsH16 (g : List Char) : Prop := 1 ≤ g.length ∧ g.length ≤ 4 ∧ ∀ c ∈ g, hexdig c = true

/-- `n` groups' worth at the end of an address: `n` groups joined by colons, or `n - 2`
groups each followed by a colon and then an IPv4 part. -/
def IsTail (ipv4 : Language Char) (n : ℕ) (w : List Char) : Prop :=
  (∃ gs : List (List Char), gs.length = n ∧ (∀ g ∈ gs, IsH16 g) ∧ w = [':'].intercalate gs) ∨
  ∃ (gs : List (List Char)) (v : List Char), gs.length + 2 = n ∧ (∀ g ∈ gs, IsH16 g) ∧
    v ∈ ipv4 ∧ w = gs.flatMap (· ++ [':']) ++ v

/-- An address with a double colon: groups joined by colons, the double colon, and
`r` groups' worth, at most seven together. -/
def IsDoubleColonText (ipv4 : Language Char) (r : ℕ) (a : List Char) : Prop :=
  ∃ (ls : List (List Char)) (w : List Char), ls.length + r ≤ 7 ∧ (∀ g ∈ ls, IsH16 g) ∧
    IsTail ipv4 r w ∧ a = [':'].intercalate ls ++ [':', ':'] ++ w

/-- **An IPv6 address in groups**: eight groups' worth, or at most seven around a double
colon. -/
def Ipv6Text (ipv4 : Language Char) (a : List Char) : Prop :=
  IsTail ipv4 8 a ∨ ∃ r ≤ 7, IsDoubleColonText ipv4 r a

/-! ### Groups -/

theorem mem_h16 {g : List Char} : g ∈ h16 ↔ IsH16 g := by
  have h1 : g ∈ ofPred hexdig ↔ g ∈ ofPred hexdig ^ 1 := by rw [pow_one]
  rw [h16, mem_add, mem_add, mem_add, h1]
  simp only [mem_ofPred_pow]
  constructor
  · rintro (((⟨hl, h⟩ | ⟨hl, h⟩) | ⟨hl, h⟩) | ⟨hl, h⟩) <;> exact ⟨by omega, by omega, h⟩
  · rintro ⟨hlo, hhi, h⟩
    -- one alternative for each length
    have hl : g.length = 1 ∨ g.length = 2 ∨ g.length = 3 ∨ g.length = 4 := by omega
    rcases hl with hl | hl | hl | hl
    · exact Or.inl (Or.inl (Or.inl ⟨hl, h⟩))
    · exact Or.inl (Or.inl (Or.inr ⟨hl, h⟩))
    · exact Or.inl (Or.inr ⟨hl, h⟩)
    · exact Or.inr ⟨hl, h⟩

theorem forall_mem_h16 {gs : List (List Char)} :
    (∀ g ∈ gs, g ∈ h16) ↔ ∀ g ∈ gs, IsH16 g := by
  simp only [mem_h16]

/-- `m( h16 ":" )`: `m` groups, each followed by a colon. -/
theorem mem_h16_colon_pow {m : ℕ} {w : List Char} :
    w ∈ (h16 * lit [':']) ^ m ↔
      ∃ gs : List (List Char), gs.length = m ∧ (∀ g ∈ gs, IsH16 g) ∧
        w = gs.flatMap (· ++ [':']) := by
  rw [lit, mem_mul_singleton_pow]
  simp only [forall_mem_h16]

/-- `[ *k( h16 ":" ) h16 ]`: at most `k + 1` groups joined by colons. -/
theorem mem_leftPart {k : ℕ} {w : List Char} :
    w ∈ 1 + repeatUpTo k (h16 * lit [':']) * h16 ↔
      ∃ ls : List (List Char), ls.length ≤ k + 1 ∧ (∀ g ∈ ls, IsH16 g) ∧
        w = [':'].intercalate ls := by
  rw [lit, mem_one_add_repeatUpTo_mul]
  simp only [forall_mem_h16]

/-! ### Tails -/

section Tails

variable {ipv4 : Language Char}

theorem isTail_zero {w : List Char} : IsTail ipv4 0 w ↔ w = [] := by
  constructor
  · rintro (⟨gs, hl, -, rfl⟩ | ⟨gs, v, hl, -⟩)
    · rw [List.length_eq_zero_iff.mp hl]
      rfl
    · omega
  · rintro rfl
    exact Or.inl ⟨[], rfl, by simp, rfl⟩

theorem isTail_one {w : List Char} : IsTail ipv4 1 w ↔ IsH16 w := by
  constructor
  · rintro (⟨gs, hl, hgs, rfl⟩ | ⟨gs, v, hl, -⟩)
    · obtain ⟨g, rfl⟩ := List.length_eq_one_iff.mp hl
      simpa using hgs
    · omega
  · intro h
    exact Or.inl ⟨[w], rfl, by simpa using h, by simp⟩

/-- `ls32` is two groups' worth. -/
theorem mem_ls32 {w : List Char} : w ∈ ls32 ipv4 ↔ IsTail ipv4 2 w := by
  rw [ls32, mem_add, mem_mul, IsTail]
  constructor
  · rintro (⟨u, ⟨g₁, hg₁, c, rfl, rfl⟩, g₂, hg₂, rfl⟩ | hv)
    · refine Or.inl ⟨[g₁, g₂], rfl, fun g hg => ?_, by simp⟩
      simp only [List.mem_cons, List.not_mem_nil, or_false] at hg
      rcases hg with rfl | rfl
      · exact mem_h16.mp hg₁
      · exact mem_h16.mp hg₂
    · exact Or.inr ⟨[], w, rfl, by simp, hv, rfl⟩
  · rintro (⟨gs, hl, hgs, rfl⟩ | ⟨gs, v, hl, -, hv, rfl⟩)
    · obtain ⟨g₁, g₂, rfl⟩ := List.length_eq_two.mp hl
      refine Or.inl ⟨g₁ ++ [':'], ⟨g₁, mem_h16.mpr (hgs g₁ (by simp)), [':'], rfl, rfl⟩, g₂,
        mem_h16.mpr (hgs g₂ (by simp)), by simp⟩
    · rw [List.length_eq_zero_iff.mp (by omega : gs.length = 0)]
      exact Or.inr hv

/-- **Splitting off leading groups**: `m + n` groups' worth, for `n ≥ 2`, are `m` groups
each followed by a colon, then `n` groups' worth. -/
theorem isTail_add_iff {m n : ℕ} (hn : 2 ≤ n) {w : List Char} :
    IsTail ipv4 (m + n) w ↔
      ∃ (gs : List (List Char)) (b : List Char), gs.length = m ∧ (∀ g ∈ gs, IsH16 g) ∧
        IsTail ipv4 n b ∧ w = gs.flatMap (· ++ [':']) ++ b := by
  constructor
  · rintro (⟨gs, hl, hgs, rfl⟩ | ⟨gs, v, hl, hgs, hv, rfl⟩)
    · -- the first `m` groups are cut off the joined ones
      have hne : gs.drop m ≠ [] := by
        intro h
        have := congrArg List.length h
        simp at this
        omega
      refine ⟨gs.take m, [':'].intercalate (gs.drop m), by simp; omega,
        fun g hg => hgs g (List.mem_of_mem_take hg),
        Or.inl ⟨gs.drop m, by simp; omega, fun g hg => hgs g (List.mem_of_mem_drop hg), rfl⟩, ?_⟩
      rw [List.flatMap_append_singleton_append_intercalate ':' _ hne, List.take_append_drop]
    · -- the IPv4 part stays in the tail
      refine ⟨gs.take m, (gs.drop m).flatMap (· ++ [':']) ++ v, by simp; omega,
        fun g hg => hgs g (List.mem_of_mem_take hg),
        Or.inr ⟨gs.drop m, v, by simp; omega, fun g hg => hgs g (List.mem_of_mem_drop hg), hv,
          rfl⟩, ?_⟩
      rw [← List.append_assoc, ← List.flatMap_append, List.take_append_drop]
  · rintro ⟨gs, b, rfl, hgs, (⟨hs, hl, hhs, rfl⟩ | ⟨hs, v, hl, hhs, hv, rfl⟩), rfl⟩
    · have hne : hs ≠ [] := by
        rintro rfl
        simp at hl
        omega
      refine Or.inl ⟨gs ++ hs, by simp [hl], fun g hg => ?_, ?_⟩
      · rcases List.mem_append.mp hg with hg | hg
        · exact hgs g hg
        · exact hhs g hg
      · rw [List.flatMap_append_singleton_append_intercalate ':' _ hne]
    · refine Or.inr ⟨gs ++ hs, v, by simp; omega, fun g hg => ?_, hv, ?_⟩
      · rcases List.mem_append.mp hg with hg | hg
        · exact hgs g hg
        · exact hhs g hg
      · rw [List.flatMap_append, List.append_assoc]

/-- `m( h16 ":" ) ls32` is `m + 2` groups' worth. -/
theorem mem_h16_colon_pow_ls32 {m : ℕ} {w : List Char} :
    w ∈ (h16 * lit [':']) ^ m * ls32 ipv4 ↔ IsTail ipv4 (m + 2) w := by
  rw [isTail_add_iff le_rfl, mem_mul]
  constructor
  · rintro ⟨u, hu, b, hb, rfl⟩
    obtain ⟨gs, hl, hgs, rfl⟩ := mem_h16_colon_pow.mp hu
    exact ⟨gs, b, hl, hgs, mem_ls32.mp hb, rfl⟩
  · rintro ⟨gs, b, hl, hgs, hb, rfl⟩
    exact ⟨_, mem_h16_colon_pow.mpr ⟨gs, hl, hgs, rfl⟩, b, mem_ls32.mpr hb, rfl⟩

end Tails

/-! ### The alternatives -/

section Alternatives

variable {ipv4 : Language Char}

/-- An alternative with a double colon: its left part, the double colon, and a right part
of `r` groups' worth. -/
theorem mem_leftPart_mul {k r : ℕ} {R : Language Char} (hR : ∀ w, w ∈ R ↔ IsTail ipv4 r w)
    (hkr : k + r = 6) {a : List Char} :
    a ∈ (1 + repeatUpTo k (h16 * lit [':']) * h16) * lit [':', ':'] * R ↔
      IsDoubleColonText ipv4 r a := by
  simp only [mem_mul, mem_leftPart, mem_lit, hR, IsDoubleColonText]
  constructor
  · rintro ⟨_, ⟨_, ⟨ls, hl, hls, rfl⟩, _, rfl, rfl⟩, w, hw, rfl⟩
    exact ⟨ls, w, by omega, hls, hw, rfl⟩
  · rintro ⟨ls, w, hl, hls, hw, rfl⟩
    exact ⟨_, ⟨_, ⟨ls, by omega, hls, rfl⟩, _, rfl, rfl⟩, w, hw, rfl⟩

/-- The second alternative, whose left part is empty. -/
theorem mem_doubleColon_mul {R : Language Char} (hR : ∀ w, w ∈ R ↔ IsTail ipv4 7 w)
    {a : List Char} : a ∈ lit [':', ':'] * R ↔ IsDoubleColonText ipv4 7 a := by
  simp only [mem_mul, mem_lit, hR, IsDoubleColonText]
  constructor
  · rintro ⟨_, rfl, w, hw, rfl⟩
    exact ⟨[], w, by simp, by simp, hw, rfl⟩
  · rintro ⟨ls, w, hl, -, hw, rfl⟩
    rw [List.length_eq_zero_iff.mp (by omega : ls.length = 0)]
    exact ⟨_, rfl, w, hw, rfl⟩

/-- Eight alternatives, one for each number of groups after the double colon. -/
theorem exists_le_seven {P : ℕ → Prop} :
    (∃ r ≤ 7, P r) ↔ P 7 ∨ P 6 ∨ P 5 ∨ P 4 ∨ P 3 ∨ P 2 ∨ P 1 ∨ P 0 := by
  constructor
  · rintro ⟨r, hr, h⟩
    rcases r with _ | _ | _ | _ | _ | _ | _ | _ | r
    all_goals first | omega | simp [h]
  · rintro (h | h | h | h | h | h | h | h) <;> exact ⟨_, by omega, h⟩

/-- **The nine alternatives of `IPv6address` are the addresses in groups.** -/
theorem mem_ipv6address_iff (a : List Char) : a ∈ ipv6address ipv4 ↔ Ipv6Text ipv4 a := by
  have hls32 : ∀ w, w ∈ ls32 ipv4 ↔ IsTail ipv4 2 w := fun w => mem_ls32
  have hpow : ∀ m w, w ∈ (h16 * lit [':']) ^ m * ls32 ipv4 ↔ IsTail ipv4 (m + 2) w :=
    fun m w => mem_h16_colon_pow_ls32
  have hone : ∀ w, w ∈ (h16 * lit [':']) * ls32 ipv4 ↔ IsTail ipv4 3 w := fun w => by
    rw [← pow_one (h16 * lit [':'])]
    exact hpow 1 w
  have hh16 : ∀ w, w ∈ h16 ↔ IsTail ipv4 1 w := fun w => by rw [isTail_one, mem_h16]
  have hnil : ∀ w, w ∈ (1 : Language Char) ↔ IsTail ipv4 0 w := fun w => by
    rw [isTail_zero, mem_one]
  have hfirst : (1 + h16) = 1 + repeatUpTo 0 (h16 * lit [':']) * h16 := by
    rw [repeatUpTo_zero, one_mul]
  rw [Ipv6Text, exists_le_seven, ipv6address]
  simp only [mem_add, or_assoc]
  -- each alternative, after reassociating its product, is one disjunct
  rw [hpow 6, mul_assoc _ _ (ls32 ipv4), mem_doubleColon_mul (hpow 5),
    hfirst, mul_assoc _ _ (ls32 ipv4), mem_leftPart_mul (hpow 4) rfl,
    mul_assoc _ _ (ls32 ipv4), mem_leftPart_mul (hpow 3) rfl,
    mul_assoc _ _ (ls32 ipv4), mem_leftPart_mul (hpow 2) rfl,
    mul_assoc _ _ (ls32 ipv4), mem_leftPart_mul hone rfl,
    mem_leftPart_mul hls32 rfl, mem_leftPart_mul hh16 rfl,
    ← mul_one ((1 + repeatUpTo 6 (h16 * lit [':']) * h16) * lit [':', ':']),
    mem_leftPart_mul hnil rfl]

end Alternatives

/-! ### The characters of an address -/

section Characters

variable {ipv4 : Language Char} {q : Char → Prop}

/-- Every character of a tail is a hexadecimal digit, a colon, or a character of its
IPv4 part. -/
theorem isTail_chars (hhex : ∀ c, hexdig c = true → q c) (hcolon : q ':')
    (hipv4 : ∀ v ∈ ipv4, ∀ c ∈ v, q c) {n : ℕ} {w : List Char} (h : IsTail ipv4 n w) :
    ∀ c ∈ w, q c := by
  have hgroups : ∀ gs : List (List Char), (∀ g ∈ gs, IsH16 g) → ∀ g ∈ gs, ∀ c ∈ g, q c :=
    fun gs hgs g hg c hc => hhex c ((hgs g hg).2.2 c hc)
  rcases h with ⟨gs, -, hgs, rfl⟩ | ⟨gs, v, -, hgs, hv, rfl⟩
  · exact List.forall_mem_intercalate (by simpa using hcolon) (hgroups gs hgs)
  · intro c hc
    rcases List.mem_append.mp hc with hc | hc
    · obtain ⟨g, hg, hc⟩ := List.mem_flatMap.mp hc
      rcases List.mem_append.mp hc with hc | hc
      · exact hgroups gs hgs g hg c hc
      · exact List.mem_singleton.mp hc ▸ hcolon
    · exact hipv4 v hv c hc

/-- **Every character of an address in groups is a hexadecimal digit, a colon, or a
character of its IPv4 part.** -/
theorem ipv6Text_chars (hhex : ∀ c, hexdig c = true → q c) (hcolon : q ':')
    (hipv4 : ∀ v ∈ ipv4, ∀ c ∈ v, q c) {a : List Char} (h : Ipv6Text ipv4 a) :
    ∀ c ∈ a, q c := by
  rcases h with h | ⟨r, -, ls, w, -, hls, hw, rfl⟩
  · exact isTail_chars hhex hcolon hipv4 h
  · intro c hc
    simp only [List.mem_append, List.mem_cons, List.not_mem_nil, or_false] at hc
    rcases hc with (hc | hc | hc) | hc
    · exact List.forall_mem_intercalate (by simpa using hcolon)
        (fun g hg c hc => hhex c ((hls g hg).2.2 c hc)) c hc
    · exact hc ▸ hcolon
    · exact hc ▸ hcolon
    · exact isTail_chars hhex hcolon hipv4 hw c hc

end Characters

/-! ### Addresses without a dot

An IPv4 part holds a dot, so an address without one is made of groups only, and does not
depend on which IPv4 parts the rule admits. -/

section NoDot

variable {ipv4 ipv4' : Language Char} (hdot : ∀ v ∈ ipv4, '.' ∈ v)
include hdot

theorem isTail_of_dot_not_mem {n : ℕ} {w : List Char} (h : IsTail ipv4 n w) (hw : '.' ∉ w) :
    IsTail ipv4' n w := by
  rcases h with hgroups | ⟨gs, v, -, -, hv, rfl⟩
  · exact .inl hgroups
  · exact absurd (List.mem_append_right _ (hdot v hv)) hw

theorem ipv6Text_of_dot_not_mem {a : List Char} (h : Ipv6Text ipv4 a) (ha : '.' ∉ a) :
    Ipv6Text ipv4' a := by
  rcases h with h | ⟨r, hr, ls, w, hlen, hls, hw, rfl⟩
  · exact .inl (isTail_of_dot_not_mem hdot h ha)
  · have hw' : '.' ∉ w := fun hc => ha (List.mem_append_right _ hc)
    exact .inr ⟨r, hr, ls, w, hlen, hls, isTail_of_dot_not_mem hdot hw hw', rfl⟩

end NoDot

end Rfc

end Rhymuri
