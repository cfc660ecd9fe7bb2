import Rhymuri.Rfc.RemoveDotSegments

/-!
# Reference resolution, RFC 3986 section 5.2

A reference is resolved against a base URI component by component (section 5.2.2,
"Transform References"): a reference with a scheme or an authority keeps its own, a
reference with an empty path keeps the base's path and, unless it has one, the base's
query, and any other path is taken as it is when it starts with `/` or merged with the
base's path (section 5.2.3) when it does not, and its dot segments are removed (section
5.2.4, `Rhymuri.Rfc.removeDotSegments`). The fragment is always the reference's.

The algorithm never looks into a scheme or an authority, only at whether they are
defined, so `Rhymuri.Rfc.Reference` leaves their types as parameters; paths, queries
and fragments are byte strings.
-/

namespace Rhymuri

namespace Rfc

/-- The five components of a URI reference (section 5.2.1): a scheme, an authority, a
query and a fragment, each defined or not, and a path, which is always defined but may be
empty. -/
structure Reference (σ α : Type*) where
  /-- The scheme. -/
  scheme : Option σ
  /-- The authority. -/
  authority : Option α
  /-- The path. -/
  path : List UInt8
  /-- The query. -/
  query : Option (List UInt8)
  /-- The fragment. -/
  fragment : Option (List UInt8)
  deriving DecidableEq, Repr

variable {σ α : Type*}

/-- `merge` (section 5.2.3): the reference's path after `/` when the base has an authority
and an empty path, and otherwise after all but the last segment of the base's path, that
is, after the base's path up to its last `/`. -/
def merge (base : Reference σ α) (path : List UInt8) : List UInt8 :=
  if base.authority.isSome && base.path.isEmpty then 47 :: path
  else (base.path.reverse.dropWhile (· != 47)).reverse ++ path

/-- **Transform References** (section 5.2.2), in its strict form: the target of the
reference `r` against the base `base`. -/
def transformReferences (base r : Reference σ α) : Reference σ α :=
  if r.scheme.isSome then
    ⟨r.scheme, r.authority, removeDotSegments r.path, r.query, r.fragment⟩
  else if r.authority.isSome then
    ⟨base.scheme, r.authority, removeDotSegments r.path, r.query, r.fragment⟩
  else if r.path = [] then
    ⟨base.scheme, base.authority, base.path, if r.query.isSome then r.query else base.query,
      r.fragment⟩
  else if r.path.head? = some 47 then
    ⟨base.scheme, base.authority, removeDotSegments r.path, r.query, r.fragment⟩
  else
    ⟨base.scheme, base.authority, removeDotSegments (merge base r.path), r.query, r.fragment⟩

/-- Merging after an absolute path of segments that hold no `/`: the reference's path
replaces the last segment. -/
theorem merge_slashed {base : Reference σ α} {ts : List (List UInt8)} {t : List UInt8}
    (hbase : base.path = slashed (ts ++ [t])) (ht : 47 ∉ t) (path : List UInt8) :
    merge base path = slashed ts ++ 47 :: path := by
  have hne : base.path.isEmpty = false := by simp [hbase]
  rw [merge, hne, Bool.and_false, if_neg Bool.false_ne_true, hbase,
    reverse_slashed_dropWhile ht]
  simp

end Rfc

end Rhymuri
