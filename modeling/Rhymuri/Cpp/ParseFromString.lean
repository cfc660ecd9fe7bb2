import Rhymuri.Cpp.Uri

/-!
# `ParseFromString` does not depend on what the object held

A `Uri` object can be parsed into more than once, and every helper of `ParseFromString` writes
only some of the fields (the table in `Rhymuri.Cpp.Uri`). Each helper, run on any fields,
does what it does on the fields of a fresh object and copies what it wrote; what it computes
never reads a field it has not written (`Rhymuri.Cpp.Impl.parseScheme_frame` and the others
below). `SetDefaultPathIfAuthorityPresentAndPathEmpty` reads `host` and `path`, both written
just before it.

Put together, parsing into any object is parsing into a fresh one, except that the old port
stays when the new reference has none (`Rhymuri.Cpp.Impl.parseFromString_eq_new`), which
`Uri::operator==` and `HasPort` do not look at.
-/

namespace Rhymuri

namespace Cpp

namespace Impl

/-! ### What each helper writes -/

theorem parseScheme_frame (impl : Impl) (uriString : List Char) :
    impl.parseScheme uriString =
      (Impl.new.parseScheme uriString).map fun p => ({ impl with scheme := p.1.scheme }, p.2) := by
  unfold parseScheme
  dsimp only
  split
  · rfl
  · split_ifs <;> rfl

/-- `ParseAuthority` writes the userinfo, the host and the port flag, and the port only when
there is one. -/
theorem parseAuthority_frame (impl : Impl) (authorityString : List Char) :
    impl.parseAuthority authorityString =
      (Impl.new.parseAuthority authorityString).map fun a =>
        { impl with
          userInfo := a.userInfo, host := a.host, hasPort := a.hasPort,
          port := if a.hasPort then a.port else impl.port } := by
  simp only [parseAuthority, Option.bind_eq_bind, Option.map_bind, Function.comp_def]
  -- the userinfo, the host loop and the port do not read the fields
  refine Option.bind_congr fun _ _ => Option.bind_congr fun _ _ => Option.bind_congr fun p _ => ?_
  obtain ⟨host, port⟩ := p
  cases port <;> rfl

theorem splitAuthorityFromPathAndParseIt_frame (impl : Impl) (authorityAndPathString : List Char) :
    impl.splitAuthorityFromPathAndParseIt authorityAndPathString =
      (Impl.new.splitAuthorityFromPathAndParseIt authorityAndPathString).map fun p =>
        ({ impl with
          userInfo := p.1.userInfo, host := p.1.host, hasPort := p.1.hasPort,
          port := if p.1.hasPort then p.1.port else impl.port }, p.2) := by
  unfold splitAuthorityFromPathAndParseIt
  dsimp only
  split_ifs
  · rw [parseAuthority_frame impl, Option.map_map, Option.map_map]
    rfl
  · rfl

theorem parsePath_frame (impl : Impl) (pathString : List Char) :
    impl.parsePath pathString =
      (Impl.new.parsePath pathString).map fun p => { impl with path := p.path } := by
  simp only [parsePath, Option.map_map]
  rfl

/-- `SetDefaultPathIfAuthorityPresentAndPathEmpty` writes the path from the host and the
path. -/
theorem setDefaultPathIfAuthorityPresentAndPathEmpty_eq (impl : Impl) :
    impl.setDefaultPathIfAuthorityPresentAndPathEmpty =
      { impl with path := if impl.host ≠ [] ∧ impl.path = [] then [[]] else impl.path } := by
  unfold setDefaultPathIfAuthorityPresentAndPathEmpty
  split_ifs <;> rfl

theorem parseFragment_frame (impl : Impl) (queryAndOrFragment : List Char) :
    impl.parseFragment queryAndOrFragment =
      (Impl.new.parseFragment queryAndOrFragment).map fun p =>
        ({ impl with hasFragment := p.1.hasFragment, fragment := p.1.fragment }, p.2) := by
  simp only [parseFragment, Option.map_map]
  rfl

theorem parseQuery_frame (impl : Impl) (queryWithDelimiter : List Char) :
    impl.parseQuery queryWithDelimiter =
      (Impl.new.parseQuery queryWithDelimiter).map fun q =>
        { impl with hasQuery := q.hasQuery, query := q.query } := by
  simp only [parseQuery, Option.map_map]
  rfl

/-! ### The whole parse -/

/-- **Parsing into any object is parsing into a fresh one**, except that the old port stays
when the new reference has none. -/
theorem parseFromString_eq_new (impl : Impl) (uriString : List Char) :
    impl.parseFromString uriString =
      (Impl.new.parseFromString uriString).map fun r =>
        if r.hasPort then r else { r with port := impl.port } := by
  simp only [parseFromString, Option.bind_eq_bind]
  -- one helper at a time: both sides run the helper of a fresh object and copy its fields
  conv_lhs => rw [parseScheme_frame]
  cases Impl.new.parseScheme uriString with
  | none => rfl
  | some p =>
    obtain ⟨s, rest⟩ := p
    simp only [Option.map_some, Option.bind_some]
    conv_lhs => rw [splitAuthorityFromPathAndParseIt_frame]
    conv_rhs => rw [splitAuthorityFromPathAndParseIt_frame]
    cases Impl.new.splitAuthorityFromPathAndParseIt
        (rest.take ((rest.findIdx? fun c => c = '?' ∨ c = '#').getD rest.length)) with
    | none => rfl
    | some q =>
      obtain ⟨a, pathString⟩ := q
      simp only [Option.map_some, Option.bind_some]
      conv_lhs => rw [parsePath_frame]
      conv_rhs => rw [parsePath_frame]
      cases Impl.new.parsePath pathString with
      | none => rfl
      | some p =>
        simp only [Option.map_some, Option.bind_some,
          setDefaultPathIfAuthorityPresentAndPathEmpty_eq]
        conv_lhs => rw [parseFragment_frame]
        conv_rhs => rw [parseFragment_frame]
        cases Impl.new.parseFragment _ with
        | none => rfl
        | some f =>
          obtain ⟨f, possibleQuery⟩ := f
          simp only [Option.map_some, Option.bind_some]
          conv_lhs => rw [parseQuery_frame]
          conv_rhs => rw [parseQuery_frame]
          cases Impl.new.parseQuery possibleQuery with
          | none => rfl
          | some q =>
            -- every field but the port is written; the port is written when there is one
            cases a.hasPort <;> rfl

/-! ### Two objects parsed from one string -/

/-- Two objects whose getters all agree: every field is the same but the port, and the port
too when there is one. -/
structure SameGetters (a b : Impl) : Prop where
  eq_except_port : { a with port := 0 } = { b with port := 0 }
  port_of_hasPort : a.hasPort = true → a.port = b.port

/-- `Uri::operator==` holds of two objects whose getters agree. -/
theorem isEqual_of_sameGetters {a b : Impl} (h : SameGetters a b) : a.isEqual b = true := by
  obtain ⟨hfields, hport⟩ := h
  rcases a with ⟨scheme, userInfo, host, hasPort, port, path, hasQuery, query, hasFragment,
    fragment⟩
  cases b
  simp only [mk.injEq] at hfields hport
  obtain ⟨rfl, rfl, rfl, rfl, -, rfl, rfl, rfl, rfl, rfl⟩ := hfields
  -- the ports are compared only when there is one
  cases hasPort
  · simp [isEqual]
  · simp [isEqual, hport rfl]

/-- The port kept from `old` when `r` has none. -/
theorem sameGetters_keepPort (r old old' : Impl) :
    SameGetters (if r.hasPort then r else { r with port := old.port })
      (if r.hasPort then r else { r with port := old'.port }) := by
  cases h : r.hasPort
  · exact ⟨rfl, fun hp => by simp at hp⟩
  · exact ⟨rfl, fun _ => rfl⟩

/-- **`ParseFromString` does not depend on the object's previous contents**: parsed from the
same string, any two objects both fail or both succeed, and then compare equal and have the
same getters, the port apart when there is none. -/
theorem parseFromString_independent (x y : Impl) (uriString : List Char) :
    Option.Rel (fun a b => a.isEqual b = true ∧ SameGetters a b)
      (x.parseFromString uriString) (y.parseFromString uriString) := by
  rw [parseFromString_eq_new x, parseFromString_eq_new y]
  cases Impl.new.parseFromString uriString with
  | none => exact .none
  | some r =>
    have h := sameGetters_keepPort r x y
    exact .some ⟨isEqual_of_sameGetters h, h⟩

/-- Parsed into an object that held a port, a reference without one has none. -/
example : ((Impl.new.parseFromString ['/', '/', 'h', ':', '8']).bind
    (·.parseFromString ['/', '/', 'h'])).map Impl.hasPort = some false := by
  decide

end Impl

end Cpp

end Rhymuri
