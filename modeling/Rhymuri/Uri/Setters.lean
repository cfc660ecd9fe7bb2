import Rhymuri.Uri.Components
import Rhymuri.Uri.Normalize
import Rhymuri.Uri.Resolve

/-!
# The methods that change a URI

A program holds a `Uri` it got from `Uri::default`, from `Uri::parse` or from `Uri::resolve`,
and changes it through the methods that take `&mut self`: the setters, the `take_*` methods
and `normalize`. Each is a function from the URI to the URI it leaves behind here
(`Rhymuri.Uri.Op.apply`); `set_scheme`, the one that can fail, also returns its `Result`.

`set_scheme` is the only door through which a scheme comes in from outside the parser, and
it lets in only what `check_scheme` accepts: a failed call returns the error and leaves the
URI as it was. So **every URI a program can hold has a scheme `check_scheme` accepts, if it
has one** (`Rhymuri.Uri.schemeChecked_of_reachable`): the invariant holds of the default URI
and of what `parse` returns, and every method and every resolution keeps it.

`set_path_from_str` cuts a text at its `/`s and keeps each piece as its UTF-8 bytes. On a
text of `/`s and characters a segment may hold unencoded, `Display` prints that path back as
the text (`Rhymuri.Uri.fmtPath_setPathFromStr`), and `parse_path` reads the same segments
from it (`Rhymuri.Uri.parsePath_eq_ok_setPathFromStr`), but for `/` alone: the setter cuts it
into two empty segments, where the parser reads the one empty segment of an absolute path.
-/

namespace Rhymuri

namespace Uri

/-! ### The methods -/

/-- `Uri::default`, the value `#[derive(Default)]` gives: nothing but an empty path. -/
def default : Uri := ⟨none, none, [], none, none⟩

/-- `Uri::set_authority`. -/
def setAuthority (self : Uri) (authority : Option Authority) : Uri := { self with authority }

/-- `Uri::set_fragment`. -/
def setFragment (self : Uri) (fragment : Option (List UInt8)) : Uri := { self with fragment }

/-- `Uri::set_path`. -/
def setPath (self : Uri) (path : List (List UInt8)) : Uri := { self with path }

/-- `Uri::set_path_from_str`: the empty text is the empty path; any other text is cut at
each `/` (`str::split`), and each piece kept as its UTF-8 bytes (`str::as_bytes`). -/
def setPathFromStr (self : Uri) (path : List Char) : Uri :=
  match path with
  | [] => self.setPath []
  | path => self.setPath ((path.splitOn '/').map fun segment =>
      segment.flatMap String.utf8EncodeChar)

@[simp]
theorem setPathFromStr_scheme (self : Uri) (path : List Char) :
    (self.setPathFromStr path).scheme = self.scheme := by
  cases path <;> rfl

/-- `Uri::set_query`. -/
def setQuery (self : Uri) (query : Option (List UInt8)) : Uri := { self with query }

/-- `Uri::set_scheme`, with the `Result` it returns and the URI it leaves behind: a scheme
`check_scheme` rejects makes the `?` return its error before the assignment. -/
def setScheme (self : Uri) (scheme : Option (List Char)) : Except Error Unit × Uri :=
  match scheme with
  | some scheme =>
    match checkScheme scheme with
    | .ok _ => (.ok (), { self with scheme := some scheme })
    | .error e => (.error e, self)
  | none => (.ok (), { self with scheme := none })

/-- `Uri::take_authority`: the authority, and the URI without it (`Option::take`). -/
def takeAuthority (self : Uri) : Option Authority × Uri :=
  (self.authority, { self with authority := none })

/-- `Uri::take_fragment`. -/
def takeFragment (self : Uri) : Option (List UInt8) × Uri :=
  (self.fragment, { self with fragment := none })

/-- `Uri::take_query`. -/
def takeQuery (self : Uri) : Option (List UInt8) × Uri := (self.query, { self with query := none })

/-- `Uri::take_scheme`. -/
def takeScheme (self : Uri) : Option (List Char) × Uri :=
  (self.scheme, { self with scheme := none })

/-- `Uri::is_relative_reference`: a relative reference has no scheme. -/
def isRelativeReference (self : Uri) : Bool := self.scheme.isNone

/-- `Uri::contains_relative_path`. -/
def containsRelativePath (self : Uri) : Bool := !isPathAbsolute self.path

example : (Uri.default.setPathFromStr ['/', 'a', '/']).path = [[], [97], []] ∧
    (Uri.default.setScheme (some ['1'])).1 = .error (.illegalCharacter .scheme) := by
  decide

/-- The methods that take `&mut self`, with their arguments. -/
inductive Op
  | setAuthority (authority : Option Authority)
  | setFragment (fragment : Option (List UInt8))
  | setPath (path : List (List UInt8))
  | setPathFromStr (path : List Char)
  | setQuery (query : Option (List UInt8))
  | setScheme (scheme : Option (List Char))
  | takeAuthority
  | takeFragment
  | takeQuery
  | takeScheme
  | normalize
  deriving Repr

/-- The URI a method leaves behind. -/
def Op.apply : Op → Uri → Uri
  | .setAuthority authority, u => u.setAuthority authority
  | .setFragment fragment, u => u.setFragment fragment
  | .setPath path, u => u.setPath path
  | .setPathFromStr path, u => u.setPathFromStr path
  | .setQuery query, u => u.setQuery query
  | .setScheme scheme, u => (u.setScheme scheme).2
  | .takeAuthority, u => u.takeAuthority.2
  | .takeFragment, u => u.takeFragment.2
  | .takeQuery, u => u.takeQuery.2
  | .takeScheme, u => u.takeScheme.2
  | .normalize, u => u.normalize

/-- **The URIs a program can hold**: the default one, one that `parse` returns, one that a
method leaves behind, and the target of a resolution of one such URI against another. -/
inductive Reachable : Uri → Prop
  | default : Reachable Uri.default
  | parse {s : List Char} {u : Uri} : parse s = .ok u → Reachable u
  | apply (op : Op) {u : Uri} : Reachable u → Reachable (op.apply u)
  | resolve {base r : Uri} : Reachable base → Reachable r → Reachable (base.resolve r)

/-! ### `set_scheme` -/

/-- A scheme `check_scheme` accepts, or none, is set, and `set_scheme` succeeds. -/
theorem setScheme_of_ok (self : Uri) {scheme : Option (List Char)}
    (h : ∀ s ∈ scheme, checkScheme s = .ok s) :
    self.setScheme scheme = (.ok (), { self with scheme }) := by
  cases scheme with
  | none => rfl
  | some s => simp [setScheme, h s rfl]

/-- **A failed `set_scheme` leaves the URI unchanged**, and returns the error of
`check_scheme`. -/
theorem setScheme_of_error (self : Uri) {s : List Char} {e : Error}
    (h : checkScheme s = .error e) : self.setScheme (some s) = (.error e, self) := by
  simp [setScheme, h]

/-- `set_scheme` either sets the scheme it was given, which `check_scheme` accepts, or leaves
the URI as it was. -/
theorem setScheme_cases (self : Uri) (scheme : Option (List Char)) :
    ((self.setScheme scheme).2 = { self with scheme } ∧ ∀ s ∈ scheme, checkScheme s = .ok s) ∨
      (self.setScheme scheme).2 = self := by
  cases scheme with
  | none => exact .inl ⟨rfl, by simp⟩
  | some s =>
    cases hc : checkScheme s with
    | error e => exact .inr (by rw [setScheme_of_error self hc])
    | ok x =>
      -- `check_scheme` gives back the scheme it accepts
      obtain ⟨rfl, -⟩ := checkScheme_eq_ok_iff.mp hc
      have h : ∀ s' ∈ some x, checkScheme s' = .ok s' := by simpa using hc
      exact .inl ⟨by rw [setScheme_of_ok self h], h⟩

/-! ### The scheme invariant -/

/-- Every scheme of the URI is one `check_scheme` accepts. -/
def SchemeChecked (u : Uri) : Prop := ∀ scheme ∈ u.scheme, checkScheme scheme = .ok scheme

/-- The scheme that `parse_scheme` cuts off is one `check_scheme` accepts: it accepted the
text before the `:`, and accepts its lower case. -/
theorem checkScheme_of_parseScheme {s rest : List Char} {scheme : Option (List Char)}
    (h : parseScheme s = .ok (scheme, rest)) : ∀ x ∈ scheme, checkScheme x = .ok x := by
  unfold parseScheme at h
  dsimp only at h
  split at h
  · obtain ⟨sc, hsc, hpure⟩ := Except.bind_eq_ok.mp h
    obtain ⟨rfl, -⟩ := checkScheme_eq_ok_iff.mp hsc
    obtain ⟨rfl, -⟩ := Prod.mk.inj (Except.ok.inj hpure)
    rintro x ⟨⟩
    exact checkScheme_map_toLower hsc
  · obtain ⟨rfl, -⟩ := Prod.mk.inj (Except.ok.inj h)
    simp

theorem schemeChecked_parse {s : List Char} {u : Uri} (h : parse s = .ok u) : SchemeChecked u := by
  obtain ⟨rest, -, hscheme, -⟩ := parse_eq_ok_parts h
  exact checkScheme_of_parseScheme hscheme

/-- The scheme of a target is the reference's, if it has one, and the base's otherwise. -/
theorem resolve_scheme (base r : Uri) : (base.resolve r).scheme = r.scheme.or base.scheme := by
  unfold resolve
  cases hs : r.scheme with
  | some s => simp
  | none =>
    simp only [Option.isSome_none, Bool.false_eq_true, if_false, Option.or]
    split
    · split_ifs <;> rfl
    · rfl

theorem schemeChecked_resolve {base r : Uri} (hbase : SchemeChecked base) (hr : SchemeChecked r) :
    SchemeChecked (base.resolve r) := by
  intro x hx
  rw [resolve_scheme] at hx
  cases hrs : r.scheme with
  | none => exact hbase x (by simpa [hrs] using hx)
  | some s => exact hr x (by simpa [hrs] using hx)

/-- **One method keeps the invariant**: `set_scheme` sets only what `check_scheme` accepts,
`take_scheme` removes the scheme, and the others do not touch it. -/
theorem schemeChecked_apply (op : Op) {u : Uri} (h : SchemeChecked u) :
    SchemeChecked (op.apply u) := by
  cases op with
  | setScheme scheme =>
    rcases setScheme_cases u scheme with ⟨heq, hs⟩ | heq
    · simpa [SchemeChecked, Op.apply, heq] using hs
    · simpa [Op.apply, heq] using h
  | takeScheme => simp [SchemeChecked, Op.apply, takeScheme]
  | setPathFromStr path => simpa [SchemeChecked, Op.apply] using h
  | _ => exact h

/-- **Every URI a program can hold has a scheme `check_scheme` accepts**, if it has one. -/
theorem schemeChecked_of_reachable {u : Uri} (h : Reachable u) : SchemeChecked u := by
  induction h with
  | default => simp [SchemeChecked, Uri.default]
  | parse hparse => exact schemeChecked_parse hparse
  | apply op _ ih => exact schemeChecked_apply op ih
  | resolve _ _ ihbase ihr => exact schemeChecked_resolve ihbase ihr

/-- The default URI with the scheme `h` set. -/
theorem schemeChecked_of_reachable_setScheme :
    SchemeChecked ((Op.setScheme (some ['h'])).apply Uri.default) :=
  schemeChecked_of_reachable (.apply _ .default)

/-! ### `set_path_from_str` -/

/-- A text that is not empty is cut at its `/`s. -/
theorem setPathFromStr_path_of_ne_nil (self : Uri) {path : List Char} (h : path ≠ []) :
    (self.setPathFromStr path).path =
      (path.splitOn '/').map fun segment => segment.flatMap String.utf8EncodeChar := by
  cases path with
  | nil => exact absurd rfl h
  | cons c cs => rfl

/-- The UTF-8 bytes of an ASCII text are the codes of its characters. -/
theorem flatMap_utf8EncodeChar_of_ascii {t : List Char} (ht : ∀ c ∈ t, c.toNat < 128) :
    t.flatMap String.utf8EncodeChar = t.map fun c => UInt8.ofNat c.toNat := by
  rw [List.flatMap_congr fun c hc => utf8EncodeChar_of_lt (ht c hc), ← List.flatMap_pure_eq_map]
  rfl

/-- The characters of an ASCII set, read as bytes, are written back as themselves. -/
theorem encodeElement_map_ofNat {S : Char → Bool} (hS : IsAsciiSet S) {t : List Char}
    (ht : ∀ c ∈ t, S c = true) : encodeElement (t.map fun c => UInt8.ofNat c.toNat) S = t := by
  induction t with
  | nil => rfl
  | cons c t ih =>
    have hlt : c.toNat < 256 := by have := hS.ascii c (ht c List.mem_cons_self); omega
    rw [List.map_cons, encodeElement_cons, ih fun d hd => ht d (List.mem_cons_of_mem c hd)]
    simp [encodeElement, Nat.mod_eq_of_lt hlt, ht c List.mem_cons_self]

/-- Characters of a set without `%` are decoded as their codes. -/
theorem decodeElement_eq_ok_of_allowed {S : Char → Bool} (hS : S '%' = false) {t : List Char}
    (ht : ∀ c ∈ t, S c = true) (ctx : Context) :
    decodeElement t S ctx = .ok (t.map fun c => UInt8.ofNat c.toNat) := by
  rw [decodeElement_eq_decodeRun]
  induction t with
  | nil => rfl
  | cons c t ih =>
    have hc : c ≠ '%' := fun he => by simpa [he, hS] using ht c List.mem_cons_self
    rw [decodeRun_plain S ctx hc (ht c List.mem_cons_self),
      ih fun d hd => ht d (List.mem_cons_of_mem c hd)]
    rfl

section PathText

variable {path : List Char} (h : ∀ c ∈ path, c = '/' ∨ pcharNotPctEncoded c = true)
include h

/-- A piece of a path text of `/`s and unencoded path characters holds only such
characters. -/
theorem pcharNotPctEncoded_of_mem_splitOn {x : List Char} (hx : x ∈ path.splitOn '/') :
    ∀ c ∈ x, pcharNotPctEncoded c = true := by
  intro c hc
  have hpath : c ∈ path := by
    have hjoin : c ∈ ['/'].intercalate (path.splitOn '/') := List.mem_intercalate_of_mem hx hc
    rwa [List.intercalate_splitOn] at hjoin
  have hslash : c ≠ '/' := fun he => List.not_mem_of_mem_splitOn hx (he ▸ hc)
  exact (h c hpath).resolve_left hslash

/-- The bytes of a piece of such a text are the codes of its characters. -/
theorem flatMap_utf8EncodeChar_of_mem_splitOn {x : List Char} (hx : x ∈ path.splitOn '/') :
    x.flatMap String.utf8EncodeChar = x.map fun c => UInt8.ofNat c.toNat :=
  flatMap_utf8EncodeChar_of_ascii fun c hc =>
    pcharNotPctEncoded_isAsciiSet.ascii c (pcharNotPctEncoded_of_mem_splitOn h hx c hc)

/-- The bytes of the pieces of such a text are printed back as the pieces. -/
theorem map_encodeElement_setPathFromStr :
    ((path.splitOn '/').map fun segment => segment.flatMap String.utf8EncodeChar).map
      (fun segment => encodeElement segment pcharNotPctEncoded) = path.splitOn '/' := by
  rw [List.map_map]
  refine (List.map_congr_left fun x hx => ?_).trans (List.map_id _)
  rw [Function.comp_apply, flatMap_utf8EncodeChar_of_mem_splitOn h hx, id]
  exact encodeElement_map_ofNat pcharNotPctEncoded_isAsciiSet
    (pcharNotPctEncoded_of_mem_splitOn h hx)

/-- **`Display` prints back the path `set_path_from_str` sets**, from a text of `/`s and
characters a segment may hold unencoded. -/
theorem fmtPath_setPathFromStr (u : Uri) : fmtPath (u.setPathFromStr path).path = path := by
  rcases eq_or_ne path [] with rfl | hne
  · rfl
  -- the special case of `[""]` is not met: only the empty text is one empty piece
  have hnot : (isPathAbsolute ((path.splitOn '/').map fun segment =>
      segment.flatMap String.utf8EncodeChar) &&
        ((path.splitOn '/').map fun segment => segment.flatMap String.utf8EncodeChar).length
          == 1) = false := by
    rcases hpieces : path.splitOn '/' with _ | ⟨x, _ | ⟨y, rest⟩⟩
    · rfl
    · have hjoin : ['/'].intercalate (path.splitOn '/') = path := List.intercalate_splitOn '/'
      have hx : x = path := by simpa [hpieces] using hjoin
      obtain ⟨c, cs, rfl⟩ := List.exists_cons_of_ne_nil (hx ▸ hne)
      simp [isPathAbsolute, String.utf8EncodeChar_ne_nil]
    · simp
  rw [setPathFromStr_path_of_ne_nil u hne, fmtPath, hnot, map_encodeElement_setPathFromStr h]
  simp only [Bool.false_eq_true, if_false, List.nil_append]
  exact List.intercalate_splitOn '/'

/-- **`parse_path` reads the segments `set_path_from_str` sets** from a text of `/`s and
characters a segment may hold unencoded, but for `/` alone. -/
theorem parsePath_eq_ok_setPathFromStr (u : Uri) (hslash : path ≠ ['/']) :
    parsePath path = .ok (u.setPathFromStr path).path := by
  rcases eq_or_ne path [] with rfl | hne
  · rfl
  rw [parsePath_of_ne hslash hne, setPathFromStr_path_of_ne_nil u hne]
  refine List.mapM_except_eq_ok_map fun x hx => ?_
  rw [flatMap_utf8EncodeChar_of_mem_splitOn h hx]
  exact decodeElement_eq_ok_of_allowed pcharNotPctEncoded_isAsciiSet.not_percent
    (pcharNotPctEncoded_of_mem_splitOn h hx) _

/-- At `/` the two part: `set_path_from_str` cuts it into two empty segments. -/
example : parsePath ['/'] = .ok [[]] ∧ (Uri.default.setPathFromStr ['/']).path = [[], []] := by
  decide

end PathText

theorem fmtPath_setPathFromStr_a :
    fmtPath (Uri.default.setPathFromStr ['/', 'a', '/']).path = ['/', 'a', '/'] :=
  fmtPath_setPathFromStr (fun c hc => by
    simp only [List.mem_cons, List.not_mem_nil, or_false] at hc
    rcases hc with rfl | rfl | rfl <;> decide) Uri.default

theorem parsePath_eq_ok_setPathFromStr_a :
    parsePath ['a', '/', 'b'] = .ok (Uri.default.setPathFromStr ['a', '/', 'b']).path :=
  parsePath_eq_ok_setPathFromStr (fun c hc => by
    simp only [List.mem_cons, List.not_mem_nil, or_false] at hc
    rcases hc with rfl | rfl | rfl <;> decide) Uri.default (by decide)

/-! ### Resolution and relative paths

A reference without a scheme and an authority keeps the base's authority, and its path is
the base's path, its own if it is absolute, or its own after the base's path without its last
segment, normalized. Against a base with an absolute path, the target's path is absolute. -/

/-- The authority and the path of the target of a reference without a scheme and an
authority. -/
theorem resolve_of_none {base r : Uri} (hscheme : r.scheme = none)
    (hauthority : r.authority = none) :
    (base.resolve r).authority = base.authority ∧
      (base.resolve r).path =
        if r.path.isEmpty then base.path
        else if isPathAbsolute r.path then r.path
        else normalizePath
          ((if base.path.length > 1 then base.path.dropLast else base.path) ++ r.path) := by
  simp only [resolve, hscheme, hauthority, Option.isSome_none, Bool.false_eq_true, if_false]
  split_ifs <;> exact ⟨rfl, rfl⟩

/-- **Against a base with an absolute path, a reference without a scheme and an authority
resolves to an absolute path.** -/
theorem containsRelativePath_resolve {base r : Uri} (hbase : base.containsRelativePath = false)
    (hscheme : r.scheme = none) (hauthority : r.authority = none) :
    (base.resolve r).containsRelativePath = false := by
  have habsolute : isPathAbsolute base.path = true := by
    simpa [containsRelativePath] using hbase
  obtain ⟨ps, hps⟩ := exists_eq_nil_cons habsolute
  rw [containsRelativePath, (resolve_of_none hscheme hauthority).2]
  split_ifs with hnil habs hlen
  · simpa using habsolute
  · simpa using habs
  · -- merged after all but the last of at least two segments: the first, empty, one stays
    obtain ⟨q, qs, rfl⟩ : ∃ q qs, ps = q :: qs := List.exists_cons_of_ne_nil (by
      rintro rfl
      simp [hps] at hlen)
    rw [isPathAbsolute_normalizePath, hps, List.dropLast_cons_of_ne_nil (List.cons_ne_nil q qs)]
    rfl
  · rw [isPathAbsolute_normalizePath, hps]
    rfl

theorem containsRelativePath_resolve_dotDot :
    (resolve ⟨some ['h'], none, [[], [97]], none, none⟩
      ⟨none, none, [[46, 46], [46, 46], [98]], none, none⟩).containsRelativePath = false :=
  containsRelativePath_resolve rfl rfl rfl

end Uri

end Rhymuri
