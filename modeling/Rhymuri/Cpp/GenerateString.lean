import Rhymuri.Cpp.Codec
import Rhymuri.Cpp.Resolve
import Rhymuri.Cpp.ValidateIpv6Address
import Rhymuri.Uri.Display
import Rhymuri.Authority.RoundTrip

/-!
# The C++ `GenerateString`, against the crate's `Display`

`Uri::GenerateString` of `src/Uri.cpp` writes the components in the order `Display for Uri`
writes them, with the same delimiters and the same classes for `EncodeElement`. Like the rest
of the C++ code it tests whether a component is there by whether its string is empty: it
writes a scheme, a userinfo or a host only when it is not empty, and the authority only when
`HasAuthority` (a host, a userinfo or a port). An IPv6 host is recognised by the C++ validator
and lower-cased by `std::tolower`, in the C locale.

Read through `Rhymuri.Cpp.Impl.ofUri`, the two printers write the same string
(`Rhymuri.Cpp.Impl.generateString_ofUri`) where those tests mean what the crate's tests by
`Option` mean, and where the two IPv6 validators agree on the host. They agree on every text
that does not hold both a colon and a dot (`Rhymuri.Cpp.validateIpv6Address_iff_of_not_mem`):
without a dot neither validator meets an IPv4 part, and without a colon both reject, since the
machine they share completes no group before its first colon
(`Rhymuri.ValidateIpv6Address.State.BeforeColon`). A host such as `::1.2.3.4`, which holds
both, is where the validators part (`Rhymuri.Cpp.validateIpv6Address_six_groups_ipv4`).

Where the tests by emptiness differ, so do the strings: an authority with nothing in it, as
in `file:///etc`, is written `//` by the crate and not at all by `GenerateString`, which
writes `file:/etc`.
-/

namespace Rhymuri

/-! ### Before the first colon

The states of the IPv6 machine before it has read a colon: a group of digits is being read,
none has been completed, and no double colon has been met. -/

namespace ValidateIpv6Address.State

/-- The states the IPv6 machine can be in while it has read no colon. -/
def BeforeColon : State → Prop
  | .noGroupsYet s | .inGroupNotIpv4 s | .inGroupCouldBeIpv4 s =>
    s.numGroups = 0 ∧ s.doubleColonEncountered = false
  | _ => False

/-- A character other than a colon keeps the machine before its first colon. -/
theorem beforeColon_next {t t' : State} {i : ℕ} {c : Char} (ht : BeforeColon t) (hc : c ≠ ':')
    (h : t.next i c = .ok t') : BeforeColon t' := by
  cases t with
  | noGroupsYet s =>
    simp only [next, nextNoGroupsYet, if_neg hc] at h
    split_ifs at h <;> cases h <;> exact ht
  | inGroupNotIpv4 s =>
    simp only [next, nextInGroupNotIpv4, if_neg hc] at h
    split_ifs at h
    cases h
    exact ht
  | inGroupCouldBeIpv4 s =>
    simp only [next, nextInGroupCouldBeIpv4, if_neg hc] at h
    split_ifs at h <;> cases h <;> exact ht
  | _ => exact ht.elim

/-- Before the first colon, the address cannot end: at most one group has been read. -/
theorem finalize_ne_ok_of_beforeColon {t : State} (ht : BeforeColon t) : t.finalize ≠ .ok () := by
  cases t with
  | noGroupsYet s =>
    obtain ⟨hn, hd⟩ := ht
    simp [finalize, checkNumGroups_eq_ok, hn, hd]
  | inGroupNotIpv4 s =>
    obtain ⟨hn, hd⟩ := ht
    simp [finalize, checkNumGroups_eq_ok, hn, hd]
  | inGroupCouldBeIpv4 s =>
    obtain ⟨hn, hd⟩ := ht
    simp [finalize, checkNumGroups_eq_ok, hn, hd]
  | _ => exact ht.elim

/-- **The run of the machine over an address without a colon** stays before its first colon,
and so does the state it hands to an IPv4 part. The invariant of the fold is the step lemma,
for the prefixes without a colon. -/
theorem foldlM_beforeColon {a : List Char} (ha : ':' ∉ a) :
    (∀ t, a.zipIdx.foldlM step (new a) = .ok t → BeforeColon t) ∧
    ∀ s, a.zipIdx.foldlM step (new a) = .error (.ipv4Trailer s) →
      s.numGroups = 0 ∧ s.doubleColonEncountered = false := by
  let I : List Char → State → Prop := fun u t => ':' ∉ u → BeforeColon t
  have hstep : ∀ u c t t', I u t → step t (c, u.length) = .ok t' → I (u ++ [c]) t' :=
    fun u c t t' ht h hu =>
      beforeColon_next (ht fun h' => hu (List.mem_append_left _ h'))
        (fun hc => hu (hc ▸ List.mem_append_right _ List.mem_cons_self)) h
  have hnew : I [] (new a) := fun _ => ⟨rfl, rfl⟩
  refine ⟨fun t h => List.foldlM_zipIdx_invariant I hstep a [] _ t hnew h ha, fun s h => ?_⟩
  -- the hand-over is a dot read in a group of digits, before any colon
  obtain ⟨v, c, x, t, rfl, ht, hc⟩ := List.foldlM_zipIdx_eq_error I hstep a [] _ _ hnew h
  obtain ⟨rfl, -⟩ := next_eq_ipv4Trailer.mp hc
  exact ht fun h' => ha (List.mem_append_left _ h')

end ValidateIpv6Address.State

open ValidateIpv6Address

/-- The crate's validator rejects an address without a colon. -/
theorem validateIpv6Address_ne_ok_of_colon_not_mem {a : List Char} (ha : ':' ∉ a) :
    validateIpv6Address a ≠ .ok () := by
  obtain ⟨hok, htrailer⟩ := State.foldlM_beforeColon ha
  rw [validateIpv6Address]
  rcases hr : a.zipIdx.foldlM State.step (State.new a) with (e | s) | t
  · simp [afterFold, Except.bind]
  · -- an IPv4 part counts two groups, and no other group was completed
    obtain ⟨hn, hd⟩ := htrailer s hr
    simp only [afterFold, Except.bind, State.finalize]
    cases validateIpv4Address (s.address.drop s.potentialIpv4AddressStart) <;>
      simp [State.checkNumGroups_eq_ok, hn, hd, bind, Except.bind]
  · exact State.finalize_ne_ok_of_beforeColon (hok t hr)

namespace Cpp

/-- The C++ validator rejects an address without a colon. -/
theorem validateIpv6Address_eq_false_of_colon_not_mem {a : List Char} (ha : ':' ∉ a) :
    validateIpv6Address a = false := by
  obtain ⟨hok, htrailer⟩ := State.foldlM_beforeColon ha
  rw [validateIpv6Address_eq_machine]
  rcases hr : a.zipIdx.foldlM State.step (State.new a) with (e | s) | t
  · rfl
  · -- an IPv4 part counts three groups here, and no other group was completed
    obtain ⟨hn, hd⟩ := htrailer s hr
    simp [hn, hd, State.checkNumGroups, Except.isOk, Except.toBool]
  · have hf := State.finalize_ne_ok_of_beforeColon (hok t hr)
    simp only
    cases h : t.finalize with
    | error e => rfl
    | ok u => exact absurd h hf

/-- **The two IPv6 validators agree on every text that does not hold both a colon and a
dot.** -/
theorem validateIpv6Address_iff_of_not_mem {a : List Char} (ha : '.' ∉ a ∨ ':' ∉ a) :
    validateIpv6Address a = true ↔ Rhymuri.validateIpv6Address a = .ok () := by
  rcases ha with hdot | hcolon
  · -- no IPv4 part: both accept `IPv6address`
    rw [validateIpv6Address_iff_of_dot_not_mem hdot, Rfc.mem_ipv6address_iff,
      Rhymuri.validateIpv6Address_eq_ok_iff]
    exact ⟨fun h => Rfc.ipv6Text_of_dot_not_mem (fun _ => Rfc.dot_mem_of_mem_ipv4address) h hdot,
      fun h => Rfc.ipv6Text_of_dot_not_mem (fun _ => dot_mem_of_mem_acceptedIpv4Part) h hdot⟩
  · -- no colon: both reject
    rw [validateIpv6Address_eq_false_of_colon_not_mem hcolon]
    exact iff_of_false (by decide) (validateIpv6Address_ne_ok_of_colon_not_mem hcolon)

/-! ### `GenerateString` -/

/-- `Impl::HasAuthority`. -/
def Impl.hasAuthority (impl : Impl) : Bool :=
  !impl.host.isEmpty || !impl.userInfo.isEmpty || impl.hasPort

/-- The part of `GenerateString` that writes the scheme: the scheme and `:`, if it is not
empty. -/
def Impl.fmtScheme (impl : Impl) : List Char :=
  if !impl.scheme.isEmpty then impl.scheme ++ [':'] else []

/-- The part of `GenerateString` that writes the userinfo: encoded and followed by `@`, if it
is not empty. -/
def Impl.fmtUserInfo (impl : Impl) : List Char :=
  if !impl.userInfo.isEmpty then encodeElement impl.userInfo userInfoNotPctEncoded ++ ['@']
  else []

/-- The part of `GenerateString` that writes the host, if it is not empty: an IPv6 address
lower-cased (`std::tolower` in the C locale) and in brackets, anything else encoded as a
reg-name. -/
def fmtHost (host : List Char) : List Char :=
  if !host.isEmpty then
    if validateIpv6Address host then '[' :: host.map Char.toLower ++ [']']
    else encodeElement host regNameNotPctEncoded
  else []

/-- The part of `GenerateString` that writes the port: `:` and the port in decimal
(`operator<<` of an unsigned integer), if there is one. -/
def Impl.fmtPort (impl : Impl) : List Char :=
  if impl.hasPort then ':' :: Nat.toDigits 10 impl.port.toNat else []

/-- The part of `GenerateString` that writes the authority: `//`, the userinfo, the host and
the port, if `HasAuthority`. -/
def Impl.fmtAuthority (impl : Impl) : List Char :=
  if impl.hasAuthority then '/' :: '/' :: (impl.fmtUserInfo ++ fmtHost impl.host ++ impl.fmtPort)
  else []

/-- The part of `GenerateString` that writes the path: `/` for an absolute path that is
otherwise empty, then the segments, encoded, with a `/` after each but the last. -/
def fmtPath (path : List (List Char)) : List Char :=
  -- special case: absolute but otherwise empty path
  (if isPathAbsolute path && path.length == 1 then ['/'] else []) ++
    ['/'].intercalate (path.map fun segment => encodeElement segment pcharNotPctEncoded)

/-- The part of `GenerateString` that writes the query: `?` and the query, encoded with `+`
escaped, if there is one. -/
def Impl.fmtQuery (impl : Impl) : List Char :=
  if impl.hasQuery then '?' :: encodeElement impl.query queryNotPctEncodedWithoutPlus else []

/-- The part of `GenerateString` that writes the fragment: `#` and the fragment, encoded, if
there is one. -/
def Impl.fmtFragment (impl : Impl) : List Char :=
  if impl.hasFragment then '#' :: encodeElement impl.fragment queryOrFragmentNotPctEncoded
  else []

/-- `Uri::GenerateString`. -/
def Impl.generateString (impl : Impl) : List Char :=
  impl.fmtScheme ++ impl.fmtAuthority ++ fmtPath impl.path ++ impl.fmtQuery ++ impl.fmtFragment

example : (Impl.ofUri ⟨some ['h'], some ⟨none, [97], some 8⟩, [[], [98, 32]], some [43], none⟩).generateString =
    ['h', ':', '/', '/', 'a', ':', '8', '/', 'b', '%', '2', '0', '?', '%', '2', 'B'] := by
  decide

/-! ### The host -/

/-- The bytes of an ASCII string are a UTF-8 string: that string. -/
theorem hostToString_map_ofNat {t : List Char} (ht : ∀ c ∈ t, c.toNat < 128) :
    Authority.hostToString (t.map fun c => UInt8.ofNat c.toNat) = some t := by
  have h : (⟨(t.map fun c => UInt8.ofNat c.toNat).toArray⟩ : ByteArray) =
      (String.ofList t).toByteArray := by
    rw [← String.utf8Encode_toList, String.toList_ofList, utf8Encode_of_ascii ht]
    exact ByteArray.ext (by simp)
  have hs : String.fromUTF8? (String.ofList t).toByteArray = some (String.ofList t) := by
    rw [String.fromUTF8?, dif_pos (String.ofList t).isValidUTF8]
    rfl
  unfold Authority.hostToString
  rw [h, hs, Option.map_some, String.toList_ofList]

/-- **The two printers write a host alike**, when the validators agree on it: the IPv6
addresses they accept are ASCII, so the crate's UTF-8 reading of the bytes is the C++ string,
and anything else is a reg-name to both. -/
theorem fmtHost_ofBytes {host : List UInt8} (h : 46 ∉ host ∨ 58 ∉ host) :
    fmtHost (ofBytes host) = Authority.fmtHost host := by
  have hchars : '.' ∉ ofBytes host ∨ ':' ∉ ofBytes host :=
    h.imp (fun h46 h' => h46 (mem_ofBytes.mp h')) (fun h58 h' => h58 (mem_ofBytes.mp h'))
  have hiff := validateIpv6Address_iff_of_not_mem hchars
  by_cases hv : Rhymuri.validateIpv6Address (ofBytes host) = .ok ()
  · -- an IPv6 address: ASCII, read back by `String::from_utf8`
    have hascii := ascii_of_validateIpv6Address hv
    have hstr : Authority.hostToString host = some (ofBytes host) := by
      conv_lhs => rw [← map_ofNat_ofBytes host]
      exact hostToString_map_ofNat hascii
    have hne : (ofBytes host).isEmpty = false := by
      cases hh : ofBytes host with
      | nil => exact absurd (hh ▸ hv) (validateIpv6Address_ne_ok_of_colon_not_mem (by simp))
      | cons _ _ => rfl
    rw [fmtHost, hne, Bool.not_false, if_pos rfl, if_pos (hiff.mpr hv), Authority.fmtHost, hstr]
    simp only [hv, if_true]
  · -- anything else: encoded as a reg-name by both
    have hcpp : validateIpv6Address (ofBytes host) = false := by
      simpa using mt hiff.mp hv
    have hrust : Authority.fmtHost host = Rhymuri.encodeElement host regNameNotPctEncoded := by
      rw [Authority.fmtHost]
      rcases hh : Authority.hostToString host with _ | t
      · rfl
      · -- a string the crate's validator accepts would be the C++ string
        have ht : Rhymuri.validateIpv6Address t ≠ .ok () := by
          intro ht
          have hbytes := Authority.host_of_hostToString hh (ascii_of_validateIpv6Address ht)
          rw [hbytes, ofBytes_map_ofNat fun c hc =>
            (ascii_of_validateIpv6Address ht c hc).trans (by norm_num)] at hv
          exact hv ht
        simp only [ht, if_false]
    rw [hrust, fmtHost]
    simp only [hcpp, Bool.false_eq_true, if_false, encodeElement_ofBytes]
    -- an empty host is written as nothing by both
    split_ifs with hne
    · rfl
    · have hnil : host = [] := by simpa using hne
      subst hnil
      rfl

/-! ### The two printers -/

section Parts

variable {u : Uri}

theorem fmtScheme_ofUri (h : u.scheme ≠ some []) :
    (Impl.ofUri u).fmtScheme = Uri.fmtScheme u.scheme := by
  rcases hs : u.scheme with _ | scheme
  · simp [Impl.fmtScheme, hs, Uri.fmtScheme]
  · have hne : scheme ≠ [] := fun he => h (hs.trans (congrArg some he))
    simp [Impl.fmtScheme, hs, Uri.fmtScheme, hne]

theorem fmtUserInfo_ofUri {authority : Authority} (hu : u.authority = some authority)
    (h : authority.userinfo ≠ some []) :
    (Impl.ofUri u).fmtUserInfo = Authority.fmtUserinfo authority.userinfo := by
  rcases hs : authority.userinfo with _ | userinfo
  · simp [Impl.fmtUserInfo, hu, hs, Authority.fmtUserinfo]
  · have hne : userinfo ≠ [] := fun he => h (hs.trans (congrArg some he))
    simp [Impl.fmtUserInfo, hu, hs, Authority.fmtUserinfo, hne, encodeElement_ofBytes]

theorem fmtPort_ofUri {authority : Authority} (hu : u.authority = some authority) :
    (Impl.ofUri u).fmtPort = Authority.fmtPort authority.port := by
  rcases hs : authority.port with _ | port <;> simp [Impl.fmtPort, hu, hs, Authority.fmtPort]

/-- The authority is written alike when it is there and not empty, and absent to both when it
is not there. -/
theorem fmtAuthority_ofUri
    (h : ∀ authority ∈ u.authority,
      (authority.host ≠ [] ∨ authority.userinfo.isSome ∨ authority.port.isSome) ∧
        authority.userinfo ≠ some [] ∧ (46 ∉ authority.host ∨ 58 ∉ authority.host)) :
    (Impl.ofUri u).fmtAuthority = Uri.fmtAuthority u.authority := by
  rcases hu : u.authority with _ | authority
  · simp [Impl.fmtAuthority, Impl.hasAuthority, hu, Uri.fmtAuthority]
  · obtain ⟨hhas, huser, hhost⟩ := h authority hu
    -- `HasAuthority` holds: there is a host, a userinfo or a port
    have hhas' : (Impl.ofUri u).hasAuthority = true := by
      rcases hhas with hh | hh | hh
      · simp [Impl.hasAuthority, hu, hh]
      · obtain ⟨userinfo, hs⟩ := Option.isSome_iff_exists.mp hh
        have hne : userinfo ≠ [] := fun he => huser (hs.trans (congrArg some he))
        simp [Impl.hasAuthority, hu, hs, hne]
      · simp [Impl.hasAuthority, hu, hh]
    have hhost' : (Impl.ofUri u).host = ofBytes authority.host := by simp [hu]
    rw [Impl.fmtAuthority, if_pos hhas', Uri.fmtAuthority, Authority.toString,
      fmtUserInfo_ofUri hu huser, hhost', fmtHost_ofBytes hhost, fmtPort_ofUri hu]

theorem fmtPath_map_ofBytes (path : List (List UInt8)) :
    fmtPath (path.map ofBytes) = Uri.fmtPath path := by
  simp [fmtPath, Uri.fmtPath, List.map_map, Function.comp_def, encodeElement_ofBytes]

theorem fmtQuery_ofUri : (Impl.ofUri u).fmtQuery = Uri.fmtQuery u.query := by
  rcases hs : u.query with _ | query <;>
    simp [Impl.fmtQuery, hs, Uri.fmtQuery, encodeElement_ofBytes]

theorem fmtFragment_ofUri : (Impl.ofUri u).fmtFragment = Uri.fmtFragment u.fragment := by
  rcases hs : u.fragment with _ | fragment <;>
    simp [Impl.fmtFragment, hs, Uri.fmtFragment, encodeElement_ofBytes]

end Parts

/-- **`GenerateString` writes what `Display for Uri` writes**, for a URI whose scheme and
userinfo are not there or not empty, whose authority is not there or holds something, and
whose host does not hold both a colon and a dot. -/
theorem Impl.generateString_ofUri (u : Uri) (hscheme : u.scheme ≠ some [])
    (hauthority : ∀ authority ∈ u.authority,
      (authority.host ≠ [] ∨ authority.userinfo.isSome ∨ authority.port.isSome) ∧
        authority.userinfo ≠ some [] ∧ (46 ∉ authority.host ∨ 58 ∉ authority.host)) :
    (Impl.ofUri u).generateString = u.toString := by
  rw [Impl.generateString, Uri.toString, fmtScheme_ofUri hscheme, fmtAuthority_ofUri hauthority,
    ofUri_path, fmtPath_map_ofBytes, fmtQuery_ofUri, fmtFragment_ofUri]

theorem Impl.generateString_ofUri_ipv4 :
    (Impl.ofUri ⟨some ['h'], some ⟨some [117], [49, 46, 50, 46, 51, 46, 52], some 80⟩, [[], [97]],
        none, some [120]⟩).generateString =
      Uri.toString ⟨some ['h'], some ⟨some [117], [49, 46, 50, 46, 51, 46, 52], some 80⟩, [[], [97]],
        none, some [120]⟩ :=
  Impl.generateString_ofUri _ (by simp) (by simp)

/-- An authority with nothing in it is written `//` by the crate, and not at all by
`GenerateString`. -/
example : (Impl.ofUri ⟨some ['f'], some ⟨none, [], none⟩, [[], [101]], none, none⟩).generateString =
      ['f', ':', '/', 'e'] ∧
    Uri.toString ⟨some ['f'], some ⟨none, [], none⟩, [[], [101]], none, none⟩ =
      ['f', ':', '/', '/', '/', 'e'] := by
  decide

end Cpp

end Rhymuri
