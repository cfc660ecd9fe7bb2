import Rhymuri.Authority
import Rhymuri.ValidateIpv6Address.Correct
import Rhymuri.Lib.Cut

/-!
# An authority printed, then parsed

`Authority::parse` reads back what `Display for Authority` writes, but for the case of
the host: the parser lower-cases a reg-name, the printer lower-cases an IPv6 address, so
that a host with an ASCII upper-case letter comes back lower-cased
(`Rhymuri.Authority.parse_toString_of_not_upper`). Everything else comes back as it was:
the userinfo and a reg-name of any bytes, which the printer percent-encodes and the parser decodes; an
IPv6 address, which the printer writes in brackets after checking it with the IPv6
validator, and the parser checks again; and the port, in decimal. An IPvFuture host is
written without its brackets, as a reg-name, and so is read back as the same bytes.

The proof runs the host and port machine of `src/parse_host_port.rs` over the printed
text, one piece at a time: an encoded reg-name leaves the machine in the reg-name state
with the bytes appended to the host (`Rhymuri.ParseHostPort.State.foldlM_next_regName`);
an IPv6 address is collected up to its `]`, where it becomes the host; and the
characters of the port are only collected, for `State::finalize` to parse.
-/

namespace Rhymuri

/-! ### Bytes and characters -/

/-- A character below 128 is one byte in UTF-8: its code. -/
theorem utf8EncodeChar_of_lt {c : Char} (h : c.toNat < 128) :
    String.utf8EncodeChar c = [UInt8.ofNat c.toNat] := by
  have hv : c.val.toNat ≤ 127 := Nat.le_of_lt_succ h
  simp only [String.utf8EncodeChar, if_pos hv]
  rfl

/-- The UTF-8 bytes of an ASCII string are its characters' codes. -/
theorem utf8Encode_of_ascii {t : List Char} (ht : ∀ c ∈ t, c.toNat < 128) :
    t.utf8Encode = (t.map fun c => UInt8.ofNat c.toNat).toByteArray := by
  rw [List.utf8Encode, List.flatMap_congr fun c hc => utf8EncodeChar_of_lt (ht c hc),
    ← List.flatMap_pure_eq_map]
  rfl

/-- An ASCII character whose code is not an upper-case letter is its own lower case. -/
theorem toLower_eq_self_of_byte {c : Char} (hc : c.toNat < 128)
    (h : ¬(65 ≤ UInt8.ofNat c.toNat ∧ UInt8.ofNat c.toNat ≤ 90)) : c.toLower = c := by
  have hb : (UInt8.ofNat c.toNat).toNat = c.toNat := by simp; omega
  simp only [UInt8.le_iff_toNat_le, hb] at h
  exact Char.toLower_eq_self (Char.isUpper_eq_false h)

/-- The bytes of a host that is an ASCII string in UTF-8 are its characters' codes. -/
theorem Authority.host_of_hostToString {host : List UInt8} {t : List Char}
    (h : Authority.hostToString host = some t) (ht : ∀ c ∈ t, c.toNat < 128) :
    host = t.map fun c => UInt8.ofNat c.toNat := by
  obtain ⟨s, hs, rfl⟩ := Option.map_eq_some_iff.mp h
  have hbytes : s.toByteArray = ⟨host.toArray⟩ := by
    unfold String.fromUTF8? at hs
    split at hs
    · cases hs
      rfl
    · cases hs
  rw [← String.utf8Encode_toList, utf8Encode_of_ascii ht] at hbytes
  simpa using (congrArg ByteArray.data hbytes).symm

/-- The characters of an IPv6 address the validator accepts are ASCII. -/
theorem ascii_of_validateIpv6Address {t : List Char} (h : validateIpv6Address t = .ok ()) :
    ∀ c ∈ t, c.toNat < 128 := by
  intro c hc
  rcases validateIpv6Address_chars h c hc with hx | rfl | rfl
  · exact hexdig_ascii hx
  · decide
  · decide

namespace ParseHostPort

theorem asciiLowercase_eq_self {b : UInt8} (h : ¬(65 ≤ b ∧ b ≤ 90)) : asciiLowercase b = b :=
  if_neg h

theorem map_asciiLowercase_eq_self {host : List UInt8}
    (h : ∀ b ∈ host, ¬(65 ≤ b ∧ b ≤ 90)) : host.map asciiLowercase = host :=
  (List.map_congr_left fun b hb => asciiLowercase_eq_self (h b hb)).trans (List.map_id _)

namespace State

/-! ### Runs of the host and port machine -/

/-- The state `State::new` starts a reg-name in. -/
theorem new_of_not_bracket {s : List Char} (h : '[' ∉ s.head?) :
    new s = (.notIpLiteral ⟨[], true, [], .new, []⟩, s) := by
  rcases s with _ | ⟨c, s⟩
  · rfl
  · have hc : c ≠ '[' := fun hc => h (by simp [hc])
    simp [new, hc]

/-- The state `State::new` starts an IPv6 address in. -/
theorem new_of_bracket {rest : List Char} (h : 'v' ∉ rest.head?) :
    new ('[' :: rest) = (.ipv6Address ⟨[], false, [], .new, []⟩, rest) := by
  rcases rest with _ | ⟨c, rest⟩
  · rfl
  · have hc : c ≠ 'v' := fun hc => h (by simp [hc])
    simp [new, hc]

section Runs

variable (st : Shared)

/-- In the port, every character is collected. -/
theorem foldlM_next_port (w : List Char) :
    w.foldlM next (.port st) = .ok (.port { st with portString := st.portString ++ w }) := by
  induction w generalizing st with
  | nil => simp
  | cons c w ih =>
    rw [List.foldlM_except_cons_of_ok
      (show next (.port st) c = .ok (.port { st with portString := st.portString ++ [c] })
        from rfl), ih]
    simp

/-- One byte of an encoded reg-name: an allowed character goes to the host as it is, an
escape goes through the decoder, which ends where it started. -/
theorem foldlM_next_regName_byte (hst : st.pecDecoder = .new) (x : UInt8) (w : List Char) :
    (encodeElement [x] regNameNotPctEncoded ++ w).foldlM next (.notIpLiteral st) =
      w.foldlM next (.notIpLiteral { st with host := st.host ++ [x] }) := by
  have hx : (Char.ofNat x.toNat).toNat = x.toNat := Char.toNat_ofNat_of_lt x.toNat_lt
  by_cases hc : regNameNotPctEncoded (Char.ofNat x.toNat) = true
  · have hne : Char.ofNat x.toNat ≠ '%' := fun he => by
      rw [he, regNameNotPctEncoded_isAsciiSet.not_percent] at hc
      exact absurd hc (by decide)
    have hcolon : Char.ofNat x.toNat ≠ ':' := fun he => by
      rw [he] at hc
      exact absurd hc (by decide)
    have hstep : next (.notIpLiteral st) (Char.ofNat x.toNat) =
        .ok (.notIpLiteral { st with host := st.host ++ [x] }) := by
      simp only [next, nextNotIpLiteral, if_neg hne, if_neg hcolon, if_pos hc, hx,
        UInt8.ofNat_toNat]
    simp only [encodeElement, List.flatMap_cons, List.flatMap_nil, List.append_nil, if_pos hc,
      List.singleton_append]
    exact List.foldlM_except_cons_of_ok hstep w
  · -- `%` and two digits: the decoder keeps the first and gives the byte at the second
    have hhi : x.toNat / 16 < 16 := by have := x.toNat_lt; omega
    have hlo : x.toNat % 16 < 16 := Nat.mod_lt _ (by norm_num)
    have h1 : next (.notIpLiteral st) '%' = .ok (.percentEncodedCharacter st) := rfl
    have h2 : next (.percentEncodedCharacter st) (hexUpper (x.toNat / 16)) =
        .ok (.percentEncodedCharacter
          { st with pecDecoder := ⟨UInt8.ofNat (x.toNat / 16), 1⟩ }) := by
      simp only [next, nextPercentEncodedCharacter, hst,
        PercentEncodedCharacterDecoder.next_new_of_toDigit (toDigit_hexUpper hhi)]
    have h3 : next (.percentEncodedCharacter
          { st with pecDecoder := ⟨UInt8.ofNat (x.toNat / 16), 1⟩ })
          (hexUpper (x.toNat % 16)) =
        .ok (.notIpLiteral { st with host := st.host ++ [x] }) := by
      simp only [next, nextPercentEncodedCharacter,
        PercentEncodedCharacterDecoder.next_one_of_toDigit (toDigit_hexUpper hlo),
        Nat.div_add_mod, UInt8.ofNat_toNat, ← hst]
    simp only [encodeElement, List.flatMap_cons, List.flatMap_nil, List.append_nil, if_neg hc,
      List.cons_append, List.nil_append]
    rw [List.foldlM_except_cons_of_ok h1, List.foldlM_except_cons_of_ok h2,
      List.foldlM_except_cons_of_ok h3]

end Runs

/-- **An encoded reg-name** is read back into the host, byte by byte. -/
theorem foldlM_next_regName (b : List UInt8) :
    ∀ (st : Shared), st.pecDecoder = .new → ∀ w : List Char,
      (encodeElement b regNameNotPctEncoded ++ w).foldlM next (.notIpLiteral st) =
        w.foldlM next (.notIpLiteral { st with host := st.host ++ b }) := by
  induction b with
  | nil => intro st _ w; simp [encodeElement]
  | cons x b ih =>
    intro st hst w
    rw [encodeElement_cons, List.append_assoc, foldlM_next_regName_byte st hst,
      ih { st with host := st.host ++ [x] } hst]
    simp

section Runs

variable (st : Shared)

/-- Inside an IPv6 address every character but `]` is collected. -/
theorem foldlM_next_ipv6Address {t : List Char} (ht : ']' ∉ t) (w : List Char) :
    (t ++ w).foldlM next (.ipv6Address st) =
      w.foldlM next (.ipv6Address { st with ipv6Address := st.ipv6Address ++ t }) := by
  induction t generalizing st with
  | nil => simp
  | cons c t ih =>
    have hc : c ≠ ']' := fun hc => ht (hc ▸ List.mem_cons_self)
    have hstep : next (.ipv6Address st) c =
        .ok (.ipv6Address { st with ipv6Address := st.ipv6Address ++ [c] }) := by
      simp [next, nextIpv6Address, hc]
    rw [List.cons_append, List.foldlM_except_cons_of_ok hstep,
      ih _ fun h => ht (List.mem_cons_of_mem c h)]
    simp

/-- At the `]` of an IPv6 address the machine validates the text and makes it the host. -/
theorem next_ipv6Address_bracket (h : validateIpv6Address st.ipv6Address = .ok ()) :
    next (.ipv6Address st) ']' =
      .ok (.garbageCheck { st with host := st.ipv6Address.map fun c => UInt8.ofNat c.toNat }) := by
  simp only [next, nextIpv6Address, h]
  rfl

/-- **The port, then the end**: from a state that a `:` takes to the port, and that ends
as the port does, the printed port leads to the host and the port. -/
theorem foldlM_fmtPort_finalize (σ : State) (hcolon : next σ ':' = .ok (.port st))
    (hfin : σ.finalize = (State.port st).finalize) (hport : st.portString = [])
    (port : Option UInt16) :
    ((Authority.fmtPort port).foldlM next σ).bind finalize =
      .ok (if st.hostIsRegName then st.host.map asciiLowercase else st.host, port) := by
  cases port with
  | none =>
    show σ.finalize = _
    rw [hfin]
    simp [finalize, hport]
  | some p =>
    rw [Authority.fmtPort, List.foldlM_except_cons_of_ok hcolon, foldlM_next_port]
    simp [Except.bind, finalize, hport, parseU16_toDigits, Nat.toDigits_ne_nil]

end Runs

end State

end ParseHostPort

open ParseHostPort

namespace Authority

/-- The characters `fmtPort` writes: a `:` and digits. -/
theorem mem_fmtPort {c : Char} {port : Option UInt16} (h : c ∈ fmtPort port) :
    c = ':' ∨ c.isDigit = true := by
  cases port with
  | none => simp [fmtPort] at h
  | some p =>
    rcases List.mem_cons.mp h with h | h
    · exact .inl h
    · exact .inr (Nat.isDigit_of_mem_toDigits (by norm_num) (by norm_num) h)

section Delimiters

variable {d : Char} (hd : d = '/' ∨ d = '?' ∨ d = '#' ∨ d = '@')
include hd

/-- **The delimiters around an authority and its userinfo** are not written by `fmtHost`:
they are not reg-name characters, `%`, hexadecimal digits, letters, or the brackets, colons
and dots of an IPv6 address. -/
theorem not_mem_fmtHost (host : List UInt8) : d ∉ fmtHost host := by
  have hreg : d ∉ encodeElement host regNameNotPctEncoded :=
    not_mem_encodeElement (by rcases hd with rfl | rfl | rfl | rfl <;> decide)
      (by rcases hd with rfl | rfl | rfl | rfl <;> decide)
      (by rcases hd with rfl | rfl | rfl | rfl <;> decide) host
  unfold fmtHost
  split
  · next t ht =>
    split_ifs with hv
    · -- the IPv6 address, lower-cased, in brackets
      intro hm
      rw [List.mem_append, List.mem_cons, List.mem_singleton] at hm
      rcases hm with (hm | hm) | hm
      · rcases hd with rfl | rfl | rfl | rfl <;> exact absurd hm (by decide)
      · obtain ⟨c, hc, hcd⟩ := List.mem_map.mp hm
        have hne : c ≠ d := by
          rcases validateIpv6Address_chars hv c hc with hx | rfl | rfl
          · intro he
            rw [he] at hx
            rcases hd with rfl | rfl | rfl | rfl <;> exact absurd hx (by decide)
          all_goals rcases hd with rfl | rfl | rfl | rfl <;> decide
        exact Char.toLower_ne hne (by rcases hd with rfl | rfl | rfl | rfl <;> decide) hcd
      · rcases hd with rfl | rfl | rfl | rfl <;> exact absurd hm (by decide)
    · exact hreg
  · exact hreg

theorem not_mem_fmtPort (port : Option UInt16) : d ∉ fmtPort port := fun h => by
  rcases mem_fmtPort h with h | h
  · rcases hd with rfl | rfl | rfl | rfl <;> exact absurd h (by decide)
  · rcases hd with rfl | rfl | rfl | rfl <;> exact absurd h (by decide)

end Delimiters

/-! ### The round trip -/

/-- A reg-name host, printed, is read back lower-cased, with the port. -/
theorem parseHostPort_regName (host : List UInt8) (port : Option UInt16) :
    parseHostPort (encodeElement host regNameNotPctEncoded ++ fmtPort port) =
      .ok (host.map asciiLowercase, port) := by
  have hbracket : '[' ∉ encodeElement host regNameNotPctEncoded ++ fmtPort port := by
    rw [List.mem_append, not_or]
    refine ⟨not_mem_encodeElement (by decide) (by decide) (by decide) host, fun h => ?_⟩
    rcases mem_fmtPort h with h | h <;> exact absurd h (by decide)
  have hrun := State.foldlM_next_regName host ⟨[], true, [], .new, []⟩ rfl (fmtPort port)
  rw [parseHostPort, State.new_of_not_bracket fun h => hbracket (List.mem_of_mem_head? h)]
  simp only [hrun]
  simpa using State.foldlM_fmtPort_finalize { (⟨[], true, [], .new, []⟩ : Shared) with
    host := [] ++ host } (.notIpLiteral _) rfl rfl rfl port

/-- An IPv6 address, printed in brackets, is read back with the port. -/
theorem parseHostPort_ipv6 {t : List Char} (ht : validateIpv6Address t = .ok ())
    (port : Option UInt16) :
    parseHostPort ('[' :: t ++ ']' :: fmtPort port) =
      .ok (t.map fun c => UInt8.ofNat c.toNat, port) := by
  have hchars := validateIpv6Address_chars ht
  have hket : ']' ∉ t := fun h => by
    rcases hchars _ h with h | h | h <;> exact absurd h (by decide)
  have hv : 'v' ∉ (t ++ ']' :: fmtPort port).head? := by
    rcases t with _ | ⟨c, t⟩
    · simp
    · simp only [List.cons_append, List.head?_cons, Option.mem_def, Option.some.injEq]
      rintro rfl
      rcases hchars 'v' List.mem_cons_self with h | h | h <;> exact absurd h (by decide)
  have hrun :=
    State.foldlM_next_ipv6Address ⟨[], false, [], .new, []⟩ hket (']' :: fmtPort port)
  have hbracket := State.next_ipv6Address_bracket { (⟨[], false, [], .new, []⟩ : Shared) with
    ipv6Address := [] ++ t } (by simpa using ht)
  rw [parseHostPort, List.cons_append, State.new_of_bracket hv]
  simp only [hrun, List.foldlM_except_cons_of_ok hbracket]
  rw [State.foldlM_fmtPort_finalize _ (.garbageCheck _) rfl rfl rfl port]
  rfl

/-- **The host and port machine reads back the printed host and port**, for a host without
ASCII upper-case letters. -/
theorem parseHostPort_fmtHost {host : List UInt8}
    (hhost : ∀ b ∈ host, ¬(65 ≤ b ∧ b ≤ 90)) (port : Option UInt16) :
    parseHostPort (fmtHost host ++ fmtPort port) = .ok (host, port) := by
  have hreg : parseHostPort (encodeElement host regNameNotPctEncoded ++ fmtPort port) =
      .ok (host, port) := by
    rw [parseHostPort_regName, map_asciiLowercase_eq_self hhost]
  unfold fmtHost
  split
  · next t ht =>
    split_ifs with hv
    · -- an IPv6 address: ASCII, so its bytes are its characters, none upper-case
      have hascii := ascii_of_validateIpv6Address hv
      have hbytes := host_of_hostToString ht hascii
      have hlower : t.map Char.toLower = t :=
        (List.map_congr_left fun c hc => toLower_eq_self_of_byte (hascii c hc)
          (hhost _ (hbytes ▸ List.mem_map_of_mem hc))).trans (List.map_id _)
      rw [hlower, List.append_assoc, List.singleton_append, parseHostPort_ipv6 hv, ← hbytes]
    · exact hreg
  · exact hreg

/-- The printed userinfo is cut off at its `@` and decoded. -/
theorem parseUserinfo_fmtUserinfo (userinfo : Option (List UInt8)) {rest : List Char}
    (hrest : '@' ∉ rest) :
    parseUserinfo (fmtUserinfo userinfo ++ rest) = .ok (userinfo, rest) := by
  cases userinfo with
  | none =>
    have hfind : rest.findIdx? (· = '@') = none :=
      List.findIdx?_eq_none_iff.mpr fun c hc => decide_eq_false fun h : c = '@' => hrest (h ▸ hc)
    simp [parseUserinfo, fmtUserinfo, hfind]
  | some userinfo =>
    have hdecode : decodeElement (encodeElement userinfo userInfoNotPctEncoded)
        userInfoNotPctEncoded .userinfo = .ok userinfo :=
      decodeElement_encodeElement_of_isAsciiSet userInfoNotPctEncoded_isAsciiSet (fun _ h => h)
        userinfo
    rw [fmtUserinfo, List.append_assoc, List.singleton_append, parseUserinfo]
    set e := encodeElement userinfo userInfoNotPctEncoded
    have hnot : '@' ∉ e := not_mem_encodeElement (by decide) (by decide) (by decide) userinfo
    have hfind : (e ++ '@' :: rest).findIdx? (· = '@') = some e.length :=
      List.findIdx?_append_cons (fun c hc => decide_eq_false fun h : c = '@' => hnot (h ▸ hc))
        (by simp) rest
    have htake : (e ++ '@' :: rest).take e.length = e := List.take_left' rfl
    have hdrop : (e ++ '@' :: rest).drop (e.length + 1) = rest := by
      rw [← List.singleton_append, ← List.append_assoc, List.drop_left' (by simp)]
    simp only [hfind, htake, hdrop, hdecode]
    rfl

/-- **An authority printed, then parsed, comes back**, if its host has no ASCII upper-case
letter. -/
theorem parse_toString_of_not_upper (a : Authority) (hhost : ∀ b ∈ a.host, ¬(65 ≤ b ∧ b ≤ 90)) :
    parse a.toString = .ok a := by
  obtain ⟨userinfo, host, port⟩ := a
  have hat : '@' ∉ fmtHost host ++ fmtPort port := by
    rw [List.mem_append, not_or]
    exact ⟨not_mem_fmtHost (by simp) host, not_mem_fmtPort (by simp) port⟩
  rw [parse, toString, List.append_assoc, parseUserinfo_fmtUserinfo userinfo hat]
  simp only [bind, Except.bind, parseHostPort_fmtHost hhost port]
  rfl

/-- The printed authority holds none of the delimiters that end an authority. -/
theorem not_mem_toString {d : Char} (hd : d = '/' ∨ d = '?' ∨ d = '#') (a : Authority) :
    d ∉ a.toString := by
  have hd' : d = '/' ∨ d = '?' ∨ d = '#' ∨ d = '@' := by
    rcases hd with h | h | h <;> simp [h]
  have huser : d ∉ fmtUserinfo a.userinfo := by
    cases a.userinfo with
    | none => simp [fmtUserinfo]
    | some userinfo =>
      rw [fmtUserinfo, List.mem_append, not_or]
      exact ⟨not_mem_encodeElement (by rcases hd with rfl | rfl | rfl <;> decide)
        (by rcases hd with rfl | rfl | rfl <;> decide)
        (by rcases hd with rfl | rfl | rfl <;> decide) userinfo,
        by rcases hd with rfl | rfl | rfl <;> decide⟩
  rw [toString, List.mem_append, List.mem_append, not_or, not_or]
  exact ⟨⟨huser, not_mem_fmtHost hd' a.host⟩, not_mem_fmtPort hd' a.port⟩

end Authority

end Rhymuri
