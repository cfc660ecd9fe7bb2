import Rhymuri.Cpp.ParseAgreement
import Rhymuri.Authority.RoundTrip
import Rhymuri.Checked.ParseHostPort

/-!
# The C++ parser against the crate's, with an authority

`ParseAuthority` of `src/Uri.cpp` and `parse_host_port` of `src/parse_host_port.rs` read the
host and the port with two machines that do not have the same states. The C++ loop starts in
`FIRST_CHARACTER` and goes through `IP_LITERAL` after a `[`, two states that fall through into
the next one; the crate looks at the first characters once, in `State::new`, and starts its
machine after them. The C++ loop builds the host in one string and validates an IPv6 literal
in place at `]`; the crate keeps the literal's text apart and makes it the host at `]`. The C++
loop makes a fresh decoder at each `%`; the crate's decoder resets itself after each byte.

`Rhymuri.Cpp.HostLocals.Simulates` relates the two machines state by state, and each step of
the crate's machine that succeeds is matched by a step of the C++ loop
(`Rhymuri.Cpp.HostLocals.Simulates.next`), from the states in which both start
(`Rhymuri.Cpp.HostLocals.exists_simulates_new`) to the checks at the end
(`Rhymuri.Cpp.HostLocals.Simulates.finish`), where `std::tolower` is `make_ascii_lowercase` and
`std::stoi` reads every port text `str::parse::<u16>` accepts
(`Rhymuri.stoi_of_parseUnsigned`).

The one step the C++ loop may refuse is the `]` of an IPv6 literal, whose validator rejects
some addresses the crate's accepts (`Rhymuri.Cpp.validateIpv6Address_six_groups_ipv4`). So
**every reference the crate parses, the C++ parser parses into the crate's URI**, as long as the
two validators agree on its host and an empty host does not come with the path `/`, which the
C++ parser leaves empty (`Rhymuri.Cpp.Impl.parseFromString_of_parse`). The converse fails at the
port: `//h:8080spam` parses in C++ only (`Rhymuri.Cpp.Impl.parseFromString_isSome_parse_error`).
-/

namespace Rhymuri

namespace Cpp

open ParseHostPort

/-! ### Bytes and `char`s -/

/-- A byte pushed onto the host is its `char` pushed onto the host as `char`s. -/
theorem ofBytes_append_ofNat {b : List UInt8} {n : ℕ} (hn : n < 256) :
    ofBytes (b ++ [UInt8.ofNat n]) = ofBytes b ++ [Char.ofNat n] := by
  simp [ofBytes, UInt8.toNat_ofNat', Nat.mod_eq_of_lt hn]

/-- `make_ascii_lowercase` on a byte is `std::tolower` on its `char`. -/
theorem ofNat_asciiLowercase (b : UInt8) :
    Char.ofNat (asciiLowercase b).toNat = (Char.ofNat b.toNat).toLower := by
  have hb := Char.toNat_ofNat_of_lt b.toNat_lt
  rcases Char.toLower_cases (Char.ofNat b.toNat) with ⟨hn, hc⟩ | ⟨h1, h2, hc⟩
  · rw [hc, asciiLowercase_eq_self]
    rw [hb] at hn
    simpa [UInt8.le_iff_toNat_le] using hn
  · -- an upper-case letter: both move 32 up
    rw [hb] at h1 h2 hc
    have hup : 65 ≤ b ∧ b ≤ 90 := by
      simp only [UInt8.le_iff_toNat_le, UInt8.reduceToNat]
      omega
    have hadd : (b + 32).toNat = b.toNat + 32 := by
      rw [UInt8.toNat_add]
      simp only [UInt8.reduceToNat]
      omega
    apply Char.toNat_inj.mp
    rw [hc, asciiLowercase, if_pos hup, hadd, Char.toNat_ofNat_of_lt (by omega)]

/-- `make_ascii_lowercase` on the host is `std::tolower` on each of its `char`s. -/
theorem ofBytes_map_asciiLowercase (b : List UInt8) :
    ofBytes (b.map asciiLowercase) = (ofBytes b).map Char.toLower := by
  simp only [ofBytes, List.map_map, Function.comp_def, ofNat_asciiLowercase]

/-! ### The port -/

/-- **A port the crate accepts, the C++ parser converts to the same port**: `std::stoi` reads a
text of `str::parse::<u16>`, an optional `+` and digits, and the value is in range. -/
theorem portOfPortString_of_parseU16 {p : List Char} {port : UInt16} (h : parseU16 p = .ok port) :
    portOfPortString p = some (some port) := by
  unfold parseU16 at h
  cases hp : parseUnsigned 65535 p with
  | error e =>
    rw [hp] at h
    cases h
  | ok n =>
    rw [hp] at h
    obtain rfl : UInt16.ofNat n = port := Except.ok.inj h
    obtain ⟨hstoi, hn⟩ := stoi_of_parseUnsigned hp (by norm_num)
    have hne : p.isEmpty = false := by
      cases p with
      | nil => cases hp
      | cons => rfl
    simp [portOfPortString, hne, hstoi, hn]

/-! ### The two host machines -/

/-- The C++ IPv6 validator accepts `address` if the crate's does. The two part only on texts
with both a colon and a dot (`Rhymuri.Cpp.validateIpv6Address_iff_of_not_mem`). -/
def Ipv6Agrees (address : List Char) : Prop :=
  Rhymuri.validateIpv6Address address = .ok () → validateIpv6Address address = true

namespace HostLocals

/-- **The simulation**: the C++ loop in `l` has read what the crate's machine in `s` has read.
Both are in the same state and hold the same flag and port text, and the same host, as `char`s,
except in an IPv6 literal, whose text the C++ loop holds as its host. In a reg-name the crate's
decoder is back at its start, and the C++ one, which `%` replaces, is never read; in a
percent-encoding both decoders hold the same digits. -/
inductive Simulates : State → HostLocals → Prop
  | notIpLiteral {s : Shared} (d : PercentEncodedCharacterDecoder)
      (hs : s.pecDecoder = Rhymuri.PercentEncodedCharacterDecoder.new) :
      Simulates (.notIpLiteral s) ⟨.notIpLiteral, ofBytes s.host, d, s.hostIsRegName, s.portString⟩
  | percentEncodedCharacter {s : Shared}
      (hs : s.pecDecoder = Rhymuri.PercentEncodedCharacterDecoder.new) :
      Simulates (.percentEncodedCharacter s)
        ⟨.percentEncodedCharacter, ofBytes s.host, .new, s.hostIsRegName, s.portString⟩
  | percentEncodedDigit {s : Shared} {v : ℕ} (hv : v < 16)
      (hs : s.pecDecoder = ⟨UInt8.ofNat v, 1⟩) :
      Simulates (.percentEncodedCharacter s)
        ⟨.percentEncodedCharacter, ofBytes s.host, ⟨Int32.ofNat v, 1⟩, s.hostIsRegName,
          s.portString⟩
  | ipv6Address {s : Shared} (d : PercentEncodedCharacterDecoder) (hs : s.hostIsRegName = false) :
      Simulates (.ipv6Address s) ⟨.ipv6Address, s.ipv6Address, d, s.hostIsRegName, s.portString⟩
  | ipvFutureNumber {s : Shared} (d : PercentEncodedCharacterDecoder) :
      Simulates (.ipvFutureNumber s)
        ⟨.ipvFutureNumber, ofBytes s.host, d, s.hostIsRegName, s.portString⟩
  | ipvFutureBody {s : Shared} (d : PercentEncodedCharacterDecoder) :
      Simulates (.ipvFutureBody s) ⟨.ipvFutureBody, ofBytes s.host, d, s.hostIsRegName, s.portString⟩
  | garbageCheck {s : Shared} (d : PercentEncodedCharacterDecoder) :
      Simulates (.garbageCheck s) ⟨.garbageCheck, ofBytes s.host, d, s.hostIsRegName, s.portString⟩
  | port {s : Shared} (d : PercentEncodedCharacterDecoder) :
      Simulates (.port s) ⟨.port, ofBytes s.host, d, s.hostIsRegName, s.portString⟩

/-! #### One step, state by state -/

section Steps

variable {sh : Shared} {s' : State} {c : Char}

/-- In a reg-name, both open an encoding at `%`, the port at `:`, and copy a reg-name
character. -/
theorem Simulates.notIpLiteral_next (d : PercentEncodedCharacterDecoder)
    (hs : sh.pecDecoder = Rhymuri.PercentEncodedCharacterDecoder.new)
    (h : State.nextNotIpLiteral sh c = .ok s') :
    ∃ l', HostLocals.notIpLiteral ⟨.notIpLiteral, ofBytes sh.host, d, sh.hostIsRegName, sh.portString⟩ c =
      some l' ∧ Simulates s' l' := by
  unfold State.nextNotIpLiteral at h
  unfold HostLocals.notIpLiteral
  split_ifs at h ⊢ with hpct hcolon hreg
  · cases h
    exact ⟨_, rfl, .percentEncodedCharacter hs⟩
  · cases h
    exact ⟨_, rfl, .port d⟩
  · cases h
    have hbyte : c.toNat < 256 := (regNameNotPctEncoded_isAsciiSet.ascii c hreg).trans (by norm_num)
    refine ⟨_, rfl, ?_⟩
    have hsim := Simulates.notIpLiteral (s := { sh with host := sh.host ++ [UInt8.ofNat c.toNat] })
      d hs
    rwa [ofBytes_append_ofNat hbyte, Char.ofNat_toNat] at hsim

/-- Right after `%`, a digit is held by both decoders. -/
theorem Simulates.percentEncodedCharacter_next
    (hs : sh.pecDecoder = Rhymuri.PercentEncodedCharacterDecoder.new)
    (h : State.nextPercentEncodedCharacter sh c = .ok s') :
    ∃ l', HostLocals.next
        ⟨.percentEncodedCharacter, ofBytes sh.host, .new, sh.hostIsRegName, sh.portString⟩ c =
      some l' ∧ Simulates s' l' := by
  unfold State.nextPercentEncodedCharacter at h
  rw [hs] at h
  cases hv : toDigit 16 c with
  | none =>
    rw [Rhymuri.PercentEncodedCharacterDecoder.next_of_toDigit_none _ hv] at h
    cases h
  | some v =>
    rw [Rhymuri.PercentEncodedCharacterDecoder.next_new_of_toDigit hv] at h
    cases h
    have h0 : (0 : Int32) <<< 4 = 0 := by decide
    refine ⟨⟨.percentEncodedCharacter, ofBytes sh.host, ⟨Int32.ofNat v, 1⟩, sh.hostIsRegName,
      sh.portString⟩, ?_, .percentEncodedDigit (toDigit_lt hv) rfl⟩
    simp [HostLocals.next, PercentEncodedCharacterDecoder.nextEncodedCharacter_eq, hv,
      PercentEncodedCharacterDecoder.new, PercentEncodedCharacterDecoder.done, h0]

/-- After a first digit `v`, the second completes the byte in both decoders, and the C++ loop
pushes the `char` of that code. -/
theorem Simulates.percentEncodedDigit_next {v : ℕ} (hv : v < 16)
    (hs : sh.pecDecoder = ⟨UInt8.ofNat v, 1⟩)
    (h : State.nextPercentEncodedCharacter sh c = .ok s') :
    ∃ l', HostLocals.next ⟨.percentEncodedCharacter, ofBytes sh.host, ⟨Int32.ofNat v, 1⟩,
        sh.hostIsRegName, sh.portString⟩ c =
      some l' ∧ Simulates s' l' := by
  unfold State.nextPercentEncodedCharacter at h
  rw [hs] at h
  cases hw : toDigit 16 c with
  | none =>
    rw [Rhymuri.PercentEncodedCharacterDecoder.next_of_toDigit_none _ hw] at h
    cases h
  | some w =>
    rw [Rhymuri.PercentEncodedCharacterDecoder.next_one_of_toDigit hw] at h
    cases h
    have hbyte : 16 * v + w < 256 := by
      have := toDigit_lt hw
      omega
    refine ⟨⟨.notIpLiteral, ofBytes sh.host ++ [Char.ofNat (16 * v + w)],
      ⟨(Int32.ofNat v <<< 4) + Int32.ofNat w, 0⟩, sh.hostIsRegName, sh.portString⟩, ?_, ?_⟩
    · simp [HostLocals.next, PercentEncodedCharacterDecoder.nextEncodedCharacter_eq, hw,
        PercentEncodedCharacterDecoder.done,
        PercentEncodedCharacterDecoder.getDecodedCharacter_two_digits hv (toDigit_lt hw)]
    · have hsim := Simulates.notIpLiteral
        (s := { sh with pecDecoder := .new, host := sh.host ++ [UInt8.ofNat (16 * v + w)] })
        ⟨(Int32.ofNat v <<< 4) + Int32.ofNat w, 0⟩ rfl
      rwa [ofBytes_append_ofNat hbyte] at hsim

/-- In an IPv6 literal, both collect the text up to `]`, where both validate it, and the crate
makes it the host: the one step the C++ loop refuses where the crate's machine goes on, unless
the validators agree. -/
theorem Simulates.ipv6Address_next (d : PercentEncodedCharacterDecoder)
    (hr : sh.hostIsRegName = false) (h : State.nextIpv6Address sh c = .ok s')
    (hagree : ∀ sh', s' = .garbageCheck sh' → sh'.hostIsRegName = false →
      Ipv6Agrees (ofBytes sh'.host)) :
    ∃ l', HostLocals.ipv6Address
        ⟨.ipv6Address, sh.ipv6Address, d, sh.hostIsRegName, sh.portString⟩ c =
      some l' ∧ Simulates s' l' := by
  unfold State.nextIpv6Address at h
  unfold HostLocals.ipv6Address
  by_cases hc : c = ']'
  · rw [if_pos hc] at h ⊢
    cases hv : Rhymuri.validateIpv6Address sh.ipv6Address with
    | error e =>
      rw [hv] at h
      cases h
    | ok u =>
      rw [hv, Except.ok_bind] at h
      cases h
      -- the validated text is ASCII, and it is the host both ways
      have hhost : ofBytes (sh.ipv6Address.map fun c => UInt8.ofNat c.toNat) = sh.ipv6Address :=
        ofBytes_map_ofNat fun c hc => (ascii_of_validateIpv6Address hv c hc).trans (by norm_num)
      have hcpp : validateIpv6Address sh.ipv6Address = true := by
        have hsame := hagree _ rfl hr
        rw [hhost] at hsame
        exact hsame hv
      refine ⟨⟨.garbageCheck, sh.ipv6Address, d, sh.hostIsRegName, sh.portString⟩,
        by simp [hcpp], ?_⟩
      have hsim := Simulates.garbageCheck
        (s := { sh with host := sh.ipv6Address.map fun c => UInt8.ofNat c.toNat }) d
      rwa [hhost] at hsim
  · rw [if_neg hc] at h ⊢
    cases h
    exact ⟨_, rfl, .ipv6Address d hr⟩

/-- In the version number of an IPvFuture literal, both copy hexadecimal digits and go on to the
body at `.`. -/
theorem Simulates.ipvFutureNumber_next (d : PercentEncodedCharacterDecoder)
    (h : State.nextIpvFutureNumber sh c = .ok s') :
    ∃ l', HostLocals.next
        ⟨.ipvFutureNumber, ofBytes sh.host, d, sh.hostIsRegName, sh.portString⟩ c =
      some l' ∧ Simulates s' l' := by
  unfold State.nextIpvFutureNumber at h
  split_ifs at h with hdot hbracket hhex
  · cases h
    subst hdot
    have h46 : ofBytes (sh.host ++ [46]) = ofBytes sh.host ++ ['.'] := by
      rw [ofBytes, List.map_append]
      rfl
    refine ⟨⟨.ipvFutureBody, ofBytes sh.host ++ ['.'], d, sh.hostIsRegName, sh.portString⟩,
      rfl, ?_⟩
    have hsim := Simulates.ipvFutureBody (s := { sh with host := sh.host ++ [46] }) d
    rwa [h46] at hsim
  · cases h
    have hbyte : c.toNat < 256 := (hexdig_ascii hhex).trans (by norm_num)
    refine ⟨⟨.ipvFutureNumber, ofBytes sh.host ++ [c], d, sh.hostIsRegName, sh.portString⟩,
      by simp [HostLocals.next, hdot, hhex], ?_⟩
    have hsim := Simulates.ipvFutureNumber
      (s := { sh with host := sh.host ++ [UInt8.ofNat c.toNat] }) d
    rwa [ofBytes_append_ofNat hbyte, Char.ofNat_toNat] at hsim

/-- In the body of an IPvFuture literal, both copy its characters and close it at `]`. -/
theorem Simulates.ipvFutureBody_next (d : PercentEncodedCharacterDecoder)
    (h : State.nextIpvFutureBody sh c = .ok s') :
    ∃ l', HostLocals.next
        ⟨.ipvFutureBody, ofBytes sh.host, d, sh.hostIsRegName, sh.portString⟩ c =
      some l' ∧ Simulates s' l' := by
  unfold State.nextIpvFutureBody at h
  split_ifs at h with hbracket hlast
  · cases h
    exact ⟨_, by simp [HostLocals.next, hbracket], .garbageCheck d⟩
  · cases h
    have hbyte : c.toNat < 256 := (Checked.ipvFutureLastPart_ascii hlast).trans (by norm_num)
    refine ⟨⟨.ipvFutureBody, ofBytes sh.host ++ [c], d, sh.hostIsRegName, sh.portString⟩,
      by simp [HostLocals.next, hbracket, hlast], ?_⟩
    have hsim := Simulates.ipvFutureBody
      (s := { sh with host := sh.host ++ [UInt8.ofNat c.toNat] }) d
    rwa [ofBytes_append_ofNat hbyte, Char.ofNat_toNat] at hsim

end Steps

/-- **The step lemma**: each step of the crate's machine that succeeds is a step of the C++ loop
on the same character, which keeps the simulation, if the validators agree on the host of a
literal the step closes. One case for each state. -/
theorem Simulates.next {s s' : State} {l : HostLocals} {c : Char} (h : Simulates s l)
    (hs : s.next c = .ok s')
    (hagree : ∀ sh, s' = .garbageCheck sh → sh.hostIsRegName = false →
      Ipv6Agrees (ofBytes sh.host)) :
    ∃ l', l.next c = some l' ∧ Simulates s' l' := by
  cases h with
  | notIpLiteral d hd => exact Simulates.notIpLiteral_next d hd hs
  | percentEncodedCharacter hd => exact Simulates.percentEncodedCharacter_next hd hs
  | percentEncodedDigit hv hd => exact Simulates.percentEncodedDigit_next hv hd hs
  | ipv6Address d hr => exact Simulates.ipv6Address_next d hr hs hagree
  | ipvFutureNumber d => exact Simulates.ipvFutureNumber_next d hs
  | ipvFutureBody d => exact Simulates.ipvFutureBody_next d hs
  | garbageCheck d =>
    -- only the port delimiter
    simp only [State.next, State.nextGarbageCheck] at hs
    split_ifs at hs with hcolon
    cases hs
    exact ⟨_, by simp [HostLocals.next, hcolon], .port d⟩
  | port d =>
    cases hs
    exact ⟨_, rfl, .port d⟩

/-- After the `]` of a literal, the host and its flag do not change again: only a `:` and the
port text may follow. -/
theorem foldlM_garbageCheck_host {sh : Shared} {s' : State} :
    ∀ {cs : List Char}, cs.foldlM State.next (.garbageCheck sh) = .ok s' →
      s'.shared.host = sh.host ∧ s'.shared.hostIsRegName = sh.hostIsRegName
  | [], h => by
    cases h
    exact ⟨rfl, rfl⟩
  | c :: cs, h => by
    obtain ⟨s₁, h₁, h₂⟩ := Except.bind_eq_ok.mp h
    simp only [State.next, State.nextGarbageCheck] at h₁
    split_ifs at h₁
    cases h₁
    rw [State.foldlM_next_port] at h₂
    cases h₂
    exact ⟨rfl, rfl⟩

/-- **The run lemma**: every run of the crate's machine that succeeds is matched by a run of the
C++ loop over the same characters, if the validators agree on the host the run ends with when
it is not a reg-name. The induction is on the characters; the one step that needs more than the
state it starts from is the `]` of an IPv6 literal, whose host is already the final one
(`Rhymuri.Cpp.HostLocals.foldlM_garbageCheck_host`). -/
theorem Simulates.foldlM {s s' : State} {l : HostLocals} {cs : List Char} (h : Simulates s l)
    (hs : cs.foldlM State.next s = .ok s')
    (hagree : s'.shared.hostIsRegName = false → Ipv6Agrees (ofBytes s'.shared.host)) :
    ∃ l', cs.foldlM HostLocals.next l = some l' ∧ Simulates s' l' := by
  induction cs generalizing s l with
  | nil =>
    cases hs
    exact ⟨l, rfl, h⟩
  | cons c cs ih =>
    obtain ⟨s₁, h₁, h₂⟩ := Except.bind_eq_ok.mp hs
    have hagree₁ : ∀ sh, s₁ = .garbageCheck sh → sh.hostIsRegName = false →
        Ipv6Agrees (ofBytes sh.host) := by
      rintro sh rfl hr
      obtain ⟨hhost, hflag⟩ := foldlM_garbageCheck_host h₂
      rw [← hhost]
      exact hagree (hflag.trans hr)
    obtain ⟨l₁, hl₁, hsim₁⟩ := h.next h₁ hagree₁
    obtain ⟨l', hl', hsim'⟩ := ih hsim₁ h₂
    exact ⟨l', by rw [List.foldlM_cons, hl₁]; exact hl', hsim'⟩

/-- The checks after the loop, in a state both may end in: the host, lower-cased when it is a
reg-name, and the port. -/
theorem finish_of_finalize {q : HostParsingState} (hq : mayEnd q = true) {sh : Shared}
    (d : PercentEncodedCharacterDecoder) {host : List UInt8} {port : Option UInt16}
    (hs : (State.port sh).finalize = .ok (host, port)) :
    HostLocals.finish ⟨q, ofBytes sh.host, d, sh.hostIsRegName, sh.portString⟩ =
      some (ofBytes host, port) := by
  have hhost : (if sh.hostIsRegName then (ofBytes sh.host).map Char.toLower else ofBytes sh.host) =
      ofBytes (if sh.hostIsRegName then sh.host.map asciiLowercase else sh.host) := by
    split <;> simp [ofBytes_map_asciiLowercase]
  simp only [State.finalize] at hs
  simp only [HostLocals.finish, hq, Bool.not_true, Bool.false_eq_true, if_false, hhost]
  split at hs
  · next hempty =>
    cases hs
    simp [portOfPortString, hempty]
  · split at hs
    · next n hn =>
      cases hs
      simp [portOfPortString_of_parseU16 hn]
    · cases hs

/-- **The end of the run**: where the crate's machine ends with a host and a port, the C++ loop
ends with the same host, as `char`s, and the same port. -/
theorem Simulates.finish {s : State} {l : HostLocals} {host : List UInt8} {port : Option UInt16}
    (h : Simulates s l) (hs : s.finalize = .ok (host, port)) :
    l.finish = some (ofBytes host, port) := by
  cases h with
  | notIpLiteral d _ => exact finish_of_finalize rfl d hs
  | garbageCheck d => exact finish_of_finalize rfl d hs
  | port d => exact finish_of_finalize rfl d hs
  -- truncated or ended early: the crate fails too
  | percentEncodedCharacter _ => cases hs
  | percentEncodedDigit _ _ => cases hs
  | ipv6Address _ _ => cases hs
  | ipvFutureNumber _ => cases hs
  | ipvFutureBody _ => cases hs

/-- What `State::finalize` returns as the host: the machine's, lower-cased if it is a
reg-name. -/
theorem finalize_host {s : State} {host : List UInt8} {port : Option UInt16}
    (h : s.finalize = .ok (host, port)) :
    host = if s.shared.hostIsRegName then s.shared.host.map asciiLowercase else s.shared.host := by
  cases s <;> simp only [State.finalize] at h
  -- truncated or ended early
  any_goals cases h
  all_goals
    split at h
    · cases h
      rfl
    · split at h
      · cases h
        rfl
      · cases h

/-- **Where both start**: the C++ loop reads the first characters that `State::new` looks at,
through `FIRST_CHARACTER` and `IP_LITERAL`, and goes on from a state that simulates the one the
crate's machine starts in. Where the C++ loop falls through into `NOT_IP_LITERAL` or
`IPV6_ADDRESS`, the character it is on is the first one the crate's machine reads. -/
theorem exists_simulates_new {t : List Char} (hne : t ≠ []) (hbracket : t ≠ ['[']) :
    ∃ l, Simulates (State.new t).1 l ∧
      t.foldlM HostLocals.next HostLocals.init = (State.new t).2.foldlM HostLocals.next l := by
  obtain ⟨c₀, t, rfl⟩ := List.exists_cons_of_ne_nil hne
  by_cases h₀ : c₀ = '['
  · subst h₀
    obtain ⟨c₁, rest, rfl⟩ := List.exists_cons_of_ne_nil
      (show t ≠ [] from fun h => hbracket (by rw [h]))
    by_cases h₁ : c₁ = 'v'
    · -- `[v`: an IPvFuture literal, its `v` in the host
      subst h₁
      exact ⟨_, .ipvFutureNumber .new, rfl⟩
    · -- `[` and another character: an IPv6 literal, from that character on
      have hstep : HostLocals.next ⟨.ipLiteral, [], .new, false, []⟩ c₁ =
          HostLocals.next ⟨.ipv6Address, [], .new, false, []⟩ c₁ := by
        simp only [HostLocals.next, if_neg h₁]
      rw [State.new_of_bracket (by simpa using h₁)]
      refine ⟨_, .ipv6Address .new rfl, ?_⟩
      show (c₁ :: rest).foldlM HostLocals.next ⟨.ipLiteral, [], .new, false, []⟩ = _
      rw [List.foldlM_cons, List.foldlM_cons, hstep]
  · -- a reg-name, from the first character on
    have hstep : HostLocals.next HostLocals.init c₀ =
        HostLocals.next ⟨.notIpLiteral, [], .new, true, []⟩ c₀ := by
      simp only [HostLocals.next, HostLocals.init, if_neg h₀]
    rw [State.new_of_not_bracket (by simpa using h₀)]
    refine ⟨_, .notIpLiteral .new rfl, ?_⟩
    rw [List.foldlM_cons, List.foldlM_cons, hstep]
    rfl

/-- **The host loop of `ParseAuthority` against `parse_host_port`**: where the crate reads a host
and a port, the C++ loop and its checks give the same host, as `char`s, and the same port, if
the two IPv6 validators agree on that host. -/
theorem finish_foldlM_of_parseHostPort {t : List Char} {host : List UInt8}
    {port : Option UInt16} (h : parseHostPort t = .ok (host, port))
    (hagree : Ipv6Agrees (ofBytes host)) :
    (t.foldlM HostLocals.next HostLocals.init).bind HostLocals.finish =
      some (ofBytes host, port) := by
  unfold parseHostPort at h
  rcases hnew : State.new t with ⟨machine, rest⟩
  rw [hnew] at h
  obtain ⟨s', hrun, hfin⟩ := Except.bind_eq_ok.mp h
  by_cases hne : t = []
  · -- nothing after the userinfo: an empty reg-name and no port, in both
    subst hne
    cases hnew
    cases hrun
    cases hfin
    rfl
  by_cases hbracket : t = ['[']
  · -- a lone `[` is truncated for both
    subst hbracket
    cases hnew
    cases hrun
    cases hfin
  obtain ⟨l, hsim, hinit⟩ := exists_simulates_new hne hbracket
  rw [hnew] at hsim hinit
  -- the host the run ends with, when it is not a reg-name, is the one the crate returns
  have hagree' : s'.shared.hostIsRegName = false → Ipv6Agrees (ofBytes s'.shared.host) := by
    intro hr
    rw [finalize_host hfin, hr, if_neg Bool.false_ne_true] at hagree
    exact hagree
  obtain ⟨l', hl', hsim'⟩ := hsim.foldlM hrun hagree'
  rw [hinit, hl', Option.bind_some]
  exact hsim'.finish hfin

end HostLocals

/-! ### The authority -/

/-- The userinfo part of `ParseAuthority` is `parse_userinfo`: it fails where the crate's does,
and otherwise cuts at the same `@` and decodes the same userinfo, absent as empty. -/
theorem splitUserInfo_eq (t : List Char) :
    splitUserInfo t = (Authority.parseUserinfo t).toOption.map fun p =>
      (ofBytes (p.1.getD []), p.2) := by
  unfold splitUserInfo Authority.parseUserinfo
  rcases t.findIdx? (· = '@') with _ | k
  · rfl
  · simp only
    rw [decodeElement_eq_map_ofBytes
      (fun c hc => (userInfoNotPctEncoded_isAsciiSet.ascii c hc).trans (by norm_num)) _ .userinfo]
    cases Rhymuri.decodeElement (t.take k) userInfoNotPctEncoded .userinfo <;> rfl

/-- **`ParseAuthority` against `Authority::parse`**: where the crate parses an authority, the
C++ parser writes its userinfo, host and port, if the validators agree on the host. -/
theorem Impl.parseAuthority_of_parse {t : List Char} {a : Authority}
    (h : Authority.parse t = .ok a) (hagree : Ipv6Agrees (ofBytes a.host)) (impl : Impl) :
    impl.parseAuthority t = some { impl with
      userInfo := ofBytes (a.userinfo.getD []), host := ofBytes a.host,
      hasPort := a.port.isSome, port := a.port.getD impl.port } := by
  unfold Authority.parse at h
  obtain ⟨⟨userinfo, rest⟩, hu, h⟩ := Except.bind_eq_ok.mp h
  obtain ⟨⟨host, port⟩, hhp, h⟩ := Except.bind_eq_ok.mp h
  cases h
  unfold Impl.parseAuthority
  rw [splitUserInfo_eq, hu]
  simp only [Except.toOption, Option.map_some, Option.bind_eq_bind, Option.bind_some]
  rw [← Option.bind_assoc, HostLocals.finish_foldlM_of_parseHostPort hhp hagree, Option.bind_some]
  cases port <;> rfl

/-- With a leading `//`, `SplitAuthorityFromPathAndParseIt` cuts the authority where the crate
does, writes the authority the crate parses, and leaves the same path text. -/
theorem Impl.splitAuthorityFromPathAndParseIt_of_parse {t : List Char} {a : Authority}
    (h : Authority.parse (t.take ((t.findIdx? (· = '/')).getD t.length)) = .ok a)
    (hagree : Ipv6Agrees (ofBytes a.host)) (impl : Impl) :
    impl.splitAuthorityFromPathAndParseIt ('/' :: '/' :: t) =
      some ({ impl with
        userInfo := ofBytes (a.userinfo.getD []), host := ofBytes a.host,
        hasPort := a.port.isSome, port := a.port.getD impl.port },
        t.drop ((t.findIdx? (· = '/')).getD t.length)) := by
  simp only [Impl.splitAuthorityFromPathAndParseIt, List.take_succ_cons, List.take_zero,
    if_true, List.drop_succ_cons, List.drop_zero, Impl.parseAuthority_of_parse h hagree,
    Option.map_some]

/-- A path text that is not empty has a segment. -/
theorem parsePath_ne_nil {p : List Char} {path : List (List UInt8)}
    (hp : Uri.parsePath p = .ok path) (hne : p ≠ []) : path ≠ [] := by
  by_cases h1 : p = ['/']
  · subst h1
    cases hp
    exact List.cons_ne_nil _ _
  rw [Uri.parsePath_of_ne h1 hne] at hp
  obtain ⟨x, xs, hx⟩ := List.exists_cons_of_ne_nil (List.splitOn_ne_nil '/' p)
  rw [hx, List.mapM_cons] at hp
  obtain ⟨b, -, hp⟩ := Except.bind_eq_ok.mp hp
  obtain ⟨bs, -, hp⟩ := Except.bind_eq_ok.mp hp
  cases hp
  exact List.cons_ne_nil b bs

/-- **The authority and the path**: where the crate's `split_authority_from_path_and_parse_them`
succeeds, `SplitAuthorityFromPathAndParseIt`, `ParsePath` and
`SetDefaultPathIfAuthorityPresentAndPathEmpty` write its userinfo, host, port and path, if the
validators agree on the host and an empty host does not come with the path `/`. -/
theorem Impl.parsePath_splitAuthorityFromPathAndParseIt_of_ok {t : List Char}
    {authority : Option Authority} {path : List (List UInt8)}
    (h : Uri.splitAuthorityFromPathAndParseThem t = .ok (authority, path))
    (hagree : ∀ a ∈ authority, Ipv6Agrees (ofBytes a.host))
    (hpath : ∀ a ∈ authority, a.host = [] → path ≠ [[]]) (impl : Impl) :
    ∃ impl' pathString, impl.splitAuthorityFromPathAndParseIt t = some (impl', pathString) ∧
      (impl'.parsePath pathString).map setDefaultPathIfAuthorityPresentAndPathEmpty =
        some { impl with
          userInfo := ofBytes ((authority.bind (·.userinfo)).getD []),
          host := ofBytes ((authority.map (·.host)).getD []),
          hasPort := (authority.bind (·.port)).isSome,
          port := (authority.bind (·.port)).getD impl.port,
          path := path.map ofBytes } := by
  by_cases hslash : ∃ r, t = '/' :: '/' :: r
  · -- an authority, then its path, read as `/` when it is empty
    obtain ⟨r, rfl⟩ := hslash
    simp only [Uri.splitAuthorityFromPathAndParseThem] at h
    obtain ⟨a, ha, h⟩ := Except.bind_eq_ok.mp h
    split at h
    · next hempty =>
      cases h
      refine ⟨_, _, Impl.splitAuthorityFromPathAndParseIt_of_parse ha (hagree a rfl) impl, ?_⟩
      have hhost : ofBytes a.host ≠ [] := by
        rw [Ne, ofBytes_eq_nil_iff]
        exact fun h => hpath a rfl h rfl
      rw [List.isEmpty_iff.mp hempty]
      simp [Impl.parsePath_eq, Uri.parsePath, Except.toOption,
        setDefaultPathIfAuthorityPresentAndPathEmpty, hhost]
    · next hempty =>
      obtain ⟨path', hp, h⟩ := Except.bind_eq_ok.mp h
      cases h
      refine ⟨_, _, Impl.splitAuthorityFromPathAndParseIt_of_parse ha (hagree a rfl) impl, ?_⟩
      have hne := parsePath_ne_nil hp fun h => hempty (by rw [h]; rfl)
      simp [Impl.parsePath_eq, hp, Except.toOption, setDefaultPathIfAuthorityPresentAndPathEmpty,
        hne]
  · -- no authority: the whole text is the path
    have hne : ∀ r, t ≠ '/' :: '/' :: r := fun r he => hslash ⟨r, he⟩
    rw [splitAuthorityFromPathAndParseThem_of_ne hne] at h
    cases hp : Uri.parsePath t with
    | error e =>
      rw [hp] at h
      cases h
    | ok path' =>
      rw [hp] at h
      cases h
      refine ⟨_, _, Impl.splitAuthorityFromPathAndParseIt_of_ne hne impl, ?_⟩
      simp [Impl.parsePath_eq, hp, Except.toOption, setDefaultPathIfAuthorityPresentAndPathEmpty]

/-! ### The whole reference -/

/-- **The C++ parser refines the crate's**: every reference that `Uri::parse` parses,
`ParseFromString` parses into a fresh `Uri` with the fields of the crate's URI, as long as the
two IPv6 validators agree on its host and an empty host does not come with the path `/`. -/
theorem Impl.parseFromString_of_parse {s : List Char} {u : Uri} (h : Uri.parse s = .ok u)
    (hagree : ∀ a ∈ u.authority, Ipv6Agrees (ofBytes a.host))
    (hpath : ∀ a ∈ u.authority, a.host = [] → u.path ≠ [[]]) :
    Impl.new.parseFromString s = some (Impl.ofUri u) := by
  -- the crate's parse, helper by helper
  unfold Uri.parse at h
  obtain ⟨⟨scheme, rest⟩, hs, h⟩ := Except.bind_eq_ok.mp h
  obtain ⟨⟨authority, path⟩, hap, h⟩ := Except.bind_eq_ok.mp h
  obtain ⟨⟨fragment, possibleQuery⟩, hf, h⟩ := Except.bind_eq_ok.mp h
  obtain ⟨query, hq, h⟩ := Except.bind_eq_ok.mp h
  cases h
  -- the C++ helpers cut at the same places and write the same fields
  obtain ⟨n, hn⟩ : ∃ n, (rest.findIdx? fun c => decide (c = '?' ∨ c = '#')).getD rest.length = n :=
    ⟨_, rfl⟩
  have hle : n ≤ rest.length := hn ▸ List.getD_findIdx?_le rest
  obtain ⟨impl, pathString, hsplit, hmiddle⟩ :=
    Impl.parsePath_splitAuthorityFromPathAndParseIt_of_ok (hn ▸ hap) hagree hpath
      { Impl.new with scheme := scheme.getD [] }
  obtain ⟨impl', hparse, hdefault⟩ := Option.map_eq_some_iff.mp hmiddle
  unfold Impl.parseFromString
  simp only [Impl.parseScheme_eq, hs, Except.toOption, Option.map_some, Option.bind_eq_bind,
    Option.bind_some, hn, List.length_take_of_le hle, hsplit, hparse, hdefault,
    Impl.parseFragment_eq, (hn ▸ hf : Uri.parseFragment (rest.drop n) = _), Impl.parseQuery_eq, hq]
  rfl

/-- `//[A::]:8`, an IPv6 host and a port, with the path `/` the authority gives. -/
theorem Impl.parseFromString_of_parse_ipv6 :
    Impl.new.parseFromString ['/', '/', '[', 'A', ':', ':', ']', ':', '8'] =
      some (Impl.ofUri ⟨none, some ⟨none, [65, 58, 58], some 8⟩, [[]], none, none⟩) :=
  Impl.parseFromString_of_parse (by decide)
    (fun a ha => by
      cases ha
      exact fun _ => by decide)
    (fun a ha => by
      cases ha
      decide)

end Cpp

end Rhymuri
