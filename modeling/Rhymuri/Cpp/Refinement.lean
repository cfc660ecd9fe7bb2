import Rhymuri.Cpp.ParseFromString
import Rhymuri.Uri.Parse

/-!
# The C++ parser against the crate's

The repository holds two independent implementations of one library, and their parsers do
not accept the same references.

`ParseAuthority` collects every character after the port delimiter into `portString`, and
converts it with `std::stoi` and a range check (`Rhymuri.Cpp.portOfPortString`). `std::stoi`
reads a prefix: leading white space, a sign and the longest run of digits, and ignores what
follows (`Rhymuri.stoi_digits_append`). So the C++ parser accepts port texts that are not
`*DIGIT`, which the crate, with `u16::from_str`, rejects: `//h:8080spam` has the port 8080 for
the C++ parser, and is an error for the crate.

`SetDefaultPathIfAuthorityPresentAndPathEmpty` gives the path `/` only to an authority with a
nonempty host, where the crate gives it to every authority: `//` has the path `[]` in C++
and `[""]` in the crate.
-/

namespace Rhymuri

namespace Cpp

namespace Impl

/-- What `//h:8080spam` gives a fresh object. -/
theorem new_parseFromString_8080spam :
    Impl.new.parseFromString ['/', '/', 'h', ':', '8', '0', '8', '0', 's', 'p', 'a', 'm'] =
      some ⟨[], [], ['h'], true, 8080, [[]], false, [], false, []⟩ := by
  decide

/-- **`//h:8080spam` has the port 8080**, from whatever object it is parsed into, although
its port text is not a run of digits. -/
theorem parseFromString_port_8080spam (impl : Impl) :
    (impl.parseFromString ['/', '/', 'h', ':', '8', '0', '8', '0', 's', 'p', 'a', 'm']).map
        (fun r => (r.hasPort, r.port)) = some (true, 8080) ∧
      ¬∀ c ∈ ['8', '0', '8', '0', 's', 'p', 'a', 'm'], digit c = true := by
  refine ⟨?_, fun h => absurd (h 's' (by simp)) (by decide)⟩
  rw [parseFromString_eq_new, new_parseFromString_8080spam]
  rfl

/-- **The C++ parser accepts what the crate rejects**: `//h:8080spam` parses in C++, into
any object, and `Uri::parse` reports an illegal port number. -/
theorem parseFromString_isSome_parse_error (impl : Impl) :
    (impl.parseFromString ['/', '/', 'h', ':', '8', '0', '8', '0', 's', 'p', 'a', 'm']).isSome ∧
      Uri.parse ['/', '/', 'h', ':', '8', '0', '8', '0', 's', 'p', 'a', 'm'] =
        .error (.illegalPortNumber .invalidDigit) := by
  refine ⟨?_, by decide⟩
  rw [parseFromString_eq_new, new_parseFromString_8080spam]
  rfl

/-- `//`: an empty authority and no path in C++, the path `/` in the crate. -/
theorem parseFromString_slash_slash :
    (Impl.new.parseFromString ['/', '/']).map Impl.path = some [] ∧
      (Uri.parse ['/', '/']).map Uri.path = .ok [[]] := by
  decide

end Impl

end Cpp

end Rhymuri
