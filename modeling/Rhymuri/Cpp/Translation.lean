import Rhymuri.Cpp.Uri
import Rhymuri.Uri.Basic

/-!
# A URI of the crate in the fields of `Uri::Impl`

The two implementations of the repository hold a URI differently. The crate's `Uri` has an
`Option` for each component that may be absent, and bytes for every decoded component; the C++
`Uri::Impl` has a string for each component, empty when the component is absent, flags for the
port, the query and the fragment, and `char`s where the crate has bytes, a decoded byte being
stored as the `char` of that code (`(char)pecDecoder.GetDecodedCharacter()` in
`DecodeElement`).

`Rhymuri.Cpp.Impl.ofUri` is that reading of a URI of the crate; the modules that compare the
two implementations state their results through it. A byte string read as a `std::string`
(`Rhymuri.Cpp.ofBytes`) loses nothing (`Rhymuri.Cpp.ofBytes_inj`).
-/

namespace Rhymuri

namespace Cpp

/-- A string of bytes as a `std::string`: one `char` for each byte. -/
def ofBytes (bytes : List UInt8) : List Char := bytes.map fun b => Char.ofNat b.toNat

/-- The fields of `Uri::Impl` that hold the components of a URI of the crate; an absent
component is the empty string, with its flag down. -/
def Impl.ofUri (u : Uri) : Impl where
  scheme := u.scheme.getD []
  userInfo := ofBytes ((u.authority.bind (·.userinfo)).getD [])
  host := ofBytes ((u.authority.map (·.host)).getD [])
  hasPort := (u.authority.bind (·.port)).isSome
  port := (u.authority.bind (·.port)).getD 0
  path := u.path.map ofBytes
  hasQuery := u.query.isSome
  query := ofBytes (u.query.getD [])
  hasFragment := u.fragment.isSome
  fragment := ofBytes (u.fragment.getD [])

@[simp]
theorem ofUri_scheme (u : Uri) : (Impl.ofUri u).scheme = u.scheme.getD [] := rfl
@[simp]
theorem ofUri_userInfo (u : Uri) :
    (Impl.ofUri u).userInfo = ofBytes ((u.authority.bind (·.userinfo)).getD []) := rfl
@[simp]
theorem ofUri_host (u : Uri) :
    (Impl.ofUri u).host = ofBytes ((u.authority.map (·.host)).getD []) := rfl
@[simp]
theorem ofUri_hasPort (u : Uri) :
    (Impl.ofUri u).hasPort = (u.authority.bind (·.port)).isSome := rfl
@[simp]
theorem ofUri_port (u : Uri) : (Impl.ofUri u).port = (u.authority.bind (·.port)).getD 0 :=
  rfl
@[simp]
theorem ofUri_path (u : Uri) : (Impl.ofUri u).path = u.path.map ofBytes := rfl
@[simp]
theorem ofUri_hasQuery (u : Uri) : (Impl.ofUri u).hasQuery = u.query.isSome := rfl
@[simp]
theorem ofUri_query (u : Uri) : (Impl.ofUri u).query = ofBytes (u.query.getD []) := rfl
@[simp]
theorem ofUri_hasFragment (u : Uri) : (Impl.ofUri u).hasFragment = u.fragment.isSome := rfl
@[simp]
theorem ofUri_fragment (u : Uri) : (Impl.ofUri u).fragment = ofBytes (u.fragment.getD []) :=
  rfl

theorem ofBytes_inj {a b : List UInt8} : ofBytes a = ofBytes b ↔ a = b := by
  refine ⟨fun h => List.map_injective_iff.mpr (fun x y hxy => ?_) h, congrArg ofBytes⟩
  have hx := Char.toNat_ofNat_of_lt (UInt8.toNat_lt x)
  have hy := Char.toNat_ofNat_of_lt (UInt8.toNat_lt y)
  exact UInt8.toNat_inj.mp (hx.symm.trans ((congrArg Char.toNat hxy).trans hy))

/-- A byte read back from its `char`. -/
@[simp]
theorem ofNat_toNat_ofNat_toNat (b : UInt8) : UInt8.ofNat (Char.ofNat b.toNat).toNat = b := by
  rw [Char.toNat_ofNat_of_lt b.toNat_lt, UInt8.ofNat_toNat]

@[simp]
theorem ofBytes_nil : ofBytes [] = [] := rfl

theorem mem_ofBytes {bytes : List UInt8} {b : UInt8} : Char.ofNat b.toNat ∈ ofBytes bytes ↔ b ∈ bytes := by
  constructor
  · intro h
    obtain ⟨x, hx, hxb⟩ := List.mem_map.mp h
    have hxb' : x = b := by rw [← ofNat_toNat_ofNat_toNat x, hxb, ofNat_toNat_ofNat_toNat]
    exact hxb' ▸ hx
  · exact List.mem_map_of_mem

/-- The bytes of a `std::string` read back from its `char`s. -/
@[simp]
theorem map_ofNat_ofBytes (bytes : List UInt8) :
    (ofBytes bytes).map (fun c => UInt8.ofNat c.toNat) = bytes := by
  unfold ofBytes
  rw [List.map_map]
  exact (List.map_congr_left fun x _ => ofNat_toNat_ofNat_toNat x).trans (List.map_id bytes)

@[simp]
theorem ofBytes_eq_nil_iff {b : List UInt8} : ofBytes b = [] ↔ b = [] := List.map_eq_nil_iff

@[simp]
theorem isEmpty_ofBytes (b : List UInt8) : (ofBytes b).isEmpty = b.isEmpty := List.isEmpty_map

end Cpp

end Rhymuri
