import Rhymuri.Lib.Decimal

/-!
# Where parsing fails, and why

`src/context.rs` names the places of a URI where an error can occur and
`src/error.rs` the errors themselves. Both are plain enumerations here. The
payload of `Error::IllegalPortNumber` is the kind of the `ParseIntError` that
`str::parse::<u16>` returned, which is all of that error the parser produces.

`Error::CannotExpressAsUtf8` is raised only by the `*_to_string` accessors,
which convert a component to a Rust `String` and are not modelled; the variant is
left out.
-/

namespace Rhymuri

/-- The places of a URI where an error can occur. -/
inductive Context
  /-- The fragment. -/
  | fragment
  /-- The host. -/
  | host
  /-- The IPv4 part of an IPv6 host. -/
  | ipv4Address
  /-- An IPv6 host. -/
  | ipv6Address
  /-- An IPvFuture host. -/
  | ipvFuture
  /-- The path. -/
  | path
  /-- The query. -/
  | query
  /-- The scheme. -/
  | scheme
  /-- The user information. -/
  | userinfo
  deriving DecidableEq, Repr

/-- The errors of the crate. -/
inductive Error
  /-- The scheme is empty, as in `://www.example.com`. -/
  | emptyScheme
  /-- A character is not permitted where it was found. -/
  | illegalCharacter (context : Context)
  /-- A percent-encoding is not two hexadecimal digits. -/
  | illegalPercentEncoding
  /-- The port is not a number that fits in 16 bits. -/
  | illegalPortNumber (kind : IntErrorKind)
  /-- An IPv4 address has a part that is not a decimal octet. -/
  | invalidDecimalOctet
  /-- An IP address has too few parts. -/
  | tooFewAddressParts
  /-- An IP address has too many parts. -/
  | tooManyAddressParts
  /-- A part of an IPv6 address has more than four digits. -/
  | tooManyDigits
  /-- An IPv6 address has more than one double colon. -/
  | tooManyDoubleColons
  /-- A host is cut short. -/
  | truncatedHost
  deriving DecidableEq, Repr

end Rhymuri
