import Rhymuri.Lib.Language
import Rhymuri.CharacterClasses

/-!
# The grammar of RFC 3986

`src/notes.md` transcribes the collected ABNF of RFC 3986. Each rule is written here
as the language it denotes, in the order of `notes.md` and under the rule's name, so
that the two can be read side by side. The character classes are the membership
tests of `src/character_classes.rs` (`Rhymuri.CharacterClasses`), lifted to
one-letter languages by `Language.ofPred`.

This is the specification side: nothing here is computed, and the code is compared
with it by theorems in the modules that model the parsers. The IPv4 part of an IPv6
address is a parameter of `Rhymuri.Rfc.ipv6address`, so that the IPv6 rule can be
compared with a validator whose IPv4 part is wider or narrower than the RFC's.
-/

namespace Rhymuri

namespace Rfc

open Language

/-- A literal word of the grammar. -/
def lit (s : List Char) : Language Char := {s}

/-! ### Characters -/

/-- `pct-encoded = "%" HEXDIG HEXDIG`. -/
def pctEncoded : Language Char := lit ['%'] * ofPred hexdig * ofPred hexdig

/-- `pchar = unreserved / pct-encoded / sub-delims / ":" / "@"`. -/
def pchar : Language Char :=
  ofPred unreserved + pctEncoded + ofPred subDelims + lit [':'] + lit ['@']

/-! ### Paths, query and fragment -/

/-- `segment = *pchar`. -/
def segment : Language Char := KStar.kstar pchar

/-- `segment-nz = 1*pchar`. -/
def segmentNz : Language Char := pchar * KStar.kstar pchar

/-- `segment-nz-nc = 1*( unreserved / pct-encoded / sub-delims / "@" )`. -/
def segmentNzNc : Language Char :=
  let c := ofPred unreserved + pctEncoded + ofPred subDelims + lit ['@']
  c * KStar.kstar c

/-- `path-abempty = *( "/" segment )`. -/
def pathAbempty : Language Char := KStar.kstar (lit ['/'] * segment)

/-- `path-absolute = "/" [ segment-nz *( "/" segment ) ]`. -/
def pathAbsolute : Language Char := lit ['/'] * (1 + segmentNz * KStar.kstar (lit ['/'] * segment))

/-- `path-noscheme = segment-nz-nc *( "/" segment )`. -/
def pathNoscheme : Language Char := segmentNzNc * KStar.kstar (lit ['/'] * segment)

/-- `path-rootless = segment-nz *( "/" segment )`. -/
def pathRootless : Language Char := segmentNz * KStar.kstar (lit ['/'] * segment)

/-- `path-empty = 0<pchar>`. -/
def pathEmpty : Language Char := 1

/-- `query = *( pchar / "/" / "?" )`. -/
def query : Language Char := KStar.kstar (pchar + lit ['/'] + lit ['?'])

/-- `fragment = *( pchar / "/" / "?" )`. -/
def fragment : Language Char := KStar.kstar (pchar + lit ['/'] + lit ['?'])

/-! ### Hosts -/

/-- `h16 = 1*4HEXDIG`. -/
def h16 : Language Char :=
  ofPred hexdig + ofPred hexdig ^ 2 + ofPred hexdig ^ 3 + ofPred hexdig ^ 4

/-- `ls32 = ( h16 ":" h16 ) / IPv4address`, for a given `IPv4address`. -/
def ls32 (ipv4 : Language Char) : Language Char := h16 * lit [':'] * h16 + ipv4

/-- `IPv6address`, its nine alternatives in the order of `notes.md`, for a given
`IPv4address`. -/
def ipv6address (ipv4 : Language Char) : Language Char :=
  let c := h16 * lit [':']
  let dc := lit [':', ':']
  c ^ 6 * ls32 ipv4 +
  dc * c ^ 5 * ls32 ipv4 +
  (1 + h16) * dc * c ^ 4 * ls32 ipv4 +
  (1 + repeatUpTo 1 c * h16) * dc * c ^ 3 * ls32 ipv4 +
  (1 + repeatUpTo 2 c * h16) * dc * c ^ 2 * ls32 ipv4 +
  (1 + repeatUpTo 3 c * h16) * dc * c * ls32 ipv4 +
  (1 + repeatUpTo 4 c * h16) * dc * ls32 ipv4 +
  (1 + repeatUpTo 5 c * h16) * dc * h16 +
  (1 + repeatUpTo 6 c * h16) * dc

/-- `dec-octet`: `0` to `255` without leading zeros. -/
def decOctet : Language Char :=
  ofPred digit +
  ofPred (fun c => '1' ≤ c && c ≤ '9') * ofPred digit +
  lit ['1'] * ofPred digit ^ 2 +
  lit ['2'] * ofPred (fun c => '0' ≤ c && c ≤ '4') * ofPred digit +
  lit ['2', '5'] * ofPred (fun c => '0' ≤ c && c ≤ '5')

/-- `IPv4address = dec-octet "." dec-octet "." dec-octet "." dec-octet`. -/
def ipv4address : Language Char :=
  decOctet * lit ['.'] * decOctet * lit ['.'] * decOctet * lit ['.'] * decOctet

/-- `IPvFuture = "v" 1*HEXDIG "." 1*( unreserved / sub-delims / ":" )`. -/
def ipvFuture : Language Char :=
  let c := ofPred unreserved + ofPred subDelims + lit [':']
  lit ['v'] * (ofPred hexdig * KStar.kstar (ofPred hexdig)) * lit ['.'] * (c * KStar.kstar c)

/-- `IP-literal = "[" ( IPv6address / IPvFuture ) "]"`. -/
def ipLiteral : Language Char := lit ['['] * (ipv6address ipv4address + ipvFuture) * lit [']']

/-- `reg-name = *( unreserved / pct-encoded / sub-delims )`. -/
def regName : Language Char := KStar.kstar (ofPred unreserved + pctEncoded + ofPred subDelims)

/-- `host = IP-literal / IPv4address / reg-name`. -/
def host : Language Char := ipLiteral + ipv4address + regName

/-- `port = *DIGIT`. -/
def port : Language Char := KStar.kstar (ofPred digit)

/-- `userinfo = *( unreserved / pct-encoded / sub-delims / ":" )`. -/
def userinfo : Language Char :=
  KStar.kstar (ofPred unreserved + pctEncoded + ofPred subDelims + lit [':'])

/-- `authority = [ userinfo "@" ] host [ ":" port ]`. -/
def authority : Language Char := (1 + userinfo * lit ['@']) * host * (1 + lit [':'] * port)

/-! ### References -/

/-- `scheme = ALPHA *( ALPHA / DIGIT / "+" / "-" / "." )`. -/
def scheme : Language Char :=
  ofPred alpha * KStar.kstar (ofPred alpha + ofPred digit + lit ['+'] + lit ['-'] + lit ['.'])

/-- `hier-part = "//" authority path-abempty / path-absolute / path-rootless / path-empty`. -/
def hierPart : Language Char :=
  lit ['/', '/'] * authority * pathAbempty + pathAbsolute + pathRootless + pathEmpty

/-- `relative-part = "//" authority path-abempty / path-absolute / path-noscheme /
path-empty`. -/
def relativePart : Language Char :=
  lit ['/', '/'] * authority * pathAbempty + pathAbsolute + pathNoscheme + pathEmpty

/-- `URI = scheme ":" hier-part [ "?" query ] [ "#" fragment ]`. -/
def uri : Language Char :=
  scheme * lit [':'] * hierPart * (1 + lit ['?'] * query) * (1 + lit ['#'] * fragment)

/-- `relative-ref = relative-part [ "?" query ] [ "#" fragment ]`. -/
def relativeRef : Language Char :=
  relativePart * (1 + lit ['?'] * query) * (1 + lit ['#'] * fragment)

/-- `URI-reference = URI / relative-ref`. -/
def uriReference : Language Char := uri + relativeRef

@[simp]
theorem mem_lit {s w : List Char} : w ∈ lit s ↔ w = s := Iff.rfl

end Rfc

end Rhymuri
