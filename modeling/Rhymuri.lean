import Rhymuri.Lib.Collect
import Rhymuri.Lib.Decimal
import Rhymuri.Lib.Fold
import Rhymuri.Lib.Intercalate
import Rhymuri.Lib.Language
import Rhymuri.CharacterClasses
import Rhymuri.Error
import Rhymuri.PercentEncodedCharacterDecoder
import Rhymuri.Codec
import Rhymuri.ValidateIpv4Address
import Rhymuri.Rfc.Grammar
import Rhymuri.Rfc.Ipv6Address
import Rhymuri.Rfc.RemoveDotSegments
import Rhymuri.ValidateIpv6Address
import Rhymuri.ValidateIpv6Address.Correct
import Rhymuri.Rfc.Resolve
import Rhymuri.Uri.Basic
import Rhymuri.Uri.Path
import Rhymuri.Uri.Resolve
import Rhymuri.ParseHostPort
import Rhymuri.Authority
import Rhymuri.Uri.Parse
import Rhymuri.Lib.Cut
import Rhymuri.Uri.Display
import Rhymuri.Authority.RoundTrip
import Rhymuri.Uri.RoundTrip
import Rhymuri.Cpp.ValidateIpv4Address
import Rhymuri.Cpp.ValidateIpv6Address
import Rhymuri.Rfc.AppendixB
import Rhymuri.Uri.Components
import Rhymuri.Cpp.PercentEncodedCharacterDecoder
import Rhymuri.Cpp.Uri
import Rhymuri.Uri.PathNormalForm
import Rhymuri.Cpp.ParseFromString
import Rhymuri.Cpp.Refinement
import Rhymuri.Lib.Panic
import Rhymuri.Lib.Utf8
import Rhymuri.Checked.Codec
import Rhymuri.Checked.ParseHostPort
import Rhymuri.Checked.Parse
import Rhymuri.Uri.Normalize
import Rhymuri.Cpp.Translation
import Rhymuri.Cpp.Resolve
import Rhymuri.Cpp.Codec
import Rhymuri.Cpp.GenerateString
import Rhymuri.Uri.Setters
import Rhymuri.Cpp.ParseAgreement
import Rhymuri.Cpp.AuthorityAgreement
