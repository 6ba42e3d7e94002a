import TfPsaCrypto.Extras.PkParse
import TfPsaCrypto.Utilities.Asn1Bounds

/-!
# The parts of the key parsers

What each part of the parsers of `pkparse.c` returns and leaves in the context.
-/

namespace TfPsaCrypto.Pk

open Bytes Der Ecp Fallible

variable {env : PkEnv} {s s' : PkState} {α : Type}

/-! ## ASN.1 -/

def PkContext.setup (type : PkType) : PkContext := { PkContext.init with pkInfo := some type }

end TfPsaCrypto.Pk
