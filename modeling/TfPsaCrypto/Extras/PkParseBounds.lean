import TfPsaCrypto.Extras.PkParseParts

/-!
# The key parsers and the bytes of their input

A parser looks at a byte behind its input in one place: `mbedtls_pk_ecc_set_pubkey` reads the
format of a point that is empty.
-/

namespace TfPsaCrypto.Pk

open Bytes Der Ecp Fallible

variable {env : PkEnv} {s s' : PkState}

/-! ## Keys without a point -/

variable {key : ByteString}

variable {id : EcpGroupId}

end TfPsaCrypto.Pk
