import TfPsaCrypto.Builtin.EcpPoint
import TfPsaCrypto.Library.Fallible
import TfPsaCrypto.Utilities.Asn1Write

/-!
# PK contexts

The context of `pk.c` and the setters of `pk_ecc.c` and `pk_rsa.c`. The key store is a map from
identifiers to keys; which material it imports, and what it exports as the public key, are
parameters. Looking at a byte outside the input is the error `outOfBounds`.
-/

namespace TfPsaCrypto.Pk

open Bytes Ecp Fallible

/-! ## Data -/

/-- `none` is 0. -/
inductive EccFamily where
  | none
  | secpR1
  | secpK1
  | brainpoolPR1
  | montgomery
  deriving DecidableEq, Repr

inductive PsaKeyType where
  | none
  | rsaKeyPair
  | rsaPublicKey
  | eccKeyPair (family : EccFamily)
  | eccPublicKey (family : EccFamily)
  deriving DecidableEq, Repr

inductive PkType where
  | rsa
  | eckey
  | eckeyDh
  deriving DecidableEq, Repr

/-- The errors of `mbedtls_pk_*`, with the error of the ASN.1 parser that is added to some. -/
inductive PkError where
  | keyInvalidFormat (low : Option Asn1Error)
  | keyInvalidVersion
  | invalidPubkey (low : Option Asn1Error)
  | invalidAlg (low : Option Asn1Error)
  | unknownPkAlg
  | unknownNamedCurve
  | badInputData
  | bufferTooSmall
  | featureUnavailable
  | asn1 (e : Asn1Error)
  | ecp (e : EcpError)
  | psa
  | outOfBounds
  deriving DecidableEq, Repr

structure PsaKey where
  type : PsaKeyType
  bits : Nat
  material : ByteString
  deriving DecidableEq, Repr

structure KeyStore where
  keys : Nat → Option PsaKey
  next : Nat

/-- `pubRaw` are the `pub_raw_len` bytes of `pub_raw`. -/
structure PkContext where
  pkInfo : Option PkType
  psaType : PsaKeyType
  privId : Nat
  pubRaw : ByteString
  bits : Nat
  ecFamily : EccFamily
  deriving DecidableEq, Repr

def PkContext.init : PkContext :=
  { pkInfo := none, psaType := .none, privId := 0, pubRaw := [], bits := 0, ecFamily := .none }

structure PkState where
  ctx : PkContext
  store : KeyStore

/-- The parameters `P`, `A`, `B` and `N` and the abscissa and the ordinate, or its parity, of the
generator of a group that is given in full. -/
structure SpecifiedGroup where
  P : Nat
  A : Nat
  B : Nat
  gX : Nat
  gY : Nat
  N : Nat
  deriving DecidableEq, Repr

/-- What the parsers are built with: the imports of the key store, the public key of a key, the
groups, and two `MBEDTLS_PK_PARSE_EC_*` options. -/
structure PkEnv where
  importKey : PsaKeyType → Nat → ByteString → Option Nat
  exportPublicKey : PsaKey → Option ByteString
  groupLoad : EcpGroupId → Option Ecp.EcpGroup
  groupIdFromGroup : SpecifiedGroup → Option EcpGroupId
  ecExtended : Bool
  ecCompressed : Bool
  pubRawSize : Nat

abbrev PkProg (α : Type) := Fallible PkState PkError α

/-! ## The key store -/

def KeyStore.insert (store : KeyStore) (key : PsaKey) : KeyStore :=
  { keys := fun id => if id = store.next then some key else store.keys id
    next := store.next + 1 }

def KeyStore.erase (store : KeyStore) (id : Nat) : KeyStore :=
  { store with keys := fun i => if i = id then none else store.keys i }

def psaImportKey (env : PkEnv) (type : PsaKeyType) (bits : Nat) (data : ByteString) :
    PkProg Nat := do
  let s ← read
  match env.importKey type bits data with
  | none => fail .psa
  | some keyBits => do
    update fun s => { s with store := s.store.insert ⟨type, keyBits, data⟩ }
    pure s.store.next

/-- The status is ignored. -/
def psaDestroyKey (id : Nat) : PkProg Unit := update fun s => { s with store := s.store.erase id }

/-! ## Contexts -/

def setCtx (f : PkContext → PkContext) : PkProg Unit := update fun s => { s with ctx := f s.ctx }

def mbedtlsPkFree : PkProg Unit :=
  update fun s =>
    { ctx := .init
      store := if s.ctx.pkInfo = none then s.store else s.store.erase s.ctx.privId }

def mbedtlsEccGroupFromPsa (family : EccFamily) (bits : Nat) : EcpGroupId :=
  match family, bits with
  | .secpR1, 256 => .secp256r1
  | .secpR1, 384 => .secp384r1
  | .secpR1, 521 => .secp521r1
  | .brainpoolPR1, 256 => .bp256r1
  | .brainpoolPR1, 384 => .bp384r1
  | .brainpoolPR1, 512 => .bp512r1
  | .montgomery, 255 => .curve25519
  | .montgomery, 448 => .curve448
  | .secpK1, 256 => .secp256k1
  | _, _ => .none

end TfPsaCrypto.Pk
