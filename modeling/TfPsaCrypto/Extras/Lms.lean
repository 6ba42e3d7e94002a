import TfPsaCrypto.Library.Blocks
import TfPsaCrypto.Library.Machine

/-!
# LMS signatures

`lmots.c` and `lms.c` for their one parameter set. The hash function, the random generator and the
allocator are the environment of a call and may fail.
-/

namespace TfPsaCrypto

open Bytes Blocks

namespace Lms

/-! ## Parameters and contexts -/

/-- `MBEDTLS_ERR_LMS_*`, and the other codes that are passed on. -/
inductive Error where
  | badInputData
  | outOfPrivateKeys
  | verifyFailed
  | allocFailed
  | bufferTooSmall
  | corruptionDetected
  | other (code : Int)
  deriving DecidableEq, Repr

abbrev Node := Block 32

abbrev Hash := ByteString → Except Error Node

def lmotsSha256N32W8 : Nat := 4

def lmsSha256M32H10 : Nat := 6

def lmotsNHashLen (otstype : Nat) : Nat := if otstype = lmotsSha256N32W8 then 32 else 0

def lmotsPSigDigitCount (otstype : Nat) : Nat := if otstype = lmotsSha256N32W8 then 34 else 0

def lmotsSigLen (otstype : Nat) : Nat :=
  4 + lmotsNHashLen otstype + lmotsPSigDigitCount otstype * lmotsNHashLen otstype

def lmsHTreeHeight (type : Nat) : Nat := if type = lmsSha256M32H10 then 10 else 0

def lmsMNodeBytes (type : Nat) : Nat := if type = lmsSha256M32H10 then 32 else 0

def lmsSigLen (type otstype : Nat) : Nat :=
  4 + lmotsSigLen otstype + 4 + lmsHTreeHeight type * lmsMNodeBytes type

def lmsPublicKeyLen (type : Nat) : Nat := 4 + 4 + 16 + lmsMNodeBytes type

structure LmotsParameters where
  iKeyIdentifier : Block 16
  qLeafIdentifier : Block 4
  type : Nat

structure LmotsPrivate where
  params : LmotsParameters
  privateKey : Nat → Node
  havePrivateKey : Bool

structure LmotsPublic where
  params : LmotsParameters
  publicKey : Node
  havePublicKey : Bool

structure LmsParameters where
  iKeyIdentifier : Block 16
  otstype : Nat
  type : Nat

/-- `root` is `T_1_pub_key`. -/
structure LmsPublic where
  params : LmsParameters
  root : Node
  havePublicKey : Bool

structure LmsPrivate where
  params : LmsParameters
  qNextUsableKey : Nat
  otsPrivateKeys : Nat → LmotsPrivate
  otsPublicKeys : Nat → LmotsPublic
  havePrivateKey : Bool

/-- The environment of a call: what `psa_generate_random` gives for a randomizer and for a key
identifier, and whether `mbedtls_calloc` succeeds. -/
structure Env where
  hash : Hash
  randomizer : Except Error Node
  identifier : Except Error (Block 16)
  alloc : Bool

/-! ## One-time signatures -/

section Lmots

variable (hash : Hash) (params : LmotsParameters)

def LmotsParameters.head : ByteString :=
  params.iKeyIdentifier.toList ++ params.qLeafIdentifier.toList

def lmotsChecksumCalculate (digest : ByteString) : Nat :=
  (digest.foldl (fun sum digit => sum + (255 - digit.toNat)) 0) % 2 ^ 16

def createDigitArrayWithChecksum (msg : ByteString) (cRandomValue : Node) :
    Except Error ByteString :=
  match hash (params.head ++ [0x81, 0x81] ++ cRandomValue.toList ++ msg) with
  | .error e => .error e
  | .ok out => .ok (out.toList ++ toBE 2 (lmotsChecksumCalculate out.toList))

/-- The loop of `hash_digit_array` over `j`; `n` steps are left. -/
def hashChain (i : Nat) : Nat → Nat → Node → Except Error Node
  | 0, _, tmpHash => .ok tmpHash
  | n + 1, j, tmpHash =>
    match hash (params.head ++ toBE 2 i ++ [UInt8.ofNat j] ++ tmpHash.toList) with
    | .error e => .error e
    | .ok tmpHash => hashChain i n (j + 1) tmpHash

/-- The loop of `hash_digit_array` over `i`; `left` digits are left. -/
def hashDigits (x : Nat → Node) (min max : Nat → Nat) : Nat → Nat → Except Error (List Node)
  | 0, _ => .ok []
  | left + 1, i =>
    match hashChain hash params i (max i - min i) (min i) (x i) with
    | .error e => .error e
    | .ok y =>
      match hashDigits x min max left (i + 1) with
      | .error e => .error e
      | .ok ys => .ok (y :: ys)

/-- `hash_digit_array`. The status is an error until the first hash. -/
def hashDigitArray (x : Nat → Node) (min max : Nat → Nat) : Except Error (List Node) :=
  match hashDigits hash params x min max 34 0 with
  | .error e => .error e
  | .ok ys =>
    if (List.range 34).all fun i => max i ≤ min i then .error .corruptionDetected else .ok ys

def publicKeyFromHashedDigitArray (ys : List Node) : Except Error Node :=
  hash (params.head ++ [0x80, 0x80] ++ ys.flatMap Block.toList)

/-- The loop of `mbedtls_lmots_generate_private_key`, over the digits from `i` on. -/
def generateDigits (seed : ByteString) : Nat → Nat → Except Error (List Node)
  | 0, _ => .ok []
  | left + 1, i =>
    match hash (params.head ++ toBE 2 i ++ [0xFF] ++ seed) with
    | .error e => .error e
    | .ok x =>
      match generateDigits seed left (i + 1) with
      | .error e => .error e
      | .ok xs => .ok (x :: xs)

def digitArray (xs : List Node) : Nat → Node := fun i => xs.getD i Block.zero

/-- On a context that `mbedtls_lmots_private_init` left. -/
def lmotsGeneratePrivateKey (type : Nat) (iKeyIdentifier : Block 16) (qLeafIdentifier : Nat)
    (seed : ByteString) : Except Error LmotsPrivate :=
  if type ≠ lmotsSha256N32W8 then .error .badInputData
  else
    let params : LmotsParameters :=
      { iKeyIdentifier := iKeyIdentifier, qLeafIdentifier := Block.ofList (toBE 4 qLeafIdentifier)
        type := type }
    match generateDigits hash params seed 34 0 with
    | .error e => .error e
    | .ok xs => .ok { params := params, privateKey := digitArray xs, havePrivateKey := true }

def lmotsCalculatePublicKey (priv : LmotsPrivate) : Except Error LmotsPublic :=
  if priv.havePrivateKey = false then .error .badInputData
  else
    match hashDigitArray hash priv.params priv.privateKey (fun _ => 0) (fun _ => 255) with
    | .error e => .error e
    | .ok ys =>
      match publicKeyFromHashedDigitArray hash priv.params ys with
      | .error e => .error e
      | .ok key => .ok { params := priv.params, publicKey := key, havePublicKey := true }

def digitOf (digits : ByteString) (i : Nat) : Nat := (digits.getD i 0).toNat

def lmotsCalculatePublicKeyCandidate (msg sig : ByteString) : Except Error Node :=
  if sig.length ≠ lmotsSigLen params.type then .error .badInputData
  else
    match createDigitArrayWithChecksum hash params msg (Block.ofList (slice sig 4 32)) with
    | .error e => .error e
    | .ok digits =>
      match hashDigitArray hash params (fun i => Block.ofList (slice sig (36 + i * 32) 32))
          (digitOf digits) (fun _ => 255) with
      | .error e => .error e
      | .ok ys => publicKeyFromHashedDigitArray hash params ys

end Lmots

/-- What `mbedtls_lmots_sign` returns, the context and the signature buffer it leaves. -/
structure LmotsSigned where
  ret : Except Error Unit
  ctx : LmotsPrivate
  sig : ByteString

def lmotsSign (env : Env) (ctx : LmotsPrivate) (msg sig : ByteString) (sigSize : Nat) :
    LmotsSigned :=
  if sigSize < lmotsSigLen ctx.params.type then ⟨.error .bufferTooSmall, ctx, sig⟩
  else if ctx.havePrivateKey = false then ⟨.error .badInputData, ctx, sig⟩
  else
    match env.randomizer with
    | .error e => ⟨.error e, ctx, sig⟩
    | .ok tmpCRandom =>
      match createDigitArrayWithChecksum env.hash ctx.params msg tmpCRandom with
      | .error e => ⟨.error e, ctx, sig⟩
      | .ok tmpDigitArray =>
        match hashDigitArray env.hash ctx.params ctx.privateKey (fun _ => 0)
            (digitOf tmpDigitArray) with
        | .error e => ⟨.error e, ctx, sig⟩
        | .ok tmpSig =>
          let sig := storeAt sig 0 (toBE 4 ctx.params.type)
          -- the key is erased before its data is written
          let ctx :=
            { ctx with havePrivateKey := false, privateKey := fun _ => Block.zero }
          let sig := storeAt sig 4 tmpCRandom.toList
          let sig := storeAt sig 36 (tmpSig.flatMap Block.toList)
          ⟨.ok (), ctx, sig⟩

/-! ## The tree -/

section Tree

variable (hash : Hash) (params : LmsParameters)

def createMerkleLeafValue (pubKey : Node) (r : Nat) : Except Error Node :=
  hash (params.iKeyIdentifier.toList ++ toBE 4 r ++ [0x82, 0x82] ++ pubKey.toList)

def createMerkleInternalValue (left right : Node) (r : Nat) : Except Error Node :=
  hash (params.iKeyIdentifier.toList ++ toBE 4 r ++ [0x83, 0x83] ++ left.toList ++ right.toList)

abbrev Tree := Nat → Node

/-- The first loop of `calculate_merkle_tree`; `left` leaves are left, from leaf `idx` on. -/
def merkleLeaves (publicKeys : Nat → LmotsPublic) : Nat → Nat → Tree → Except Error Tree
  | 0, _, tree => .ok tree
  | left + 1, idx, tree =>
    match createMerkleLeafValue hash params (publicKeys idx).publicKey (1024 + idx) with
    | .error e => .error e
    | .ok value =>
      merkleLeaves publicKeys left (idx + 1) (Function.update tree (1024 + idx) value)

def merkleInternals : Nat → Tree → Except Error Tree
  | 0, tree => .ok tree
  | r + 1, tree =>
    match createMerkleInternalValue hash params (tree ((r + 1) * 2)) (tree ((r + 1) * 2 + 1))
        (r + 1) with
    | .error e => .error e
    | .ok value => merkleInternals r (Function.update tree (r + 1) value)

def calculateMerkleTree (publicKeys : Nat → LmotsPublic) : Except Error Tree :=
  match merkleLeaves hash params publicKeys 1024 0 (fun _ => Block.zero) with
  | .error e => .error e
  | .ok tree => merkleInternals hash params 1023 tree

/-- The loop of `get_merkle_path`; `left` heights are left. -/
def merklePath (tree : Tree) : Nat → Nat → List Node
  | 0, _ => []
  | left + 1, currNodeId => tree (currNodeId ^^^ 1) :: merklePath tree left (currNodeId >>> 1)

end Tree

def getMerklePath (env : Env) (ctx : LmsPrivate) (leafNodeId : Nat) : Except Error (List Node) :=
  if env.alloc = false then .error .allocFailed
  else
    match calculateMerkleTree env.hash ctx.params ctx.otsPublicKeys with
    | .error e => .error e
    | .ok tree => .ok (merklePath tree 10 leafNodeId)

/-! ## Keys -/

/-- The loop of `mbedtls_lms_generate_private_key`; `left` one-time keys are left. -/
def generateKeys (hash : Hash) (otstype : Nat) (iKeyIdentifier : Block 16) (seed : ByteString) :
    Nat → Nat → LmsPrivate → Except Error LmsPrivate
  | 0, _, ctx => .ok ctx
  | left + 1, idx, ctx =>
    match lmotsGeneratePrivateKey hash otstype iKeyIdentifier idx seed with
    | .error e => .error e
    | .ok priv =>
      match lmotsCalculatePublicKey hash priv with
      | .error e => .error e
      | .ok pub =>
        generateKeys hash otstype iKeyIdentifier seed left (idx + 1)
          { ctx with
              otsPrivateKeys := Function.update ctx.otsPrivateKeys idx priv
              otsPublicKeys := Function.update ctx.otsPublicKeys idx pub }

def LmotsPrivate.zero : LmotsPrivate :=
  { params := ⟨Block.zero, Block.zero, 0⟩, privateKey := fun _ => Block.zero
    havePrivateKey := false }

def LmotsPublic.zero : LmotsPublic :=
  { params := ⟨Block.zero, Block.zero, 0⟩, publicKey := Block.zero, havePublicKey := false }

/-- `mbedtls_lms_generate_private_key` on an initialized context, freed on failure. -/
def lmsGeneratePrivateKey (env : Env) (type otstype : Nat) (seed : ByteString) :
    Except Error LmsPrivate :=
  if type ≠ lmsSha256M32H10 then .error .badInputData
  else if otstype ≠ lmotsSha256N32W8 then .error .badInputData
  else
    match env.identifier with
    | .error e => .error e
    | .ok iKeyIdentifier =>
      if env.alloc = false then .error .allocFailed
      else
        generateKeys env.hash otstype iKeyIdentifier seed 1024 0
          { params := ⟨iKeyIdentifier, otstype, type⟩
            qNextUsableKey := 0
            otsPrivateKeys := fun _ => .zero
            otsPublicKeys := fun _ => .zero
            havePrivateKey := true }

def lmsCalculatePublicKey (env : Env) (priv : LmsPrivate) : Except Error LmsPublic :=
  if priv.havePrivateKey = false then .error .badInputData
  else if priv.params.type ≠ lmsSha256M32H10 then .error .badInputData
  else if priv.params.otstype ≠ lmotsSha256N32W8 then .error .badInputData
  else if env.alloc = false then .error .allocFailed
  else
    match calculateMerkleTree env.hash priv.params priv.otsPublicKeys with
    | .error e => .error e
    | .ok tree => .ok { params := priv.params, root := tree 1, havePublicKey := true }

/-- The key that is written. -/
def lmsExportPublicKey (ctx : LmsPublic) (keySize : Nat) : Except Error ByteString :=
  if keySize < lmsPublicKeyLen ctx.params.type then .error .bufferTooSmall
  else if ctx.havePublicKey = false then .error .badInputData
  else
    .ok (toBE 4 ctx.params.type ++ toBE 4 ctx.params.otstype ++
      ctx.params.iKeyIdentifier.toList ++ ctx.root.toList)

def lmsImportPublicKey (key : ByteString) : Except Error LmsPublic :=
  if key.length < 4 then .error .badInputData
  else
    let type := ofBE (slice key 0 4)
    if type ≠ lmsSha256M32H10 then .error .badInputData
    else if key.length ≠ lmsPublicKeyLen type then .error .badInputData
    else
      let otstype := ofBE (slice key 4 4)
      if otstype ≠ lmotsSha256N32W8 then .error .badInputData
      else
        .ok
          { params := ⟨Block.ofList (slice key 8 16), otstype, type⟩
            root := Block.ofList (slice key 24 32)
            havePublicKey := true }

/-! ## Signatures -/

/-- What `mbedtls_lms_sign` returns, the context and the signature buffer it leaves, and the leaf
that it passed to `mbedtls_lmots_sign`. -/
structure LmsSigned where
  ret : Except Error Unit
  ctx : LmsPrivate
  sig : ByteString
  leaf : Option Nat

/-- The end of `mbedtls_lms_sign`, with the one-time signature in the buffer. -/
def lmsSignPath (env : Env) (ctx : LmsPrivate) (q : Nat) (sig : ByteString) : LmsSigned :=
  let sig := storeAt sig 1128 (toBE 4 ctx.params.type)
  let sig := storeAt sig 0 (toBE 4 q)
  match getMerklePath env ctx (1024 + q) with
  | .error e => ⟨.error e, ctx, sig, some q⟩
  | .ok path => ⟨.ok (), ctx, storeAt sig 1132 (path.flatMap Block.toList), some q⟩

def lmsSign (env : Env) (ctx : LmsPrivate) (msg sig : ByteString) : LmsSigned :=
  if ctx.havePrivateKey = false then ⟨.error .badInputData, ctx, sig, none⟩
  else if sig.length < lmsSigLen ctx.params.type ctx.params.otstype then
    ⟨.error .bufferTooSmall, ctx, sig, none⟩
  else if ctx.params.type ≠ lmsSha256M32H10 then ⟨.error .badInputData, ctx, sig, none⟩
  else if ctx.params.otstype ≠ lmotsSha256N32W8 then ⟨.error .badInputData, ctx, sig, none⟩
  else if ctx.qNextUsableKey ≥ 1024 then ⟨.error .outOfPrivateKeys, ctx, sig, none⟩
  else
    let q := ctx.qNextUsableKey
    let ctx := { ctx with qNextUsableKey := ctx.qNextUsableKey + 1 }
    let signed := lmotsSign env (ctx.otsPrivateKeys q) msg (sig.drop 4)
      (lmsSigLen ctx.params.type ctx.params.otstype - 4)
    let ctx := { ctx with otsPrivateKeys := Function.update ctx.otsPrivateKeys q signed.ctx }
    let sig := sig.take 4 ++ signed.sig
    match signed.ret with
    | .error e => ⟨.error e, ctx, sig, some q⟩
    | .ok _ => lmsSignPath env ctx q sig

/-- The loop of `mbedtls_lms_verify` over the heights; `left` heights are left. -/
def verifyPath (hash : Hash) (params : LmsParameters) (path : Nat → Node) :
    Nat → Nat → Nat → Node → Except Error Node
  | 0, _, _, candidate => .ok candidate
  | left + 1, height, currNodeId, candidate =>
    let leftNode := if currNodeId % 2 = 1 then path height else candidate
    let rightNode := if currNodeId % 2 = 1 then candidate else path height
    match createMerkleInternalValue hash params leftNode rightNode (currNodeId / 2) with
    | .error e => .error e
    | .ok value => verifyPath hash params path left (height + 1) (currNodeId / 2) value

def lmsVerify (hash : Hash) (ctx : LmsPublic) (msg sig : ByteString) : Except Error Unit :=
  if ctx.havePublicKey = false then .error .badInputData
  else if ctx.params.type ≠ lmsSha256M32H10 then .error .badInputData
  else if ctx.params.otstype ≠ lmotsSha256N32W8 then .error .badInputData
  else if sig.length ≠ lmsSigLen ctx.params.type ctx.params.otstype then .error .verifyFailed
  else if ofBE (slice sig 4 4) ≠ lmotsSha256N32W8 then .error .verifyFailed
  else if ofBE (slice sig 1128 4) ≠ lmsSha256M32H10 then .error .verifyFailed
  else
    let q := ofBE (slice sig 0 4)
    if q ≥ 1024 then .error .verifyFailed
    else
      let otsParams : LmotsParameters :=
        { iKeyIdentifier := ctx.params.iKeyIdentifier, qLeafIdentifier := Block.ofList (toBE 4 q)
          type := ctx.params.otstype }
      match lmotsCalculatePublicKeyCandidate hash otsParams msg
          (slice sig 4 (lmotsSigLen ctx.params.otstype)) with
      | .error _ => .error .verifyFailed
      | .ok candidate =>
        match createMerkleLeafValue hash ctx.params candidate (1024 + q) with
        | .error _ => .error .verifyFailed
        | .ok value =>
          match verifyPath hash ctx.params
              (fun height => Block.ofList (slice sig (1132 + height * 32) 32)) 10 0
              (1024 + q) value with
          | .error _ => .error .verifyFailed
          | .ok root => if root.toList ≠ ctx.root.toList then .error .verifyFailed else .ok ()

/-! ## Sequences of signatures -/

/-- A call of `mbedtls_lms_sign`. -/
structure SignCall where
  env : Env
  msg : ByteString
  sig : ByteString

def signMachine : Machine.StepFn LmsPrivate SignCall LmsSigned :=
  fun ctx call =>
    let r := lmsSign call.env ctx call.msg call.sig
    some (r.ctx, r)

end Lms

end TfPsaCrypto
