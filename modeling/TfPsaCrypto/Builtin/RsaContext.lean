import Mathlib.Data.Nat.Size
import TfPsaCrypto.Library.Pkcs1

/-!
# RSA operations for the paddings

What the padding functions of `rsa.c` use: hash functions, the masks of MGF1, and the RSA
operations of a key as mutually inverse functions.
-/

namespace TfPsaCrypto

open Bytes

/-! ## Hash functions -/

inductive MbedtlsMdType where
  | none
  | md5
  | ripemd160
  | sha1
  | sha224
  | sha256
  | sha384
  | sha512
  | sha3_224
  | sha3_256
  | sha3_384
  | sha3_512
  deriving DecidableEq, Repr

/-- The sizes in `md.c`; there is no entry for `MBEDTLS_MD_NONE`. -/
def mdInfoSize : MbedtlsMdType → Nat
  | .none => 0
  | .md5 => 16
  | .ripemd160 => 20
  | .sha1 => 20
  | .sha224 => 28
  | .sha256 => 32
  | .sha384 => 48
  | .sha512 => 64
  | .sha3_224 => 28
  | .sha3_256 => 32
  | .sha3_384 => 48
  | .sha3_512 => 64

structure MdFunctions where
  supported : MbedtlsMdType → Bool
  md : MbedtlsMdType → ByteString → ByteString
  length_md : ∀ type input, (md type input).length = mdInfoSize type

/-- `mbedtls_md_get_size_from_type`: 0 where there is no such hash function. -/
def MdFunctions.size (h : MdFunctions) (type : MbedtlsMdType) : Nat :=
  if h.supported type then mdInfoSize type else 0

/-! ## Keys -/

inductive RsaError where
  | badInputData
  | invalidPadding
  | outputTooLarge
  | verifyFailed
  | rngFailed (code : Int)
  | publicFailed
  | privateFailed
  deriving DecidableEq, Repr

/-- The operations of a key, which are inverse to each other on the integers below the modulus. -/
structure RsaPermutation where
  N : Nat
  publicOp : Nat → Nat
  privateOp : Nat → Nat
  publicOp_lt : ∀ x < N, publicOp x < N
  privateOp_lt : ∀ x < N, privateOp x < N
  public_private : ∀ x < N, publicOp (privateOp x) = x
  private_public : ∀ x < N, privateOp (publicOp x) = x

inductive RsaPaddingMode where
  | v15
  | v21
  deriving DecidableEq, Repr

structure MbedtlsRsaContext where
  key : RsaPermutation
  padding : RsaPaddingMode
  hashId : MbedtlsMdType

def MbedtlsRsaContext.bitlen (ctx : MbedtlsRsaContext) : Nat := ctx.key.N.size

def MbedtlsRsaContext.len (ctx : MbedtlsRsaContext) : Nat := (ctx.bitlen + 7) / 8

def rsaMpiMaxSize : Nat := 1024

def rsaCheckContext (ctx : MbedtlsRsaContext) : Bool :=
  ctx.len ≤ rsaMpiMaxSize && 0 < ctx.key.N && ctx.key.N % 2 = 1

def mbedtlsRsaPublic (ctx : MbedtlsRsaContext) (input : ByteString) :
    Except RsaError ByteString :=
  if rsaCheckContext ctx = false then .error .badInputData
  else
    let T := ofBE (input.take ctx.len)
    if T ≥ ctx.key.N then .error .publicFailed
    else .ok (toBE ctx.len (ctx.key.publicOp T))

def mbedtlsRsaPrivate (ctx : MbedtlsRsaContext) (input : ByteString) :
    Except RsaError ByteString :=
  if rsaCheckContext ctx = false then .error .badInputData
  else
    let T := ofBE (input.take ctx.len)
    if T ≥ ctx.key.N then .error .privateFailed
    else .ok (toBE ctx.len (ctx.key.privateOp T))

/-! ## Masks and hashes -/

/-- The loop of `mgf_mask`, whose counter is the last of four bytes. -/
def mgfMaskLoop (md : ByteString → ByteString) (hlen : Nat) (src : ByteString) :
    Nat → UInt8 → ByteString → ByteString
  | 0, _, dst => dst
  | fuel + 1, counter, dst =>
    if dst.length = 0 then dst
    else
      let useLen := if dst.length < hlen then dst.length else hlen
      let mask := md (src ++ [0, 0, 0, counter])
      xor (dst.take useLen) mask ++ mgfMaskLoop md hlen src fuel (counter + 1) (dst.drop useLen)

def mgfMask (h : MdFunctions) (mdAlg : MbedtlsMdType) (dst src : ByteString) :
    Except RsaError ByteString :=
  if h.size mdAlg = 0 then .error .badInputData
  else .ok (mgfMaskLoop (h.md mdAlg) (h.size mdAlg) src dst.length 0 dst)

def hashMprime (h : MdFunctions) (mdAlg : MbedtlsMdType) (hash salt : ByteString) :
    Except RsaError ByteString :=
  if h.size mdAlg = 0 then .error .badInputData
  else .ok (h.md mdAlg (List.replicate 8 0 ++ hash ++ salt))

def computeHash (h : MdFunctions) (mdAlg : MbedtlsMdType) (input : ByteString) :
    Except RsaError ByteString :=
  if h.size mdAlg = 0 then .error .badInputData else .ok (h.md mdAlg input)

def RsaRng := (n : Nat) → Except Int { bytes : ByteString // bytes.length = n }

/-! ## What these functions compute -/

section Facts

variable {h : MdFunctions} {mdAlg : MbedtlsMdType} {ctx : MbedtlsRsaContext}

theorem MdFunctions.size_eq (hsize : h.size mdAlg ≠ 0) : h.size mdAlg = mdInfoSize mdAlg := by
  unfold size at *
  split
  · rfl
  · next hnot => exact absurd (if_neg hnot) hsize

theorem MdFunctions.size_bounds (hsize : h.size mdAlg ≠ 0) :
    16 ≤ h.size mdAlg ∧ h.size mdAlg ≤ 64 := by
  rw [size_eq hsize] at *
  cases mdAlg <;> simp [mdInfoSize] at *

theorem MdFunctions.length_md_eq (hsize : h.size mdAlg ≠ 0) (input : ByteString) :
    (h.md mdAlg input).length = h.size mdAlg := by
  rw [h.length_md, size_eq hsize]

theorem mgfMaskLoop_eq {md : ByteString → ByteString} {hlen : Nat}
    (hmd : ∀ x, (md x).length = hlen) (hpos : 0 < hlen) (src : ByteString) {fuel : Nat}
    {counter n : Nat} {dst : ByteString} (hfuel : dst.length ≤ fuel) (hn : dst.length ≤ n * hlen)
    (hcounter : counter + n ≤ 256) :
    mgfMaskLoop md hlen src fuel (UInt8.ofNat counter) dst =
      xor dst (Pkcs1.mgf1Blocks md src n counter) := by
  induction fuel generalizing counter n dst with
  | zero =>
    rw [List.length_eq_zero_iff.mp (Nat.le_zero.mp hfuel)]
    rfl
  | succ fuel ih =>
    unfold mgfMaskLoop
    split
    · next hempty =>
      rw [List.length_eq_zero_iff.mp hempty]
      rfl
    next hne =>
    obtain ⟨n, rfl⟩ : ∃ m, n = m + 1 := by
      rcases n with _ | n
      · omega
      · exact ⟨n, rfl⟩
    rw [Nat.succ_mul] at hn
    have hlow : toBE 4 counter = [0, 0, 0, UInt8.ofNat counter] := by
      have h₁ : counter / 256 = 0 := by omega
      simp [toBE, toLE, h₁]
    have hnext : UInt8.ofNat counter + 1 = UInt8.ofNat (counter + 1) := by
      rw [UInt8.ofNat_add]
      rfl
    simp only
    rw [Pkcs1.mgf1Blocks, hlow, hnext]
    by_cases hshort : dst.length < hlen
    · rw [if_pos hshort, List.take_length, List.drop_length]
      have hrest : mgfMaskLoop md hlen src fuel (UInt8.ofNat (counter + 1)) [] = [] := by
        cases fuel <;> rfl
      have hcut : (md (src ++ [0, 0, 0, UInt8.ofNat counter]) ++
          Pkcs1.mgf1Blocks md src n (counter + 1)).take hlen =
            md (src ++ [0, 0, 0, UInt8.ofNat counter]) := List.take_left' (hmd _)
      rw [hrest, List.append_nil]
      conv_rhs => rw [← xor_take (Nat.le_of_lt hshort), hcut]
    · rw [if_neg hshort]
      have hdrop : (dst.drop hlen).length = dst.length - hlen := List.length_drop
      have hsplit := xor_append (y := dst.drop hlen)
        (l := Pkcs1.mgf1Blocks md src n (counter + 1))
        (show (dst.take hlen).length =
            (md (src ++ [0, 0, 0, UInt8.ofNat counter])).length by
          rw [hmd, List.length_take]
          omega)
      rw [List.take_append_drop] at hsplit
      rw [hsplit, ih (n := n) (by omega) (by omega) (by omega)]

theorem mgfMask_eq (hsize : h.size mdAlg ≠ 0) {dst : ByteString} (hdst : dst.length ≤ 4096)
    (src : ByteString) :
    mgfMask h mdAlg dst src =
      .ok (xor dst (Pkcs1.mgf1 (h.md mdAlg) (h.size mdAlg) src dst.length)) := by
  obtain ⟨hlow, _⟩ := MdFunctions.size_bounds hsize
  have hblocks := Pkcs1.le_blocks (Nat.lt_of_lt_of_le (by decide) hlow) dst.length
  have hcount : (dst.length + h.size mdAlg - 1) / h.size mdAlg ≤ 256 := by
    rw [Nat.div_le_iff_le_mul (by omega)]
    omega
  unfold mgfMask Pkcs1.mgf1
  rw [if_neg hsize, xor_take le_rfl]
  congr 1
  exact @mgfMaskLoop_eq _ _ (MdFunctions.length_md_eq hsize) (by omega) src _ 0 _ _ le_rfl
    hblocks (by omega)

theorem rsaCheckContext_eq (hctx : rsaCheckContext ctx = true) :
    ctx.len ≤ rsaMpiMaxSize ∧ 0 < ctx.bitlen ∧ ctx.key.N < 256 ^ ctx.len ∧
      2 ^ (ctx.bitlen - 1) ≤ ctx.key.N := by
  unfold rsaCheckContext at hctx
  simp only [Bool.and_eq_true, decide_eq_true_eq] at hctx
  obtain ⟨⟨hlen, hpos⟩, _⟩ := hctx
  have hbits : 0 < ctx.bitlen := Nat.size_pos.mpr hpos
  refine ⟨hlen, hbits, ?_, ?_⟩
  · have hpow : 256 ^ ctx.len = 2 ^ (8 * ctx.len) := by rw [Nat.pow_mul]
    rw [hpow, ← Nat.size_le]
    show ctx.bitlen ≤ 8 * ((ctx.bitlen + 7) / 8)
    omega
  · rw [← Nat.lt_size]
    show ctx.bitlen - 1 < ctx.bitlen
    omega

theorem mbedtlsRsaPublic_private {em sig : ByteString} (hem : em.length = ctx.len)
    (hsig : mbedtlsRsaPrivate ctx em = .ok sig) : mbedtlsRsaPublic ctx sig = .ok em := by
  unfold mbedtlsRsaPrivate at hsig
  split at hsig
  · cases hsig
  next hctx =>
  simp only at hsig
  rw [← hem, List.take_length, hem] at hsig
  split at hsig
  · cases hsig
  next hlt =>
  cases hsig
  rw [Nat.not_le] at hlt
  obtain ⟨_, _, hN, _⟩ := rsaCheckContext_eq (Bool.eq_true_of_not_eq_false hctx)
  have hpriv := ctx.key.privateOp_lt _ hlt
  have hvalue : ofBE (toBE ctx.len (ctx.key.privateOp (ofBE em))) =
      ctx.key.privateOp (ofBE em) := by
    rw [ofBE_toBE, Nat.mod_eq_of_lt (hpriv.trans hN)]
  have htake : (toBE ctx.len (ctx.key.privateOp (ofBE em))).take ctx.len =
      toBE ctx.len (ctx.key.privateOp (ofBE em)) := by
    rw [List.take_of_length_le (by rw [length_toBE])]
  have hback : toBE ctx.len (ofBE em) = em := by
    rw [← hem]
    exact toBE_ofBE em
  unfold mbedtlsRsaPublic
  rw [if_neg hctx, htake, hvalue, if_neg (Nat.not_le.mpr hpriv), ctx.key.public_private _ hlt,
    hback]

theorem mbedtlsRsaPrivate_public {em c : ByteString} (hem : em.length = ctx.len)
    (hc : mbedtlsRsaPublic ctx em = .ok c) : mbedtlsRsaPrivate ctx c = .ok em := by
  unfold mbedtlsRsaPublic at hc
  split at hc
  · cases hc
  next hctx =>
  simp only at hc
  rw [← hem, List.take_length, hem] at hc
  split at hc
  · cases hc
  next hlt =>
  cases hc
  rw [Nat.not_le] at hlt
  obtain ⟨_, _, hN, _⟩ := rsaCheckContext_eq (Bool.eq_true_of_not_eq_false hctx)
  have hpub := ctx.key.publicOp_lt _ hlt
  have hvalue : ofBE (toBE ctx.len (ctx.key.publicOp (ofBE em))) = ctx.key.publicOp (ofBE em) := by
    rw [ofBE_toBE, Nat.mod_eq_of_lt (hpub.trans hN)]
  have htake : (toBE ctx.len (ctx.key.publicOp (ofBE em))).take ctx.len =
      toBE ctx.len (ctx.key.publicOp (ofBE em)) := by
    rw [List.take_of_length_le (by rw [length_toBE])]
  have hback : toBE ctx.len (ofBE em) = em := by
    rw [← hem]
    exact toBE_ofBE em
  unfold mbedtlsRsaPrivate
  rw [if_neg hctx, htake, hvalue, if_neg (Nat.not_le.mpr hpub), ctx.key.private_public _ hlt, hback]

end Facts

end TfPsaCrypto
