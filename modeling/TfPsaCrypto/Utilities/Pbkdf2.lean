import TfPsaCrypto.KeyDerivation.Stream

/-!
# PBKDF2 in `pkcs5.c`

`pkcs5_pbkdf2_hmac` over an arbitrary HMAC function computes the stream of RFC 8018.
-/

namespace TfPsaCrypto.Pkcs5

open Bytes
open BlockStream (segment firstElements)

/-! ## The loop -/

/-- HMAC with some hash function: `size` is its `mbedtls_md_get_size`. -/
structure HmacFunction where
  size : Nat
  hmac : ByteString → ByteString → ByteString
  size_pos : 0 < size
  length_hmac : ∀ key m, (hmac key m).length = size

/-- `mbedtls_md_context_t` between `mbedtls_md_hmac_starts` and `mbedtls_md_hmac_finish`. -/
structure MdHmac where
  key : ByteString
  message : ByteString
  deriving DecidableEq, Repr

namespace MdHmac

def starts (key : ByteString) : MdHmac := { key := key, message := [] }

def update (ctx : MdHmac) (input : ByteString) : MdHmac :=
  { ctx with message := ctx.message ++ input }

def finish (H : HmacFunction) (ctx : MdHmac) : ByteString := H.hmac ctx.key ctx.message

def reset (ctx : MdHmac) : MdHmac := { ctx with message := [] }

end MdHmac

variable (H : HmacFunction)

/-- The loop that increments the counter, from byte `i - 1` down. -/
def counterIncrement : Nat → ByteString → ByteString
  | 0, counter => counter
  | i + 1, counter =>
    let b := counter.getD i 0 + 1
    if b ≠ 0 then counter.set i b else counterIncrement i (counter.set i b)

/-- The loop over the iterations: `i` of them, with the last result in `md1`. -/
def pkcs5Iterate (ctx : MdHmac) : Nat → ByteString → ByteString → ByteString
  | 0, _, work => work
  | i + 1, md1, work =>
    let md1 := (ctx.update md1).finish H
    pkcs5Iterate (ctx.update md1).reset i md1 (xor work md1)

def pkcs5Block (ctx : MdHmac) (salt : ByteString) (iterationCount : Nat) (counter : ByteString) :
    ByteString :=
  let ctx := (ctx.update salt).update counter
  let work := ctx.finish H
  pkcs5Iterate H ctx.reset (iterationCount - 1) work work

/-- The outer loop. Each pass writes at least a byte, so that `fuel` may be the key length. -/
def pkcs5Loop (ctx : MdHmac) (salt : ByteString) (iterationCount : Nat) :
    (fuel keyLength : Nat) → ByteString → ByteString
  | 0, _, _ => []
  | fuel + 1, keyLength, counter =>
    if keyLength = 0 then []
    else
      let work := pkcs5Block H ctx salt iterationCount counter
      let useLen := if keyLength < H.size then keyLength else H.size
      work.take useLen ++ pkcs5Loop ctx salt iterationCount fuel (keyLength - useLen)
        (counterIncrement 4 counter)

def pkcs5Pbkdf2Hmac (password salt : ByteString) (iterationCount keyLength : Nat) : ByteString :=
  pkcs5Loop H (.starts password) salt iterationCount keyLength keyLength [0, 0, 0, 1]

/-! ## The counter -/

theorem toBE_succ (i v : Nat) : toBE (i + 1) v = toBE i (v / 256) ++ [UInt8.ofNat v] :=
  toBE_add i 1 v

theorem counterIncrement_toBE (i v : Nat) (rest : ByteString) :
    counterIncrement i (toBE i v ++ rest) = toBE i (v + 1) ++ rest := by
  induction i generalizing v rest with
  | zero => rfl
  | succ i ih =>
    have hlen := length_toBE i (v / 256)
    have hget : (toBE i (v / 256) ++ [UInt8.ofNat v] ++ rest).getD i 0 = UInt8.ofNat v := by
      simp [List.getD_eq_getElem?_getD, hlen]
    have hset : ∀ b, (toBE i (v / 256) ++ [UInt8.ofNat v] ++ rest).set i b
        = toBE i (v / 256) ++ ([b] ++ rest) := by
      intro b
      simp [hlen]
    have hbyte : UInt8.ofNat v + 1 = UInt8.ofNat (v + 1) := (UInt8.ofNat_add v 1).symm
    rw [toBE_succ, toBE_succ, counterIncrement, hget, hset, hbyte]
    split
    · next hne =>
      -- no carry
      have hdiv : (v + 1) / 256 = v / 256 := by
        have hmod : (v + 1) % 256 ≠ 0 := by
          intro hzero
          apply hne
          apply UInt8.toNat_inj.mp
          rw [UInt8.toNat_ofNat']
          exact hzero
        omega
      rw [hdiv, List.append_assoc]
    · next hzero =>
      -- the byte becomes 0, and the bytes before it are incremented
      have hdiv : (v + 1) / 256 = v / 256 + 1 := by
        have hmod := congrArg UInt8.toNat (not_not.mp hzero)
        rw [UInt8.toNat_ofNat'] at hmod
        have hmod : (v + 1) % 256 = 0 := hmod
        omega
      rw [ih, hdiv, List.append_assoc]

variable {H}

/-! ## RFC 8018 -/

/-- PBKDF2 of RFC 8018: the first `n` bytes of the blocks `T_1`, `T_2`, …. -/
def rfc8018Pbkdf2 (H : HmacFunction) (password salt : ByteString) (c n : Nat) : ByteString :=
  firstElements H.size (fun i => pbkdf2F (H.hmac password) salt c (i + 1)) n

theorem pkcs5Iterate_eq (password salt : ByteString) (i j n : Nat) :
    pkcs5Iterate H (.starts password) n (pbkdf2U (H.hmac password) salt i j)
        (pbkdf2Xor (H.hmac password) salt i j)
      = pbkdf2Xor (H.hmac password) salt i (j + n) := by
  induction n generalizing j with
  | zero => rfl
  | succ n ih =>
    have hnext := ih (j + 1)
    rw [Nat.add_assoc, Nat.add_comm 1 n] at hnext
    rw [← hnext]
    rfl

theorem pkcs5Block_eq (password salt : ByteString) (c i : Nat) :
    pkcs5Block H (.starts password) salt c (toBE 4 i) = pbkdf2F (H.hmac password) salt c i := by
  have hrun := pkcs5Iterate_eq (H := H) password salt i 0 (c - 1)
  rw [Nat.zero_add] at hrun
  rw [pbkdf2F, ← hrun]
  rfl

theorem pkcs5Loop_eq (password salt : ByteString) (c : Nat) {fuel n : Nat} (i : Nat)
    (h : n ≤ fuel) :
    pkcs5Loop H (.starts password) salt c fuel n (toBE 4 (i + 1))
      = segment H.size (fun i => pbkdf2F (H.hmac password) salt c (i + 1)) (i * H.size) n := by
  have hlen : ∀ j, (pbkdf2F (H.hmac password) salt c (j + 1)).length = H.size :=
    fun j => length_pbkdf2Xor (H.length_hmac password) _ _ _
  -- each pass writes block `i`, and the next pass begins at block `i + 1`
  induction fuel generalizing n i with
  | zero =>
    obtain rfl : n = 0 := Nat.le_zero.mp h
    rw [BlockStream.segment_zero]
    rfl
  | succ fuel ih =>
    rw [pkcs5Loop]
    split
    · next hzero => rw [hzero, BlockStream.segment_zero]
    next hne =>
    have hpos := H.size_pos
    have hcounter := counterIncrement_toBE 4 (i + 1) []
    simp only [List.append_nil] at hcounter
    have hblock := fun m (hm : m ≤ H.size) =>
      BlockStream.segment_of_block (o := 0) (n := m) (T := fun i =>
        pbkdf2F (H.hmac password) salt c (i + 1)) (hlen i) (by omega)
    simp only [Nat.add_zero, List.drop_zero] at hblock
    simp only [pkcs5Block_eq, hcounter]
    split
    · next hlast =>
      -- the last block is cut, and nothing is left to write
      have hrest := ih (n := n - n) (i + 1) (by omega)
      rw [hrest, Nat.sub_self, BlockStream.segment_zero, List.append_nil, hblock n (by omega)]
    · next hmore =>
      have hrest := ih (n := n - H.size) (i + 1) (by omega)
      have hsum : n = H.size + (n - H.size) := by omega
      rw [hrest, ← hblock H.size (Nat.le_refl _), Nat.succ_mul, ← BlockStream.segment_add, ← hsum]

theorem pkcs5Pbkdf2Hmac_rfc8018 (password salt : ByteString) (c n : Nat) :
    pkcs5Pbkdf2Hmac H password salt c n = rfc8018Pbkdf2 H password salt c n := by
  have hlen : ∀ j, (pbkdf2F (H.hmac password) salt c (j + 1)).length = H.size :=
    fun j => length_pbkdf2Xor (H.length_hmac password) _ _ _
  have hloop := pkcs5Loop_eq (H := H) password salt c 0 (Nat.le_refl n)
  rw [Nat.zero_mul] at hloop
  rw [rfc8018Pbkdf2, BlockStream.firstElements_eq H.size_pos hlen, ← hloop]
  rfl

/-! ## The PSA key derivation -/

/-- A PSA operation with PBKDF2-HMAC that took one iteration count `c`, one password, and the
salt in any number of pieces, and was then read with any requests. -/
structure Pbkdf2HmacReading (K : KdfPlatform) (alg : PsaAlgorithm) (password salt : ByteString)
    (c : Nat) (started : PsaKeyDerivationOperation) (ins outs : List KdfEvent) : Prop where
  reading : KdfReading K .pbkdf2Hmac alg started ins outs
  password : (suppliedInputs ins).bytes .password = [password]
  salt : ((suppliedInputs ins).bytes .salt).flatten = salt
  cost : (suppliedInputs ins).costs = [c]

theorem Pbkdf2HmacReading.given_eq {K : KdfPlatform} {alg : PsaAlgorithm}
    {password salt : ByteString} {c : Nat} {started : PsaKeyDerivationOperation}
    {ins outs : List KdfEvent} (h : Pbkdf2HmacReading K alg password salt c started ins outs)
    (hhmac : H.hmac = K.hmac (psaAlgKdfGetHash (kdfAlgOf alg))) :
    given outs = pkcs5Pbkdf2Hmac H password salt c (requested outs) := by
  have hsize : Kdf.pbkdf2Hmac.blockSize (kdfAlgOf alg) = H.size := by
    have hlen := H.length_hmac [] []
    rw [hhmac, K.length_hmac] at hlen
    exact hlen
  have hstream : kdfBlock K .pbkdf2Hmac (kdfAlgOf alg) (suppliedInputs ins)
      = fun i => pbkdf2F (H.hmac password) salt c (i + 1) := by
    funext i
    rw [hhmac, kdfBlock, pbkdf2PasswordPrf, if_neg (by decide), KdfInputs.first, h.password,
      h.salt, h.cost]
    rfl
  rw [pkcs5Pbkdf2Hmac_rfc8018, rfc8018Pbkdf2, (output_is_one_stream h.reading).1, hsize, hstream]

end TfPsaCrypto.Pkcs5
