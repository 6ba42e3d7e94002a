import TfPsaCrypto.Library.Cbc

/-!
# AES-CBC through the cipher layer

The functions of `cipher.c` that a call of `mbedtls_cipher_crypt` with AES in CBC mode goes
through, with `mbedtls_aes_crypt_cbc` of `aes.c`. The block function of AES is a parameter. The
input and the output are different buffers.
-/

namespace TfPsaCrypto.Pkcs5

open Bytes

/-! ## Data -/

structure AesCipher where
  encrypt : ByteString → ByteString → ByteString
  decrypt : ByteString → ByteString → ByteString
  length_encrypt : ∀ key b : ByteString, b.length = 16 → (encrypt key b).length = 16
  length_decrypt : ∀ key b : ByteString, b.length = 16 → (decrypt key b).length = 16
  decrypt_encrypt : ∀ key b : ByteString, b.length = 16 → decrypt key (encrypt key b) = b

/-- Without `MBEDTLS_OPERATION_NONE`. -/
inductive MbedtlsOperation where
  | decrypt
  | encrypt
  deriving DecidableEq, Repr

inductive CipherError where
  | badInputData
  | featureUnavailable
  | allocFailed
  | fullBlockExpected
  | invalidPadding
  | aesInvalidInputLength
  deriving DecidableEq, Repr

/-- `mbedtls_cipher_context_t`. `padding` says that `add_padding` is not null: it is then the
PKCS#7 function; `unprocessed` are the `unprocessed_len` bytes of `unprocessed_data`. -/
structure MbedtlsCipherContext where
  operation : MbedtlsOperation
  key : ByteString
  padding : Bool
  iv : ByteString
  unprocessed : ByteString
  deriving DecidableEq, Repr

def mbedtlsMaxIvLength : Nat := 16

variable (A : AesCipher)

/-! ## Functions -/

def mbedtlsAesCryptCbc (ctx : MbedtlsCipherContext) (input : ByteString) :
    Except CipherError (MbedtlsCipherContext × ByteString) :=
  if input.length % 16 ≠ 0 then .error .aesInvalidInputLength
  else
    let r := match ctx.operation with
      | .decrypt => Cbc.decrypt 16 (A.decrypt ctx.key) (input.length / 16) ctx.iv input
      | .encrypt => Cbc.encrypt 16 (A.encrypt ctx.key) (input.length / 16) ctx.iv input
    .ok ({ ctx with iv := r.2 }, r.1)

def mbedtlsCipherSetIv (ctx : MbedtlsCipherContext) (iv : ByteString) :
    Except CipherError MbedtlsCipherContext :=
  if iv.length > mbedtlsMaxIvLength then .error .featureUnavailable
  else if 16 > iv.length then .error .badInputData
  else .ok { ctx with iv := iv.take 16 }

def cachesInput (ctx : MbedtlsCipherContext) (ilen : Nat) : Bool :=
  match ctx.operation with
  | .decrypt =>
    if ctx.padding then ilen ≤ 16 - ctx.unprocessed.length
    else ilen < 16 - ctx.unprocessed.length
  | .encrypt => ilen < 16 - ctx.unprocessed.length

def cacheLength (ctx : MbedtlsCipherContext) (ilen : Nat) : Nat :=
  if ilen ≠ 0 ∧ ilen % 16 = 0 ∧ ctx.operation = .decrypt ∧ ctx.padding then 16 else ilen % 16

def processCached (ctx : MbedtlsCipherContext) (input : ByteString) :
    Except CipherError (MbedtlsCipherContext × ByteString × ByteString) :=
  if ctx.unprocessed = [] then .ok (ctx, [], input)
  else
    let copyLen := 16 - ctx.unprocessed.length
    match mbedtlsAesCryptCbc A ctx (ctx.unprocessed ++ input.take copyLen) with
    | .error e => .error e
    | .ok (ctx, output) => .ok ({ ctx with unprocessed := [] }, output, input.drop copyLen)

def mbedtlsCipherUpdate (ctx : MbedtlsCipherContext) (input : ByteString) :
    Except CipherError (MbedtlsCipherContext × ByteString) :=
  if cachesInput ctx input.length then
    .ok ({ ctx with unprocessed := ctx.unprocessed ++ input }, [])
  else
    match processCached A ctx input with
    | .error e => .error e
    | .ok (ctx, output, input) =>
      let ilen := input.length - cacheLength ctx input.length
      match mbedtlsAesCryptCbc A { ctx with unprocessed := input.drop ilen }
          (input.take ilen) with
      | .error e => .error e
      | .ok (ctx, rest) => .ok (ctx, output ++ rest)

def addPkcsPadding (outputLen : Nat) (data : ByteString) : ByteString :=
  data ++ List.replicate (outputLen - data.length) (UInt8.ofNat (outputLen - data.length))

/-- The length of the data, and whether the padding is invalid. -/
def mbedtlsGetPkcsPadding (input : ByteString) : Nat × Bool :=
  let paddingLen := (input.getLastD 0).toNat
  let bad := decide (paddingLen > input.length) || decide (paddingLen = 0) ||
    (input.drop (input.length - paddingLen)).any fun b => b.toNat ≠ paddingLen
  (if bad then 0 else input.length - paddingLen, bad)

/-- What is returned, the bytes that are written, and their number in `*olen`. -/
structure CryptResult where
  ret : Option CipherError
  output : ByteString
  olen : Nat
  invalidPadding : Bool := false
  deriving DecidableEq, Repr

def cipherFinishBlock (ctx : MbedtlsCipherContext) (block : ByteString) : CryptResult :=
  match mbedtlsAesCryptCbc A ctx block with
  | .error e => { ret := some e, output := [], olen := 0 }
  | .ok (ctx, output) =>
    match ctx.operation with
    | .encrypt => { ret := none, output := output, olen := 16 }
    | .decrypt =>
      if ctx.padding then
        let r := mbedtlsGetPkcsPadding output
        { ret := none, output := output, olen := r.1, invalidPadding := r.2 }
      else { ret := none, output := output, olen := 16 }

def mbedtlsCipherFinishPadded (ctx : MbedtlsCipherContext) : CryptResult :=
  match ctx.operation with
  | .encrypt =>
    if ctx.padding then cipherFinishBlock A ctx (addPkcsPadding 16 ctx.unprocessed)
    else if ctx.unprocessed ≠ [] then { ret := some .fullBlockExpected, output := [], olen := 0 }
    else { ret := none, output := [], olen := 0 }
  | .decrypt =>
    if ctx.unprocessed.length ≠ 16 then
      if ctx.padding = false ∧ ctx.unprocessed = [] then { ret := none, output := [], olen := 0 }
      else { ret := some .fullBlockExpected, output := [], olen := 0 }
    else cipherFinishBlock A ctx ctx.unprocessed

def mbedtlsCipherCrypt (ctx : MbedtlsCipherContext) (iv input : ByteString) (olen : Nat) :
    CryptResult :=
  match mbedtlsCipherSetIv ctx iv with
  | .error e => { ret := some e, output := [], olen := olen }
  | .ok ctx =>
    match mbedtlsCipherUpdate A { ctx with unprocessed := [] } input with
    | .error e => { ret := some e, output := [], olen := 0 }
    | .ok (ctx, output) =>
      let r := mbedtlsCipherFinishPadded A ctx
      match r.ret with
      | some e => { ret := some e, output := output ++ r.output, olen := output.length }
      | none =>
        { ret := if r.invalidPadding then some .invalidPadding else none
          output := output ++ r.output
          olen := output.length + r.olen
          invalidPadding := r.invalidPadding }

/-! ## Padding -/

theorem length_addPkcsPadding (data : ByteString) (h : data.length < 16) :
    (addPkcsPadding 16 data).length = 16 := by
  rw [addPkcsPadding, List.length_append, List.length_replicate]
  omega

theorem mbedtlsGetPkcsPadding_add (data : ByteString) (h : data.length < 16) :
    mbedtlsGetPkcsPadding (addPkcsPadding 16 data) = (data.length, false) := by
  have hlen := length_addPkcsPadding data h
  have hbyte : (UInt8.ofNat (16 - data.length)).toNat = 16 - data.length := by
    rw [UInt8.toNat_ofNat']
    omega
  -- there is at least one byte of padding, and the last byte is one
  obtain ⟨p, hp⟩ : ∃ p, 16 - data.length = p + 1 := ⟨15 - data.length, by omega⟩
  have hlast : (addPkcsPadding 16 data).getLastD 0 = UInt8.ofNat (16 - data.length) := by
    rw [addPkcsPadding, hp, List.replicate_succ', ← List.append_assoc]
    simp
  have hdrop : (addPkcsPadding 16 data).drop data.length
      = List.replicate (16 - data.length) (UInt8.ofNat (16 - data.length)) := by
    rw [addPkcsPadding, List.drop_left]
  have hgood : (List.replicate (16 - data.length) (UInt8.ofNat (16 - data.length))).any
      (fun b => b.toNat ≠ 16 - data.length) = false := by
    rw [List.any_eq_false]
    intro b hb
    rw [List.eq_of_mem_replicate hb, hbyte]
    simp
  have hback : 16 - (16 - data.length) = data.length := by omega
  unfold mbedtlsGetPkcsPadding
  simp only [hlast, hbyte, hlen, hback, hdrop, hgood]
  have hle : ¬ 16 - data.length > 16 := by omega
  have hne : ¬ 16 - data.length = 0 := by omega
  simp [hle, hne]

/-! ## One call -/

variable {A} {ctx : MbedtlsCipherContext} {iv input : ByteString} {k : Nat}

theorem mbedtlsAesCryptCbc_encrypt (hop : ctx.operation = .encrypt)
    (h : input.length = k * 16) :
    mbedtlsAesCryptCbc A ctx input
      = .ok ({ ctx with iv := (Cbc.encrypt 16 (A.encrypt ctx.key) k ctx.iv input).2 },
          (Cbc.encrypt 16 (A.encrypt ctx.key) k ctx.iv input).1) := by
  have hmod : ¬ input.length % 16 ≠ 0 := by omega
  have hdiv : input.length / 16 = k := by omega
  unfold mbedtlsAesCryptCbc
  rw [if_neg hmod, hop, hdiv]

theorem mbedtlsAesCryptCbc_decrypt (hop : ctx.operation = .decrypt)
    (h : input.length = k * 16) :
    mbedtlsAesCryptCbc A ctx input
      = .ok ({ ctx with iv := (Cbc.decrypt 16 (A.decrypt ctx.key) k ctx.iv input).2 },
          (Cbc.decrypt 16 (A.decrypt ctx.key) k ctx.iv input).1) := by
  have hmod : ¬ input.length % 16 ≠ 0 := by omega
  have hdiv : input.length / 16 = k := by omega
  unfold mbedtlsAesCryptCbc
  rw [if_neg hmod, hop, hdiv]

variable (A ctx) in
theorem mbedtlsAesCryptCbc_nil : mbedtlsAesCryptCbc A ctx [] = .ok (ctx, []) := by
  cases hop : ctx.operation with
  | decrypt => exact mbedtlsAesCryptCbc_decrypt (k := 0) hop rfl
  | encrypt => exact mbedtlsAesCryptCbc_encrypt (k := 0) hop rfl

def updateBlocks : MbedtlsOperation → Nat → Nat
  | .decrypt, ilen => (ilen - 1) / 16
  | .encrypt, ilen => ilen / 16

theorem updateBlocks_le (operation : MbedtlsOperation) (ilen : Nat) :
    updateBlocks operation ilen * 16 ≤ ilen := by
  cases operation with
  | decrypt =>
    simp only [updateBlocks]
    omega
  | encrypt =>
    simp only [updateBlocks]
    omega

theorem mbedtlsCipherUpdate_eq (hpad : ctx.padding = true) (hempty : ctx.unprocessed = []) :
    mbedtlsCipherUpdate A ctx input
      = mbedtlsAesCryptCbc A
          { ctx with unprocessed := input.drop (updateBlocks ctx.operation input.length * 16) }
          (input.take (updateBlocks ctx.operation input.length * 16)) := by
  unfold mbedtlsCipherUpdate
  split
  · next hcached =>
    -- all of the input is cached
    have hnone : updateBlocks ctx.operation input.length = 0 := by
      unfold cachesInput at hcached
      cases hop : ctx.operation with
      | decrypt =>
        simp only [hop, hpad, hempty, if_true, List.length_nil, decide_eq_true_eq] at hcached
        simp only [updateBlocks]
        omega
      | encrypt =>
        simp only [hop, hempty, List.length_nil, decide_eq_true_eq] at hcached
        simp only [updateBlocks]
        omega
    rw [hnone, Nat.zero_mul, List.drop_zero, List.take_zero, hempty, List.nil_append]
    have hnothing := mbedtlsAesCryptCbc_nil A { ctx with unprocessed := input }
    exact hnothing.symm
  · next hwhole =>
    -- nothing was cached before, so that the first block is one of the input
    have hlen : input.length - cacheLength ctx input.length
        = updateBlocks ctx.operation input.length * 16 := by
      unfold cachesInput at hwhole
      unfold cacheLength
      cases hop : ctx.operation with
      | decrypt =>
        simp only [updateBlocks, hpad, and_true]
        split
        · omega
        · omega
      | encrypt =>
        simp only [updateBlocks, reduceCtorEq, false_and, and_false, if_false]
        omega
    have hcached : processCached A ctx input = .ok (ctx, [], input) := by
      unfold processCached
      rw [if_pos hempty]
    simp only [hcached, hlen]
    split
    · next heq => rw [heq]
    · next heq => rw [heq, List.nil_append]

theorem mbedtlsCipherSetIv_ok (hiv : iv.length = 16) :
    mbedtlsCipherSetIv ctx iv = .ok { ctx with iv := iv } := by
  have hmax : ¬ iv.length > mbedtlsMaxIvLength := by
    unfold mbedtlsMaxIvLength
    omega
  unfold mbedtlsCipherSetIv
  rw [if_neg hmax, if_neg (by omega), List.take_of_length_le (by omega)]

def pkcsPadded (data : ByteString) : ByteString :=
  data.take (data.length / 16 * 16) ++ addPkcsPadding 16 (data.drop (data.length / 16 * 16))

theorem length_tail (data : ByteString) :
    (data.drop (data.length / 16 * 16)).length = data.length % 16 := by
  rw [List.length_drop]
  omega

theorem length_pkcsPadded (data : ByteString) :
    (pkcsPadded data).length = (data.length / 16 + 1) * 16 := by
  have htail := length_tail data
  rw [pkcsPadded, List.length_append, length_addPkcsPadding _ (by omega), List.length_take]
  omega

theorem mbedtlsCipherCrypt_encrypt (hop : ctx.operation = .encrypt) (hpad : ctx.padding = true)
    (hiv : iv.length = 16) (data : ByteString) (olen : Nat) :
    mbedtlsCipherCrypt A ctx iv data olen
      = { ret := none
          output := (Cbc.encrypt 16 (A.encrypt ctx.key) (data.length / 16 + 1) iv
            (pkcsPadded data)).1
          olen := (data.length / 16 + 1) * 16 } := by
  have hwhole : (data.take (data.length / 16 * 16)).length = data.length / 16 * 16 := by
    rw [List.length_take]
    omega
  have htail := length_tail data
  have hblock := length_addPkcsPadding (data.drop (data.length / 16 * 16)) (by omega)
  have hlen := (Cbc.length_encrypt (A.length_encrypt ctx.key) hiv hwhole).1
  have hsplit := Cbc.encrypt_append iv (E := A.encrypt ctx.key) (k := 1)
    (y := addPkcsPadding 16 (data.drop (data.length / 16 * 16))) hwhole
  unfold mbedtlsCipherCrypt
  simp only [mbedtlsCipherSetIv_ok hiv]
  -- the update encrypts the whole blocks, and the finish the padded one
  rw [mbedtlsCipherUpdate_eq]
  case hpad => exact hpad
  case hempty => rfl
  simp only [hop, updateBlocks]
  rw [mbedtlsAesCryptCbc_encrypt]
  case hop => rfl
  case h => exact hwhole
  simp only [mbedtlsCipherFinishPadded, cipherFinishBlock, hpad, if_true]
  rw [mbedtlsAesCryptCbc_encrypt (k := 1)]
  case hop => rfl
  case h => exact hblock
  simp only [pkcsPadded, hsplit, hlen]
  simp [Nat.succ_mul]

theorem mbedtlsCipherCrypt_decrypt (hop : ctx.operation = .decrypt) (hpad : ctx.padding = true)
    (hiv : iv.length = 16) (data : ByteString) (olen : Nat) :
    mbedtlsCipherCrypt A ctx iv
        (Cbc.encrypt 16 (A.encrypt ctx.key) (data.length / 16 + 1) iv (pkcsPadded data)).1 olen
      = { ret := none, output := pkcsPadded data, olen := data.length } := by
  have hE := A.length_encrypt ctx.key
  have hDE := A.decrypt_encrypt ctx.key
  obtain ⟨x, hx⟩ : ∃ x, x = data.take (data.length / 16 * 16) := ⟨_, rfl⟩
  obtain ⟨y, hy⟩ : ∃ y, y = data.drop (data.length / 16 * 16) := ⟨_, rfl⟩
  obtain ⟨q, hq⟩ : ∃ q, q = data.length / 16 := ⟨_, rfl⟩
  have hpadded : pkcsPadded data = x ++ addPkcsPadding 16 y := by
    rw [hx, hy]
    rfl
  have hxlen : x.length = q * 16 := by
    rw [hx, hq, List.length_take]
    omega
  have hylen : y.length = data.length - q * 16 := by
    rw [hy, hq, List.length_drop]
  have hlast := length_addPkcsPadding y (by omega)
  rw [hpadded, ← hq, Cbc.encrypt_append iv hxlen]
  obtain ⟨hc, hmid⟩ := Cbc.length_encrypt hE hiv hxlen
  have hfirst := Cbc.decrypt_encrypt hE hDE hiv hxlen
  have hsecond := Cbc.decrypt_encrypt (k := 1) hE hDE hmid hlast
  have hc' := (Cbc.length_encrypt (k := 1) hE hmid hlast).1
  generalize Cbc.encrypt 16 (A.encrypt ctx.key) q iv x = first at *
  generalize Cbc.encrypt 16 (A.encrypt ctx.key) 1 first.2 (addPkcsPadding 16 y) = second at *
  -- the update keeps the last block back, and the finish takes its padding off
  have hblocks : updateBlocks .decrypt (first.1 ++ second.1).length = q := by
    rw [List.length_append, hc, hc']
    simp only [updateBlocks]
    omega
  unfold mbedtlsCipherCrypt
  simp only [mbedtlsCipherSetIv_ok hiv]
  rw [mbedtlsCipherUpdate_eq]
  case hpad => exact hpad
  case hempty => rfl
  simp only [hop, hblocks, List.take_left' hc, List.drop_left' hc]
  rw [mbedtlsAesCryptCbc_decrypt]
  case hop => rfl
  case h => exact hc
  simp only [hfirst, mbedtlsCipherFinishPadded, hc', cipherFinishBlock]
  rw [mbedtlsAesCryptCbc_decrypt (k := 1)]
  case hop => rfl
  case h => exact hc'
  simp only [hsecond, hpad, if_true, mbedtlsGetPkcsPadding_add y (by omega)]
  simp [hxlen]
  omega

variable (A ctx) in
theorem length_mbedtlsCipherFinishPadded (hop : ctx.operation = .decrypt) :
    (mbedtlsCipherFinishPadded A ctx).output.length ≤ ctx.unprocessed.length := by
  unfold mbedtlsCipherFinishPadded
  simp only [hop]
  split
  · split
    · exact Nat.zero_le _
    · exact Nat.zero_le _
  next hfull =>
  have hblock : ctx.unprocessed.length = 1 * 16 := by omega
  have hlen := Cbc.length_decrypt_le ctx.iv (A.length_decrypt ctx.key) hblock
  unfold cipherFinishBlock
  rw [mbedtlsAesCryptCbc_decrypt hop hblock]
  simp only [hop]
  split
  · exact hlen.trans_eq hblock.symm
  · exact hlen.trans_eq hblock.symm

theorem length_mbedtlsCipherCrypt_decrypt (hop : ctx.operation = .decrypt)
    (hpad : ctx.padding = true) (hiv : iv.length = 16) (input : ByteString) (olen : Nat) :
    (mbedtlsCipherCrypt A ctx iv input olen).output.length ≤ input.length := by
  have hle := updateBlocks_le .decrypt input.length
  have hwhole : (input.take (updateBlocks .decrypt input.length * 16)).length
      = updateBlocks .decrypt input.length * 16 := by
    rw [List.length_take]
    omega
  have hfirst := Cbc.length_decrypt_le iv (A.length_decrypt ctx.key) hwhole
  unfold mbedtlsCipherCrypt
  simp only [mbedtlsCipherSetIv_ok hiv]
  rw [mbedtlsCipherUpdate_eq]
  case hpad => exact hpad
  case hempty => rfl
  simp only [hop]
  rw [mbedtlsAesCryptCbc_decrypt]
  case hop => rfl
  case h => exact hwhole
  dsimp only
  have hfinish := length_mbedtlsCipherFinishPadded A
    { ctx with
      operation := .decrypt
      iv := (Cbc.decrypt 16 (A.decrypt ctx.key) (updateBlocks .decrypt input.length) iv
        (input.take (updateBlocks .decrypt input.length * 16))).2
      unprocessed := input.drop (updateBlocks .decrypt input.length * 16) } rfl
  simp only [List.length_drop] at hfinish
  split
  · rw [List.length_append]
    omega
  · rw [List.length_append]
    omega

end TfPsaCrypto.Pkcs5
