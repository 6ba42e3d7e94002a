import TfPsaCrypto.Builtin.BignumBytesExact
import TfPsaCrypto.Builtin.BignumCompare
import TfPsaCrypto.Builtin.BignumDivision
import TfPsaCrypto.KeyDerivation.Protocol

/-!
# Derived Weierstrass keys

`psa_generate_derived_ecc_key_weierstrass_helper` with its bignums, for the order `N` of a curve.
The rounds draw from a key derivation operation, whose capacity bounds their number.
-/

namespace TfPsaCrypto

open Bytes (ByteString ofBE toBE ofBE_cons ofBE_lt)
open BlockStream (segment segment_add)
open Limbs

/-! ## The helper -/

/-- The table of a number: no table ends in a limb that is zero. -/
def ecpMpiLoad (w n : Nat) : MbedtlsMpi w :=
  { s := 1, p := ofNat w (limbCount w n) n }

def MpiError.status : MpiError → PsaStatus
  | .allocFailed => .errorInsufficientMemory
  | .bufferTooSmall => .errorBufferTooSmall
  | _ => .errorInvalidArgument

def diffN2 {w : Nat} (N : MbedtlsMpi w) : Except MpiError (MbedtlsMpi w) :=
  (mbedtlsMpiSubMpi w .init N.num ⟨2, 1⟩).map (MpiNum.mpi w)

def clearExcessBits (m : Nat) (data : ByteString) : ByteString :=
  if m % 8 ≠ 0 then
    data.set 0 (data.getD 0 0 &&& UInt8.ofNat ((1 <<< (m % 8)) - 1))
  else data

def testCandidate {w : Nat} (isBigEndian : Bool) (diff k : MbedtlsMpi w) (m : Nat)
    (data : ByteString) : Except MpiError (Bool × MbedtlsMpi w) :=
  let read := mbedtlsMpiReadBinary isBigEndian k (clearExcessBits m data)
  match read.ret with
  | some e => .error e
  | none => (mbedtlsMpiLtMpiCt diff read.X).map fun keyOutOfRange => (keyOutOfRange, read.X)

def writeSuccessor {w : Nat} (k : MbedtlsMpi w) (mBytes : Nat) : Except MpiError ByteString :=
  match mbedtlsMpiAddMpi w k.num k.num ⟨1, 1⟩ with
  | .error e => .error e
  | .ok k => mbedtlsMpiWriteBinary (k.mpi w) mBytes

section Helper

variable (P : KdfPlatform) (env : Nat → OutputEnv) {w : Nat} (isBigEndian : Bool)

/-- The rounds from draw `i` on; `none` where they have not ended after `fuel` of them. -/
def candidateLoop (diff : MbedtlsMpi w) (m : Nat) :
    (fuel i : Nat) → MbedtlsMpi w → PsaKeyDerivationOperation → Option OutputResult
  | 0, _, _, _ => none
  | fuel + 1, i, k, operation =>
    let mBytes := psaBitsToBytes m
    let drawn := psaKeyDerivationOutputBytes P (env i) operation mBytes
    if drawn.status ≠ .success then some ⟨drawn.status, drawn.operation, []⟩
    else
      match testCandidate isBigEndian diff k m drawn.output with
      | .error e => some ⟨e.status, drawn.operation, []⟩
      | .ok (true, k) => candidateLoop diff m fuel (i + 1) k drawn.operation
      | .ok (false, k) =>
        match writeSuccessor k mBytes with
        | .error e => some ⟨e.status, drawn.operation, []⟩
        | .ok data => some ⟨.success, drawn.operation, data⟩

/-- `psa_generate_derived_ecc_key_weierstrass_helper` for the order `N`; `mbedtls_calloc` may fail.
-/
def weierstrassHelper (N : MbedtlsMpi w) (calloc : Bool) (fuel : Nat)
    (operation : PsaKeyDerivationOperation) : Option OutputResult :=
  match diffN2 N with
  | .error e => some ⟨e.status, operation, []⟩
  | .ok diff =>
    if ¬ calloc then some ⟨.errorInsufficientMemory, operation, []⟩
    else candidateLoop P env isBigEndian diff (mbedtlsMpiBitlen N) fuel 0 .init operation

end Helper

/-! ## Limbs -/

section Limbs

variable {w : Nat}

theorem lt_two_pow_limbCount (hw : 0 < w) (v : Int) : v.natAbs < 2 ^ (w * limbCount w v) :=
  (limbCount_le hw).mp (Nat.le_refl _)

theorem ecpMpiLoad_n (n : Nat) : (ecpMpiLoad w n).n = limbCount w n := length_ofNat _ _

theorem ecpMpiLoad_abs (hw : 0 < w) (n : Nat) : (ecpMpiLoad w n).abs = n :=
  value_ofNat_of_lt (lt_two_pow_limbCount hw n)

theorem ecpMpiLoad_toInt (hw : 0 < w) (n : Nat) : (ecpMpiLoad w n).toInt = n := by
  unfold MbedtlsMpi.toInt
  rw [ecpMpiLoad_abs hw]
  simp [ecpMpiLoad]

theorem mbedtlsMpiBitlen_ecpMpiLoad (hw : 0 < w) (n : Nat) :
    mbedtlsMpiBitlen (ecpMpiLoad w n) = n.size := by
  rw [mbedtlsMpiBitlen_eq, ecpMpiLoad_abs hw]

theorem charsToLimbs_bytes (hw : 0 < ciL w) (hbits : w = 8 * ciL w) (n : Nat) :
    charsToLimbs w (psaBitsToBytes n.size) = limbCount w n := by
  have hpos : 0 < w := by omega
  have hiff : ∀ k, charsToLimbs w (psaBitsToBytes n.size) ≤ k ↔ limbCount w n ≤ k := by
    intro k
    have hk : w * k = 8 * (k * ciL w) := by
      rw [Nat.mul_comm k, ← Nat.mul_assoc, ← hbits]
    rw [charsToLimbs_le_iff hw, TfPsaCrypto.limbCount_le hpos, Int.natAbs_natCast,
      ← Nat.size_le, hk]
    unfold psaBitsToBytes
    omega
  exact Nat.le_antisymm ((hiff _).mpr (Nat.le_refl _)) ((hiff _).mp (Nat.le_refl _))

end Limbs

/-! ## One candidate -/

section Candidate

variable {w : Nat} (isBigEndian : Bool) {n : Nat}

def candidate (n : Nat) (data : ByteString) : Nat := ofBE data % 2 ^ n.size

/-- What the rounds find of `N - 2`. Its limbs are those of `N`. -/
structure IsDiffN2 (n : Nat) (diff : MbedtlsMpi w) : Prop where
  signed : diff.Signed
  toInt_eq : diff.toInt = n - 2
  n_eq : diff.n = limbCount w n
  limbs_le : limbCount w n ≤ mbedtlsMpiMaxLimbs

theorem diffN2_spec (hw : 1 < w) (hn : 0 < n) {diff : MbedtlsMpi w}
    (h : diffN2 (ecpMpiLoad w n) = .ok diff) : IsDiffN2 n diff := by
  have hnum : (ecpMpiLoad w n).num = ⟨n, limbCount w n⟩ := by
    unfold MbedtlsMpi.num
    rw [ecpMpiLoad_toInt (by omega), ecpMpiLoad_n]
  have hlimbs : (if (⟨2, 1⟩ : MpiNum).val.natAbs ≤ (n : Int).natAbs then limbCount w n else 1) =
      limbCount w n := by
    split
    · rfl
    next hlt =>
    have hone : n = 1 := by
      simp only [Int.natAbs_natCast] at hlt
      have htwo : (2 : Int).natAbs = 2 := rfl
      omega
    subst hone
    have hsize : (1 : Int).natAbs.size = 1 := by decide
    unfold limbCount
    rw [Int.natCast_one, hsize, Nat.add_sub_cancel' (by omega), Nat.div_self (by omega)]
  unfold diffN2 mbedtlsMpiSubMpi at h
  rw [hnum, if_pos (by simp), hlimbs] at h
  unfold MpiNum.grow at h
  by_cases hle : limbCount w n > mbedtlsMpiMaxLimbs
  · rw [if_pos hle] at h
    cases h
  rw [if_neg hle] at h
  obtain rfl := Except.ok.inj h
  have hmax : max MpiNum.init.n (limbCount w n) = limbCount w n := Nat.zero_max _
  have hlt := lt_two_pow_limbCount (w := w) (by omega) n
  have hhuge : ((n : Int) - 2).natAbs < 2 ^ (w * limbCount w n) := by
    rcases Nat.lt_or_ge n 2 with hone | htwo
    · have hcount : 0 < limbCount w n := by
        rw [Nat.pos_iff_ne_zero]
        intro hzero
        rw [hzero] at hlt
        simp at hlt
        omega
      omega
    · rw [Int.natAbs_natCast] at hlt
      omega
  rw [hmax]
  exact ⟨MpiNum.mpi_signed hhuge, MpiNum.mpi_toInt hhuge, MpiNum.mpi_n _, by omega⟩

theorem length_clearExcessBits (m : Nat) (data : ByteString) :
    (clearExcessBits m data).length = data.length := by
  unfold clearExcessBits
  split
  · exact List.length_set
  · rfl

theorem ofBE_clearExcessBits {m : Nat} {data : ByteString} (h : data.length = psaBitsToBytes m) :
    ofBE (clearExcessBits m data) = ofBE data % 2 ^ m := by
  have hlt := ofBE_lt data
  have hpow : ∀ k, 256 ^ k = 2 ^ (8 * k) := fun k => by rw [Nat.pow_mul]
  unfold psaBitsToBytes at h
  unfold clearExcessBits
  split
  · next hrem =>
    obtain ⟨b, rest, rfl⟩ : ∃ b rest, data = b :: rest := by
      cases data with
      | nil =>
        rw [List.length_nil] at h
        omega
      | cons b rest => exact ⟨b, rest, rfl⟩
    rw [List.length_cons] at h
    have hm : m = m % 8 + 8 * rest.length := by omega
    have hmask : (b &&& UInt8.ofNat ((1 <<< (m % 8)) - 1)).toNat = b.toNat % 2 ^ (m % 8) := by
      have hlt8 : 2 ^ (m % 8) - 1 < 256 := by
        have hle : 2 ^ (m % 8) ≤ 2 ^ 8 := Nat.pow_le_pow_right (by decide) (by omega)
        omega
      rw [UInt8.toNat_and, Nat.one_shiftLeft, UInt8.toNat_ofNat_of_lt' hlt8,
        Nat.and_two_pow_sub_one_eq_mod]
    have hrest := ofBE_lt rest
    rw [List.set_cons_zero, List.getD_cons_zero, ofBE_cons, ofBE_cons, hmask]
    conv_rhs => rw [hm]
    rw [hpow] at hrest ⊢
    rw [Nat.add_comm (m % 8), Nat.pow_add, Nat.mod_mul, Nat.add_comm (b.toNat * _),
      Nat.add_mul_mod_self_right, Nat.add_mul_div_right _ _ (Nat.two_pow_pos _),
      Nat.mod_eq_of_lt hrest, Nat.div_eq_of_lt hrest, Nat.zero_add, Nat.mul_comm]
    exact Nat.add_comm _ _
  · next hrem =>
    rw [hpow, h] at hlt
    rw [show 8 * ((m + 7) / 8) = m by omega] at hlt
    exact (Nat.mod_eq_of_lt hlt).symm

theorem lt_pow_psaBitsToBytes (n : Nat) : n < 256 ^ psaBitsToBytes n.size := by
  rw [show (256 : Nat) = 2 ^ 8 from rfl, ← Nat.pow_mul]
  refine Nat.lt_of_lt_of_le (Nat.lt_size_self n) (Nat.pow_le_pow_right (by decide) ?_)
  unfold psaBitsToBytes
  omega

variable (hw : 0 < ciL w) (hbits : w = 8 * ciL w)

include hw hbits

theorem testCandidate_spec {diff : MbedtlsMpi w} (hdiff : IsDiffN2 n diff) (k : MbedtlsMpi w)
    {data : ByteString} (hdata : data.length = psaBitsToBytes n.size) :
    ∃ k' : MbedtlsMpi w, k'.s = 1 ∧ k'.n = limbCount w n ∧ k'.abs = candidate n data ∧
      mbedtlsMpiReadBinary isBigEndian k (clearExcessBits n.size data) = k'.returns none ∧
      testCandidate isBigEndian diff k n.size data =
        .ok (decide (n < candidate n data + 2), k') := by
  have hlimbs : charsToLimbs w (clearExcessBits n.size data).length = limbCount w n := by
    rw [length_clearExcessBits, hdata, charsToLimbs_bytes hw hbits]
  obtain ⟨k', hread, hs, hk, habs⟩ := mbedtlsMpiReadBinary_of_le hw hbits isBigEndian k
    (hlimbs ▸ hdiff.limbs_le)
  rw [hlimbs] at hk
  rw [ofBE_clearExcessBits hdata] at habs
  have hval : k'.toInt = (candidate n data : Nat) := by
    unfold MbedtlsMpi.toInt
    rw [hs, habs, Int.one_mul]
    rfl
  have hsigned : k'.Signed := by
    unfold MbedtlsMpi.Signed
    rw [hval, if_neg (by omega), hs]
  have hlt := mbedtlsMpiLtMpiCt_eq hdiff.signed hsigned (hdiff.n_eq.trans hk.symm)
  refine ⟨k', hs, hk, habs, hread, ?_⟩
  unfold testCandidate
  simp only [hread, MbedtlsMpi.returns]
  rw [hlt, hdiff.toInt_eq, hval]
  show Except.ok (_, k') = _
  congr 3
  exact propext (by omega)

theorem writeSuccessor_spec {k : MbedtlsMpi w} (hs : k.s = 1) (hk : k.n = limbCount w n)
    (hlimbs : limbCount w n ≤ mbedtlsMpiMaxLimbs) (hlt : k.abs + 2 ≤ n) :
    writeSuccessor k (psaBitsToBytes n.size) = .ok (toBE (psaBitsToBytes n.size) (k.abs + 1)) := by
  have hpos : 0 < w := by omega
  have hval : k.toInt = k.abs := by
    unfold MbedtlsMpi.toInt
    rw [hs, Int.one_mul]
  have hle : ∀ v : Nat, v ≤ n → limbCount w v ≤ limbCount w n := fun v hv =>
    limbCount_mono hpos (by simpa using hv)
  have hone : 1 ≤ limbCount w n := by
    by_contra hzero
    have hn := (TfPsaCrypto.limbCount_le hpos).mp (Nat.le_of_lt_succ (Nat.lt_of_not_le hzero))
    simp at hn
    omega
  have hadd : mbedtlsMpiAddMpi w k.num k.num ⟨1, 1⟩ = .ok ⟨k.abs + 1, limbCount w n⟩ := by
    unfold mbedtlsMpiAddMpi mbedtlsMpiAddAbs mbedtlsMpiCopy MbedtlsMpi.num
    rw [hval, hk]
    have hcopy : (if limbCount w n = 0 then 0 else max 1 (limbCount w (k.abs : Int))) ≤
        limbCount w n := by
      rw [if_neg (by omega)]
      exact Nat.max_le.mpr ⟨hone, hle k.abs (by omega)⟩
    have hsum : max (limbCount w 1) (limbCount w ((k.abs + 1 : Nat) : Int)) ≤ limbCount w n :=
      Nat.max_le.mpr ⟨hle 1 (by omega), hle _ (by omega)⟩
    have habs : (((k.abs : Int).natAbs : Int) + ((1 : Int).natAbs : Int)) =
        ((k.abs + 1 : Nat) : Int) := by simp
    simp only [MpiNum.grow, habs]
    rw [if_pos (by simp), if_neg (by omega)]
    simp only [if_neg (show ¬ (1 : Int) = 0 by decide)]
    rw [if_neg (by omega), Nat.max_eq_left hcopy, Nat.max_eq_left hsum]
    rfl
  have hfit := lt_pow_psaBitsToBytes n
  have hmpi : value ((⟨k.abs + 1, limbCount w n⟩ : MpiNum).mpi w).p = k.abs + 1 := by
    unfold MpiNum.mpi
    have hnat : ((k.abs : Int) + 1).natAbs = k.abs + 1 := by omega
    simp only [hnat]
    apply value_ofNat_of_lt
    have hn := lt_two_pow_limbCount hpos n
    omega
  unfold writeSuccessor
  rw [hadd]
  show mbedtlsMpiCoreWriteBe ((⟨k.abs + 1, limbCount w n⟩ : MpiNum).mpi w).p _ = _
  rw [mbedtlsMpiCoreWriteBe_of_lt hw hbits (by rw [hmpi]; omega), hmpi]

end Candidate

/-! ## The draws -/

section Draws

variable {P : KdfPlatform} {k : Kdf} {inputs : KdfInputs} {pos : Nat}
  {op : PsaKeyDerivationOperation} {env : Nat → OutputEnv} {n : Nat}

/-- The draws of `n` bytes from draw `i` on that give the byte strings, one after the other. -/
inductive Draws (P : KdfPlatform) (env : Nat → OutputEnv) (n : Nat) :
    Nat → PsaKeyDerivationOperation → List ByteString → PsaKeyDerivationOperation → Prop
  | nil {i op} : Draws P env n i op [] op
  | cons {i op op' data rest} (op₁ : PsaKeyDerivationOperation)
      (draw : psaKeyDerivationOutputBytes P (env i) op n = ⟨.success, op₁, data⟩)
      (draws : Draws P env n (i + 1) op₁ rest op') : Draws P env n i op (data :: rest) op'

theorem length_psaKeyDerivationOutputBytes (h : StandsAt P k inputs pos op) {e : OutputEnv}
    (hok : (psaKeyDerivationOutputBytes P e op n).status = .success) :
    (psaKeyDerivationOutputBytes P e op n).output.length = n := by
  by_cases hecjpake : k = .tls12EcjpakeToPms
  · subst hecjpake
    unfold psaKeyDerivationOutputBytes at hok ⊢
    rw [psaKeyDerivationGetKdfAlg_eq] at hok ⊢
    dsimp only at hok ⊢
    rw [read_ecjpake h.kind] at hok ⊢
    rw [if_neg (alg_ne_zero h.kind)] at hok ⊢
    split at hok
    · cases hok
    next hempty =>
    split at hok
    · cases hok
    next halloc =>
    split at hok
    · cases hok
    next hle =>
    rw [if_neg hempty, if_neg halloc, if_neg hle]
    by_cases hlen : n ≠ 32
    · rw [if_pos hlen] at hok
      cases hok
    rw [if_neg hlen] at hok ⊢
    by_cases hhash : e.hash ≠ .success
    · rw [if_pos hhash] at hok
      exact absurd hok hhash
    rw [if_neg hhash]
    rw [P.length_hash, not_not.mp hlen]
    decide
  · cases psaKeyDerivationOutputBytes_outcome e n h with
    | read _ _ _ _ _ _ _ output =>
      rw [output hecjpake]
      exact BlockStream.length_segment _ _
    | exhausted _ _ hr =>
      rw [hr] at hok
      cases hok
    | wiped err hreason hr =>
      rw [hr] at hok
      exact absurd hok hreason.ne_success

theorem StandsAt.of_draw (h : StandsAt P k inputs pos op) {e : OutputEnv}
    (hok : (psaKeyDerivationOutputBytes P e op n).status = .success) :
    StandsAt P k inputs (pos + n) (psaKeyDerivationOutputBytes P e op n).operation := by
  cases psaKeyDerivationOutputBytes_outcome e n h with
  | read _ _ _ _ _ hstands _ _ => exact hstands
  | exhausted _ _ hr =>
    rw [hr] at hok
    cases hok
  | wiped err hreason hr =>
    rw [hr] at hok
    exact absurd hok hreason.ne_success

theorem Draws.stream {i : Nat} {blocks : List ByteString} {op' : PsaKeyDerivationOperation}
    (hd : Draws P env n i op blocks op') (h : StandsAt P k inputs pos op) :
    op'.capacity + n * blocks.length = op.capacity ∧ (∀ b ∈ blocks, b.length = n) ∧
      (k ≠ .tls12EcjpakeToPms → blocks.flatten = segment (k.blockSize (kdfAlgOf op.alg))
        (kdfBlock P k (kdfAlgOf op.alg) inputs) pos (n * blocks.length)) := by
  induction hd generalizing pos with
  | nil => exact ⟨by simp, by simp, by simp⟩
  | @cons i op op' data rest op₁ draw draws ih =>
    have hok : (psaKeyDerivationOutputBytes P (env i) op n).status = .success := by rw [draw]
    have hlen := length_psaKeyDerivationOutputBytes h hok
    rw [draw] at hlen
    cases psaKeyDerivationOutputBytes_outcome (env i) n h with
    | read ctx _ _ hle hop hstands _ hout =>
      rw [draw] at hop hstands hout
      obtain ⟨hcap, hall, hstream⟩ := ih hstands
      have hcap₁ : op₁.capacity = op.capacity - n := congrArg (·.capacity) hop
      have halg : op₁.alg = op.alg := congrArg (·.alg) hop
      rw [List.length_cons, Nat.mul_succ]
      refine ⟨by omega, ?_, ?_⟩
      · intro b hb
        rcases List.mem_cons.mp hb with rfl | hb
        · exact hlen
        · exact hall b hb
      · intro hne
        have hdata : data = _ := hout hne
        rw [List.flatten_cons, hstream hne, halg, hdata, Nat.add_comm (n * _), segment_add]
    | exhausted _ _ hr =>
      rw [draw] at hr
      cases hr
    | wiped err hreason hr =>
      rw [draw] at hr
      cases hr
      exact absurd rfl hreason.ne_success

end Draws

/-! ## The rounds -/

section Rounds

variable {P : KdfPlatform} {k : Kdf} {inputs : KdfInputs} {pos : Nat}
  {op : PsaKeyDerivationOperation} {env : Nat → OutputEnv} {w : Nat} (isBigEndian : Bool) {n : Nat}

/-- Candidate testing from draw `i` on: the first candidate in range gives the key. -/
def TestedCandidates (P : KdfPlatform) (env : Nat → OutputEnv) (n i : Nat)
    (op : PsaKeyDerivationOperation) (r : OutputResult) : Prop :=
  r.status = .success → ∃ rejected block,
    Draws P env (psaBitsToBytes n.size) i op (rejected ++ [block]) r.operation ∧
    (∀ b ∈ rejected, n < candidate n b + 2) ∧ candidate n block + 2 ≤ n ∧
    r.output = toBE (psaBitsToBytes n.size) (candidate n block + 1)

section Round

variable {diff K : MbedtlsMpi w} {m i fuel : Nat} {r : OutputResult}
  (hdraw : psaKeyDerivationOutputBytes P (env i) op (psaBitsToBytes m) = r)

include hdraw

theorem candidateLoop_of_failed (hr : r.status ≠ .success) :
    candidateLoop P env isBigEndian diff m (fuel + 1) i K op =
      some ⟨r.status, r.operation, []⟩ := by
  unfold candidateLoop
  dsimp only
  rw [hdraw, if_pos hr]

theorem candidateLoop_of_rejected (hr : r.status = .success) {k' : MbedtlsMpi w}
    (htest : testCandidate isBigEndian diff K m r.output = .ok (true, k')) :
    candidateLoop P env isBigEndian diff m (fuel + 1) i K op =
      candidateLoop P env isBigEndian diff m fuel (i + 1) k' r.operation := by
  conv_lhs => unfold candidateLoop
  dsimp only
  rw [hdraw, if_neg (not_not.mpr hr), htest]

theorem candidateLoop_of_accepted (hr : r.status = .success) {k' : MbedtlsMpi w}
    {data : ByteString} (htest : testCandidate isBigEndian diff K m r.output = .ok (false, k'))
    (hwrite : writeSuccessor k' (psaBitsToBytes m) = .ok data) :
    candidateLoop P env isBigEndian diff m (fuel + 1) i K op =
      some ⟨.success, r.operation, data⟩ := by
  unfold candidateLoop
  dsimp only
  rw [hdraw, if_neg (not_not.mpr hr), htest]
  simp only [hwrite]

end Round

theorem candidateLoop_of_no_draw (diff K : MbedtlsMpi w) {i : Nat} {drawn : OutputResult}
    (hdraw : psaKeyDerivationOutputBytes P (env i) op (psaBitsToBytes n.size) = drawn)
    (hno : drawn.status ≠ .success) :
    ∃ r, r.status ≠ .success ∧ ∀ fuel, op.capacity < fuel →
      candidateLoop P env isBigEndian diff n.size fuel i K op = some r := by
  refine ⟨⟨drawn.status, drawn.operation, []⟩, hno, fun fuel hfuel => ?_⟩
  obtain ⟨f, rfl⟩ := Nat.exists_eq_succ_of_ne_zero (by omega : fuel ≠ 0)
  exact candidateLoop_of_failed isBigEndian hdraw hno

theorem candidateLoop_spec (hw : 0 < ciL w) (hbits : w = 8 * ciL w) (hn : 0 < n)
    {diff : MbedtlsMpi w} (hdiff : IsDiffN2 n diff) (h : StandsAt P k inputs pos op) (i : Nat)
    (K : MbedtlsMpi w) :
    ∃ r, TestedCandidates P env n i op r ∧ ∀ fuel, op.capacity < fuel →
      candidateLoop P env isBigEndian diff n.size fuel i K op = some r := by
  have hbytes : 0 < psaBitsToBytes n.size := by
    have hsize := Nat.size_pos.mpr hn
    unfold psaBitsToBytes
    omega
  -- the measure is the capacity that is left
  induction hcap : op.capacity using Nat.strong_induction_on generalizing op pos i K with
  | _ c ih =>
    subst hcap
    have hfuel : ∀ fuel, op.capacity < fuel → ∃ f, fuel = f + 1 ∧ op.capacity ≤ f :=
      fun fuel hlt => ⟨fuel - 1, by omega, by omega⟩
    generalize hdraw : psaKeyDerivationOutputBytes P (env i) op (psaBitsToBytes n.size) = drawn
    by_cases hok : drawn.status = .success
    · subst hdraw
      have hlen := length_psaKeyDerivationOutputBytes h hok
      have hlt := psaKeyDerivationOutputBytes_capacity_lt hbytes hok
      have hstands := h.of_draw hok
      generalize hdraw : psaKeyDerivationOutputBytes P (env i) op (psaBitsToBytes n.size) =
        drawn at hok hlen hlt hstands
      have hdrawn : psaKeyDerivationOutputBytes P (env i) op (psaBitsToBytes n.size) =
          ⟨.success, drawn.operation, drawn.output⟩ := by rw [hdraw, ← hok]
      obtain ⟨k', hs, hk', habs, -, htest⟩ := testCandidate_spec isBigEndian hw hbits hdiff K hlen
      by_cases hrange : n < candidate n drawn.output + 2
      · rw [decide_eq_true hrange] at htest
        obtain ⟨r, hr, hrun⟩ := ih _ hlt hstands (i + 1) k' rfl
        refine ⟨r, fun hsuccess => ?_, fun fuel hcap => ?_⟩
        · obtain ⟨rejected, block, hdraws, hrej, hblock, hout⟩ := hr hsuccess
          refine ⟨drawn.output :: rejected, block, .cons drawn.operation hdrawn hdraws, ?_,
            hblock, hout⟩
          intro b hb
          rcases List.mem_cons.mp hb with rfl | hb
          · exact hrange
          · exact hrej b hb
        · obtain ⟨f, rfl, hf⟩ := hfuel fuel hcap
          rw [candidateLoop_of_rejected isBigEndian hdraw hok htest]
          exact hrun f (Nat.lt_of_lt_of_le hlt hf)
      · rw [decide_eq_false hrange] at htest
        have hle := Nat.le_of_not_lt hrange
        have hwrite := writeSuccessor_spec hw hbits hs hk' hdiff.limbs_le (habs ▸ hle)
        rw [habs] at hwrite
        refine ⟨⟨.success, drawn.operation,
          toBE (psaBitsToBytes n.size) (candidate n drawn.output + 1)⟩, fun _ => ?_,
          fun fuel hcap => ?_⟩
        · exact ⟨[], drawn.output, .cons drawn.operation hdrawn .nil, by simp, hle, rfl⟩
        · obtain ⟨f, rfl, -⟩ := hfuel fuel hcap
          exact candidateLoop_of_accepted isBigEndian hdraw hok htest hwrite
    · obtain ⟨r, hr, hrun⟩ := candidateLoop_of_no_draw isBigEndian diff K hdraw hok
      exact ⟨r, fun h => absurd h hr, hrun⟩

/-! ## Candidate testing -/

structure DerivedKey (P : KdfPlatform) (env : Nat → OutputEnv) (n : Nat) (tr : List KdfEvent)
    (op : PsaKeyDerivationOperation) (r : OutputResult) (rejected : List ByteString)
    (block : ByteString) : Prop where
  draws : Draws P env (psaBitsToBytes n.size) 0 op (rejected ++ [block]) r.operation
  capacity : r.operation.capacity + psaBitsToBytes n.size * (rejected.length + 1) = op.capacity
  lengths : ∀ b ∈ rejected ++ [block], b.length = psaBitsToBytes n.size
  stream : ∃ k inputs pos, StandsAt P k inputs pos op ∧ inputs = suppliedInputs (sinceSetup tr) ∧
    (k ≠ .tls12EcjpakeToPms → rejected.flatten ++ block =
      segment (k.blockSize (kdfAlgOf op.alg)) (kdfBlock P k (kdfAlgOf op.alg) inputs) pos
        (psaBitsToBytes n.size * (rejected.length + 1)))
  rejected_high : ∀ b ∈ rejected, n < candidate n b + 2
  block_in_range : candidate n block + 2 ≤ n
  output : r.output = toBE (psaBitsToBytes n.size) (candidate n block + 1)
  key : ofBE r.output = candidate n block + 1 ∧ 1 ≤ ofBE r.output ∧ ofBE r.output ≤ n - 1

/-- **Candidate testing.** The helper ends; its output is one more than the first block that,
without its excess bits, is at most `N - 2`. Every comparison has operands of one limb count. -/
theorem weierstrassHelper_candidates (hw : 0 < ciL w) (hbits : w = 8 * ciL w)
    (calloc : Bool) (env : Nat → OutputEnv) {n : Nat} (hodd : n % 2 = 1)
    {tr : List KdfEvent}
    (hrun : Machine.Run (kdfMachine P) psaKeyDerivationOperationInit tr op) :
    (∃ r, (∀ fuel, op.capacity < fuel →
        weierstrassHelper P env isBigEndian (ecpMpiLoad w n) calloc fuel op = some r) ∧
      (r.status = .success → ∃ rejected block, DerivedKey P env n tr op r rejected block)) ∧
    ∀ diff, diffN2 (ecpMpiLoad w n) = .ok diff → ∀ (K : MbedtlsMpi w) (data : ByteString),
      data.length = psaBitsToBytes n.size →
      ∃ K', mbedtlsMpiReadBinary isBigEndian K (clearExcessBits n.size data) = K'.returns none ∧
        diff.n = K'.n ∧
        mbedtlsMpiLtMpiCt diff K' = .ok (decide (n < candidate n data + 2)) := by
  have hpos : 0 < w := by omega
  have hn : 0 < n := by omega
  constructor
  · unfold weierstrassHelper
    rw [mbedtlsMpiBitlen_ecpMpiLoad hpos]
    cases hdiff : diffN2 (ecpMpiLoad w n) with
    | error e =>
      exact ⟨_, fun _ _ => rfl, fun h => absurd h (by cases e <;> simp [MpiError.status])⟩
    | ok diff =>
      cases calloc with
      | false => exact ⟨_, fun _ _ => rfl, fun h => absurd h (by simp)⟩
      | true =>
        have hspec := diffN2_spec (by omega) hn hdiff
        by_cases hok : (psaKeyDerivationOutputBytes P (env 0) op
            (psaBitsToBytes n.size)).status = .success
        · obtain ⟨k, hk, hcap⟩ := (kdfOperationInv_run hrun).of_output hok
          obtain ⟨⟨pos, hstands⟩, -, -⟩ := hk.live hcap
          obtain ⟨r, hr, hloop⟩ := candidateLoop_spec isBigEndian hw hbits hn hspec hstands 0 .init
          refine ⟨r, hloop, fun hsuccess => ?_⟩
          obtain ⟨rejected, block, hdraws, hrej, hblock, hout⟩ := hr hsuccess
          obtain ⟨hcapacity, hlengths, hstream⟩ := hdraws.stream hstands
          have hkey : ofBE r.output = candidate n block + 1 := by
            have hfit := lt_pow_psaBitsToBytes n
            rw [hout, Bytes.ofBE_toBE, Nat.mod_eq_of_lt (by omega)]
          refine ⟨rejected, block, hdraws, by simpa using hcapacity, hlengths,
            ⟨k, _, pos, hstands, rfl, fun hne => by simpa using hstream hne⟩, hrej, hblock,
            hout, hkey, by omega, by omega⟩
        · obtain ⟨r, hr, hloop⟩ := candidateLoop_of_no_draw isBigEndian diff .init rfl hok
          exact ⟨r, hloop, fun hsuccess => absurd hsuccess hr⟩
  · intro diff hdiff K data hdata
    have hspec := diffN2_spec (by omega) hn hdiff
    obtain ⟨K', hs, hK', habs, hread, htest⟩ :=
      testCandidate_spec isBigEndian hw hbits hspec K hdata
    refine ⟨K', hread, hspec.n_eq.trans hK'.symm, ?_⟩
    unfold testCandidate at htest
    simp only [hread, MbedtlsMpi.returns] at htest
    cases hlt : mbedtlsMpiLtMpiCt diff K' with
    | error e =>
      rw [hlt] at htest
      cases htest
    | ok out =>
      rw [hlt] at htest
      exact congrArg Except.ok (Prod.mk.inj (Except.ok.inj htest)).1

end Rounds

def ecjpakeReady : PsaKeyDerivationOperation :=
  (kdfCall zeroCoordinatePlatform permissiveKdfEnv ecjpakeStarted
    (.inputBytes .secret ecjpakeKey.data)).operation

/-- The order of P-256, and the one block of 32 bytes that ECJPAKE-to-PMS gives. -/
theorem weierstrassHelper_candidates_p256 :
    ∃ r, weierstrassHelper zeroCoordinatePlatform (fun _ => permissiveOutputEnv) false
        (ecpMpiLoad 64 0xffffffff00000000ffffffffffffffffbce6faada7179e84f3b9cac2fc632551) true 33
        ecjpakeReady = some r ∧
      r.status = .success ∧ 1 ≤ ofBE r.output ∧
      ofBE r.output ≤ 0xffffffff00000000ffffffffffffffffbce6faada7179e84f3b9cac2fc632550 := by
  have hrun : Machine.Run (kdfMachine zeroCoordinatePlatform) psaKeyDerivationOperationInit
      (([] ++ [((.setup psaAlgTls12EcjpakeToPms, permissiveKdfEnv), _)])
        ++ [((.inputBytes .secret ecjpakeKey.data, permissiveKdfEnv), _)]) ecjpakeReady :=
    (Machine.Run.nil.snoc rfl).snoc rfl
  obtain ⟨⟨r, hr, hsuccess⟩, -⟩ := weierstrassHelper_candidates false (w := 64) (by decide)
    (by decide) true (fun _ => permissiveOutputEnv)
    (n := 0xffffffff00000000ffffffffffffffffbce6faada7179e84f3b9cac2fc632551) (by decide) hrun
  have hfuel : ecjpakeReady.capacity < 33 := by decide
  have hstatus : r.status = .success := by
    have heval : (weierstrassHelper zeroCoordinatePlatform (fun _ => permissiveOutputEnv) false
        (ecpMpiLoad 64 0xffffffff00000000ffffffffffffffffbce6faada7179e84f3b9cac2fc632551) true 33
        ecjpakeReady).map OutputResult.status = some .success := by decide +kernel
    rw [hr 33 hfuel] at heval
    exact Option.some.inj heval
  obtain ⟨rejected, block, hkey⟩ := hsuccess hstatus
  exact ⟨r, hr 33 hfuel, hstatus, hkey.key.2.1, hkey.key.2.2⟩

end TfPsaCrypto
