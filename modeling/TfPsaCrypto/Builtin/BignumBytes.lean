import Mathlib.Data.Nat.Size
import TfPsaCrypto.Library.Bytes
import TfPsaCrypto.Library.Limbs

/-!
# Bignum core: size, import and export

The functions of `bignum_core.c` that measure a list of limbs or convert it from and to
bytes. A limb has `w` bits and `ciL` bytes.
-/

namespace TfPsaCrypto

open Bytes Limbs

inductive MpiError where
  | badInputData
  | invalidCharacter
  | bufferTooSmall
  | negativeValue
  | divisionByZero
  | notAcceptable
  | allocFailed
  deriving DecidableEq, Repr

variable {w : Nat}

/-! ## Size in bits -/

def coreClzLoop (a : BitVec w) : Nat → BitVec w → Nat → Nat
  | 0, _, j => j
  | fuel + 1, mask, j => if a &&& mask ≠ 0 then j else coreClzLoop a fuel (mask >>> 1) (j + 1)

def mbedtlsMpiCoreClz (a : BitVec w) : Nat := coreClzLoop a w (1#w <<< (w - 1)) 0

/-- The loop of `mbedtls_mpi_core_bitlen`, on the limbs below `i`. -/
def coreBitlenLoop (A : List (BitVec w)) : Nat → Nat
  | 0 => 0
  | i + 1 =>
    if A.getD i 0 ≠ 0 then i * w + (w - mbedtlsMpiCoreClz (A.getD i 0))
    else coreBitlenLoop A i

def mbedtlsMpiCoreBitlen (A : List (BitVec w)) : Nat := coreBitlenLoop A A.length

theorem and_twoPow_ne_zero (a : BitVec w) {k : Nat} (hk : k < w) :
    a &&& BitVec.twoPow w k ≠ 0 ↔ a.getLsbD k = true := by
  rw [BitVec.and_twoPow]
  have htwoPow : BitVec.twoPow w k ≠ 0#w := by
    intro h
    have hval := congrArg BitVec.toNat h
    rw [BitVec.toNat_twoPow_of_lt hk] at hval
    simp at hval
  cases a.getLsbD k <;> simp [htwoPow]

theorem coreClzLoop_eq (a : BitVec w) {fuel : Nat} (j : Nat) (hfuel : fuel ≤ w)
    (h : a.toNat < 2 ^ fuel) :
    coreClzLoop a fuel (BitVec.twoPow w (fuel - 1)) j = j + (fuel - a.toNat.size) := by
  induction fuel generalizing j with
  | zero => simp [coreClzLoop]
  | succ fuel ih =>
    unfold coreClzLoop
    rw [Nat.add_sub_cancel]
    have hbit : a.getLsbD fuel = true ↔ 2 ^ fuel ≤ a.toNat := by
      rw [← BitVec.testBit_toNat, Nat.testBit_eq_decide_div_mod_eq, decide_eq_true_eq]
      rw [Nat.pow_succ] at h
      constructor
      · intro hmod
        by_contra hlt
        rw [Nat.div_eq_of_lt (by omega)] at hmod
        omega
      · intro hle
        rw [Nat.div_eq_of_lt_le (k := 1) (by omega) (by omega)]
    split
    · next hset =>
      rw [and_twoPow_ne_zero a (by omega), hbit, ← Nat.lt_size] at hset
      have hsize := Nat.size_le.mpr h
      omega
    · next hclear =>
      rw [and_twoPow_ne_zero a (by omega), hbit, Nat.not_le] at hclear
      have hmask : BitVec.twoPow w fuel >>> 1 = BitVec.twoPow w (fuel - 1) ∨ fuel = 0 := by
        rcases Nat.eq_zero_or_pos fuel with hzero | hpos
        · exact Or.inr hzero
        left
        apply BitVec.eq_of_toNat_eq
        rw [BitVec.toNat_ushiftRight, BitVec.toNat_twoPow_of_lt (by omega),
          BitVec.toNat_twoPow_of_lt (by omega), Nat.shiftRight_eq_div_pow]
        exact Nat.pow_div hpos (by decide)
      rcases hmask with hmask | rfl
      · rw [hmask, ih (j + 1) (by omega) hclear]
        have hsize := Nat.size_le.mpr hclear
        omega
      · have hsize := Nat.size_le.mpr hclear
        rw [coreClzLoop]
        omega

theorem mbedtlsMpiCoreClz_eq (a : BitVec w) : mbedtlsMpiCoreClz a = w - a.toNat.size := by
  have hloop := coreClzLoop_eq a 0 (Nat.le_refl w) a.isLt
  rw [Nat.zero_add] at hloop
  exact hloop

theorem size_add_mul_two_pow {lo hi k : Nat} (hlo : lo < 2 ^ k) (hhi : hi ≠ 0) :
    (lo + 2 ^ k * hi).size = k + hi.size := by
  apply Nat.le_antisymm
  · rw [Nat.size_le, Nat.pow_add]
    have hsize := Nat.lt_size_self hi
    calc lo + 2 ^ k * hi < 2 ^ k * (hi + 1) := by rw [Nat.mul_succ]; omega
      _ ≤ 2 ^ k * 2 ^ hi.size := Nat.mul_le_mul_left _ hsize
  · have hsize : 0 < hi.size := Nat.size_pos.mpr (Nat.pos_of_ne_zero hhi)
    have hlow : 2 ^ (hi.size - 1) ≤ hi := Nat.lt_size.mp (by omega)
    have htop : k + hi.size - 1 < (lo + 2 ^ k * hi).size := by
      rw [Nat.lt_size, Nat.add_sub_assoc (by omega), Nat.pow_add]
      exact Nat.le_add_left_of_le (Nat.mul_le_mul_left _ hlow)
    omega

theorem coreBitlenLoop_eq (A : List (BitVec w)) {i : Nat} (hi : i ≤ A.length) :
    coreBitlenLoop A i = (value (A.take i)).size := by
  induction i with
  | zero => simp [coreBitlenLoop]
  | succ i ih =>
    have hsplit : value (A.take (i + 1)) =
        value (A.take i) + 2 ^ (w * i) * (A.getD i 0#w).toNat := by
      rw [List.take_add_one, List.getD_eq_getElem?_getD, List.getElem?_eq_getElem (by omega),
        value_append, List.length_take, Nat.min_eq_left (by omega)]
      simp
    unfold coreBitlenLoop
    split
    · next hne =>
      have hlimb : (A.getD i 0#w).toNat ≠ 0 := by
        intro hzero
        exact hne (BitVec.eq_of_toNat_eq (by simpa using hzero))
      have hlow : value (A.take i) < 2 ^ (w * i) := by
        have hlt := value_lt (A.take i)
        rwa [List.length_take, Nat.min_eq_left (by omega)] at hlt
      have hsize := Nat.size_le.mpr (A.getD i 0#w).isLt
      rw [hsplit, size_add_mul_two_pow hlow hlimb]
      show i * w + (w - mbedtlsMpiCoreClz (A.getD i 0#w)) = _
      rw [mbedtlsMpiCoreClz_eq, Nat.mul_comm i w]
      omega
    · next heq =>
      rw [not_not] at heq
      have hzero : (A.getD i 0#w).toNat = 0 := by
        show (A.getD i 0).toNat = 0
        rw [heq]
        simp
      rw [ih (by omega), hsplit, hzero, Nat.mul_zero, Nat.add_zero]

theorem mbedtlsMpiCoreBitlen_eq (A : List (BitVec w)) :
    mbedtlsMpiCoreBitlen A = (value A).size := by
  unfold mbedtlsMpiCoreBitlen
  rw [coreBitlenLoop_eq A (Nat.le_refl _), List.take_length]

/-! ## Bytes -/

def ciL (w : Nat) : Nat := w / 8

def charsToLimbs (w i : Nat) : Nat := i / ciL w + if i % ciL w ≠ 0 then 1 else 0

def getByte (X : List (BitVec w)) (i : Nat) : UInt8 :=
  UInt8.ofNat ((X.getD (i / ciL w) 0 >>> (i % ciL w * 8)) &&& 0xff).toNat

/-- A limb of the memory `bytes`, in the order of the host. -/
def loadLimb (w : Nat) (isBigEndian : Bool) (bytes : ByteString) : BitVec w :=
  BitVec.ofNat w (if isBigEndian then ofBE bytes else ofLE bytes)

/-- `MBEDTLS_BSWAP32` or `MBEDTLS_BSWAP64` on a little-endian host. -/
def mpiBigendianToHost (isBigEndian : Bool) (a : BitVec w) : BitVec w :=
  if isBigEndian then a else BitVec.ofNat w (ofLE (toBE (ciL w) a.toNat))

/-- The loop of `mbedtls_mpi_core_bigendian_to_host`, from the two indices inwards. -/
def coreBigendianToHostLoop (isBigEndian : Bool) :
    Nat → Nat → Nat → List (BitVec w) → List (BitVec w)
  | 0, _, _, A => A
  | fuel + 1, left, right, A =>
    if left ≤ right then
      let tmp := mpiBigendianToHost isBigEndian (A.getD left 0)
      let A := A.set left (mpiBigendianToHost isBigEndian (A.getD right 0))
      let A := A.set right tmp
      coreBigendianToHostLoop isBigEndian fuel (left + 1) (right - 1) A
    else A

def mbedtlsMpiCoreBigendianToHost (isBigEndian : Bool) (A : List (BitVec w)) : List (BitVec w) :=
  if A.length = 0 then A
  else coreBigendianToHostLoop isBigEndian A.length 0 (A.length - 1) A

def mbedtlsMpiCoreReadBe (isBigEndian : Bool) (limbs : Nat) (input : ByteString) :
    Except MpiError (List (BitVec w)) :=
  if limbs < charsToLimbs w input.length then .error .bufferTooSmall
  else if limbs = 0 then .ok []
  else
    let overhead := limbs * ciL w - input.length
    let memory := List.replicate overhead 0 ++ input
    let X := (List.range limbs).map fun i =>
      loadLimb w isBigEndian (slice memory (i * ciL w) (ciL w))
    .ok (mbedtlsMpiCoreBigendianToHost isBigEndian X)

def mbedtlsMpiCoreWriteBe (X : List (BitVec w)) (outputLength : Nat) :
    Except MpiError ByteString :=
  let storedBytes := X.length * ciL w
  if storedBytes < outputLength then
    .ok (List.replicate (outputLength - storedBytes) 0 ++
      ((List.range storedBytes).map (getByte X)).reverse)
  else if (List.range storedBytes).any fun i => decide (outputLength ≤ i) && getByte X i != 0 then
    .error .bufferTooSmall
  else
    .ok ((List.range outputLength).map (getByte X)).reverse

/-! ## Export -/

theorem two_pow_limb (hbits : w = 8 * ciL w) : 2 ^ w = 256 ^ ciL w :=
  calc 2 ^ w = 2 ^ (8 * ciL w) := congrArg (2 ^ ·) hbits
    _ = 256 ^ ciL w := Nat.pow_mul 2 8 (ciL w)

theorem value_lt_bytes (hbits : w = 8 * ciL w) (X : List (BitVec w)) :
    value X < 256 ^ (X.length * ciL w) := by
  have hlt := value_lt X
  have hexp : w * X.length = 8 * (X.length * ciL w) := by
    calc w * X.length = 8 * ciL w * X.length := by rw [← hbits]
      _ = 8 * (X.length * ciL w) := by ring
  rwa [hexp, Nat.pow_mul] at hlt

section Bytes

variable (hw : 0 < ciL w) (hbits : w = 8 * ciL w)

include hw hbits

theorem getByte_eq (X : List (BitVec w)) (i : Nat) :
    getByte X i = UInt8.ofNat (value X / 256 ^ i) := by
  have hpow : ∀ k, 2 ^ (k * 8) = 256 ^ k := by
    intro k
    rw [Nat.mul_comm, Nat.pow_mul]
  have hindex : 2 ^ (w * (i / ciL w)) * 2 ^ (i % ciL w * 8) = 256 ^ i := by
    have hdiv := Nat.div_add_mod i (ciL w)
    rw [← Nat.pow_add, ← hpow]
    congr 1
    calc w * (i / ciL w) + i % ciL w * 8
        = 8 * ciL w * (i / ciL w) + i % ciL w * 8 := by rw [← hbits]
      _ = (ciL w * (i / ciL w) + i % ciL w) * 8 := by ring
      _ = i * 8 := by rw [hdiv]
  have hmask : (0xff : BitVec w).toNat = 255 := by
    have hlt : 255 < 2 ^ w := by
      calc 255 < 2 ^ 8 := by decide
        _ ≤ 2 ^ w := Nat.pow_le_pow_right (by decide) (by omega)
    simp [Nat.mod_eq_of_lt hlt]
  have hoff : i % ciL w * 8 + 8 ≤ w := by
    have hlt := Nat.mod_lt i hw
    omega
  unfold getByte
  apply UInt8.toNat_inj.mp
  rw [BitVec.toNat_and, hmask, BitVec.toNat_ushiftRight]
  have hlimb := getD_toNat X (i / ciL w)
  simp only [BitVec.ofNat_eq_ofNat] at hlimb ⊢
  rw [hlimb, Nat.shiftRight_eq_div_pow, UInt8.toNat_ofNat', UInt8.toNat_ofNat']
  have hand : ∀ n, n &&& 255 = n % 256 := fun n => Nat.and_two_pow_sub_one_eq_mod n 8
  have hsplit : 2 ^ w = 2 ^ (i % ciL w * 8) * 2 ^ (w - i % ciL w * 8) := by
    rw [← Nat.pow_add, Nat.add_sub_cancel' (by omega)]
  have hdvd : 256 ∣ 2 ^ (w - i % ciL w * 8) := by
    have hle : 8 ≤ w - i % ciL w * 8 := by omega
    exact Nat.pow_dvd_pow 2 hle
  rw [hand, Nat.mod_mod, hsplit, Nat.mod_mul_right_div_self, Nat.div_div_eq_div_mul, hindex,
    Nat.mod_mod_of_dvd _ hdvd]

theorem map_getByte (X : List (BitVec w)) (n : Nat) :
    (List.range n).map (getByte X) = toLE n (value X) := by
  apply List.ext_getElem
  · simp
  intro i hi hi'
  have hin : i < n := by simpa using hi
  have hbyte := getD_toLE hin (value X)
  rw [List.getD_eq_getElem?_getD, List.getElem?_eq_getElem hi', Option.getD_some] at hbyte
  rw [hbyte, List.getElem_map, List.getElem_range, getByte_eq hw hbits]

theorem mbedtlsMpiCoreWriteBe_of_lt {X : List (BitVec w)} {n : Nat} (h : value X < 256 ^ n) :
    mbedtlsMpiCoreWriteBe X n = .ok (toBE n (value X)) := by
  unfold mbedtlsMpiCoreWriteBe
  simp only [map_getByte hw hbits]
  split
  · next hlong =>
    have hsplit := toBE_add (n - X.length * ciL w) (X.length * ciL w) (value X)
    rw [Nat.sub_add_cancel (by omega), Nat.div_eq_of_lt (value_lt_bytes hbits X),
      toBE_zero] at hsplit
    rw [hsplit]
    rfl
  · rw [if_neg]
    · rfl
    intro hany
    obtain ⟨i, hi, hne⟩ := List.any_eq_true.mp hany
    rw [Bool.and_eq_true, decide_eq_true_eq, bne_iff_ne] at hne
    obtain ⟨hge, hbyte⟩ := hne
    apply hbyte
    have hpow : value X < 256 ^ i := Nat.lt_of_lt_of_le h (Nat.pow_le_pow_right (by decide) hge)
    rw [getByte_eq hw hbits, Nat.div_eq_of_lt hpow]
    rfl

/-! ## Import -/

omit hw in
theorem mpiBigendianToHost_loadLimb (isBigEndian : Bool) {bytes : ByteString}
    (hlen : bytes.length = ciL w) :
    mpiBigendianToHost isBigEndian (loadLimb w isBigEndian bytes) =
      BitVec.ofNat w (ofBE bytes) := by
  have hle : ofLE bytes < 2 ^ w := by
    have hlt := ofLE_lt bytes
    rw [hlen] at hlt
    rwa [two_pow_limb hbits]
  unfold mpiBigendianToHost loadLimb
  cases isBigEndian with
  | true => rfl
  | false =>
    have hbytes := toLE_ofLE bytes
    rw [hlen] at hbytes
    have htoNat : (BitVec.ofNat w (ofLE bytes)).toNat = ofLE bytes := by
      rw [BitVec.toNat_ofNat, Nat.mod_eq_of_lt hle]
    simp only [Bool.false_eq_true, if_false]
    rw [htoNat, toBE, hbytes]
    rfl

end Bytes

theorem coreBigendianToHostLoop_eq (isBigEndian : Bool) (fuel : Nat) :
    ∀ P M S : List (BitVec w), M.length ≤ fuel → 0 < P.length + M.length →
      coreBigendianToHostLoop isBigEndian fuel P.length (P.length + M.length - 1) (P ++ M ++ S) =
        P ++ (M.map (mpiBigendianToHost isBigEndian)).reverse ++ S := by
  induction fuel with
  | zero =>
    intro P M S hM _
    have hnil : M = [] := List.eq_nil_of_length_eq_zero (Nat.le_zero.mp hM)
    subst hnil
    rfl
  | succ fuel ih =>
    intro P M S hM hpos
    rcases M with _ | ⟨a, M⟩
    · unfold coreBigendianToHostLoop
      rw [List.length_nil] at hpos ⊢
      rw [if_neg (by omega)]
      rfl
    · generalize hf : mpiBigendianToHost isBigEndian = f
      have hleft : (P ++ a :: M ++ S).getD P.length 0 = a := by simp
      rcases List.eq_nil_or_concat M with rfl | ⟨N, b, rfl⟩
      · -- one limb: both indices point to it
        unfold coreBigendianToHostLoop
        simp only [List.length_singleton, Nat.add_sub_cancel, Nat.le_refl, if_true, hf, hleft]
        have hset : ((P ++ [a] ++ S).set P.length (f a)).set P.length (f a) =
            P ++ [f a] ++ S := by simp
        rw [hset]
        cases fuel with
        | zero => simp [coreBigendianToHostLoop]
        | succ fuel =>
          unfold coreBigendianToHostLoop
          rw [if_neg (by omega)]
          simp
      · rw [List.concat_eq_append] at hleft hM ⊢
        have hN : N.length ≤ fuel := by
          simp only [List.length_cons, List.length_append, List.length_nil] at hM
          omega
        have hright : (P ++ a :: (N ++ [b]) ++ S).getD (P.length + (N.length + 1)) 0 = b := by
          simp
        have hrec := ih (P ++ [f b]) N ([f a] ++ S) hN (by simp)
        rw [hf] at hrec
        have hlast : P.length + (a :: (N ++ [b])).length - 1 = P.length + (N.length + 1) := by
          simp
        have hset : ((P ++ a :: (N ++ [b]) ++ S).set P.length (f b)).set
            (P.length + (N.length + 1)) (f a) = P ++ [f b] ++ N ++ ([f a] ++ S) := by
          simp
        unfold coreBigendianToHostLoop
        simp only [hlast, hleft, hright, hf, hset]
        rw [if_pos (by omega)]
        have hbounds : (P ++ [f b]).length = P.length + 1 ∧
            P.length + 1 + N.length - 1 = P.length + (N.length + 1) - 1 := by
          simp
        rw [hbounds.1, hbounds.2] at hrec
        rw [hrec]
        simp

theorem mbedtlsMpiCoreBigendianToHost_eq (isBigEndian : Bool) (A : List (BitVec w)) :
    mbedtlsMpiCoreBigendianToHost isBigEndian A =
      (A.map (mpiBigendianToHost isBigEndian)).reverse := by
  unfold mbedtlsMpiCoreBigendianToHost
  split
  · next hnil =>
    rw [List.eq_nil_of_length_eq_zero hnil]
    rfl
  · next hne =>
    have hloop := coreBigendianToHostLoop_eq isBigEndian A.length [] A [] (Nat.le_refl _)
      (by simpa using Nat.pos_of_ne_zero hne)
    simpa using hloop

theorem value_chunks (hbits : w = 8 * ciL w) (k : Nat) {memory : ByteString}
    (hlen : memory.length = k * ciL w) :
    value ((List.range k).map fun i =>
        BitVec.ofNat w (ofBE (slice memory (i * ciL w) (ciL w)))).reverse = ofBE memory := by
  induction k generalizing memory with
  | zero =>
    have hnil : memory = [] := List.eq_nil_of_length_eq_zero (by simpa using hlen)
    subst hnil
    rfl
  | succ k ih =>
    have hmul : (k + 1) * ciL w = k * ciL w + ciL w := Nat.succ_mul k (ciL w)
    have hfront : (memory.take (k * ciL w)).length = k * ciL w := by
      rw [List.length_take]
      omega
    have hlast : slice memory (k * ciL w) (ciL w) = memory.drop (k * ciL w) := by
      apply List.take_of_length_le
      rw [List.length_drop]
      omega
    have hslices : (List.range k).map (fun i =>
          BitVec.ofNat w (ofBE (slice memory (i * ciL w) (ciL w)))) =
        (List.range k).map fun i =>
          BitVec.ofNat w (ofBE (slice (memory.take (k * ciL w)) (i * ciL w) (ciL w))) := by
      apply List.map_congr_left
      intro i hi
      rw [List.mem_range] at hi
      have hle : (i + 1) * ciL w ≤ k * ciL w := Nat.mul_le_mul_right _ hi
      rw [Nat.succ_mul] at hle
      unfold slice
      rw [List.drop_take, List.take_take, Nat.min_eq_left (by omega)]
    have hlt : ofBE (memory.drop (k * ciL w)) < 2 ^ w := by
      have hbound := ofBE_lt (memory.drop (k * ciL w))
      rw [List.length_drop, hlen, hmul, Nat.add_sub_cancel_left] at hbound
      rwa [two_pow_limb hbits]
    have hsplit := ofBE_append (memory.take (k * ciL w)) (memory.drop (k * ciL w))
    rw [List.take_append_drop, List.length_drop, hlen, hmul, Nat.add_sub_cancel_left] at hsplit
    rw [List.range_succ, List.map_append, List.reverse_append, hslices, List.map_singleton,
      List.reverse_singleton, List.singleton_append, value_cons, ih hfront, hlast,
      BitVec.toNat_ofNat, Nat.mod_eq_of_lt hlt, hsplit, two_pow_limb hbits]
    ring

theorem mbedtlsMpiCoreReadBe_of_le (hw : 0 < ciL w) (hbits : w = 8 * ciL w) (isBigEndian : Bool)
    {limbs : Nat} {input : ByteString} (h : charsToLimbs w input.length ≤ limbs) :
    ∃ X : List (BitVec w), mbedtlsMpiCoreReadBe isBigEndian limbs input = .ok X ∧
      X.length = limbs ∧ value X = ofBE input := by
  have hroom : input.length ≤ limbs * ciL w := by
    unfold charsToLimbs at h
    have hdiv := Nat.div_add_mod' input.length (ciL w)
    have hmod := Nat.mod_lt input.length hw
    split at h
    · have hle := Nat.mul_le_mul_right (ciL w) h
      rw [Nat.succ_mul] at hle
      omega
    · have hle := Nat.mul_le_mul_right (ciL w) h
      rw [Nat.add_zero] at hle
      omega
  unfold mbedtlsMpiCoreReadBe
  rw [if_neg (by omega)]
  split
  · next hzero =>
    subst hzero
    have hnil : input = [] := List.eq_nil_of_length_eq_zero (by omega)
    subst hnil
    exact ⟨[], rfl, rfl, rfl⟩
  · refine ⟨_, rfl, ?_, ?_⟩
    · rw [mbedtlsMpiCoreBigendianToHost_eq]
      simp
    rw [mbedtlsMpiCoreBigendianToHost_eq, List.map_map, Function.comp_def,
      ← ofBE_replicate_zero (limbs * ciL w - input.length) input]
    generalize hmemory : List.replicate (limbs * ciL w - input.length) 0 ++ input = memory
    have hlen : memory.length = limbs * ciL w := by
      rw [← hmemory, List.length_append, List.length_replicate]
      omega
    have hlimbs : ∀ i ∈ List.range limbs, mpiBigendianToHost isBigEndian
          (loadLimb w isBigEndian (slice memory (i * ciL w) (ciL w))) =
        BitVec.ofNat w (ofBE (slice memory (i * ciL w) (ciL w))) := by
      intro i hi
      rw [List.mem_range] at hi
      have hle : (i + 1) * ciL w ≤ limbs * ciL w := Nat.mul_le_mul_right _ hi
      rw [Nat.succ_mul] at hle
      apply mpiBigendianToHost_loadLimb hbits
      rw [length_slice]
      omega
    rw [List.map_congr_left hlimbs, value_chunks hbits limbs hlen]

end TfPsaCrypto
