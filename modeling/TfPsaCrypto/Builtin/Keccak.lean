import TfPsaCrypto.Library.Keccak
import Mathlib.Data.Fintype.Basic
import Mathlib.Tactic.FinCases

/-!
# The permutation of SHA-3

`keccak_f1600` of `sha3.c`, with each of the four steps rolled or unrolled. The word `s[x + 5 * y]`
is the lane `(x, y)` of the state array.
-/

namespace TfPsaCrypto.Sha3

/-! ## The function -/

abbrev Lanes := Fin 25 → BitVec 64

/-- `MBEDTLS_SHA3_THETA_UNROLL` and the three other macros. -/
structure Unroll where
  theta : Bool
  rho : Bool
  pi : Bool
  chi : Bool

def word (s : Lanes) (i : Nat) : BitVec 64 := s (Fin.ofNat 25 i)

def setWord (s : Lanes) (i : Nat) (v : BitVec 64) : Lanes := Function.update s (Fin.ofNat 25 i) v

def rotr64 (x : BitVec 64) (y : Nat) : BitVec 64 := (x <<< (64 - y)) ||| (x >>> y)

def xorColumn (s : Lanes) (i : Nat) (t : BitVec 64) : Lanes :=
  let s := setWord s i (word s i ^^^ t)
  let s := setWord s (i + 5) (word s (i + 5) ^^^ t)
  let s := setWord s (i + 10) (word s (i + 10) ^^^ t)
  let s := setWord s (i + 15) (word s (i + 15) ^^^ t)
  setWord s (i + 20) (word s (i + 20) ^^^ t)

def columnWord (s : Lanes) (i : Nat) : BitVec 64 :=
  word s i ^^^ word s (i + 5) ^^^ word s (i + 10) ^^^ word s (i + 15) ^^^ word s (i + 20)

def thetaRolled (s : Lanes) : Lanes :=
  let lane := (List.range 5).map (columnWord s)
  (List.range 5).foldl (fun s i =>
    xorColumn s i (lane.getD ((i + 4) % 5) 0 ^^^ rotr64 (lane.getD ((i + 1) % 5) 0) 63)) s

def thetaUnrolled (s : Lanes) : Lanes :=
  let lane0 := columnWord s 0
  let lane1 := columnWord s 1
  let lane2 := columnWord s 2
  let lane3 := columnWord s 3
  let lane4 := columnWord s 4
  let s := xorColumn s 0 (lane4 ^^^ rotr64 lane1 63)
  let s := xorColumn s 1 (lane0 ^^^ rotr64 lane2 63)
  let s := xorColumn s 2 (lane1 ^^^ rotr64 lane3 63)
  let s := xorColumn s 3 (lane2 ^^^ rotr64 lane4 63)
  xorColumn s 4 (lane3 ^^^ rotr64 lane0 63)

def rhoTable : List (BitVec 32) :=
  [0x3f022425, 0x1c143a09, 0x2c3d3615, 0x27191713, 0x312b382e, 0x3e030832]

def piTable : List (BitVec 32) :=
  [0x110b070a, 0x10050312, 0x04181508, 0x0d13170f, 0x0e14020c, 0x01060916]

def byteN (n : Nat) (x : BitVec 32) : Nat := ((x >>> (8 * n)).setWidth 8).toNat

/-- The inner loop over `j`; `r` is shifted left at each turn. -/
def rhoInner (s : Lanes) (j : Nat) (r : BitVec 32) : Nat → Lanes
  | 0 => s
  | n + 1 => rhoInner (setWord s j (rotr64 (word s j) (byteN 3 r))) (j + 1) (r <<< 8) n

def rhoRolled (s : Lanes) : Lanes :=
  (List.range 6).foldl (fun s k => rhoInner s (4 * k + 1) (rhoTable.getD k 0) 4) s

def rhoBlock (s : Lanes) (i : Nat) (r : BitVec 32) : Lanes :=
  let s := setWord s i (rotr64 (word s i) (byteN 3 r))
  let s := setWord s (i + 1) (rotr64 (word s (i + 1)) (byteN 2 r))
  let s := setWord s (i + 2) (rotr64 (word s (i + 2)) (byteN 1 r))
  setWord s (i + 3) (rotr64 (word s (i + 3)) (byteN 0 r))

def rhoUnrolled (s : Lanes) : Lanes :=
  (List.range 6).foldl (fun s k => rhoBlock s (4 * k + 1) (rhoTable.getD k 0)) s

def swapWord (st : Lanes × BitVec 64) (i : Nat) : Lanes × BitVec 64 :=
  (setWord st.1 i st.2, word st.1 i)

/-- The inner loop over `j`; `p` is shifted right at each turn. -/
def piInner (st : Lanes × BitVec 64) (p : BitVec 32) : Nat → Lanes × BitVec 64
  | 0 => st
  | n + 1 => piInner (swapWord st (byteN 0 p)) (p >>> 8) n

def piRolled (s : Lanes) : Lanes :=
  ((List.range 6).foldl (fun st k => piInner st (piTable.getD k 0) 4) (s, word s 1)).1

def piBlock (st : Lanes × BitVec 64) (p : BitVec 32) : Lanes × BitVec 64 :=
  swapWord (swapWord (swapWord (swapWord st (byteN 0 p)) (byteN 1 p)) (byteN 2 p)) (byteN 3 p)

def piUnrolled (s : Lanes) : Lanes :=
  ((List.range 6).foldl (fun st k => piBlock st (piTable.getD k 0)) (s, word s 1)).1

/-- The row that starts at `s[i]`. -/
def chiRow (s : Lanes) (i : Nat) : Lanes :=
  let lane0 := word s i
  let lane1 := word s (i + 1)
  let lane2 := word s (i + 2)
  let lane3 := word s (i + 3)
  let lane4 := word s (i + 4)
  let s := setWord s i (word s i ^^^ (~~~lane1 &&& lane2))
  let s := setWord s (i + 1) (word s (i + 1) ^^^ (~~~lane2 &&& lane3))
  let s := setWord s (i + 2) (word s (i + 2) ^^^ (~~~lane3 &&& lane4))
  let s := setWord s (i + 3) (word s (i + 3) ^^^ (~~~lane4 &&& lane0))
  setWord s (i + 4) (word s (i + 4) ^^^ (~~~lane0 &&& lane1))

def chiRolled (s : Lanes) : Lanes := (List.range 5).foldl (fun s k => chiRow s (5 * k)) s

def chiUnrolled (s : Lanes) : Lanes := chiRow (chiRow (chiRow (chiRow (chiRow s 0) 5) 10) 15) 20

def maskHigh (b63 b31 b15 : BitVec 8) : BitVec 8 := b63 <<< 6 ||| b31 <<< 5 ||| b15 <<< 4

def iotaRPacked : List (BitVec 8) :=
  [maskHigh 0 0 0 ||| 0x01, maskHigh 0 0 1 ||| 0x82, maskHigh 1 0 1 ||| 0x8a,
   maskHigh 1 1 1 ||| 0x00, maskHigh 0 0 1 ||| 0x8b, maskHigh 0 1 0 ||| 0x01,
   maskHigh 1 1 1 ||| 0x81, maskHigh 1 0 1 ||| 0x09, maskHigh 0 0 0 ||| 0x8a,
   maskHigh 0 0 0 ||| 0x88, maskHigh 0 1 1 ||| 0x09, maskHigh 0 1 0 ||| 0x0a,
   maskHigh 0 1 1 ||| 0x8b, maskHigh 1 0 0 ||| 0x8b, maskHigh 1 0 1 ||| 0x89,
   maskHigh 1 0 1 ||| 0x03, maskHigh 1 0 1 ||| 0x02, maskHigh 1 0 0 ||| 0x80,
   maskHigh 0 0 1 ||| 0x0a, maskHigh 1 1 0 ||| 0x0a, maskHigh 1 1 1 ||| 0x81,
   maskHigh 1 0 1 ||| 0x80, maskHigh 0 1 0 ||| 0x01, maskHigh 1 1 1 ||| 0x08]

def iotaMask (round : Nat) : BitVec 64 :=
  let packed := (iotaRPacked.getD round 0).setWidth 64
  (packed &&& 0x40) <<< 57 ||| (packed &&& 0x20) <<< 26 ||| (packed &&& 0x10) <<< 11 |||
    (packed &&& 0x8f)

def iotaStep (s : Lanes) (round : Nat) : Lanes := setWord s 0 (word s 0 ^^^ iotaMask round)

def keccakRound (u : Unroll) (s : Lanes) (round : Nat) : Lanes :=
  let s := if u.theta then thetaUnrolled s else thetaRolled s
  let s := if u.rho then rhoUnrolled s else rhoRolled s
  let s := if u.pi then piUnrolled s else piRolled s
  let s := if u.chi then chiUnrolled s else chiRolled s
  iotaStep s round

def keccakF1600 (u : Unroll) (s : Lanes) : Lanes := (List.range 24).foldl (keccakRound u) s

/-! ## Rolled and unrolled -/

theorem thetaUnrolled_eq (s : Lanes) : thetaUnrolled s = thetaRolled s := rfl

theorem byteN_shl {n : Nat} (h : n < 3) (r : BitVec 32) : byteN (n + 1) (r <<< 8) = byteN n r := by
  unfold byteN
  congr 1
  apply BitVec.eq_of_getLsbD_eq
  intro i hi
  have hsum : 8 * (n + 1) + i - 8 = 8 * n + i := by omega
  simp only [BitVec.getLsbD_setWidth, BitVec.getLsbD_ushiftRight, BitVec.getLsbD_shiftLeft, hsum]
  have hlow : ¬ 8 * (n + 1) + i < 8 := by omega
  have hhigh : 8 * (n + 1) + i < 32 := by omega
  simp [hlow, hhigh]

theorem byteN_shr {n : Nat} (p : BitVec 32) : byteN n (p >>> 8) = byteN (n + 1) p := by
  unfold byteN
  rw [← BitVec.shiftRight_add, Nat.mul_succ, Nat.add_comm]

theorem rhoBlock_eq (s : Lanes) (i : Nat) (r : BitVec 32) : rhoBlock s i r = rhoInner s i r 4 := by
  have h2 : byteN 3 (r <<< 8) = byteN 2 r := byteN_shl (by decide) r
  have h1 : byteN 3 (r <<< 8 <<< 8) = byteN 1 r :=
    (byteN_shl (by decide) _).trans (byteN_shl (by decide) r)
  have h0 : byteN 3 (r <<< 8 <<< 8 <<< 8) = byteN 0 r :=
    (byteN_shl (by decide) _).trans ((byteN_shl (by decide) _).trans (byteN_shl (by decide) r))
  unfold rhoBlock
  rw [← h2, ← h1, ← h0]
  rfl

theorem rhoUnrolled_eq (s : Lanes) : rhoUnrolled s = rhoRolled s := by
  unfold rhoUnrolled rhoRolled
  simp only [rhoBlock_eq]

theorem piBlock_eq (st : Lanes × BitVec 64) (p : BitVec 32) : piBlock st p = piInner st p 4 := by
  unfold piBlock
  simp only [piInner, byteN_shr]

theorem piUnrolled_eq (s : Lanes) : piUnrolled s = piRolled s := by
  unfold piUnrolled piRolled
  simp only [piBlock_eq]

theorem chiUnrolled_eq (s : Lanes) : chiUnrolled s = chiRolled s := rfl

/-! ## The steps on state arrays -/

def laneIndex (x y : Fin 5) : Fin 25 := ⟨x.val + 5 * y.val, by omega⟩

def stateArray (s : Lanes) : Keccak.StateArray := fun x y z => (s (laneIndex x y)).getLsbD z

theorem thetaRolled_lane (s : Lanes) (x y : Fin 5) :
    thetaRolled s (laneIndex x y) = s (laneIndex x y) ^^^
      (columnWord s (x - 1).val ^^^ rotr64 (columnWord s (x + 1).val) 63) := by
  fin_cases x <;> fin_cases y <;> rfl

def rotation (i : Nat) : Nat :=
  if i = 0 then 0 else byteN (3 - (i - 1) % 4) (rhoTable.getD ((i - 1) / 4) 0)

theorem rhoUnrolled_lane (s : Lanes) (x y : Fin 5) (h : laneIndex x y ≠ 0) :
    rhoUnrolled s (laneIndex x y) = rotr64 (s (laneIndex x y)) (rotation (laneIndex x y).val) := by
  fin_cases x <;> fin_cases y <;> first | rfl | exact absurd rfl h

theorem piUnrolled_lane (s : Lanes) (x y : Fin 5) :
    piUnrolled s (laneIndex x y) = s (laneIndex (x + 3 * y) x) := by
  fin_cases x <;> fin_cases y <;> rfl

theorem chiRolled_lane (s : Lanes) (x y : Fin 5) :
    chiRolled s (laneIndex x y) = s (laneIndex x y) ^^^
      (~~~s (laneIndex (x + 1) y) &&& s (laneIndex (x + 2) y)) := by
  fin_cases x <;> fin_cases y <;> rfl

theorem laneIndex_eq_zero {x y : Fin 5} (h : laneIndex x y = 0) : x = 0 ∧ y = 0 := by
  have hval : x.val + 5 * y.val = 0 := congrArg Fin.val h
  constructor
  · apply Fin.ext
    omega
  · apply Fin.ext
    omega

theorem rotation_eq : ∀ x y : Fin 5, laneIndex x y ≠ 0 →
    rotation (laneIndex x y).val = 64 - (Keccak.rhoOffset x y).val ∧
      0 < (Keccak.rhoOffset x y).val := by
  decide

theorem iotaMask_eq : ∀ (round : Fin 24) (z : Fin 64),
    (iotaMask round).getLsbD z = Keccak.roundConstant round z := by
  decide +kernel

theorem getLsbD_rotr64 (x : BitVec 64) {y z : Nat} (hy : 0 < y) (hy' : y ≤ 64) (hz : z < 64) :
    (rotr64 x y).getLsbD z = x.getLsbD ((z + y) % 64) := by
  unfold rotr64
  rw [BitVec.getLsbD_or, BitVec.getLsbD_shiftLeft, BitVec.getLsbD_ushiftRight]
  by_cases hwrap : z + y < 64
  · have hlow : z < 64 - y := by omega
    rw [Nat.mod_eq_of_lt hwrap, Nat.add_comm y z]
    simp [hlow]
  have hlow : ¬ z < 64 - y := by omega
  have hsub : z - (64 - y) = z + y - 64 := by omega
  have hmod : (z + y) % 64 = z + y - 64 := by omega
  have hhigh : x.getLsbD (y + z) = false := BitVec.getLsbD_of_ge _ _ (by omega)
  rw [hmod, hsub, hhigh]
  simp [hlow, hz]

theorem columnWord_bit (s : Lanes) (x : Fin 5) (z : Fin 64) :
    (columnWord s x.val).getLsbD z = Keccak.columnParity (stateArray s) x z := by
  have hword : columnWord s x.val = s (laneIndex x 0) ^^^ s (laneIndex x 1) ^^^
      s (laneIndex x 2) ^^^ s (laneIndex x 3) ^^^ s (laneIndex x 4) := by
    fin_cases x <;> rfl
  rw [hword]
  simp only [BitVec.getLsbD_xor]
  rfl

theorem stateArray_theta (s : Lanes) :
    stateArray (thetaRolled s) = Keccak.theta (stateArray s) := by
  funext x y z
  have hz : (z.val + 63) % 64 = (z - 1).val := by
    rw [Fin.sub_def]
    show (z.val + 63) % 64 = (63 + z.val) % 64
    rw [Nat.add_comm]
  unfold stateArray
  rw [thetaRolled_lane, BitVec.getLsbD_xor, BitVec.getLsbD_xor,
    getLsbD_rotr64 _ (by decide) (by decide) z.isLt, hz, columnWord_bit, columnWord_bit]
  rfl

theorem stateArray_rho (s : Lanes) :
    stateArray (rhoUnrolled s) = Keccak.rho (stateArray s) := by
  funext x y z
  by_cases hlane : laneIndex x y = 0
  · obtain ⟨rfl, rfl⟩ := laneIndex_eq_zero hlane
    have hoffset : Keccak.rhoOffset 0 0 = 0 := by decide
    have hz : (z - Keccak.rhoOffset 0 0).val = z.val := by
      rw [hoffset, Fin.sub_def]
      show (64 - 0 + z.val) % 64 = z.val
      omega
    show (s 0).getLsbD z = (s 0).getLsbD (z - Keccak.rhoOffset 0 0).val
    rw [hz]
  · obtain ⟨hrotation, hpos⟩ := rotation_eq x y hlane
    have hz : (z.val + rotation (laneIndex x y).val) % 64 = (z - Keccak.rhoOffset x y).val := by
      rw [hrotation, Fin.sub_def, Nat.add_comm]
    unfold stateArray
    rw [rhoUnrolled_lane s x y hlane, getLsbD_rotr64 _ (by omega) (by omega) z.isLt, hz]
    rfl

theorem stateArray_pi (s : Lanes) : stateArray (piUnrolled s) = Keccak.pi (stateArray s) := by
  funext x y z
  unfold stateArray
  rw [piUnrolled_lane]
  rfl

theorem stateArray_chi (s : Lanes) : stateArray (chiRolled s) = Keccak.chi (stateArray s) := by
  funext x y z
  unfold stateArray
  rw [chiRolled_lane, BitVec.getLsbD_xor, BitVec.getLsbD_and, BitVec.getLsbD_not]
  simp [Keccak.chi]

theorem stateArray_iota (s : Lanes) {round : Nat} (h : round < 24) :
    stateArray (iotaStep s round) = Keccak.iota round (stateArray s) := by
  funext x y z
  by_cases hlane : laneIndex x y = 0
  · obtain ⟨rfl, rfl⟩ := laneIndex_eq_zero hlane
    have hmask : (iotaMask round).getLsbD z = Keccak.roundConstant round z :=
      iotaMask_eq ⟨round, h⟩ z
    show (s 0 ^^^ iotaMask round).getLsbD z = _
    rw [BitVec.getLsbD_xor, hmask]
    rfl
  · have hne : ¬ (x = 0 ∧ y = 0) := by
      rintro ⟨rfl, rfl⟩
      exact hlane rfl
    have hkept : iotaStep s round (laneIndex x y) = s (laneIndex x y) :=
      Function.update_of_ne hlane _ _
    unfold stateArray Keccak.iota
    rw [hkept, if_neg hne]

theorem stateArray_round (u : Unroll) (s : Lanes) {round : Nat} (h : round < 24) :
    stateArray (keccakRound u s round) = Keccak.round (stateArray s) round := by
  have htheta : (if u.theta then thetaUnrolled s else thetaRolled s) = thetaRolled s := by
    rw [thetaUnrolled_eq, ite_self]
  have hrho : ∀ s, (if u.rho then rhoUnrolled s else rhoRolled s) = rhoUnrolled s := by
    intro s
    rw [← rhoUnrolled_eq, ite_self]
  have hpi : ∀ s, (if u.pi then piUnrolled s else piRolled s) = piUnrolled s := by
    intro s
    rw [← piUnrolled_eq, ite_self]
  have hchi : ∀ s, (if u.chi then chiUnrolled s else chiRolled s) = chiRolled s := by
    intro s
    rw [chiUnrolled_eq, ite_self]
  unfold keccakRound
  dsimp only
  rw [htheta, hrho, hpi, hchi, stateArray_iota _ h, stateArray_chi, stateArray_pi,
    stateArray_rho, stateArray_theta]
  rfl

theorem stateArray_rounds (u : Unroll) (s : Lanes) {rounds : List Nat}
    (h : ∀ round ∈ rounds, round < 24) :
    stateArray (rounds.foldl (keccakRound u) s) = rounds.foldl Keccak.round (stateArray s) := by
  induction rounds generalizing s with
  | nil => rfl
  | cons round rounds ih =>
    rw [List.foldl_cons, List.foldl_cons, ih _ fun r hr => h r (List.mem_cons_of_mem _ hr),
      stateArray_round u s (h round List.mem_cons_self)]

theorem stateArray_keccakF1600 (u : Unroll) (s : Lanes) :
    stateArray (keccakF1600 u s) = Keccak.keccakF (stateArray s) :=
  stateArray_rounds u s fun _ h => List.mem_range.mp h

/-! ## The permutation on strings -/

def wordByte (w : BitVec 64) (j : Nat) : UInt8 := ⟨(w >>> (8 * j)).setWidth 8⟩

def bytesOf (s : Lanes) : Blocks.Block 200 := fun k => wordByte (word s (k.val / 8)) (k.val % 8)

theorem getLsbD_wordByte (w : BitVec 64) (j : Nat) {i : Nat} (hi : i < 8) :
    (wordByte w j).toBitVec.getLsbD i = w.getLsbD (8 * j + i) := by
  show ((w >>> (8 * j)).setWidth 8).getLsbD i = _
  rw [BitVec.getLsbD_setWidth, BitVec.getLsbD_ushiftRight]
  simp [hi]

theorem word_eq {s : Lanes} {i : Nat} (h : i < 25) : word s i = s ⟨i, h⟩ := by
  unfold word
  congr 1
  exact Fin.ext (Nat.mod_eq_of_lt h)

theorem ofString_bytesOf (s : Lanes) : Keccak.ofString (bytesOf s) = stateArray s := by
  funext x y z
  have hlane : (8 * (x.val + 5 * y.val) + z.val / 8) / 8 = x.val + 5 * y.val := by omega
  have hbyte : (8 * (x.val + 5 * y.val) + z.val / 8) % 8 = z.val / 8 := by omega
  show (wordByte (word s ((8 * (x.val + 5 * y.val) + z.val / 8) / 8))
    ((8 * (x.val + 5 * y.val) + z.val / 8) % 8)).toBitVec.getLsbD (z.val % 8) = _
  rw [hlane, hbyte, getLsbD_wordByte _ _ (Nat.mod_lt _ (by decide)), word_eq (by omega),
    Nat.div_add_mod]
  rfl

theorem toString_stateArray (s : Lanes) : Keccak.toString (stateArray s) = bytesOf s := by
  funext k
  apply UInt8.toBitVec_inj.mp
  apply BitVec.eq_of_getLsbD_eq
  intro i hi
  have hlane : k.val / 8 % 5 + 5 * (k.val / 40 % 5) = k.val / 8 := by omega
  have hbit : (8 * (k.val % 8) + i) % 64 = 8 * (k.val % 8) + i := by omega
  have hbyte : (bytesOf s k).toBitVec.getLsbD i =
      (word s (k.val / 8)).getLsbD (8 * (k.val % 8) + i) := getLsbD_wordByte _ _ hi
  have hword : s (laneIndex (Fin.ofNat 5 (k.val / 8)) (Fin.ofNat 5 (k.val / 40))) =
      word s (k.val / 8) := by
    rw [word_eq (by omega)]
    congr 1
    exact Fin.ext hlane
  rw [hbyte, ← hword]
  show (BitVec.setWidth 8 (BitVec.ofBoolListLE _)).getLsbD i = _
  rw [BitVec.getLsbD_setWidth, BitVec.getLsbD_ofBoolListLE, List.getD_eq_getElem?_getD,
    List.getElem?_ofFn]
  simp only [hi, decide_true, dif_pos, Bool.true_and, Option.getD_some]
  show (s (laneIndex _ _)).getLsbD ((8 * (k.val % 8) + i) % 64) = _
  rw [hbit]

theorem bytesOf_keccakF1600 (u : Unroll) (s : Lanes) :
    bytesOf (keccakF1600 u s) = Keccak.keccakFString (bytesOf s) := by
  unfold Keccak.keccakFString
  rw [ofString_bytesOf, ← stateArray_keccakF1600 u, toString_stateArray]

-- from here on the permutation is one function
attribute [irreducible] keccakF1600

end TfPsaCrypto.Sha3
