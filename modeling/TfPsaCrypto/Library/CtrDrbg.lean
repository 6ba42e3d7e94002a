import TfPsaCrypto.Library.Drbg

/-!
# CTR_DRBG

The mechanism of SP 800-90A, section 10.2.1, with the derivation function of section 10.3, over an
arbitrary block cipher with blocks of 16 bytes and keys of `keyBlocks` blocks.
-/

namespace Drbg

open Bytes Blocks

@[ext] structure CtrState where
  K : ByteString
  V : Block 16

def increment (V : Block 16) : Block 16 := Block.ofList (toBE 16 (ofBE V.toList + 1))

section Mechanism

variable (E : ByteString → Block 16 → Block 16) (keyBlocks : Nat)

def bcc (K data : ByteString) : Block 16 := Blocks.chain (E K) Block.zero (blocksOf 16 data)

/-- The string `S` of Block_Cipher_df, up to the zeros at its end. -/
def dfInput (input : ByteString) : ByteString :=
  toBE 4 input.length ++ (toBE 4 (16 * (keyBlocks + 1)) ++ (input ++ [0x80]))

def dfKey : ByteString := (List.range (16 * keyBlocks)).map UInt8.ofNat

def dfReduced (input : ByteString) : ByteString :=
  (List.range (keyBlocks + 1)).flatMap fun i =>
    (bcc E (dfKey keyBlocks) (toBE 4 i ++ (List.replicate 12 0 ++ dfInput keyBlocks input))).toList

/-- `count` successive blocks of a block function. -/
def iterates (f : Block 16 → Block 16) (x : Block 16) (count : Nat) : ByteString :=
  (List.range count).flatMap fun i => (f^[i + 1] x).toList

def blockCipherDf (input : ByteString) : ByteString :=
  let temp := dfReduced E keyBlocks input
  iterates (E (temp.take (16 * keyBlocks))) (Block.ofList (slice temp (16 * keyBlocks) 16))
    (keyBlocks + 1)

/-- The blocks that are encrypted from `V` on. -/
def ctrBlocks (K : ByteString) (V : Block 16) (count : Nat) : ByteString :=
  (List.range count).flatMap fun i => (E K (increment^[i + 1] V)).toList

def ctrUpdate (provided : ByteString) (s : CtrState) : CtrState :=
  let temp := Bytes.xor (ctrBlocks E s.K s.V (keyBlocks + 1)) provided
  ⟨temp.take (16 * keyBlocks), Block.ofList (temp.drop (16 * keyBlocks))⟩

def ctrInstantiate (seedMaterial : ByteString) : CtrState :=
  ctrUpdate E keyBlocks (blockCipherDf E keyBlocks seedMaterial)
    ⟨List.replicate (16 * keyBlocks) 0, Block.zero⟩

def ctrGenerate (n : Nat) (additional : ByteString) (s : CtrState) : ByteString × CtrState :=
  let provided :=
    if additional = [] then List.replicate (16 * (keyBlocks + 1)) 0
    else blockCipherDf E keyBlocks additional
  let s := if additional = [] then s else ctrUpdate E keyBlocks provided s
  let count := (n + 15) / 16
  ((ctrBlocks E s.K s.V count).take n, ctrUpdate E keyBlocks provided ⟨s.K, increment^[count] s.V⟩)

/-- An update with data goes through the derivation function, of `maxInput` bytes at most. -/
def ctrMechanism (maxInput : Nat) : Mechanism CtrState where
  update data s :=
    if data = [] then some s
    else if maxInput < data.length then none
    else some (ctrUpdate E keyBlocks (blockCipherDf E keyBlocks data) s)
  reseed entropy additional s :=
    ctrUpdate E keyBlocks (blockCipherDf E keyBlocks (entropy ++ additional)) s
  generate := ctrGenerate E keyBlocks

end Mechanism

variable {E : ByteString → Block 16 → Block 16} {f : Block 16 → Block 16}

theorem iterates_succ (x : Block 16) (count : Nat) :
    iterates f x (count + 1) = (f x).toList ++ iterates f (f x) count := by
  unfold iterates
  rw [List.range_succ_eq_map, List.flatMap_cons, List.flatMap_map]
  rfl

theorem ctrBlocks_succ (K : ByteString) (V : Block 16) (count : Nat) :
    ctrBlocks E K V (count + 1) =
      (E K (increment V)).toList ++ ctrBlocks E K (increment V) count := by
  unfold ctrBlocks
  rw [List.range_succ_eq_map, List.flatMap_cons, List.flatMap_map]
  rfl

theorem length_ctrBlocks (K : ByteString) (V : Block 16) (count : Nat) :
    (ctrBlocks E K V count).length = 16 * count := by
  induction count generalizing V with
  | zero => rfl
  | succ count ih =>
    rw [ctrBlocks_succ, List.length_append, ih, Block.length_toList, Nat.mul_succ, Nat.add_comm]

/-! ### The chain of a buffer -/

theorem ofList_take_append_zeros {n : Nat} (data : ByteString) (z : Nat) :
    (Block.ofList ((data ++ List.replicate z 0).take n) : Block n) =
      Block.ofList (data.take n) := by
  funext i
  unfold Block.ofList
  by_cases h : (i : Nat) < data.length
  · rw [List.getD_eq_getElem?_getD, List.getD_eq_getElem?_getD, List.getElem?_take_of_lt i.isLt,
      List.getElem?_take_of_lt i.isLt, List.getElem?_append_left h]
  · rw [List.getD_eq_getElem?_getD, List.getD_eq_getElem?_getD, List.getElem?_take_of_lt i.isLt,
      List.getElem?_take_of_lt i.isLt, List.getElem?_append_right (by omega),
      List.getElem?_eq_none (l := data) (by omega), List.getElem?_replicate]
    split <;> rfl

end Drbg
