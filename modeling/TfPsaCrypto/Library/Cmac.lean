import Mathlib.Data.BitVec
import TfPsaCrypto.Library.Blocks

/-!
# CMAC

The message authentication code of RFC 4493 over an arbitrary function `e` on blocks of 16 bytes:
the subkeys, the last block, and the chaining over the blocks before it.
-/

namespace Cmac

open Bytes Blocks

/-! ## Subkeys -/

def bits (b : Block 16) : BitVec 128 := BitVec.ofNat 128 (ofBE b.toList)

def ofBits (v : BitVec 128) : Block 16 := Block.ofList (toBE 16 v.toNat)

def rb : BitVec 128 := 0x87#128

/-- The multiplication by `u`: `L << 1`, and `const_Rb` added when the top bit was set. -/
def double (b : Block 16) : Block 16 :=
  if (bits b).msb then ofBits ((bits b <<< 1) ^^^ rb) else ofBits (bits b <<< 1)

variable (e : Block 16 → Block 16)

def subkey1 : Block 16 := double (e Block.zero)

def subkey2 : Block 16 := double (subkey1 e)

/-! ## The code -/

def blockCount (m : ByteString) : Nat := max 1 ((m.length + 15) / 16)

def padding (x : ByteString) : Block 16 := Block.ofList (x ++ [0x80])

def lastBlock (x : ByteString) : Block 16 :=
  if x.length = 16 then (Block.ofList x).xor (subkey1 e) else (padding x).xor (subkey2 e)

/-- The CMAC of `m`. -/
def cmac (m : ByteString) : Block 16 :=
  let n := blockCount m
  let x := chain e Block.zero (blocksOf 16 (m.take ((n - 1) * 16)))
  e ((lastBlock e (m.drop ((n - 1) * 16))).xor x)

/-! ## Any split in blocks and a last block -/

theorem blocksOf_append {n : Nat} (hn : 0 < n) {x : ByteString} (h : n ∣ x.length)
    (y : ByteString) : blocksOf n (x ++ y) = blocksOf n x ++ blocksOf n y := by
  obtain ⟨k, h⟩ := h
  rw [Nat.mul_comm] at h
  induction k generalizing x with
  | zero =>
    rw [Nat.zero_mul, List.length_eq_zero_iff] at h
    rw [h, List.nil_append, blocksOf_nil hn, List.nil_append]
  | succ k ih =>
    rw [Nat.succ_mul] at h
    have hx : x ≠ [] := by
      rintro rfl
      rw [List.length_nil] at h
      omega
    have hxy : x ++ y ≠ [] := fun hnil => hx (List.append_eq_nil_iff.mp hnil).1
    have hdrop : (x.drop n).length = k * n := by
      rw [List.length_drop]
      omega
    rw [blocksOf_eq hn hxy, blocksOf_eq hn hx, List.take_append_of_le_length (by omega),
      List.drop_append_of_le_length (by omega), ih hdrop, List.cons_append]

theorem chain_snoc {f : Block 16 → Block 16} {y : Block 16} {x b : ByteString}
    (hx : 16 ∣ x.length) (hb : b.length = 16) :
    chain f y (blocksOf 16 (x ++ b)) = f ((Block.ofList b).xor (chain f y (blocksOf 16 x))) := by
  have hcomm : ∀ u v : Block 16, u.xor v = v.xor u := fun u v => funext fun i => UInt8.xor_comm _ _
  have hne : b ≠ [] := by
    rintro rfl
    cases hb
  have hone : blocksOf 16 b = [Block.ofList b] := by
    rw [blocksOf_eq (by decide) hne, List.take_of_length_le hb.le, List.drop_of_length_le hb.le,
      blocksOf_nil (by decide)]
  rw [blocksOf_append (by decide) hx, hone]
  rw [hcomm]
  unfold chain
  rw [List.foldl_append, List.foldl_cons, List.foldl_nil]

theorem cmac_append {whole last : ByteString} (hwhole : 16 ∣ whole.length)
    (hlast : last.length ≤ 16) (hne : last = [] → whole = []) :
    cmac e (whole ++ last) =
      e ((lastBlock e last).xor (chain e Block.zero (blocksOf 16 whole))) := by
  have hcount : (blockCount (whole ++ last) - 1) * 16 = whole.length := by
    unfold blockCount
    rw [List.length_append]
    by_cases hnil : last = []
    · rw [hnil, hne hnil]
      rfl
    · have hpos := List.length_pos_iff.mpr hnil
      omega
  unfold cmac
  simp only [hcount, List.take_left, List.drop_left]

end Cmac
