import Mathlib.Algebra.BigOperators.Group.List.Basic
import TfPsaCrypto.Library.Blocks

/-!
# Sponges

The sponge construction on byte strings, with the padding of FIPS 202.
-/

namespace Sponge

open Bytes (ByteString)
open Blocks (Block)

variable {b : Nat} (f : Block b → Block b) (rate : Nat)

/-! ## The construction -/

/-- The state behind the next `k` blocks of a string. -/
def absorbBlocks (S : Block b) : Nat → ByteString → Block b
  | 0, _ => S
  | k + 1, P => absorbBlocks (f (S.xorAt 0 (P.take rate))) k (P.drop rate)

/-- The padding of a message of `n` bytes, with the domain byte `domain`. -/
def padding (domain : UInt8) (n : Nat) : ByteString :=
  if rate - n % rate = 1 then [domain ^^^ 0x80]
  else domain :: (List.replicate (rate - n % rate - 2) 0 ++ [0x80])

def absorbMessage (domain : UInt8) (message : ByteString) : Block b :=
  absorbBlocks f rate Block.zero (message.length / rate + 1)
    (message ++ padding rate domain message.length)

/-- Byte `n` of the output: `rate` bytes of the state, then of its image, and so on. -/
def outputByte (S : Block b) (n : Nat) : UInt8 := ((f^[n / rate]) S).toList.getD (n % rate) 0

/-- The output from byte `n` on. -/
def output (S : Block b) (n len : Nat) : ByteString :=
  (List.range len).map fun i => outputByte f rate S (n + i)

/-! ## Byte by byte -/

abbrev Cursor (b : Nat) := Block b × Nat

def stepCursor (S : Block b) (index : Nat) : Cursor b :=
  if (index + 1) % rate = 0 then (f S, (index + 1) % rate) else (S, (index + 1) % rate)

def absorbByte (x : Cursor b) (v : UInt8) : Cursor b := stepCursor f rate (x.1.xorAt x.2 [v]) x.2

/-- `n` bytes of output. -/
def squeeze : Cursor b → Nat → ByteString × Cursor b
  | x, 0 => ([], x)
  | x, n + 1 =>
    let r := squeeze (stepCursor f rate x.1 x.2) n
    (x.1.toList.getD x.2 0 :: r.1, r.2)

variable {f rate} {S : Block b} {index : Nat} {data : ByteString}

theorem stepCursor_of_lt (h : index + 1 < rate) : stepCursor f rate S index = (S, index + 1) := by
  unfold stepCursor
  rw [Nat.mod_eq_of_lt h, if_neg (Nat.succ_ne_zero index)]

theorem stepCursor_of_eq (h : index + 1 = rate) : stepCursor f rate S index = (f S, 0) := by
  unfold stepCursor
  rw [h, Nat.mod_self, if_pos rfl]

theorem foldl_absorbByte_of_lt (h : index + data.length < rate) :
    data.foldl (absorbByte f rate) (S, index) = (S.xorAt index data, index + data.length) := by
  induction data generalizing S index with
  | nil =>
    rw [Block.xorAt_nil]
    rfl
  | cons v data ih =>
    rw [List.length_cons] at h
    have hfirst : absorbByte f rate (S, index) v = (S.xorAt index [v], index + 1) :=
      stepCursor_of_lt (by omega)
    have hrest : data.foldl (absorbByte f rate) (S.xorAt index [v], index + 1) =
        ((S.xorAt index [v]).xorAt (index + 1) data, index + 1 + data.length) :=
      ih (by omega)
    have hxor : (S.xorAt index [v]).xorAt (index + 1) data = S.xorAt index (v :: data) :=
      (Block.xorAt_append S index [v] data).symm
    rw [List.foldl_cons, hfirst, hrest, hxor, List.length_cons, Nat.add_right_comm, Nat.add_assoc]

theorem foldl_absorbByte_of_eq (hne : data ≠ []) (h : index + data.length = rate) :
    data.foldl (absorbByte f rate) (S, index) = (f (S.xorAt index data), 0) := by
  obtain ⟨front, last, rfl⟩ := List.eq_nil_or_concat data |>.resolve_left hne
  rw [List.concat_eq_append] at h ⊢
  rw [List.length_append, List.length_singleton, ← Nat.add_assoc] at h
  have hfront : front.foldl (absorbByte f rate) (S, index) =
      (S.xorAt index front, index + front.length) := foldl_absorbByte_of_lt (by omega)
  rw [List.foldl_append, hfront, Block.xorAt_append]
  exact stepCursor_of_eq h

theorem foldl_absorbByte_piece (hne : data ≠ []) (h : index + data.length ≤ rate) :
    data.foldl (absorbByte f rate) (S, index) =
      stepCursor f rate (S.xorAt index data) (index + data.length - 1) := by
  have hpos : 0 < data.length := List.length_pos_of_ne_nil hne
  have hlast : index + data.length - 1 + 1 = index + data.length := by omega
  rcases Nat.lt_or_eq_of_le h with hlt | heq
  · rw [foldl_absorbByte_of_lt hlt, stepCursor_of_lt (by omega), hlast]
  · rw [foldl_absorbByte_of_eq hne heq, stepCursor_of_eq (by omega)]

theorem foldl_absorbByte_blocks {k : Nat} {rest : ByteString} (hrate : 0 < rate)
    (hdata : data.length = k * rate) (hrest : rest.length < rate) :
    (data ++ rest).foldl (absorbByte f rate) (S, 0) =
      ((absorbBlocks f rate S k (data ++ rest)).xorAt 0 rest, rest.length) := by
  induction k generalizing S data with
  | zero =>
    have hnil : data = [] := List.length_eq_zero_iff.mp (hdata.trans (Nat.zero_mul rate))
    subst hnil
    rw [List.nil_append, foldl_absorbByte_of_lt (by omega), Nat.zero_add]
    rfl
  | succ k ih =>
    rw [Nat.succ_mul] at hdata
    have hlong : rate ≤ data.length := by omega
    have htake : (data.take rate).length = rate := List.length_take_of_le hlong
    have hne : data.take rate ≠ [] := by
      intro hnil
      rw [hnil] at htake
      exact absurd htake (Nat.ne_of_lt hrate)
    have hdrop : (data.drop rate).length = k * rate := by
      rw [List.length_drop]
      omega
    have hcut : data ++ rest = data.take rate ++ (data.drop rate ++ rest) := by
      rw [← List.append_assoc, List.take_append_drop]
    rw [hcut, List.foldl_append, foldl_absorbByte_of_eq hne (by omega), ih hdrop]
    show _ = ((absorbBlocks f rate (f (S.xorAt 0 ((data.take rate ++ _).take rate))) k
      ((data.take rate ++ _).drop rate)).xorAt 0 rest, rest.length)
    rw [List.take_left' htake, List.drop_left' htake]

theorem length_padding (hrate : 0 < rate) (domain : UInt8) (n : Nat) :
    n % rate + (padding rate domain n).length = rate := by
  have hlt : n % rate < rate := Nat.mod_lt n hrate
  unfold padding
  split
  · next h =>
    rw [List.length_singleton]
    omega
  · next h =>
    rw [List.length_cons, List.length_append, List.length_replicate, List.length_singleton]
    omega

theorem xorAt_padding (domain : UInt8) {n : Nat} (hn : n % rate < rate) :
    (S.xorAt (n % rate) [domain]).xorAt (rate - 1) [0x80] =
      S.xorAt (n % rate) (padding rate domain n) := by
  unfold padding
  split
  · next h =>
    have hplace : n % rate = rate - 1 := by omega
    funext i
    unfold Block.xorAt
    rw [hplace]
    simp only [List.length_singleton]
    split
    · next hi =>
      have hzero : (i : Nat) - (rate - 1) = 0 := by omega
      rw [hzero]
      exact UInt8.xor_assoc _ _ _
    · rfl
  · next h =>
    have hzeros : ∀ (T : Block b) (off m : Nat), T.xorAt off (List.replicate m 0) = T := by
      intro T off m
      funext i
      unfold Block.xorAt
      split
      · have hzero : (List.replicate m (0 : UInt8)).getD (i - off) 0 = 0 := by
          rw [List.getD_eq_getElem?_getD, List.getElem?_replicate]
          split
          · rfl
          · rfl
        rw [hzero, UInt8.xor_zero]
      · rfl
    have hlast : n % rate + 1 + (rate - n % rate - 2) = rate - 1 := by omega
    show _ = S.xorAt (n % rate) ([domain] ++ (List.replicate (rate - n % rate - 2) 0 ++ [0x80]))
    rw [Block.xorAt_append, Block.xorAt_append, hzeros, List.length_singleton,
      List.length_replicate, hlast]

theorem absorbBlocks_succ (S : Block b) (k : Nat) (P : ByteString) :
    absorbBlocks f rate S (k + 1) P =
      f ((absorbBlocks f rate S k P).xorAt 0 ((P.drop (k * rate)).take rate)) := by
  induction k generalizing S P with
  | zero =>
    rw [Nat.zero_mul, List.drop_zero]
    rfl
  | succ k ih =>
    have hdrop : (P.drop rate).drop (k * rate) = P.drop ((k + 1) * rate) := by
      rw [List.drop_drop, Nat.succ_mul, Nat.add_comm]
    rw [← hdrop]
    exact ih (f (S.xorAt 0 (P.take rate))) (P.drop rate)

theorem absorbBlocks_append {k : Nat} {P : ByteString} (h : k * rate ≤ P.length) (S : Block b)
    (Q : ByteString) : absorbBlocks f rate S k (P ++ Q) = absorbBlocks f rate S k P := by
  induction k generalizing S P with
  | zero => rfl
  | succ k ih =>
    rw [Nat.succ_mul] at h
    have hlong : rate ≤ P.length := by omega
    have hdrop : k * rate ≤ (P.drop rate).length := by
      rw [List.length_drop]
      omega
    show absorbBlocks f rate (f (S.xorAt 0 ((P ++ Q).take rate))) k ((P ++ Q).drop rate) = _
    rw [List.take_append_of_le_length hlong, List.drop_append_of_le_length hlong]
    exact ih hdrop _

theorem foldl_absorbByte_message (hrate : 0 < rate) (message : ByteString) :
    message.foldl (absorbByte f rate) (S, 0) =
      ((absorbBlocks f rate S (message.length / rate) message).xorAt 0
        (message.drop (message.length / rate * rate)), message.length % rate) := by
  have hle : message.length / rate * rate ≤ message.length := Nat.div_mul_le_self _ _
  have hsplit := Nat.div_add_mod' message.length rate
  have hlength : (message.drop (message.length / rate * rate)).length =
      message.length % rate := by
    rw [List.length_drop]
    omega
  have hblocks := foldl_absorbByte_blocks (f := f) (S := S) hrate
    (List.length_take_of_le hle)
    (show (message.drop (message.length / rate * rate)).length < rate by
      rw [hlength]
      exact Nat.mod_lt _ hrate)
  rw [List.take_append_drop, hlength] at hblocks
  exact hblocks

theorem absorb_eq (hrate : 0 < rate) (domain : UInt8) (message : ByteString) :
    f ((((message.foldl (absorbByte f rate) (Block.zero, 0)).1.xorAt
      (message.foldl (absorbByte f rate) (Block.zero, 0)).2 [domain])).xorAt (rate - 1) [0x80]) =
      absorbMessage f rate domain message := by
  have hle : message.length / rate * rate ≤ message.length := Nat.div_mul_le_self _ _
  have hsplit := Nat.div_add_mod' message.length rate
  have hlength : (message.drop (message.length / rate * rate)).length =
      message.length % rate := by
    rw [List.length_drop]
    omega
  have hlast : ((message ++ padding rate domain message.length).drop
      (message.length / rate * rate)).take rate =
      message.drop (message.length / rate * rate) ++ padding rate domain message.length := by
    rw [List.drop_append_of_le_length hle, List.take_of_length_le]
    rw [List.length_append, hlength]
    exact Nat.le_of_eq (length_padding hrate domain _)
  unfold absorbMessage
  rw [foldl_absorbByte_message hrate, absorbBlocks_succ, absorbBlocks_append hle, hlast,
    Block.xorAt_append, xorAt_padding domain (Nat.mod_lt _ hrate), Nat.zero_add, hlength]

theorem stepCursor_iterate (hrate : 0 < rate) (S : Block b) (n : Nat) :
    stepCursor f rate ((f^[n / rate]) S) (n % rate) = ((f^[(n + 1) / rate]) S, (n + 1) % rate) := by
  have hlt := Nat.mod_lt n hrate
  have hsplit := Nat.div_add_mod' n rate
  by_cases hfull : n % rate + 1 = rate
  · have hnext : n + 1 = (n / rate + 1) * rate := by
      rw [Nat.succ_mul]
      omega
    rw [stepCursor_of_eq hfull, hnext, Nat.mul_div_cancel _ hrate, Nat.mul_mod_left,
      Function.iterate_succ_apply']
  · have hplace : n % rate + 1 < rate := by omega
    have hnext : n + 1 = n / rate * rate + (n % rate + 1) := by omega
    have hdiv : (n + 1) / rate = n / rate := by
      rw [hnext, Nat.add_comm, Nat.add_mul_div_right _ _ hrate, Nat.div_eq_of_lt hplace,
        Nat.zero_add]
    have hmod : (n + 1) % rate = n % rate + 1 := by
      conv_lhs => rw [hnext]
      rw [Nat.mul_add_mod_self_right, Nat.mod_eq_of_lt hplace]
    rw [stepCursor_of_lt hplace, hdiv, hmod]

theorem squeeze_eq (hrate : 0 < rate) (S : Block b) (n len : Nat) :
    squeeze f rate ((f^[n / rate]) S, n % rate) len =
      (output f rate S n len, ((f^[(n + len) / rate]) S, (n + len) % rate)) := by
  induction len generalizing n with
  | zero => rfl
  | succ len ih =>
    have hhead : output f rate S n (len + 1) =
        outputByte f rate S n :: output f rate S (n + 1) len := by
      unfold output
      rw [List.range_succ_eq_map, List.map_cons, List.map_map, Nat.add_zero]
      congr 1
      apply List.map_congr_left
      intro i _
      show outputByte f rate S (n + (i + 1)) = outputByte f rate S (n + 1 + i)
      rw [Nat.add_right_comm, Nat.add_assoc]
    have hrest := ih (n + 1)
    unfold squeeze
    rw [stepCursor_iterate hrate, hrest, hhead, Nat.add_right_comm, Nat.add_assoc]
    rfl

def outputs (f : Block b → Block b) (rate : Nat) (S : Block b) : Nat → List Nat → List ByteString
  | _, [] => []
  | n, len :: lens => output f rate S n len :: outputs f rate S (n + len) lens

theorem output_add (S : Block b) (n m len : Nat) :
    output f rate S n (m + len) = output f rate S n m ++ output f rate S (n + m) len := by
  unfold output
  rw [List.range_add, List.map_append, List.map_map]
  congr 1
  apply List.map_congr_left
  intro i _
  show outputByte f rate S (n + (m + i)) = outputByte f rate S (n + m + i)
  rw [Nat.add_assoc]

theorem flatten_outputs (S : Block b) (n : Nat) (lens : List Nat) :
    (outputs f rate S n lens).flatten = output f rate S n lens.sum := by
  induction lens generalizing n with
  | nil => rfl
  | cons len lens ih =>
    rw [List.sum_cons, output_add, ← ih]
    rfl

end Sponge
