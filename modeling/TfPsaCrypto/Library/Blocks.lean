import Mathlib.Data.List.GetD
import Mathlib.Data.List.OfFn
import TfPsaCrypto.Library.Bytes

/-!
# Blocks, and chaining a block function over data that arrives in pieces

`chain f x` is a chaining mode after a list of blocks, and `absorb` computes it for bytes in
pieces.
-/

namespace Blocks

open Bytes

/-- A block of `n` bytes. -/
abbrev Block (n : Nat) := Fin n → UInt8

variable {n : Nat}

/-! ## Blocks and byte strings -/

variable {data : ByteString} {bs : List (Block n)}

namespace Block

def zero : Block n := fun _ => 0

def ofList (data : ByteString) : Block n := fun i => data.getD i 0

def toList (b : Block n) : ByteString := List.ofFn b

def xor (x y : Block n) : Block n := fun i => x i ^^^ y i

/-- The block with `data` xored in from byte `off` on. -/
def xorAt (b : Block n) (off : Nat) (data : ByteString) : Block n :=
  fun i => if off ≤ i ∧ i < off + data.length then b i ^^^ data.getD (i - off) 0 else b i

/-- The block with `data` stored from byte `off` on. -/
def store (b : Block n) (off : Nat) (data : ByteString) : Block n :=
  fun i => if off ≤ i ∧ i < off + data.length then data.getD (i - off) 0 else b i

@[simp] theorem length_toList (b : Block n) : b.toList.length = n := by
  simp [toList]

@[simp] theorem ofList_toList (b : Block n) : ofList b.toList = b := by
  funext i
  simp [ofList, toList]

theorem toList_ofList (h : data.length = n) : (ofList data : Block n).toList = data := by
  subst h
  apply List.ext_getElem
  · simp
  · intro i hi hi'
    simp [toList, ofList, List.getD_eq_getElem?_getD, List.getElem?_eq_getElem hi']

theorem toList_xor (x y : Block n) : (x.xor y).toList = Bytes.xor x.toList y.toList := by
  apply List.ext_getElem
  · simp
  · intro i hi hi'
    simp [toList, xor, Bytes.xor]

/-! ### Blocks in a row -/

theorem length_flatMap_toList (bs : List (Block n)) :
    (bs.flatMap toList).length = n * bs.length := by
  induction bs with
  | nil => rfl
  | cons b bs ih =>
    rw [List.flatMap_cons, List.length_append, ih, length_toList, List.length_cons, Nat.mul_succ,
      Nat.add_comm]

theorem flatMap_toList_split {i : Nat} (hi : i < bs.length) :
    bs.flatMap toList =
      (bs.take i).flatMap toList ++ ((bs[i]).toList ++ (bs.drop (i + 1)).flatMap toList) := by
  conv_lhs => rw [← List.take_append_drop i bs, List.drop_eq_getElem_cons hi, List.flatMap_append]
  rfl

theorem slice_flatMap_toList {i : Nat} (hi : i < bs.length) :
    slice (bs.flatMap toList) (n * i) n = (bs[i]).toList := by
  have hlen : ((bs.take i).flatMap toList).length = n * i := by
    rw [length_flatMap_toList, List.length_take, Nat.min_eq_left (Nat.le_of_lt hi)]
  unfold slice
  rw [flatMap_toList_split hi, List.drop_left' hlen, List.take_left' (length_toList _)]

theorem storeAt_flatMap_toList {i : Nat} (hi : i < bs.length) (x : Block n) :
    storeAt (bs.flatMap toList) (n * i) x.toList = (bs.set i x).flatMap toList := by
  have hlen : ((bs.take i).flatMap toList).length = n * i := by
    rw [length_flatMap_toList, List.length_take, Nat.min_eq_left (Nat.le_of_lt hi)]
  rw [flatMap_toList_split hi, storeAt_middle hlen (by rw [length_toList, length_toList]),
    List.set_eq_take_append_cons_drop, if_pos hi, List.flatMap_append]
  rfl

theorem xorAt_zero (b : Block n) : b.xorAt 0 data = b.xor (ofList data) := by
  funext i
  unfold xorAt xor ofList
  split
  · rw [Nat.sub_zero]
  · next h =>
    have hlen : data.length ≤ i := by omega
    rw [List.getD_eq_default _ _ hlen, UInt8.xor_zero]

@[simp] theorem xorAt_nil (b : Block n) (off : Nat) : b.xorAt off [] = b := by
  funext i
  unfold xorAt
  rw [if_neg (by simp)]

theorem xorAt_append (b : Block n) (off : Nat) (x y : ByteString) :
    b.xorAt off (x ++ y) = (b.xorAt off x).xorAt (off + x.length) y := by
  funext i
  unfold xorAt
  rw [List.length_append]
  by_cases hx : (i : Nat) < off + x.length
  · rw [if_neg (by omega : ¬ (off + x.length ≤ (i : Nat) ∧ _))]
    by_cases hoff : off ≤ (i : Nat)
    · rw [if_pos ⟨hoff, by omega⟩, if_pos ⟨hoff, hx⟩, List.getD_append _ _ _ _ (by omega)]
    · rw [if_neg (by omega), if_neg (by omega)]
  · rw [if_neg (by omega : ¬ (off ≤ (i : Nat) ∧ (i : Nat) < off + x.length))]
    by_cases hy : (i : Nat) < off + x.length + y.length
    · rw [if_pos (by omega), if_pos (by omega), List.getD_append_right _ _ _ _ (by omega),
        Nat.sub_add_eq]
    · rw [if_neg (by omega), if_neg (by omega)]

end Block

/-! ## Chaining -/

def chain (f : Block n → Block n) (x : Block n) (blocks : List (Block n)) : Block n :=
  blocks.foldl (fun x b => f (x.xor b)) x

/-- The blocks of `data`, the last one padded with zeros. -/
def blocksOf (n : Nat) (data : ByteString) : List (Block n) :=
  (List.range ((data.length + (n - 1)) / n)).map fun i => Block.ofList ((data.drop (n * i)).take n)

theorem blocksOf_nil (hn : 0 < n) : blocksOf n [] = [] := by
  have hzero : ([] : ByteString).length + (n - 1) < n := by
    rw [List.length_nil]
    omega
  rw [blocksOf, Nat.div_eq_of_lt hzero]
  rfl

theorem blocksOf_eq (hn : 0 < n) (h : data ≠ []) :
    blocksOf n data = Block.ofList (data.take n) :: blocksOf n (data.drop n) := by
  have hpos : 0 < data.length := List.length_pos_iff.mpr h
  have hcount : (data.length + (n - 1)) / n = (data.length - n + (n - 1)) / n + 1 := by
    by_cases hle : n ≤ data.length
    · have hsum : data.length + (n - 1) = (data.length - n + (n - 1)) + n := by omega
      rw [hsum, Nat.add_div_right _ hn]
    · have hsmall : data.length - n + (n - 1) < n := by omega
      rw [Nat.div_eq_of_lt hsmall]
      exact Nat.div_eq_of_lt_le (by omega) (by omega)
  unfold blocksOf
  rw [hcount, List.range_succ_eq_map, List.map_cons, List.map_map, List.length_drop]
  congr 1
  apply List.map_congr_left
  intro i _
  simp [List.drop_drop, Nat.mul_succ, Nat.add_comm]

/-- One byte arrives at position `pos` of the data. -/
def absorbByte (f : Block n → Block n) (y : Block n) (pos : Nat) (b : UInt8) : Block n :=
  let y := y.xorAt (pos % n) [b]
  if (pos + 1) % n = 0 then f y else y

/-- Data arrives at position `pos`. -/
def absorb (f : Block n → Block n) (y : Block n) (pos : Nat) : ByteString → Block n
  | [] => y
  | b :: bs => absorb f (absorbByte f y pos b) (pos + 1) bs

def flush (f : Block n → Block n) (y : Block n) (pos : Nat) : Block n :=
  if pos % n = 0 then y else f y

theorem succ_mod_eq_zero_iff (hn : 0 < n) (pos : Nat) :
    (pos + 1) % n = 0 ↔ pos % n + 1 = n := by
  have hlt := Nat.mod_lt pos hn
  rw [← Nat.mod_add_mod]
  constructor
  · intro h
    by_contra hne
    rw [Nat.mod_eq_of_lt (by omega)] at h
    omega
  · intro h
    rw [h, Nat.mod_self]

section Absorb

variable {f : Block n → Block n} {y : Block n} {pos : Nat}

@[simp] theorem absorb_nil : absorb f y pos [] = y := rfl

theorem absorb_append (x z : ByteString) :
    absorb f y pos (x ++ z) = absorb f (absorb f y pos x) (pos + x.length) z := by
  induction x generalizing y pos with
  | nil => rfl
  | cons b bs ih =>
    rw [List.cons_append, absorb, ih, List.length_cons, Nat.add_assoc, Nat.add_comm 1]
    rfl

theorem absorb_congr {pos' : Nat} (h : pos % n = pos' % n) (data : ByteString) :
    absorb f y pos data = absorb f y pos' data := by
  induction data generalizing y pos pos' with
  | nil => rfl
  | cons b bs ih =>
    have hsucc : (pos + 1) % n = (pos' + 1) % n := by
      rw [← Nat.mod_add_mod, h, Nat.mod_add_mod]
    rw [absorb, absorb, absorbByte, absorbByte, h, hsucc, ih hsucc]

theorem absorb_piece {c : ByteString} (hc : c ≠ []) (h : pos % n + c.length ≤ n) :
    absorb f y pos c =
      if pos % n + c.length = n then f (y.xorAt (pos % n) c) else y.xorAt (pos % n) c := by
  induction c generalizing y pos with
  | nil => exact absurd rfl hc
  | cons b bs ih =>
    rw [List.length_cons] at h
    have hn : 0 < n := by omega
    rw [absorb, absorbByte]
    by_cases hbs : bs = []
    · subst hbs
      simp only [List.length_nil, Nat.zero_add, absorb_nil, List.length_singleton] at h ⊢
      simp only [succ_mod_eq_zero_iff hn]
    have hpos : 0 < bs.length := List.length_pos_iff.mpr hbs
    have hmod : (pos + 1) % n = pos % n + 1 := by
      rw [Nat.add_mod, Nat.mod_eq_of_lt (by omega : 1 < n), Nat.mod_eq_of_lt (by omega)]
    rw [if_neg (by omega), ih hbs (by omega), hmod, List.length_cons]
    have happ : y.xorAt (pos % n) (b :: bs) =
        (y.xorAt (pos % n) [b]).xorAt (pos % n + 1) bs :=
      Block.xorAt_append y (pos % n) [b] bs
    rw [happ, Nat.add_assoc, Nat.add_comm 1]

theorem flush_absorb (hn : 0 < n) (data : ByteString) :
    flush f (absorb f y 0 data) data.length = chain f y (blocksOf n data) := by
  induction hlen : data.length using Nat.strong_induction_on generalizing y data with
  | _ len ih =>
    subst hlen
    by_cases hnil : data = []
    · subst hnil
      rw [blocksOf_nil hn]
      simp [flush, chain]
    have hpos : 0 < data.length := List.length_pos_iff.mpr hnil
    have htake : data.take n ≠ [] := by
      intro hempty
      have hzero := congrArg List.length hempty
      rw [List.length_take, List.length_nil] at hzero
      omega
    have hpiece : absorb f y 0 (data.take n) = _ :=
      absorb_piece htake (by rw [Nat.zero_mod, List.length_take]; omega)
    rw [Nat.zero_mod, Nat.zero_add, Block.xorAt_zero] at hpiece
    rw [blocksOf_eq hn hnil, chain, List.foldl_cons, ← chain]
    by_cases hle : n ≤ data.length
    · -- a full block, then the rest of the data
      have hfull : (data.take n).length = n := List.length_take_of_le hle
      rw [if_pos hfull] at hpiece
      have hsplit : absorb f y 0 data =
          absorb f (f (y.xor (.ofList (data.take n)))) 0 (data.drop n) := by
        conv_lhs => rw [← List.take_append_drop n data]
        rw [absorb_append, hpiece, hfull]
        exact absorb_congr (by rw [Nat.zero_add, Nat.mod_self, Nat.zero_mod]) _
      have hrest := ih (data.drop n).length (by rw [List.length_drop]; omega)
        (y := f (y.xor (.ofList (data.take n)))) (data.drop n) rfl
      rw [hsplit, ← hrest]
      unfold flush
      have hmod : data.length % n = (data.drop n).length % n := by
        rw [List.length_drop]
        exact (Nat.mod_eq_sub_mod hle)
      rw [hmod]
    · -- the last block is not full
      have hall : data.take n = data := List.take_of_length_le (by omega)
      have hdrop : data.drop n = [] := List.drop_eq_nil_of_le (by omega)
      rw [hall, if_neg (by omega)] at hpiece
      rw [hall, hdrop, blocksOf_nil hn, hpiece, flush, if_neg]
      · rfl
      · rw [Nat.mod_eq_of_lt (by omega)]
        omega

/-! ## Data of a known length -/

/-- Data arrives at position `pos` of `total` bytes: the last block is completed as soon
as the data is. -/
def absorbTo (f : Block n → Block n) (y : Block n) (pos total : Nat) (data : ByteString) :
    Block n :=
  if data ≠ [] ∧ pos + data.length = total then flush f (absorb f y pos data) total
  else absorb f y pos data

variable {total : Nat}

@[simp] theorem absorbTo_nil : absorbTo f y pos total [] = y := by
  simp [absorbTo]

theorem absorbTo_append {x z : ByteString} (h : pos + x.length + z.length ≤ total) :
    absorbTo f y pos total (x ++ z) =
      absorbTo f (absorbTo f y pos total x) (pos + x.length) total z := by
  by_cases hz : z = []
  · subst hz
    rw [List.append_nil, absorbTo_nil]
  have hpos : 0 < z.length := List.length_pos_iff.mpr hz
  have hx : absorbTo f y pos total x = absorb f y pos x := by
    rw [absorbTo, if_neg]
    rintro ⟨_, hlast⟩
    omega
  have hxz : x ++ z ≠ [] := by simp [hz]
  rw [hx, absorbTo, absorbTo, absorb_append, List.length_append, ← Nat.add_assoc]
  simp only [hz, hxz, ne_eq, not_false_eq_true, true_and]

theorem absorbTo_piece {c : ByteString} (hc : c ≠ []) (h : pos % n + c.length ≤ n) :
    absorbTo f y pos total c =
      if pos % n + c.length = n ∨ pos + c.length = total then f (y.xorAt (pos % n) c)
      else y.xorAt (pos % n) c := by
  have hpos : 0 < c.length := List.length_pos_iff.mpr hc
  rw [absorbTo, absorb_piece hc h]
  by_cases hlast : pos + c.length = total
  · rw [if_pos ⟨hc, hlast⟩, if_pos (Or.inr hlast), flush, ← hlast, ← Nat.mod_add_mod]
    by_cases hfull : pos % n + c.length = n
    · rw [if_pos hfull, hfull, Nat.mod_self, if_pos rfl]
    · rw [if_neg hfull, Nat.mod_eq_of_lt (by omega), if_neg (by omega)]
  · rw [if_neg (by simp [hlast])]
    simp only [hlast, or_false]

theorem absorbTo_all (hn : 0 < n) (data : ByteString) :
    absorbTo f y 0 data.length data = chain f y (blocksOf n data) := by
  by_cases hdata : data = []
  · subst hdata
    rw [absorbTo_nil, blocksOf_nil hn]
    rfl
  · rw [absorbTo, if_pos ⟨hdata, Nat.zero_add _⟩, flush_absorb hn]

end Absorb

end Blocks
