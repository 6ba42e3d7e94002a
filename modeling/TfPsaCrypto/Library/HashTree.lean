import Mathlib.Data.Nat.Bitwise

/-!
# Hash chains and hash trees

A chain applies step `j` to the result of step `j - 1`. In a binary tree whose node `r` has the
children `2r` and `2r + 1`, the path of a leaf recomputes the root.
-/

namespace HashTree

variable {α : Type*}

/-! ## Chains -/

/-- `n` steps of a chain, from step `j` on. -/
def chain (f : Nat → α → α) : Nat → Nat → α → α
  | 0, _, x => x
  | n + 1, j, x => chain f n (j + 1) (f j x)

variable {f : Nat → α → α}

theorem chain_add (n m j : Nat) (x : α) :
    chain f (n + m) j x = chain f m (j + n) (chain f n j x) := by
  induction n generalizing j x with
  | zero => rw [Nat.zero_add, Nat.add_zero, chain]
  | succ n ih =>
    rw [Nat.succ_add, chain, ih, chain, Nat.add_assoc, Nat.add_comm 1]

theorem chain_meets {d w : Nat} (h : d ≤ w) (x : α) :
    chain f (w - d) d (chain f d 0 x) = chain f w 0 x := by
  have hadd := chain_add (f := f) d (w - d) 0 x
  rw [Nat.add_sub_cancel' h, Nat.zero_add] at hadd
  exact hadd.symm

/-! ## Trees -/

/-- The value of node `r`, at height `h` above the leaves. -/
def node (leaf : Nat → α) (inner : Nat → α → α → α) : Nat → Nat → α
  | 0, r => leaf r
  | h + 1, r => inner r (node leaf inner h (2 * r)) (node leaf inner h (2 * r + 1))

def sibling (r : Nat) : Nat := r ^^^ 1

theorem sibling_eq (r : Nat) : sibling r = if r % 2 = 1 then r - 1 else r + 1 := by
  split
  · next h => exact Nat.xor_one_of_odd (Nat.odd_iff.mpr h)
  · next h => exact Nat.xor_one_of_even (Nat.even_iff.mpr (by omega))

/-- The values of the siblings of node `r`, which is at height `h`, and of `n - 1` nodes above. -/
def path (leaf : Nat → α) (inner : Nat → α → α → α) : Nat → Nat → Nat → List α
  | 0, _, _ => []
  | n + 1, h, r => node leaf inner h (sibling r) :: path leaf inner n (h + 1) (r / 2)

/-- The value above node `r`, from its own value and a path. -/
def climb (inner : Nat → α → α → α) : List α → Nat → α → α
  | [], _, x => x
  | y :: ys, r, x =>
    climb inner ys (r / 2) (if r % 2 = 1 then inner (r / 2) y x else inner (r / 2) x y)

variable {leaf : Nat → α} {inner : Nat → α → α → α}

@[simp] theorem length_path (n h r : Nat) : (path leaf inner n h r).length = n := by
  induction n generalizing h r with
  | zero => rfl
  | succ n ih => rw [path, List.length_cons, ih]

theorem inner_sibling (h r : Nat) :
    (if r % 2 = 1 then inner (r / 2) (node leaf inner h (sibling r)) (node leaf inner h r)
      else inner (r / 2) (node leaf inner h r) (node leaf inner h (sibling r))) =
      node leaf inner (h + 1) (r / 2) := by
  rw [sibling_eq, node]
  by_cases hodd : r % 2 = 1
  · rw [if_pos hodd, if_pos hodd, show 2 * (r / 2) = r - 1 by omega, show r - 1 + 1 = r by omega]
  · rw [if_neg hodd, if_neg hodd, show 2 * (r / 2) = r by omega]

theorem climb_path (n h r : Nat) :
    climb inner (path leaf inner n h r) r (node leaf inner h r) =
      node leaf inner (h + n) (r / 2 ^ n) := by
  induction n generalizing h r with
  | zero => rw [path, climb, Nat.pow_zero, Nat.div_one, Nat.add_zero]
  | succ n ih =>
    rw [path, climb, inner_sibling, ih, Nat.div_div_eq_div_mul, ← Nat.pow_succ',
      Nat.add_right_comm,
      Nat.add_assoc]

end HashTree
