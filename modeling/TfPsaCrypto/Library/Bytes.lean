import Mathlib.Data.List.Basic
import Mathlib.Tactic.Ring

/-!
# Fixed-width integers in byte strings

Little-endian and big-endian encodings of a number in a fixed number of bytes, and `slice`, the
bytes that a field of a packed record occupies.
-/

namespace Bytes

abbrev ByteString := List UInt8

instance neZero_eight : NeZero 8 := ⟨by decide⟩

instance neZero_sixteen : NeZero 16 := ⟨by decide⟩

/-- The `n` low bytes of `v`, least significant first. -/
def toLE : Nat → Nat → ByteString
  | 0, _ => []
  | n + 1, v => UInt8.ofNat v :: toLE n (v / 256)

def ofLE : ByteString → Nat
  | [] => 0
  | b :: bs => b.toNat + 256 * ofLE bs

/-- The `n` low bytes of `v`, most significant first. -/
def toBE (n v : Nat) : ByteString := (toLE n v).reverse

@[simp] theorem length_toLE (n v : Nat) : (toLE n v).length = n := by
  induction n generalizing v with
  | zero => rfl
  | succ n ih => simp [toLE, ih]

@[simp] theorem length_toBE (n v : Nat) : (toBE n v).length = n := by
  simp [toBE]

theorem getD_toLE {n i : Nat} (h : i < n) (v : Nat) :
    (toLE n v).getD i 0 = UInt8.ofNat (v / 256 ^ i) := by
  induction n generalizing i v with
  | zero => omega
  | succ n ih =>
    cases i with
    | zero => simp [toLE]
    | succ i =>
      rw [toLE, List.getD_cons_succ, ih (by omega), Nat.pow_succ', Nat.div_div_eq_div_mul]

theorem getD_toBE {n i : Nat} (h : i < n) (v : Nat) :
    (toBE n v).getD i 0 = UInt8.ofNat (v / 256 ^ (n - 1 - i)) := by
  rw [← getD_toLE (by omega : n - 1 - i < n), toBE, List.getD_eq_getElem?_getD,
    List.getD_eq_getElem?_getD, List.getElem?_reverse (by simpa using h), length_toLE]

theorem ofLE_toLE (n v : Nat) : ofLE (toLE n v) = v % 256 ^ n := by
  induction n generalizing v with
  | zero => simp [toLE, ofLE, Nat.mod_one]
  | succ n ih =>
    rw [toLE, ofLE, ih, Nat.pow_succ', Nat.mod_mul]
    simp

theorem toLE_mod (n v : Nat) : toLE n (v % 256 ^ n) = toLE n v := by
  induction n generalizing v with
  | zero => rfl
  | succ n ih =>
    have hdiv : v % 256 ^ (n + 1) / 256 = v / 256 % 256 ^ n := by
      rw [Nat.pow_succ', Nat.mod_mul_right_div_self]
    have hlow : UInt8.ofNat (v % 256 ^ (n + 1)) = UInt8.ofNat v := by
      apply UInt8.toNat_inj.mp
      exact Nat.mod_mod_of_dvd v (Dvd.intro_left _ (Nat.pow_succ (n := 256) (m := n)).symm)
    rw [toLE, toLE, hdiv, ih, hlow]

theorem toLE_ofLE (bs : ByteString) : toLE bs.length (ofLE bs) = bs := by
  induction bs with
  | nil => rfl
  | cons b bs ih =>
    have hb := b.toNat_lt
    have hdiv : (b.toNat + 256 * ofLE bs) / 256 = ofLE bs := by omega
    have hlow : UInt8.ofNat (b.toNat + 256 * ofLE bs) = b := by
      apply UInt8.toNat_inj.mp
      simp only [UInt8.toNat_ofNat']
      omega
    rw [ofLE, List.length_cons, toLE, hdiv, ih, hlow]

theorem ofLE_toLE_of_lt {n v : Nat} (h : v < 256 ^ n) : ofLE (toLE n v) = v := by
  rw [ofLE_toLE, Nat.mod_eq_of_lt h]

theorem ofLE_lt (bs : ByteString) : ofLE bs < 256 ^ bs.length := by
  induction bs with
  | nil => simp [ofLE]
  | cons b bs ih =>
    have hb := b.toNat_lt
    rw [ofLE, List.length_cons, Nat.pow_succ']
    omega

def ofBE (bs : ByteString) : Nat := ofLE bs.reverse

theorem ofLE_append (xs ys : ByteString) :
    ofLE (xs ++ ys) = ofLE xs + 256 ^ xs.length * ofLE ys := by
  induction xs with
  | nil => simp [ofLE]
  | cons x xs ih =>
    rw [List.cons_append, ofLE, ofLE, ih, List.length_cons, Nat.pow_succ']
    ring

@[simp] theorem ofBE_nil : ofBE [] = 0 := rfl

theorem ofBE_append (xs ys : ByteString) :
    ofBE (xs ++ ys) = ofBE xs * 256 ^ ys.length + ofBE ys := by
  unfold ofBE
  rw [List.reverse_append, ofLE_append, List.length_reverse]
  ring

theorem ofBE_cons (b : UInt8) (bs : ByteString) :
    ofBE (b :: bs) = b.toNat * 256 ^ bs.length + ofBE bs := by
  have happend := ofBE_append [b] bs
  simpa [ofBE, ofLE] using happend

theorem ofBE_snoc (bs : ByteString) (b : UInt8) :
    ofBE (bs ++ [b]) = ofBE bs * 256 + b.toNat := by
  rw [ofBE_append]
  simp [ofBE, ofLE]

theorem ofBE_lt (bs : ByteString) : ofBE bs < 256 ^ bs.length := by
  have hlt := ofLE_lt bs.reverse
  rwa [List.length_reverse] at hlt

theorem ofBE_toBE (n v : Nat) : ofBE (toBE n v) = v % 256 ^ n := by
  rw [ofBE, toBE, List.reverse_reverse, ofLE_toLE]

theorem toBE_ofBE (bs : ByteString) : toBE bs.length (ofBE bs) = bs := by
  have hrev := toLE_ofLE bs.reverse
  rw [List.length_reverse] at hrev
  rw [toBE, ofBE, hrev, List.reverse_reverse]

theorem toLE_add (m k v : Nat) : toLE (k + m) v = toLE k v ++ toLE m (v / 256 ^ k) := by
  induction k generalizing v with
  | zero => simp [toLE]
  | succ k ih =>
    rw [Nat.add_right_comm, toLE, ih, toLE, Nat.pow_succ', Nat.div_div_eq_div_mul, List.cons_append]

theorem toBE_add (m k v : Nat) : toBE (m + k) v = toBE m (v / 256 ^ k) ++ toBE k v := by
  rw [toBE, Nat.add_comm, toLE_add, List.reverse_append]
  rfl

@[simp] theorem toBE_zero (n : Nat) : toBE n 0 = List.replicate n 0 := by
  induction n with
  | zero => rfl
  | succ n ih =>
    rw [toBE_add, Nat.zero_div, ih, List.replicate_succ']
    rfl

theorem ofBE_replicate_zero (n : Nat) (bs : ByteString) :
    ofBE (List.replicate n 0 ++ bs) = ofBE bs := by
  induction n with
  | zero => rfl
  | succ n ih => rw [List.replicate_succ, List.cons_append, ofBE_cons, ih]; simp

/-- The `len` bytes of `bs` from offset `off`. -/
def slice (bs : ByteString) (off len : Nat) : ByteString := (bs.drop off).take len

theorem length_slice (bs : ByteString) (off len : Nat) :
    (slice bs off len).length = min len (bs.length - off) := by
  simp [slice]

@[simp] theorem slice_head {f rest : ByteString} {len : Nat} (h : f.length = len) :
    slice (f ++ rest) 0 len = f := by
  subst h
  simp [slice]

@[simp] theorem slice_tail {f rest : ByteString} {off len : Nat}
    (h : f.length ≤ off) :
    slice (f ++ rest) off len = slice rest (off - f.length) len := by
  simp [slice, List.drop_append, List.drop_eq_nil_of_le h]

@[simp] theorem slice_all {f : ByteString} {len : Nat} (h : f.length = len) :
    slice f 0 len = f := by
  subst h
  simp [slice]

/-- The byte string with `data` stored from byte `off` on. -/
def storeAt (bs : ByteString) (off : Nat) (data : ByteString) : ByteString :=
  bs.take off ++ data ++ bs.drop (off + data.length)

theorem storeAt_middle {x y z data : ByteString} {off : Nat} (hx : x.length = off)
    (hy : y.length = data.length) : storeAt (x ++ (y ++ z)) off data = x ++ (data ++ z) := by
  unfold storeAt
  rw [List.take_left' hx, ← List.append_assoc x y z,
    List.drop_left' (by rw [List.length_append, hx, hy]), List.append_assoc]

theorem length_storeAt {bs data : ByteString} {off : Nat} (h : off + data.length ≤ bs.length) :
    (storeAt bs off data).length = bs.length := by
  unfold storeAt
  rw [List.length_append, List.length_append, List.length_take, List.length_drop]
  omega

def xor (x y : ByteString) : ByteString := List.zipWith (· ^^^ ·) x y

@[simp] theorem length_xor (x y : ByteString) :
    (xor x y).length = min x.length y.length := by
  simp [xor]

theorem xor_append {x y k l : ByteString} (h : x.length = k.length) :
    xor (x ++ y) (k ++ l) = xor x k ++ xor y l := by
  exact List.zipWith_append h

theorem xor_xor {x k : ByteString} (h : x.length ≤ k.length) :
    xor (xor x k) k = x := by
  induction x generalizing k with
  | nil => rfl
  | cons b x ih =>
    cases k with
    | nil => cases h
    | cons c k =>
      have hbyte : b ^^^ c ^^^ c = b := by
        rw [UInt8.xor_assoc, UInt8.xor_self, UInt8.xor_zero]
      show (b ^^^ c ^^^ c) :: xor (xor x k) k = b :: x
      rw [hbyte, ih (by simpa using h)]

theorem xor_take {x k : ByteString} {n : Nat} (h : x.length ≤ n) :
    xor x (k.take n) = xor x k := by
  unfold xor
  conv_lhs => rw [← List.take_of_length_le h]
  rw [← List.take_zipWith, List.take_of_length_le]
  rw [List.length_zipWith]
  omega

end Bytes
