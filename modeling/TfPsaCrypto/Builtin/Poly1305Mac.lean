import TfPsaCrypto.Builtin.Poly1305

/-!
# Poly1305 computes the authenticator

One block is one step of the standard's accumulator modulo `2^130 - 5`, however the message
arrives.
-/

namespace TfPsaCrypto

open Bytes Poly1305

/-! ## Values -/

def Words4.value (w : Words4) : Nat := w.w0 + w.w1 * 2 ^ 32 + w.w2 * 2 ^ 64 + w.w3 * 2 ^ 96

def Words5.value (w : Words5) : Nat :=
  w.w0 + w.w1 * 2 ^ 32 + w.w2 * 2 ^ 64 + w.w3 * 2 ^ 96 + w.w4 * 2 ^ 128

/-- Words of 32 bits, and a last one of at most `top`. -/
structure Words5.Bounded (top : Nat) (w : Words5) : Prop where
  w0 : w.w0 < 2 ^ 32
  w1 : w.w1 < 2 ^ 32
  w2 : w.w2 < 2 ^ 32
  w3 : w.w3 < 2 ^ 32
  w4 : w.w4 ≤ top

structure Words4.Clamped (r : Words4) : Prop where
  w0 : r.w0 < 2 ^ 28
  w1 : r.w1 < 2 ^ 28 ∧ r.w1 % 4 = 0
  w2 : r.w2 < 2 ^ 28 ∧ r.w2 % 4 = 0
  w3 : r.w3 < 2 ^ 28 ∧ r.w3 % 4 = 0

theorem getUint32LE_lt {data : ByteString} {off : Nat} : getUint32LE data off < 2 ^ 32 := by
  have hlt := ofLE_lt (slice data off 4)
  have hlen := length_slice data off 4
  have hpow : 256 ^ (slice data off 4).length ≤ 256 ^ 4 :=
    Nat.pow_le_pow_right (by omega) (by omega)
  exact Nat.lt_of_lt_of_le hlt hpow

theorem ofLE_words {data : ByteString} (hlen : 16 ≤ data.length) :
    ofLE (data.take 16) = getUint32LE data 0 + getUint32LE data 4 * 2 ^ 32 +
      getUint32LE data 8 * 2 ^ 64 + getUint32LE data 12 * 2 ^ 96 := by
  have hsplit : data.take 16 =
      slice data 0 4 ++ (slice data 4 4 ++ (slice data 8 4 ++ slice data 12 4)) := by
    have h₁ : data.take 16 = data.take 4 ++ (data.drop 4).take 12 :=
      List.take_add (i := 4) (j := 12)
    have h₂ : (data.drop 4).take 12 = (data.drop 4).take 4 ++ ((data.drop 4).drop 4).take 8 :=
      List.take_add (i := 4) (j := 8)
    have h₃ : (data.drop 8).take 8 = (data.drop 8).take 4 ++ ((data.drop 8).drop 4).take 4 :=
      List.take_add (i := 4) (j := 4)
    rw [h₁, h₂, List.drop_drop, h₃, List.drop_drop]
    rfl
  have hslice : ∀ off, off + 4 ≤ data.length → (slice data off 4).length = 4 := by
    intro off hoff
    rw [length_slice]
    omega
  rw [hsplit, ofLE_append, ofLE_append, ofLE_append, hslice 0 (by omega), hslice 4 (by omega),
    hslice 8 (by omega)]
  unfold getUint32LE
  ring

/-! ## One block -/

variable {acc : Words5} {r : Words4}

theorem poly1305AddBlock_spec (hacc : acc.Bounded 4) {input : ByteString}
    (hlen : 16 ≤ input.length) {needsPadding : Nat} (hpad : needsPadding ≤ 1) :
    (poly1305AddBlock acc input needsPadding).Bounded 6 ∧
      (poly1305AddBlock acc input needsPadding).value =
        acc.value + (ofLE (input.take 16) + needsPadding * 2 ^ 128) := by
  obtain ⟨h0, h1, h2, h3, h4⟩ := hacc
  have b0 := @getUint32LE_lt input 0
  have b1 := @getUint32LE_lt input 4
  have b2 := @getUint32LE_lt input 8
  have b3 := @getUint32LE_lt input 12
  rw [ofLE_words hlen]
  unfold poly1305AddBlock Words5.value
  generalize getUint32LE input 0 = i0 at *
  generalize getUint32LE input 4 = i1 at *
  generalize getUint32LE input 8 = i2 at *
  generalize getUint32LE input 12 = i3 at *
  simp only [u32, u64]
  constructor
  · constructor <;> simp only <;> omega
  · omega

/-- The quotient left out where `r_j * 2^128` becomes `5 * (r_j / 4)`. -/
def poly1305Quotient (r : Words4) (acc : Words5) : Nat :=
  (acc.w1 * (r.w3 / 4) + acc.w2 * (r.w2 / 4) + acc.w3 * (r.w1 / 4)) +
    (acc.w2 * (r.w3 / 4) + acc.w3 * (r.w2 / 4) + acc.w4 * (r.w1 / 4)) * 2 ^ 32 +
    (acc.w3 * (r.w3 / 4) + acc.w4 * (r.w2 / 4)) * 2 ^ 64 + acc.w4 * (r.w3 / 4) * 2 ^ 96

theorem mul64_eq {a b : Nat} {n : Nat} (ha : a < 2 ^ 32) (hb : b < n) (hn : n ≤ 2 ^ 32) :
    mul64 a b = a * b ∧ a * b ≤ 2 ^ 32 * n := by
  have hle : a * b ≤ 2 ^ 32 * n := Nat.mul_le_mul (Nat.le_of_lt ha) (Nat.le_of_lt hb)
  have hlt : a * b < 2 ^ 64 := by
    calc a * b < 2 ^ 32 * 2 ^ 32 := Nat.mul_lt_mul_of_lt_of_le ha (by omega) (by omega)
      _ = 2 ^ 64 := by norm_num
  exact ⟨Nat.mod_eq_of_lt hlt, hle⟩

theorem u64_add4 {a b c d : Nat} (h : a + b + c + d < 2 ^ 64) :
    u64 (u64 (u64 (a + b) + c) + d) = a + b + c + d := by
  unfold u64
  omega

theorem u64_add5 {a b c d e : Nat} (h : a + b + c + d + e < 2 ^ 64) :
    u64 (u64 (u64 (u64 (a + b) + c) + d) + e) = a + b + c + d + e := by
  unfold u64
  omega

theorem poly1305Multiply_eq (hr : r.Clamped) (hacc : acc.Bounded 6) :
    poly1305Multiply r acc =
      { w0 := acc.w0 * r.w0 + acc.w1 * (5 * (r.w3 / 4)) + acc.w2 * (5 * (r.w2 / 4)) +
          acc.w3 * (5 * (r.w1 / 4))
        w1 := acc.w0 * r.w1 + acc.w1 * r.w0 + acc.w2 * (5 * (r.w3 / 4)) +
          acc.w3 * (5 * (r.w2 / 4)) + acc.w4 * (5 * (r.w1 / 4))
        w2 := acc.w0 * r.w2 + acc.w1 * r.w1 + acc.w2 * r.w0 + acc.w3 * (5 * (r.w3 / 4)) +
          acc.w4 * (5 * (r.w2 / 4))
        w3 := acc.w0 * r.w3 + acc.w1 * r.w2 + acc.w2 * r.w1 + acc.w3 * r.w0 +
          acc.w4 * (5 * (r.w3 / 4))
        w4 := acc.w4 * r.w0 } ∧
      (poly1305Multiply r acc).w0 < 7 * 2 ^ 60 ∧ (poly1305Multiply r acc).w1 < 7 * 2 ^ 60 ∧
      (poly1305Multiply r acc).w2 < 7 * 2 ^ 60 ∧ (poly1305Multiply r acc).w3 < 7 * 2 ^ 60 ∧
      (poly1305Multiply r acc).w4 ≤ 6 * 2 ^ 28 := by
  obtain ⟨a0, a1, a2, a3, a4⟩ := acc
  obtain ⟨r0, r1, r2, r3⟩ := r
  obtain ⟨h0, h1, h2, h3, h4⟩ := hacc
  obtain ⟨k0, ⟨k1, m1⟩, ⟨k2, m2⟩, ⟨k3, m3⟩⟩ := hr
  simp only at h0 h1 h2 h3 h4 k0 k1 m1 k2 m2 k3 m3
  have s1 : u32 (r1 + r1 / 4) = 5 * (r1 / 4) := by
    unfold u32
    omega
  have s2 : u32 (r2 + r2 / 4) = 5 * (r2 / 4) := by
    unfold u32
    omega
  have s3 : u32 (r3 + r3 / 4) = 5 * (r3 / 4) := by
    unfold u32
    omega
  have g1 : 5 * (r1 / 4) < 5 * 2 ^ 26 := by omega
  have g2 : 5 * (r2 / 4) < 5 * 2 ^ 26 := by omega
  have g3 : 5 * (r3 / 4) < 5 * 2 ^ 26 := by omega
  have h4' : a4 < 2 ^ 32 := by omega
  have hr0 : ∀ {a}, a < 2 ^ 32 → mul64 a r0 = a * r0 ∧ a * r0 ≤ 2 ^ 32 * 2 ^ 28 :=
    fun ha => mul64_eq ha k0 (by omega)
  have hr1 : ∀ {a}, a < 2 ^ 32 → mul64 a r1 = a * r1 ∧ a * r1 ≤ 2 ^ 32 * 2 ^ 28 :=
    fun ha => mul64_eq ha k1 (by omega)
  have hr2 : ∀ {a}, a < 2 ^ 32 → mul64 a r2 = a * r2 ∧ a * r2 ≤ 2 ^ 32 * 2 ^ 28 :=
    fun ha => mul64_eq ha k2 (by omega)
  have hr3 : ∀ {a}, a < 2 ^ 32 → mul64 a r3 = a * r3 ∧ a * r3 ≤ 2 ^ 32 * 2 ^ 28 :=
    fun ha => mul64_eq ha k3 (by omega)
  have hs1 : ∀ {a}, a < 2 ^ 32 → mul64 a (5 * (r1 / 4)) = a * (5 * (r1 / 4)) ∧
      a * (5 * (r1 / 4)) ≤ 2 ^ 32 * (5 * 2 ^ 26) :=
    fun ha => mul64_eq ha g1 (by omega)
  have hs2 : ∀ {a}, a < 2 ^ 32 → mul64 a (5 * (r2 / 4)) = a * (5 * (r2 / 4)) ∧
      a * (5 * (r2 / 4)) ≤ 2 ^ 32 * (5 * 2 ^ 26) :=
    fun ha => mul64_eq ha g2 (by omega)
  have hs3 : ∀ {a}, a < 2 ^ 32 → mul64 a (5 * (r3 / 4)) = a * (5 * (r3 / 4)) ∧
      a * (5 * (r3 / 4)) ≤ 2 ^ 32 * (5 * 2 ^ 26) :=
    fun ha => mul64_eq ha g3 (by omega)
  have hlast : a4 * r0 ≤ 6 * 2 ^ 28 := Nat.mul_le_mul h4 (Nat.le_of_lt k0)
  -- the sums of the products stay below 2^63
  have hd0 : a0 * r0 + a1 * (5 * (r3 / 4)) + a2 * (5 * (r2 / 4)) + a3 * (5 * (r1 / 4)) <
      7 * 2 ^ 60 := by
    have := (hr0 h0).2
    have := (hs3 h1).2
    have := (hs2 h2).2
    have := (hs1 h3).2
    omega
  have hd1 : a0 * r1 + a1 * r0 + a2 * (5 * (r3 / 4)) + a3 * (5 * (r2 / 4)) +
      a4 * (5 * (r1 / 4)) < 7 * 2 ^ 60 := by
    have := (hr1 h0).2
    have := (hr0 h1).2
    have := (hs3 h2).2
    have := (hs2 h3).2
    have := (hs1 h4').2
    omega
  have hd2 : a0 * r2 + a1 * r1 + a2 * r0 + a3 * (5 * (r3 / 4)) + a4 * (5 * (r2 / 4)) <
      7 * 2 ^ 60 := by
    have := (hr2 h0).2
    have := (hr1 h1).2
    have := (hr0 h2).2
    have := (hs3 h3).2
    have := (hs2 h4').2
    omega
  have hd3 : a0 * r3 + a1 * r2 + a2 * r1 + a3 * r0 + a4 * (5 * (r3 / 4)) < 7 * 2 ^ 60 := by
    have := (hr3 h0).2
    have := (hr2 h1).2
    have := (hr1 h2).2
    have := (hr0 h3).2
    have := (hs3 h4').2
    omega
  have heq : poly1305Multiply ⟨r0, r1, r2, r3⟩ ⟨a0, a1, a2, a3, a4⟩ =
      { w0 := a0 * r0 + a1 * (5 * (r3 / 4)) + a2 * (5 * (r2 / 4)) + a3 * (5 * (r1 / 4))
        w1 := a0 * r1 + a1 * r0 + a2 * (5 * (r3 / 4)) + a3 * (5 * (r2 / 4)) + a4 * (5 * (r1 / 4))
        w2 := a0 * r2 + a1 * r1 + a2 * r0 + a3 * (5 * (r3 / 4)) + a4 * (5 * (r2 / 4))
        w3 := a0 * r3 + a1 * r2 + a2 * r1 + a3 * r0 + a4 * (5 * (r3 / 4))
        w4 := a4 * r0 } := by
    unfold poly1305Multiply
    simp only [s1, s2, s3, (hr0 h0).1, (hr0 h1).1, (hr0 h2).1, (hr0 h3).1, (hr1 h0).1, (hr1 h1).1,
      (hr1 h2).1, (hr2 h0).1, (hr2 h1).1, (hr3 h0).1, (hs1 h3).1, (hs1 h4').1, (hs2 h2).1,
      (hs2 h3).1, (hs2 h4').1, (hs3 h1).1, (hs3 h2).1, (hs3 h3).1, (hs3 h4').1]
    rw [u64_add4 (by omega), u64_add5 (by omega), u64_add5 (by omega), u64_add5 (by omega), u32,
      Nat.mod_eq_of_lt (by omega)]
  refine ⟨heq, ?_⟩
  rw [heq]
  exact ⟨hd0, hd1, hd2, hd3, hlast⟩

theorem poly1305Multiply_value (hr : r.Clamped) (hacc : acc.Bounded 6) :
    (poly1305Multiply r acc).value + prime * poly1305Quotient r acc = acc.value * r.value := by
  rw [(poly1305Multiply_eq hr hacc).1]
  obtain ⟨r0, r1, r2, r3⟩ := r
  obtain ⟨_, ⟨_, m1⟩, ⟨_, m2⟩, ⟨_, m3⟩⟩ := hr
  obtain ⟨q1, rfl⟩ := Nat.dvd_of_mod_eq_zero m1
  obtain ⟨q2, rfl⟩ := Nat.dvd_of_mod_eq_zero m2
  obtain ⟨q3, rfl⟩ := Nat.dvd_of_mod_eq_zero m3
  have hprime : prime = 1361129467683753853853498429727072845819 := by decide
  unfold Words5.value Words4.value poly1305Quotient
  simp only [hprime, Nat.mul_div_cancel_left _ (by omega : 0 < 4)]
  ring

theorem and_not_three (x : Nat) : u32 x &&& 0xFFFFFFFC = 4 * (u32 x / 4) := by
  have hx : u32 x < 2 ^ 32 := Nat.mod_lt _ (by omega)
  generalize u32 x = x at hx ⊢
  have hdiv : (x &&& 0xFFFFFFFC) / 2 ^ 2 = x / 4 := by
    rw [Nat.and_div_two_pow, show (0xFFFFFFFC : Nat) / 2 ^ 2 = 2 ^ 30 - 1 from rfl,
      Nat.and_two_pow_sub_one_eq_mod]
    omega
  have hmod : (x &&& 0xFFFFFFFC) % 2 ^ 2 = 0 := by
    rw [Nat.and_mod_two_pow]
    exact Nat.and_zero _
  omega

theorem poly1305Reduce_spec {d : Words5} (h0 : d.w0 < 7 * 2 ^ 60) (h1 : d.w1 < 7 * 2 ^ 60)
    (h2 : d.w2 < 7 * 2 ^ 60) (h3 : d.w3 < 7 * 2 ^ 60) (h4 : d.w4 ≤ 6 * 2 ^ 28) :
    (poly1305Reduce d).Bounded 4 ∧ (poly1305Reduce d).value % prime = d.value % prime := by
  have hthree : ∀ x : Nat, x &&& 3 = x % 4 := fun x => Nat.and_two_pow_sub_one_eq_mod x 2
  obtain ⟨w0, w1, w2, w3, w4⟩ := d
  simp only at h0 h1 h2 h3 h4
  have hvalue : (poly1305Reduce ⟨w0, w1, w2, w3, w4⟩).Bounded 4 ∧
      ∃ q, (poly1305Reduce ⟨w0, w1, w2, w3, w4⟩).value + prime * q =
        (⟨w0, w1, w2, w3, w4⟩ : Words5).value := by
    unfold poly1305Reduce
    simp only [and_not_three, hthree]
    -- the carries of the product
    generalize hd1 : u64 (w1 + w0 / 2 ^ 32) = d1
    generalize hd2 : u64 (w2 + d1 / 2 ^ 32) = d2
    generalize hd3 : u64 (w3 + d2 / 2 ^ 32) = d3
    generalize hacc4 : u32 (u32 (d3 / 2 ^ 32) + w4) = acc4
    unfold u64 at hd1 hd2 hd3
    unfold u32 at hacc4
    have e1 : d1 = w1 + w0 / 2 ^ 32 := by omega
    have e2 : d2 = w2 + d1 / 2 ^ 32 := by omega
    have e3 : d3 = w3 + d2 / 2 ^ 32 := by omega
    have e4 : acc4 = d3 / 2 ^ 32 + w4 := by omega
    clear hd1 hd2 hd3 hacc4
    have hlt : acc4 < 2 ^ 32 := by omega
    -- the carries of the reduction
    generalize hf0 : u64 (u32 w0 + acc4 / 4 + 4 * (acc4 / 4)) = f0
    generalize hf1 : u64 (u32 d1 + f0 / 2 ^ 32) = f1
    generalize hf2 : u64 (u32 d2 + f1 / 2 ^ 32) = f2
    generalize hf3 : u64 (u32 d3 + f2 / 2 ^ 32) = f3
    unfold u64 u32 at hf0 hf1 hf2 hf3
    have c0 : f0 = w0 % 2 ^ 32 + 5 * (acc4 / 4) := by omega
    have c1 : f1 = d1 % 2 ^ 32 + f0 / 2 ^ 32 := by omega
    have c2 : f2 = d2 % 2 ^ 32 + f1 / 2 ^ 32 := by omega
    have c3 : f3 = d3 % 2 ^ 32 + f2 / 2 ^ 32 := by omega
    clear hf0 hf1 hf2 hf3
    have b0 : f0 / 2 ^ 32 ≤ 2 := by omega
    have b1 : f1 / 2 ^ 32 ≤ 1 := by omega
    have b2 : f2 / 2 ^ 32 ≤ 1 := by omega
    have b3 : f3 / 2 ^ 32 ≤ 1 := by omega
    have htop : (acc4 % 4 + f3 / 2 ^ 32) % 2 ^ 64 % 2 ^ 32 = acc4 % 4 + f3 / 2 ^ 32 := by omega
    have hprime : prime = 1361129467683753853853498429727072845819 := by decide
    unfold u64 u32
    rw [htop]
    refine ⟨⟨?_, ?_, ?_, ?_, ?_⟩, acc4 / 4, ?_⟩
    · exact Nat.mod_lt _ (by omega)
    · exact Nat.mod_lt _ (by omega)
    · exact Nat.mod_lt _ (by omega)
    · exact Nat.mod_lt _ (by omega)
    · simp only
      omega
    unfold Words5.value
    simp only [hprime]
    -- only the equations are needed
    have k0 := Nat.div_add_mod w0 (2 ^ 32)
    have k1 := Nat.div_add_mod d1 (2 ^ 32)
    have k2 := Nat.div_add_mod d2 (2 ^ 32)
    have k3 := Nat.div_add_mod d3 (2 ^ 32)
    have k4 := Nat.div_add_mod acc4 4
    have l0 := Nat.div_add_mod f0 (2 ^ 32)
    have l1 := Nat.div_add_mod f1 (2 ^ 32)
    have l2 := Nat.div_add_mod f2 (2 ^ 32)
    have l3 := Nat.div_add_mod f3 (2 ^ 32)
    clear h0 h1 h2 h3 h4 hlt b0 b1 b2 b3 htop
    generalize w0 % 2 ^ 32 = w0m at *
    generalize w0 / 2 ^ 32 = w0d at *
    generalize d1 % 2 ^ 32 = d1m at *
    generalize d1 / 2 ^ 32 = d1d at *
    generalize d2 % 2 ^ 32 = d2m at *
    generalize d2 / 2 ^ 32 = d2d at *
    generalize d3 % 2 ^ 32 = d3m at *
    generalize d3 / 2 ^ 32 = d3d at *
    generalize acc4 % 4 = am at *
    generalize acc4 / 4 = ad at *
    generalize f0 % 2 ^ 32 = f0m at *
    generalize f0 / 2 ^ 32 = f0d at *
    generalize f1 % 2 ^ 32 = f1m at *
    generalize f1 / 2 ^ 32 = f1d at *
    generalize f2 % 2 ^ 32 = f2m at *
    generalize f2 / 2 ^ 32 = f2d at *
    generalize f3 % 2 ^ 32 = f3m at *
    generalize f3 / 2 ^ 32 = f3d at *
    omega
  obtain ⟨hbounded, q, hq⟩ := hvalue
  refine ⟨hbounded, ?_⟩
  rw [← hq, Nat.add_mul_mod_self_left]

/-! ## The end -/

structure Words4.Words (s : Words4) : Prop where
  w0 : s.w0 < 2 ^ 32
  w1 : s.w1 < 2 ^ 32
  w2 : s.w2 < 2 ^ 32
  w3 : s.w3 < 2 ^ 32

theorem toLE_words {x0 x1 x2 x3 : Nat} (h0 : x0 < 2 ^ 32) (h1 : x1 < 2 ^ 32) (h2 : x2 < 2 ^ 32) :
    toLE 4 x0 ++ toLE 4 x1 ++ toLE 4 x2 ++ toLE 4 x3 =
      toLE 16 (x0 + x1 * 2 ^ 32 + x2 * 2 ^ 64 + x3 * 2 ^ 96) := by
  have hword : ∀ x y, x < 2 ^ 32 → toLE 4 (x + y * 2 ^ 32) = toLE 4 x := by
    intro x y hx
    rw [← toLE_mod 4 (x + y * 2 ^ 32)]
    congr 1
    omega
  have hstep : ∀ n x y, x < 2 ^ 32 → toLE (4 + n) (x + y * 2 ^ 32) = toLE 4 x ++ toLE n y := by
    intro n x y hx
    rw [toLE_add, hword x y hx]
    congr 2
    omega
  have h3 := hstep 12 x0 (x1 + (x2 + x3 * 2 ^ 32) * 2 ^ 32) h0
  have h2' := hstep 8 x1 (x2 + x3 * 2 ^ 32) h1
  have h1' := hstep 4 x2 x3 h2
  have hsum : x0 + x1 * 2 ^ 32 + x2 * 2 ^ 64 + x3 * 2 ^ 96 =
      x0 + (x1 + (x2 + x3 * 2 ^ 32) * 2 ^ 32) * 2 ^ 32 := by
    ring
  rw [hsum, h3, h2', h1', List.append_assoc, List.append_assoc]

theorem toLE_add_top (x k : Nat) : toLE 16 (x + k * 2 ^ 128) = toLE 16 x := by
  rw [← toLE_mod 16 (x + k * 2 ^ 128), show (256 : Nat) ^ 16 = 2 ^ 128 by norm_num,
    Nat.add_mul_mod_self_right, show (2 : Nat) ^ 128 = 256 ^ 16 by norm_num, toLE_mod]

theorem select_zero {x g : Nat} (hx : x < 2 ^ 32) :
    (x &&& (2 ^ 32 - 1 - 0)) ||| (g &&& 0) = x := by
  rw [Nat.sub_zero, Nat.and_zero, Nat.or_zero, Nat.and_two_pow_sub_one_eq_mod, Nat.mod_eq_of_lt hx]

theorem select_ones {x g : Nat} (hg : g < 2 ^ 32) :
    (x &&& (2 ^ 32 - 1 - (2 ^ 32 - 1))) ||| (g &&& (2 ^ 32 - 1)) = g := by
  rw [Nat.sub_self, Nat.and_zero, Nat.zero_or, Nat.and_two_pow_sub_one_eq_mod, Nat.mod_eq_of_lt hg]

def poly1305AddKey (acc0 acc1 acc2 acc3 : Nat) (s : Words4) : ByteString :=
  let d := u64 (acc0 + s.w0)
  let acc0 := u32 d
  let d := u64 (acc1 + s.w1 + d / 2 ^ 32)
  let acc1 := u32 d
  let d := u64 (acc2 + s.w2 + d / 2 ^ 32)
  let acc2 := u32 d
  let acc3 := u32 (acc3 + u32 (s.w3 + u32 (d / 2 ^ 32)))
  toLE 4 acc0 ++ toLE 4 acc1 ++ toLE 4 acc2 ++ toLE 4 acc3

theorem poly1305AddKey_eq {acc0 acc1 acc2 acc3 : Nat} {s : Words4} (h0 : acc0 < 2 ^ 32)
    (h1 : acc1 < 2 ^ 32) (h2 : acc2 < 2 ^ 32) (hs : s.Words) :
    poly1305AddKey acc0 acc1 acc2 acc3 s =
      toLE 16 (acc0 + acc1 * 2 ^ 32 + acc2 * 2 ^ 64 + acc3 * 2 ^ 96 + s.value) := by
  obtain ⟨s0, s1, s2, s3⟩ := s
  obtain ⟨k0, k1, k2, k3⟩ := hs
  simp only at k0 k1 k2 k3
  unfold poly1305AddKey
  simp only
  generalize hd0 : u64 (acc0 + s0) = d0
  generalize hd1 : u64 (acc1 + s1 + d0 / 2 ^ 32) = d1
  generalize hd2 : u64 (acc2 + s2 + d1 / 2 ^ 32) = d2
  generalize hd3 : acc3 + s3 + d2 / 2 ^ 32 = d3
  unfold u64 at hd0 hd1 hd2
  have e0 : d0 = acc0 + s0 := by omega
  have e1 : d1 = acc1 + s1 + d0 / 2 ^ 32 := by omega
  have e2 : d2 = acc2 + s2 + d1 / 2 ^ 32 := by omega
  have htop : u32 (acc3 + u32 (s3 + u32 (d2 / 2 ^ 32))) = d3 % 2 ^ 32 := by
    unfold u32
    omega
  have hword : ∀ x, u32 x < 2 ^ 32 := fun x => Nat.mod_lt x (by omega)
  rw [htop, toLE_words (hword _) (hword _) (hword _)]
  have hsum : u32 d0 + u32 d1 * 2 ^ 32 + u32 d2 * 2 ^ 64 + d3 % 2 ^ 32 * 2 ^ 96 +
      2 ^ 128 * (d3 / 2 ^ 32) =
        acc0 + acc1 * 2 ^ 32 + acc2 * 2 ^ 64 + acc3 * 2 ^ 96 +
          (⟨s0, s1, s2, s3⟩ : Words4).value := by
    have l0 := Nat.div_add_mod d0 (2 ^ 32)
    have l1 := Nat.div_add_mod d1 (2 ^ 32)
    have l2 := Nat.div_add_mod d2 (2 ^ 32)
    have l3 := Nat.div_add_mod d3 (2 ^ 32)
    clear hd0 hd1 hd2 htop h0 h1 h2 k0 k1 k2 k3
    unfold Words4.value u32
    simp only
    generalize d0 % 2 ^ 32 = d0m at *
    generalize d0 / 2 ^ 32 = d0d at *
    generalize d1 % 2 ^ 32 = d1m at *
    generalize d1 / 2 ^ 32 = d1d at *
    generalize d2 % 2 ^ 32 = d2m at *
    generalize d2 / 2 ^ 32 = d2d at *
    generalize d3 % 2 ^ 32 = d3m at *
    generalize d3 / 2 ^ 32 = d3d at *
    omega
  rw [← hsum, Nat.mul_comm (2 ^ 128), toLE_add_top]

theorem poly1305Carry_value {a0 a1 a2 a3 a4 d0 d1 d2 d3 : Nat} (e0 : d0 = a0 + 5)
    (e1 : d1 = a1 + d0 / 2 ^ 32) (e2 : d2 = a2 + d1 / 2 ^ 32) (e3 : d3 = a3 + d2 / 2 ^ 32) :
    (⟨a0, a1, a2, a3, a4⟩ : Words5).value + 5 =
      u32 d0 + u32 d1 * 2 ^ 32 + u32 d2 * 2 ^ 64 + u32 d3 * 2 ^ 96 +
        (a4 + d3 / 2 ^ 32) * 2 ^ 128 := by
  have l0 := Nat.div_add_mod d0 (2 ^ 32)
  have l1 := Nat.div_add_mod d1 (2 ^ 32)
  have l2 := Nat.div_add_mod d2 (2 ^ 32)
  have l3 := Nat.div_add_mod d3 (2 ^ 32)
  unfold Words5.value u32
  simp only
  generalize d0 % 2 ^ 32 = d0m at *
  generalize d0 / 2 ^ 32 = d0d at *
  generalize d1 % 2 ^ 32 = d1m at *
  generalize d1 / 2 ^ 32 = d1d at *
  generalize d2 % 2 ^ 32 = d2m at *
  generalize d2 / 2 ^ 32 = d2d at *
  generalize d3 % 2 ^ 32 = d3m at *
  generalize d3 / 2 ^ 32 = d3d at *
  omega

theorem poly1305ComputeMac_eq (hacc : acc.Bounded 4) {s : Words4} (hs : s.Words) :
    poly1305ComputeMac acc s = toLE 16 (acc.value % prime + s.value) := by
  obtain ⟨a0, a1, a2, a3, a4⟩ := acc
  obtain ⟨h0, h1, h2, h3, h4⟩ := hacc
  simp only at h0 h1 h2 h3 h4
  have hword : ∀ x, u32 x < 2 ^ 32 := fun x => Nat.mod_lt x (by omega)
  have hprime : prime = 2 ^ 130 - 5 := rfl
  unfold poly1305ComputeMac
  simp only
  generalize hd0 : u64 (a0 + 5) = d0
  generalize hd1 : u64 (a1 + d0 / 2 ^ 32) = d1
  generalize hd2 : u64 (a2 + d1 / 2 ^ 32) = d2
  generalize hd3 : u64 (a3 + d2 / 2 ^ 32) = d3
  generalize hg4 : u32 (a4 + u32 (d3 / 2 ^ 32)) = g4
  unfold u64 at hd0 hd1 hd2 hd3
  unfold u32 at hg4
  have e0 : d0 = a0 + 5 := by omega
  have e1 : d1 = a1 + d0 / 2 ^ 32 := by omega
  have e2 : d2 = a2 + d1 / 2 ^ 32 := by omega
  have e3 : d3 = a3 + d2 / 2 ^ 32 := by omega
  have b0 : d0 / 2 ^ 32 ≤ 1 := by omega
  have b1 : d1 / 2 ^ 32 ≤ 1 := by omega
  have b2 : d2 / 2 ^ 32 ≤ 1 := by omega
  have b3 : d3 / 2 ^ 32 ≤ 1 := by omega
  have e4 : g4 = a4 + d3 / 2 ^ 32 := by omega
  have hvalue := @poly1305Carry_value a0 a1 a2 a3 a4 d0 d1 d2 d3 e0 e1 e2 e3
  have g0 := hword d0
  have g1 := hword d1
  have g2 := hword d2
  have g3 := hword d3
  have hg4 : g4 ≤ 5 := by omega
  clear hd0 hd1 hd2 hd3 e0 e1 e2 e3 b0 b1 b2 b3
  by_cases hbit : g4 < 4
  · -- the value is below the prime
    have hmask : (2 ^ 32 - g4 / 4) % 2 ^ 32 = 0 := by omega
    have hlt : (⟨a0, a1, a2, a3, a4⟩ : Words5).value < prime := by
      rw [hprime]
      omega
    rw [hmask, select_zero h0, select_zero h1, select_zero h2, select_zero h3, Nat.mod_eq_of_lt hlt]
    have hsum : (⟨a0, a1, a2, a3, a4⟩ : Words5).value + s.value =
        (a0 + a1 * 2 ^ 32 + a2 * 2 ^ 64 + a3 * 2 ^ 96 + s.value) + a4 * 2 ^ 128 := by
      unfold Words5.value
      ring
    rw [hsum, toLE_add_top]
    exact poly1305AddKey_eq h0 h1 h2 hs
  · have hmask : (2 ^ 32 - g4 / 4) % 2 ^ 32 = 2 ^ 32 - 1 := by omega
    have hmod : (⟨a0, a1, a2, a3, a4⟩ : Words5).value % prime =
        (⟨a0, a1, a2, a3, a4⟩ : Words5).value - prime := by
      rw [Nat.mod_eq_sub_mod (by rw [hprime]; omega), Nat.mod_eq_of_lt (by rw [hprime]; omega)]
    rw [hmask, select_ones g0, select_ones g1, select_ones g2, select_ones g3, hmod]
    have hsum : (⟨a0, a1, a2, a3, a4⟩ : Words5).value - prime + s.value =
        (u32 d0 + u32 d1 * 2 ^ 32 + u32 d2 * 2 ^ 64 + u32 d3 * 2 ^ 96 + s.value) +
          (g4 - 4) * 2 ^ 128 := by
      rw [hprime]
      omega
    rw [hsum, toLE_add_top]
    exact poly1305AddKey_eq g0 g1 g2 hs

/-! ## Blocks in a row -/

theorem poly1305Block_spec (hr : r.Clamped) (hacc : acc.Bounded 4) {input : ByteString}
    (hlen : 16 ≤ input.length) {needsPadding : Nat} (hpad : needsPadding ≤ 1) :
    (poly1305Reduce (poly1305Multiply r (poly1305AddBlock acc input needsPadding))).Bounded 4 ∧
      (poly1305Reduce (poly1305Multiply r (poly1305AddBlock acc input needsPadding))).value %
          prime =
        (acc.value + (ofLE (input.take 16) + needsPadding * 2 ^ 128)) * r.value % prime := by
  obtain ⟨hadded, hsum⟩ := poly1305AddBlock_spec hacc hlen hpad
  obtain ⟨_, h0, h1, h2, h3, h4⟩ := poly1305Multiply_eq hr hadded
  obtain ⟨hbounded, hmod⟩ := poly1305Reduce_spec h0 h1 h2 h3 h4
  refine ⟨hbounded, ?_⟩
  rw [hmod, ← hsum, ← poly1305Multiply_value hr hadded, Nat.add_mul_mod_self_left]

theorem poly1305Process_spec (hr : r.Clamped) (nblocks : Nat) (hacc : acc.Bounded 4)
    {input : ByteString} (hlen : 16 * nblocks ≤ input.length) :
    (poly1305Process r 1 nblocks acc input).Bounded 4 ∧
      (poly1305Process r 1 nblocks acc input).value % prime =
        accumulate r.value acc.value (input.take (16 * nblocks)) % prime := by
  induction nblocks generalizing acc input with
  | zero => exact ⟨hacc, by rw [Nat.mul_zero, List.take_zero, accumulate_nil]; rfl⟩
  | succ nblocks ih =>
    have hfirst : 16 ≤ input.length := by omega
    have hdrop : 16 * nblocks ≤ (input.drop 16).length := by
      rw [List.length_drop]
      omega
    obtain ⟨hbounded, hblock⟩ := poly1305Block_spec hr hacc hfirst (Nat.le_refl 1)
    obtain ⟨hrest, hvalue⟩ := ih hbounded hdrop
    have hsplit : input.take (16 * (nblocks + 1)) =
        input.take 16 ++ (input.drop 16).take (16 * nblocks) := by
      rw [Nat.mul_succ, Nat.add_comm]
      exact List.take_add
    have hfull : (input.take 16).length = 16 := List.length_take_of_le (by omega)
    rw [poly1305Process]
    refine ⟨hrest, ?_⟩
    rw [hvalue, hsplit, accumulate_block hfull]
    apply accumulate_congr
    rw [hblock, Nat.one_mul, Nat.mod_mod]

/-! ## The context -/

theorem and_add_mul {a c k : Nat} (ha : a < 2 ^ k) (hc : c < 2 ^ k) (b d : Nat) :
    (a + b * 2 ^ k) &&& (c + d * 2 ^ k) = (a &&& c) + (b &&& d) * 2 ^ k := by
  have hdiv : ∀ {x}, x < 2 ^ k → ∀ y, (x + y * 2 ^ k) / 2 ^ k = y := by
    intro x hx y
    rw [Nat.add_mul_div_right x y (Nat.two_pow_pos k), Nat.div_eq_of_lt hx, Nat.zero_add]
  have hmod : ∀ {x}, x < 2 ^ k → ∀ y, (x + y * 2 ^ k) % 2 ^ k = x := by
    intro x hx y
    rw [Nat.add_mul_mod_self_right, Nat.mod_eq_of_lt hx]
  have hq := @Nat.and_div_two_pow (a + b * 2 ^ k) (c + d * 2 ^ k) k
  have hr := @Nat.and_mod_two_pow (a + b * 2 ^ k) (c + d * 2 ^ k) k
  rw [hdiv ha, hdiv hc] at hq
  rw [hmod ha, hmod hc] at hr
  have hsplit := Nat.div_add_mod ((a + b * 2 ^ k) &&& (c + d * 2 ^ k)) (2 ^ k)
  rw [hq, hr] at hsplit
  rw [← hsplit, Nat.add_comm, Nat.mul_comm]

theorem clamp_words {i0 i1 i2 : Nat} (h0 : i0 < 2 ^ 32) (h1 : i1 < 2 ^ 32) (h2 : i2 < 2 ^ 32)
    (i3 : Nat) :
    clamp (i0 + i1 * 2 ^ 32 + i2 * 2 ^ 64 + i3 * 2 ^ 96) =
      (i0 &&& 0x0FFFFFFF) + (i1 &&& 0x0FFFFFFC) * 2 ^ 32 + (i2 &&& 0x0FFFFFFC) * 2 ^ 64 +
        (i3 &&& 0x0FFFFFFC) * 2 ^ 96 := by
  have hmask : (0x0ffffffc0ffffffc0ffffffc0fffffff : Nat) =
      0x0FFFFFFF + (0x0FFFFFFC + (0x0FFFFFFC + 0x0FFFFFFC * 2 ^ 32) * 2 ^ 32) * 2 ^ 32 := by
    decide
  have hsum : i0 + i1 * 2 ^ 32 + i2 * 2 ^ 64 + i3 * 2 ^ 96 =
      i0 + (i1 + (i2 + i3 * 2 ^ 32) * 2 ^ 32) * 2 ^ 32 := by
    ring
  rw [clamp, hmask, hsum, and_add_mul h0 (by decide), and_add_mul h1 (by decide),
    and_add_mul h2 (by decide)]
  ring

theorem poly1305Starts_r {key : ByteString} (hlen : 32 ≤ key.length) :
    (mbedtlsPoly1305Starts key).r.Clamped ∧
      (mbedtlsPoly1305Starts key).r.value = clamp (ofLE (slice key 0 16)) := by
  have hfirst : ∀ x : Nat, (x &&& 0x0FFFFFFF) < 2 ^ 28 :=
    fun x => Nat.lt_of_le_of_lt Nat.and_le_right (by decide)
  have hword : ∀ x : Nat, (x &&& 0x0FFFFFFC) < 2 ^ 28 ∧ (x &&& 0x0FFFFFFC) % 4 = 0 := by
    intro x
    constructor
    · exact Nat.lt_of_le_of_lt Nat.and_le_right (by decide)
    · rw [show 4 = 2 ^ 2 from rfl, Nat.and_mod_two_pow]
      exact Nat.and_zero _
  constructor
  · exact ⟨hfirst _, hword _, hword _, hword _⟩
  · have hslice : slice key 0 16 = key.take 16 := rfl
    rw [hslice, @ofLE_words key (by omega),
      clamp_words getUint32LE_lt getUint32LE_lt getUint32LE_lt]
    rfl

theorem poly1305Starts_s {key : ByteString} (hlen : 32 ≤ key.length) :
    (mbedtlsPoly1305Starts key).s.Words ∧
      (mbedtlsPoly1305Starts key).s.value = ofLE (slice key 16 16) := by
  constructor
  · constructor <;> exact getUint32LE_lt
  have hwords := @ofLE_words (key.drop 16) (by rw [List.length_drop]; omega)
  have hget : ∀ off, getUint32LE (key.drop 16) off = getUint32LE key (16 + off) := by
    intro off
    unfold getUint32LE slice
    rw [List.drop_drop]
  rw [hget, hget, hget, hget] at hwords
  exact hwords.symm

structure Poly1305At (key data : ByteString) (ctx : MbedtlsPoly1305Context) : Prop where
  r : ctx.r = (mbedtlsPoly1305Starts key).r
  s : ctx.s = (mbedtlsPoly1305Starts key).s
  acc : ctx.acc.Bounded 4
  queue : ctx.queue.length = 16
  queueLen : ctx.queueLen < 16
  value : ∃ full, data = full ++ ctx.queue.take ctx.queueLen ∧ 16 ∣ full.length ∧
    ctx.acc.value % prime = accumulate ctx.r.value 0 full % prime

variable {key data : ByteString} {ctx : MbedtlsPoly1305Context}

theorem poly1305At_starts : Poly1305At key [] (mbedtlsPoly1305Starts key) := by
  have hzero : (⟨0, 0, 0, 0, 0⟩ : Words5).Bounded 4 := by
    constructor <;> decide
  have hvalue : (⟨0, 0, 0, 0, 0⟩ : Words5).value = 0 := by
    decide
  refine ⟨rfl, rfl, hzero, rfl, Nat.zero_lt_succ _, [], rfl, Nat.dvd_zero _, ?_⟩
  rw [accumulate_nil]
  exact congrArg (· % prime) hvalue

theorem Poly1305At.process (hkey : 32 ≤ key.length) (hat : Poly1305At key data ctx)
    {full : ByteString} (hfull : 16 ∣ full.length)
    (hvalue : ctx.acc.value % prime = accumulate ctx.r.value 0 full % prime) (nblocks : Nat)
    {input : ByteString} (hlen : 16 * nblocks ≤ input.length) :
    (poly1305Process ctx.r 1 nblocks ctx.acc input).Bounded 4 ∧
      (poly1305Process ctx.r 1 nblocks ctx.acc input).value % prime =
        accumulate ctx.r.value 0 (full ++ input.take (16 * nblocks)) % prime := by
  have hr : ctx.r.Clamped := by
    rw [hat.r]
    exact (poly1305Starts_r hkey).1
  obtain ⟨hbounded, hmod⟩ := poly1305Process_spec hr nblocks hat.acc hlen
  refine ⟨hbounded, ?_⟩
  rw [hmod, accumulate_append hfull]
  exact accumulate_congr hvalue _

theorem poly1305FillQueue_spec (hkey : 32 ≤ key.length) (hat : Poly1305At key data ctx)
    (input : ByteString) :
    ∃ used, input = used ++ (poly1305FillQueue ctx input).2 ∧
      Poly1305At key (data ++ used) (poly1305FillQueue ctx input).1 ∧
      ((poly1305FillQueue ctx input).2 ≠ [] → (poly1305FillQueue ctx input).1.queueLen = 0) := by
  obtain ⟨full, hdata, hfull, hvalue⟩ := hat.value
  have hqueue := hat.queue
  have hqueueLen := hat.queueLen
  unfold poly1305FillQueue
  split
  · next hboth =>
    simp only
    split
    · -- the queue does not fill up
      next hshort =>
        refine ⟨input, (List.append_nil _).symm, ?_, fun h => absurd rfl h⟩
        have hstored : (storeAt ctx.queue ctx.queueLen input).length = 16 := by
          rw [length_storeAt (by omega), hqueue]
        refine ⟨hat.r, hat.s, hat.acc, hstored, ?_, full, ?_, hfull, hvalue⟩
        · show ctx.queueLen + input.length < 16
          omega
        have htake : (ctx.queue.take ctx.queueLen).length = ctx.queueLen :=
          List.length_take_of_le (by omega)
        unfold storeAt
        rw [List.take_left' (by rw [List.length_append, htake]), hdata, List.append_assoc]
    · next hlong =>
      have htake : (ctx.queue.take ctx.queueLen).length = ctx.queueLen :=
        List.length_take_of_le (by omega)
      have hused : (input.take (16 - ctx.queueLen)).length = 16 - ctx.queueLen :=
        List.length_take_of_le (by omega)
      have hqueueEq : storeAt ctx.queue ctx.queueLen (input.take (16 - ctx.queueLen)) =
          ctx.queue.take ctx.queueLen ++ input.take (16 - ctx.queueLen) := by
        unfold storeAt
        rw [hused, List.drop_eq_nil_of_le (by omega), List.append_nil]
      have hblock : (ctx.queue.take ctx.queueLen ++
          input.take (16 - ctx.queueLen)).length = 16 := by
        rw [List.length_append, htake, hused]
        omega
      obtain ⟨hbounded, hmod⟩ := hat.process hkey hfull hvalue 1 (Nat.le_of_eq hblock.symm)
      refine ⟨input.take (16 - ctx.queueLen), (List.take_append_drop _ _).symm, ?_, fun _ => rfl⟩
      rw [hqueueEq]
      refine ⟨hat.r, hat.s, hbounded, hblock, by show 0 < 16; omega,
        full ++ (ctx.queue.take ctx.queueLen ++ input.take (16 - ctx.queueLen)), ?_, ?_, ?_⟩
      · rw [hdata]
        simp
      · rw [List.length_append, hblock]
        omega
      · rw [List.take_of_length_le (Nat.le_of_eq hblock)] at hmod
        exact hmod
  · next hnone =>
    refine ⟨[], rfl, by rw [List.append_nil]; exact hat, ?_⟩
    intro hne
    have := List.length_pos_iff.mpr hne
    have hnot : ¬ ctx.queueLen > 0 := fun h => hnone ⟨this, h⟩
    exact Nat.eq_zero_of_not_pos hnot

theorem poly1305Update_spec (hkey : 32 ≤ key.length) (hat : Poly1305At key data ctx)
    (input : ByteString) :
    Poly1305At key (data ++ input) (mbedtlsPoly1305Update ctx input) := by
  obtain ⟨used, hused, hfilled, hempty⟩ := poly1305FillQueue_spec hkey hat input
  unfold mbedtlsPoly1305Update
  simp only
  generalize (poly1305FillQueue ctx input).1 = ctx' at *
  generalize (poly1305FillQueue ctx input).2 = remaining at *
  subst hused
  rw [← List.append_assoc]
  generalize data ++ used = data at *
  by_cases hnil : remaining = []
  · subst hnil
    rw [List.append_nil]
    exact hfilled
  have hzero := hempty hnil
  obtain ⟨full, hdata, hfull, hvalue⟩ := hfilled.value
  rw [hzero, List.take_zero, List.append_nil] at hdata
  subst hdata
  have hqueue := hfilled.queue
  -- the full blocks of what is left
  have hblocks : Poly1305At key (data ++ remaining.take (16 * (remaining.length / 16)))
      (if remaining.length ≥ 16 then
        { ctx' with acc := poly1305Process ctx'.r 1 (remaining.length / 16) ctx'.acc remaining }
      else ctx') ∧
      (if remaining.length ≥ 16 then
        { ctx' with acc := poly1305Process ctx'.r 1 (remaining.length / 16) ctx'.acc remaining }
      else ctx').queueLen = 0 ∧
      (if remaining.length ≥ 16 then remaining.drop (remaining.length / 16 * 16)
      else remaining) = remaining.drop (16 * (remaining.length / 16)) := by
    by_cases hlong : remaining.length ≥ 16
    · rw [if_pos hlong, if_pos hlong]
      have hblocks : 16 * (remaining.length / 16) ≤ remaining.length := by omega
      obtain ⟨hbounded, hmod⟩ := hfilled.process hkey hfull hvalue (remaining.length / 16) hblocks
      refine ⟨⟨hfilled.r, hfilled.s, hbounded, hqueue, hfilled.queueLen,
        data ++ remaining.take (16 * (remaining.length / 16)), ?_, ?_, hmod⟩, hzero, ?_⟩
      · show _ = _ ++ ctx'.queue.take ctx'.queueLen
        rw [hzero, List.take_zero, List.append_nil]
      · rw [List.length_append, List.length_take]
        omega
      · rw [Nat.mul_comm]
    · rw [if_neg hlong, if_neg hlong, Nat.div_eq_of_lt (by omega), Nat.mul_zero, List.take_zero,
        List.append_nil]
      exact ⟨hfilled, hzero, rfl⟩
  obtain ⟨hat', hzero', hrest⟩ := hblocks
  simp only [hrest]
  generalize (if remaining.length ≥ 16 then
        { ctx' with acc := poly1305Process ctx'.r 1 (remaining.length / 16) ctx'.acc remaining }
      else ctx') = ctx'' at hat' hzero' ⊢
  have hlast : (remaining.drop (16 * (remaining.length / 16))).length < 16 := by
    rw [List.length_drop]
    omega
  have hsplit := List.take_append_drop (16 * (remaining.length / 16)) remaining
  generalize remaining.take (16 * (remaining.length / 16)) = blocks at *
  generalize remaining.drop (16 * (remaining.length / 16)) = last at *
  rw [← hsplit, ← List.append_assoc]
  split
  · obtain ⟨full', hdata', hfull', hvalue'⟩ := hat'.value
    rw [hzero', List.take_zero, List.append_nil] at hdata'
    subst hdata'
    have hqueue' := hat'.queue
    refine ⟨hat'.r, hat'.s, hat'.acc, ?_, hlast, data ++ blocks, ?_, hfull', hvalue'⟩
    · show (storeAt ctx''.queue 0 last).length = 16
      rw [length_storeAt (by omega), hqueue']
    · show _ = _ ++ (storeAt ctx''.queue 0 last).take last.length
      unfold storeAt
      rw [List.take_zero, List.nil_append, List.take_left' rfl]
  · next hnone =>
    have hempty' : last = [] := List.length_eq_zero_iff.mp (by omega)
    rw [hempty', List.append_nil]
    exact hat'

theorem poly1305Finish_spec (hkey : 32 ≤ key.length) (hat : Poly1305At key data ctx) :
    (mbedtlsPoly1305Finish ctx).2 = mac key data := by
  obtain ⟨hr, hrvalue⟩ := poly1305Starts_r hkey
  obtain ⟨hs, hsvalue⟩ := poly1305Starts_s hkey
  rw [← hat.r] at hr hrvalue
  rw [← hat.s] at hs hsvalue
  obtain ⟨full, hdata, hfull, hvalue⟩ := hat.value
  have hqueue := hat.queue
  have hqueueLen := hat.queueLen
  have hreduced : ∀ message, accumulate ctx.r.value 0 message % prime =
      accumulate ctx.r.value 0 message := by
    intro message
    by_cases hnil : message = []
    · subst hnil
      rw [accumulate_nil]
      rfl
    · exact Nat.mod_eq_of_lt (accumulate_lt hnil)
  unfold mbedtlsPoly1305Finish mac
  rw [← hrvalue, ← hsvalue]
  simp only
  split
  · next hpos =>
    have htake : (ctx.queue.take ctx.queueLen).length = ctx.queueLen :=
      List.length_take_of_le (by omega)
    generalize hrest : ctx.queue.take ctx.queueLen = rest at *
    -- the last block ends with a byte 1 and zeros
    have hblock : storeAt (storeAt ctx.queue ctx.queueLen [1]) (ctx.queueLen + 1)
        (List.replicate (16 - (ctx.queueLen + 1)) 0) =
          (rest ++ [1]) ++ List.replicate (16 - (ctx.queueLen + 1)) 0 := by
      have hfirst : (storeAt ctx.queue ctx.queueLen [1]).take (ctx.queueLen + 1) =
          rest ++ [1] := by
        unfold storeAt
        rw [hrest, List.take_left' (by rw [List.length_append, htake]; rfl)]
      have hlength : (storeAt ctx.queue ctx.queueLen [1]).length = 16 := by
        rw [length_storeAt (by rw [List.length_singleton]; omega), hqueue]
      rw [storeAt, hfirst, List.drop_eq_nil_of_le (by rw [List.length_replicate]; omega),
        List.append_nil]
    have hlength : ((rest ++ [1]) ++
        List.replicate (16 - (ctx.queueLen + 1)) (0 : UInt8)).length = 16 := by
      rw [List.length_append, List.length_append, List.length_replicate, htake,
        List.length_singleton]
      omega
    have hzeros : ofLE ((rest ++ [1]) ++ List.replicate (16 - (ctx.queueLen + 1)) 0) =
        ofLE (rest ++ [1]) := by
      have hzero := ofBE_replicate_zero (16 - (ctx.queueLen + 1)) []
      rw [List.append_nil, ofBE, List.reverse_replicate] at hzero
      rw [ofLE_append, hzero, ofBE_nil, Nat.mul_zero, Nat.add_zero]
    rw [hblock]
    obtain ⟨hbounded, hmod⟩ := poly1305Block_spec hr hat.acc (Nat.le_of_eq hlength.symm)
      (Nat.zero_le 1)
    rw [List.take_of_length_le (Nat.le_of_eq hlength), hzeros, Nat.zero_mul, Nat.add_zero] at hmod
    have hone : ∀ (acc : Words5) (block : ByteString), poly1305Process ctx.r 0 1 acc block =
        poly1305Reduce (poly1305Multiply ctx.r (poly1305AddBlock acc block 0)) :=
      fun _ _ => rfl
    have hne : rest ≠ [] := by
      intro hnil
      rw [hnil] at htake
      rw [← htake] at hpos
      exact absurd hpos (by decide)
    rw [hone, poly1305ComputeMac_eq hbounded hs, hmod, hdata, accumulate_append hfull,
      accumulate_last hne (by omega)]
    congr 2
    exact Nat.ModEq.mul_right _ (Nat.ModEq.add_right _ hvalue)
  · next hzero =>
    have hempty : ctx.queueLen = 0 := by omega
    rw [hempty, List.take_zero, List.append_nil] at hdata
    rw [poly1305ComputeMac_eq hat.acc hs, hvalue, hdata, hreduced]

end TfPsaCrypto
