import TfPsaCrypto.Builtin.Ccm
import TfPsaCrypto.Library.CounterCbcMac

/-!
# The counter of CCM

The counter block that `mbedtls_ccm_starts` prepares and `mbedtls_ccm_update`
increments, against the counter blocks of SP 800-38C.
-/

namespace TfPsaCrypto

open Bytes Blocks CounterCbcMac

def ValidNonce (nonce : ByteString) : Prop := 7 ≤ nonce.length ∧ nonce.length ≤ 13

variable {nonce : ByteString}

theorem ValidNonce.sizes (h : ValidNonce nonce) :
    2 ≤ lengthSize nonce ∧ lengthSize nonce ≤ 8 ∧ lengthSize nonce + nonce.length = 15 := by
  obtain ⟨hlo, hhi⟩ := h
  unfold lengthSize
  omega

theorem counterBlock_head (h : ValidNonce nonce) (v : Nat) {k : Fin 16}
    (hk : (k : Nat) < 16 - lengthSize nonce) :
    counterBlock nonce v k = ([UInt8.ofNat (lengthSize nonce - 1)] ++ nonce).getD k 0 := by
  obtain ⟨_, _, hsum⟩ := h.sizes
  unfold counterBlock Block.ofList
  rw [List.getD_append]
  simp only [List.length_append, List.length_singleton]
  omega

theorem counterBlock_tail (h : ValidNonce nonce) (v : Nat) {k : Fin 16}
    (hk : 16 - lengthSize nonce ≤ (k : Nat)) :
    counterBlock nonce v k = UInt8.ofNat (v / 256 ^ (15 - (k : Nat))) := by
  obtain ⟨_, _, hsum⟩ := h.sizes
  have hlen : ([UInt8.ofNat (lengthSize nonce - 1)] ++ nonce).length =
      16 - lengthSize nonce := by
    simp only [List.length_append, List.length_singleton]
    omega
  unfold counterBlock Block.ofList
  rw [List.getD_append_right _ _ _ _ (by omega), hlen, getD_toBE (by omega)]
  congr 3
  omega

theorem starts_counterBlock (h : ValidNonce nonce) :
    ((Block.zero.store 0 [UInt8.ofNat (lengthSize nonce - 1)]).store 1 nonce).store 15 [1] =
      counterBlock nonce 1 := by
  obtain ⟨hlo, _, hsum⟩ := h.sizes
  funext k
  by_cases hk : (k : Nat) < 16 - lengthSize nonce
  · rw [counterBlock_head h _ hk]
    unfold Block.store
    rw [if_neg (by omega)]
    by_cases hzero : (k : Nat) = 0
    · simp [hzero]
    · obtain ⟨i, hi⟩ := Nat.exists_eq_succ_of_ne_zero hzero
      rw [if_pos (by omega), hi]
      rfl
  · rw [counterBlock_tail h _ (by omega)]
    unfold Block.store
    by_cases hlast : (k : Nat) = 15
    · simp [hlast]
    · have hpow : 256 ^ 1 ≤ 256 ^ (15 - (k : Nat)) := Nat.pow_le_pow_right (by omega) (by omega)
      rw [Nat.div_eq_of_lt (by omega), if_neg (by simp only [List.length_singleton]; omega),
        if_neg (by omega), if_neg (by simp only [List.length_singleton]; omega)]
      rfl

theorem finish_counterBlock (h : ValidNonce nonce) (v : Nat) :
    (counterBlock nonce v).store (16 - lengthSize nonce) (List.replicate (lengthSize nonce) 0) =
      counterBlock nonce 0 := by
  funext k
  unfold Block.store
  by_cases hk : (k : Nat) < 16 - lengthSize nonce
  · rw [if_neg (by omega), counterBlock_head h _ hk, counterBlock_head h _ hk]
  · rw [if_pos (by simp only [List.length_replicate]; omega), counterBlock_tail h _ (by omega),
      Nat.zero_div]
    simp

/-! ## Carries -/

theorem div_succ_of_carry {v i : Nat} (h : (v + 1) % 256 ^ i = 0) :
    (v + 1) / 256 ^ i = v / 256 ^ i + 1 := by
  obtain ⟨k, hk⟩ := Nat.dvd_of_mod_eq_zero h
  have hpos : 0 < 256 ^ i := Nat.pow_pos (by omega)
  have hk0 : k ≠ 0 := by
    rintro rfl
    omega
  obtain ⟨m, rfl⟩ := Nat.exists_eq_succ_of_ne_zero hk0
  have hv : v / 256 ^ i = m := by
    apply Nat.div_eq_of_lt_le
    · rw [Nat.mul_succ, Nat.mul_comm] at hk
      omega
    · rw [Nat.succ_mul, Nat.mul_comm]
      rw [Nat.mul_succ] at hk
      omega
  rw [hv, hk, Nat.mul_div_cancel_left _ hpos]

theorem div_succ_of_no_carry {v i j : Nat} (h : (v + 1) % 256 ^ i ≠ 0) (hj : i ≤ j) :
    (v + 1) / 256 ^ j = v / 256 ^ j := by
  have hdvd : 256 ^ i ∣ 256 ^ j := Nat.pow_dvd_pow 256 hj
  have hne : ¬ 256 ^ j ∣ v + 1 := by
    intro hdiv
    exact h (Nat.mod_eq_zero_of_dvd (Nat.dvd_trans hdvd hdiv))
  exact Nat.succ_div_of_not_dvd hne

theorem byte_succ_of_carry {v i : Nat} (h : (v + 1) % 256 ^ i = 0) :
    UInt8.ofNat ((v + 1) / 256 ^ i) = UInt8.ofNat (v / 256 ^ i) + 1 := by
  rw [div_succ_of_carry h, UInt8.ofNat_add]
  rfl

/-! ## The increment -/

theorem ccmIncrement_spec (h : ValidNonce nonce) (v : Nat) :
    ∀ left i ctr, i + left = lengthSize nonce → (v + 1) % 256 ^ i = 0 →
      (∀ k : Fin 16, ctr k =
        if 15 - (k : Nat) < i then counterBlock nonce (v + 1) k else counterBlock nonce v k) →
      ccmIncrement ctr i left = counterBlock nonce (v + 1) := by
  obtain ⟨_, hq, _⟩ := h.sizes
  -- the bytes before the counter do not depend on the number
  have hhead : ∀ k : Fin 16, (k : Nat) < 16 - lengthSize nonce →
      counterBlock nonce v k = counterBlock nonce (v + 1) k := by
    intro k hk
    rw [counterBlock_head h _ hk, counterBlock_head h _ hk]
  intro left
  induction left with
  | zero =>
    intro i ctr hi _ hctr
    funext k
    rw [ccmIncrement, hctr k]
    split
    · rfl
    · exact hhead k (by omega)
  | succ left ih =>
    intro i ctr hi hcarry hctr
    have hval : (Fin.ofNat 16 (15 - i) : Nat) = 15 - i := by
      rw [Fin.val_ofNat]
      omega
    have hbyte : ctr (Fin.ofNat 16 (15 - i)) + 1 =
        counterBlock nonce (v + 1) (Fin.ofNat 16 (15 - i)) := by
      rw [hctr, if_neg (by rw [hval]; omega), counterBlock_tail h _ (by rw [hval]; omega),
        counterBlock_tail h _ (by rw [hval]; omega), hval]
      have hi' : 15 - (15 - i) = i := by omega
      rw [hi', byte_succ_of_carry hcarry]
    have hstore : ∀ k : Fin 16, (ctr.store (15 - i)
          [ctr (Fin.ofNat 16 (15 - i)) + 1]) k =
        if 15 - (k : Nat) < i + 1 then counterBlock nonce (v + 1) k
        else counterBlock nonce v k := by
      intro k
      unfold Block.store
      by_cases hk : (k : Nat) = 15 - i
      · have hkey : k = Fin.ofNat 16 (15 - i) := Fin.ext (by rw [hval, hk])
        rw [if_pos (by simp [hk]), if_pos (by omega), hbyte, ← hkey]
        simp [hk]
      · rw [if_neg (by simp only [List.length_singleton]; omega), hctr k]
        simp only [show (15 - (k : Nat) < i) ↔ (15 - (k : Nat) < i + 1) by omega]
    rw [ccmIncrement]
    split
    · next hne =>
      -- no carry: the bytes above stay as they are
      rw [hbyte, counterBlock_tail h _ (by rw [hval]; omega), hval] at hne
      have hnocarry : (v + 1) % 256 ^ (i + 1) ≠ 0 := by
        intro hzero
        apply hne
        have hi' : 15 - (15 - i) = i := by omega
        rw [hi']
        obtain ⟨m, hm⟩ := Nat.dvd_of_mod_eq_zero hzero
        rw [hm, Nat.pow_succ, Nat.mul_assoc, Nat.mul_div_cancel_left _ (Nat.pow_pos (by omega))]
        simp
      funext k
      rw [hstore k]
      split
      · rfl
      next hk =>
      by_cases hk' : (k : Nat) < 16 - lengthSize nonce
      · exact hhead k hk'
      · rw [counterBlock_tail h _ (by omega), counterBlock_tail h _ (by omega),
          div_succ_of_no_carry hnocarry (by omega)]
    · next heq =>
      rw [not_not, hbyte, counterBlock_tail h _ (by rw [hval]; omega), hval] at heq
      apply ih (i + 1) _ (by omega) _ hstore
      have hi' : 15 - (15 - i) = i := by omega
      rw [hi'] at heq
      have hmod : (v + 1) / 256 ^ i % 256 = 0 := by
        have hnat := congrArg UInt8.toNat heq
        simpa using hnat
      rw [Nat.pow_succ, Nat.mod_mul, hcarry, hmod, Nat.mul_zero]

theorem ccmIncrement_counterBlock (h : ValidNonce nonce) (v : Nat) :
    ccmIncrement (counterBlock nonce v) 0 (lengthSize nonce) = counterBlock nonce (v + 1) :=
  ccmIncrement_spec h v _ 0 _ (Nat.zero_add _) (by simp [Nat.mod_one]) (by simp)

theorem counterBlock_inj (h : ValidNonce nonce) {v w : Nat}
    (heq : counterBlock nonce v = counterBlock nonce w) :
    v % 256 ^ lengthSize nonce = w % 256 ^ lengthSize nonce := by
  obtain ⟨_, _, hsum⟩ := h.sizes
  have hbytes : toLE (lengthSize nonce) v = toLE (lengthSize nonce) w := by
    apply List.ext_getElem
    · simp
    intro i hi _
    rw [length_toLE] at hi
    have hbyte := congrFun heq ⟨15 - i, by omega⟩
    have hi' : 15 - (15 - i) = i := by omega
    rw [counterBlock_tail h _ (by show _ ≤ 15 - i; omega),
      counterBlock_tail h _ (by show _ ≤ 15 - i; omega)] at hbyte
    rw [hi'] at hbyte
    rw [← List.getD_eq_getElem _ 0, ← List.getD_eq_getElem _ 0, getD_toLE hi, getD_toLE hi, hbyte]
  rw [← ofLE_toLE, ← ofLE_toLE, hbytes]

end TfPsaCrypto
