import TfPsaCrypto.Utilities.ConstantTimeMasks

/-!
# Constant-time functions on buffers

The functions of `constant_time.c` on buffers, on a host with conditions of 64 bits.
-/

namespace TfPsaCrypto

open Bytes

/-! ## Words and tails -/

/-- How the host accesses words: whether it does without alignment, and the order of their
bytes. -/
structure Host where
  unaligned : Bool
  bigEndian : Bool

/-- `mbedtls_get_unaligned_uint64` or `mbedtls_get_unaligned_uint32`. -/
def Host.get (h : Host) (bs : ByteString) : Nat := if h.bigEndian then ofBE bs else ofLE bs

/-- `mbedtls_put_unaligned_uint64` or `mbedtls_put_unaligned_uint32`: `k` bytes. -/
def Host.put (h : Host) (k v : Nat) : ByteString := if h.bigEndian then toBE k v else toLE k v

theorem Host.put_get (h : Host) {k : Nat} {bs : ByteString} (hk : bs.length = k) :
    h.put k (h.get bs) = bs := by
  subst hk
  unfold put get
  cases h.bigEndian
  · exact toLE_ofLE bs
  · exact toBE_ofBE bs

theorem Host.put_zero (h : Host) (k : Nat) : h.put k 0 = List.replicate k 0 := by
  have hzero : h.get (List.replicate k 0) = 0 := by
    unfold get
    cases h.bigEndian
    · induction k with
      | zero => rfl
      | succ k ih => simpa [List.replicate_succ, ofLE] using ih
    · simpa using ofBE_replicate_zero k []
  rw [← hzero, h.put_get List.length_replicate]

theorem Host.get_lt (h : Host) (bs : ByteString) : h.get bs < 256 ^ bs.length := by
  unfold get
  cases h.bigEndian
  · exact ofLE_lt bs
  · exact ofBE_lt bs

/-- The loop over words of `k` bytes, where the host has them, and then over bytes. -/
def Host.wordLoop {α : Type} (h : Host) (k : Nat) (word : List α → ByteString) (byte : α → UInt8)
    (n : Nat) (xs : List α) : ByteString :=
  if 0 < k ∧ k ≤ n ∧ h.unaligned then
    word (xs.take k) ++ h.wordLoop k word byte (n - k) (xs.drop k)
  else
    (xs.take n).map byte
  termination_by n

theorem Host.wordLoop_eq {α : Type} {h : Host} {k : Nat} {word : List α → ByteString}
    {byte : α → UInt8} (hword : ∀ xs, xs.length = k → word xs = xs.map byte) {n : Nat}
    {xs : List α} (hn : n ≤ xs.length) :
    h.wordLoop k word byte n xs = (xs.take n).map byte := by
  induction n using Nat.strong_induction_on generalizing xs with
  | _ n ih =>
    unfold wordLoop
    split
    case isFalse => rfl
    case isTrue hk =>
      have hsplit : xs.take n = xs.take k ++ (xs.drop k).take (n - k) := by
        rw [← List.take_add, Nat.add_sub_cancel' hk.2.1]
      rw [hword _ (List.length_take_of_le (hk.2.1.trans hn)), ih (n - k) (by omega)
        (by rw [List.length_drop]; omega), hsplit, List.map_append]

/-! ## The functions -/

/-- Without `src2` it reads `dest`. -/
def mbedtlsCtMemcpyIf (h : Host) (condition : UInt64) (dest src1 : ByteString)
    (src2 : Option ByteString) (len : Nat) : ByteString :=
  let mask := condition
  let notMask := ~~~condition
  h.wordLoop 8
    (fun bs =>
      let a := UInt64.ofNat (h.get (bs.map Prod.fst)) &&& mask
      let b := UInt64.ofNat (h.get (bs.map Prod.snd)) &&& notMask
      h.put 8 (a ||| b).toNat)
    (fun (x, y) => ((x.toUInt64 &&& mask) ||| (y.toUInt64 &&& notMask)).toUInt8)
    len (src1.zip (src2.getD dest)) ++ dest.drop len

/-- `mbedtls_ct_memcpy_offset`. The last pass has `offsetval = offset_max`, which is less than
`SIZE_MAX`. -/
def mbedtlsCtMemcpyOffset (h : Host) (dest src : ByteString)
    (offset offsetMin offsetMax len : Nat) : ByteString :=
  (List.range' offsetMin (offsetMax + 1 - offsetMin)).foldl
    (fun dest offsetval =>
      mbedtlsCtMemcpyIf h (mbedtlsCtUintEq (UInt64.ofNat offsetval) (UInt64.ofNat offset)) dest
        (src.drop offsetval) none len)
    dest

/-- `mbedtls_ct_zeroize_if` on the first `len` bytes of `buf`. -/
def ctZeroizeIfLen (h : Host) (condition : UInt64) (buf : ByteString) (len : Nat) : ByteString :=
  -- the mask has 32 bits
  let mask : UInt32 := (~~~condition).toUInt32
  h.wordLoop 4 (fun bs => h.put 4 (UInt32.ofNat (h.get bs) &&& mask).toNat)
    (fun b => (b.toUInt32 &&& mask).toUInt8) len buf ++ buf.drop len

def mbedtlsCtUintGe (x y : UInt64) : UInt64 := ~~~mbedtlsCtUintLt x y

def mbedtlsCtMemcmpPartial (a b : ByteString) (n skipHead skipTail : UInt64) : UInt32 :=
  let validEnd := n - skipTail
  (List.range n.toNat).foldl
    (fun diff i =>
      let d := (a.getD i 0).toUInt32 ^^^ (b.getD i 0).toUInt32
      let valid := mbedtlsCtBoolAnd (mbedtlsCtUintGe (UInt64.ofNat i) skipHead)
        (mbedtlsCtUintLt (UInt64.ofNat i) validEnd)
      diff ||| mbedtlsCtUintIfElse0 valid d)
    0

/-! ## Copying and clearing -/

theorem mbedtlsCtMemcpyIf_eq (h : Host) (b : Bool) {dest src1 : ByteString}
    {src2 : Option ByteString} {len : Nat} (h1 : len ≤ src1.length)
    (h2 : len ≤ (src2.getD dest).length) :
    mbedtlsCtMemcpyIf h (ctMask b) dest src1 src2 len =
      (if b then src1 else src2.getD dest).take len ++ dest.drop len := by
  have hselect : ∀ x y : UInt64, (x &&& ctMask b) ||| (y &&& ~~~ctMask b) = if b then x else y := by
    intro x y
    rw [UInt64.and_comm x, UInt64.and_comm y]
    exact mbedtlsCtIf_mask b x y
  have hbyte : (fun p : UInt8 × UInt8 =>
      ((p.1.toUInt64 &&& ctMask b) ||| (p.2.toUInt64 &&& ~~~ctMask b)).toUInt8) =
        fun p => if b then p.1 else p.2 := by
    funext p
    rw [hselect]
    cases b <;> simp
  have hlen : len ≤ (src1.zip (src2.getD dest)).length := by
    rw [List.length_zip]
    exact Nat.le_min.mpr ⟨h1, h2⟩
  have hword : ∀ bs : ByteString, bs.length = 8 → h.put 8 (UInt64.ofNat (h.get bs)).toNat = bs := by
    intro bs hbs
    have hlt := h.get_lt bs
    rw [hbs] at hlt
    rw [UInt64.toNat_ofNat_of_lt' hlt, h.put_get hbs]
  have hl1 := List.length_take_of_le h1
  have hl2 := List.length_take_of_le h2
  unfold mbedtlsCtMemcpyIf
  dsimp only
  rw [hbyte, Host.wordLoop_eq ?_ hlen, List.zip, List.take_zipWith, ← List.zip]
  · cases b
    · exact congrArg (· ++ dest.drop len) (List.map_snd_zip (by rw [hl1, hl2]))
    · exact congrArg (· ++ dest.drop len) (List.map_fst_zip (by rw [hl1, hl2]))
  · intro xs hxs
    rw [hselect]
    cases b
    · exact hword _ (by rw [List.length_map, hxs])
    · exact hword _ (by rw [List.length_map, hxs])

theorem mbedtlsCtMemcpyOffset_eq (h : Host) {dest src : ByteString}
    {offset offsetMin offsetMax len : Nat} (hoffset : offsetMin ≤ offset ∧ offset ≤ offsetMax)
    (hmax : offsetMax + 1 < 2 ^ 64) (hsrc : offsetMax + len ≤ src.length)
    (hdest : len ≤ dest.length) :
    mbedtlsCtMemcpyOffset h dest src offset offsetMin offsetMax len =
      (src.drop offset).take len ++ dest.drop len := by
  -- a pass copies or keeps, and copying again changes nothing
  have hpasses : ∀ (L : List Nat), (∀ o ∈ L, o ≤ offsetMax) → ∀ dest : ByteString,
      len ≤ dest.length →
      L.foldl (fun dest offsetval =>
        mbedtlsCtMemcpyIf h (mbedtlsCtUintEq (UInt64.ofNat offsetval) (UInt64.ofNat offset)) dest
          (src.drop offsetval) none len) dest =
        if offset ∈ L then (src.drop offset).take len ++ dest.drop len else dest := by
    intro L hL
    induction L with
    | nil => simp
    | cons o L ih =>
      intro dest hdest
      have ho : o ≤ offsetMax := hL o List.mem_cons_self
      have hcopy : len ≤ (src.drop o).length := by
        rw [List.length_drop]
        omega
      have heq : UInt64.ofNat o = UInt64.ofNat offset ↔ o = offset := by
        rw [← UInt64.toNat_inj, UInt64.toNat_ofNat_of_lt' (by omega : o < 2 ^ 64),
          UInt64.toNat_ofNat_of_lt' (by omega : offset < 2 ^ 64)]
      have hnext := ih fun o ho => hL o (List.mem_cons_of_mem _ ho)
      have hpass := @mbedtlsCtMemcpyIf_eq h (o = offset) dest (src.drop o) none len hcopy hdest
      rw [List.foldl_cons, mbedtlsCtUintEq_eq, decide_eq_decide.mpr heq, hpass]
      by_cases hmatch : o = offset
      · subst hmatch
        have htake := List.length_take_of_le hcopy
        rw [decide_eq_true rfl, if_pos rfl, hnext _ (by rw [List.length_append]; omega),
          List.drop_left' htake, if_pos List.mem_cons_self, ite_self]
      · rw [decide_eq_false hmatch, if_neg (by decide), Option.getD_none, List.take_append_drop,
          hnext _ hdest]
        simp [Ne.symm hmatch]
  unfold mbedtlsCtMemcpyOffset
  rw [hpasses _ (fun o ho => by rw [List.mem_range'_1] at ho; omega) _ hdest,
    if_pos (by rw [List.mem_range'_1]; omega)]

theorem ctZeroizeIfLen_eq (h : Host) (b : Bool) {buf : ByteString} {len : Nat}
    (hlen : len ≤ buf.length) :
    ctZeroizeIfLen h (ctMask b) buf len =
      (if b then List.replicate len 0 else buf.take len) ++ buf.drop len := by
  have hwords : ∀ bs : ByteString, bs.length = 4 →
      h.put 4 (UInt32.ofNat (h.get bs) &&& (~~~ctMask b).toUInt32).toNat =
        mbedtlsCtZeroizeIf (ctMask b) bs := by
    intro bs hbs
    have hlt := h.get_lt bs
    rw [hbs] at hlt
    rw [mbedtlsCtZeroizeIf_mask]
    cases b
    · show h.put 4 (UInt32.ofNat (h.get bs) &&& -1).toNat = bs
      rw [UInt32.and_neg_one, UInt32.toNat_ofNat_of_lt' hlt, h.put_get hbs]
    · show h.put 4 (UInt32.ofNat (h.get bs) &&& 0).toNat = List.replicate bs.length 0
      rw [UInt32.and_zero, hbs]
      exact h.put_zero 4
  have hbytes := mbedtlsCtZeroizeIf_mask b (buf.take len)
  unfold mbedtlsCtZeroizeIf at hbytes
  rw [List.length_take_of_le hlen] at hbytes
  unfold ctZeroizeIfLen
  dsimp only
  rw [Host.wordLoop_eq hwords hlen, hbytes]

/-! ## Comparing -/

theorem mbedtlsCtMemcmpPartial_eq_zero {a b : ByteString} {n skipHead skipTail : UInt64}
    (ha : n.toNat ≤ a.length) (hb : n.toNat ≤ b.length) (htail : skipTail ≤ n) :
    mbedtlsCtMemcmpPartial a b n skipHead skipTail = 0 ↔
      (a.take (n.toNat - skipTail.toNat)).drop skipHead.toNat =
        (b.take (n.toNat - skipTail.toNat)).drop skipHead.toNat := by
  have hn := n.toNat_lt
  have hend : (n - skipTail).toNat = n.toNat - skipTail.toNat := UInt64.toNat_sub_of_le _ _ htail
  have hbyte : ∀ i < n.toNat,
      (mbedtlsCtUintIfElse0 (mbedtlsCtBoolAnd (mbedtlsCtUintGe (UInt64.ofNat i) skipHead)
        (mbedtlsCtUintLt (UInt64.ofNat i) (n - skipTail)))
          ((a.getD i 0).toUInt32 ^^^ (b.getD i 0).toUInt32) = 0 ↔
        (skipHead.toNat ≤ i → i < n.toNat - skipTail.toNat → a[i]? = b[i]?)) := by
    intro i hi
    have hnat : (UInt64.ofNat i).toNat = i := UInt64.toNat_ofNat_of_lt' (by omega : i < 2 ^ 64)
    have hnot := mbedtlsCtBoolNot_mask (UInt64.ofNat i < skipHead)
    unfold mbedtlsCtBoolNot at hnot
    unfold mbedtlsCtUintGe
    rw [mbedtlsCtUintLt_eq, mbedtlsCtUintLt_eq, hnot, mbedtlsCtBoolAnd_mask,
      mbedtlsCtUintIfElse0_mask, List.getD_eq_getElem?_getD, List.getD_eq_getElem?_getD,
      List.getElem?_eq_getElem (hi.trans_le ha), List.getElem?_eq_getElem (hi.trans_le hb)]
    simp only [Bool.and_eq_true, Bool.not_eq_true', decide_eq_false_iff_not, decide_eq_true_eq,
      UInt64.lt_iff_toNat_lt, hnat, hend, Nat.not_lt, Option.getD_some, Option.some.injEq]
    split
    case isTrue hin =>
      rw [UInt32.xor_eq_zero_iff, UInt8.toUInt32_inj]
      exact ⟨fun h _ _ => h, fun h => h hin.1 hin.2⟩
    case isFalse hout => exact ⟨fun _ h h' => absurd ⟨h, h'⟩ hout, fun _ => rfl⟩
  unfold mbedtlsCtMemcmpPartial
  rw [← List.foldl_map, foldl_or_eq_zero]
  simp only [List.mem_map, List.mem_range, forall_exists_index, and_imp,
    forall_apply_eq_imp_iff₂, true_and]
  constructor
  · intro hall
    ext1 i
    rw [List.getElem?_drop, List.getElem?_drop, List.getElem?_take, List.getElem?_take]
    split
    case isTrue hi => exact (hbyte _ (by omega)).mp (hall _ (by omega)) (Nat.le_add_right _ _) hi
    case isFalse => rfl
  · intro heq i hi
    refine (hbyte i hi).mpr fun hhead hin => ?_
    have hget := congrArg (·[i - skipHead.toNat]?) heq
    simpa [Nat.add_sub_cancel' hhead, hin] using hget

/-- The data-oblivious helpers are the plain operations, for every condition and length. -/
theorem ct_buffers_eq (h : Host) :
    (∀ b (dest src1 : ByteString) (src2 : Option ByteString) len, len ≤ src1.length →
      len ≤ (src2.getD dest).length →
        mbedtlsCtMemcpyIf h (ctMask b) dest src1 src2 len =
          (if b then src1 else src2.getD dest).take len ++ dest.drop len) ∧
    (∀ b (buf : ByteString) len, len ≤ buf.length →
      ctZeroizeIfLen h (ctMask b) buf len =
        (if b then List.replicate len 0 else buf.take len) ++ buf.drop len) ∧
    (∀ (start : ByteString) (offset : UInt64), start.length < 2 ^ 64 →
      offset.toNat ≤ start.length →
        mbedtlsCtMemmoveLeft start offset =
          start.drop offset.toNat ++ List.replicate offset.toNat 0) ∧
    (∀ (dest src : ByteString) offset offsetMin offsetMax len,
      offsetMin ≤ offset ∧ offset ≤ offsetMax → offsetMax + 1 < 2 ^ 64 →
      offsetMax + len ≤ src.length → len ≤ dest.length →
        mbedtlsCtMemcpyOffset h dest src offset offsetMin offsetMax len =
          (src.drop offset).take len ++ dest.drop len) ∧
    (∀ a b : ByteString, a.length = b.length → (mbedtlsCtMemcmp a b = 0 ↔ a = b)) ∧
    (∀ (a b : ByteString) (n skipHead skipTail : UInt64), n.toNat ≤ a.length →
      n.toNat ≤ b.length → skipTail ≤ n →
        (mbedtlsCtMemcmpPartial a b n skipHead skipTail = 0 ↔
          (a.take (n.toNat - skipTail.toNat)).drop skipHead.toNat =
            (b.take (n.toNat - skipTail.toNat)).drop skipHead.toNat)) ∧
    ∀ x y : UInt64, mbedtlsCtBool x = ctMask (x ≠ 0) ∧ mbedtlsCtUintLt x y = ctMask (x < y) ∧
      ∀ b, mbedtlsCtIf (ctMask b) x y = if b then x else y :=
  ⟨fun b _ _ _ _ h1 h2 => mbedtlsCtMemcpyIf_eq h b h1 h2,
    fun b _ _ hlen => ctZeroizeIfLen_eq h b hlen,
    fun _ _ hstart hoffset => mbedtlsCtMemmoveLeft_eq hstart hoffset,
    fun _ _ _ _ _ _ hoffset hmax hsrc hdest => mbedtlsCtMemcpyOffset_eq h hoffset hmax hsrc hdest,
    fun _ _ hlen => not_iff_not.mp (memcmp_ne_iff hlen),
    fun _ _ _ _ _ ha hb htail => mbedtlsCtMemcmpPartial_eq_zero ha hb htail,
    fun x y => ⟨mbedtlsCtBool_eq x, mbedtlsCtUintLt_eq x y, fun b => mbedtlsCtIf_mask b x y⟩⟩

end TfPsaCrypto
