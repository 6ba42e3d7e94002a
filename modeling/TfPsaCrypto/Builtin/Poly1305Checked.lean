import TfPsaCrypto.Builtin.Poly1305Mac

/-!
# Poly1305 without overflow

`poly1305_process` once more, with a check after each addition and each product that its result is
a value of its type.
-/

namespace TfPsaCrypto

open Bytes Poly1305

/-! ## Checked words -/

def exact32 (x : Nat) : Option Nat := if x < 2 ^ 32 then some x else none

def exact64 (x : Nat) : Option Nat := if x < 2 ^ 64 then some x else none

section Exact

variable {α : Type} {x : Nat} {f : Nat → Option α}

theorem exact32_bind (h : x < 2 ^ 32) : (exact32 x >>= f) = f x := by
  unfold exact32
  rw [if_pos h]
  rfl

theorem exact64_bind (h : x < 2 ^ 64) : (exact64 x >>= f) = f x := by
  unfold exact64
  rw [if_pos h]
  rfl

end Exact

theorem u32_of_lt {x : Nat} (h : x < 2 ^ 32) : u32 x = x := Nat.mod_eq_of_lt h

theorem u64_of_lt {x : Nat} (h : x < 2 ^ 64) : u64 x = x := Nat.mod_eq_of_lt h

/-! ## The two forms of `mul64` -/

/-- A conversion to `uint16_t`. -/
def u16 (x : Nat) : Nat := x % 2 ^ 16

def mul64Halves (a b : Nat) : Nat :=
  let al := u16 a
  let bl := u16 b
  let ah := u16 (a / 2 ^ 16)
  let bh := u16 (b / 2 ^ 16)
  let lo := u32 (al * bl)
  let me := u64 (u32 (ah * bl) + u32 (al * bh))
  let hi := u32 (ah * bh)
  u64 (u64 (lo + u64 (me * 2 ^ 16)) + u64 (hi * 2 ^ 32))

def mul64Checked (no64bitMultiplication : Bool) (a b : Nat) : Option Nat :=
  if no64bitMultiplication then do
    let al := u16 a
    let bl := u16 b
    let ah := u16 (a / 2 ^ 16)
    let bh := u16 (b / 2 ^ 16)
    let lo ← exact32 (al * bl)
    let ahbl ← exact32 (ah * bl)
    let albh ← exact32 (al * bh)
    let me ← exact64 (ahbl + albh)
    let hi ← exact32 (ah * bh)
    let middle ← exact64 (me * 2 ^ 16)
    let low ← exact64 (lo + middle)
    let high ← exact64 (hi * 2 ^ 32)
    exact64 (low + high)
  else exact64 (a * b)

theorem halves_lt {a b : Nat} : u16 a * u16 b ≤ (2 ^ 16 - 1) * (2 ^ 16 - 1) := by
  have ha : u16 a < 2 ^ 16 := Nat.mod_lt _ (by decide)
  have hb : u16 b < 2 ^ 16 := Nat.mod_lt _ (by decide)
  exact Nat.mul_le_mul (by omega) (by omega)

theorem mul_halves {a b : Nat} (ha : a < 2 ^ 32) (hb : b < 2 ^ 32) :
    a * b = u16 a * u16 b +
      (u16 (a / 2 ^ 16) * u16 b + u16 a * u16 (b / 2 ^ 16)) * 2 ^ 16 +
        u16 (a / 2 ^ 16) * u16 (b / 2 ^ 16) * 2 ^ 32 := by
  have hsplit : ∀ {x}, x < 2 ^ 32 → x = u16 x + 2 ^ 16 * u16 (x / 2 ^ 16) := by
    intro x hx
    unfold u16
    omega
  conv_lhs => rw [hsplit ha, hsplit hb]
  ring

theorem mul64Checked_eq (no64bitMultiplication : Bool) {a b : Nat} (ha : a < 2 ^ 32)
    (hb : b < 2 ^ 32) :
    mul64Checked no64bitMultiplication a b = some (a * b) ∧ mul64Halves a b = a * b := by
  have hproduct : a * b < 2 ^ 64 := by
    calc a * b < 2 ^ 32 * 2 ^ 32 := Nat.mul_lt_mul'' ha hb
      _ = 2 ^ 64 := by norm_num
  have hsum := mul_halves ha hb
  have hlo := @halves_lt a b
  have hahbl := @halves_lt (a / 2 ^ 16) b
  have halbh := @halves_lt a (b / 2 ^ 16)
  unfold mul64Checked mul64Halves
  simp only
  generalize u16 a * u16 b = lo at *
  generalize u16 (a / 2 ^ 16) * u16 b = ahbl at *
  generalize u16 a * u16 (b / 2 ^ 16) = albh at *
  generalize u16 (a / 2 ^ 16) * u16 (b / 2 ^ 16) = hi at *
  generalize a * b = product at *
  constructor
  · cases no64bitMultiplication with
    | true =>
      rw [if_pos rfl, exact32_bind (by omega), exact32_bind (by omega), exact32_bind (by omega),
        exact64_bind (by omega), exact32_bind (by omega), exact64_bind (by omega),
        exact64_bind (by omega), exact64_bind (by omega), exact64, if_pos (by omega), hsum]
    | false =>
      rw [if_neg (by decide), exact64, if_pos hproduct]
  · unfold u32 u64
    omega

/-! ## One block -/

variable {input : ByteString} {needsPadding : Nat}

def sumChecked : List (Option Nat) → Nat → Option Nat
  | [], acc => some acc
  | term :: terms, acc => do
    let term ← term
    let acc ← exact64 (acc + term)
    sumChecked terms acc

def addBlockChecked (acc : Words5) (input : ByteString) (needsPadding : Nat) : Option Words5 := do
  let d0 ← exact64 (getUint32LE input 0 + acc.w0)
  let c0 ← exact64 (acc.w1 + d0 / 2 ^ 32)
  let d1 ← exact64 (getUint32LE input 4 + c0)
  let c1 ← exact64 (acc.w2 + d1 / 2 ^ 32)
  let d2 ← exact64 (getUint32LE input 8 + c1)
  let c2 ← exact64 (acc.w3 + d2 / 2 ^ 32)
  let d3 ← exact64 (getUint32LE input 12 + c2)
  let top ← exact32 (d3 / 2 ^ 32)
  let top ← exact32 (top + needsPadding)
  let acc4 ← exact32 (acc.w4 + top)
  some { w0 := u32 d0, w1 := u32 d1, w2 := u32 d2, w3 := u32 d3, w4 := acc4 }

def multiplyChecked (no64 : Bool) (r : Words4) (acc : Words5) : Option Words5 := do
  let rs1 ← exact32 (r.w1 + r.w1 / 4)
  let rs2 ← exact32 (r.w2 + r.w2 / 4)
  let rs3 ← exact32 (r.w3 + r.w3 / 4)
  let d0 ← mul64Checked no64 acc.w0 r.w0
  let d0 ← sumChecked [mul64Checked no64 acc.w1 rs3, mul64Checked no64 acc.w2 rs2,
    mul64Checked no64 acc.w3 rs1] d0
  let d1 ← mul64Checked no64 acc.w0 r.w1
  let d1 ← sumChecked [mul64Checked no64 acc.w1 r.w0, mul64Checked no64 acc.w2 rs3,
    mul64Checked no64 acc.w3 rs2, mul64Checked no64 acc.w4 rs1] d1
  let d2 ← mul64Checked no64 acc.w0 r.w2
  let d2 ← sumChecked [mul64Checked no64 acc.w1 r.w1, mul64Checked no64 acc.w2 r.w0,
    mul64Checked no64 acc.w3 rs3, mul64Checked no64 acc.w4 rs2] d2
  let d3 ← mul64Checked no64 acc.w0 r.w3
  let d3 ← sumChecked [mul64Checked no64 acc.w1 r.w2, mul64Checked no64 acc.w2 r.w1,
    mul64Checked no64 acc.w3 r.w0, mul64Checked no64 acc.w4 rs3] d3
  let acc4 ← exact32 (acc.w4 * r.w0)
  some { w0 := d0, w1 := d1, w2 := d2, w3 := d3, w4 := acc4 }

def reduceChecked (d : Words5) : Option Words5 := do
  let d1 ← exact64 (d.w1 + d.w0 / 2 ^ 32)
  let d2 ← exact64 (d.w2 + d1 / 2 ^ 32)
  let d3 ← exact64 (d.w3 + d2 / 2 ^ 32)
  let top ← exact32 (d3 / 2 ^ 32)
  let acc4 ← exact32 (top + d.w4)
  let low ← exact64 (u32 d.w0 + acc4 / 4)
  let f0 ← exact64 (low + (acc4 &&& 0xFFFFFFFC))
  let f1 ← exact64 (u32 d1 + f0 / 2 ^ 32)
  let f2 ← exact64 (u32 d2 + f1 / 2 ^ 32)
  let f3 ← exact64 (u32 d3 + f2 / 2 ^ 32)
  let f4 ← exact64 ((acc4 &&& 3) + f3 / 2 ^ 32)
  let acc4 ← exact32 f4
  some { w0 := u32 f0, w1 := u32 f1, w2 := u32 f2, w3 := u32 f3, w4 := acc4 }

section Block

variable {acc : Words5} {r : Words4}

theorem addBlockChecked_eq (hacc : acc.Bounded 4) (hpad : needsPadding ≤ 1) :
    addBlockChecked acc input needsPadding = some (poly1305AddBlock acc input needsPadding) := by
  obtain ⟨h0, h1, h2, h3, h4⟩ := hacc
  have g0 := @getUint32LE_lt input 0
  have g1 := @getUint32LE_lt input 4
  have g2 := @getUint32LE_lt input 8
  have g3 := @getUint32LE_lt input 12
  unfold addBlockChecked poly1305AddBlock
  generalize getUint32LE input 0 = i0 at *
  generalize getUint32LE input 4 = i1 at *
  generalize getUint32LE input 8 = i2 at *
  generalize getUint32LE input 12 = i3 at *
  simp only at h0 h1 h2 h3 h4 ⊢
  simp (disch := omega) only [exact64_bind, exact32_bind, u64_of_lt, u32_of_lt]

@[simp] theorem sumChecked_nil {acc : Nat} : sumChecked [] acc = some acc := rfl

theorem sumChecked_cons {p acc : Nat} {ps : List (Option Nat)} (h : acc + p < 2 ^ 64) :
    sumChecked (some p :: ps) acc = sumChecked ps (acc + p) := by
  have hbind := exact64_bind (f := sumChecked ps) h
  exact hbind

theorem multiplyChecked_eq (no64 : Bool) (hr : r.Clamped) (hacc : acc.Bounded 6) :
    multiplyChecked no64 r acc = some (poly1305Multiply r acc) := by
  obtain ⟨hproduct, b0, b1, b2, b3, b4⟩ := poly1305Multiply_eq hr hacc
  rw [hproduct] at b0 b1 b2 b3 b4 ⊢
  obtain ⟨r0, r1, r2, r3⟩ := r
  obtain ⟨h0, h1, h2, h3, h4⟩ := hacc
  obtain ⟨k0, ⟨k1, m1⟩, ⟨k2, m2⟩, ⟨k3, m3⟩⟩ := hr
  simp only at *
  have s1 : r1 + r1 / 4 = 5 * (r1 / 4) := by omega
  have s2 : r2 + r2 / 4 = 5 * (r2 / 4) := by omega
  have s3 : r3 + r3 / 4 = 5 * (r3 / 4) := by omega
  have hmul : ∀ {a b : Nat}, a < 2 ^ 32 → b < 2 ^ 32 → mul64Checked no64 a b = some (a * b) :=
    fun ha hb => (mul64Checked_eq no64 ha hb).1
  unfold multiplyChecked
  simp only
  rw [exact32_bind (by omega), exact32_bind (by omega), exact32_bind (by omega), s1, s2, s3]
  simp (disch := omega) only [hmul, Option.bind_eq_bind, Option.bind_some, sumChecked_cons,
    sumChecked_nil]
  exact exact32_bind (by omega)

theorem reduceChecked_eq {d : Words5} (h0 : d.w0 < 7 * 2 ^ 60) (h1 : d.w1 < 7 * 2 ^ 60)
    (h2 : d.w2 < 7 * 2 ^ 60) (h3 : d.w3 < 7 * 2 ^ 60) (h4 : d.w4 ≤ 6 * 2 ^ 28) :
    reduceChecked d = some (poly1305Reduce d) := by
  have hthree : ∀ x : Nat, x &&& 3 = x % 4 := fun x => Nat.and_two_pow_sub_one_eq_mod x 2
  obtain ⟨w0, w1, w2, w3, w4⟩ := d
  simp only at h0 h1 h2 h3 h4
  unfold reduceChecked poly1305Reduce
  simp only
  -- the carries of the product
  rw [exact64_bind (by omega), u64_of_lt (x := w1 + w0 / 2 ^ 32) (by omega)]
  generalize hd1 : w1 + w0 / 2 ^ 32 = d1
  rw [exact64_bind (by omega), u64_of_lt (x := w2 + d1 / 2 ^ 32) (by omega)]
  generalize hd2 : w2 + d1 / 2 ^ 32 = d2
  rw [exact64_bind (by omega), u64_of_lt (x := w3 + d2 / 2 ^ 32) (by omega)]
  generalize hd3 : w3 + d2 / 2 ^ 32 = d3
  rw [exact32_bind (by omega), exact32_bind (by omega), u32_of_lt (x := d3 / 2 ^ 32) (by omega),
    u32_of_lt (x := d3 / 2 ^ 32 + w4) (by omega)]
  have hacc4 : d3 / 2 ^ 32 + w4 < 2 ^ 32 := by omega
  generalize d3 / 2 ^ 32 + w4 = acc4 at hacc4
  -- the carries of the reduction
  have hclear : acc4 &&& 0xFFFFFFFC ≤ acc4 := Nat.and_le_left
  have hlow : ∀ x, u32 x < 2 ^ 32 := fun x => Nat.mod_lt x (by decide)
  have hw0 := hlow w0
  have hw1 := hlow d1
  have hw2 := hlow d2
  have hw3 := hlow d3
  rw [hthree, exact64_bind (by omega), exact64_bind (by omega),
    u64_of_lt (x := u32 w0 + acc4 / 4 + (acc4 &&& 0xFFFFFFFC)) (by omega)]
  generalize hf0 : u32 w0 + acc4 / 4 + (acc4 &&& 0xFFFFFFFC) = f0
  rw [exact64_bind (by omega), u64_of_lt (x := u32 d1 + f0 / 2 ^ 32) (by omega)]
  generalize hf1 : u32 d1 + f0 / 2 ^ 32 = f1
  rw [exact64_bind (by omega), u64_of_lt (x := u32 d2 + f1 / 2 ^ 32) (by omega)]
  generalize hf2 : u32 d2 + f1 / 2 ^ 32 = f2
  rw [exact64_bind (by omega), u64_of_lt (x := u32 d3 + f2 / 2 ^ 32) (by omega)]
  generalize hf3 : u32 d3 + f2 / 2 ^ 32 = f3
  rw [exact64_bind (by omega), u64_of_lt (x := acc4 % 4 + f3 / 2 ^ 32) (by omega),
    exact32_bind (by omega), u32_of_lt (x := acc4 % 4 + f3 / 2 ^ 32) (by omega)]

end Block

/-! ## The context -/

/-- The body of the loop of `poly1305_process`. -/
def blockChecked (no64 : Bool) (r : Words4) (needsPadding : Nat) (acc : Words5)
    (input : ByteString) : Option Words5 := do
  let acc ← addBlockChecked acc input needsPadding
  let acc ← multiplyChecked no64 r acc
  reduceChecked acc

def processChecked (no64 : Bool) (r : Words4) (needsPadding : Nat) :
    Nat → Words5 → ByteString → Option Words5
  | 0, acc, _ => some acc
  | nblocks + 1, acc, input => do
    let acc ← blockChecked no64 r needsPadding acc input
    processChecked no64 r needsPadding nblocks acc (input.drop 16)

def fillQueueChecked (no64 : Bool) (ctx : MbedtlsPoly1305Context) (input : ByteString) :
    Option (MbedtlsPoly1305Context × ByteString) :=
  if input.length > 0 ∧ ctx.queueLen > 0 then
    let queueFreeLen := 16 - ctx.queueLen
    if input.length < queueFreeLen then
      some ({ ctx with
          queue := storeAt ctx.queue ctx.queueLen input
          queueLen := ctx.queueLen + input.length }, [])
    else
      let queue := storeAt ctx.queue ctx.queueLen (input.take queueFreeLen)
      (processChecked no64 ctx.r 1 1 ctx.acc queue).map fun acc =>
        ({ ctx with queue := queue, queueLen := 0, acc := acc }, input.drop queueFreeLen)
  else some (ctx, input)

def updateChecked (no64 : Bool) (ctx : MbedtlsPoly1305Context) (input : ByteString) :
    Option MbedtlsPoly1305Context := do
  let filled ← fillQueueChecked no64 ctx input
  let ctx := filled.1
  let remaining := filled.2
  let nblocks := remaining.length / 16
  let ctx ←
    if remaining.length ≥ 16 then
      (processChecked no64 ctx.r 1 nblocks ctx.acc remaining).map fun acc => { ctx with acc := acc }
    else some ctx
  let remaining := if remaining.length ≥ 16 then remaining.drop (nblocks * 16) else remaining
  if remaining.length > 0 then
    some { ctx with queueLen := remaining.length, queue := storeAt ctx.queue 0 remaining }
  else some ctx

def finishChecked (no64 : Bool) (ctx : MbedtlsPoly1305Context) : Option ByteString := do
  let ctx ←
    if ctx.queueLen > 0 then
      let queue := storeAt ctx.queue ctx.queueLen [1]
      let queueLen := ctx.queueLen + 1
      let queue := storeAt queue queueLen (List.replicate (16 - queueLen) 0)
      (processChecked no64 ctx.r 0 1 ctx.acc queue).map fun acc =>
        { ctx with queue := queue, queueLen := queueLen, acc := acc }
    else some ctx
  some (poly1305ComputeMac ctx.acc ctx.s)

section Context

variable {acc : Words5} {r : Words4} {key data : ByteString} {ctx : MbedtlsPoly1305Context}

theorem blockChecked_eq (no64 : Bool) (hr : r.Clamped) (hacc : acc.Bounded 4)
    (hlen : 16 ≤ input.length) (hpad : needsPadding ≤ 1) :
    blockChecked no64 r needsPadding acc input =
      some (poly1305Reduce (poly1305Multiply r (poly1305AddBlock acc input needsPadding))) := by
  obtain ⟨hadded, _⟩ := poly1305AddBlock_spec hacc hlen hpad
  obtain ⟨_, b0, b1, b2, b3, b4⟩ := poly1305Multiply_eq hr hadded
  unfold blockChecked
  rw [addBlockChecked_eq hacc hpad, Option.bind_eq_bind, Option.bind_some,
    multiplyChecked_eq no64 hr hadded, Option.bind_some, reduceChecked_eq b0 b1 b2 b3 b4]

theorem processChecked_eq (no64 : Bool) (hr : r.Clamped) (hpad : needsPadding ≤ 1) (nblocks : Nat)
    (hacc : acc.Bounded 4) (hlen : 16 * nblocks ≤ input.length) :
    processChecked no64 r needsPadding nblocks acc input =
      some (poly1305Process r needsPadding nblocks acc input) := by
  induction nblocks generalizing acc input with
  | zero => rfl
  | succ nblocks ih =>
    have hfirst : 16 ≤ input.length := by omega
    have hbounded := (poly1305Block_spec hr hacc hfirst hpad).1
    have hrest : 16 * nblocks ≤ (input.drop 16).length := by
      rw [List.length_drop]
      omega
    unfold processChecked poly1305Process
    rw [blockChecked_eq no64 hr hacc hfirst hpad, Option.bind_eq_bind, Option.bind_some,
      ih hbounded hrest]

theorem fillQueueChecked_eq (no64 : Bool) (hkey : 32 ≤ key.length) (hat : Poly1305At key data ctx)
    (input : ByteString) :
    fillQueueChecked no64 ctx input = some (poly1305FillQueue ctx input) := by
  have hr : ctx.r.Clamped := hat.r ▸ (poly1305Starts_r hkey).1
  have hqueue := hat.queue
  have hqueueLen := hat.queueLen
  unfold fillQueueChecked poly1305FillQueue
  split
  · simp only
    split
    · rfl
    next hfull =>
    have hlength : (storeAt ctx.queue ctx.queueLen
        (input.take (16 - ctx.queueLen))).length = 16 := by
      rw [length_storeAt, hqueue]
      rw [List.length_take, hqueue]
      omega
    rw [processChecked_eq no64 hr (Nat.le_refl 1) 1 hat.acc (by omega)]
    rfl
  · rfl

theorem updateChecked_eq (no64 : Bool) (hkey : 32 ≤ key.length) (hat : Poly1305At key data ctx)
    (input : ByteString) :
    updateChecked no64 ctx input = some (mbedtlsPoly1305Update ctx input) := by
  obtain ⟨used, _, hfilled, _⟩ := poly1305FillQueue_spec hkey hat input
  have hr : (poly1305FillQueue ctx input).1.r.Clamped := hfilled.r ▸ (poly1305Starts_r hkey).1
  unfold updateChecked mbedtlsPoly1305Update
  rw [fillQueueChecked_eq no64 hkey hat, Option.bind_eq_bind, Option.bind_some]
  simp only
  by_cases hlong : (poly1305FillQueue ctx input).2.length ≥ 16
  · rw [if_pos hlong, if_pos hlong, if_pos hlong,
      processChecked_eq no64 hr (Nat.le_refl 1) _ hfilled.acc (Nat.mul_div_le _ 16),
      Option.map_some, Option.bind_eq_bind, Option.bind_some]
    split <;> rfl
  · rw [if_neg hlong, if_neg hlong, if_neg hlong, Option.bind_eq_bind, Option.bind_some]
    split <;> rfl

theorem finishChecked_eq (no64 : Bool) (hkey : 32 ≤ key.length) (hat : Poly1305At key data ctx) :
    finishChecked no64 ctx = some (mbedtlsPoly1305Finish ctx).2 := by
  have hr : ctx.r.Clamped := hat.r ▸ (poly1305Starts_r hkey).1
  have hqueue := hat.queue
  have hqueueLen := hat.queueLen
  have hstore : (storeAt ctx.queue ctx.queueLen [1]).length = 16 := by
    rw [length_storeAt (by rw [List.length_singleton]; omega), hqueue]
  have hblock : (storeAt (storeAt ctx.queue ctx.queueLen [1]) (ctx.queueLen + 1)
      (List.replicate (16 - (ctx.queueLen + 1)) 0)).length = 16 := by
    rw [length_storeAt (by rw [List.length_replicate, hstore]; omega), hstore]
  unfold finishChecked mbedtlsPoly1305Finish
  split
  · simp only
    rw [processChecked_eq no64 hr (Nat.zero_le 1) 1 hat.acc (by omega)]
    rfl
  · rfl

theorem updates_at (no64 : Bool) (hkey : 32 ≤ key.length) (inputs : List ByteString)
    (hat : Poly1305At key data ctx) :
    inputs.foldlM (updateChecked no64) ctx = some (inputs.foldl mbedtlsPoly1305Update ctx) ∧
      Poly1305At key (data ++ inputs.flatten) (inputs.foldl mbedtlsPoly1305Update ctx) := by
  induction inputs generalizing ctx data with
  | nil =>
    rw [List.flatten_nil, List.append_nil]
    exact ⟨rfl, hat⟩
  | cons input inputs ih =>
    obtain ⟨hrun, hend⟩ := ih (poly1305Update_spec hkey hat input)
    rw [List.foldlM_cons, updateChecked_eq no64 hkey hat, List.foldl_cons, List.flatten_cons,
      ← List.append_assoc]
    exact ⟨hrun, hend⟩

end Context

/-- A tag computed with these calls of `mbedtls_poly1305_update`. -/
def poly1305Run (key : ByteString) (inputs : List ByteString) : ByteString :=
  (mbedtlsPoly1305Finish (inputs.foldl mbedtlsPoly1305Update (mbedtlsPoly1305Starts key))).2

def runChecked (no64 : Bool) (key : ByteString) (inputs : List ByteString) : Option ByteString := do
  let ctx ← inputs.foldlM (updateChecked no64) (mbedtlsPoly1305Starts key)
  finishChecked no64 ctx

/-- **Poly1305.** In any chunks, the tag is the polynomial of the standard, and nothing wraps on
the way with either form of `mul64`. -/
theorem poly1305_any_chunking (key : ByteString) (hkey : key.length = 32)
    (inputs : List ByteString) :
    poly1305Run key inputs =
        toLE 16 ((polynomial (clamp (ofLE (key.take 16))) inputs.flatten % prime +
          ofLE (key.drop 16)) % 2 ^ 128) ∧
      (∀ no64, runChecked no64 key inputs = some (poly1305Run key inputs)) ∧
      ∀ a b, a < 2 ^ 32 → b < 2 ^ 32 → mul64Halves a b = mul64 a b := by
  have hlen : 32 ≤ key.length := Nat.le_of_eq hkey.symm
  have hfirst : slice key 0 16 = key.take 16 := rfl
  have hsecond : slice key 16 16 = key.drop 16 := by
    unfold slice
    rw [List.take_of_length_le (by rw [List.length_drop]; omega)]
  refine ⟨?_, ?_, ?_⟩
  · obtain ⟨_, hat⟩ := updates_at false hlen inputs poly1305At_starts
    unfold poly1305Run
    rw [poly1305Finish_spec hlen hat, List.nil_append, mac, hfirst, hsecond,
      accumulate_eq_polynomial, show (2 : Nat) ^ 128 = 256 ^ 16 by norm_num, toLE_mod]
  · intro no64
    obtain ⟨hrun, hat⟩ := updates_at no64 hlen inputs poly1305At_starts
    unfold runChecked poly1305Run
    rw [hrun, Option.bind_eq_bind, Option.bind_some, finishChecked_eq no64 hlen hat]
  · intro a b ha hb
    obtain ⟨_, hhalves⟩ := mul64Checked_eq false ha hb
    rw [hhalves]
    exact (mul64_eq ha hb (Nat.le_refl _)).1.symm

/-- A message in three updates, one of them empty. -/
theorem poly1305_any_chunking_three :
    (List.replicate 32 (7 : UInt8)).length = 32 ∧
      poly1305Run (List.replicate 32 7) [[1, 2], [], [3]] =
        toLE 16 ((polynomial (clamp (ofLE ((List.replicate 32 7).take 16))) [1, 2, 3] % prime +
          ofLE ((List.replicate 32 7).drop 16)) % 2 ^ 128) :=
  ⟨rfl, (poly1305_any_chunking (List.replicate 32 7) rfl [[1, 2], [], [3]]).1⟩

end TfPsaCrypto
