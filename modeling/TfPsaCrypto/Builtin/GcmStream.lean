import TfPsaCrypto.Builtin.Gcm

/-!
# The counter blocks of GCM

`gcm_incr` counts modulo `2 ^ 32`; the limit on the total length keeps a run from coming back to
a counter block.
-/

namespace TfPsaCrypto

open Bytes Blocks CounterStream

/-! ## The counter -/

def gcmNumber (y : Block 16) : Nat := ofLE [y 15, y 14, y 13, y 12]

/-- Counter block `i` of a message whose first counter block is `y`. -/
def gcmCounter (y : Block 16) (i : Nat) : Block 16 := y.store 12 (toBE 4 (gcmNumber y + i))

theorem gcmCounter_tail (y : Block 16) (i : Nat) {k : Fin 16} (hk : 12 ≤ (k : Nat)) :
    gcmCounter y i k = UInt8.ofNat ((gcmNumber y + i) / 256 ^ (15 - (k : Nat))) := by
  unfold gcmCounter Block.store
  rw [length_toBE, if_pos (by omega), getD_toBE (by omega)]
  congr 3
  omega

theorem toLE_gcmCounter (y : Block 16) (i : Nat) :
    [gcmCounter y i 15, gcmCounter y i 14, gcmCounter y i 13, gcmCounter y i 12] =
      toLE 4 (gcmNumber y + i) := by
  rw [gcmCounter_tail y i (by decide), gcmCounter_tail y i (by decide),
    gcmCounter_tail y i (by decide), gcmCounter_tail y i (by decide)]
  simp [toLE, Nat.div_div_eq_div_mul]

theorem gcmNumber_gcmCounter (y : Block 16) (i : Nat) :
    gcmNumber (gcmCounter y i) = (gcmNumber y + i) % 256 ^ 4 := by
  rw [← ofLE_toLE, ← toLE_gcmCounter]
  rfl

theorem gcmCounter_zero (y : Block 16) : gcmCounter y 0 = y := by
  have hbytes : toBE 4 (gcmNumber y) = [y 12, y 13, y 14, y 15] := by
    have hle := toLE_ofLE [y 15, y 14, y 13, y 12]
    unfold toBE gcmNumber
    rw [show (4 : Nat) = [y 15, y 14, y 13, y 12].length from rfl, hle]
    rfl
  funext k
  unfold gcmCounter Block.store
  rw [Nat.add_zero, hbytes]
  split
  · next hk =>
    have hcases : k = 12 ∨ k = 13 ∨ k = 14 ∨ k = 15 := by omega
    rcases hcases with rfl | rfl | rfl | rfl <;> rfl
  · rfl

theorem gcmIncr_gcmCounter (y : Block 16) (i : Nat) :
    gcmIncr (gcmCounter y i) = gcmCounter y (i + 1) := by
  have hnumber : toBE 4 ((gcmNumber (gcmCounter y i) + 1) % 2 ^ 32) =
      toBE 4 (gcmNumber y + (i + 1)) := by
    unfold toBE
    rw [gcmNumber_gcmCounter, show (2 : Nat) ^ 32 = 256 ^ 4 by norm_num, toLE_mod,
      ← toLE_mod 4 ((gcmNumber y + i) % 256 ^ 4 + 1), Nat.mod_add_mod, toLE_mod, Nat.add_assoc]
  funext k
  show (gcmCounter y i).store 12 (toBE 4 ((gcmNumber (gcmCounter y i) + 1) % 2 ^ 32)) k = _
  rw [hnumber]
  unfold gcmCounter Block.store
  simp only [length_toBE]
  split <;> rfl

theorem gcmCounter_inj {y : Block 16} {i j : Nat} :
    gcmCounter y i = gcmCounter y j ↔ i % 2 ^ 32 = j % 2 ^ 32 := by
  constructor
  · intro h
    have hnumber := congrArg gcmNumber h
    rw [gcmNumber_gcmCounter, gcmNumber_gcmCounter] at hnumber
    omega
  · intro h
    have hnumber : (gcmNumber y + i) % 256 ^ 4 = (gcmNumber y + j) % 256 ^ 4 := by omega
    unfold gcmCounter toBE
    rw [← toLE_mod 4 (gcmNumber y + i), hnumber, toLE_mod]

/-! ## One call of `mbedtls_gcm_update` -/

section Update

variable {cipher : Block 16 → Except Int (Block 16)} {gcmMult : Block 16 → Block 16}
  {ctx : MbedtlsGcmContext} {y₀ : Block 16}

/-- The block of the key stream with number `i` comes from counter block `i + 1`. -/
def gcmMessageBlock (y₀ : Block 16) (i : Nat) : Block 16 := gcmCounter y₀ (i + 1)

theorem gcmMask_ok {offset : Nat} {input : ByteString}
    (hok : (gcmMask cipher ctx offset input).ret = .ok) :
    (gcmMask cipher ctx offset input).ctx.y = ctx.y ∧
      (gcmMask cipher ctx offset input).ctx.len = ctx.len ∧
      (gcmMask cipher ctx offset input).log = [⟨ctx.y, offset⟩] := by
  unfold gcmMask at hok ⊢
  cases hcipher : cipher ctx.y with
  | error code =>
    rw [hcipher] at hok
    exact GcmRet.noConfusion hok
  | ok ectr => exact ⟨rfl, rfl, rfl⟩

def GcmResult.OnOk (r : GcmResult) (P : GcmResult → Prop) : Prop := r.ret = .ok → P r

def GcmFeeds (y₀ : Block 16) (pos pos' len : Nat) (y : Block 16) (r : GcmResult) : Prop :=
  r.ctx.len = len ∧ r.ctx.y = y ∧ Feeds 16 (gcmMessageBlock y₀) pos r.log pos'

theorem gcmUpdateLoop_ok :
    ∀ fuel ctx pos input, input.length ≤ fuel → 16 ∣ pos →
      ctx.y = gcmCounter y₀ (pos / 16) →
      (gcmUpdateLoop cipher gcmMult fuel ctx input).OnOk (GcmFeeds y₀ pos (pos + input.length)
        ctx.len (gcmCounter y₀ ((pos + input.length + 15) / 16))) := by
  have hempty : ∀ (ctx : MbedtlsGcmContext) (pos : Nat), 16 ∣ pos →
      ctx.y = gcmCounter y₀ (pos / 16) →
      GcmFeeds y₀ pos (pos + 0) ctx.len (gcmCounter y₀ ((pos + 0 + 15) / 16))
        (ctx.returns .ok) := by
    intro ctx pos hpos hy
    have hindex : (pos + 0 + 15) / 16 = pos / 16 := by omega
    rw [hindex]
    exact ⟨rfl, hy, .nil⟩
  intro fuel
  induction fuel with
  | zero =>
    intro ctx pos input hfuel hpos hy _
    obtain rfl : input = [] := List.length_eq_zero_iff.mp (by omega)
    exact hempty ctx pos hpos hy
  | succ fuel ih =>
    intro ctx pos input hfuel hpos hy
    unfold gcmUpdateLoop
    split
    · next hinput =>
      obtain rfl := List.length_eq_zero_iff.mp hinput
      exact fun _ => hempty ctx pos hpos hy
    simp only
    generalize hmasked :
      gcmMask cipher { ctx with y := gcmIncr ctx.y } 0 (input.take 16) = masked
    split
    · next hne => exact fun hok => absurd hok hne
    next hret =>
    rw [not_not] at hret
    obtain ⟨hmy, hmlen, hmlog⟩ := gcmMask_ok (hmasked ▸ hret)
    rw [hmasked] at hmy hmlen hmlog
    simp only [hy, gcmIncr_gcmCounter] at hmy hmlog
    have hoff : pos % 16 = 0 := Nat.mod_eq_zero_of_dvd hpos
    have hfeed : ∀ len, 0 < len → len ≤ 16 →
        Feeds 16 (gcmMessageBlock y₀) pos masked.log (pos + len) := by
      intro len hlen hle
      have hsingle : Feeds 16 (gcmMessageBlock y₀) pos
          [⟨gcmMessageBlock y₀ (pos / 16), pos % 16⟩] (pos + len) :=
        Feeds.single hlen (by omega)
      rw [hoff] at hsingle
      rw [hmlog]
      exact hsingle
    split
    · intro hok
      have hlen : (input.drop 16).length = input.length - 16 := List.length_drop
      have hindex : (pos + 16) / 16 = pos / 16 + 1 := by omega
      obtain ⟨hrlen, hry, hrfeeds⟩ := ih { masked.ctx with buf := gcmMult masked.ctx.buf }
        (pos + 16) (input.drop 16) (by omega) (by omega) (by rw [hindex]; exact hmy) hok
      have hsum : pos + 16 + (input.drop 16).length = pos + input.length := by omega
      rw [hsum] at hry hrfeeds
      exact ⟨hrlen.trans hmlen, hry, (hfeed 16 (by omega) (by omega)).append hrfeeds⟩
    · intro _
      have hindex : (pos + input.length + 15) / 16 = pos / 16 + 1 := by omega
      rw [hindex]
      exact ⟨hmlen, hmy, hfeed input.length (by omega) (by omega)⟩

theorem gcmMask_ret (offset : Nat) (input : ByteString) :
    (gcmMask cipher ctx offset input).ret = .ok ∨
      ∃ code, (gcmMask cipher ctx offset input).ret = .cipher code := by
  unfold gcmMask
  cases cipher ctx.y with
  | error code => exact Or.inr ⟨code, rfl⟩
  | ok ectr => exact Or.inl rfl

theorem gcmUpdateLoop_ret :
    ∀ fuel ctx input, (gcmUpdateLoop cipher gcmMult fuel ctx input).ret = .ok ∨
      ∃ code, (gcmUpdateLoop cipher gcmMult fuel ctx input).ret = .cipher code := by
  intro fuel
  induction fuel with
  | zero =>
    intro ctx input
    exact Or.inl rfl
  | succ fuel ih =>
    intro ctx input
    unfold gcmUpdateLoop
    split
    · exact Or.inl rfl
    simp only
    split
    · exact gcmMask_ret _ _
    · split
      · exact ih _ _
      · exact gcmMask_ret _ _

theorem gcmUpdatePartial_ok {input : ByteString} {useLen : Nat}
    (huse : useLen = if ctx.len % 16 ≠ 0 then min (16 - ctx.len % 16) input.length else 0)
    (hinput : input.length ≠ 0) (hy : ctx.y = gcmCounter y₀ ((ctx.len + 15) / 16)) :
    (gcmUpdatePartial cipher gcmMult ctx (ctx.len % 16) useLen input).OnOk
      (GcmFeeds y₀ ctx.len (ctx.len + useLen) (ctx.len + useLen) ctx.y) := by
  unfold gcmUpdatePartial
  split
  · next hoff =>
    rw [if_pos hoff] at huse
    simp only
    generalize hmasked : gcmMask cipher ctx (ctx.len % 16) (input.take useLen) = masked
    split
    · next hne => exact fun hok => absurd hok hne
    next hret =>
    obtain ⟨hmy, hmlen, hmlog⟩ := gcmMask_ok (hmasked ▸ not_not.mp hret)
    rw [hmasked] at hmy hmlen hmlog
    have hindex : ctx.y = gcmMessageBlock y₀ (ctx.len / 16) := by
      rw [hy]
      congr 1
      omega
    intro _
    refine ⟨by rw [hmlen], hmy, ?_⟩
    rw [hmlog, hindex]
    exact Feeds.single (by omega) (by omega)
  · next hoff =>
    rw [if_neg hoff] at huse
    subst huse
    exact fun _ => ⟨rfl, rfl, .nil⟩

theorem mbedtlsGcmUpdate_ok {input : ByteString} {outputSize : Nat} {overlap : Bool}
    (hsize : input.length < 2 ^ 64) (hlen : ctx.len ≤ 0xFFFFFFFE0)
    (hy : ctx.y = gcmCounter y₀ ((ctx.len + 15) / 16)) :
    (mbedtlsGcmUpdate cipher gcmMult ctx input outputSize overlap).OnOk fun r =>
      r.ctx.len ≤ 0xFFFFFFFE0 ∧ r.ctx.y = gcmCounter y₀ ((r.ctx.len + 15) / 16) ∧
        Feeds 16 (gcmMessageBlock y₀) ctx.len r.log r.ctx.len := by
  unfold mbedtlsGcmUpdate
  split
  · exact nofun
  split
  · exact fun _ => ⟨hlen, hy, .nil⟩
  next hne =>
  split
  · exact nofun
  split
  · exact nofun
  have htotal : ctx.len + input.length ≤ 0xFFFFFFFE0 := by
    omega
  -- the multiplication for the additional data does not touch the counter
  have hbefore : ∀ ctx' : MbedtlsGcmContext, ctx' = (if ctx.len = 0 ∧ ctx.addLen % 16 ≠ 0 then
      { ctx with buf := gcmMult ctx.buf } else ctx) → ctx'.len = ctx.len ∧ ctx'.y = ctx.y := by
    rintro ctx' rfl
    split <;> exact ⟨rfl, rfl⟩
  simp only
  generalize hctx : (if ctx.len = 0 ∧ ctx.addLen % 16 ≠ 0 then
    { ctx with buf := gcmMult ctx.buf } else ctx) = ctx'
  obtain ⟨hlen', hy'⟩ := hbefore ctx' hctx.symm
  rw [← hy', ← hlen'] at hy
  rw [← hlen'] at htotal ⊢
  generalize huse : (if ctx'.len % 16 ≠ 0 then min (16 - ctx'.len % 16) input.length else 0) =
    useLen
  generalize hpart : gcmUpdatePartial cipher gcmMult ctx' (ctx'.len % 16) useLen input = part
  split
  · next hbad => exact fun hok => absurd hok hbad
  next hret =>
  obtain ⟨hplen, hpy, hpfeeds⟩ := hpart ▸ gcmUpdatePartial_ok huse.symm hne hy
    (hpart ▸ not_not.mp hret)
  have hdrop : (input.drop useLen).length = input.length - useLen := List.length_drop
  have huse' : useLen ≤ input.length ∧ (useLen = input.length ∨ 16 ∣ ctx'.len + useLen) ∧
      (ctx'.len + useLen + 15) / 16 = (ctx'.len + 15) / 16 := by
    split at huse <;> omega
  obtain ⟨huseLe, hstart, hindex⟩ := huse'
  by_cases hrest : input.length = useLen
  · -- the call ends within the block
    have hnil : input.drop useLen = [] := List.drop_eq_nil_of_le (by omega)
    have hloop : ∀ ctx : MbedtlsGcmContext,
        gcmUpdateLoop cipher gcmMult input.length ctx [] = ctx.returns .ok := by
      intro ctx
      obtain ⟨fuel, hfuel⟩ := Nat.exists_eq_succ_of_ne_zero hne
      rw [hfuel]
      rfl
    rw [hnil, hloop]
    intro _
    simp only [MbedtlsGcmContext.returns, List.append_nil]
    rw [hrest, Nat.sub_self, Nat.add_zero, hplen, hpy, hindex]
    exact ⟨by omega, hy, hpfeeds⟩
  · intro hok
    have hpos : 16 ∣ ctx'.len + useLen := by
      rcases hstart with hall | hdvd
      · exact absurd hall.symm hrest
      · exact hdvd
    have hfirst : part.ctx.y = gcmCounter y₀ ((ctx'.len + useLen) / 16) := by
      rw [hpy, hy]
      congr 1
      omega
    obtain ⟨hrlen, hry, hrfeeds⟩ := gcmUpdateLoop_ok input.length
      { part.ctx with len := part.ctx.len + (input.length - useLen) } (ctx'.len + useLen)
      (input.drop useLen) (by omega) hpos hfirst hok
    have hsum : ctx'.len + useLen + (input.drop useLen).length = ctx'.len + input.length := by
      omega
    have hlast : part.ctx.len + (input.length - useLen) = ctx'.len + input.length := by omega
    simp only [hlast] at hrlen hry hrfeeds ⊢
    rw [hsum] at hry hrfeeds
    rw [hrlen]
    exact ⟨by omega, hry, hpfeeds.append hrfeeds⟩

def GcmResult.Outcome (ctx : MbedtlsGcmContext) (r : GcmResult) : Prop :=
  r.ret = .ok ∨ (∃ code, r.ret = .cipher code) ∨ r.ctx = ctx ∧ r.log = []

theorem mbedtlsGcmUpdate_outcome {input : ByteString} {outputSize : Nat} {overlap : Bool} :
    (mbedtlsGcmUpdate cipher gcmMult ctx input outputSize overlap).Outcome ctx := by
  have hpart : ∀ (ctx : MbedtlsGcmContext) (offset useLen : Nat),
      (gcmUpdatePartial cipher gcmMult ctx offset useLen input).ret = .ok ∨
        ∃ code, (gcmUpdatePartial cipher gcmMult ctx offset useLen input).ret = .cipher code := by
    intro ctx offset useLen
    unfold gcmUpdatePartial
    split
    · simp only
      split
      · exact gcmMask_ret _ _
      · exact gcmMask_ret _ _
    · exact Or.inl rfl
  unfold mbedtlsGcmUpdate
  split
  · exact .inr (.inr ⟨rfl, rfl⟩)
  split
  · exact .inr (.inr ⟨rfl, rfl⟩)
  split
  · exact .inr (.inr ⟨rfl, rfl⟩)
  split
  · exact .inr (.inr ⟨rfl, rfl⟩)
  -- past the checks only the cipher can fail
  simp only
  generalize (if ctx.len = 0 ∧ ctx.addLen % 16 ≠ 0 then
    { ctx with buf := gcmMult ctx.buf } else ctx) = ctx'
  generalize (if ctx'.len % 16 ≠ 0 then min (16 - ctx'.len % 16) input.length else 0) = useLen
  split
  · exact (hpart _ _ _).imp_right .inl
  · exact (gcmUpdateLoop_ret _ _ _).imp_right .inl

end Update

/-! ## Runs -/

/-- The position of a run after `mbedtls_gcm_starts` with first counter block `y₀`. -/
def GcmStreamInv (y₀ : Block 16) (log : List (Feed (Block 16))) (ctx : MbedtlsGcmContext) :
    Prop :=
  ctx.len ≤ 0xFFFFFFFE0 ∧ ctx.y = gcmCounter y₀ ((ctx.len + 15) / 16) ∧
    Feeds 16 (gcmMessageBlock y₀) 0 log ctx.len

def gcmLog {α : Type*} (tr : List (α × GcmResult)) : List (Feed (Block 16)) := tr.flatMap (·.2.log)

theorem gcmLog_snoc {α : Type*} (tr : List (α × GcmResult)) (a : α) (r : GcmResult) :
    gcmLog (tr ++ [(a, r)]) = gcmLog tr ++ r.log := by
  simp [gcmLog]

theorem GcmStreamInv.call {gcmMult : Block 16 → Block 16}
    {cipher : Block 16 → Except Int (Block 16)} {y₀ : Block 16} {log : List (Feed (Block 16))}
    {ctx : MbedtlsGcmContext} (h : GcmStreamInv y₀ log ctx) {call : GcmCall}
    (hsize : call.data.length < 2 ^ 64)
    (hcipher : ∀ code, (gcmCall cipher gcmMult ctx call).ret ≠ .cipher code) :
    GcmStreamInv y₀ (log ++ (gcmCall cipher gcmMult ctx call).log)
      (gcmCall cipher gcmMult ctx call).ctx := by
  obtain ⟨hlen, hy, hfeeds⟩ := h
  cases call with
  | updateAd add =>
    -- additional data feeds no counter block
    have hsame : (mbedtlsGcmUpdateAd gcmMult ctx add).ctx.len = ctx.len ∧
        (mbedtlsGcmUpdateAd gcmMult ctx add).ctx.y = ctx.y ∧
        (mbedtlsGcmUpdateAd gcmMult ctx add).log = [] := by
      unfold mbedtlsGcmUpdateAd
      simp only
      split <;> exact ⟨rfl, rfl, rfl⟩
    obtain ⟨hlen', hy', hlog'⟩ := hsame
    show GcmStreamInv y₀ (log ++ (mbedtlsGcmUpdateAd gcmMult ctx add).log) _
    rw [hlog', List.append_nil]
    refine ⟨hlen'.le.trans hlen, ?_, ?_⟩
    · show (mbedtlsGcmUpdateAd gcmMult ctx add).ctx.y =
        gcmCounter y₀ (((mbedtlsGcmUpdateAd gcmMult ctx add).ctx.len + 15) / 16)
      rw [hy', hlen', hy]
    · show Feeds 16 (gcmMessageBlock y₀) 0 log (mbedtlsGcmUpdateAd gcmMult ctx add).ctx.len
      rw [hlen']
      exact hfeeds
  | update input outputSize overlap =>
    by_cases hok : (mbedtlsGcmUpdate cipher gcmMult ctx input outputSize overlap).ret = .ok
    · obtain ⟨hlen', hy', hfeeds'⟩ := mbedtlsGcmUpdate_ok hsize hlen hy hok
      exact ⟨hlen', hy', hfeeds.append hfeeds'⟩
    obtain ⟨hctx, hlog⟩ := (mbedtlsGcmUpdate_outcome.resolve_left hok).resolve_left
      fun ⟨code, hcode⟩ => hcipher code hcode
    show GcmStreamInv y₀
      (log ++ (mbedtlsGcmUpdate cipher gcmMult ctx input outputSize overlap).log)
      (mbedtlsGcmUpdate cipher gcmMult ctx input outputSize overlap).ctx
    rw [hctx, hlog, List.append_nil]
    exact ⟨hlen, hy, hfeeds⟩

theorem gcm_noReuse {gcmMult : Block 16 → Block 16} {cipher : Block 16 → Except Int (Block 16)}
    {ctx₀ ctx : MbedtlsGcmContext} {mode : GcmMode} {iv : ByteString}
    {tr : List ((GcmCall × (Block 16 → Except Int (Block 16))) × GcmResult)}
    (hstarts : (mbedtlsGcmStarts cipher gcmMult ctx₀ mode iv).ret = .ok)
    (hrun : Machine.Run (gcmMachine gcmMult) (mbedtlsGcmStarts cipher gcmMult ctx₀ mode iv).ctx
      tr ctx) (hcipher : ∀ ev ∈ tr, ∀ code, ev.2.ret ≠ .cipher code) :
    NoReuse ((mbedtlsGcmStarts cipher gcmMult ctx₀ mode iv).log ++ gcmLog tr) := by
  have hfirst : (mbedtlsGcmStarts cipher gcmMult ctx₀ mode iv).log =
        [⟨gcmFirstCounter gcmMult iv, 0⟩] ∧
      GcmStreamInv (gcmFirstCounter gcmMult iv) []
        (mbedtlsGcmStarts cipher gcmMult ctx₀ mode iv).ctx := by
    unfold mbedtlsGcmStarts at hstarts ⊢
    split at hstarts
    · exact GcmRet.noConfusion hstarts
    next hiv =>
    rw [if_neg hiv]
    simp only at hstarts ⊢
    cases hans : cipher (gcmFirstCounter gcmMult iv) with
    | error code =>
      rw [hans] at hstarts
      exact GcmRet.noConfusion hstarts
    | ok ectr =>
      refine ⟨rfl, Nat.zero_le _, ?_, .nil⟩
      show gcmFirstCounter gcmMult iv = gcmCounter (gcmFirstCounter gcmMult iv) ((0 + 15) / 16)
      exact (gcmCounter_zero _).symm
  obtain ⟨hlog, hinit⟩ := hfirst
  have hinv : GcmStreamInv (gcmFirstCounter gcmMult iv) (gcmLog tr) ctx := by
    apply Machine.Run.invariant (I := fun tr ctx =>
      GcmStreamInv (gcmFirstCounter gcmMult iv) (gcmLog tr) ctx)
      (P := fun ev => ∀ code, ev.2.ret ≠ .cipher code) hinit _ hrun hcipher
    intro tr ctx a ctx' r h hc hstep
    unfold gcmMachine at hstep
    split at hstep
    · next hsize =>
      obtain ⟨rfl, rfl⟩ := hstep
      rw [gcmLog_snoc]
      exact h.call hsize hc
    · exact absurd hstep (by simp)
  obtain ⟨hlen, _, hfeeds⟩ := hinv
  rw [hlog, List.singleton_append, hfeeds.noReuse_cons_iff (by omega)]
  have hall : gcmFirstCounter gcmMult iv ::
      (List.range ((ctx.len + (16 - 1)) / 16)).map (gcmMessageBlock (gcmFirstCounter gcmMult iv)) =
      (List.range ((ctx.len + (16 - 1)) / 16 + 1)).map
        (gcmCounter (gcmFirstCounter gcmMult iv)) := by
    rw [List.range_succ_eq_map, List.map_cons, List.map_map, gcmCounter_zero]
    rfl
  rw [hall, nodup_range_iff (m := 2 ^ 32) (by decide) fun i j => gcmCounter_inj]
  omega

end TfPsaCrypto
