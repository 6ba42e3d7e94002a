import TfPsaCrypto.Builtin.Keccak
import TfPsaCrypto.Library.Sponge

/-!
# SHA-3 and SHAKE

The functions of `sha3.c` around the permutation. An update goes by bytes and by words; it does
what the sponge does byte by byte.
-/

namespace TfPsaCrypto.Sha3

open Bytes (ByteString)
open Blocks (Block)
open Sponge (Cursor absorbByte stepCursor)

/-! ## Contexts -/

inductive Sha3Id where
  | none
  | sha3_224
  | sha3_256
  | sha3_384
  | sha3_512
  | shake128
  | shake256

structure Sha3Context where
  state : Lanes
  index : Nat
  olen : Nat
  maxBlockSize : Nat
  finished : Bool

inductive Sha3Error where
  | badInputData

def sha3Init : Sha3Context :=
  { state := fun _ => 0, index := 0, olen := 0, maxBlockSize := 0, finished := false }

def absorbWord (s : Lanes) (idx : Nat) (v : BitVec 64) : Lanes :=
  setWord s (idx / 8) (word s (idx / 8) ^^^ (v <<< (8 * (idx % 8))))

def squeezeByte (s : Lanes) (idx : Nat) : UInt8 := wordByte (word s (idx / 8)) (idx % 8)

def getUint64Le (input : ByteString) : BitVec 64 :=
  (input.take 8).foldr (fun b w => (w <<< 8) ||| b.toBitVec.setWidth 64) 0

def sha3Starts (id : Sha3Id) : Except Sha3Error Sha3Context :=
  match id with
  | .sha3_224 => .ok { sha3Init with olen := 224 / 8, maxBlockSize := 1152 / 8 }
  | .sha3_256 => .ok { sha3Init with olen := 256 / 8, maxBlockSize := 1088 / 8 }
  | .sha3_384 => .ok { sha3Init with olen := 384 / 8, maxBlockSize := 832 / 8 }
  | .sha3_512 => .ok { sha3Init with olen := 512 / 8, maxBlockSize := 576 / 8 }
  | .shake128 => .ok { sha3Init with maxBlockSize := 1344 / 8 }
  | .shake256 => .ok { sha3Init with maxBlockSize := 1088 / 8 }
  | .none => .error .badInputData

variable (u : Unroll)

def wrapIndex (ctx : Sha3Context) (index : Nat) : Sha3Context :=
  if index % ctx.maxBlockSize = 0 then
    { ctx with index := index % ctx.maxBlockSize, state := keccakF1600 u ctx.state }
  else { ctx with index := index % ctx.maxBlockSize }

def alignLoop : Nat → Sha3Context → ByteString → Sha3Context × ByteString
  | n + 1, ctx, b :: input =>
    alignLoop n
      { ctx with state := absorbWord ctx.state ctx.index (b.toBitVec.setWidth 64),
                 index := ctx.index + 1 } input
  | _, ctx, input => (ctx, input)

def wordLoop : Nat → Sha3Context → ByteString → Sha3Context × ByteString
  | 0, ctx, input => (ctx, input)
  | fuel + 1, ctx, input =>
    if 8 ≤ input.length then
      wordLoop fuel (wrapIndex u
        { ctx with state := absorbWord ctx.state ctx.index (getUint64Le input) }
        (ctx.index + 8)) (input.drop 8)
    else (ctx, input)

def byteLoop (ctx : Sha3Context) (input : ByteString) : Sha3Context :=
  input.foldl (fun ctx b => wrapIndex u
    { ctx with state := absorbWord ctx.state ctx.index (b.toBitVec.setWidth 64) }
    (ctx.index + 1)) ctx

def sha3Update (ctx : Sha3Context) (input : ByteString) : Sha3Context :=
  if 8 ≤ input.length then
    let alignBytes := 8 - ctx.index % 8
    let r := if alignBytes ≠ 0 then
        let r := alignLoop alignBytes ctx input
        (wrapIndex u r.1 r.1.index, r.2)
      else (ctx, input)
    let r := wordLoop u r.2.length r.1 r.2
    byteLoop u r.1 r.2
  else byteLoop u ctx input

def squeezeLoop : Sha3Context → Nat → ByteString × Sha3Context
  | ctx, 0 => ([], ctx)
  | ctx, n + 1 =>
    let r := squeezeLoop (wrapIndex u ctx (ctx.index + 1)) n
    (squeezeByte ctx.state ctx.index :: r.1, r.2)

def padContext (ctx : Sha3Context) (xorByte : BitVec 64) : Sha3Context :=
  let state := absorbWord ctx.state ctx.index xorByte
  let state := absorbWord state (ctx.maxBlockSize - 1) 0x80
  { ctx with state := keccakF1600 u state, index := 0, finished := true }

def sha3Finish (ctx : Sha3Context) (olen : Nat) : Except Sha3Error ByteString × Sha3Context :=
  if 0 < ctx.olen ∧ olen < ctx.olen then (.error .badInputData, sha3Init)
  else
    let len := if 0 < ctx.olen then ctx.olen else olen
    let xorByte := if 0 < ctx.olen then 0x06 else 0x1F
    let ctx := if ctx.finished then ctx else padContext u ctx xorByte
    let r := squeezeLoop u ctx len
    if 0 < ctx.olen then (.ok r.1, sha3Init) else (.ok r.1, r.2)

def sha3 (id : Sha3Id) (input : ByteString) (olen : Nat) : Except Sha3Error ByteString :=
  match sha3Starts id with
  | .error e => .error e
  | .ok ctx => (sha3Finish u (sha3Update u ctx input) olen).1

/-! ## The state as a string -/

theorem wordByte_xor (v w : BitVec 64) (j : Nat) :
    wordByte (v ^^^ w) j = wordByte v j ^^^ wordByte w j := by
  apply UInt8.toBitVec_inj.mp
  apply BitVec.eq_of_getLsbD_eq
  intro i hi
  rw [UInt8.toBitVec_xor, BitVec.getLsbD_xor]
  rw [getLsbD_wordByte _ _ hi, getLsbD_wordByte _ _ hi, getLsbD_wordByte _ _ hi, BitVec.getLsbD_xor]

theorem wordByte_shift (v : UInt8) {a j : Nat} (ha : a < 8) (hj : j < 8) :
    wordByte (v.toBitVec.setWidth 64 <<< (8 * a)) j = if j = a then v else 0 := by
  apply UInt8.toBitVec_inj.mp
  apply BitVec.eq_of_getLsbD_eq
  intro i hi
  rw [getLsbD_wordByte _ _ hi, BitVec.getLsbD_shiftLeft, BitVec.getLsbD_setWidth]
  by_cases heq : j = a
  · subst heq
    have hsub : 8 * j + i - 8 * j = i := by omega
    have hlow : ¬ 8 * j + i < 8 * j := by omega
    have hhigh : 8 * j + i < 64 := by omega
    have hi64 : i < 64 := by omega
    rw [if_pos rfl, hsub]
    simp [hlow, hhigh, hi64]
  · have hbit : v.toBitVec.getLsbD (8 * j + i - 8 * a) = false ∨ 8 * j + i < 8 * a := by
      rcases Nat.lt_or_gt_of_ne heq with hlt | hgt
      · right
        omega
      · left
        exact BitVec.getLsbD_of_ge _ _ (by omega)
    rw [if_neg heq]
    rcases hbit with hbit | hlow
    · simp [hbit]
    · simp [hlow]

theorem wordByte_foldr (bs : ByteString) {j : Nat} (hj : j < 8) :
    wordByte (bs.foldr (fun b w => (w <<< 8) ||| b.toBitVec.setWidth 64) 0) j = bs.getD j 0 := by
  induction bs generalizing j with
  | nil =>
    apply UInt8.toBitVec_inj.mp
    apply BitVec.eq_of_getLsbD_eq
    intro i hi
    rw [getLsbD_wordByte _ _ hi]
    simp
  | cons b bs ih =>
    cases j with
    | zero =>
      apply UInt8.toBitVec_inj.mp
      apply BitVec.eq_of_getLsbD_eq
      intro i hi
      have hi64 : i < 64 := by omega
      rw [getLsbD_wordByte _ _ hi, List.foldr_cons, BitVec.getLsbD_or,
        BitVec.getLsbD_shiftLeft, BitVec.getLsbD_setWidth]
      simp [hi, hi64]
    | succ j =>
      rw [List.getD_cons_succ, ← ih (by omega)]
      apply UInt8.toBitVec_inj.mp
      apply BitVec.eq_of_getLsbD_eq
      intro i hi
      have hlow : ¬ 8 * (j + 1) + i < 8 := by omega
      have hhigh : 8 * (j + 1) + i < 64 := by omega
      have hsub : 8 * (j + 1) + i - 8 = 8 * j + i := by omega
      have hb : b.toBitVec.getLsbD (8 * (j + 1) + i) = false := BitVec.getLsbD_of_ge _ _ (by omega)
      rw [getLsbD_wordByte _ _ hi, getLsbD_wordByte _ _ hi, List.foldr_cons,
        BitVec.getLsbD_or, BitVec.getLsbD_shiftLeft, BitVec.getLsbD_setWidth, hb, hsub]
      simp [hlow, hhigh]

theorem bytesOf_absorbWord (s : Lanes) {idx : Nat} (hidx : idx < 200) (v : BitVec 64)
    (k : Fin 200) :
    bytesOf (absorbWord s idx v) k =
      if k.val / 8 = idx / 8 then bytesOf s k ^^^ wordByte (v <<< (8 * (idx % 8))) (k.val % 8)
      else bytesOf s k := by
  unfold bytesOf absorbWord setWord
  by_cases hlane : k.val / 8 = idx / 8
  · rw [if_pos hlane]
    have hword : word (Function.update s (Fin.ofNat 25 (idx / 8))
        (word s (idx / 8) ^^^ v <<< (8 * (idx % 8)))) (k.val / 8) =
        word s (k.val / 8) ^^^ v <<< (8 * (idx % 8)) := by
      rw [hlane]
      exact Function.update_self _ _ _
    rw [hword, wordByte_xor]
  · rw [if_neg hlane]
    have hne : Fin.ofNat 25 (k.val / 8) ≠ Fin.ofNat 25 (idx / 8) := by
      intro h
      have hval : k.val / 8 % 25 = idx / 8 % 25 := congrArg Fin.val h
      omega
    have hword : word (Function.update s (Fin.ofNat 25 (idx / 8))
        (word s (idx / 8) ^^^ v <<< (8 * (idx % 8)))) (k.val / 8) = word s (k.val / 8) :=
      Function.update_of_ne hne _ _
    rw [hword]

theorem bytesOf_absorb_byte (s : Lanes) {idx : Nat} (hidx : idx < 200) (v : UInt8) :
    bytesOf (absorbWord s idx (v.toBitVec.setWidth 64)) = (bytesOf s).xorAt idx [v] := by
  funext k
  rw [bytesOf_absorbWord s hidx, wordByte_shift v (Nat.mod_lt _ (by decide))
    (Nat.mod_lt _ (by decide))]
  unfold Block.xorAt
  rw [List.length_singleton]
  by_cases hk : k.val = idx
  · have hzero : k.val - idx = 0 := by omega
    rw [hk, if_pos rfl, if_pos rfl, if_pos (by omega), Nat.sub_self]
    rfl
  rw [if_neg (show ¬ (idx ≤ k.val ∧ k.val < idx + 1) by omega)]
  split
  · next hlane =>
    have hbyte : k.val % 8 ≠ idx % 8 := by omega
    rw [if_neg hbyte, UInt8.xor_zero]
  · rfl

theorem bytesOf_absorb_word (s : Lanes) {idx : Nat} (hidx : idx < 200) (haligned : idx % 8 = 0)
    {input : ByteString} (hlength : 8 ≤ input.length) :
    bytesOf (absorbWord s idx (getUint64Le input)) = (bytesOf s).xorAt idx (input.take 8) := by
  funext k
  have hshift : getUint64Le input <<< (8 * (idx % 8)) = getUint64Le input := by
    rw [haligned]
    exact BitVec.shiftLeft_zero _
  have htake : (input.take 8).length = 8 := List.length_take_of_le hlength
  rw [bytesOf_absorbWord s hidx, hshift]
  unfold Block.xorAt getUint64Le
  rw [wordByte_foldr _ (Nat.mod_lt _ (by decide)), htake]
  by_cases hlane : k.val / 8 = idx / 8
  · have hplace : k.val - idx = k.val % 8 := by omega
    rw [if_pos hlane, if_pos (by omega), hplace]
  · rw [if_neg hlane, if_neg (by omega)]

theorem squeezeByte_eq (s : Lanes) {idx : Nat} (hidx : idx < 200) :
    squeezeByte s idx = (bytesOf s).toList.getD idx 0 := by
  unfold Block.toList
  rw [List.getD_eq_getElem?_getD, List.getElem?_ofFn, dif_pos hidx]
  rfl

/-! ## Absorbing -/

structure IsRate (rate : Nat) : Prop where
  pos : 0 < rate
  le : rate ≤ 200
  aligned : rate % 8 = 0

def cursor (ctx : Sha3Context) : Cursor 200 := (bytesOf ctx.state, ctx.index)

/-- `ctx'` is what absorbing `data` byte by byte makes of `ctx`. -/
structure Absorbs (rate : Nat) (ctx : Sha3Context) (data : ByteString) (ctx' : Sha3Context) :
    Prop where
  cursor_eq : cursor ctx' = data.foldl (absorbByte Keccak.keccakFString rate) (cursor ctx)
  index_lt : ctx'.index < rate
  maxBlockSize : ctx'.maxBlockSize = rate
  olen : ctx'.olen = ctx.olen
  finished : ctx'.finished = ctx.finished

section Absorbing

variable {u} {rate : Nat} {ctx ctx' ctx'' : Sha3Context} {data data' : ByteString}

theorem Absorbs.refl (hindex : ctx.index < rate) (hmax : ctx.maxBlockSize = rate) :
    Absorbs rate ctx [] ctx where
  cursor_eq := rfl
  index_lt := hindex
  maxBlockSize := hmax
  olen := rfl
  finished := rfl

theorem Absorbs.trans (h : Absorbs rate ctx data ctx') (h' : Absorbs rate ctx' data' ctx'') :
    Absorbs rate ctx (data ++ data') ctx'' where
  cursor_eq := by rw [List.foldl_append, ← h.cursor_eq, h'.cursor_eq]
  index_lt := h'.index_lt
  maxBlockSize := h'.maxBlockSize
  olen := h'.olen.trans h.olen
  finished := h'.finished.trans h.finished

theorem cursor_wrapIndex (hmax : ctx.maxBlockSize = rate) (index : Nat) :
    cursor (wrapIndex u ctx (index + 1)) =
      stepCursor Keccak.keccakFString rate (bytesOf ctx.state) index := by
  unfold wrapIndex stepCursor cursor
  rw [hmax]
  split
  · rw [bytesOf_keccakF1600]
  · rfl

theorem wrapIndex_frame (hrate : IsRate rate) (hmax : ctx.maxBlockSize = rate) (index : Nat) :
    (wrapIndex u ctx index).index < rate ∧ (wrapIndex u ctx index).maxBlockSize = rate ∧
      (wrapIndex u ctx index).olen = ctx.olen ∧
      (wrapIndex u ctx index).finished = ctx.finished := by
  have hlt : index % rate < rate := Nat.mod_lt _ hrate.pos
  unfold wrapIndex
  rw [hmax]
  split
  · exact ⟨hlt, rfl, rfl, rfl⟩
  · exact ⟨hlt, rfl, rfl, rfl⟩

theorem absorbs_piece (hrate : IsRate rate) (hmax : ctx.maxBlockSize = rate) (hne : data ≠ [])
    (hfits : ctx.index + data.length ≤ rate) {state : Lanes}
    (hstate : bytesOf state = (bytesOf ctx.state).xorAt ctx.index data) {i : Nat} :
    Absorbs rate ctx data
      (wrapIndex u { ctx with state := state, index := i } (ctx.index + data.length)) := by
  have hpos : 0 < data.length := List.length_pos_of_ne_nil hne
  have hlast : ctx.index + data.length = ctx.index + data.length - 1 + 1 := by omega
  obtain ⟨hindex, hmax', holen, hfinished⟩ := @wrapIndex_frame u rate
    { ctx with state := state, index := i } hrate hmax (ctx.index + data.length)
  refine { cursor_eq := ?_, index_lt := hindex, maxBlockSize := hmax', olen := holen,
           finished := hfinished }
  have hcursor := @cursor_wrapIndex u rate { ctx with state := state, index := i } hmax
    (ctx.index + data.length - 1)
  rw [← hlast] at hcursor
  rw [hcursor]
  rw [hstate]
  exact (Sponge.foldl_absorbByte_piece hne hfits).symm

theorem absorbs_byteLoop (hrate : IsRate rate) (hindex : ctx.index < rate)
    (hmax : ctx.maxBlockSize = rate) (input : ByteString) :
    Absorbs rate ctx input (byteLoop u ctx input) := by
  induction input generalizing ctx with
  | nil => exact Absorbs.refl hindex hmax
  | cons b input ih =>
    have hidx : ctx.index < 200 := Nat.lt_of_lt_of_le hindex hrate.le
    have hfirst : Absorbs rate ctx [b] (wrapIndex u
        { ctx with state := absorbWord ctx.state ctx.index (b.toBitVec.setWidth 64) }
        (ctx.index + 1)) :=
      absorbs_piece hrate hmax (List.cons_ne_nil b []) hindex (bytesOf_absorb_byte ctx.state hidx b)
    exact hfirst.trans (ih hfirst.index_lt hfirst.maxBlockSize)

theorem wrapIndex_aligned (hrate : IsRate rate) (hmax : ctx.maxBlockSize = rate) {index : Nat}
    (h : index % 8 = 0) : (wrapIndex u ctx index).index % 8 = 0 := by
  have hmod : index % rate % 8 = 0 := by
    rw [Nat.mod_mod_of_dvd _ (Nat.dvd_of_mod_eq_zero hrate.aligned), h]
  unfold wrapIndex
  rw [hmax]
  split
  · exact hmod
  · exact hmod

theorem absorbs_wordLoop (hrate : IsRate rate) (hindex : ctx.index < rate)
    (hmax : ctx.maxBlockSize = rate) (haligned : ctx.index % 8 = 0) (fuel : Nat)
    (input : ByteString) :
    ∃ taken, input = taken ++ (wordLoop u fuel ctx input).2 ∧
      Absorbs rate ctx taken (wordLoop u fuel ctx input).1 := by
  induction fuel generalizing ctx input with
  | zero => exact ⟨[], rfl, Absorbs.refl hindex hmax⟩
  | succ fuel ih =>
    unfold wordLoop
    by_cases hlong : 8 ≤ input.length
    · have hidx : ctx.index < 200 := Nat.lt_of_lt_of_le hindex hrate.le
      have htake : (input.take 8).length = 8 := List.length_take_of_le hlong
      have hne : input.take 8 ≠ [] := by
        intro hnil
        rw [hnil] at htake
        cases htake
      -- the rate is a multiple of eight, so that an aligned word stays in its block
      have hfits : ctx.index + (input.take 8).length ≤ rate := by
        have haligned' := hrate.aligned
        rw [htake]
        omega
      have hfirst := @absorbs_piece u rate ctx (input.take 8) hrate hmax hne hfits _
        (bytesOf_absorb_word ctx.state hidx haligned hlong) ctx.index
      rw [htake] at hfirst
      have hplace : (ctx.index + 8) % 8 = 0 := by omega
      obtain ⟨taken, hcut, hrest⟩ := ih hfirst.index_lt hfirst.maxBlockSize
        (@wrapIndex_aligned u rate
          { ctx with state := absorbWord ctx.state ctx.index (getUint64Le input) } hrate hmax _
          hplace) (input.drop 8)
      rw [if_pos hlong]
      refine ⟨input.take 8 ++ taken, ?_, hfirst.trans hrest⟩
      rw [List.append_assoc, ← hcut, List.take_append_drop]
    · rw [if_neg hlong]
      exact ⟨[], rfl, Absorbs.refl hindex hmax⟩

theorem alignLoop_eq {n : Nat} {input : ByteString} (hn : n ≤ input.length)
    (hidx : ctx.index + n ≤ 200) :
    ∃ state, alignLoop n ctx input =
        ({ ctx with state := state, index := ctx.index + n }, input.drop n) ∧
      bytesOf state = (bytesOf ctx.state).xorAt ctx.index (input.take n) := by
  induction n generalizing ctx input with
  | zero => exact ⟨ctx.state, rfl, (Block.xorAt_nil _ _).symm⟩
  | succ n ih =>
    cases input with
    | nil => exact absurd hn (Nat.not_succ_le_zero n)
    | cons b input =>
      obtain ⟨state, hloop, hstate⟩ := @ih
        { ctx with state := absorbWord ctx.state ctx.index (b.toBitVec.setWidth 64),
                   index := ctx.index + 1 } input
        (Nat.le_of_succ_le_succ hn) (by show ctx.index + 1 + n ≤ 200; omega)
      refine ⟨state, ?_, ?_⟩
      · unfold alignLoop
        rw [hloop]
        rw [Nat.add_right_comm, Nat.add_assoc, List.drop_succ_cons]
      · rw [hstate]
        rw [bytesOf_absorb_byte _ (by omega), List.take_succ_cons]
        exact (Block.xorAt_append (bytesOf ctx.state) ctx.index [b] (input.take n)).symm

theorem absorbs_update (hrate : IsRate rate) (hindex : ctx.index < rate)
    (hmax : ctx.maxBlockSize = rate) (input : ByteString) :
    Absorbs rate ctx input (sha3Update u ctx input) := by
  unfold sha3Update
  by_cases hlong : 8 ≤ input.length
  · rw [if_pos hlong]
    have haligned := hrate.aligned
    have hle := hrate.le
    have hpos : 8 - ctx.index % 8 ≠ 0 := by omega
    have hn : 8 - ctx.index % 8 ≤ input.length := by omega
    obtain ⟨state, hloop, hstate⟩ := @alignLoop_eq ctx (8 - ctx.index % 8) input hn (by omega)
    have htake : (input.take (8 - ctx.index % 8)).length = 8 - ctx.index % 8 :=
      List.length_take_of_le hn
    have hne : input.take (8 - ctx.index % 8) ≠ [] := by
      intro hnil
      rw [hnil] at htake
      exact hpos htake.symm
    have hfirst := @absorbs_piece u rate ctx _ hrate hmax hne (by rw [htake]; omega) state hstate
      (ctx.index + (8 - ctx.index % 8))
    rw [htake] at hfirst
    have haligned' : (ctx.index + (8 - ctx.index % 8)) % 8 = 0 := by omega
    obtain ⟨taken, hcut, hwords⟩ := absorbs_wordLoop hrate hfirst.index_lt hfirst.maxBlockSize
      (@wrapIndex_aligned u rate
        { ctx with state := state, index := ctx.index + (8 - ctx.index % 8) } hrate hmax _
        haligned') (input.drop (8 - ctx.index % 8)).length
      (input.drop (8 - ctx.index % 8))
    have hrest := absorbs_byteLoop (u := u) hrate hwords.index_lt hwords.maxBlockSize
      (wordLoop u (input.drop (8 - ctx.index % 8)).length (wrapIndex u
        { ctx with state := state, index := ctx.index + (8 - ctx.index % 8) }
        (ctx.index + (8 - ctx.index % 8))) (input.drop (8 - ctx.index % 8))).2
    -- the bytes up to the next lane, the lanes, and the bytes that are left
    have hall := (hfirst.trans hwords).trans hrest
    rw [List.append_assoc, ← hcut, List.take_append_drop] at hall
    dsimp only
    rw [if_pos hpos, hloop]
    exact hall
  · rw [if_neg hlong]
    exact absorbs_byteLoop hrate hindex hmax input

theorem absorbs_updates (hrate : IsRate rate) (hindex : ctx.index < rate)
    (hmax : ctx.maxBlockSize = rate) (chunks : List ByteString) :
    Absorbs rate ctx chunks.flatten (chunks.foldl (sha3Update u) ctx) := by
  induction chunks generalizing ctx with
  | nil => exact Absorbs.refl hindex hmax
  | cons chunk chunks ih =>
    have hfirst := absorbs_update (u := u) hrate hindex hmax chunk
    exact hfirst.trans (ih hfirst.index_lt hfirst.maxBlockSize)

end Absorbing

/-! ## Squeezing -/

/-- The context gives the output of `S`, and has given `n` bytes of it. -/
structure Squeezing (rate : Nat) (S : Block 200) (n : Nat) (ctx : Sha3Context) : Prop where
  cursor_eq : cursor ctx = ((Keccak.keccakFString^[n / rate]) S, n % rate)
  maxBlockSize : ctx.maxBlockSize = rate
  finished : ctx.finished = true

section SqueezingLemmas

variable {u} {rate : Nat} {ctx : Sha3Context} {S : Block 200} {n : Nat}

theorem squeezeLoop_eq (hrate : IsRate rate) (hindex : ctx.index < rate)
    (hmax : ctx.maxBlockSize = rate) (len : Nat) :
    (squeezeLoop u ctx len).1 =
        (Sponge.squeeze Keccak.keccakFString rate (cursor ctx) len).1 ∧
      cursor (squeezeLoop u ctx len).2 =
        (Sponge.squeeze Keccak.keccakFString rate (cursor ctx) len).2 ∧
      (squeezeLoop u ctx len).2.maxBlockSize = rate ∧
      (squeezeLoop u ctx len).2.olen = ctx.olen ∧
      (squeezeLoop u ctx len).2.finished = ctx.finished := by
  induction len generalizing ctx with
  | zero => exact ⟨rfl, rfl, hmax, rfl, rfl⟩
  | succ len ih =>
    obtain ⟨hindex', hmax', holen, hfinished⟩ := wrapIndex_frame (u := u) hrate hmax (ctx.index + 1)
    obtain ⟨hbytes, hcursor, hmax'', holen', hfinished'⟩ := ih hindex' hmax'
    have hhead : squeezeByte ctx.state ctx.index = (bytesOf ctx.state).toList.getD ctx.index 0 :=
      squeezeByte_eq _ (Nat.lt_of_lt_of_le hindex hrate.le)
    rw [cursor_wrapIndex hmax] at hbytes hcursor
    unfold squeezeLoop Sponge.squeeze
    dsimp only
    rw [hbytes, hcursor, hhead]
    exact ⟨rfl, rfl, hmax'', holen'.trans holen, hfinished'.trans hfinished⟩

theorem squeezeLoop_squeezing (hrate : IsRate rate) (h : Squeezing rate S n ctx) (len : Nat) :
    (squeezeLoop u ctx len).1 = Sponge.output Keccak.keccakFString rate S n len ∧
      Squeezing rate S (n + len) (squeezeLoop u ctx len).2 ∧
      (squeezeLoop u ctx len).2.olen = ctx.olen := by
  have hplace : ctx.index = n % rate := congrArg Prod.snd h.cursor_eq
  have hindex : ctx.index < rate := hplace ▸ Nat.mod_lt n hrate.pos
  obtain ⟨hbytes, hcursor, hmax, holen, hfinished⟩ :=
    squeezeLoop_eq (u := u) hrate hindex h.maxBlockSize len
  rw [h.cursor_eq, Sponge.squeeze_eq hrate.pos] at hbytes hcursor
  exact ⟨hbytes, { cursor_eq := hcursor, maxBlockSize := hmax,
                   finished := hfinished.trans h.finished }, holen⟩

theorem bytesOf_absorb_domain (s : Lanes) {idx : Nat} (hidx : idx < 200) :
    bytesOf (absorbWord s idx 0x80) = (bytesOf s).xorAt idx [0x80] ∧
      bytesOf (absorbWord s idx 0x06) = (bytesOf s).xorAt idx [0x06] ∧
      bytesOf (absorbWord s idx 0x1F) = (bytesOf s).xorAt idx [0x1F] :=
  ⟨bytesOf_absorb_byte s hidx 0x80, bytesOf_absorb_byte s hidx 0x06,
    bytesOf_absorb_byte s hidx 0x1F⟩

theorem padContext_squeezing (hrate : IsRate rate) (hmax : ctx.maxBlockSize = rate)
    {message : ByteString}
    (hcursor : cursor ctx = message.foldl (absorbByte Keccak.keccakFString rate) (Block.zero, 0))
    {xorByte : BitVec 64} {domain : UInt8}
    (hdomain : ∀ s, bytesOf (absorbWord s ctx.index xorByte) =
      (bytesOf s).xorAt ctx.index [domain]) :
    Squeezing rate (Sponge.absorbMessage Keccak.keccakFString rate domain message) 0
      (padContext u ctx xorByte) where
  cursor_eq := by
    have hlast : rate - 1 < 200 := Nat.lt_of_lt_of_le (Nat.sub_one_lt_of_lt hrate.pos) hrate.le
    have hstate : bytesOf ctx.state =
        (message.foldl (absorbByte Keccak.keccakFString rate) (Block.zero, 0)).1 :=
      congrArg Prod.fst hcursor
    have hplace : ctx.index =
        (message.foldl (absorbByte Keccak.keccakFString rate) (Block.zero, 0)).2 :=
      congrArg Prod.snd hcursor
    have habsorb := @Sponge.absorb_eq 200 Keccak.keccakFString rate hrate.pos domain message
    rw [← hstate, ← hplace] at habsorb
    rw [Nat.zero_div, Nat.zero_mod, Function.iterate_zero, id, ← habsorb]
    unfold cursor padContext
    rw [bytesOf_keccakF1600, hmax, (bytesOf_absorb_domain _ hlast).1, hdomain]
  maxBlockSize := hmax
  finished := rfl

structure Fresh (rate : Nat) (ctx : Sha3Context) : Prop where
  isRate : IsRate rate
  cursor_eq : cursor ctx = (Block.zero, 0)
  maxBlockSize : ctx.maxBlockSize = rate
  finished : ctx.finished = false

theorem Fresh.absorbs (h : Fresh rate ctx) (chunks : List ByteString) :
    Absorbs rate ctx chunks.flatten (chunks.foldl (sha3Update u) ctx) := by
  have hindex : ctx.index = 0 := congrArg Prod.snd h.cursor_eq
  exact absorbs_updates h.isRate (hindex ▸ h.isRate.pos) h.maxBlockSize chunks

theorem Fresh.padded (h : Fresh rate ctx) (chunks : List ByteString) (xorByte : BitVec 64)
    (domain : UInt8) (hdomain : ∀ s idx, idx < 200 → bytesOf (absorbWord s idx xorByte) =
      (bytesOf s).xorAt idx [domain]) :
    Squeezing rate (Sponge.absorbMessage Keccak.keccakFString rate domain chunks.flatten) 0
      (padContext u (chunks.foldl (sha3Update u) ctx) xorByte) := by
  have habsorbs := h.absorbs (u := u) chunks
  have hidx : (chunks.foldl (sha3Update u) ctx).index < 200 :=
    Nat.lt_of_lt_of_le habsorbs.index_lt h.isRate.le
  have hcursor := habsorbs.cursor_eq
  rw [h.cursor_eq] at hcursor
  exact padContext_squeezing h.isRate habsorbs.maxBlockSize hcursor fun s => hdomain s _ hidx

theorem Fresh.digest (h : Fresh rate ctx) {d olen : Nat} (holen : ctx.olen = d) (hd : 0 < d)
    (hle : d ≤ olen) (chunks : List ByteString) :
    (sha3Finish u (chunks.foldl (sha3Update u) ctx) olen).1 =
      .ok (Sponge.output Keccak.keccakFString rate
        (Sponge.absorbMessage Keccak.keccakFString rate 0x06 chunks.flatten) 0 d) := by
  have habsorbs := h.absorbs (u := u) chunks
  have hpad := h.padded (u := u) chunks 0x06 0x06 fun s idx hidx =>
    (bytesOf_absorb_domain s hidx).2.1
  obtain ⟨hbytes, -, -⟩ := squeezeLoop_squeezing (u := u) h.isRate hpad d
  have holen' : (chunks.foldl (sha3Update u) ctx).olen = d := habsorbs.olen.trans holen
  have hfinished : (chunks.foldl (sha3Update u) ctx).finished = false :=
    habsorbs.finished.trans h.finished
  have hpadded : (padContext u (chunks.foldl (sha3Update u) ctx) 0x06).olen = d := holen'
  unfold sha3Finish
  dsimp only
  rw [holen', if_neg (by omega), if_pos hd, if_pos hd, hfinished, if_neg Bool.false_ne_true,
    hpadded, if_pos hd, hbytes]

theorem finish_squeezing (hrate : IsRate rate) (h : Squeezing rate S n ctx) (holen : ctx.olen = 0)
    (len : Nat) :
    (sha3Finish u ctx len).1 = .ok (Sponge.output Keccak.keccakFString rate S n len) ∧
      Squeezing rate S (n + len) (sha3Finish u ctx len).2 ∧ (sha3Finish u ctx len).2.olen = 0 := by
  obtain ⟨hbytes, hsqueezing, holen'⟩ := squeezeLoop_squeezing (u := u) hrate h len
  have hzero : ¬ 0 < ctx.olen := Nat.not_lt.mpr (Nat.le_of_eq holen)
  unfold sha3Finish
  dsimp only
  rw [if_neg fun hfixed => hzero hfixed.1, if_neg hzero, if_neg hzero, h.finished, if_pos rfl,
    if_neg hzero]
  exact ⟨congrArg _ hbytes, hsqueezing, holen'.trans holen⟩

/-- The calls of `mbedtls_sha3_finish` for pieces of the output. -/
def sha3FinishAll (u : Unroll) : Sha3Context → List Nat → List (Except Sha3Error ByteString)
  | _, [] => []
  | ctx, len :: lens => (sha3Finish u ctx len).1 :: sha3FinishAll u (sha3Finish u ctx len).2 lens

theorem finishAll_squeezing (hrate : IsRate rate) (h : Squeezing rate S n ctx)
    (holen : ctx.olen = 0) (lens : List Nat) :
    sha3FinishAll u ctx lens =
      (Sponge.outputs Keccak.keccakFString rate S n lens).map Except.ok := by
  induction lens generalizing n ctx with
  | nil => rfl
  | cons len lens ih =>
    obtain ⟨hbytes, hsqueezing, holen'⟩ := finish_squeezing (u := u) hrate h holen len
    unfold sha3FinishAll Sponge.outputs
    rw [hbytes, ih hsqueezing holen']
    rfl

theorem finish_of_not_finished (hfinished : ctx.finished = false) (holen : ctx.olen = 0)
    (len : Nat) : sha3Finish u ctx len = sha3Finish u (padContext u ctx 0x1F) len := by
  have hzero : ¬ 0 < ctx.olen := Nat.not_lt.mpr (Nat.le_of_eq holen)
  have hguard : ¬ (0 < ctx.olen ∧ len < ctx.olen) := fun hfixed => hzero hfixed.1
  have hpadded : (padContext u ctx 0x1F).olen = ctx.olen := rfl
  have hdone : (padContext u ctx 0x1F).finished = true := rfl
  unfold sha3Finish
  dsimp only
  rw [hpadded, hdone, if_neg hguard, if_neg hzero, hfinished, if_neg Bool.false_ne_true,
    if_pos rfl, if_neg hguard]

theorem Fresh.outputs (h : Fresh rate ctx) (holen : ctx.olen = 0) (chunks : List ByteString)
    (lens : List Nat) :
    sha3FinishAll u (chunks.foldl (sha3Update u) ctx) lens =
      (Sponge.outputs Keccak.keccakFString rate
        (Sponge.absorbMessage Keccak.keccakFString rate 0x1F chunks.flatten) 0 lens).map
          Except.ok := by
  have habsorbs := h.absorbs (u := u) chunks
  have hpad := h.padded (u := u) chunks 0x1F 0x1F fun s idx hidx =>
    (bytesOf_absorb_domain s hidx).2.2
  have holen' : (chunks.foldl (sha3Update u) ctx).olen = 0 := habsorbs.olen.trans holen
  have hfinished : (chunks.foldl (sha3Update u) ctx).finished = false :=
    habsorbs.finished.trans h.finished
  rw [← finishAll_squeezing (u := u) h.isRate hpad holen' lens]
  cases lens with
  | nil => rfl
  | cons len lens =>
    unfold sha3FinishAll
    rw [finish_of_not_finished hfinished holen']

end SqueezingLemmas

/-! ## FIPS 202 -/

def digestIds : List (Sha3Id × Nat) :=
  [(.sha3_224, 28), (.sha3_256, 32), (.sha3_384, 48), (.sha3_512, 64)]

def shakeIds : List (Sha3Id × Nat) := [(.shake128, 32), (.shake256, 64)]

/-- The SHA-3 function with digests of `d` bytes: its capacity is twice as long. -/
def fipsDigest (d : Nat) (message : ByteString) : ByteString :=
  Sponge.output Keccak.keccakFString (200 - 2 * d)
    (Sponge.absorbMessage Keccak.keccakFString (200 - 2 * d) 0x06 message) 0 d

/-- The output of the SHAKE function with a capacity of `c` bytes, in pieces. -/
def fipsShake (c : Nat) (message : ByteString) (lens : List Nat) : List ByteString :=
  Sponge.outputs Keccak.keccakFString (200 - c)
    (Sponge.absorbMessage Keccak.keccakFString (200 - c) 0x1F message) 0 lens

theorem bytesOf_zero : bytesOf (fun _ => 0) = Block.zero := by
  funext k
  apply UInt8.toBitVec_inj.mp
  apply BitVec.eq_of_getLsbD_eq
  intro i hi
  have hbit : (bytesOf (fun _ => 0) k).toBitVec.getLsbD i =
      (0 : BitVec 64).getLsbD (8 * (k.val % 8) + i) := getLsbD_wordByte _ _ hi
  rw [hbit]
  exact BitVec.getLsbD_zero.trans BitVec.getLsbD_zero.symm

theorem fresh_of_starts {id : Sha3Id} {ctx : Sha3Context} (h : sha3Starts id = .ok ctx) :
    Fresh ctx.maxBlockSize ctx := by
  have hcursor : ∀ m o : Nat, cursor { sha3Init with olen := o, maxBlockSize := m } =
      (Block.zero, 0) := by
    intro m o
    unfold cursor sha3Init
    rw [bytesOf_zero]
  cases id with
  | none => cases h
  | _ =>
    cases h
    exact { isRate := { pos := by decide, le := by decide, aligned := by decide }
            cursor_eq := hcursor _ _, maxBlockSize := rfl, finished := rfl }

theorem starts_of_digestIds {id : Sha3Id} {d : Nat} (h : (id, d) ∈ digestIds) :
    ∃ ctx, sha3Starts id = .ok ctx ∧ ctx.olen = d ∧ ctx.maxBlockSize = 200 - 2 * d ∧ 0 < d := by
  simp only [digestIds, List.mem_cons, Prod.mk.injEq, List.not_mem_nil, or_false] at h
  rcases h with ⟨rfl, rfl⟩ | ⟨rfl, rfl⟩ | ⟨rfl, rfl⟩ | ⟨rfl, rfl⟩
  · exact ⟨_, rfl, rfl, rfl, by decide⟩
  · exact ⟨_, rfl, rfl, rfl, by decide⟩
  · exact ⟨_, rfl, rfl, rfl, by decide⟩
  · exact ⟨_, rfl, rfl, rfl, by decide⟩

theorem starts_of_shakeIds {id : Sha3Id} {c : Nat} (h : (id, c) ∈ shakeIds) :
    ∃ ctx, sha3Starts id = .ok ctx ∧ ctx.olen = 0 ∧ ctx.maxBlockSize = 200 - c := by
  simp only [shakeIds, List.mem_cons, Prod.mk.injEq, List.not_mem_nil, or_false] at h
  rcases h with ⟨rfl, rfl⟩ | ⟨rfl, rfl⟩
  · exact ⟨_, rfl, rfl, rfl⟩
  · exact ⟨_, rfl, rfl, rfl⟩

/-- The functions are those of FIPS 202, whatever is unrolled: the permutation, the state behind any
chunks, the digest, the output of SHAKE in any pieces, and the one-shot calls. -/
theorem sha3_refines_fips202 (u : Unroll) :
    (∀ s : Lanes, stateArray (keccakF1600 u s) = Keccak.keccakF (stateArray s)) ∧
    (∀ (id : Sha3Id) (ctx : Sha3Context) (chunks : List ByteString), sha3Starts id = .ok ctx →
      cursor (chunks.foldl (sha3Update u) ctx) =
        ((Sponge.absorbBlocks Keccak.keccakFString ctx.maxBlockSize Block.zero
            (chunks.flatten.length / ctx.maxBlockSize) chunks.flatten).xorAt 0
          (chunks.flatten.drop (chunks.flatten.length / ctx.maxBlockSize * ctx.maxBlockSize)),
          chunks.flatten.length % ctx.maxBlockSize)) ∧
    (∀ (id : Sha3Id) (d : Nat) (ctx : Sha3Context) (chunks : List ByteString) (olen : Nat),
      (id, d) ∈ digestIds → sha3Starts id = .ok ctx → d ≤ olen →
      (sha3Finish u (chunks.foldl (sha3Update u) ctx) olen).1 = .ok (fipsDigest d chunks.flatten)) ∧
    (∀ (id : Sha3Id) (c : Nat) (ctx : Sha3Context) (chunks : List ByteString) (lens : List Nat),
      (id, c) ∈ shakeIds → sha3Starts id = .ok ctx →
      sha3FinishAll u (chunks.foldl (sha3Update u) ctx) lens =
        (fipsShake c chunks.flatten lens).map .ok ∧
      (fipsShake c chunks.flatten lens).flatten = (fipsShake c chunks.flatten [lens.sum]).flatten) ∧
    (∀ (id : Sha3Id) (d : Nat) (message : ByteString) (olen : Nat), (id, d) ∈ digestIds →
      d ≤ olen → sha3 u id message olen = .ok (fipsDigest d message)) ∧
    (∀ (id : Sha3Id) (c : Nat) (message : ByteString) (olen : Nat), (id, c) ∈ shakeIds →
      sha3 u id message olen = .ok (fipsShake c message [olen]).flatten) := by
  have hdigest : ∀ (id : Sha3Id) (d : Nat) (ctx : Sha3Context) (chunks : List ByteString)
      (olen : Nat), (id, d) ∈ digestIds → sha3Starts id = .ok ctx → d ≤ olen →
      (sha3Finish u (chunks.foldl (sha3Update u) ctx) olen).1 =
        .ok (fipsDigest d chunks.flatten) := by
    intro id d ctx chunks olen hid hstarts hle
    obtain ⟨ctx', hstarts', holen, hmax, hd⟩ := starts_of_digestIds hid
    obtain rfl : ctx = ctx' := Except.ok.inj (hstarts.symm.trans hstarts')
    have hfresh := fresh_of_starts hstarts
    rw [hmax] at hfresh
    exact hfresh.digest holen hd hle chunks
  have hshake : ∀ (id : Sha3Id) (c : Nat) (ctx : Sha3Context) (chunks : List ByteString)
      (lens : List Nat), (id, c) ∈ shakeIds → sha3Starts id = .ok ctx →
      sha3FinishAll u (chunks.foldl (sha3Update u) ctx) lens =
        (fipsShake c chunks.flatten lens).map .ok := by
    intro id c ctx chunks lens hid hstarts
    obtain ⟨ctx', hstarts', holen, hmax⟩ := starts_of_shakeIds hid
    obtain rfl : ctx = ctx' := Except.ok.inj (hstarts.symm.trans hstarts')
    have hfresh := fresh_of_starts hstarts
    rw [hmax] at hfresh
    exact hfresh.outputs holen chunks lens
  refine ⟨stateArray_keccakF1600 u, ?_, hdigest, ?_, ?_, ?_⟩
  · intro id ctx chunks hstarts
    have hfresh := fresh_of_starts hstarts
    rw [(hfresh.absorbs chunks).cursor_eq, hfresh.cursor_eq]
    exact Sponge.foldl_absorbByte_message hfresh.isRate.pos _
  · intro id c ctx chunks lens hid hstarts
    refine ⟨hshake id c ctx chunks lens hid hstarts, ?_⟩
    unfold fipsShake
    rw [Sponge.flatten_outputs, Sponge.flatten_outputs, List.sum_singleton]
  · intro id d message olen hid hle
    obtain ⟨ctx, hstarts, -⟩ := starts_of_digestIds hid
    have hone := hdigest id d ctx [message] olen hid hstarts hle
    rw [List.flatten_singleton] at hone
    unfold sha3
    rw [hstarts]
    exact hone
  · intro id c message olen hid
    obtain ⟨ctx, hstarts, -⟩ := starts_of_shakeIds hid
    have hone := hshake id c ctx [message] [olen] hid hstarts
    rw [List.flatten_singleton] at hone
    have hhead : (sha3Finish u (sha3Update u ctx message) olen).1 =
        .ok (Sponge.output Keccak.keccakFString (200 - c)
          (Sponge.absorbMessage Keccak.keccakFString (200 - c) 0x1F message) 0 olen) :=
      (List.cons.inj hone).1
    unfold sha3
    rw [hstarts]
    show (sha3Finish u (sha3Update u ctx message) olen).1 = _
    rw [hhead]
    unfold fipsShake
    rw [Sponge.flatten_outputs, List.sum_singleton]

/-- Three chunks, one of them empty, and SHAKE128 output in pieces. -/
theorem sha3_refines_fips202_chunks :
    (sha3Finish ⟨false, true, true, true⟩
      ([[1, 2, 3], [], [4, 5, 6, 7, 8, 9, 10, 11, 12]].foldl (sha3Update ⟨false, true, true, true⟩)
        { sha3Init with olen := 224 / 8, maxBlockSize := 1152 / 8 }) 28).1 =
      .ok (fipsDigest 28 [1, 2, 3, 4, 5, 6, 7, 8, 9, 10, 11, 12]) ∧
    sha3FinishAll ⟨false, true, true, true⟩
      ([[1, 2, 3]].foldl (sha3Update ⟨false, true, true, true⟩)
        { sha3Init with maxBlockSize := 1344 / 8 }) [5, 0, 200] =
      (fipsShake 32 [1, 2, 3] [5, 0, 200]).map .ok := by
  obtain ⟨-, -, hdigest, hshake, -, -⟩ := sha3_refines_fips202 ⟨false, true, true, true⟩
  constructor
  · exact hdigest .sha3_224 28 _ [[1, 2, 3], [], [4, 5, 6, 7, 8, 9, 10, 11, 12]] 28
      (.head _) rfl (Nat.le_refl 28)
  · exact (hshake .shake128 32 _ [[1, 2, 3]] [5, 0, 200] (.head _) rfl).1

end TfPsaCrypto.Sha3
