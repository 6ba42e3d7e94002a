import TfPsaCrypto.Extras.NistKw
import TfPsaCrypto.Library.KeyWrap

/-!
# NIST key wrapping: round trip

With a block cipher that is a permutation, wrapping and unwrapping are those of the standard.
-/

namespace TfPsaCrypto

variable {i n : Nat}

namespace NistKw

open Bytes Blocks

/-! ## The rounds -/

def halves : Block 8 × Block 8 ≃ Block 16 where
  toFun p := Block.ofList (p.1.toList ++ p.2.toList)
  invFun b := (Block.ofList (b.toList.take 8), Block.ofList (b.toList.drop 8))
  left_inv := by
    rintro ⟨a, r⟩
    simp only
    rw [Block.toList_ofList (by simp), List.take_left' (by simp), List.drop_left' (by simp),
      Block.ofList_toList, Block.ofList_toList]
  right_inv := by
    intro b
    simp only
    rw [Block.toList_ofList (by simp), Block.toList_ofList (by simp), List.take_append_drop,
      Block.ofList_toList]

def addStep (t : Nat) : Block 8 ≃ Block 8 where
  toFun a := a.xor (Block.ofList (toBE 8 t))
  invFun a := a.xor (Block.ofList (toBE 8 t))
  left_inv := by
    intro a
    funext i
    simp [Block.xor, UInt8.xor_assoc]
  right_inv := by
    intro a
    funext i
    simp [Block.xor, UInt8.xor_assoc]

def round (e : Equiv.Perm (Block 16)) (t : Nat) : Block 8 × Block 8 ≃ Block 8 × Block 8 :=
  (halves.trans (e.trans halves.symm)).trans ((addStep t).prodCongr (Equiv.refl _))

def bytesOf (rs : List (Block 8)) : ByteString := rs.flatMap Block.toList

@[simp] theorem length_bytesOf (rs : List (Block 8)) : (bytesOf rs).length = 8 * rs.length :=
  Block.length_flatMap_toList rs

theorem exists_bytesOf (n : Nat) (data : ByteString) (h : data.length = 8 * n) :
    ∃ rs : List (Block 8), rs.length = n ∧ bytesOf rs = data := by
  induction n generalizing data with
  | zero =>
    have hnil : data = [] := List.length_eq_zero_iff.mp (by omega)
    exact ⟨[], rfl, hnil.symm⟩
  | succ n ih =>
    obtain ⟨rs, hlen, hrs⟩ := ih (data.drop 8) (by rw [List.length_drop]; omega)
    refine ⟨Block.ofList (data.take 8) :: rs, by rw [List.length_cons, hlen], ?_⟩
    have htake : (data.take 8).length = 8 := by
      rw [List.length_take]
      omega
    show (Block.ofList (data.take 8) : Block 8).toList ++ bytesOf rs = data
    rw [Block.toList_ofList htake, hrs, List.take_append_drop]

theorem bytesOf_injective {rs rs' : List (Block 8)} (h : bytesOf rs = bytesOf rs') : rs = rs' := by
  induction rs generalizing rs' with
  | nil =>
    have hlen := congrArg List.length h
    rw [length_bytesOf, length_bytesOf, List.length_nil] at hlen
    exact (List.length_eq_zero_iff.mp (by omega)).symm
  | cons r rs ih =>
    cases rs' with
    | nil =>
      have hlen := congrArg List.length h
      rw [length_bytesOf, length_bytesOf, List.length_nil, List.length_cons] at hlen
      omega
    | cons r' rs' =>
      obtain ⟨hhead, htail⟩ := List.append_inj h (by simp)
      have hr : r = r' := by
        rw [← Block.ofList_toList r, hhead, Block.ofList_toList]
      rw [hr, ih htail]

theorem slice_bytesOf {rs : List (Block 8)} (hi : i < rs.length) :
    slice (bytesOf rs) (8 * i) 8 = (rs[i]).toList :=
  Block.slice_flatMap_toList hi

theorem storeAt_bytesOf {rs : List (Block 8)} (hi : i < rs.length) (x : Block 8) :
    storeAt (bytesOf rs) (8 * i) x.toList = bytesOf (rs.set i x) :=
  Block.storeAt_flatMap_toList hi x

/-! ## The loops -/

variable {e : Equiv.Perm (Block 16)}

/-- The state of the loop for the semiblocks `st`, with the pointer at semiblock `i`. -/
def workOf (st : Block 8 × List (Block 8)) (i : Nat) : Work := ⟨st.1.toList, bytesOf st.2, 8 * i⟩

theorem calcAXorT_toList (a : Block 8) (t : Nat) :
    calcAXorT a.toList t = (addStep t a).toList := by
  unfold calcAXorT addStep
  rw [Equiv.coe_fn_mk, Block.toList_xor, Block.toList_ofList (by simp)]

theorem wrapNext_eq (hi : i < n) : wrapNext (8 * n) (8 * i) = 8 * ((i + 1) % n) := by
  unfold wrapNext
  by_cases hlast : i + 1 = n
  · rw [if_pos (by omega), hlast, Nat.mod_self]
  · rw [if_neg (by omega), Nat.mod_eq_of_lt (by omega)]
    omega

theorem unwrapNext_eq (hi : i < n) : unwrapNext (8 * n) (8 * i) = 8 * ((i + (n - 1)) % n) := by
  unfold unwrapNext
  by_cases hzero : i = 0
  · rw [if_pos (by omega), hzero, Nat.zero_add, Nat.mod_eq_of_lt (by omega)]
    omega
  · rw [if_neg (by omega), show i + (n - 1) = (i - 1) + n by omega, Nat.add_mod_right,
      Nat.mod_eq_of_lt (by omega)]
    omega

theorem wrapStep_eq {st : Block 8 × List (Block 8)} {t : Nat} (hi : i < st.2.length) :
    wrapStep (fun _ b => .ok (e b)) t (workOf st i) =
      .ok (workOf ((round e t (st.1, st.2[i])).1, st.2.set i (round e t (st.1, st.2[i])).2)
        ((i + 1) % st.2.length)) := by
  unfold wrapStep workOf
  simp only [slice_bytesOf hi, length_bytesOf, wrapNext_eq hi]
  have htake : (e (Block.ofList (st.1.toList ++ (st.2[i]).toList))).toList.take 8 =
      (halves.symm (e (halves (st.1, st.2[i])))).1.toList := by
    show _ = (Block.ofList (List.take 8 _) : Block 8).toList
    rw [Block.toList_ofList (by simp)]
    rfl
  have hdrop : (e (Block.ofList (st.1.toList ++ (st.2[i]).toList))).toList.drop 8 =
      (halves.symm (e (halves (st.1, st.2[i])))).2.toList := by
    show _ = (Block.ofList (List.drop 8 _) : Block 8).toList
    rw [Block.toList_ofList (by simp)]
    rfl
  rw [htake, hdrop, calcAXorT_toList, storeAt_bytesOf hi]
  rfl

theorem unwrapStep_eq {st : Block 8 × List (Block 8)} {t : Nat} (hi : i < st.2.length) :
    unwrapStep (fun _ b => .ok (e.symm b)) t (workOf st i) =
      .ok (workOf (((round e t).symm (st.1, st.2[i])).1,
        st.2.set i ((round e t).symm (st.1, st.2[i])).2)
          ((i + (st.2.length - 1)) % st.2.length)) := by
  unfold unwrapStep workOf
  simp only [slice_bytesOf hi, length_bytesOf, unwrapNext_eq hi, calcAXorT_toList]
  have htake : (e.symm (Block.ofList ((addStep t st.1).toList ++ (st.2[i]).toList))).toList.take 8 =
      (halves.symm (e.symm (halves ((addStep t).symm st.1, st.2[i])))).1.toList := by
    show _ = (Block.ofList (List.take 8 _) : Block 8).toList
    rw [Block.toList_ofList (by simp)]
    rfl
  have hdrop : (e.symm (Block.ofList ((addStep t st.1).toList ++ (st.2[i]).toList))).toList.drop 8 =
      (halves.symm (e.symm (halves ((addStep t).symm st.1, st.2[i])))).2.toList := by
    show _ = (Block.ofList (List.drop 8 _) : Block 8).toList
    rw [Block.toList_ofList (by simp)]
    rfl
  rw [htake, hdrop, storeAt_bytesOf hi]
  rfl

theorem wrapLoop_eq (left t : Nat) (st : Block 8 × List (Block 8)) (hpos : 0 < st.2.length) :
    wrapLoop (fun _ b => .ok (e b)) left (t + 1)
        (workOf (KeyWrap.upwards (round e) t st) (t % st.2.length)) =
      .ok (workOf (KeyWrap.upwards (round e) (t + left) st) ((t + left) % st.2.length)) := by
  induction left generalizing t with
  | zero => rfl
  | succ left ih =>
    have hi : t % st.2.length < (KeyWrap.upwards (round e) t st).2.length := by
      rw [KeyWrap.length_upwards]
      exact Nat.mod_lt _ hpos
    have hup : KeyWrap.upwards (round e) (t + 1) st =
        ((round e (t + 1) ((KeyWrap.upwards (round e) t st).1,
            (KeyWrap.upwards (round e) t st).2[t % st.2.length])).1,
          (KeyWrap.upwards (round e) t st).2.set (t % st.2.length)
            (round e (t + 1) ((KeyWrap.upwards (round e) t st).1,
              (KeyWrap.upwards (round e) t st).2[t % st.2.length])).2) := by
      rw [KeyWrap.upwards, KeyWrap.inPlace]
      simp only [KeyWrap.visited, Nat.add_sub_cancel, KeyWrap.length_upwards,
        List.getElem?_eq_getElem hi]
    have hnext : (t % st.2.length + 1) % st.2.length = (t + 1) % st.2.length := by
      rw [Nat.mod_add_mod]
    unfold wrapLoop
    rw [wrapStep_eq hi]
    simp only [← hup, KeyWrap.length_upwards, hnext]
    rw [ih (t + 1), Nat.add_right_comm, Nat.add_assoc]

theorem unwrapLoop_eq (t : Nat) (st : Block 8 × List (Block 8)) (hpos : 0 < st.2.length) :
    ∃ i, unwrapLoop (fun _ b => .ok (e.symm b)) t
        (workOf st ((t + (st.2.length - 1)) % st.2.length)) =
      .ok (workOf (KeyWrap.downwards (fun t => (round e t).symm) t st) i) := by
  induction t generalizing st with
  | zero => exact ⟨_, rfl⟩
  | succ t ih =>
    have hindex : (t + 1 + (st.2.length - 1)) % st.2.length = t % st.2.length := by
      rw [show t + 1 + (st.2.length - 1) = t + st.2.length by omega, Nat.add_mod_right]
    have hi : t % st.2.length < st.2.length := Nat.mod_lt _ hpos
    have hdown : KeyWrap.inPlace (fun t => (round e t).symm) (t + 1) st =
        (((round e (t + 1)).symm (st.1, st.2[t % st.2.length])).1,
          st.2.set (t % st.2.length) ((round e (t + 1)).symm (st.1, st.2[t % st.2.length])).2) := by
      rw [KeyWrap.inPlace]
      simp only [KeyWrap.visited, Nat.add_sub_cancel, List.getElem?_eq_getElem hi]
    have hlen := @KeyWrap.length_inPlace _ (fun t => (round e t).symm) (t + 1) st
    unfold unwrapLoop
    rw [hindex, unwrapStep_eq hi]
    simp only [← hdown]
    have hnext : (t % st.2.length + (st.2.length - 1)) % st.2.length =
        (t + ((KeyWrap.inPlace (fun t => (round e t).symm) (t + 1) st).2.length - 1)) %
          (KeyWrap.inPlace (fun t => (round e t).symm) (t + 1) st).2.length := by
      rw [hlen, Nat.mod_add_mod]
    rw [hnext]
    exact ih _ (by rw [hlen]; exact hpos)

/-! ## Strings of semiblocks -/

/-- The environment in which no call fails, with the block cipher `e` under an AES key. -/
def idealEnv (e : Equiv.Perm (Block 16)) : Env :=
  { keyAttributes := .ok psaKeyTypeAes, encryptSetup := .success, decryptSetup := .success
    encrypt := fun _ b => .ok (e b), decrypt := fun _ b => .ok (e.symm b), finish := .success }

theorem idealEnv_encrypt : (idealEnv e).encrypt = fun _ b => .ok (e b) := rfl

theorem idealEnv_decrypt : (idealEnv e).decrypt = fun _ b => .ok (e.symm b) := rfl

theorem idealEnv_finish : (idealEnv e).finish = .success := rfl

def sealString (e : Equiv.Perm (Block 16)) : Block 8 × List (Block 8) → Block 8 × List (Block 8)
  | (a, [r]) => ((halves.symm (e (halves (a, r)))).1, [(halves.symm (e (halves (a, r)))).2])
  | st => KeyWrap.wrap (round e) st

def openString (e : Equiv.Perm (Block 16)) : Block 8 × List (Block 8) → Block 8 × List (Block 8)
  | (a, [r]) =>
    ((halves.symm (e.symm (halves (a, r)))).1, [(halves.symm (e.symm (halves (a, r)))).2])
  | st => KeyWrap.unwrap (round e) st

theorem sealString_of_ne {st : Block 8 × List (Block 8)} (h : st.2.length ≠ 1) :
    sealString e st = KeyWrap.wrap (round e) st := by
  rcases st with ⟨a, rs⟩
  match rs, h with
  | [], _ => rfl
  | _ :: _ :: _, _ => rfl

theorem openString_of_ne {st : Block 8 × List (Block 8)} (h : st.2.length ≠ 1) :
    openString e st = KeyWrap.unwrap (round e) st := by
  rcases st with ⟨a, rs⟩
  match rs, h with
  | [], _ => rfl
  | _ :: _ :: _, _ => rfl

theorem length_wrap (st : Block 8 × List (Block 8)) :
    (KeyWrap.wrap (round e) st).2.length = st.2.length := by
  rw [KeyWrap.wrap_eq, KeyWrap.length_upwards]

theorem length_unwrap (st : Block 8 × List (Block 8)) :
    (KeyWrap.unwrap (round e) st).2.length = st.2.length := by
  rw [KeyWrap.unwrap_eq, KeyWrap.length_downwards]

theorem length_sealString (st : Block 8 × List (Block 8)) :
    (sealString e st).2.length = st.2.length := by
  by_cases h : st.2.length = 1
  · rcases st with ⟨a, rs⟩
    obtain ⟨r, rfl⟩ := List.length_eq_one_iff.mp h
    rfl
  · rw [sealString_of_ne h, length_wrap]

theorem length_openString (st : Block 8 × List (Block 8)) :
    (openString e st).2.length = st.2.length := by
  by_cases h : st.2.length = 1
  · rcases st with ⟨a, rs⟩
    obtain ⟨r, rfl⟩ := List.length_eq_one_iff.mp h
    rfl
  · rw [openString_of_ne h, length_unwrap]

theorem openString_sealString (st : Block 8 × List (Block 8)) :
    openString e (sealString e st) = st := by
  by_cases h : st.2.length = 1
  · rcases st with ⟨a, rs⟩
    obtain ⟨r, rfl⟩ := List.length_eq_one_iff.mp h
    simp [sealString, openString]
  · have hlen : (sealString e st).2.length ≠ 1 := by rwa [length_sealString]
    rw [openString_of_ne hlen, sealString_of_ne h, KeyWrap.unwrap_wrap]

theorem wrap_unwrap (st : Block 8 × List (Block 8)) :
    KeyWrap.wrap (round e) (KeyWrap.unwrap (round e) st) = st := by
  rw [KeyWrap.wrap_eq, length_unwrap, KeyWrap.unwrap_eq, KeyWrap.upwards_downwards]

theorem sealString_openString (st : Block 8 × List (Block 8)) :
    sealString e (openString e st) = st := by
  by_cases h : st.2.length = 1
  · rcases st with ⟨a, rs⟩
    obtain ⟨r, rfl⟩ := List.length_eq_one_iff.mp h
    simp [sealString, openString]
  · have hlen : (openString e st).2.length ≠ 1 := by rwa [length_openString]
    rw [sealString_of_ne hlen, openString_of_ne h, wrap_unwrap]

def bytesOfString (st : Block 8 × List (Block 8)) : ByteString := st.1.toList ++ bytesOf st.2

@[simp] theorem length_bytesOfString (st : Block 8 × List (Block 8)) :
    (bytesOfString st).length = 8 + 8 * st.2.length := by
  simp [bytesOfString]

theorem exists_bytesOfString (n : Nat) (data : ByteString) (h : data.length = 8 + 8 * n) :
    ∃ st : Block 8 × List (Block 8), st.2.length = n ∧ bytesOfString st = data := by
  obtain ⟨rs, hlen, hrs⟩ := exists_bytesOf n (data.drop 8) (by rw [List.length_drop]; omega)
  refine ⟨(Block.ofList (data.take 8), rs), hlen, ?_⟩
  have htake : (data.take 8).length = 8 := by
    rw [List.length_take]
    omega
  rw [bytesOfString, Block.toList_ofList htake, hrs, List.take_append_drop]

theorem toList_halves (a r : Block 8) : (halves (a, r)).toList = a.toList ++ r.toList :=
  Block.toList_ofList (by simp)

theorem toList_eq_halves (b : Block 16) :
    b.toList = (halves.symm b).1.toList ++ (halves.symm b).2.toList := by
  rw [← toList_halves, Prod.mk.eta, Equiv.apply_symm_apply]

/-! ## The two calls -/

variable {mode : Mode} {input out : ByteString} {st : Block 8 × List (Block 8)}

theorem mbedtlsNistKwWrap_eq (hstring : wrapString mode input out.length =
      .ok (st.1.toList, bytesOf st.2)) (hpos : 0 < st.2.length)
    (hsingle : mode = .kwp ∧ input.length ≤ 8 ↔ st.2.length = 1) :
    mbedtlsNistKwWrap (idealEnv e) mode input out =
      ⟨.success, bytesOfString (sealString e st) ++ out.drop (8 + 8 * st.2.length),
        8 + 8 * st.2.length⟩ := by
  have hsemiblocks : (bytesOf st.2).length / 8 + 1 = st.2.length + 1 := by
    rw [length_bytesOf]
    omega
  have hverify : verifyInput (idealEnv e) = .success := rfl
  unfold mbedtlsNistKwWrap
  rw [if_neg (by rw [hverify]; simp), if_neg (by simp [idealEnv]), hstring]
  simp only [hsemiblocks]
  by_cases hone : st.2.length = 1
  · rw [if_pos (hsingle.mpr hone)]
    rcases st with ⟨a, rs⟩
    obtain ⟨r, rfl⟩ := List.length_eq_one_iff.mp hone
    have hblock : Block.ofList (a.toList ++ bytesOf [r]) = halves (a, r) := by
      simp [halves, bytesOf]
    have hbytes : bytesOfString (sealString e (a, [r])) = (e (halves (a, r))).toList := by
      rw [toList_eq_halves (e (halves (a, r)))]
      simp [bytesOfString, sealString, bytesOf]
    simp only [idealEnv_encrypt, hblock]
    rw [if_neg (by rw [idealEnv_finish]; simp), hbytes]
    rfl
  · have hone' : ¬ (mode = .kwp ∧ input.length ≤ 8) := fun h => hone (hsingle.mp h)
    have hloop := wrapLoop_eq (e := e) (6 * st.2.length) 0 st hpos
    simp only [Nat.zero_mod, Nat.zero_add] at hloop
    rw [← KeyWrap.wrap_eq] at hloop
    have hloop' : wrapLoop (idealEnv e).encrypt (6 * (st.2.length + 1 - 1)) 1
        ⟨st.1.toList, bytesOf st.2, 0⟩ = _ := hloop
    rw [if_neg hone', if_neg (by omega), hloop']
    rw [sealString_of_ne hone, show 8 + 8 * st.2.length = (st.2.length + 1) * 8 by omega]
    rfl

theorem unwrap_eq_open (hpos : 1 < st.2.length) :
    unwrap (idealEnv e) (bytesOfString st) (st.2.length + 1) =
      ⟨.success, (openString e st).1.toList, bytesOf (openString e st).2, 8 * st.2.length⟩ := by
  obtain ⟨i, hloop⟩ := unwrapLoop_eq (e := e) (6 * st.2.length) st (by omega)
  have hindex : (6 * st.2.length + (st.2.length - 1)) % st.2.length = st.2.length - 1 := by
    rw [Nat.mul_comm, Nat.mul_add_mod, Nat.mod_eq_of_lt (by omega)]
  rw [hindex, ← KeyWrap.unwrap_eq] at hloop
  have hwork : workOf st (st.2.length - 1) =
      ⟨(bytesOfString st).take 8, slice (bytesOfString st) 8 ((st.2.length + 1 - 1) * 8),
        (st.2.length + 1 - 2) * 8⟩ := by
    have hslice : slice (bytesOfString st) 8 ((st.2.length + 1 - 1) * 8) = bytesOf st.2 := by
      unfold slice bytesOfString
      rw [List.drop_left' (by simp), List.take_of_length_le (by simp; omega)]
    unfold workOf
    rw [hslice, bytesOfString, List.take_left' (by simp),
      show 8 * (st.2.length - 1) = (st.2.length + 1 - 2) * 8 by omega]
  rw [hwork] at hloop
  unfold unwrap
  rw [if_neg (by omega)]
  have hloop' : unwrapLoop (idealEnv e).decrypt (6 * (st.2.length + 1 - 1))
      ⟨(bytesOfString st).take 8, slice (bytesOfString st) 8 ((st.2.length + 1 - 1) * 8),
        (st.2.length + 1 - 2) * 8⟩ = _ := hloop
  rw [hloop']
  simp only
  rw [if_neg (by rw [idealEnv_finish]; simp), openString_of_ne (by omega),
    show (st.2.length + 1 - 1) * 8 =
    8 * st.2.length by omega]
  rfl

theorem unwrapSingle_eq_open (hone : st.2.length = 1) :
    unwrapSingle (idealEnv e) (bytesOfString st) =
      ⟨.success, (openString e st).1.toList, bytesOf (openString e st).2, 8 * st.2.length⟩ := by
  rcases st with ⟨a, rs⟩
  obtain ⟨r, rfl⟩ := List.length_eq_one_iff.mp hone
  have hblock : Block.ofList ((bytesOfString (a, [r])).take 16) = halves (a, r) := by
    rw [List.take_of_length_le (by simp)]
    simp [halves, bytesOfString, bytesOf]
  unfold unwrapSingle
  simp only [idealEnv_decrypt, hblock]
  rw [if_neg (by rw [idealEnv_finish]; simp), toList_eq_halves (e.symm (halves (a, r))),
    List.take_left' (by simp),
    List.drop_left' (by simp)]
  simp [openString, bytesOf]

/-- What `mbedtls_nist_kw_unwrap` checks, for a ciphertext of whole semiblocks. -/
def opened (e : Equiv.Perm (Block 16)) (st : Block 8 × List (Block 8)) : Unwrapped :=
  ⟨.success, (openString e st).1.toList, bytesOf (openString e st).2, 8 * st.2.length⟩

theorem lengths_bytesOfString (st : Block 8 × List (Block 8)) (hhi : 8 + 8 * st.2.length ≤ 2 ^ 57) :
    (bytesOfString st).length = 8 + 8 * st.2.length ∧
      ((bytesOfString st).length + (sizeMod - 8)) % sizeMod = 8 * st.2.length ∧
        (bytesOfString st).length / 8 = st.2.length + 1 := by
  rw [length_bytesOfString]
  unfold sizeMod
  omega

theorem mbedtlsNistKwUnwrap_kw (hlo : 2 ≤ st.2.length) (hhi : 8 + 8 * st.2.length ≤ 2 ^ 57)
    (hout : 8 * st.2.length ≤ out.length) :
    mbedtlsNistKwUnwrap (idealEnv e) .kw (bytesOfString st) out =
      if nistKwIcv1 ≠ (openString e st).1.toList then
        unwrapFails .errorInvalidSignature (bytesOf (openString e st).2) (8 * st.2.length) out
      else unwrapSucceeds (bytesOf (openString e st).2) (8 * st.2.length) out := by
  have hverify : verifyInput (idealEnv e) = .success := rfl
  obtain ⟨hlen, hsize, hdiv⟩ := lengths_bytesOfString st (by omega)
  unfold mbedtlsNistKwUnwrap
  rw [if_neg (by rw [hverify]; simp), if_neg (by simp [idealEnv]), if_neg (by omega), if_pos rfl,
    if_neg (by rw [hlen]; omega), hdiv, unwrap_eq_open (by omega)]
  rw [if_neg (by simp)]

theorem mbedtlsNistKwUnwrap_kwp (hlo : 1 ≤ st.2.length) (hhi : 8 + 8 * st.2.length ≤ 2 ^ 32)
    (hout : 8 * st.2.length ≤ out.length) :
    mbedtlsNistKwUnwrap (idealEnv e) .kwp (bytesOfString st) out =
      let check := kwpCheck (8 + 8 * st.2.length) (opened e st)
      if check.1 ≠ .success then
        unwrapFails check.1 (bytesOf (openString e st).2) (8 * st.2.length) out
      else
        unwrapSucceeds
          (storeAt (bytesOf (openString e st).2) check.2.1 (List.replicate check.2.2 0))
          check.2.1 out := by
  have hverify : verifyInput (idealEnv e) = .success := rfl
  obtain ⟨hlen, hsize, hdiv⟩ := lengths_bytesOfString st (by omega)
  have hu : (if (bytesOfString st).length = 16 then unwrapSingle (idealEnv e) (bytesOfString st)
      else unwrap (idealEnv e) (bytesOfString st) ((bytesOfString st).length / 8)) =
        opened e st := by
    by_cases hone : st.2.length = 1
    · rw [if_pos (by rw [hlen]; omega), unwrapSingle_eq_open hone]
      rfl
    · rw [if_neg (by rw [hlen]; omega), hdiv, unwrap_eq_open (by omega)]
      rfl
  unfold mbedtlsNistKwUnwrap
  rw [if_neg (by rw [hverify]; simp), if_neg (by simp [idealEnv]), if_neg (by omega),
    if_neg (by simp), if_pos rfl, if_neg (by rw [hlen]; omega), hu, hlen]
  rw [if_neg (by simp [opened])]
  rfl

/-! ## What the calls accept -/

theorem wrapString_kw {a r : ByteString} :
    wrapString .kw input n = .ok (a, r) ↔
      input.length + 8 ≤ n ∧ 16 ≤ input.length ∧ input.length ≤ 2 ^ 57 - 8 ∧
        input.length % 8 = 0 ∧ a = nistKwIcv1 ∧ r = input := by
  unfold wrapString sizeMod
  rw [if_pos rfl]
  constructor
  · intro h
    split at h
    · cases h
    · split at h
      · cases h
      · cases h
        refine ⟨?_, ?_, ?_, ?_, rfl, rfl⟩ <;> omega
  · rintro ⟨hout, hlo, hhi, hmod, rfl, rfl⟩
    rw [if_neg (by omega), if_neg (by omega)]

theorem wrapString_kwp {a r : ByteString} :
    wrapString .kwp input n = .ok (a, r) ↔
      input.length + 8 + padLength input.length ≤ n ∧ 1 ≤ input.length ∧
        input.length ≤ 2 ^ 32 - 1 ∧ a = nistKwIcv2 ++ toBE 4 input.length ∧
          r = input ++ List.replicate (padLength input.length) 0 := by
  have hpad : padLength input.length ≤ 8 := by
    unfold padLength
    split <;> omega
  unfold wrapString sizeMod
  rw [if_neg (by simp)]
  simp only
  constructor
  · intro h
    split at h
    · cases h
    · split at h
      · cases h
      · cases h
        refine ⟨?_, ?_, ?_, rfl, rfl⟩ <;> omega
  · rintro ⟨hout, hlo, hhi, rfl, rfl⟩
    rw [if_neg (by omega), if_neg (by omega)]

theorem wrapString_string (hmode : mode = .kw ∨ mode = .kwp) {a r : ByteString}
    (h : wrapString mode input n = .ok (a, r)) :
    ∃ st : Block 8 × List (Block 8), st.1.toList = a ∧ bytesOf st.2 = r ∧ 0 < st.2.length ∧
      (mode = .kwp ∧ input.length ≤ 8 ↔ st.2.length = 1) ∧ 8 + 8 * st.2.length ≤ n := by
  have hstring : ∀ k, a.length = 8 → r.length = 8 * k →
      ∃ st : Block 8 × List (Block 8), st.1.toList = a ∧ bytesOf st.2 = r ∧ st.2.length = k := by
    intro k ha hr
    obtain ⟨st, hlen, hst⟩ := exists_bytesOfString k (a ++ r) (by rw [List.length_append, ha, hr])
    obtain ⟨hfirst, hrest⟩ := List.append_inj hst (by rw [Block.length_toList, ha])
    exact ⟨st, hfirst, hrest, hlen⟩
  rcases hmode with rfl | rfl
  · obtain ⟨hout, hlo, _, hmod, rfl, rfl⟩ := wrapString_kw.mp h
    obtain ⟨st, hfirst, hrest, hlen⟩ := hstring (r.length / 8) rfl (by omega)
    refine ⟨st, hfirst, hrest, by omega, ?_, by omega⟩
    constructor
    · rintro ⟨hmode, _⟩
      cases hmode
    · intro hone
      omega
  · obtain ⟨hout, hlo, _, rfl, rfl⟩ := wrapString_kwp.mp h
    have hpad : (input.length + padLength input.length) % 8 = 0 := by
      unfold padLength
      split <;> omega
    have hpad' : padLength input.length < 8 := by
      unfold padLength
      split <;> omega
    obtain ⟨st, hfirst, hrest, hlen⟩ :=
      hstring ((input.length + padLength input.length) / 8) (by simp [nistKwIcv2])
        (by rw [List.length_append, List.length_replicate]; omega)
    refine ⟨st, hfirst, hrest, by omega, ?_, by omega⟩
    constructor
    · rintro ⟨_, hshort⟩
      omega
    · intro hone
      exact ⟨rfl, by omega⟩

theorem wrapString_of_success
    (h : (mbedtlsNistKwWrap (idealEnv e) mode input out).status = .success) :
    ∃ a r, wrapString mode input out.length = .ok (a, r) := by
  have herror : ∀ status, wrapString mode input out.length = .error status →
      status ≠ .success := by
    intro status hs
    unfold wrapString at hs
    split at hs
    · split at hs
      · cases hs; simp
      · split at hs
        · cases hs; simp
        · cases hs
    · simp only at hs
      split at hs
      · cases hs; simp
      · split at hs
        · cases hs; simp
        · cases hs
  have hverify : verifyInput (idealEnv e) = .success := rfl
  cases hs : wrapString mode input out.length with
  | ok p => exact ⟨p.1, p.2, rfl⟩
  | error status =>
    unfold mbedtlsNistKwWrap at h
    rw [if_neg (by rw [hverify]; simp), if_neg (by simp [idealEnv]), hs] at h
    exact absurd h (herror status hs)

theorem lengths_of_unwrap_success {env : Env} (hmode : mode = .kw ∨ mode = .kwp)
    (h : (mbedtlsNistKwUnwrap env mode input out).status = .success) :
    input.length % 8 = 0 ∧ input.length - 8 ≤ out.length ∧
      (mode = .kw → 24 ≤ input.length ∧ input.length ≤ 2 ^ 57) ∧
        (mode = .kwp → 16 ≤ input.length ∧ input.length ≤ 2 ^ 32) := by
  unfold mbedtlsNistKwUnwrap at h
  split at h
  · next hbad => exact absurd h hbad
  split at h
  · next hbad => exact absurd h hbad
  split at h
  · exact absurd h (by simp [unwrapFails])
  next hsize =>
  unfold sizeMod at hsize
  rcases hmode with rfl | rfl
  · rw [if_pos rfl] at h
    split at h
    · exact absurd h (by simp [unwrapFails])
    · refine ⟨by omega, by omega, fun _ => ⟨by omega, by omega⟩, ?_⟩
      intro hkwp
      cases hkwp
  · rw [if_neg (by simp), if_pos rfl] at h
    split at h
    · exact absurd h (by simp [unwrapFails])
    · refine ⟨by omega, by omega, ?_, fun _ => ⟨by omega, by omega⟩⟩
      intro hkw
      cases hkw

/-! ### The checks of KWP -/

theorem kwpCheck_of {u : Unwrapped} {m : Nat} {p : ByteString} (hm : 8 ≤ m)
    (hp : p.length < 2 ^ 32) (hle : p.length ≤ m ∧ m ≤ p.length + 7)
    (ha : u.a = nistKwIcv2 ++ toBE 4 p.length)
    (hout : u.output = p ++ List.replicate (m - p.length) 0) (hlen : u.outputLength = m) :
    kwpCheck (8 + m) u = (.success, p.length, m - p.length) := by
  have hicv4 : nistKwIcv2.length = 4 := rfl
  have hplen : ofBE (slice u.a 4 4) = p.length := by
    have hslice : slice u.a 4 4 = toBE 4 p.length := by
      unfold slice
      rw [ha, List.drop_left' hicv4, List.take_of_length_le (by simp)]
    have hp' : p.length < 256 ^ 4 := hp
    rw [hslice, ofBE_toBE, Nat.mod_eq_of_lt hp']
  have hicv : u.a.take 4 = nistKwIcv2 := by
    rw [ha, List.take_left' hicv4]
  have hpad : (8 + m - 8 + (sizeMod - p.length)) % sizeMod = m - p.length := by
    unfold sizeMod
    omega
  have hmod : (m - p.length) % 8 = m - p.length := Nat.mod_eq_of_lt (by omega)
  have hlast : ((u.output.drop (m - 8)).take 8).drop (8 - (m - p.length)) =
      List.replicate (m - p.length) 0 := by
    have htake : (u.output.drop (m - 8)).take 8 = u.output.drop (m - 8) := by
      apply List.take_of_length_le
      rw [hout, List.length_drop, List.length_append, List.length_replicate]
      omega
    rw [htake, List.drop_drop, hout, List.drop_left' (by omega)]
  unfold kwpCheck
  simp only [hplen, hpad, hmod, hlen, hlast, hicv, ne_eq, not_true_eq_false, if_false]
  rw [if_neg (by omega)]

theorem of_kwpCheck {u : Unwrapped} {m : Nat} (hm : 8 ≤ m) (hhi : m ≤ 2 ^ 32)
    (ha : u.a.length = 8) (hlen : u.output.length = m) (hlen' : u.outputLength = m)
    (h : (kwpCheck (8 + m) u).1 = .success) :
    ∃ p : ByteString, p.length < 2 ^ 32 ∧ (p.length ≤ m ∧ m ≤ p.length + 7) ∧
      u.a = nistKwIcv2 ++ toBE 4 p.length ∧
      u.output = p ++ List.replicate (m - p.length) 0 := by
  generalize hplen : ofBE (slice u.a 4 4) = plen
  have hslice : (slice u.a 4 4).length = 4 := by
    rw [length_slice]
    omega
  have hbound : plen < 2 ^ 32 := by
    have := ofBE_lt (slice u.a 4 4)
    rw [hslice, hplen] at this
    exact this
  unfold kwpCheck at h
  simp only [hplen, hlen'] at h
  split at h
  · exact absurd h (by simp)
  next hzeros =>
  split at h
  · exact absurd h (by simp)
  next hpad =>
  split at h
  · exact absurd h (by simp)
  next hicv =>
  have hle : plen ≤ m ∧ m ≤ plen + 7 := by
    unfold sizeMod at hpad
    omega
  have hdiff : (8 + m - 8 + (sizeMod - plen)) % sizeMod % 8 = m - plen := by
    unfold sizeMod
    omega
  rw [hdiff, Classical.not_not] at hzeros
  have htail : u.output.drop plen = List.replicate (m - plen) 0 := by
    have htake : (u.output.drop (m - 8)).take 8 = u.output.drop (m - 8) := by
      apply List.take_of_length_le
      rw [List.length_drop]
      omega
    rw [htake, List.drop_drop] at hzeros
    rw [← hzeros]
    congr 1
    omega
  have hp : (u.output.take plen).length = plen := by
    rw [List.length_take]
    omega
  refine ⟨u.output.take plen, by omega, by omega, ?_, ?_⟩
  · have hrest : u.a.drop 4 = toBE 4 plen := by
      have hall : slice u.a 4 4 = u.a.drop 4 := by
        unfold slice
        rw [List.take_of_length_le (by rw [List.length_drop]; omega)]
      rw [← hall, ← hplen]
      conv_lhs => rw [← toBE_ofBE (slice u.a 4 4), hslice]
    rw [hp, ← hrest, ← Classical.not_not.mp hicv, List.take_append_drop]
  · rw [hp, ← htail, List.take_append_drop]

/-! ## Round trip -/

theorem unwrap_of_wrap (hmode : mode = .kw ∨ mode = .kwp) {a r : ByteString}
    (hstring : wrapString mode input out.length = .ok (a, r))
    (hshort : mode = .kwp → input.length ≤ 2 ^ 32 - 8) (hst : bytesOfString st = a ++ r)
    (hlen : st.2.length = r.length / 8) (hr : r.length % 8 = 0) {out' : ByteString}
    (hout : r.length ≤ out'.length) :
    (mbedtlsNistKwUnwrap (idealEnv e) mode (bytesOfString (sealString e st)) out').status =
        .success ∧
      (mbedtlsNistKwUnwrap (idealEnv e) mode (bytesOfString (sealString e st)) out').outputLength =
        input.length ∧
      (mbedtlsNistKwUnwrap (idealEnv e) mode (bytesOfString (sealString e st)) out').output.take
        input.length = input := by
  have hr8 : r.length = 8 * st.2.length := by omega
  obtain ⟨hfirst, hrest⟩ : st.1.toList = a ∧ bytesOf st.2 = r := by
    apply List.append_inj' hst
    rw [length_bytesOf, hr8]
  have hopen : openString e (sealString e st) = st := openString_sealString st
  have hseal : (sealString e st).2.length = st.2.length := length_sealString st
  rcases hmode with rfl | rfl
  · obtain ⟨_, hlo, hhi, _, rfl, rfl⟩ := wrapString_kw.mp hstring
    rw [mbedtlsNistKwUnwrap_kw (by omega) (by omega) (by omega), hopen, hfirst, hrest,
      if_neg (by simp), hseal]
    refine ⟨rfl, by rw [hr8]; rfl, ?_⟩
    exact List.take_left' rfl
  · obtain ⟨_, hlo, hhi, rfl, rfl⟩ := wrapString_kwp.mp hstring
    have hshort := hshort rfl
    have hpad : padLength input.length < 8 := by
      unfold padLength
      split <;> omega
    rw [List.length_append, List.length_replicate] at hr8 hout
    have hpad' : padLength input.length = 8 * st.2.length - input.length := by omega
    rw [mbedtlsNistKwUnwrap_kwp (by omega) (by omega) (by omega), hopen, hseal, hrest]
    have hcheck : kwpCheck (8 + 8 * st.2.length) (opened e (sealString e st)) =
        (.success, input.length, 8 * st.2.length - input.length) := by
      apply kwpCheck_of (by omega) (by omega) (by omega)
      · show (openString e (sealString e st)).1.toList = _
        rw [hopen, hfirst]
      · show bytesOf (openString e (sealString e st)).2 = _
        rw [hopen, hrest, hpad']
      · show 8 * (sealString e st).2.length = _
        rw [hseal]
    simp only [hcheck]
    rw [if_neg (by simp), ← hpad']
    have hstore : storeAt (input ++ List.replicate (padLength input.length) 0) input.length
        (List.replicate (padLength input.length) 0) =
          input ++ List.replicate (padLength input.length) 0 := by
      unfold storeAt
      rw [List.take_left' rfl, List.drop_of_length_le (by simp), List.append_nil]
    rw [hstore]
    refine ⟨rfl, rfl, ?_⟩
    show (input ++ _ ++ _).take input.length = input
    rw [List.append_assoc, List.take_left' rfl]

theorem wrap_of_unwrap (hmode : mode = .kw ∨ mode = .kwp)
    (h : (mbedtlsNistKwUnwrap (idealEnv e) mode input out).status = .success) {out' : ByteString}
    (hout : input.length ≤ out'.length) :
    let u := mbedtlsNistKwUnwrap (idealEnv e) mode input out
    mbedtlsNistKwWrap (idealEnv e) mode (u.output.take u.outputLength) out' =
      ⟨.success, input ++ out'.drop input.length, input.length⟩ := by
  obtain ⟨hmod, hsize, hkw, hkwp⟩ := lengths_of_unwrap_success hmode h
  have hlo : 16 ≤ input.length := by
    rcases hmode with rfl | rfl
    · have := (hkw rfl).1
      omega
    · exact (hkwp rfl).1
  obtain ⟨st, hlen, rfl⟩ := exists_bytesOfString (input.length / 8 - 1) input (by omega)
  have hbytes := length_bytesOfString st
  rw [hbytes] at hkw hkwp hsize hout hlen
  have hopen : (openString e st).2.length = st.2.length := length_openString st
  -- what is unwrapped is the string that is wrapped again
  have hagain : ∀ p : ByteString,
      wrapString mode p out'.length =
        .ok ((openString e st).1.toList, bytesOf (openString e st).2) →
      (mode = .kwp ∧ p.length ≤ 8 ↔ st.2.length = 1) →
      mbedtlsNistKwWrap (idealEnv e) mode p out' =
        ⟨.success, bytesOfString st ++ out'.drop (bytesOfString st).length,
          (bytesOfString st).length⟩ := by
    intro p hstring hsingle
    rw [mbedtlsNistKwWrap_eq hstring (by omega) (by rw [hopen]; exact hsingle),
      sealString_openString, hopen, hbytes]
  rcases hmode with rfl | rfl
  · have hlo := (hkw rfl).1
    have hhi := (hkw rfl).2
    rw [mbedtlsNistKwUnwrap_kw (by omega) hhi (by omega)] at h ⊢
    split at h
    · exact absurd h (by simp [unwrapFails])
    next hicv =>
    rw [if_neg hicv]
    have htake :
        (unwrapSucceeds (bytesOf (openString e st).2) (8 * st.2.length) out).output.take
        (8 * st.2.length) = bytesOf (openString e st).2 :=
      List.take_left' (by rw [length_bytesOf, hopen])
    simp only [unwrapSucceeds] at htake ⊢
    rw [htake]
    apply hagain
    · rw [wrapString_kw]
      refine ⟨?_, ?_, ?_, ?_, (Classical.not_not.mp hicv).symm, rfl⟩ <;>
        rw [length_bytesOf, hopen] <;> omega
    constructor
    · rintro ⟨hmode, _⟩
      cases hmode
    · intro hone
      omega
  · have hhi := (hkwp rfl).2
    rw [mbedtlsNistKwUnwrap_kwp (by omega) hhi (by omega)] at h ⊢
    simp only at h ⊢
    split at h
    · next hbad => exact absurd h hbad
    next hcheck =>
    obtain ⟨p, hp, hle, ha, hrest⟩ := of_kwpCheck (u := opened e st) (m := 8 * st.2.length)
      (by omega) (by omega) (Block.length_toList _)
      (by show (bytesOf _).length = _; rw [length_bytesOf, hopen]) rfl
      (Classical.not_not.mp hcheck)
    have hcheck' := kwpCheck_of (u := opened e st) (by omega) hp hle ha hrest rfl
    have hrest' : bytesOf (openString e st).2 =
        p ++ List.replicate (8 * st.2.length - p.length) 0 := hrest
    have hstore : storeAt (bytesOf (openString e st).2) p.length
        (List.replicate (8 * st.2.length - p.length) 0) = bytesOf (openString e st).2 := by
      unfold storeAt
      rw [hrest', List.take_left' rfl, List.drop_of_length_le (by simp), List.append_nil]
    rw [if_neg hcheck]
    simp only [hcheck', hstore]
    have htake : (unwrapSucceeds (bytesOf (openString e st).2) p.length out).output.take
        p.length = p := by
      simp only [unwrapSucceeds]
      rw [hrest', List.append_assoc, List.take_left' rfl]
    simp only [unwrapSucceeds] at htake ⊢
    rw [htake]
    have hpad : padLength p.length = 8 * st.2.length - p.length := by
      unfold padLength
      split <;> omega
    apply hagain
    · rw [wrapString_kwp, hpad]
      exact ⟨by omega, by omega, by omega, ha, hrest'⟩
    constructor
    · rintro ⟨_, hshort⟩
      omega
    · intro hone
      exact ⟨rfl, by omega⟩

/-! ## Failures -/

theorem zeroFirst_append (n : Nat) (k : Nat) (out : ByteString) :
    zeroFirst n (List.replicate k 0 ++ out.drop k) =
      List.replicate (max n k) 0 ++ out.drop (max n k) := by
  unfold zeroFirst
  rw [List.drop_append, List.drop_replicate, List.length_replicate, List.drop_drop,
    ← List.append_assoc, List.replicate_append_replicate]
  congr 2
  · omega
  · omega

theorem length_unwrapLoop {decrypt : Cipher} {t : Nat} {w w' : Work}
    (hoff : w.offset + 8 ≤ w.r.length) (h : unwrapLoop decrypt t w = .ok w') :
    w'.r.length = w.r.length := by
  induction t generalizing w with
  | zero =>
    cases h
    rfl
  | succ t ih =>
    unfold unwrapLoop at h
    cases hstep : unwrapStep decrypt (t + 1) w with
    | error failure =>
      rw [hstep] at h
      cases h
    | ok w₁ =>
      rw [hstep] at h
      have hw₁ : w₁.r.length = w.r.length ∧ w₁.offset + 8 ≤ w.r.length := by
        unfold unwrapStep at hstep
        split at hstep
        · cases hstep
        next outbuff _ =>
        cases hstep
        refine ⟨length_storeAt (by simpa using hoff), ?_⟩
        show unwrapNext w.r.length w.offset + 8 ≤ w.r.length
        unfold unwrapNext
        split <;> omega
      rw [ih (by omega) h, hw₁.1]

theorem unwrap_written {env : Env} {semiblocks : Nat} (hlen : input.length = 8 * semiblocks) :
    (unwrap env input semiblocks).output =
        List.replicate ((semiblocks - 1) * 8) 0 ∨
      (unwrap env input semiblocks).output.length = (unwrap env input semiblocks).outputLength := by
  unfold unwrap
  split
  · exact .inl rfl
  next hmin =>
  split
  · exact .inl rfl
  next w hw =>
  split
  · exact .inl rfl
  right
  have hslice : (slice input 8 ((semiblocks - 1) * 8)).length = (semiblocks - 1) * 8 := by
    rw [length_slice]
    omega
  have hr := length_unwrapLoop (by simp only [hslice]; omega) hw
  simp only [hslice] at hr
  exact hr

theorem unwrapFails_output {status : PsaStatus} {written : ByteString}
    (h : (∃ k, written = List.replicate k 0) ∨ written.length = n) :
    ∃ m, (unwrapFails status written n out).output = List.replicate m 0 ++ out.drop m := by
  unfold unwrapFails
  rcases h with ⟨k, rfl⟩ | rfl
  · rw [List.length_replicate]
    exact ⟨max n k, zeroFirst_append n k out⟩
  · refine ⟨written.length, ?_⟩
    unfold zeroFirst
    rw [List.drop_left' rfl]

def ClearedOnFailure (out : ByteString) (r : Result) : Prop :=
  r.status ≠ .success → r.outputLength = 0 ∧ ∃ n, r.output = List.replicate n 0 ++ out.drop n

theorem clearedOnFailure_fails {status : PsaStatus} {written : ByteString}
    (h : (∃ k, written = List.replicate k 0) ∨ written.length = n) :
    ClearedOnFailure out (unwrapFails status written n out) :=
  fun _ => ⟨rfl, unwrapFails_output h⟩

theorem clearedOnFailure_unwrap (env : Env) (mode : Mode) (input out : ByteString) :
    ClearedOnFailure out (mbedtlsNistKwUnwrap env mode input out) := by
  have hnothing : ∀ status, ClearedOnFailure out (unwrapFails status [] 0 out) :=
    fun _ => clearedOnFailure_fails (.inr rfl)
  unfold mbedtlsNistKwUnwrap
  split
  · exact hnothing _
  split
  · exact hnothing _
  split
  · exact hnothing _
  next hsize =>
  split
  · split
    · exact hnothing _
    next hlen =>
    have hu := @unwrap_written input env (input.length / 8) (by omega)
    simp only
    generalize unwrap env input (input.length / 8) = u at hu ⊢
    have hzero := hu.imp_left fun h => (⟨_, h⟩ : ∃ k, u.output = List.replicate k 0)
    split
    · exact clearedOnFailure_fails hzero
    split
    · exact clearedOnFailure_fails hzero
    · exact fun h => absurd rfl h
  split
  · split
    · exact hnothing _
    next hlen =>
    have hu : ∀ u, (if input.length = 16 then unwrapSingle env input
        else unwrap env input (input.length / 8)) = u →
        (∃ k, u.output = List.replicate k 0) ∨ u.output.length = u.outputLength := by
      intro u hu
      subst hu
      split
      · unfold unwrapSingle
        split
        · exact .inl ⟨0, rfl⟩
        · split
          · exact .inl ⟨0, rfl⟩
          · exact .inr (by simp)
      · exact (unwrap_written (by omega)).imp_left fun h => ⟨_, h⟩
    simp only
    generalize hgen : (if input.length = 16 then unwrapSingle env input
      else unwrap env input (input.length / 8)) = u
    split
    · exact clearedOnFailure_fails (hu u hgen)
    split
    · exact clearedOnFailure_fails (hu u hgen)
    · exact fun h => absurd rfl h
  · exact hnothing _

/-! ## The order of the steps -/

theorem wrapNext_iterate (hn : 0 < n) (k : Nat) :
    (wrapNext (8 * n))^[k] 0 = 8 * KeyWrap.visited n (k + 1) := by
  unfold KeyWrap.visited
  induction k with
  | zero => simp
  | succ k ih =>
    rw [Function.iterate_succ_apply', ih, wrapNext_eq (Nat.mod_lt _ hn), Nat.mod_add_mod]
    rfl

theorem unwrapNext_iterate (hn : 0 < n) (k : Nat) (hk : k < 6 * n) :
    (unwrapNext (8 * n))^[k] (8 * (n - 1)) = 8 * KeyWrap.visited n (6 * n - k) := by
  unfold KeyWrap.visited
  induction k with
  | zero =>
    show 8 * (n - 1) = 8 * ((6 * n - 0 - 1) % n)
    rw [show 6 * n - 0 - 1 = (n - 1) + n * 5 by omega, Nat.add_mul_mod_self_left,
      Nat.mod_eq_of_lt (by omega)]
  | succ k ih =>
    rw [Function.iterate_succ_apply', ih (by omega), unwrapNext_eq (Nat.mod_lt _ hn),
      Nat.mod_add_mod, show 6 * n - k - 1 + (n - 1) = 6 * n - (k + 1) - 1 + n by omega,
      Nat.add_mod_right]

/-! ## The contract -/

theorem unwrap_too_long {c : ByteString} (hlen : c.length = 8 + 8 * n) (hlong : 2 ^ 32 < c.length)
    (hout : 8 * n ≤ out.length) (hsmall : c.length < sizeMod) :
    (mbedtlsNistKwUnwrap (idealEnv e) .kwp c out).status = .errorInvalidArgument := by
  have hverify : verifyInput (idealEnv e) = .success := rfl
  have hsize : (c.length + (sizeMod - 8)) % sizeMod = 8 * n := by
    unfold sizeMod at hsmall ⊢
    omega
  unfold mbedtlsNistKwUnwrap
  rw [if_neg (by rw [hverify]; simp), if_neg (by simp [idealEnv]), if_neg (by omega),
    if_neg (by simp), if_pos rfl, if_pos (.inr (.inl hlong))]
  rfl

theorem wrap_success (hmode : mode = .kw ∨ mode = .kwp)
    (h : (mbedtlsNistKwWrap (idealEnv e) mode input out).status = .success) :
    ∃ st : Block 8 × List (Block 8),
      wrapString mode input out.length = .ok (st.1.toList, bytesOf st.2) ∧
      mbedtlsNistKwWrap (idealEnv e) mode input out =
        ⟨.success, bytesOfString (sealString e st) ++ out.drop (8 + 8 * st.2.length),
          8 + 8 * st.2.length⟩ := by
  obtain ⟨a, r, hstring⟩ := wrapString_of_success h
  obtain ⟨st, rfl, rfl, hpos, hsingle, _⟩ := wrapString_string hmode hstring
  exact ⟨st, hstring, mbedtlsNistKwWrap_eq hstring hpos hsingle⟩

theorem length_kwp_string (hstring : wrapString .kwp input n = .ok (st.1.toList, bytesOf st.2)) :
    input.length ≤ 8 * st.2.length ∧ 8 * st.2.length < input.length + 8 ∧
      input.length < 2 ^ 32 := by
  obtain ⟨_, _, hhi, _, hr⟩ := wrapString_kwp.mp hstring
  have hlen := congrArg List.length hr
  rw [length_bytesOf, List.length_append, List.length_replicate] at hlen
  have hpad : padLength input.length < 8 := by
    unfold padLength
    split <;> omega
  omega

theorem unwrap_wrap (hmode : mode = .kw ∨ mode = .kwp)
    (h : (mbedtlsNistKwWrap (idealEnv e) mode input out).status = .success) {out' : ByteString}
    (hout : (mbedtlsNistKwWrap (idealEnv e) mode input out).outputLength - 8 ≤ out'.length) :
    let w := mbedtlsNistKwWrap (idealEnv e) mode input out
    let u := mbedtlsNistKwUnwrap (idealEnv e) mode (w.output.take w.outputLength) out'
    (mode = .kwp ∧ 2 ^ 32 - 8 < input.length → u.status = .errorInvalidArgument) ∧
      (¬ (mode = .kwp ∧ 2 ^ 32 - 8 < input.length) →
        u.status = .success ∧ u.outputLength = input.length ∧
          u.output.take u.outputLength = input) := by
  obtain ⟨st, hstring, hw⟩ := wrap_success hmode h
  rw [hw] at hout ⊢
  have hlen : (bytesOfString (sealString e st)).length = 8 + 8 * st.2.length := by
    rw [length_bytesOfString, length_sealString]
  simp only [List.take_left' hlen] at hout ⊢
  constructor
  · rintro ⟨rfl, hlong⟩
    obtain ⟨hle, hlt, hhi⟩ := length_kwp_string hstring
    apply unwrap_too_long hlen
    · omega
    · omega
    · unfold sizeMod
      omega
  · intro hshort
    have hround := @unwrap_of_wrap e _ _ _ st hmode _ _ hstring
      (fun hkwp => Nat.le_of_not_lt fun hlong => hshort ⟨hkwp, hlong⟩) rfl
      (by rw [length_bytesOf]; omega) (by rw [length_bytesOf]; omega) out'
      (by rw [length_bytesOf]; omega)
    obtain ⟨hstatus, hlength, htake⟩ := hround
    rw [hlength]
    exact ⟨hstatus, rfl, htake⟩

/-- Wrapping and unwrapping are the functions of the standard and inverse to each other, for the
lengths that both accept; where unwrapping fails, nothing of the plaintext is left. -/
theorem nist_kw_wrap_unwrap (e : Equiv.Perm (Block 16)) (mode : Mode)
    (hmode : mode = .kw ∨ mode = .kwp) :
    (∀ input out out', let w := mbedtlsNistKwWrap (idealEnv e) mode input out
      let u := mbedtlsNistKwUnwrap (idealEnv e) mode (w.output.take w.outputLength) out'
      w.status = .success → w.outputLength - 8 ≤ out'.length →
        (mode = .kwp ∧ 2 ^ 32 - 8 < input.length → u.status = .errorInvalidArgument) ∧
        (¬ (mode = .kwp ∧ 2 ^ 32 - 8 < input.length) →
          u.status = .success ∧ u.outputLength = input.length ∧
            u.output.take u.outputLength = input)) ∧
    (∀ c out out', let u := mbedtlsNistKwUnwrap (idealEnv e) mode c out
      u.status = .success → c.length ≤ out'.length →
        mbedtlsNistKwWrap (idealEnv e) mode (u.output.take u.outputLength) out' =
          ⟨.success, c ++ out'.drop c.length, c.length⟩) ∧
    (∀ env input out, let u := mbedtlsNistKwUnwrap env mode input out
      u.status ≠ .success → u.outputLength = 0 ∧ ∃ n, u.output = List.replicate n 0 ++ out.drop n) ∧
    (∀ (input out : ByteString) (st : Block 8 × List (Block 8)), 2 ≤ st.2.length →
      (wrapString mode input out.length = .ok (st.1.toList, bytesOf st.2) →
        (mbedtlsNistKwWrap (idealEnv e) mode input out).output =
          bytesOfString (KeyWrap.wrap (round e) st) ++ out.drop (bytesOfString st).length) ∧
      (unwrap (idealEnv e) (bytesOfString st) (st.2.length + 1)).a =
        (KeyWrap.unwrap (round e) st).1.toList ∧
      (unwrap (idealEnv e) (bytesOfString st) (st.2.length + 1)).output =
        bytesOf (KeyWrap.unwrap (round e) st).2) ∧
    ∀ n k, k < 6 * n →
      (wrapNext (8 * n))^[k] 0 = 8 * (k % n) ∧
        (unwrapNext (8 * n))^[k] (8 * (n - 1)) = (wrapNext (8 * n))^[6 * n - 1 - k] 0 := by
  refine ⟨?_, ?_, ?_, ?_, ?_⟩
  · intro input out out'
    simp only
    intro hsuccess hout
    exact unwrap_wrap hmode hsuccess hout
  · intro c out out'
    simp only
    intro hsuccess hout
    exact wrap_of_unwrap hmode hsuccess hout
  · intro env input out
    simp only
    intro hfails
    exact clearedOnFailure_unwrap env mode input out hfails
  · intro input out st hlen
    refine ⟨?_, ?_, ?_⟩
    · intro hstring
      obtain ⟨st', hfirst, hrest, hpos, hsingle, _⟩ := wrapString_string hmode hstring
      have hst' : st'.2 = st.2 := bytesOf_injective hrest
      rw [hst'] at hpos hsingle
      rw [mbedtlsNistKwWrap_eq hstring hpos hsingle, sealString_of_ne (by omega),
        length_bytesOfString]
    · rw [unwrap_eq_open (by omega), openString_of_ne (by omega)]
    · rw [unwrap_eq_open (by omega), openString_of_ne (by omega)]
  · intro n k hk
    have hn : 0 < n := by omega
    rw [wrapNext_iterate hn, unwrapNext_iterate hn k hk, wrapNext_iterate hn,
      show 6 * n - 1 - k + 1 = 6 * n - k by omega]
    exact ⟨rfl, rfl⟩

theorem nist_kw_wrap_unwrap_witness :
    (mbedtlsNistKwUnwrap (idealEnv (Equiv.refl _)) .kwp
      ((mbedtlsNistKwWrap (idealEnv (Equiv.refl _)) .kwp [1, 2, 3]
          (List.replicate 16 0)).output.take
        (mbedtlsNistKwWrap (idealEnv (Equiv.refl _)) .kwp [1, 2, 3]
          (List.replicate 16 0)).outputLength) (List.replicate 8 7)).status = .success := by
  have h := (nist_kw_wrap_unwrap (Equiv.refl _) .kwp (.inr rfl)).1 [1, 2, 3]
    (List.replicate 16 0) (List.replicate 8 7) (by decide +kernel) (by decide +kernel)
  exact (h.2 (by decide)).1


theorem wrap_long {out' : ByteString} (hinput : input.length = 2 ^ 32 - 7)
    (hout : out.length = 2 ^ 32 + 8) (hout' : out'.length = 2 ^ 32 + 8) :
    (mbedtlsNistKwWrap (idealEnv e) .kwp input out).status = .success ∧
      (mbedtlsNistKwWrap (idealEnv e) .kwp input out).outputLength ≤ out'.length ∧
      (mbedtlsNistKwUnwrap (idealEnv e) .kwp
        ((mbedtlsNistKwWrap (idealEnv e) .kwp input out).output.take
          (mbedtlsNistKwWrap (idealEnv e) .kwp input out).outputLength) out').status =
        .errorInvalidArgument := by
  have hpad : padLength input.length = 7 := by
    rw [hinput]
    rfl
  have hstring : wrapString .kwp input out.length =
      .ok (nistKwIcv2 ++ toBE 4 input.length, input ++ List.replicate 7 0) := by
    rw [wrapString_kwp, hpad]
    exact ⟨by omega, by omega, by omega, rfl, rfl⟩
  obtain ⟨st, hfirst, hrest, hpos, hsingle, _⟩ := wrapString_string (.inr rfl) hstring
  rw [← hfirst, ← hrest] at hstring
  have hw := mbedtlsNistKwWrap_eq (e := e) hstring hpos hsingle
  have hsuccess : (mbedtlsNistKwWrap (idealEnv e) .kwp input out).status = .success := by
    rw [hw]
  have hlength : (mbedtlsNistKwWrap (idealEnv e) .kwp input out).outputLength =
      8 + 8 * st.2.length := by
    rw [hw]
  exact ⟨hsuccess, by omega, (unwrap_wrap (.inr rfl) hsuccess (by omega)).1 ⟨rfl, by omega⟩⟩

/-- **Counterexample.** 2^32 - 7 bytes are wrapped, and the result cannot be unwrapped. -/
theorem nist_kw_long_not_unwrapped :
    ∃ input out out' : ByteString, 1 ≤ input.length ∧ input.length ≤ 2 ^ 32 - 1 ∧
      (mbedtlsNistKwWrap (idealEnv (Equiv.refl _)) .kwp input out).status = .success ∧
      (mbedtlsNistKwWrap (idealEnv (Equiv.refl _)) .kwp input out).outputLength ≤ out'.length ∧
      (mbedtlsNistKwUnwrap (idealEnv (Equiv.refl _)) .kwp
        ((mbedtlsNistKwWrap (idealEnv (Equiv.refl _)) .kwp input out).output.take
          (mbedtlsNistKwWrap (idealEnv (Equiv.refl _)) .kwp input out).outputLength) out').status =
        .errorInvalidArgument := by
  obtain ⟨input, hinput⟩ : ∃ l : ByteString, l.length = 2 ^ 32 - 7 :=
    ⟨List.replicate _ 0, List.length_replicate⟩
  obtain ⟨out, hout⟩ : ∃ l : ByteString, l.length = 2 ^ 32 + 8 :=
    ⟨List.replicate _ 0, List.length_replicate⟩
  exact ⟨input, out, out, by omega, by omega, wrap_long hinput hout hout⟩

end NistKw

end TfPsaCrypto
