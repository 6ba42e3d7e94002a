import Mathlib.Data.Nat.Digits.Lemmas
import TfPsaCrypto.Builtin.BignumBytesExact
import TfPsaCrypto.Builtin.BignumDivisionCorrect

/-!
# Bignums as text

`mbedtls_mpi_read_string` and `mbedtls_mpi_write_string`.
-/

namespace TfPsaCrypto.BignumText

open Bytes Limbs

variable {w : Nat}

/-! ## Reading -/

/-- The value of a character, `255` when it is no digit. -/
def digitOf (c : UInt8) : Nat :=
  if 0x61 ≤ c ∧ c ≤ 0x66 then (c - 0x57).toNat
  else if 0x41 ≤ c ∧ c ≤ 0x46 then (c - 0x37).toNat
  else if 0x30 ≤ c ∧ c ≤ 0x39 then (c - 0x30).toNat
  else 255

def mpiGetDigit (radix : Nat) (c : UInt8) : Except MpiError Nat :=
  let d := digitOf c
  if d ≥ radix then .error .invalidCharacter else .ok d

/-- The loop of radix 16 from the last character on; `j` counts the digits of four bits. -/
def readHexLoop : ByteString → Nat → Nat → Except MpiError Nat
  | [], _, X => .ok X
  | c :: cs, j, X => do
    let d ← mpiGetDigit 16 c
    readHexLoop cs (j + 1) (X ||| d <<< (4 * j))

def readLoop (w radix : Nat) : ByteString → MpiNum → MpiNum → Except MpiError MpiNum
  | [], _, X => .ok X
  | c :: cs, T, X => do
    let d ← mpiGetDigit radix c
    let T ← mbedtlsMpiMulInt T X (BitVec.ofNat w radix)
    let X ← mbedtlsMpiAddMpi w X T ⟨d, 1⟩
    readLoop w radix cs T X

def splitSign : ByteString → Int × ByteString
  | 0x2D :: s => (-1, s)
  | s => (1, s)

/-- For the characters before the null byte. -/
def mbedtlsMpiReadString (w : Nat) (X : MpiNum) (radix : Nat) (s : ByteString) :
    Except MpiError MpiNum :=
  if radix < 2 ∨ radix > 16 then .error .badInputData
  else if s = [] then .ok .init
  else
    let (sign, s) := splitSign s
    let slen := s.length
    do
      let X ← (if radix = 16 then
          if slen > (2 ^ 64 - 1) / 4 then .error .badInputData
          else do
            let n := bitsToLimbs w (slen * 4)
            let X ← X.grow n X.val
            let X ← mbedtlsMpiLset X 0
            let v ← readHexLoop s.reverse 0 0
            pure { X with val := v }
        else do
          let X ← mbedtlsMpiLset X 0
          readLoop w radix s .init X)
      pure (if sign < 0 ∧ X.val.natAbs.size ≠ 0 then { X with val := -X.val } else X)

/-! ## Writing -/

inductive TextError where
  | badInputData
  | bufferTooSmall (olen : Nat)
  | mpi (e : MpiError)
  | outOfBounds
  deriving DecidableEq, Repr

/-- The size that is reported for a number of `n` bits. -/
def textSize (radix n : Nat) : Nat :=
  let n := if radix ≥ 4 then n / 2 else n
  let n := if radix ≥ 16 then n / 2 else n
  let n := n + 1 + 1 + 1
  n + n % 2

/-- `*p++ = c`, when the buffer has `buflen` bytes and `out` is what is before `p`. -/
def putChar (buflen : Nat) (out : ByteString) (c : UInt8) : Except TextError ByteString :=
  if out.length < buflen then .ok (out ++ [c]) else .error .outOfBounds

def hexDigits : ByteString :=
  [0x30, 0x31, 0x32, 0x33, 0x34, 0x35, 0x36, 0x37, 0x38, 0x39, 0x41, 0x42, 0x43, 0x44, 0x45, 0x46]

/-- The loops of radix 16 from the highest byte; `k` says that a digit has been written. -/
def writeHexLoop (X : List (BitVec w)) (buflen : Nat) :
    Nat → Bool → ByteString → Except TextError ByteString
  | 0, _, out => .ok out
  | i + 1, k, out =>
    let c := (getByte X i).toNat
    if c = 0 ∧ k = false ∧ i ≠ 0 then writeHexLoop X buflen i k out
    else do
      let out ← putChar buflen out (hexDigits.getD (c / 16) 0)
      let out ← putChar buflen out (hexDigits.getD (c % 16) 0)
      writeHexLoop X buflen i true out

def digitChar (r : Nat) : UInt8 :=
  if r < 0xA then UInt8.ofNat (0x30 + r) else UInt8.ofNat (0x41 + (r - 0xA))

/-- `room` bytes are left before `p_end`, and `written` is from there on. A division takes two limbs
more than the `n` of the number, unless the quotient is zero. -/
def mpiWriteHlp (radix n : Nat) : Nat → Nat → ByteString → Except TextError ByteString
  | 0, _, _ => .error (.mpi .bufferTooSmall)
  | room + 1, X, written =>
    let r := X % radix
    if X ≥ radix ∧ n + 2 > mbedtlsMpiMaxLimbs then .error (.mpi .allocFailed)
    else
      let X := X / radix
      let written := digitChar r :: written
      if X ≠ 0 then mpiWriteHlp radix n room X written else .ok written

def mbedtlsMpiWriteString (X : MbedtlsMpi w) (radix buflen : Nat) : Except TextError ByteString :=
  if radix < 2 ∨ radix > 16 then .error .badInputData
  else
    let n := textSize radix (mbedtlsMpiBitlen X)
    if buflen < n then .error (.bufferTooSmall n)
    else do
      let out ← (if X.s = -1 then putChar buflen [] 0x2D else .ok [])
      let out ← (if radix = 16 then writeHexLoop X.p buflen (X.n * ciL w) false out
        else do
          let digits ← mpiWriteHlp radix (limbCount w X.abs) (buflen - out.length) X.abs []
          .ok (out ++ digits))
      putChar buflen out 0

/-! ## Digits -/

variable {s : ByteString}

def textValue (radix : Nat) (s : ByteString) : Nat := Nat.ofDigits radix (s.reverse.map digitOf)

def AreDigits (radix : Nat) (s : ByteString) : Prop := ∀ c ∈ s, digitOf c < radix

instance (radix : Nat) (s : ByteString) : Decidable (AreDigits radix s) :=
  List.decidableBAll (fun c => digitOf c < radix) s

theorem mpiGetDigit_eq_ok {radix d : Nat} {c : UInt8} :
    mpiGetDigit radix c = .ok d ↔ digitOf c < radix ∧ d = digitOf c := by
  unfold mpiGetDigit
  simp only
  split
  · next hge => exact iff_of_false nofun (fun h => absurd h.1 (Nat.not_lt.mpr hge))
  next hlt =>
  constructor
  · rintro ⟨⟩
    exact ⟨Nat.not_le.mp hlt, rfl⟩
  · rintro ⟨_, rfl⟩
    rfl

theorem textValue_cons (radix : Nat) (c : UInt8) (s : ByteString) :
    textValue radix (c :: s) = digitOf c * radix ^ s.length + textValue radix s := by
  unfold textValue
  rw [List.reverse_cons, List.map_append, Nat.ofDigits_append, List.length_map,
    List.length_reverse, List.map_singleton, Nat.ofDigits_singleton]
  ring

theorem textValue_append (radix : Nat) (s t : ByteString) :
    textValue radix (s ++ t) = textValue radix s * radix ^ t.length + textValue radix t := by
  unfold textValue
  rw [List.reverse_append, List.map_append, Nat.ofDigits_append, List.length_map,
    List.length_reverse]
  ring

theorem textValue_lt {radix : Nat} (hradix : 1 < radix) (h : AreDigits radix s) :
    textValue radix s < radix ^ s.length := by
  have hlt : textValue radix s < radix ^ (s.reverse.map digitOf).length := by
    apply Nat.ofDigits_lt_base_pow_length hradix
    intro d hd
    obtain ⟨c, hc, rfl⟩ := List.mem_map.mp hd
    exact h c (List.mem_reverse.mp hc)
  rwa [List.length_map, List.length_reverse] at hlt

theorem areDigits_cons {radix : Nat} {c : UInt8} :
    AreDigits radix (c :: s) ↔ digitOf c < radix ∧ AreDigits radix s := by
  exact List.forall_mem_cons

/-! ## What is read -/

theorem readHexLoop_spec (cs : ByteString) (j X : Nat) (hX : X < 2 ^ (4 * j)) (v : Nat) :
    readHexLoop cs j X = .ok v ↔
      AreDigits 16 cs ∧ v = X + 2 ^ (4 * j) * Nat.ofDigits 16 (cs.map digitOf) := by
  induction cs generalizing j X with
  | nil =>
    unfold readHexLoop
    simp [AreDigits, eq_comm]
  | cons c cs ih =>
    unfold readHexLoop
    rw [areDigits_cons]
    by_cases hc : digitOf c < 16
    · have hor : X ||| digitOf c <<< (4 * j) = X + 2 ^ (4 * j) * digitOf c := by
        rw [Nat.shiftLeft_eq, Nat.or_comm, Nat.mul_comm, ← Nat.two_pow_add_eq_or_of_lt hX,
          Nat.add_comm]
      have hpow : 2 ^ (4 * (j + 1)) = 2 ^ (4 * j) * 16 := by
        rw [Nat.mul_add, Nat.pow_add]
      have hlt : X + 2 ^ (4 * j) * digitOf c < 2 ^ (4 * (j + 1)) := by
        have hmul := Nat.mul_le_mul_left (2 ^ (4 * j)) hc
        rw [Nat.mul_succ] at hmul
        omega
      rw [mpiGetDigit_eq_ok.mpr ⟨hc, rfl⟩]
      change readHexLoop cs (j + 1) (X ||| digitOf c <<< (4 * j)) = .ok v ↔ _
      rw [hor, ih (j + 1) _ hlt, List.map_cons, Nat.ofDigits_cons, hpow]
      have hsum : X + 2 ^ (4 * j) * digitOf c +
          2 ^ (4 * j) * 16 * Nat.ofDigits 16 (cs.map digitOf) =
            X + 2 ^ (4 * j) * (digitOf c + 16 * Nat.ofDigits 16 (cs.map digitOf)) := by ring
      rw [hsum]
      exact ⟨fun h => ⟨⟨hc, h.1⟩, h.2⟩, fun h => ⟨h.1.2, h.2⟩⟩
    · refine iff_of_false ?_ (fun h => hc h.1.1)
      unfold mpiGetDigit
      rw [if_pos (Nat.not_lt.mp hc)]
      nofun

section

variable {radix : Nat}

theorem readLoop_sound (hradix : radix < 2 ^ w) {cs : ByteString} {T X Z : MpiNum}
    (h : readLoop w radix cs T X = .ok Z) :
    AreDigits radix cs ∧ Z.val = X.val * radix ^ cs.length + textValue radix cs := by
  induction cs generalizing T X with
  | nil =>
    cases h
    exact ⟨nofun, by simp [textValue]⟩
  | cons c cs ih =>
    unfold readLoop at h
    cases hdigit : mpiGetDigit radix c with
    | error e =>
      rw [hdigit] at h
      cases h
    | ok d =>
      obtain ⟨hc, rfl⟩ := mpiGetDigit_eq_ok.mp hdigit
      rw [hdigit] at h
      simp only [bind, Except.bind] at h
      cases hmul : mbedtlsMpiMulInt T X (BitVec.ofNat w radix) with
      | error e =>
        rw [hmul] at h
        cases h
      | ok T₁ =>
        rw [hmul] at h
        simp only at h
        cases hadd : mbedtlsMpiAddMpi w X T₁ ⟨digitOf c, 1⟩ with
        | error e =>
          rw [hadd] at h
          cases h
        | ok X₁ =>
          rw [hadd] at h
          obtain ⟨hdigits, hval⟩ := ih h
          have hT := (of_mbedtlsMpiMulInt hmul).1
          have hX := mbedtlsMpiAddMpi_val hadd
          rw [BitVec.toNat_ofNat, Nat.mod_eq_of_lt hradix] at hT
          refine ⟨areDigits_cons.mpr ⟨hc, hdigits⟩, ?_⟩
          rw [hval, hX, hT, textValue_cons, List.length_cons]
          push_cast
          ring

theorem limbCount_succ_le (hw : 0 < w) {v : Int} (hnonneg : 0 ≤ v)
    (h : v < 2 ^ (w * (mbedtlsMpiMaxLimbs - 1))) : limbCount w v + 1 ≤ mbedtlsMpiMaxLimbs := by
  have hle : limbCount w v ≤ mbedtlsMpiMaxLimbs - 1 := by
    obtain ⟨n, rfl⟩ := Int.eq_ofNat_of_zero_le hnonneg
    rw [limbCount_le hw, Int.natAbs_natCast]
    exact_mod_cast h
  have hmax : mbedtlsMpiMaxLimbs = 10000 := rfl
  omega

theorem grow_ok {X : MpiNum} {n : Nat} {v : Int} (h : n ≤ mbedtlsMpiMaxLimbs) :
    ∃ Z, X.grow n v = .ok Z ∧ Z.val = v := by
  unfold MpiNum.grow
  rw [if_neg (Nat.not_lt.mpr h)]
  exact ⟨_, rfl, rfl⟩

theorem mbedtlsMpiAddMpi_ok (hw : 0 < w) {X A B : MpiNum} (hA : 0 ≤ A.val) (hB : 0 ≤ B.val)
    (h : A.val + B.val < 2 ^ (w * (mbedtlsMpiMaxLimbs - 1))) :
    ∃ Z, mbedtlsMpiAddMpi w X A B = .ok Z ∧ Z.val = A.val + B.val := by
  have hsum := limbCount_succ_le hw (show 0 ≤ A.val + B.val by omega) h
  have hAle : limbCount w A.val ≤ limbCount w (A.val + B.val) := limbCount_mono hw (by omega)
  have hBle : limbCount w B.val ≤ limbCount w (A.val + B.val) := limbCount_mono hw (by omega)
  have habs : ((A.val.natAbs : Int) + B.val.natAbs) = A.val + B.val := by omega
  have hcopy : ∃ C, mbedtlsMpiCopy w X A = .ok C ∧ C.val = A.val := by
    apply grow_ok
    split
    · exact Nat.zero_le _
    · exact Nat.max_le.mpr ⟨by decide, by omega⟩
  obtain ⟨C, hC, _⟩ := hcopy
  unfold mbedtlsMpiAddMpi mbedtlsMpiAddAbs
  rw [if_pos (by omega), hC]
  simp only [habs]
  have hgrow : ∃ Z, C.grow (if B.val = 0 then 0 else
      max (limbCount w B.val) (limbCount w (A.val + B.val))) (A.val + B.val) = .ok Z ∧
        Z.val = A.val + B.val := by
    apply grow_ok
    split
    · exact Nat.zero_le _
    · exact Nat.max_le.mpr ⟨by omega, by omega⟩
  obtain ⟨Z, hZ, _⟩ := hgrow
  rw [hZ]
  exact ⟨_, rfl, rfl⟩

theorem mbedtlsMpiMulInt_ok (hw : 0 < w) {X A : MpiNum} {b : BitVec w} (hA : 0 ≤ A.val)
    (h : A.val < 2 ^ (w * (mbedtlsMpiMaxLimbs - 1))) :
    ∃ Z, mbedtlsMpiMulInt X A b = .ok Z ∧ Z.val = A.val * b.toNat := by
  have hle := limbCount_succ_le hw hA h
  have hok : ∃ Z, mbedtlsMpiMulInt X A b = .ok Z := by
    unfold mbedtlsMpiMulInt
    split
    · obtain ⟨Z, hZ, _⟩ := grow_ok (X := X) (v := 0) (show 1 ≤ mbedtlsMpiMaxLimbs by decide)
      exact ⟨Z, hZ⟩
    · obtain ⟨Z, hZ, _⟩ := grow_ok (X := X) (v := A.val * b.toNat) hle
      exact ⟨Z, hZ⟩
  obtain ⟨Z, hZ⟩ := hok
  exact ⟨Z, hZ, (of_mbedtlsMpiMulInt hZ).1⟩

theorem readLoop_complete (hw : 0 < w) (hradix : radix < 2 ^ w) (hpos : 0 < radix)
    {cs : ByteString} (hdigits : AreDigits radix cs) {T X : MpiNum} (hX : 0 ≤ X.val)
    (hfits : X.val * radix ^ cs.length + textValue radix cs <
      2 ^ (w * (mbedtlsMpiMaxLimbs - 1))) : ∃ Z, readLoop w radix cs T X = .ok Z := by
  induction cs generalizing T X with
  | nil => exact ⟨X, rfl⟩
  | cons c cs ih =>
    obtain ⟨hc, hcs⟩ := areDigits_cons.mp hdigits
    have hpow : (1 : Int) ≤ (radix : Int) ^ cs.length := one_le_pow₀ (by omega)
    have hnext : 0 ≤ X.val * radix := Int.mul_nonneg hX (Int.natCast_nonneg _)
    rw [textValue_cons, List.length_cons] at hfits
    have hsum : X.val * (radix : Int) ^ (cs.length + 1) +
        ((digitOf c * radix ^ cs.length + textValue radix cs : Nat) : Int) =
          (X.val * radix + digitOf c) * (radix : Int) ^ cs.length + textValue radix cs := by
      push_cast
      ring
    rw [hsum] at hfits
    have hle : X.val * radix + digitOf c ≤
        (X.val * radix + digitOf c) * (radix : Int) ^ cs.length :=
      le_mul_of_one_le_right (by omega) hpow
    have hXle : X.val ≤ X.val * radix := le_mul_of_one_le_right hX (by omega)
    obtain ⟨T₁, hmul, hT⟩ := mbedtlsMpiMulInt_ok hw (X := T) (A := X)
      (b := BitVec.ofNat w radix) hX (by omega)
    rw [BitVec.toNat_ofNat, Nat.mod_eq_of_lt hradix] at hT
    obtain ⟨X₁, hadd, hX₁⟩ := mbedtlsMpiAddMpi_ok hw (X := X) (A := T₁) (B := ⟨digitOf c, 1⟩)
      (by omega) (Int.natCast_nonneg _) (by rw [hT]; simp only; omega)
    unfold readLoop
    rw [mpiGetDigit_eq_ok.mpr ⟨hc, rfl⟩]
    simp only [bind, Except.bind, hmul, hadd]
    have hval : X₁.val = X.val * radix + digitOf c := by rw [hX₁, hT]
    exact ih hcs (by omega) (by rwa [hval])

end

theorem splitSign_sign (s : ByteString) : (splitSign s).1 = -1 ∨ (splitSign s).1 = 1 := by
  unfold splitSign
  split
  · exact .inl rfl
  · exact .inr rfl

theorem signed_val {sign : Int} (hsign : sign = -1 ∨ sign = 1) (X : MpiNum) :
    (if sign < 0 ∧ X.val.natAbs.size ≠ 0 then { X with val := -X.val } else X).val =
      sign * X.val := by
  rcases hsign with rfl | rfl
  · split
    · simp
    next hnot =>
    have hzero : X.val.natAbs.size = 0 := by
      by_contra hne
      exact hnot ⟨by decide, hne⟩
    rw [Nat.size_eq_zero] at hzero
    omega
  · rw [if_neg (by simp), Int.one_mul]

section

variable {radix : Nat}

theorem mbedtlsMpiReadString_sound (hw : w = 32 ∨ w = 64) {X Z : MpiNum}
    (h : mbedtlsMpiReadString w X radix s = .ok Z) :
    (2 ≤ radix ∧ radix ≤ 16) ∧ AreDigits radix (splitSign s).2 ∧
      Z.val = (splitSign s).1 * textValue radix (splitSign s).2 := by
  unfold mbedtlsMpiReadString at h
  split at h
  · cases h
  next hrange =>
  refine ⟨by omega, ?_⟩
  split at h
  · next hnil =>
    cases h
    subst hnil
    exact ⟨nofun, rfl⟩
  · have hsign := splitSign_sign s
    generalize splitSign s = p at h hsign ⊢
    obtain ⟨sign, t⟩ := p
    simp only at h hsign ⊢
    split at h
    · next hhex =>
      subst hhex
      split at h
      · cases h
      simp only [bind, Except.bind] at h
      cases hgrow : X.grow (bitsToLimbs w (t.length * 4)) X.val with
      | error e =>
        rw [hgrow] at h
        cases h
      | ok X₁ =>
        rw [hgrow] at h
        simp only at h
        cases hset : mbedtlsMpiLset X₁ 0 with
        | error e =>
          rw [hset] at h
          cases h
        | ok X₂ =>
          rw [hset] at h
          cases hread : readHexLoop t.reverse 0 0 with
          | error e =>
            rw [hread] at h
            cases h
          | ok v =>
            rw [hread] at h
            cases h
            obtain ⟨hdigits, hv⟩ := (readHexLoop_spec t.reverse 0 0 (by decide) v).mp hread
            rw [signed_val hsign]
            refine ⟨fun c hc => hdigits c (List.mem_reverse.mpr hc), ?_⟩
            rw [hv, Nat.mul_zero, Nat.pow_zero, Nat.one_mul, Nat.zero_add]
            rfl
    · simp only [bind, Except.bind] at h
      cases hset : mbedtlsMpiLset X 0 with
      | error e =>
        rw [hset] at h
        cases h
      | ok X₂ =>
        rw [hset] at h
        simp only at h
        cases hread : readLoop w radix t .init X₂ with
        | error e =>
          rw [hread] at h
          cases h
        | ok X₃ =>
          rw [hread] at h
          cases h
          have hradix : radix < 2 ^ w := by
            rcases hw with rfl | rfl <;> omega
          obtain ⟨hdigits, hval⟩ := readLoop_sound hradix hread
          refine ⟨hdigits, ?_⟩
          rw [signed_val hsign, hval, (of_mbedtlsMpiLset hset).1, Int.zero_mul, Int.zero_add]

theorem mbedtlsMpiReadString_complete (hw : w = 32 ∨ w = 64) (hradix : 2 ≤ radix ∧ radix ≤ 16)
    (X : MpiNum) (hdigits : AreDigits radix (splitSign s).2)
    (hhex : radix = 16 → 4 * (splitSign s).2.length ≤ w * mbedtlsMpiMaxLimbs)
    (hfits : textValue radix (splitSign s).2 < 2 ^ (w * (mbedtlsMpiMaxLimbs - 1))) :
    ∃ Z, mbedtlsMpiReadString w X radix s = .ok Z := by
  have hmax : mbedtlsMpiMaxLimbs = 10000 := rfl
  have hpos : 0 < w := by omega
  have hone : 1 ≤ mbedtlsMpiMaxLimbs := by decide
  unfold mbedtlsMpiReadString
  rw [if_neg (by omega)]
  split
  · exact ⟨_, rfl⟩
  generalize splitSign s = p at hdigits hhex hfits ⊢
  obtain ⟨sign, t⟩ := p
  simp only at hdigits hhex hfits ⊢
  split
  · next hsixteen =>
    subst hsixteen
    have hbits : t.length * 4 ≤ mbedtlsMpiMaxLimbs * w := by
      rw [Nat.mul_comm mbedtlsMpiMaxLimbs]
      omega
    have hlimbs := bitsToLimbs_le hbits hpos
    obtain ⟨X₁, hgrow, _⟩ := grow_ok (X := X) (v := X.val) hlimbs
    obtain ⟨X₂, hset, _⟩ := grow_ok (X := X₁) (v := 0) hone
    have hread := (readHexLoop_spec t.reverse 0 0 (by decide) _).mpr
      ⟨fun c hc => hdigits c (List.mem_reverse.mp hc), rfl⟩
    have hlset : mbedtlsMpiLset X₁ 0 = .ok X₂ := hset
    rw [if_neg (by rcases hw with rfl | rfl <;> omega)]
    simp only [bind, Except.bind, hgrow, hlset, hread]
    exact ⟨_, rfl⟩
  · obtain ⟨X₂, hset, hval⟩ := grow_ok (X := X) (v := 0) hone
    have hlset : mbedtlsMpiLset X 0 = .ok X₂ := hset
    have hlt : radix < 2 ^ w := by
      rcases hw with rfl | rfl <;> omega
    obtain ⟨Z, hread⟩ := readLoop_complete hpos hlt (by omega) hdigits (T := .init) (X := X₂)
      (by omega) (by rw [hval, Int.zero_mul, Int.zero_add]; exact_mod_cast hfits)
    rw [hlset]
    change ∃ Z, (readLoop w radix t .init X₂ >>= _) = .ok Z
    rw [hread]
    exact ⟨_, rfl⟩

end

/-! ## What is written -/

theorem digitChar_spec {d : Nat} (h : d < 16) :
    digitOf (digitChar d) = d ∧ digitChar d ≠ 0x2D ∧ digitChar d ≠ 0 ∧
      hexDigits.getD d 0 = digitChar d := by
  have hall : ∀ d < 16, digitOf (digitChar d) = d ∧ digitChar d ≠ 0x2D ∧ digitChar d ≠ 0 ∧
      hexDigits.getD d 0 = digitChar d := by decide
  exact hall d h

/-- Digits for the number `v`. -/
structure Digits (radix : Nat) (v : Nat) (ds : ByteString) : Prop where
  digits : AreDigits radix ds
  value : textValue radix ds = v
  chars : ∀ c ∈ ds, c ≠ 0x2D ∧ c ≠ 0

theorem Digits.nil (radix : Nat) : Digits radix 0 [] := ⟨nofun, rfl, nofun⟩

theorem Digits.singleton {radix d : Nat} (hradix : radix ≤ 16) (hd : d < radix) :
    Digits radix d [digitChar d] := by
  obtain ⟨hof, hminus, hzero, _⟩ := digitChar_spec (Nat.lt_of_lt_of_le hd hradix)
  refine ⟨?_, ?_, ?_⟩
  · intro c hc
    rw [List.mem_singleton.mp hc, hof]
    exact hd
  · rw [textValue_cons, hof]
    simp [textValue]
  · intro c hc
    rw [List.mem_singleton.mp hc]
    exact ⟨hminus, hzero⟩

theorem Digits.append {radix u v : Nat} {ds es : ByteString} (hd : Digits radix u ds)
    (he : Digits radix v es) : Digits radix (u * radix ^ es.length + v) (ds ++ es) := by
  refine ⟨?_, ?_, ?_⟩
  · intro c hc
    rcases List.mem_append.mp hc with h | h
    · exact hd.digits c h
    · exact he.digits c h
  · rw [textValue_append, hd.value, he.value]
  · intro c hc
    rcases List.mem_append.mp hc with h | h
    · exact hd.chars c h
    · exact he.chars c h

theorem mpiWriteHlp_spec {radix n : Nat} (hradix : 2 ≤ radix ∧ radix ≤ 16)
    (hn : n + 2 ≤ mbedtlsMpiMaxLimbs) {room : Nat} (hroom : 0 < room) {X : Nat}
    (hX : X < radix ^ room) (written : ByteString) :
    ∃ ds, mpiWriteHlp radix n room X written = .ok (ds ++ written) ∧ Digits radix X ds ∧
      (ds.length = 1 ∨ radix ^ (ds.length - 1) ≤ X) := by
  induction room generalizing X written with
  | zero => exact absurd hroom (Nat.lt_irrefl 0)
  | succ room ih =>
    have hpos : 0 < radix := by omega
    have hlast := Digits.singleton hradix.2 (Nat.mod_lt X hpos)
    have hdiv := Nat.div_add_mod X radix
    unfold mpiWriteHlp
    rw [if_neg (fun h => Nat.not_le.mpr h.2 hn)]
    by_cases hzero : X / radix = 0
    · rw [if_neg (not_not.mpr hzero)]
      refine ⟨[digitChar (X % radix)], rfl, ?_, .inl rfl⟩
      rw [hzero, Nat.mul_zero, Nat.zero_add] at hdiv
      rwa [hdiv] at hlast ⊢
    · have hlt : X / radix < radix ^ room := by
        rw [Nat.div_lt_iff_lt_mul hpos, ← Nat.pow_succ]
        exact hX
      have hroom' : 0 < room := by
        by_contra hnone
        rw [Nat.eq_zero_of_not_pos hnone, Nat.pow_zero] at hlt
        exact hzero (Nat.lt_one_iff.mp hlt)
      obtain ⟨ds, hds, hdigits, hlen⟩ := ih hroom' hlt (digitChar (X % radix) :: written)
      rw [if_pos hzero, hds]
      refine ⟨ds ++ [digitChar (X % radix)], by simp, ?_, .inr ?_⟩
      · have happend := hdigits.append hlast
        rw [List.length_singleton, Nat.pow_one, Nat.mul_comm, hdiv] at happend
        exact happend
      have hge : radix ≤ X := by
        by_contra hless
        exact hzero (Nat.div_eq_of_lt (Nat.not_le.mp hless))
      rw [List.length_append, List.length_singleton, Nat.add_sub_cancel]
      rcases hlen with hone | hle
      · rw [hone, Nat.pow_one]
        exact hge
      rcases Nat.eq_zero_or_pos ds.length with hnil | hpos'
      · rw [hnil, Nat.pow_zero]
        omega
      · calc radix ^ ds.length = radix ^ (ds.length - 1) * radix := by
              rw [← Nat.pow_succ, Nat.succ_eq_add_one, Nat.sub_add_cancel hpos']
          _ ≤ X / radix * radix := Nat.mul_le_mul_right _ hle
          _ ≤ X := Nat.div_mul_le_self _ _

theorem putChar_ok {buflen : Nat} {out : ByteString} (h : out.length < buflen) (c : UInt8) :
    putChar buflen out c = .ok (out ++ [c]) := by
  unfold putChar
  rw [if_pos h]

section

variable {X : List (BitVec w)}

theorem writeHexLoop_byte {buflen i : Nat} {k : Bool} {out : ByteString}
    (hwrite : ¬ ((getByte X i).toNat = 0 ∧ k = false ∧ i ≠ 0)) (hroom : out.length + 2 ≤ buflen) :
    writeHexLoop X buflen (i + 1) k out = writeHexLoop X buflen i true
      (out ++ [digitChar ((getByte X i).toNat / 16), digitChar ((getByte X i).toNat % 16)]) := by
  have hbyte : (getByte X i).toNat < 256 := (getByte X i).toNat_lt
  obtain ⟨_, _, _, hhigh⟩ := digitChar_spec (show (getByte X i).toNat / 16 < 16 by omega)
  obtain ⟨_, _, _, hlow⟩ := digitChar_spec (show (getByte X i).toNat % 16 < 16 by omega)
  have hfirst := putChar_ok (show out.length < buflen by omega)
    (digitChar ((getByte X i).toNat / 16))
  have hsecond := putChar_ok (show (out ++ [digitChar ((getByte X i).toNat / 16)]).length < buflen
    by rw [List.length_append, List.length_singleton]; omega)
    (digitChar ((getByte X i).toNat % 16))
  rw [List.append_assoc] at hsecond
  rw [writeHexLoop]
  simp only [hhigh, hlow, bind, Except.bind, hfirst, hsecond]
  rw [if_neg hwrite]
  rfl

theorem digits_byte {b : Nat} (hb : b < 256) :
    Digits 16 b [digitChar (b / 16), digitChar (b % 16)] := by
  have happend := (Digits.singleton (Nat.le_refl 16) (show b / 16 < 16 by omega)).append
    (Digits.singleton (Nat.le_refl 16) (show b % 16 < 16 by omega))
  rw [List.length_singleton, Nat.pow_one, Nat.mul_comm, Nat.div_add_mod] at happend
  exact happend

theorem writeHexLoop_true (hw : 0 < ciL w) (hbits : w = 8 * ciL w) {buflen i : Nat}
    {out : ByteString} (hroom : out.length + 2 * i ≤ buflen) :
    ∃ ds, writeHexLoop X buflen i true out = .ok (out ++ ds) ∧ ds.length = 2 * i ∧
      Digits 16 (value X % 256 ^ i) ds := by
  induction i generalizing out with
  | zero =>
    refine ⟨[], by simp [writeHexLoop], rfl, ?_⟩
    rw [Nat.pow_zero, Nat.mod_one]
    exact Digits.nil 16
  | succ i ih =>
    rw [writeHexLoop_byte (by simp) (by omega)]
    have hbyte : (getByte X i).toNat = value X / 256 ^ i % 256 := by
      rw [getByte_eq hw hbits, UInt8.toNat_ofNat']
    obtain ⟨ds, hds, hlen, hdigits⟩ := @ih (out ++
      [digitChar ((getByte X i).toNat / 16), digitChar ((getByte X i).toNat % 16)])
      (by rw [List.length_append]; change _ + 2 + _ ≤ _; omega)
    refine ⟨_, by rw [hds, List.append_assoc], ?_, ?_⟩
    · rw [List.length_append, hlen]
      change 2 + 2 * i = 2 * (i + 1)
      omega
    have happend := (digits_byte (getByte X i).toNat_lt).append hdigits
    have hpow : (16 : Nat) ^ ds.length = 256 ^ i := by
      rw [hlen, Nat.pow_mul]
    have hvalue : (getByte X i).toNat * 256 ^ i + value X % 256 ^ i =
        value X % 256 ^ (i + 1) := by
      rw [hbyte, Nat.pow_succ, Nat.mod_mul, Nat.mul_comm, Nat.add_comm]
    rwa [hpow, hvalue] at happend

theorem writeHexLoop_false (hw : 0 < ciL w) (hbits : w = 8 * ciL w) {buflen i m : Nat}
    {out : ByteString} (hm : 0 < m) (hvalue : value X % 256 ^ i < 256 ^ m)
    (hroom : out.length + 2 * m ≤ buflen) :
    ∃ ds, writeHexLoop X buflen i false out = .ok (out ++ ds) ∧ ds.length ≤ 2 * m ∧
      ds.length ≤ 2 * i ∧ Digits 16 (value X % 256 ^ i) ds := by
  induction i with
  | zero =>
    refine ⟨[], by simp [writeHexLoop], Nat.zero_le _, Nat.zero_le _, ?_⟩
    rw [Nat.pow_zero, Nat.mod_one]
    exact Digits.nil 16
  | succ i ih =>
    have hbyte : (getByte X i).toNat = value X / 256 ^ i % 256 := by
      rw [getByte_eq hw hbits, UInt8.toNat_ofNat']
    have hsplit : value X % 256 ^ (i + 1) =
        value X % 256 ^ i + 256 ^ i * (getByte X i).toNat := by
      rw [hbyte, Nat.pow_succ, Nat.mod_mul]
    by_cases hskip : (getByte X i).toNat = 0 ∧ i ≠ 0
    · rw [hskip.1, Nat.mul_zero, Nat.add_zero] at hsplit
      rw [hsplit] at hvalue ⊢
      obtain ⟨ds, hds, hlen, hlen', hdigits⟩ := ih hvalue
      refine ⟨ds, ?_, hlen, by omega, hdigits⟩
      rw [writeHexLoop]
      simp only
      rw [if_pos ⟨hskip.1, trivial, hskip.2⟩, hds]
    · have him : i + 1 ≤ m := by
        rcases Nat.eq_zero_or_pos i with hzero | hpos
        · omega
        have hne : 0 < (getByte X i).toNat :=
          Nat.pos_of_ne_zero fun hzero => hskip ⟨hzero, Nat.ne_of_gt hpos⟩
        have hle := Nat.le_mul_of_pos_right (256 ^ i) hne
        exact (Nat.pow_lt_pow_iff_right (show 1 < 256 by decide)).mp
          (show 256 ^ i < 256 ^ m by omega)
      obtain ⟨ds, hds, hlen, hdigits⟩ := @writeHexLoop_true w X hw hbits buflen (i + 1) out
        (by omega)
      have hsame : writeHexLoop X buflen (i + 1) false out =
          writeHexLoop X buflen (i + 1) true out := by
        rw [writeHexLoop_byte (fun h => hskip ⟨h.1, h.2.2⟩) (by omega),
          writeHexLoop_byte (by simp) (by omega)]
      exact ⟨ds, hsame.trans hds, by omega, by omega, hdigits⟩

end

/-! ## The round trip -/

theorem splitSign_of_ne (h : ∀ c ∈ s, c ≠ 0x2D) : splitSign s = (1, s) := by
  unfold splitSign
  split
  · next s => exact absurd rfl (h 0x2D List.mem_cons_self)
  · rfl

theorem length_le_of_four_le {radix v k len : Nat} (hradix : 4 ≤ radix) (hv : v < 2 ^ k)
    (h : len = 1 ∨ radix ^ (len - 1) ≤ v) : len ≤ k / 2 + 1 := by
  rcases h with hone | hle
  · omega
  have hfour : 2 ^ (2 * (len - 1)) ≤ radix ^ (len - 1) := by
    rw [Nat.pow_mul]
    exact Nat.pow_le_pow_left hradix _
  have hlt := (Nat.pow_lt_pow_iff_right (show 1 < 2 by decide)).mp
    (show 2 ^ (2 * (len - 1)) < 2 ^ k by omega)
  omega

theorem textSize_room {radix v k room : Nat} (hradix : 2 ≤ radix ∧ radix ≤ 16) (hne : radix ≠ 16)
    (hv : v < 2 ^ k) (hroom : textSize radix k ≤ room + 1) :
    v < radix ^ room ∧ ∀ len, (len = 1 ∨ radix ^ (len - 1) ≤ v) → len + 2 ≤ textSize radix k := by
  unfold textSize at hroom ⊢
  simp only at hroom ⊢
  rw [if_neg (show ¬ radix ≥ 16 by omega)] at hroom ⊢
  by_cases hfour : 4 ≤ radix
  · rw [if_pos hfour] at hroom ⊢
    constructor
    · calc v < 2 ^ k := hv
        _ ≤ 2 ^ (2 * room) := Nat.pow_le_pow_right (by decide) (by omega)
        _ = 4 ^ room := by rw [Nat.pow_mul]
        _ ≤ radix ^ room := Nat.pow_le_pow_left hfour _
    · intro len hlen
      have := length_le_of_four_le hfour hv hlen
      omega
  · rw [if_neg hfour] at hroom ⊢
    constructor
    · calc v < 2 ^ k := hv
        _ ≤ 2 ^ room := Nat.pow_le_pow_right (by decide) (by omega)
        _ ≤ radix ^ room := Nat.pow_le_pow_left hradix.1 _
    intro len hlen
    rcases hlen with hone | hle
    · omega
    · have htwo : 2 ^ (len - 1) ≤ radix ^ (len - 1) := Nat.pow_le_pow_left hradix.1 _
      have hlt := (Nat.pow_lt_pow_iff_right (show 1 < 2 by decide)).mp
        (show 2 ^ (len - 1) < 2 ^ k by omega)
      omega

theorem textSize_hex (k : Nat) : 2 * max 1 ((k + 7) / 8) + 2 ≤ textSize 16 k := by
  unfold textSize
  simp only
  rw [if_pos (by decide), if_pos (by decide)]
  omega

theorem mbedtlsMpiWriteString_ok (hw : w = 32 ∨ w = 64) {X : MbedtlsMpi w} {radix buflen : Nat}
    (hradix : 2 ≤ radix ∧ radix ≤ 16) (hlimbs : limbCount w X.abs ≤ mpiDivLimbs)
    (hbuf : textSize radix (mbedtlsMpiBitlen X) ≤ buflen) :
    ∃ ds, mbedtlsMpiWriteString X radix buflen =
        .ok ((if X.s = -1 then [0x2D] else []) ++ ds ++ [0]) ∧
      ((if X.s = -1 then [0x2D] else []) ++ ds ++ [0] : ByteString).length ≤ buflen ∧
      Digits radix X.abs ds ∧ (radix = 16 → ds.length ≤ 2 * (X.n * ciL w)) := by
  have hciL : 0 < ciL w := by
    rcases hw with rfl | rfl <;> decide
  have hbits : w = 8 * ciL w := by
    rcases hw with rfl | rfl <;> rfl
  have hsize : X.abs < 2 ^ mbedtlsMpiBitlen X := by
    rw [mbedtlsMpiBitlen_eq]
    exact Nat.lt_size_self _
  have hmin : 2 ≤ textSize radix (mbedtlsMpiBitlen X) := by
    unfold textSize
    simp only
    omega
  generalize hsign : (if X.s = -1 then [0x2D] else [] : ByteString) = sign
  have hsignLen : sign.length ≤ 1 := by
    rw [← hsign]
    split <;> decide
  have hput : (if X.s = -1 then putChar buflen [] 0x2D else .ok []) = .ok sign := by
    rw [← hsign]
    split
    · exact putChar_ok (show ([] : ByteString).length < buflen by change 0 < buflen; omega) _
    · rfl
  have hbody : ∃ ds, (if radix = 16 then writeHexLoop X.p buflen (X.n * ciL w) false sign
      else do
        let digits ← mpiWriteHlp radix (limbCount w X.abs) (buflen - sign.length) X.abs []
        .ok (sign ++ digits)) = .ok (sign ++ ds) ∧ sign.length + ds.length < buflen ∧
          Digits radix X.abs ds ∧ (radix = 16 → ds.length ≤ 2 * (X.n * ciL w)) := by
    by_cases hhex : radix = 16
    · subst hhex
      have hroom := textSize_hex (mbedtlsMpiBitlen X)
      have hall : value X.p % 256 ^ (X.n * ciL w) = X.abs := by
        apply Nat.mod_eq_of_lt
        have hpow : (256 : Nat) ^ (X.n * ciL w) = 2 ^ (w * X.p.length) := by
          rw [show (256 : Nat) = 2 ^ 8 from rfl, ← Nat.pow_mul]
          congr 1
          calc 8 * (X.n * ciL w) = 8 * ciL w * X.p.length := by
                unfold MbedtlsMpi.n
                ring
            _ = w * X.p.length := congrArg (fun v => v * X.p.length) hbits.symm
        rw [hpow]
        exact value_lt X.p
      have hvalue : X.abs < 256 ^ max 1 ((mbedtlsMpiBitlen X + 7) / 8) := by
        calc X.abs < 2 ^ mbedtlsMpiBitlen X := hsize
          _ ≤ 2 ^ (8 * max 1 ((mbedtlsMpiBitlen X + 7) / 8)) :=
            Nat.pow_le_pow_right (by decide) (by omega)
          _ = 256 ^ max 1 ((mbedtlsMpiBitlen X + 7) / 8) := by rw [Nat.pow_mul]
      obtain ⟨ds, hds, hlen, hlen', hdigits⟩ := @writeHexLoop_false w X.p hciL hbits buflen
        (X.n * ciL w) (max 1 ((mbedtlsMpiBitlen X + 7) / 8)) sign
        (show 0 < max 1 ((mbedtlsMpiBitlen X + 7) / 8) by omega) (by rwa [hall]) (by omega)
      rw [hall] at hdigits
      rw [if_pos rfl]
      exact ⟨ds, hds, by omega, hdigits, fun _ => hlen'⟩
    · have hn : limbCount w X.abs + 2 ≤ mbedtlsMpiMaxLimbs := by
        have hmax : mbedtlsMpiMaxLimbs = mpiDivLimbs + 2 := rfl
        omega
      obtain ⟨hlt, hroom⟩ := textSize_room hradix hhex hsize
        (show textSize radix (mbedtlsMpiBitlen X) ≤ (buflen - sign.length) + 1 by omega)
      obtain ⟨ds, hds, hdigits, hlen⟩ := mpiWriteHlp_spec hradix hn
        (show 0 < buflen - sign.length by omega) hlt []
      have := hroom ds.length hlen
      rw [if_neg hhex, hds, List.append_nil]
      exact ⟨ds, rfl, by omega, hdigits, fun h => absurd h hhex⟩
  obtain ⟨ds, hds, hlen, hdigits, hhexLen⟩ := hbody
  refine ⟨ds, ?_, ?_, hdigits, hhexLen⟩
  · unfold mbedtlsMpiWriteString
    rw [if_neg (by omega)]
    rw [if_neg (by omega), hput]
    change Except.bind (if radix = 16 then _ else _) _ = _
    rw [hds]
    exact putChar_ok (by rw [List.length_append]; omega) 0
  · rw [List.length_append, List.length_append, List.length_singleton]
    omega

theorem writeString_reported {X : MbedtlsMpi w} {radix buflen olen : Nat}
    (hradix : 2 ≤ radix ∧ radix ≤ 16)
    (h : mbedtlsMpiWriteString X radix buflen = .error (.bufferTooSmall olen)) :
    olen = textSize radix (mbedtlsMpiBitlen X) ∨ textSize radix (mbedtlsMpiBitlen X) ≤ buflen := by
  unfold mbedtlsMpiWriteString at h
  rw [if_neg (by omega)] at h
  simp only at h
  split at h
  · cases h
    exact .inl rfl
  · next hlarge => exact .inr (Nat.not_lt.mp hlarge)

theorem mpiText_roundTrip (hw : w = 32 ∨ w = 64) {X : MbedtlsMpi w} {radix buflen : Nat}
    (hradix : 2 ≤ radix ∧ radix ≤ 16) (hsign : X.s = 1 ∨ X.s = -1)
    (hn : X.n ≤ mbedtlsMpiMaxLimbs) (hlimbs : limbCount w X.abs ≤ mpiDivLimbs)
    (hbuf : textSize radix (mbedtlsMpiBitlen X) ≤ buflen) :
    ∃ out, mbedtlsMpiWriteString X radix buflen = .ok (out ++ [0]) ∧
      (out ++ [0]).length ≤ buflen ∧ (∀ c ∈ out, c ≠ 0) ∧
      ∀ Y, ∃ Z, mbedtlsMpiReadString w Y radix out = .ok Z ∧ Z.val = X.toInt := by
  obtain ⟨ds, hwrite, hlen, hdigits, hhex⟩ := mbedtlsMpiWriteString_ok hw hradix hlimbs hbuf
  have hsplit : splitSign ((if X.s = -1 then [0x2D] else []) ++ ds) = (X.s, ds) := by
    rcases hsign with hone | hneg
    · rw [if_neg (by omega), hone]
      exact splitSign_of_ne fun c hc => (hdigits.chars c hc).1
    · rw [if_pos hneg, hneg]
      rfl
  refine ⟨_, hwrite, hlen, ?_, ?_⟩
  · intro c hc
    rcases List.mem_append.mp hc with h | h
    · split at h
      · rw [List.mem_singleton.mp h]
        decide
      · cases h
    · exact (hdigits.chars c h).2
  · intro Y
    have hfits : X.abs < 2 ^ (w * (mbedtlsMpiMaxLimbs - 1)) := by
      have hpos : 0 < w := by omega
      have hlt := (limbCount_le hpos).mp hlimbs
      rw [Int.natAbs_natCast] at hlt
      refine Nat.lt_of_lt_of_le hlt (Nat.pow_le_pow_right (by decide) (Nat.mul_le_mul_left w ?_))
      decide
    have hhexLen : radix = 16 → 4 * ds.length ≤ w * mbedtlsMpiMaxLimbs := by
      intro h
      have hbits : 8 * ciL w = w := by
        rcases hw with rfl | rfl <;> rfl
      have hmul : 8 * (X.n * ciL w) = w * X.n := by
        calc 8 * (X.n * ciL w) = 8 * ciL w * X.n := by ring
          _ = w * X.n := by rw [hbits]
      have hle := Nat.mul_le_mul_left w hn
      omega
    obtain ⟨Z, hread⟩ := mbedtlsMpiReadString_complete hw hradix Y
      (s := (if X.s = -1 then [0x2D] else []) ++ ds) (by rw [hsplit]; exact hdigits.digits)
      (by rw [hsplit]; exact hhexLen) (by rw [hsplit, hdigits.value]; exact hfits)
    obtain ⟨_, _, hval⟩ := mbedtlsMpiReadString_sound hw hread
    refine ⟨Z, hread, ?_⟩
    rw [hval, hsplit, hdigits.value]
    rfl

theorem mpi_text_conversion (hw : w = 32 ∨ w = 64) {radix : Nat}
    (hradix : 2 ≤ radix ∧ radix ≤ 16) :
    (∀ (X : MbedtlsMpi w) (small olen buflen : Nat), (X.s = 1 ∨ X.s = -1) →
      X.n ≤ mbedtlsMpiMaxLimbs → limbCount w X.abs ≤ mpiDivLimbs →
      small < textSize radix (mbedtlsMpiBitlen X) →
      mbedtlsMpiWriteString X radix small = .error (.bufferTooSmall olen) → olen ≤ buflen →
      ∃ out, mbedtlsMpiWriteString X radix buflen = .ok (out ++ [0]) ∧
        (out ++ [0]).length ≤ buflen ∧ (∀ c ∈ out, c ≠ 0) ∧
        ∀ Y, ∃ Z, mbedtlsMpiReadString w Y radix out = .ok Z ∧ Z.val = X.toInt) ∧
    (∀ (Y Z : MpiNum) (s : ByteString), mbedtlsMpiReadString w Y radix s = .ok Z →
      AreDigits radix (splitSign s).2 ∧ Z.val = (splitSign s).1 * textValue radix (splitSign s).2) ∧
    (∀ (Y : MpiNum) (s : ByteString), AreDigits radix (splitSign s).2 →
      4 * (splitSign s).2.length ≤ w * (mbedtlsMpiMaxLimbs - 1) →
        ∃ Z, mbedtlsMpiReadString w Y radix s = .ok Z) := by
  refine ⟨?_, ?_, ?_⟩
  · intro X small olen buflen hsign hn hlimbs hsmall hreport hbuf
    have holen : olen = textSize radix (mbedtlsMpiBitlen X) := by
      rcases writeString_reported hradix hreport with heq | hle
      · exact heq
      · omega
    exact mpiText_roundTrip hw hradix hsign hn hlimbs (by omega)
  · intro Y Z s hread
    exact (mbedtlsMpiReadString_sound hw hread).2
  · intro Y s hdigits hlen
    have hmul : w * (mbedtlsMpiMaxLimbs - 1) ≤ w * mbedtlsMpiMaxLimbs :=
      Nat.mul_le_mul_left w (Nat.sub_le _ _)
    apply mbedtlsMpiReadString_complete hw hradix Y hdigits (fun _ => by omega)
    calc textValue radix (splitSign s).2 < radix ^ (splitSign s).2.length :=
          textValue_lt (show 1 < radix by omega) hdigits
      _ ≤ 16 ^ (splitSign s).2.length := Nat.pow_le_pow_left hradix.2 _
      _ = 2 ^ (4 * (splitSign s).2.length) := by rw [Nat.pow_mul]
      _ ≤ 2 ^ (w * (mbedtlsMpiMaxLimbs - 1)) := Nat.pow_le_pow_right (by decide) hlen

/-- The number -10 in radix 10. -/
theorem mpi_text_conversion_ten :
    (∃ out, mbedtlsMpiWriteString (w := 64) ⟨-1, [10]⟩ 10 6 = .ok (out ++ [0]) ∧
      (out ++ [0]).length ≤ 6 ∧ (∀ c ∈ out, c ≠ 0) ∧
      ∀ Y, ∃ Z, mbedtlsMpiReadString 64 Y 10 out = .ok Z ∧ Z.val = -10) ∧
    ∃ Z, mbedtlsMpiReadString 64 .init 10 [0x2D, 0x31, 0x30] = .ok Z := by
  have h := @mpi_text_conversion 64 (.inr rfl) 10 (by decide)
  refine ⟨?_, h.2.2 .init [0x2D, 0x31, 0x30] (by decide) (by decide)⟩
  exact h.1 ⟨-1, [10]⟩ 0 6 6 (.inr rfl) (by decide) (by decide) (by decide) rfl (by decide)

/-- A number of 160001 zero digits does not fit in 10000 limbs of 64 bits. -/
theorem mpi_text_too_many_zeros :
    AreDigits 16 (List.replicate 160001 0x30) ∧
      mbedtlsMpiReadString 64 .init 16 (List.replicate 160001 0x30) = .error .allocFailed := by
  have hne : ∀ c ∈ (List.replicate 160001 0x30 : ByteString), c ≠ 0x2D := by
    intro c hc
    rw [List.eq_of_mem_replicate hc]
    decide
  have hnil : (List.replicate 160001 0x30 : ByteString) ≠ [] := by
    rw [List.replicate_succ]
    exact List.cons_ne_nil _ _
  refine ⟨?_, ?_⟩
  · intro c hc
    rw [List.eq_of_mem_replicate hc]
    decide
  unfold mbedtlsMpiReadString
  rw [if_neg (by decide), if_neg hnil, splitSign_of_ne hne]
  simp only [List.length_replicate]
  have hgrow : MpiNum.init.grow (bitsToLimbs 64 (160001 * 4)) MpiNum.init.val =
      .error .allocFailed := rfl
  rw [if_pos trivial, if_neg (by decide), hgrow]
  rfl

end TfPsaCrypto.BignumText
