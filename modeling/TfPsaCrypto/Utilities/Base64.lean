import TfPsaCrypto.Library.Bytes
import TfPsaCrypto.Utilities.ConstantTime

/-!
# Base64

`base64.c`. A destination is its size and whether it is NULL. `Layout` and `WellFormed` say which
texts are base64: both passes of the decoder read exactly these.
-/

namespace TfPsaCrypto

open Bytes

namespace Base64

/-! ## The code -/

inductive Ret where
  | ok
  | bufferTooSmall
  | invalidCharacter
  | corruptionDetected
  deriving DecidableEq, Repr

/-- What a call returns: the status, `*olen` where it was set, and the bytes stored
in the destination from its start on. -/
structure Result where
  ret : Ret
  olen : Option Nat
  written : ByteString
  deriving DecidableEq, Repr

def newline : UInt8 := 0x0a
def carriageReturn : UInt8 := 0x0d
def space : UInt8 := 0x20
def equalSign : UInt8 := 0x3d

def mbedtlsCtBase64EncChar (value : UInt8) : UInt8 :=
  mbedtlsCtUcharInRangeIf 0 25 value ('A'.toUInt8 + value) |||
  mbedtlsCtUcharInRangeIf 26 51 value ('a'.toUInt8 + value - 26) |||
  mbedtlsCtUcharInRangeIf 52 61 value ('0'.toUInt8 + value - 52) |||
  mbedtlsCtUcharInRangeIf 62 62 value '+'.toUInt8 |||
  mbedtlsCtUcharInRangeIf 63 63 value '/'.toUInt8

/-- The value of a digit, or -1. -/
def mbedtlsCtBase64DecValue (c : UInt8) : Int :=
  let val :=
    mbedtlsCtUcharInRangeIf 'A'.toUInt8 'Z'.toUInt8 c (c - 'A'.toUInt8 + 0 + 1) |||
    mbedtlsCtUcharInRangeIf 'a'.toUInt8 'z'.toUInt8 c (c - 'a'.toUInt8 + 26 + 1) |||
    mbedtlsCtUcharInRangeIf '0'.toUInt8 '9'.toUInt8 c (c - '0'.toUInt8 + 52 + 1) |||
    mbedtlsCtUcharInRangeIf '+'.toUInt8 '+'.toUInt8 c (c - '+'.toUInt8 + 62 + 1) |||
    mbedtlsCtUcharInRangeIf '/'.toUInt8 '/'.toUInt8 c (c - '/'.toUInt8 + 63 + 1)
  (val.toNat : Int) - 1

def encodeGroups : ByteString → ByteString
  | c1 :: c2 :: c3 :: src =>
    mbedtlsCtBase64EncChar (c1 >>> 2 &&& 0x3f) ::
    mbedtlsCtBase64EncChar (((c1 &&& 3) <<< 4) + (c2 >>> 4) &&& 0x3f) ::
    mbedtlsCtBase64EncChar (((c2 &&& 15) <<< 2) + (c3 >>> 6) &&& 0x3f) ::
    mbedtlsCtBase64EncChar (c3 &&& 0x3f) :: encodeGroups src
  | [c1, c2] =>
    [mbedtlsCtBase64EncChar (c1 >>> 2 &&& 0x3f),
      mbedtlsCtBase64EncChar (((c1 &&& 3) <<< 4) + (c2 >>> 4) &&& 0x3f),
      mbedtlsCtBase64EncChar ((c2 &&& 15) <<< 2 &&& 0x3f), equalSign]
  | [c1] =>
    [mbedtlsCtBase64EncChar (c1 >>> 2 &&& 0x3f),
      mbedtlsCtBase64EncChar (((c1 &&& 3) <<< 4) + ((0 : UInt8) >>> 4) &&& 0x3f),
      equalSign, equalSign]
  | [] => []

def mbedtlsBase64Encode (sizeMax : Nat) (dstIsNull : Bool) (dlen : Nat)
    (src : ByteString) : Result :=
  if src.length = 0 then
    { ret := .ok, olen := some 0, written := [] }
  else
    let n := src.length / 3 + if src.length % 3 ≠ 0 then 1 else 0
    if n > (sizeMax - 1) / 4 then
      { ret := .bufferTooSmall, olen := some sizeMax, written := [] }
    else
      let n := n * 4
      if dlen < n + 1 ∨ dstIsNull then
        { ret := .bufferTooSmall, olen := some (n + 1), written := [] }
      else
        let text := encodeGroups src
        { ret := .ok, olen := some text.length, written := text ++ [0] }

/-- The first pass on the rest of the source, after `n` characters, `equals` of them `=`: the
counts, or `none` for an invalid character. The inner loop over spaces is the state `spacesPresent`.
-/
def checkSource (spacesPresent : Bool) (n equals : Nat) : ByteString → Option (Nat × Nat)
  | [] => some (n, equals)
  | c :: src =>
    if c = space then
      checkSource true n equals src
    else if c = carriageReturn ∧ src.head? = some newline then
      checkSource false n equals src
    else if c = newline then
      checkSource false n equals src
    else if spacesPresent then
      none
    else if c > 127 then
      none
    else if c = equalSign then
      if equals + 1 > 2 then none
      else checkSource false (n + 1) (equals + 1) src
    else if equals ≠ 0 then
      none
    else if mbedtlsCtBase64DecValue c < 0 then
      none
    else
      checkSource false (n + 1) equals src

def byte0 (x : UInt32) : UInt8 := x.toUInt8
def byte1 (x : UInt32) : UInt8 := (x >>> 8).toUInt8
def byte2 (x : UInt32) : UInt8 := (x >>> 16).toUInt8

def decodeTail (x : UInt32) (accumulatedDigits : Nat) : ByteString :=
  if accumulatedDigits = 3 then [byte2 (x <<< 6), byte1 (x <<< 6)]
  else if accumulatedDigits = 2 then [byte2 (x <<< 12)]
  else []

def decodeDigits (x : UInt32) (accumulatedDigits : Nat) : ByteString → ByteString
  | [] => decodeTail x accumulatedDigits
  | c :: src =>
    if c = carriageReturn ∨ c = newline ∨ c = space then
      decodeDigits x accumulatedDigits src
    else if c = equalSign then
      decodeTail x accumulatedDigits
    else
      let x := x <<< 6 ||| UInt32.ofInt (mbedtlsCtBase64DecValue c)
      if accumulatedDigits + 1 = 4 then
        byte2 x :: byte1 x :: byte0 x :: decodeDigits x 0 src
      else
        decodeDigits x (accumulatedDigits + 1) src

def mbedtlsBase64Decode (dstIsNull : Bool) (dlen : Nat) (src : ByteString) : Result :=
  match checkSource false 0 0 src with
  | none => { ret := .invalidCharacter, olen := none, written := [] }
  | some (n, equals) =>
    if (n - equals) % 4 = 1 then
      { ret := .invalidCharacter, olen := none, written := [] }
    else if n % 4 ≠ 0 then
      { ret := .invalidCharacter, olen := none, written := [] }
    else
      let olen := n / 4 * 3 - equals
      if (olen ≠ 0 ∧ dstIsNull) ∨ dlen < olen then
        { ret := .bufferTooSmall, olen := some olen, written := [] }
      else
        let written := decodeDigits 0 0 src
        { ret := if olen ≠ written.length then .corruptionDetected else .ok
          olen := some olen
          written := written }

/-! ## Base64 texts -/

/-- The 64 digits: letters, decimal digits, `+` and `/`. -/
def IsDigit (c : UInt8) : Prop :=
  ('A'.toUInt8 ≤ c ∧ c ≤ 'Z'.toUInt8) ∨ ('a'.toUInt8 ≤ c ∧ c ≤ 'z'.toUInt8) ∨
    ('0'.toUInt8 ≤ c ∧ c ≤ '9'.toUInt8) ∨ c = '+'.toUInt8 ∨ c = '/'.toUInt8

instance : DecidablePred IsDigit := fun c => by
  unfold IsDigit
  infer_instance

/-- White space between the characters of a text: `src` is `text` with line ends (LF or CRLF)
anywhere, and spaces before a line end or at the end of the source. -/
inductive Layout : ByteString → ByteString → Prop
  | trailing (k : Nat) : Layout (List.replicate k space) []
  | lineEnd (k : Nat) {eol src text : ByteString} :
      eol = [newline] ∨ eol = [carriageReturn, newline] → Layout src text →
      Layout (List.replicate k space ++ (eol ++ src)) text
  | character {c : UInt8} {src text : ByteString} :
      c ≠ space → c ≠ newline → c ≠ carriageReturn → Layout src text →
      Layout (c :: src) (c :: text)

def Padded (digits : ByteString) (equals : Nat) : ByteString :=
  digits ++ List.replicate equals equalSign

/-- A base64 text of `digits` digits and `equals` signs `=`, with its white space. -/
def IsText (src digits : ByteString) (equals : Nat) : Prop :=
  Layout src (Padded digits equals) ∧ (∀ c ∈ digits, IsDigit c) ∧ equals ≤ 2

def WellFormed (src : ByteString) : Prop :=
  ∃ digits equals, IsText src digits equals ∧ (digits.length + equals) % 4 = 0

/-! ## Digits -/

theorem forall_sixBits {P : UInt8 → Prop} (h : ∀ n < 64, P (UInt8.ofNat n)) (v : UInt8)
    (hv : v.toNat < 64) : P v := by
  simpa using h v.toNat hv

theorem forall_bytes {P : UInt8 → Prop} (h : ∀ n < 256, P (UInt8.ofNat n)) (c : UInt8) :
    P c := by
  simpa using h c.toNat c.toNat_lt

theorem decValue_encChar (v : UInt8) (hv : v.toNat < 64) :
    mbedtlsCtBase64DecValue (mbedtlsCtBase64EncChar v) = v.toNat := by
  revert v
  apply forall_sixBits
  decide

theorem encChar_isDigit (v : UInt8) (hv : v.toNat < 64) :
    IsDigit (mbedtlsCtBase64EncChar v) := by
  revert v
  apply forall_sixBits
  decide

set_option maxRecDepth 4000 in
theorem isDigit_iff (c : UInt8) : IsDigit c ↔ 0 ≤ mbedtlsCtBase64DecValue c := by
  revert c
  apply forall_bytes
  decide

set_option maxRecDepth 4000 in
set_option maxRecDepth 4000 in
theorem IsDigit.le {c : UInt8} (h : IsDigit c) : c ≤ 127 := by
  revert c
  apply forall_bytes
  decide

theorem IsDigit.ne {c : UInt8} (h : IsDigit c) :
    c ≠ space ∧ c ≠ newline ∧ c ≠ carriageReturn ∧ c ≠ equalSign := by
  refine ⟨?_, ?_, ?_, ?_⟩
  all_goals
    rintro rfl
    revert h
    decide

/-! ## The first pass -/

section FirstPass

variable {src text digits : ByteString} {n equals n' equals' : Nat}

def AfterSpaces (src text : ByteString) : Prop :=
  ∃ k, (src = List.replicate k space ∧ text = []) ∨
    ∃ eol rest, (eol = [newline] ∨ eol = [carriageReturn, newline]) ∧
      src = List.replicate k space ++ (eol ++ rest) ∧ Layout rest text

theorem AfterSpaces.layout (h : AfterSpaces src text) : Layout src text := by
  obtain ⟨k, ⟨rfl, rfl⟩ | ⟨eol, rest, heol, rfl, hrest⟩⟩ := h
  · exact .trailing k
  · exact .lineEnd k heol hrest

theorem AfterSpaces.cons (h : AfterSpaces src text) : AfterSpaces (space :: src) text := by
  obtain ⟨k, ⟨rfl, rfl⟩ | ⟨eol, rest, heol, rfl, hrest⟩⟩ := h
  · exact ⟨k + 1, .inl ⟨rfl, rfl⟩⟩
  · exact ⟨k + 1, .inr ⟨eol, rest, heol, rfl, hrest⟩⟩

theorem AfterSpaces.lineFeed (h : Layout src text) : AfterSpaces (newline :: src) text :=
  ⟨0, .inr ⟨[newline], src, .inl rfl, rfl, h⟩⟩

theorem Layout.of_newline (h : Layout (newline :: src) text) : Layout src text := by
  generalize hw : newline :: src = whole at h
  cases h with
  | trailing k => cases k <;> simp [List.replicate_succ, newline, space] at hw
  | @lineEnd k eol rest text heol hrest =>
    cases k with
    | zero =>
      rcases heol with rfl | rfl
      · simp only [List.replicate_zero, List.nil_append, List.singleton_append,
          List.cons.injEq, true_and] at hw
        rwa [hw]
      · simp [newline, carriageReturn] at hw
    | succ k => simp [List.replicate_succ, newline, space] at hw
  | character hs hn hr _ =>
    injection hw with hhead _
    exact absurd hhead.symm hn

/-- What the first pass counts: digits while there has been no `=`, then `=` signs up
to two in all. -/
def Counts (equals : Nat) (text : ByteString) (equals' : Nat) : Prop :=
  ∃ digits pads, text = Padded digits pads ∧ (∀ c ∈ digits, IsDigit c) ∧
    (equals ≠ 0 → digits = []) ∧ equals' = equals + pads ∧ (pads ≠ 0 → equals' ≤ 2)

theorem Counts.nil : Counts equals [] equals := ⟨[], 0, rfl, by simp, fun _ => rfl, rfl, by simp⟩

theorem Counts.digit {c : UInt8} (hc : IsDigit c) (h : Counts 0 text equals') :
    Counts 0 (c :: text) equals' := by
  obtain ⟨digits, pads, rfl, hdigits, -, hsum, hle⟩ := h
  refine ⟨c :: digits, pads, rfl, ?_, by simp, hsum, hle⟩
  intro d hd
  rcases List.mem_cons.mp hd with rfl | hd
  · exact hc
  · exact hdigits d hd

theorem Counts.equalSign (hle : equals + 1 ≤ 2) (h : Counts (equals + 1) text equals') :
    Counts equals (equalSign :: text) equals' := by
  obtain ⟨digits, pads, rfl, _, hnone, hsum, hlimit⟩ := h
  rw [hnone (by omega)]
  refine ⟨[], pads + 1, rfl, by simp, fun _ => rfl, by omega, fun _ => ?_⟩
  by_cases hpads : pads = 0
  · omega
  · exact hlimit hpads

theorem checkSource_sound (spaces : Bool)
    (h : checkSource spaces n equals src = some (n', equals')) :
    ∃ text, (if spaces then AfterSpaces src text else Layout src text) ∧
      n' = n + text.length ∧ Counts equals text equals' := by
  induction src generalizing spaces n equals with
  | nil =>
    obtain ⟨rfl, rfl⟩ := h
    have hnil : AfterSpaces [] [] := ⟨0, .inl ⟨rfl, rfl⟩⟩
    refine ⟨[], ?_, rfl, .nil⟩
    cases spaces
    · exact hnil.layout
    · exact hnil
  | cons c src ih =>
    unfold checkSource at h
    split at h
    · next hc =>
      obtain ⟨text, hlayout, hlen, hcounts⟩ := ih true h
      have hspaces : AfterSpaces (c :: src) text := hc ▸ AfterSpaces.cons hlayout
      refine ⟨text, ?_, hlen, hcounts⟩
      cases spaces
      · exact hspaces.layout
      · exact hspaces
    split at h
    · next hc =>
      obtain ⟨hc, hhead⟩ := hc
      obtain ⟨text, hlayout, hlen, hcounts⟩ := ih false h
      rw [List.head?_eq_some_iff] at hhead
      obtain ⟨rest, rfl⟩ := hhead
      have hspaces : AfterSpaces (c :: newline :: rest) text :=
        ⟨0, .inr ⟨[carriageReturn, newline], rest, .inr rfl, by rw [hc]; rfl,
          Layout.of_newline hlayout⟩⟩
      refine ⟨text, ?_, hlen, hcounts⟩
      cases spaces
      · exact hspaces.layout
      · exact hspaces
    next hcrlf =>
    split at h
    · next hc =>
      obtain ⟨text, hlayout, hlen, hcounts⟩ := ih false h
      have hspaces : AfterSpaces (c :: src) text := hc ▸ AfterSpaces.lineFeed hlayout
      refine ⟨text, ?_, hlen, hcounts⟩
      cases spaces
      · exact hspaces.layout
      · exact hspaces
    next hspace hnewline =>
    split at h
    · simp at h
    next hspaces =>
    rw [Bool.not_eq_true] at hspaces
    subst hspaces
    split at h
    · simp at h
    split at h
    · next hc =>
      subst hc
      split at h
      · simp at h
      next hle =>
      obtain ⟨text, hlayout, hlen, hcounts⟩ := ih false h
      refine ⟨equalSign :: text, ?_, by rw [hlen, List.length_cons]; omega,
        hcounts.equalSign (by omega)⟩
      exact .character (by decide) (by decide) (by decide) hlayout
    split at h
    · simp at h
    next hequals =>
    rw [not_not] at hequals
    split at h
    · simp at h
    next hvalue =>
    have hdigit : IsDigit c := (isDigit_iff c).mpr (by omega)
    obtain ⟨hs, hn, hr, _⟩ := hdigit.ne
    obtain ⟨text, hlayout, hlen, hcounts⟩ := ih false h
    subst hequals
    exact ⟨c :: text, .character hs hn hr hlayout, by rw [hlen, List.length_cons]; omega,
      hcounts.digit hdigit⟩

theorem checkSource_spaces (k : Nat) (spaces : Bool) :
    checkSource spaces n equals (List.replicate k space) = some (n, equals) := by
  induction k generalizing spaces with
  | zero => rfl
  | succ k ih =>
    rw [List.replicate_succ, checkSource, if_pos rfl]
    exact ih true

theorem checkSource_newline (spaces : Bool) :
    checkSource spaces n equals (newline :: src) = checkSource false n equals src := by
  rw [checkSource, if_neg (by decide), if_neg (by rintro ⟨h, _⟩; exact absurd h (by decide)),
    if_pos rfl]

theorem checkSource_lineEnd (k : Nat) (spaces : Bool) {eol : ByteString}
    (heol : eol = [newline] ∨ eol = [carriageReturn, newline]) :
    checkSource spaces n equals (List.replicate k space ++ (eol ++ src)) =
      checkSource false n equals src := by
  induction k generalizing spaces with
  | zero =>
    rcases heol with rfl | rfl
    · exact checkSource_newline spaces
    · change checkSource spaces n equals (carriageReturn :: newline :: src) = _
      rw [checkSource, if_neg (by decide), if_pos ⟨rfl, rfl⟩]
      exact checkSource_newline false
  | succ k ih =>
    rw [List.replicate_succ, List.cons_append, checkSource, if_pos rfl]
    exact ih true

theorem Counts.uncons {c : UInt8} (h : Counts equals (c :: text) equals') :
    (IsDigit c ∧ equals = 0 ∧ Counts 0 text equals') ∨
      (c = Base64.equalSign ∧ equals + 1 ≤ 2 ∧ Counts (equals + 1) text equals') := by
  obtain ⟨digits, pads, htext, hdigits, hnone, hsum, hle⟩ := h
  cases digits with
  | nil =>
    cases pads with
    | zero => simp [Padded] at htext
    | succ pads =>
      have hlimit := hle (Nat.succ_ne_zero pads)
      obtain ⟨rfl, rfl⟩ := htext
      exact .inr ⟨rfl, by omega, [], pads, rfl, by simp, fun _ => rfl, by omega, fun _ => hlimit⟩
  | cons d digits =>
    obtain ⟨rfl, rfl⟩ := htext
    have hzero : equals = 0 := by
      by_contra hne
      exact absurd (hnone hne) (by simp)
    subst hzero
    exact .inl ⟨hdigits c List.mem_cons_self, rfl, digits, pads, rfl,
      fun e he => hdigits e (List.mem_cons_of_mem c he), by simp, hsum, hle⟩

theorem checkSource_complete (hlayout : Layout src text) :
    ∀ {n equals equals' : Nat}, Counts equals text equals' →
      checkSource false n equals src = some (n + text.length, equals') := by
  induction hlayout with
  | trailing k =>
    rintro n equals equals' ⟨digits, pads, htext, _, _, hsum, _⟩
    have hlen := congrArg List.length htext
    simp only [Padded, List.length_nil, List.length_append, List.length_replicate] at hlen
    rw [checkSource_spaces]
    simp only [List.length_nil, Option.some.injEq, Prod.mk.injEq]
    omega
  | lineEnd k heol _ ih =>
    intro n equals equals' hcounts
    rw [checkSource_lineEnd k false heol]
    exact ih hcounts
  | @character c src text hs hn hr _ ih =>
    intro n equals equals' hcounts
    rw [checkSource, if_neg hs, if_neg (fun h => hr h.1), if_neg hn, if_neg (by simp),
      List.length_cons, Nat.add_comm text.length 1, ← Nat.add_assoc]
    rcases hcounts.uncons with ⟨hdigit, rfl, hrest⟩ | ⟨rfl, hle, hrest⟩
    · have hvalue := (isDigit_iff c).mp hdigit
      rw [if_neg (UInt8.not_lt.mpr hdigit.le), if_neg hdigit.ne.2.2.2, if_neg (by simp),
        if_neg (by omega)]
      exact ih hrest
    · rw [if_neg (by decide), if_pos rfl, if_neg (by omega)]
      exact ih hrest

end FirstPass

/-! ## The second pass -/

section SecondPass

variable {src text digits : ByteString} {x : UInt32} {acc : Nat}

theorem decodeDigits_skip {c : UInt8} (hc : c = carriageReturn ∨ c = newline ∨ c = space) :
    decodeDigits x acc (c :: src) = decodeDigits x acc src := by
  rw [decodeDigits, if_pos hc]

theorem decodeDigits_spaces (k : Nat) :
    decodeDigits x acc (List.replicate k space ++ src) = decodeDigits x acc src := by
  induction k with
  | zero => rfl
  | succ k ih =>
    rw [List.replicate_succ, List.cons_append, decodeDigits_skip (.inr (.inr rfl)), ih]

theorem decodeDigits_layout (h : Layout src text) :
    ∀ x acc, decodeDigits x acc src = decodeDigits x acc text := by
  induction h with
  | trailing k =>
    intro x acc
    have hspaces : decodeDigits x acc (List.replicate k space ++ []) = decodeDigits x acc [] :=
      decodeDigits_spaces k
    rwa [List.append_nil] at hspaces
  | lineEnd k heol _ ih =>
    intro x acc
    rw [decodeDigits_spaces]
    rcases heol with rfl | rfl
    · exact (decodeDigits_skip (.inr (.inl rfl))).trans (ih x acc)
    · exact (decodeDigits_skip (.inl rfl)).trans
        ((decodeDigits_skip (.inr (.inl rfl))).trans (ih x acc))
  | character hs hn hr _ ih =>
    intro x acc
    unfold decodeDigits
    simp only [ih]

theorem decodeDigits_padded (hdigits : ∀ c ∈ digits, IsDigit c) (pads : Nat) :
    ∀ x acc, decodeDigits x acc (Padded digits pads) = decodeDigits x acc digits := by
  induction digits with
  | nil =>
    intro x acc
    cases pads with
    | zero => rfl
    | succ pads =>
      change decodeDigits x acc (equalSign :: List.replicate pads equalSign) = _
      rw [decodeDigits.eq_2, if_neg (by decide), if_pos rfl]
      rfl
  | cons c digits ih =>
    intro x acc
    obtain ⟨_, hrest⟩ := List.forall_mem_cons.mp hdigits
    have hind := ih hrest
    change decodeDigits x acc (c :: Padded digits pads) = _
    unfold decodeDigits
    simp only [hind]

theorem decodeDigits_digit {c : UInt8} (hc : IsDigit c) :
    decodeDigits x acc (c :: src) =
      let x' := x <<< 6 ||| UInt32.ofInt (mbedtlsCtBase64DecValue c)
      if acc + 1 = 4 then byte2 x' :: byte1 x' :: byte0 x' :: decodeDigits x' 0 src
      else decodeDigits x' (acc + 1) src := by
  obtain ⟨hs, hn, hr, he⟩ := hc.ne
  rw [decodeDigits, if_neg (by simp [hs, hn, hr]), if_neg he]

/-- The bytes of `m` digits: three for every four, and those of an incomplete
group. -/
def decodedLength (m : Nat) : Nat :=
  3 * (m / 4) + if m % 4 = 3 then 2 else if m % 4 = 2 then 1 else 0

theorem decodedLength_add_four (m : Nat) : decodedLength (4 + m) = decodedLength m + 3 := by
  unfold decodedLength
  rw [Nat.add_mod_left, Nat.add_div_left m (by omega)]
  omega

theorem length_decodeDigits (hdigits : ∀ c ∈ digits, IsDigit c) :
    ∀ x acc, acc < 4 → (decodeDigits x acc digits).length =
      decodedLength (acc + digits.length) := by
  induction digits with
  | nil =>
    intro x acc hacc
    interval_cases acc <;> rfl
  | cons c digits ih =>
    intro x acc hacc
    obtain ⟨hc, hrest⟩ := List.forall_mem_cons.mp hdigits
    rw [decodeDigits_digit hc]
    split
    · next hfull =>
      have hsum : acc + (c :: digits).length = 4 + (0 + digits.length) := by
        rw [List.length_cons]
        omega
      rw [hsum, decodedLength_add_four, ← ih hrest _ 0 (by omega)]
      rfl
    · next hmore =>
      rw [ih hrest _ (acc + 1) (by omega), List.length_cons, Nat.add_assoc, Nat.add_comm 1]

end SecondPass

/-! ## Decoding what was encoded -/

section RoundTrip

variable {x : UInt32} {acc : Nat} {src : ByteString}

theorem toNat_byte0 (x : UInt32) : (byte0 x).toNat = x.toNat % 256 := by
  simp [byte0]

theorem toNat_byte1 (x : UInt32) : (byte1 x).toNat = x.toNat / 256 % 256 := by
  simp [byte1, Nat.shiftRight_eq_div_pow]

theorem toNat_byte2 (x : UInt32) : (byte2 x).toNat = x.toNat / 65536 % 256 := by
  simp [byte2, Nat.shiftRight_eq_div_pow]

theorem toNat_shiftLeft_six (x : UInt32) : (x <<< 6).toNat = x.toNat * 64 % 2 ^ 32 := by
  simp [UInt32.toNat_shiftLeft, Nat.shiftLeft_eq]

theorem toNat_shiftLeft_twelve (x : UInt32) :
    (x <<< 12).toNat = x.toNat * 4096 % 2 ^ 32 := by
  simp [UInt32.toNat_shiftLeft, Nat.shiftLeft_eq]

theorem toNat_accumulate (x : UInt32) {v : Nat} (hv : v < 64) :
    (x <<< 6 ||| UInt32.ofInt v).toNat = (x.toNat * 64 + v) % 2 ^ 32 := by
  have hofInt : (UInt32.ofInt v).toNat = v := by
    have hmod : ((v : Int) % 2 ^ 32).toNat = v := by omega
    rw [UInt32.ofInt, hmod]
    have hsize : v < UInt32.size := Nat.lt_trans hv (by decide)
    exact UInt32.toNat_ofNat_of_lt' hsize
  have hlow : x.toNat * 64 % 2 ^ 32 = (x.toNat % 2 ^ 26) <<< 6 := by
    rw [Nat.shiftLeft_eq]
    omega
  have hv' : v < 2 ^ 6 := hv
  have hor : (x.toNat % 2 ^ 26) <<< 6 ||| v = ((x.toNat % 2 ^ 26) <<< 6) + v :=
    (Nat.shiftLeft_add_eq_or_of_lt hv' _).symm
  rw [UInt32.toNat_or, hofInt, toNat_shiftLeft_six, hlow, hor, Nat.shiftLeft_eq]
  omega

theorem decodeDigits_encChar (x : UInt32) (acc : Nat) (src : ByteString) {v : UInt8} {k : Nat}
    (hk : v.toNat = k) (hv : k < 64) :
    ∃ x', x'.toNat = (x.toNat * 64 + k) % 2 ^ 32 ∧
      decodeDigits x acc (mbedtlsCtBase64EncChar v :: src) =
        if acc + 1 = 4 then byte2 x' :: byte1 x' :: byte0 x' :: decodeDigits x' 0 src
        else decodeDigits x' (acc + 1) src := by
  subst hk
  refine ⟨_, toNat_accumulate x hv, ?_⟩
  rw [decodeDigits_digit (encChar_isDigit v hv), decValue_encChar v hv]

theorem toNat_and_3 (c : UInt8) : (c &&& 3).toNat = c.toNat % 4 := by
  rw [UInt8.toNat_and]
  exact Nat.and_two_pow_sub_one_eq_mod _ 2

theorem toNat_and_15 (c : UInt8) : (c &&& 15).toNat = c.toNat % 16 := by
  rw [UInt8.toNat_and]
  exact Nat.and_two_pow_sub_one_eq_mod _ 4

theorem toNat_and_63 (c : UInt8) : (c &&& 0x3f).toNat = c.toNat % 64 := by
  rw [UInt8.toNat_and]
  exact Nat.and_two_pow_sub_one_eq_mod _ 6

/-! The four sextets of three bytes. -/

theorem toNat_sextet1 (c1 : UInt8) : (c1 >>> 2 &&& 0x3f).toNat = c1.toNat / 4 := by
  have h := c1.toNat_lt
  rw [toNat_and_63, UInt8.toNat_shiftRight, Nat.shiftRight_eq_div_pow]
  simp
  omega

theorem toNat_sextet2 (c1 c2 : UInt8) :
    (((c1 &&& 3) <<< 4) + (c2 >>> 4) &&& 0x3f).toNat = c1.toNat % 4 * 16 + c2.toNat / 16 := by
  have h2 := c2.toNat_lt
  rw [toNat_and_63, UInt8.toNat_add, UInt8.toNat_shiftLeft, UInt8.toNat_shiftRight,
    toNat_and_3, Nat.shiftRight_eq_div_pow, Nat.shiftLeft_eq]
  simp
  omega

theorem toNat_sextet3 (c2 c3 : UInt8) :
    (((c2 &&& 15) <<< 2) + (c3 >>> 6) &&& 0x3f).toNat = c2.toNat % 16 * 4 + c3.toNat / 64 := by
  have h2 := c3.toNat_lt
  rw [toNat_and_63, UInt8.toNat_add, UInt8.toNat_shiftLeft, UInt8.toNat_shiftRight,
    toNat_and_15, Nat.shiftRight_eq_div_pow, Nat.shiftLeft_eq]
  simp
  omega

theorem toNat_sextet3_last (c2 : UInt8) :
    ((c2 &&& 15) <<< 2 &&& 0x3f).toNat = c2.toNat % 16 * 4 := by
  rw [toNat_and_63, UInt8.toNat_shiftLeft, toNat_and_15, Nat.shiftLeft_eq]
  simp
  omega

theorem decodeDigits_equalSign (x : UInt32) (acc : Nat) (src : ByteString) :
    decodeDigits x acc (equalSign :: src) = decodeTail x acc := by
  rw [decodeDigits.eq_2, if_neg (by decide), if_pos rfl]

theorem decodeDigits_encodeGroups (src : ByteString) :
    ∀ x, decodeDigits x 0 (encodeGroups src) = src := by
  induction src using encodeGroups.induct with
  | case1 c1 c2 c3 src ih =>
    intro x
    have h1 := c1.toNat_lt
    have h2 := c2.toNat_lt
    have h3 := c3.toNat_lt
    rw [encodeGroups]
    obtain ⟨x1, hx1, hd1⟩ := decodeDigits_encChar x 0 _ (toNat_sextet1 c1) (by omega)
    obtain ⟨x2, hx2, hd2⟩ := decodeDigits_encChar x1 1 _ (toNat_sextet2 c1 c2) (by omega)
    obtain ⟨x3, hx3, hd3⟩ := decodeDigits_encChar x2 2 _ (toNat_sextet3 c2 c3) (by omega)
    obtain ⟨x4, hx4, hd4⟩ := decodeDigits_encChar x3 3 _ (toNat_and_63 c3) (by omega)
    rw [hd1, if_neg (by omega), hd2, if_neg (by omega), hd3, if_neg (by omega), hd4, if_pos rfl, ih]
    have hb1 : byte2 x4 = c1 := by
      apply UInt8.toNat_inj.mp
      rw [toNat_byte2]
      omega
    have hb2 : byte1 x4 = c2 := by
      apply UInt8.toNat_inj.mp
      rw [toNat_byte1]
      omega
    have hb3 : byte0 x4 = c3 := by
      apply UInt8.toNat_inj.mp
      rw [toNat_byte0]
      omega
    rw [hb1, hb2, hb3]
  | case2 c1 c2 =>
    intro x
    have h1 := c1.toNat_lt
    have h2 := c2.toNat_lt
    rw [encodeGroups]
    obtain ⟨x1, hx1, hd1⟩ := decodeDigits_encChar x 0 _ (toNat_sextet1 c1) (by omega)
    obtain ⟨x2, hx2, hd2⟩ := decodeDigits_encChar x1 1 _ (toNat_sextet2 c1 c2) (by omega)
    obtain ⟨x3, hx3, hd3⟩ := decodeDigits_encChar x2 2 _ (toNat_sextet3_last c2) (by omega)
    rw [hd1, if_neg (by omega), hd2, if_neg (by omega), hd3, if_neg (by omega),
      decodeDigits_equalSign, decodeTail, if_pos rfl]
    have hshift := toNat_shiftLeft_six x3
    have hb1 : byte2 (x3 <<< 6) = c1 := by
      apply UInt8.toNat_inj.mp
      rw [toNat_byte2]
      omega
    have hb2 : byte1 (x3 <<< 6) = c2 := by
      apply UInt8.toNat_inj.mp
      rw [toNat_byte1]
      omega
    rw [hb1, hb2]
  | case3 c1 =>
    intro x
    have h1 := c1.toNat_lt
    have hzero : ((0 : UInt8)).toNat = 0 := rfl
    rw [encodeGroups]
    obtain ⟨x1, hx1, hd1⟩ := decodeDigits_encChar x 0 _ (toNat_sextet1 c1) (by omega)
    obtain ⟨x2, hx2, hd2⟩ := decodeDigits_encChar x1 1 _ (toNat_sextet2 c1 0) (by omega)
    rw [hd1, if_neg (by omega), hd2, if_neg (by omega), decodeDigits_equalSign, decodeTail,
      if_neg (by omega), if_pos rfl]
    have hshift := toNat_shiftLeft_twelve x2
    have hb1 : byte2 (x2 <<< 12) = c1 := by
      apply UInt8.toNat_inj.mp
      rw [toNat_byte2]
      omega
    rw [hb1]
  | case4 => exact fun x => rfl

end RoundTrip

/-! ## The two functions -/

def encodedLength (n : Nat) : Nat := 4 * ((n + 2) / 3)

theorem length_encodeGroups (src : ByteString) :
    (encodeGroups src).length = encodedLength src.length := by
  induction src using encodeGroups.induct with
  | case1 c1 c2 c3 src ih =>
    simp only [encodeGroups, List.length_cons, ih, encodedLength]
    omega
  | case2 c1 c2 => simp [encodeGroups, encodedLength]
  | case3 c1 => simp [encodeGroups, encodedLength]
  | case4 => rfl

theorem encodeGroups_padded (src : ByteString) :
    ∃ digits pads, encodeGroups src = Padded digits pads ∧ (∀ c ∈ digits, IsDigit c) ∧
      pads ≤ 2 := by
  induction src using encodeGroups.induct with
  | case1 c1 c2 c3 src ih =>
    have h1 := c1.toNat_lt
    have h2 := c2.toNat_lt
    have h3 := c3.toNat_lt
    obtain ⟨digits, pads, htext, hdigits, hpads⟩ := ih
    refine ⟨_ :: _ :: _ :: _ :: digits, pads, by rw [encodeGroups, htext]; rfl, ?_, hpads⟩
    simp only [List.forall_mem_cons]
    refine ⟨?_, ?_, ?_, ?_, hdigits⟩
    · exact encChar_isDigit _ (by rw [toNat_sextet1]; omega)
    · exact encChar_isDigit _ (by rw [toNat_sextet2]; omega)
    · exact encChar_isDigit _ (by rw [toNat_sextet3]; omega)
    · exact encChar_isDigit _ (by rw [toNat_and_63]; omega)
  | case2 c1 c2 =>
    have h1 := c1.toNat_lt
    have h2 := c2.toNat_lt
    refine ⟨[_, _, _], 1, by rw [encodeGroups]; rfl, ?_, by omega⟩
    simp only [List.forall_mem_cons]
    refine ⟨?_, ?_, ?_, by simp⟩
    · exact encChar_isDigit _ (by rw [toNat_sextet1]; omega)
    · exact encChar_isDigit _ (by rw [toNat_sextet2]; omega)
    · exact encChar_isDigit _ (by rw [toNat_sextet3_last]; omega)
  | case3 c1 =>
    have h1 := c1.toNat_lt
    have hzero : ((0 : UInt8)).toNat = 0 := rfl
    refine ⟨[_, _], 2, by rw [encodeGroups]; rfl, ?_, by omega⟩
    simp only [List.forall_mem_cons]
    refine ⟨?_, ?_, by simp⟩
    · exact encChar_isDigit _ (by rw [toNat_sextet1]; omega)
    · exact encChar_isDigit _ (by rw [toNat_sextet2]; omega)
  | case4 => exact ⟨[], 0, rfl, by simp, by omega⟩

theorem layout_self {text : ByteString}
    (h : ∀ c ∈ text, c ≠ space ∧ c ≠ newline ∧ c ≠ carriageReturn) : Layout text text := by
  induction text with
  | nil => exact .trailing 0
  | cons c text ih =>
    obtain ⟨⟨hs, hn, hr⟩, hrest⟩ := List.forall_mem_cons.mp h
    exact .character hs hn hr (ih hrest)

theorem Padded.no_space {digits : ByteString} {pads : Nat} (h : ∀ c ∈ digits, IsDigit c) :
    ∀ c ∈ Padded digits pads, c ≠ space ∧ c ≠ newline ∧ c ≠ carriageReturn := by
  intro c hc
  rcases List.mem_append.mp hc with hc | hc
  · obtain ⟨hs, hn, hr, _⟩ := (h c hc).ne
    exact ⟨hs, hn, hr⟩
  · rw [(List.mem_replicate.mp hc).2]
    decide

theorem length_padded (digits : ByteString) (equals : Nat) :
    (Padded digits equals).length = digits.length + equals := by
  simp [Padded]

section Decoder

variable {src digits : ByteString} {equals dlen : Nat} {null : Bool}

theorem mbedtlsBase64Decode_text (h : IsText src digits equals)
    (hmod : (digits.length + equals) % 4 = 0) :
    mbedtlsBase64Decode null dlen src =
      if (decodedLength digits.length ≠ 0 ∧ null) ∨ dlen < decodedLength digits.length then
        ⟨.bufferTooSmall, some (decodedLength digits.length), []⟩
      else
        ⟨.ok, some (decodedLength digits.length), decodeDigits 0 0 digits⟩ := by
  obtain ⟨hlayout, hdigits, hequals⟩ := h
  have hcounts : Counts 0 (Padded digits equals) equals :=
    ⟨digits, equals, rfl, hdigits, by simp, by omega, fun _ => hequals⟩
  have hcheck := checkSource_complete hlayout (n := 0) hcounts
  rw [length_padded, Nat.zero_add] at hcheck
  have holen : (digits.length + equals) / 4 * 3 - equals = decodedLength digits.length := by
    unfold decodedLength
    split
    · omega
    · split <;> omega
  have hwritten : decodeDigits 0 0 src = decodeDigits 0 0 digits :=
    (decodeDigits_layout hlayout 0 0).trans (decodeDigits_padded hdigits equals 0 0)
  have hlength : (decodeDigits 0 0 digits).length = decodedLength digits.length := by
    rw [length_decodeDigits hdigits 0 0 (by omega), Nat.zero_add]
  unfold mbedtlsBase64Decode
  rw [hcheck]
  dsimp only
  rw [if_neg (by omega), if_neg (by omega), holen, hwritten, hlength]
  simp

theorem mbedtlsBase64Decode_invalid (h : ¬ WellFormed src) :
    mbedtlsBase64Decode null dlen src = ⟨.invalidCharacter, none, []⟩ := by
  unfold mbedtlsBase64Decode
  cases hcheck : checkSource false 0 0 src with
  | none => rfl
  | some counts =>
    obtain ⟨n, equals⟩ := counts
    obtain ⟨text, hlayout, hn, digits, pads, rfl, hdigits, _, hsum, hle⟩ :=
      checkSource_sound false hcheck
    rw [length_padded] at hn
    have hpads : pads ≤ 2 := by
      by_cases hzero : pads = 0
      · omega
      · have hlimit := hle hzero
        omega
    have hmod : n % 4 ≠ 0 := by
      intro hzero
      exact h ⟨digits, pads, ⟨hlayout, hdigits, hpads⟩, by omega⟩
    dsimp only
    rw [if_pos hmod, ite_self]

end Decoder

/-- **Base64.** The decoder gives back what was encoded, in four characters for every three bytes,
and a NUL. It accepts exactly the complete texts; a small destination gets nothing but the length
needed; its final check never fails. -/
theorem base64_codec (sizeMax : Nat) :
    (∀ src dlen, src ≠ [] → (src.length + 2) / 3 ≤ (sizeMax - 1) / 4 →
      encodedLength src.length + 1 ≤ dlen →
      ∃ text, mbedtlsBase64Encode sizeMax false dlen src =
          ⟨.ok, some (encodedLength src.length), text ++ [0]⟩ ∧
        text.length = encodedLength src.length ∧
        ∀ dlen', src.length ≤ dlen' →
          mbedtlsBase64Decode false dlen' text = ⟨.ok, some src.length, src⟩) ∧
    (∀ null dlen, mbedtlsBase64Encode sizeMax null dlen [] = ⟨.ok, some 0, []⟩ ∧
      mbedtlsBase64Decode null dlen [] = ⟨.ok, some 0, []⟩) ∧
    (∀ src, (∃ dlen, (mbedtlsBase64Decode false dlen src).ret = .ok) ↔ WellFormed src) ∧
    (∀ src null dlen, (mbedtlsBase64Decode null dlen src).ret = .bufferTooSmall →
      ∃ out, mbedtlsBase64Decode null dlen src = ⟨.bufferTooSmall, some out.length, []⟩ ∧
        ∀ dlen', out.length ≤ dlen' →
          mbedtlsBase64Decode false dlen' src = ⟨.ok, some out.length, out⟩) ∧
    (∀ src null dlen, (mbedtlsBase64Decode null dlen src).written.length ≤ dlen ∧
      (null = true → (mbedtlsBase64Decode null dlen src).written = []) ∧
      (mbedtlsBase64Decode null dlen src).ret ≠ .corruptionDetected) := by
  have hwritten : ∀ digits : ByteString, (∀ c ∈ digits, IsDigit c) →
      (decodeDigits 0 0 digits).length = decodedLength digits.length := by
    intro digits hdigits
    rw [length_decodeDigits hdigits 0 0 (by omega), Nat.zero_add]
  refine ⟨?_, ?_, ?_, ?_, ?_⟩
  · intro src dlen hne hmax hlen
    obtain ⟨digits, pads, htext, hdigits, hpads⟩ := encodeGroups_padded src
    refine ⟨encodeGroups src, ?_, length_encodeGroups src, ?_⟩
    · have hn : src.length / 3 + (if src.length % 3 ≠ 0 then 1 else 0) =
          (src.length + 2) / 3 := by
        split <;> omega
      unfold encodedLength at hlen
      unfold mbedtlsBase64Encode
      rw [if_neg (by simpa using hne)]
      dsimp only
      rw [hn, if_neg (by omega), if_neg (by simp; omega), length_encodeGroups]
    · intro dlen' hdlen
      have hcount := length_encodeGroups src
      rw [htext, length_padded] at hcount
      have hlayout : Layout (encodeGroups src) (Padded digits pads) := by
        rw [htext]
        exact layout_self (Padded.no_space hdigits)
      have hback : decodeDigits 0 0 digits = src := by
        rw [← decodeDigits_padded hdigits pads, ← htext, decodeDigits_encodeGroups]
      have hsize : decodedLength digits.length = src.length := by
        rw [← hwritten digits hdigits, hback]
      rw [mbedtlsBase64Decode_text ⟨hlayout, hdigits, hpads⟩
        (by rw [hcount, encodedLength]; omega), hsize, hback]
      simp [Nat.not_lt.mpr hdlen]
  · exact fun null dlen => ⟨rfl, by cases null <;> rfl⟩
  · intro src
    constructor
    · rintro ⟨dlen, hok⟩
      by_contra hnot
      rw [mbedtlsBase64Decode_invalid hnot] at hok
      cases hok
    · rintro ⟨digits, equals, htext, hmod⟩
      refine ⟨decodedLength digits.length, ?_⟩
      rw [mbedtlsBase64Decode_text htext hmod, if_neg (by simp)]
  · intro src null dlen hsmall
    by_cases hwf : WellFormed src
    · obtain ⟨digits, equals, htext, hmod⟩ := hwf
      have hlength := hwritten digits htext.2.1
      rw [mbedtlsBase64Decode_text htext hmod] at hsmall ⊢
      refine ⟨decodeDigits 0 0 digits, ?_, ?_⟩
      · split at hsmall
        · next hcond => rw [if_pos hcond, hlength]
        · cases hsmall
      · intro dlen' hdlen
        rw [hlength] at hdlen
        rw [mbedtlsBase64Decode_text htext hmod, if_neg (by simp [Nat.not_lt.mpr hdlen]), hlength]
    · rw [mbedtlsBase64Decode_invalid hwf] at hsmall
      cases hsmall
  · intro src null dlen
    by_cases hwf : WellFormed src
    · obtain ⟨digits, equals, htext, hmod⟩ := hwf
      have hlength := hwritten digits htext.2.1
      rw [mbedtlsBase64Decode_text htext hmod]
      split
      · simp
      next hcond =>
      rw [not_or, Nat.not_lt] at hcond
      refine ⟨hlength.trans_le hcond.2, ?_, by simp⟩
      rintro rfl
      apply List.eq_nil_of_length_eq_zero
      rw [hlength]
      by_contra hne
      exact hcond.1 ⟨hne, rfl⟩
    · rw [mbedtlsBase64Decode_invalid hwf]
      simp

theorem base64_codec_witness :
    (∃ text, mbedtlsBase64Encode (2 ^ 32 - 1) false 5 [0xff] =
        ⟨.ok, some 4, text ++ [0]⟩ ∧
      mbedtlsBase64Decode false 1 text = ⟨.ok, some 1, [0xff]⟩) ∧
    ∃ out : ByteString, mbedtlsBase64Decode true 0 [0x2f, 0x2f, 0x3d, 0x3d] =
        ⟨.bufferTooSmall, some out.length, []⟩ ∧
      mbedtlsBase64Decode false out.length [0x2f, 0x2f, 0x3d, 0x3d] =
        ⟨.ok, some out.length, out⟩ := by
  obtain ⟨hround, _, _, hsize, _⟩ := base64_codec (2 ^ 32 - 1)
  obtain ⟨text, hencode, _, hdecode⟩ := hround [0xff] 5 (by simp) (by decide) (by decide)
  obtain ⟨out, hsmall, hlarge⟩ := hsize [0x2f, 0x2f, 0x3d, 0x3d] true 0 (by decide +kernel)
  exact ⟨⟨text, hencode, hdecode 1 (by decide)⟩, out, hsmall, hlarge _ (Nat.le_refl _)⟩

/-- **Counterexample.** For the empty string the encoder stores no NUL. -/
theorem base64_encode_empty :
    ¬ ∀ (sizeMax dlen : Nat) (src : ByteString),
      (src.length + 2) / 3 ≤ (sizeMax - 1) / 4 → encodedLength src.length + 1 ≤ dlen →
      (mbedtlsBase64Encode sizeMax false dlen src).written.length =
        encodedLength src.length + 1 := by
  intro h
  have hnul := h (2 ^ 32 - 1) 1 [] (by decide) (by decide)
  exact absurd hnul (by decide)

/-- The texts of RFC 4648 section 10, and a text of two lines. -/
example :
    let ascii (s : String) : ByteString := s.toList.map Char.toUInt8
    encodeGroups (ascii "fooba") = ascii "Zm9vYmE=" ∧
      mbedtlsBase64Decode false 5 (ascii "Zm9v \r\nYmE=\n") = ⟨.ok, some 5, ascii "fooba"⟩ ∧
      (mbedtlsBase64Decode false 5 (ascii "Zm9v YmE=")).ret = .invalidCharacter := by
  decide +kernel

end Base64

end TfPsaCrypto
