import TfPsaCrypto.Extras.LmsOneTime
import TfPsaCrypto.Library.HashTree

/-!
# LMS: signatures verify

The chains of the signer and the verifier meet, and the path recomputes the root.
-/

namespace TfPsaCrypto

variable {x : Nat → Node} {min max : Nat → Nat} {digest : Node}

namespace Lms

open Bytes Blocks

def totalHash (h : ByteString → Node) : Hash := fun data => .ok (h data)

variable {h : ByteString → Node} {params : LmotsParameters}

/-! ## Chains -/

def chainStep (h : ByteString → Node) (params : LmotsParameters) (i j : Nat) (x : Node) : Node :=
  h (params.head ++ toBE 2 i ++ [UInt8.ofNat j] ++ x.toList)

theorem hashChain_total (i n j : Nat) (x : Node) :
    hashChain (totalHash h) params i n j x = .ok (HashTree.chain (chainStep h params i) n j x) := by
  induction n generalizing j x with
  | zero => rfl
  | succ n ih =>
    rw [hashChain, HashTree.chain]
    exact ih (j + 1) _

def chainEnds (h : ByteString → Node) (params : LmotsParameters) (x : Nat → Node)
    (min max : Nat → Nat) (left i : Nat) : List Node :=
  (List.range' i left).map fun k =>
    HashTree.chain (chainStep h params k) (max k - min k) (min k) (x k)

theorem hashDigits_total (x : Nat → Node) (min max : Nat → Nat) (left i : Nat) :
    hashDigits (totalHash h) params x min max left i =
      .ok (chainEnds h params x min max left i) := by
  induction left generalizing i with
  | zero => rfl
  | succ left ih =>
    unfold hashDigits
    rw [hashChain_total]
    rw [ih]
    rfl

theorem hashDigitArray_total (hsome : ∃ i < 34, min i < max i) :
    hashDigitArray (totalHash h) params x min max = .ok (chainEnds h params x min max 34 0) := by
  unfold hashDigitArray
  rw [hashDigits_total]
  simp only
  rw [if_neg]
  intro hall
  obtain ⟨i, hi, hlt⟩ := hsome
  have := List.all_eq_true.mp hall i (List.mem_range.mpr hi)
  exact absurd (of_decide_eq_true this) (by omega)

/-! ### The digits of a message -/

def digitsOf (digest : Node) : ByteString :=
  digest.toList ++ toBE 2 (lmotsChecksumCalculate digest.toList)

theorem eq_replicate_of_digits {b : UInt8} (hall : ∀ i < 32, digest.toList.getD i 0 = b) :
    digest.toList = List.replicate 32 b := by
  apply List.ext_getElem
  · simp
  intro i hi hi'
  rw [Block.length_toList] at hi
  have := hall i hi
  rw [List.getD_eq_getElem _ _ (by simpa using hi)] at this
  rw [this, List.getElem_replicate]

theorem digitOf_digest {i : Nat} (hi : i < 32) :
    digitOf (digitsOf digest) i = (digest.toList.getD i 0).toNat := by
  unfold digitOf digitsOf
  rw [List.getD_append _ _ _ _ (by simpa using hi)]

theorem digitOf_checksum :
    digitOf (digitsOf digest) 32 =
      ((toBE 2 (lmotsChecksumCalculate digest.toList)).getD 0 0).toNat := by
  unfold digitOf digitsOf
  rw [List.getD_append_right _ _ _ _ (by simp), Block.length_toList]

theorem digitsOf_not_zero (digest : Node) : ∃ i < 34, 0 < digitOf (digitsOf digest) i := by
  by_contra hnone
  have hzero : ∀ i < 34, digitOf (digitsOf digest) i = 0 := by
    intro i hi
    by_contra hpos
    exact hnone ⟨i, hi, Nat.pos_of_ne_zero hpos⟩
  have hdigest : digest.toList = List.replicate 32 0 := by
    apply eq_replicate_of_digits
    intro i hi
    have := hzero i (by omega)
    rw [digitOf_digest hi] at this
    exact UInt8.toNat_inj.mp this
  have hsum := hzero 32 (by omega)
  rw [digitOf_checksum, hdigest] at hsum
  exact absurd hsum (by decide)

theorem digitsOf_not_max (digest : Node) : ∃ i < 34, digitOf (digitsOf digest) i < 255 := by
  by_contra hnone
  have hmax : ∀ i < 34, digitOf (digitsOf digest) i = 255 := by
    intro i hi
    by_contra hne
    have hlt := ((digitsOf digest).getD i 0).toNat_lt
    exact hnone ⟨i, hi, by unfold digitOf at hne ⊢; omega⟩
  have hdigest : digest.toList = List.replicate 32 255 := by
    apply eq_replicate_of_digits
    intro i hi
    have := hmax i (by omega)
    rw [digitOf_digest hi] at this
    exact UInt8.toNat_inj.mp this
  have hsum := hmax 32 (by omega)
  rw [digitOf_checksum, hdigest] at hsum
  exact absurd hsum (by decide)

theorem digitOf_le (digits : ByteString) (i : Nat) : digitOf digits i ≤ 255 := by
  have := (digits.getD i 0).toNat_lt
  unfold digitOf
  omega

def digestOf (h : ByteString → Node) (params : LmotsParameters) (msg : ByteString) (c : Node) :
    Node :=
  h (params.head ++ [0x81, 0x81] ++ c.toList ++ msg)

theorem createDigitArrayWithChecksum_total (msg : ByteString) (c : Node) :
    createDigitArrayWithChecksum (totalHash h) params msg c =
      .ok (digitsOf (digestOf h params msg c)) := rfl

def signatureChains (h : ByteString → Node) (params : LmotsParameters) (x : Nat → Node)
    (msg : ByteString) (c : Node) : List Node :=
  chainEnds h params x (fun _ => 0) (digitOf (digitsOf (digestOf h params msg c))) 34 0

def publicChains (h : ByteString → Node) (params : LmotsParameters) (x : Nat → Node) : List Node :=
  chainEnds h params x (fun _ => 0) (fun _ => 255) 34 0

theorem length_chainEnds {left i : Nat} : (chainEnds h params x min max left i).length = left := by
  simp [chainEnds]

theorem getElem_chainEnds {k : Nat} (hk : k < (chainEnds h params x min max 34 0).length) :
    (chainEnds h params x min max 34 0)[k] =
      HashTree.chain (chainStep h params k) (max k - min k) (min k) (x k) := by
  simp [chainEnds]

theorem chainEnds_meet {y : Nat → Node} {d : Nat → Nat} (hd : ∀ i, d i ≤ 255)
    (hy : ∀ i < 34, y i = HashTree.chain (chainStep h params i) (d i) 0 (x i)) :
    chainEnds h params y d (fun _ => 255) 34 0 = publicChains h params x := by
  unfold publicChains chainEnds
  apply List.map_congr_left
  intro i hi
  rw [List.mem_range'_1] at hi
  rw [hy i (by omega), HashTree.chain_meets (hd i)]
  rfl

/-! ## Keys -/

def otsParams (iKeyIdentifier : Block 16) (q : Nat) : LmotsParameters :=
  { iKeyIdentifier := iKeyIdentifier, qLeafIdentifier := Block.ofList (toBE 4 q)
    type := lmotsSha256N32W8 }

def keyDigits (h : ByteString → Node) (params : LmotsParameters) (seed : ByteString) : List Node :=
  (List.range' 0 34).map fun i => h (params.head ++ toBE 2 i ++ [0xFF] ++ seed)

theorem generateDigits_total (seed : ByteString) (left i : Nat) :
    generateDigits (totalHash h) params seed left i =
      .ok ((List.range' i left).map fun i => h (params.head ++ toBE 2 i ++ [0xFF] ++ seed)) := by
  induction left generalizing i with
  | zero => rfl
  | succ left ih =>
    unfold generateDigits
    rw [ih]
    rfl

section Keys

variable (h : ByteString → Node) (iKeyIdentifier : Block 16) (seed : ByteString)

/-- One-time key `q`. -/
def otsPrivate (q : Nat) : LmotsPrivate :=
  { params := otsParams iKeyIdentifier q
    privateKey := digitArray (keyDigits h (otsParams iKeyIdentifier q) seed)
    havePrivateKey := true }

def otsPublic (q : Nat) : LmotsPublic :=
  { params := otsParams iKeyIdentifier q
    publicKey :=
      h ((otsParams iKeyIdentifier q).head ++ [0x80, 0x80] ++
        (publicChains h (otsParams iKeyIdentifier q)
          (otsPrivate h iKeyIdentifier seed q).privateKey).flatMap Block.toList)
    havePublicKey := true }

def otsPublics (q : Nat) : LmotsPublic :=
  if q < 1024 then otsPublic h iKeyIdentifier seed q else .zero

end Keys

variable {iKeyIdentifier : Block 16} {seed : ByteString}

theorem lmotsGeneratePrivateKey_total (q : Nat) :
    lmotsGeneratePrivateKey (totalHash h) lmotsSha256N32W8 iKeyIdentifier q seed =
      .ok (otsPrivate h iKeyIdentifier seed q) := by
  unfold lmotsGeneratePrivateKey
  rw [if_neg (not_not.mpr rfl)]
  simp only
  rw [generateDigits_total]
  rfl

theorem lmotsCalculatePublicKey_total (q : Nat) :
    lmotsCalculatePublicKey (totalHash h) (otsPrivate h iKeyIdentifier seed q) =
      .ok (otsPublic h iKeyIdentifier seed q) := by
  unfold lmotsCalculatePublicKey
  rw [if_neg (by simp [otsPrivate]), hashDigitArray_total ⟨0, by omega, by omega⟩]
  rfl

/-- The key that `mbedtls_lms_generate_private_key` makes, as far as signing reads it: the public
keys of all leaves, and the one-time keys that have not been used. -/
structure KeyOf (h : ByteString → Node) (iKeyIdentifier : Block 16) (seed : ByteString)
    (ctx : LmsPrivate) : Prop where
  params : ctx.params = ⟨iKeyIdentifier, lmotsSha256N32W8, lmsSha256M32H10⟩
  havePrivateKey : ctx.havePrivateKey = true
  publicKeys : ctx.otsPublicKeys = otsPublics h iKeyIdentifier seed
  privateKeys : ∀ q < 1024, ctx.qNextUsableKey ≤ q →
    ctx.otsPrivateKeys q = otsPrivate h iKeyIdentifier seed q

theorem KeyOf.valid {ctx : LmsPrivate} (hkey : KeyOf h iKeyIdentifier seed ctx) : ctx.Valid :=
  ⟨hkey.havePrivateKey, by rw [hkey.params], by rw [hkey.params]⟩

theorem generateKeys_total (left idx : Nat) (ctx : LmsPrivate) :
    ∃ ctx',
      generateKeys (totalHash h) lmotsSha256N32W8 iKeyIdentifier seed left idx ctx = .ok ctx' ∧
      ctx'.params = ctx.params ∧ ctx'.havePrivateKey = ctx.havePrivateKey ∧
      ctx'.qNextUsableKey = ctx.qNextUsableKey ∧
      ∀ q, (q < idx ∨ idx + left ≤ q → ctx'.otsPrivateKeys q = ctx.otsPrivateKeys q ∧
          ctx'.otsPublicKeys q = ctx.otsPublicKeys q) ∧
        (idx ≤ q → q < idx + left →
          ctx'.otsPrivateKeys q = otsPrivate h iKeyIdentifier seed q ∧
            ctx'.otsPublicKeys q = otsPublic h iKeyIdentifier seed q) := by
  induction left generalizing idx ctx with
  | zero => exact ⟨ctx, rfl, rfl, rfl, rfl, fun q => ⟨fun _ => ⟨rfl, rfl⟩, fun _ _ => by omega⟩⟩
  | succ left ih =>
    unfold generateKeys
    rw [lmotsGeneratePrivateKey_total]
    simp only
    rw [lmotsCalculatePublicKey_total]
    obtain ⟨ctx', hgen, hparams, hhave, hnext, hkeys⟩ := ih (idx + 1)
      { ctx with
          otsPrivateKeys :=
            Function.update ctx.otsPrivateKeys idx (otsPrivate h iKeyIdentifier seed idx)
          otsPublicKeys :=
            Function.update ctx.otsPublicKeys idx (otsPublic h iKeyIdentifier seed idx) }
    refine ⟨ctx', hgen, hparams, hhave, hnext, ?_⟩
    intro q
    constructor
    · intro hq
      obtain ⟨hpriv, hpub⟩ := (hkeys q).1 (by omega)
      rw [hpriv, hpub]
      exact ⟨Function.update_of_ne (by omega) _ _, Function.update_of_ne (by omega) _ _⟩
    · intro hlo hhi
      by_cases heq : q = idx
      · subst heq
        obtain ⟨hpriv, hpub⟩ := (hkeys q).1 (by omega)
        rw [hpriv, hpub]
        exact ⟨Function.update_self _ _ _, Function.update_self _ _ _⟩
      · exact (hkeys q).2 (by omega) (by omega)

theorem lmsGeneratePrivateKey_total {env : Env} (hhash : env.hash = totalHash h)
    (hident : env.identifier = .ok iKeyIdentifier) (halloc : env.alloc = true) :
    ∃ key, lmsGeneratePrivateKey env lmsSha256M32H10 lmotsSha256N32W8 seed = .ok key ∧
      KeyOf h iKeyIdentifier seed key ∧ key.qNextUsableKey = 0 := by
  unfold lmsGeneratePrivateKey
  rw [if_neg (not_not.mpr rfl), if_neg (not_not.mpr rfl), hident, hhash]
  simp only
  rw [if_neg (by rw [halloc]; simp)]
  obtain ⟨key, hgen, hparams, hhave, hnext, hkeys⟩ :=
    @generateKeys_total h iKeyIdentifier seed 1024 0
    { params := ⟨iKeyIdentifier, lmotsSha256N32W8, lmsSha256M32H10⟩, qNextUsableKey := 0
      otsPrivateKeys := fun _ => .zero, otsPublicKeys := fun _ => .zero, havePrivateKey := true }
  refine ⟨key, hgen, ⟨hparams, hhave, ?_, ?_⟩, hnext⟩
  · funext q
    unfold otsPublics
    by_cases hq : q < 1024
    · rw [if_pos hq]
      exact ((hkeys q).2 (by omega) (by omega)).2
    · rw [if_neg hq]
      exact ((hkeys q).1 (.inr (by omega))).2
  · intro q hq _
    exact ((hkeys q).2 (by omega) (by omega)).1

theorem KeyOf.run {key ctx : LmsPrivate} {tr : List SignEvent}
    (hkey : KeyOf h iKeyIdentifier seed key) (hrun : Machine.Run signMachine key tr ctx) :
    KeyOf h iKeyIdentifier seed ctx := by
  apply hrun.state_invariant hkey
  intro s a s' o hs hstep
  obtain ⟨rfl, _⟩ := hstep
  have hused : ∀ priv, KeyOf h iKeyIdentifier seed (s.used priv) := by
    intro priv
    refine ⟨hs.params, hs.havePrivateKey, hs.publicKeys, ?_⟩
    intro q hq hle
    have hlt : s.qNextUsableKey < q := hle
    rw [← hs.privateKeys q hq (by omega)]
    exact Function.update_of_ne (by omega) _ _
  rcases lmsSign_cases a.env s a.msg a.sig with ⟨e, heq⟩ | ⟨_, _, _, ⟨_, _, hctx⟩ | hctx⟩
  · rw [heq]
    exact hs
  · rw [hctx]
    exact hused _
  · rw [hctx]
    exact hused _

/-! ## The tree -/

section Tree

variable (h : ByteString → Node) (params : LmsParameters) (publicKeys : Nat → LmotsPublic)

/-- The value of leaf node `r`. -/
def leafValue (r : Nat) : Node :=
  h (params.iKeyIdentifier.toList ++ toBE 4 r ++ [0x82, 0x82] ++
    (publicKeys (r - 1024)).publicKey.toList)

/-- The value of inner node `r`. -/
def innerValue (r : Nat) (left right : Node) : Node :=
  h (params.iKeyIdentifier.toList ++ toBE 4 r ++ [0x83, 0x83] ++ left.toList ++ right.toList)

def nodeValue (height r : Nat) : Node :=
  HashTree.node (leafValue h params publicKeys) (innerValue h params) height r

end Tree

variable {params : LmsParameters} {publicKeys : Nat → LmotsPublic}

theorem merkleLeaves_total (left idx : Nat) (tree : Tree) :
    ∃ tree', merkleLeaves (totalHash h) params publicKeys left idx tree = .ok tree' ∧
      ∀ r, (r < 1024 + idx → tree' r = tree r) ∧
        (1024 + idx ≤ r → r < 1024 + idx + left → tree' r = leafValue h params publicKeys r) := by
  induction left generalizing idx tree with
  | zero => exact ⟨tree, rfl, fun r => ⟨fun _ => rfl, fun _ _ => by omega⟩⟩
  | succ left ih =>
    have hvalue : createMerkleLeafValue (totalHash h) params (publicKeys idx).publicKey
        (1024 + idx) = .ok (leafValue h params publicKeys (1024 + idx)) := by
      unfold createMerkleLeafValue leafValue totalHash
      rw [Nat.add_sub_cancel_left]
    unfold merkleLeaves
    rw [hvalue]
    obtain ⟨tree', hleaves, htree⟩ := ih (idx + 1)
      (Function.update tree (1024 + idx) (leafValue h params publicKeys (1024 + idx)))
    refine ⟨tree', hleaves, ?_⟩
    intro r
    constructor
    · intro hr
      rw [(htree r).1 (by omega)]
      exact Function.update_of_ne (by omega) _ _
    intro hlo hhi
    by_cases heq : r = 1024 + idx
    · subst heq
      rw [(htree _).1 (by omega)]
      exact Function.update_self _ _ _
    · exact (htree r).2 (by omega) (by omega)

theorem nodeValue_inner {r : Nat} (hpos : 0 < r) (hr : r < 1024) :
    innerValue h params r (nodeValue h params publicKeys (10 - (r * 2).log2) (r * 2))
        (nodeValue h params publicKeys (10 - (r * 2 + 1).log2) (r * 2 + 1)) =
      nodeValue h params publicKeys (10 - r.log2) r := by
  have hlog : r.log2 < 10 := (Nat.log2_lt (by omega)).mpr hr
  have heven : (r * 2).log2 = r.log2 + 1 := by
    rw [Nat.mul_comm]
    exact Nat.log2_two_mul (by omega)
  have hodd : (r * 2 + 1).log2 = r.log2 + 1 := by
    rw [Nat.log2_def, if_pos (by omega), show (r * 2 + 1) / 2 = r by omega]
  rw [heven, hodd, show 10 - r.log2 = (10 - (r.log2 + 1)) + 1 by omega, Nat.mul_comm r 2]
  rfl

theorem merkleInternals_total (r : Nat) (hr : r < 1024) (tree : Tree)
    (htree : ∀ s, r < s → s < 2048 → tree s = nodeValue h params publicKeys (10 - s.log2) s) :
    ∃ tree', merkleInternals (totalHash h) params r tree = .ok tree' ∧
      ∀ s, 0 < s → s < 2048 → tree' s = nodeValue h params publicKeys (10 - s.log2) s := by
  induction r generalizing tree with
  | zero => exact ⟨tree, rfl, htree⟩
  | succ r ih =>
    have hvalue : createMerkleInternalValue (totalHash h) params (tree ((r + 1) * 2))
        (tree ((r + 1) * 2 + 1)) (r + 1) =
          .ok (nodeValue h params publicKeys (10 - (r + 1).log2) (r + 1)) := by
      rw [htree ((r + 1) * 2) (by omega) (by omega),
        htree ((r + 1) * 2 + 1) (by omega) (by omega), ← nodeValue_inner (by omega) hr]
      rfl
    unfold merkleInternals
    rw [hvalue]
    apply ih (by omega)
    intro s hlo hhi
    by_cases heq : s = r + 1
    · subst heq
      exact Function.update_self _ _ _
    · rw [← htree s (by omega) hhi]
      exact Function.update_of_ne heq _ _

theorem calculateMerkleTree_total :
    ∃ tree, calculateMerkleTree (totalHash h) params publicKeys = .ok tree ∧
      ∀ s, 0 < s → s < 2048 → tree s = nodeValue h params publicKeys (10 - s.log2) s := by
  obtain ⟨tree, hleaves, htree⟩ := @merkleLeaves_total h params publicKeys 1024 0
    (fun _ => Block.zero)
  unfold calculateMerkleTree
  rw [hleaves]
  apply merkleInternals_total 1023 (by omega)
  intro s hlo hhi
  have hlog : s.log2 = 10 := (Nat.log2_eq_iff (by omega)).mpr ⟨by omega, by omega⟩
  rw [(htree s).2 (by omega) (by omega), hlog]
  rfl

theorem merklePath_eq {tree : Tree}
    (htree : ∀ s, 0 < s → s < 2048 → tree s = nodeValue h params publicKeys (10 - s.log2) s)
    (left height r : Nat) (hheight : height + left = 10) (hlo : 2 ^ left ≤ r)
    (hhi : r < 2 ^ (left + 1)) :
    merklePath tree left r =
      HashTree.path (leafValue h params publicKeys) (innerValue h params) left height r := by
  induction left generalizing height r with
  | zero => rfl
  | succ left ih =>
    have hmax : 2 ^ (left + 1 + 1) ≤ 2 ^ 11 := Nat.pow_le_pow_right (by omega) (by omega)
    have hsibling : 2 ^ (left + 1) ≤ HashTree.sibling r ∧
        HashTree.sibling r < 2 ^ (left + 1 + 1) := by
      rw [HashTree.sibling_eq]
      split <;> omega
    have hlog : (HashTree.sibling r).log2 = left + 1 := (Nat.log2_eq_iff (by omega)).mpr hsibling
    have hnode : tree (r ^^^ 1) = nodeValue h params publicKeys height (HashTree.sibling r) := by
      show tree (HashTree.sibling r) = _
      rw [htree _ (by omega) (by omega), hlog]
      congr 1
      omega
    unfold merklePath
    rw [HashTree.path, hnode, Nat.shiftRight_one, ih (height + 1) (r / 2) (by omega) (by omega)
      (by omega)]
    rfl

theorem verifyPath_total (path : Nat → Node) (left height r : Nat) (candidate : Node) :
    verifyPath (totalHash h) params path left height r candidate =
      .ok (HashTree.climb (innerValue h params) ((List.range' height left).map path) r
        candidate) := by
  induction left generalizing height r candidate with
  | zero => rfl
  | succ left ih =>
    rw [List.range'_succ, List.map_cons, HashTree.climb]
    unfold verifyPath
    simp only [createMerkleInternalValue, totalHash]
    rw [ih]
    congr 2
    by_cases hodd : r % 2 = 1
    · simp only [hodd, if_true]
      rfl
    · simp only [hodd, if_false]
      rfl

/-! ## The signature -/

theorem lmotsSigLen_eq : lmotsSigLen lmotsSha256N32W8 = 1124 := by
  decide

theorem lmsSigLen_eq : lmsSigLen lmsSha256M32H10 lmotsSha256N32W8 = 1452 := by
  decide

def signatureBytes (q : Nat) (c : Node) (chains path : List Node) : ByteString :=
  toBE 4 q ++ (toBE 4 lmotsSha256N32W8 ++ (c.toList ++ (chains.flatMap Block.toList ++
    (toBE 4 lmsSha256M32H10 ++ path.flatMap Block.toList))))

theorem length_signatureBytes {q : Nat} {c : Node} {chains path : List Node}
    (hchains : chains.length = 34) (hpath : path.length = 10) :
    (signatureBytes q c chains path).length = 1452 := by
  unfold signatureBytes
  simp only [List.length_append, length_toBE, Block.length_toList, Block.length_flatMap_toList,
    hchains, hpath]

theorem slice_ots {q : Nat} {c : Node} {chains path : List Node} (hchains : chains.length = 34) :
    slice (signatureBytes q c chains path) 4 1124 =
      toBE 4 lmotsSha256N32W8 ++ (c.toList ++ chains.flatMap Block.toList) := by
  unfold signatureBytes
  rw [slice_tail (by simp), length_toBE, ← List.append_assoc c.toList, ← List.append_assoc]
  apply slice_head
  simp only [List.length_append, length_toBE, Block.length_toList, Block.length_flatMap_toList,
    hchains]

theorem lmotsSign_total {env : Env} (hhash : env.hash = totalHash h) {c : Node}
    (hc : env.randomizer = .ok c) {q : Nat} {msg b₁ b₂ b₃ rest : ByteString}
    (h₁ : b₁.length = 4) (h₂ : b₂.length = 32) (h₃ : b₃.length = 1088) {sigSize : Nat}
    (hsize : 1124 ≤ sigSize) :
    lmotsSign env (otsPrivate h iKeyIdentifier seed q) msg (b₁ ++ (b₂ ++ (b₃ ++ rest))) sigSize =
      ⟨.ok (), (otsPrivate h iKeyIdentifier seed q).erase,
        toBE 4 lmotsSha256N32W8 ++ (c.toList ++
          ((signatureChains h (otsParams iKeyIdentifier q)
            (otsPrivate h iKeyIdentifier seed q).privateKey msg c).flatMap Block.toList ++
              rest))⟩ := by
  have hlen : lmotsSigLen (otsPrivate h iKeyIdentifier seed q).params.type = 1124 := lmotsSigLen_eq
  have hsome := digitsOf_not_zero (digestOf h (otsParams iKeyIdentifier q) msg c)
  have hparams : (otsPrivate h iKeyIdentifier seed q).params = otsParams iKeyIdentifier q := rfl
  unfold lmotsSign
  rw [if_neg (by rw [hlen]; omega), if_neg (by simp [otsPrivate]), hc, hhash, hparams]
  simp only
  rw [createDigitArrayWithChecksum_total]
  simp only
  rw [hashDigitArray_total hsome]
  have hchains : ((signatureChains h (otsParams iKeyIdentifier q)
      (otsPrivate h iKeyIdentifier seed q).privateKey msg c).flatMap Block.toList).length =
        1088 := by
    rw [Block.length_flatMap_toList, signatureChains, length_chainEnds]
  have hsig : storeAt (storeAt (storeAt (b₁ ++ (b₂ ++ (b₃ ++ rest))) 0 (toBE 4 lmotsSha256N32W8)) 4
      c.toList) 36 ((signatureChains h (otsParams iKeyIdentifier q)
        (otsPrivate h iKeyIdentifier seed q).privateKey msg c).flatMap Block.toList) =
      toBE 4 lmotsSha256N32W8 ++ (c.toList ++ ((signatureChains h (otsParams iKeyIdentifier q)
        (otsPrivate h iKeyIdentifier seed q).privateKey msg c).flatMap Block.toList ++ rest)) := by
    rw [← List.nil_append (b₁ ++ _), storeAt_middle List.length_nil (by rw [h₁, length_toBE]),
      List.nil_append,
      storeAt_middle (length_toBE _ _) (by rw [h₂, Block.length_toList]), ← List.append_assoc,
      storeAt_middle (by rw [List.length_append, length_toBE, Block.length_toList])
        (h₃.trans hchains.symm), List.append_assoc]
  exact congrArg (LmotsSigned.mk _ _) hsig

theorem candidate_total {q : Nat} {msg : ByteString} {c : Node} :
    lmotsCalculatePublicKeyCandidate (totalHash h) (otsParams iKeyIdentifier q) msg
        (toBE 4 lmotsSha256N32W8 ++ (c.toList ++
          (signatureChains h (otsParams iKeyIdentifier q)
            (otsPrivate h iKeyIdentifier seed q).privateKey msg c).flatMap Block.toList)) =
      .ok (otsPublic h iKeyIdentifier seed q).publicKey := by
  generalize hchains : signatureChains h (otsParams iKeyIdentifier q)
    (otsPrivate h iKeyIdentifier seed q).privateKey msg c = chains
  have hlen : chains.length = 34 := by
    rw [← hchains, signatureChains, length_chainEnds]
  have hsize : lmotsSigLen (otsParams iKeyIdentifier q).type = 1124 := lmotsSigLen_eq
  have hrandom : Block.ofList (slice (toBE 4 lmotsSha256N32W8 ++ (c.toList ++
      chains.flatMap Block.toList)) 4 32) = c := by
    rw [slice_tail (by simp), length_toBE, slice_head (by simp), Block.ofList_toList]
  have hdigit : ∀ i < 34, (Block.ofList (slice (toBE 4 lmotsSha256N32W8 ++ (c.toList ++
      chains.flatMap Block.toList)) (36 + i * 32) 32) : Node) =
        HashTree.chain (chainStep h (otsParams iKeyIdentifier q) i)
          (digitOf (digitsOf (digestOf h (otsParams iKeyIdentifier q) msg c)) i) 0
          ((otsPrivate h iKeyIdentifier seed q).privateKey i) := by
    intro i hi
    have hi' : i < chains.length := by
      rw [hlen]
      exact hi
    have hslice : slice (toBE 4 lmotsSha256N32W8 ++ (c.toList ++
        chains.flatMap Block.toList)) (36 + i * 32) 32 = (chains[i]).toList := by
      rw [slice_tail (by rw [length_toBE]; omega), slice_tail (by
        rw [length_toBE, Block.length_toList]; omega), length_toBE, Block.length_toList,
        show 36 + i * 32 - 4 - 32 = 32 * i by omega]
      exact Block.slice_flatMap_toList _
    rw [hslice, Block.ofList_toList]
    subst hchains
    exact getElem_chainEnds hi'
  unfold lmotsCalculatePublicKeyCandidate
  rw [if_neg (by rw [hsize]; simp [hlen]), hrandom, createDigitArrayWithChecksum_total]
  simp only
  rw [hashDigitArray_total (digitsOf_not_max _)]
  rw [chainEnds_meet (digitOf_le _) hdigit]
  rfl

def rootOf (h : ByteString → Node) (iKeyIdentifier : Block 16) (seed : ByteString) : Node :=
  nodeValue h ⟨iKeyIdentifier, lmotsSha256N32W8, lmsSha256M32H10⟩
    (otsPublics h iKeyIdentifier seed) 10 1

/-- The path of leaf `q`. -/
def pathOf (h : ByteString → Node) (iKeyIdentifier : Block 16) (seed : ByteString) (q : Nat) :
    List Node :=
  HashTree.path
    (leafValue h ⟨iKeyIdentifier, lmotsSha256N32W8, lmsSha256M32H10⟩
      (otsPublics h iKeyIdentifier seed))
    (innerValue h ⟨iKeyIdentifier, lmotsSha256N32W8, lmsSha256M32H10⟩) 10 0 (1024 + q)

theorem exists_append {n : Nat} {data : ByteString} (hn : n ≤ data.length) :
    ∃ x y : ByteString, x.length = n ∧ data = x ++ y :=
  ⟨data.take n, data.drop n, List.length_take_of_le hn, (List.take_append_drop n data).symm⟩

variable {ctx : LmsPrivate} {env : Env}

theorem getMerklePath_total
    (hparams : ctx.params = ⟨iKeyIdentifier, lmotsSha256N32W8, lmsSha256M32H10⟩)
    (hpublic : ctx.otsPublicKeys = otsPublics h iKeyIdentifier seed)
    (hhash : env.hash = totalHash h) (halloc : env.alloc = true) {q : Nat} (hq : q < 1024) :
    getMerklePath env ctx (1024 + q) = .ok (pathOf h iKeyIdentifier seed q) := by
  unfold getMerklePath
  rw [if_neg (by rw [halloc]; simp), hhash]
  obtain ⟨tree, hcalc, htree⟩ := @calculateMerkleTree_total h ctx.params ctx.otsPublicKeys
  rw [hcalc]
  simp only
  rw [merklePath_eq htree 10 0 (1024 + q) rfl (by omega) (by omega), hparams, hpublic]
  rfl

theorem lmsSignPath_total
    (hparams : ctx.params = ⟨iKeyIdentifier, lmotsSha256N32W8, lmsSha256M32H10⟩)
    (hpublic : ctx.otsPublicKeys = otsPublics h iKeyIdentifier seed)
    (hhash : env.hash = totalHash h) (halloc : env.alloc = true) {q : Nat} (hq : q < 1024)
    {b₀ ots b₄ b₅ rest : ByteString} (h₀ : b₀.length = 4) (hots : ots.length = 1124)
    (h₄ : b₄.length = 4) (h₅ : b₅.length = 320) :
    lmsSignPath env ctx q (b₀ ++ (ots ++ (b₄ ++ (b₅ ++ rest)))) =
      ⟨.ok (), ctx, toBE 4 q ++ (ots ++ (toBE 4 lmsSha256M32H10 ++
        ((pathOf h iKeyIdentifier seed q).flatMap Block.toList ++ rest))), some q⟩ := by
  have hpath : ((pathOf h iKeyIdentifier seed q).flatMap Block.toList).length = 320 := by
    rw [Block.length_flatMap_toList, pathOf, HashTree.length_path]
  have htype : ctx.params.type = lmsSha256M32H10 := by rw [hparams]
  have hstoreType : storeAt (b₀ ++ (ots ++ (b₄ ++ (b₅ ++ rest)))) 1128 (toBE 4 lmsSha256M32H10) =
      b₀ ++ (ots ++ (toBE 4 lmsSha256M32H10 ++ (b₅ ++ rest))) := by
    rw [← List.append_assoc, storeAt_middle (by rw [List.length_append, h₀, hots])
      (by rw [h₄, length_toBE]), List.append_assoc]
  have hstoreLeaf : storeAt (b₀ ++ (ots ++ (toBE 4 lmsSha256M32H10 ++ (b₅ ++ rest)))) 0
      (toBE 4 q) = toBE 4 q ++ (ots ++ (toBE 4 lmsSha256M32H10 ++ (b₅ ++ rest))) := by
    rw [← List.nil_append (b₀ ++ _), storeAt_middle List.length_nil (by rw [h₀, length_toBE]),
      List.nil_append]
  have hstorePath : storeAt (toBE 4 q ++ (ots ++ (toBE 4 lmsSha256M32H10 ++ (b₅ ++ rest)))) 1132
      ((pathOf h iKeyIdentifier seed q).flatMap Block.toList) =
        toBE 4 q ++ (ots ++ (toBE 4 lmsSha256M32H10 ++
          ((pathOf h iKeyIdentifier seed q).flatMap Block.toList ++ rest))) := by
    rw [← List.append_assoc ots, ← List.append_assoc (toBE 4 q), storeAt_middle
      (by rw [List.length_append, List.length_append, length_toBE, hots, length_toBE])
      (h₅.trans hpath.symm), List.append_assoc, List.append_assoc]
  unfold lmsSignPath
  simp only [htype, hstoreType, hstoreLeaf, getMerklePath_total hparams hpublic hhash halloc hq,
    hstorePath]

theorem lmsSign_total (hkey : KeyOf h iKeyIdentifier seed ctx) (hhash : env.hash = totalHash h)
    (halloc : env.alloc = true) {c : Node} (hc : env.randomizer = .ok c)
    (hq : ctx.qNextUsableKey < 1024) {msg sig : ByteString} (hsize : 1452 ≤ sig.length) :
    (lmsSign env ctx msg sig).ret = .ok () ∧
      (lmsSign env ctx msg sig).leaf = some ctx.qNextUsableKey ∧
      (lmsSign env ctx msg sig).sig.take 1452 =
        signatureBytes ctx.qNextUsableKey c
          (signatureChains h (otsParams iKeyIdentifier ctx.qNextUsableKey)
            (otsPrivate h iKeyIdentifier seed ctx.qNextUsableKey).privateKey msg c)
          (pathOf h iKeyIdentifier seed ctx.qNextUsableKey) := by
  have hlen : lmsSigLen ctx.params.type ctx.params.otstype = 1452 := by
    rw [hkey.params]
    exact lmsSigLen_eq
  -- the parts of the buffer
  obtain ⟨b₀, r₀, h₀, rfl⟩ := @exists_append 4 sig (by omega)
  rw [List.length_append] at hsize
  obtain ⟨b₁, r₁, h₁, rfl⟩ := @exists_append 4 r₀ (by omega)
  rw [List.length_append] at hsize
  obtain ⟨b₂, r₂, h₂, rfl⟩ := @exists_append 32 r₁ (by omega)
  rw [List.length_append] at hsize
  obtain ⟨b₃, r₃, h₃, rfl⟩ := @exists_append 1088 r₂ (by omega)
  rw [List.length_append] at hsize
  obtain ⟨b₄, r₄, h₄, rfl⟩ := @exists_append 4 r₃ (by omega)
  rw [List.length_append] at hsize
  obtain ⟨b₅, rest, h₅, rfl⟩ := @exists_append 320 r₄ (by omega)
  have hpriv := hkey.privateKeys _ hq (Nat.le_refl _)
  have hots := @lmotsSign_total h iKeyIdentifier seed env hhash c hc ctx.qNextUsableKey msg b₁ b₂
    b₃ (b₄ ++ (b₅ ++ rest)) h₁ h₂ h₃ (lmsSigLen ctx.params.type ctx.params.otstype - 4)
    (by rw [hlen]; omega)
  have hlength : (signatureChains h (otsParams iKeyIdentifier ctx.qNextUsableKey)
      (otsPrivate h iKeyIdentifier seed ctx.qNextUsableKey).privateKey msg c).length = 34 := by
    rw [signatureChains, length_chainEnds]
  generalize signatureChains h (otsParams iKeyIdentifier ctx.qNextUsableKey)
    (otsPrivate h iKeyIdentifier seed ctx.qNextUsableKey).privateKey msg c = chains
    at hots hlength ⊢
  have hsigned : lmsSign env ctx msg (b₀ ++ (b₁ ++ (b₂ ++ (b₃ ++ (b₄ ++ (b₅ ++ rest)))))) =
      ⟨.ok (), ctx.used (otsPrivate h iKeyIdentifier seed ctx.qNextUsableKey).erase,
        signatureBytes ctx.qNextUsableKey c chains
          (pathOf h iKeyIdentifier seed ctx.qNextUsableKey) ++ rest,
        some ctx.qNextUsableKey⟩ := by
    unfold lmsSign
    rw [if_neg (by rw [hkey.havePrivateKey]; simp),
      if_neg (by rw [hlen]; simp only [List.length_append]; omega),
      if_neg (not_not.mpr hkey.valid.type), if_neg (not_not.mpr hkey.valid.otstype),
      if_neg (by omega)]
    simp only
    rw [hpriv, List.drop_left' h₀, List.take_left' h₀, hots]
    have hpath := @lmsSignPath_total h iKeyIdentifier seed
      (ctx.used (otsPrivate h iKeyIdentifier seed ctx.qNextUsableKey).erase) env hkey.params
      hkey.publicKeys hhash halloc ctx.qNextUsableKey hq b₀
      (toBE 4 lmotsSha256N32W8 ++ (c.toList ++ chains.flatMap Block.toList)) b₄ b₅ rest h₀
      (by simp only [List.length_append, length_toBE, Block.length_toList,
        Block.length_flatMap_toList, hlength]) h₄ h₅
    simp only [signatureBytes, List.append_assoc]
    exact hpath
  rw [hsigned]
  exact ⟨rfl, rfl, List.take_left' (length_signatureBytes hlength (HashTree.length_path _ _ _))⟩

/-! ## Verification -/

def publicOf (h : ByteString → Node) (iKeyIdentifier : Block 16) (seed : ByteString) : LmsPublic :=
  { params := ⟨iKeyIdentifier, lmotsSha256N32W8, lmsSha256M32H10⟩
    root := rootOf h iKeyIdentifier seed
    havePublicKey := true }

theorem lmsCalculatePublicKey_total (hkey : KeyOf h iKeyIdentifier seed ctx)
    (hhash : env.hash = totalHash h) (halloc : env.alloc = true) :
    lmsCalculatePublicKey env ctx = .ok (publicOf h iKeyIdentifier seed) := by
  obtain ⟨tree, hcalc, htree⟩ := @calculateMerkleTree_total h ctx.params ctx.otsPublicKeys
  unfold lmsCalculatePublicKey
  rw [if_neg (by rw [hkey.havePrivateKey]; simp), if_neg (not_not.mpr hkey.valid.type),
    if_neg (not_not.mpr hkey.valid.otstype), if_neg (by rw [halloc]; simp), hhash, hcalc]
  simp only
  rw [htree 1 (by omega) (by omega), hkey.params, hkey.publicKeys]
  rfl

def publicKeyBytes (pub : LmsPublic) : ByteString :=
  toBE 4 pub.params.type ++ (toBE 4 pub.params.otstype ++
    (pub.params.iKeyIdentifier.toList ++ pub.root.toList))

theorem length_publicKeyBytes (pub : LmsPublic) : (publicKeyBytes pub).length = 56 := by
  unfold publicKeyBytes
  simp only [List.length_append, length_toBE, Block.length_toList]

theorem ofBE_toBE_four {v : Nat} (hv : v < 2 ^ 32) : ofBE (toBE 4 v) = v := by
  rw [ofBE_toBE]
  exact Nat.mod_eq_of_lt hv

theorem lmsExportPublicKey_total {keySize : Nat} (hsize : 56 ≤ keySize) :
    lmsExportPublicKey (publicOf h iKeyIdentifier seed) keySize =
      .ok (publicKeyBytes (publicOf h iKeyIdentifier seed)) := by
  have hlen : lmsPublicKeyLen (publicOf h iKeyIdentifier seed).params.type = 56 := rfl
  unfold lmsExportPublicKey
  rw [if_neg (by rw [hlen]; omega), if_neg (by simp [publicOf]), publicKeyBytes]
  simp only [List.append_assoc]

theorem lmsImportPublicKey_publicKeyBytes :
    lmsImportPublicKey (publicKeyBytes (publicOf h iKeyIdentifier seed)) =
      .ok (publicOf h iKeyIdentifier seed) := by
  generalize hpub : publicOf h iKeyIdentifier seed = pub
  have htype : pub.params.type = lmsSha256M32H10 := by rw [← hpub]; rfl
  have hotstype : pub.params.otstype = lmotsSha256N32W8 := by rw [← hpub]; rfl
  have hhave : pub.havePublicKey = true := by rw [← hpub]; rfl
  have htypeBytes : ofBE (slice (publicKeyBytes pub) 0 4) = lmsSha256M32H10 := by
    unfold publicKeyBytes
    rw [slice_head (length_toBE _ _), htype]
    exact ofBE_toBE_four (by decide)
  have hotstypeBytes : ofBE (slice (publicKeyBytes pub) 4 4) = lmotsSha256N32W8 := by
    unfold publicKeyBytes
    rw [slice_tail (by simp), length_toBE, slice_head (length_toBE _ _), hotstype]
    exact ofBE_toBE_four (by decide)
  have hident : Block.ofList (slice (publicKeyBytes pub) 8 16) = pub.params.iKeyIdentifier := by
    unfold publicKeyBytes
    rw [slice_tail (by simp), slice_tail (by simp), length_toBE, length_toBE,
      slice_head (Block.length_toList _), Block.ofList_toList]
  have hroot : Block.ofList (slice (publicKeyBytes pub) 24 32) = pub.root := by
    unfold publicKeyBytes
    rw [slice_tail (by simp), slice_tail (by simp), slice_tail (by simp), length_toBE,
      length_toBE, Block.length_toList, ← List.append_nil pub.root.toList,
      slice_head (Block.length_toList _), Block.ofList_toList]
  have hlen : lmsPublicKeyLen lmsSha256M32H10 = 56 := rfl
  unfold lmsImportPublicKey
  rw [if_neg (by rw [length_publicKeyBytes]; omega)]
  simp only [htypeBytes, hotstypeBytes, hident, hroot]
  rw [if_neg (not_not.mpr rfl), if_neg (by rw [length_publicKeyBytes, hlen]; simp),
    if_neg (not_not.mpr rfl)]
  obtain ⟨⟨ident, otstype, type⟩, root, have'⟩ := pub
  simp only at htype hotstype hhave
  rw [htype, hotstype, hhave]

theorem climb_pathOf {q : Nat} (hq : q < 1024) :
    HashTree.climb (innerValue h ⟨iKeyIdentifier, lmotsSha256N32W8, lmsSha256M32H10⟩)
        (pathOf h iKeyIdentifier seed q) (1024 + q)
        (leafValue h ⟨iKeyIdentifier, lmotsSha256N32W8, lmsSha256M32H10⟩
          (otsPublics h iKeyIdentifier seed) (1024 + q)) =
      rootOf h iKeyIdentifier seed := by
  have hroot : (1024 + q) / 2 ^ 10 = 1 := by
    rw [Nat.div_eq_iff (by omega)]
    omega
  have hclimb := @HashTree.climb_path _
    (leafValue h ⟨iKeyIdentifier, lmotsSha256N32W8, lmsSha256M32H10⟩
      (otsPublics h iKeyIdentifier seed))
    (innerValue h ⟨iKeyIdentifier, lmotsSha256N32W8, lmsSha256M32H10⟩) 10 0 (1024 + q)
  rw [hroot] at hclimb
  exact hclimb

section Signature

variable {q : Nat} {c : Node} {chains path : List Node}

theorem slice_leaf (hq : q < 1024) : ofBE (slice (signatureBytes q c chains path) 0 4) = q := by
  unfold signatureBytes
  rw [slice_head (length_toBE _ _)]
  exact ofBE_toBE_four (by omega)

theorem slice_otstype :
    ofBE (slice (signatureBytes q c chains path) 4 4) = lmotsSha256N32W8 := by
  unfold signatureBytes
  rw [slice_tail (by simp), length_toBE, slice_head (length_toBE _ _)]
  exact ofBE_toBE_four (by decide)

theorem slice_after (hchains : chains.length = 34) {off len : Nat} (hoff : 1128 ≤ off) :
    slice (signatureBytes q c chains path) off len =
      slice (toBE 4 lmsSha256M32H10 ++ path.flatMap Block.toList) (off - 1128) len := by
  have hlen : (chains.flatMap Block.toList).length = 1088 := by
    rw [Block.length_flatMap_toList, hchains]
  unfold signatureBytes
  rw [slice_tail (by rw [length_toBE]; omega), slice_tail (by simp only [length_toBE]; omega),
    slice_tail (by simp only [length_toBE, Block.length_toList]; omega),
    slice_tail (by simp only [length_toBE, Block.length_toList, hlen]; omega)]
  simp only [length_toBE, Block.length_toList, hlen]
  rw [show off - 4 - 4 - 32 - 1088 = off - 1128 by omega]

theorem slice_type (hchains : chains.length = 34) :
    ofBE (slice (signatureBytes q c chains path) 1128 4) = lmsSha256M32H10 := by
  rw [slice_after hchains (Nat.le_refl _), Nat.sub_self, slice_head (length_toBE _ _)]
  exact ofBE_toBE_four (by decide)

theorem slice_path (hchains : chains.length = 34) (hpath : path.length = 10) :
    (List.range' 0 10).map (fun height =>
      (Block.ofList (slice (signatureBytes q c chains path) (1132 + height * 32) 32) : Node)) =
        path := by
  apply List.ext_getElem
  · rw [List.length_map, List.length_range', hpath]
  intro i hi hi'
  rw [List.getElem_map, List.getElem_range', slice_after hchains (by omega),
    slice_tail (by rw [length_toBE]; omega), length_toBE,
    show 1132 + (0 + 1 * i) * 32 - 1128 - 4 = 32 * i by omega,
    Block.slice_flatMap_toList hi', Block.ofList_toList]

end Signature

theorem lmsVerify_signatureBytes {q : Nat} (hq : q < 1024) (msg : ByteString) (c : Node) :
    lmsVerify (totalHash h) (publicOf h iKeyIdentifier seed) msg
        (signatureBytes q c
          (signatureChains h (otsParams iKeyIdentifier q)
            (otsPrivate h iKeyIdentifier seed q).privateKey msg c)
          (pathOf h iKeyIdentifier seed q)) = .ok () := by
  have hcandidate := @candidate_total h iKeyIdentifier seed q msg c
  have hchains : (signatureChains h (otsParams iKeyIdentifier q)
      (otsPrivate h iKeyIdentifier seed q).privateKey msg c).length = 34 := by
    rw [signatureChains, length_chainEnds]
  have hpath : (pathOf h iKeyIdentifier seed q).length = 10 := HashTree.length_path _ _ _
  generalize signatureChains h (otsParams iKeyIdentifier q)
    (otsPrivate h iKeyIdentifier seed q).privateKey msg c = chains at hcandidate hchains ⊢
  have hleaf : leafValue h ⟨iKeyIdentifier, lmotsSha256N32W8, lmsSha256M32H10⟩
      (otsPublics h iKeyIdentifier seed) (1024 + q) =
        h (iKeyIdentifier.toList ++ toBE 4 (1024 + q) ++ [0x82, 0x82] ++
          (otsPublic h iKeyIdentifier seed q).publicKey.toList) := by
    unfold leafValue otsPublics
    rw [Nat.add_sub_cancel_left, if_pos hq]
  have hclimb := @climb_pathOf h iKeyIdentifier seed q hq
  have hsigLen : lmsSigLen (publicOf h iKeyIdentifier seed).params.type
      (publicOf h iKeyIdentifier seed).params.otstype = 1452 := lmsSigLen_eq
  have hotsLen : lmotsSigLen (publicOf h iKeyIdentifier seed).params.otstype = 1124 :=
    lmotsSigLen_eq
  have hparams : (⟨(publicOf h iKeyIdentifier seed).params.iKeyIdentifier,
      Block.ofList (toBE 4 q), (publicOf h iKeyIdentifier seed).params.otstype⟩ :
        LmotsParameters) = otsParams iKeyIdentifier q := rfl
  have htype : (publicOf h iKeyIdentifier seed).params.type = lmsSha256M32H10 := rfl
  have hotstype : (publicOf h iKeyIdentifier seed).params.otstype = lmotsSha256N32W8 := rfl
  unfold lmsVerify
  rw [if_neg (by simp [publicOf]), if_neg (not_not.mpr htype), if_neg (not_not.mpr hotstype),
    if_neg (by rw [hsigLen, length_signatureBytes hchains hpath]; simp),
    if_neg (not_not.mpr slice_otstype), if_neg (not_not.mpr (slice_type hchains))]
  simp only [slice_leaf hq]
  rw [if_neg (by omega), hotsLen, slice_ots hchains, hparams, hcandidate]
  simp only [createMerkleLeafValue, totalHash]
  have hvalue : h ((publicOf h iKeyIdentifier seed).params.iKeyIdentifier.toList ++
      toBE 4 (1024 + q) ++ [0x82, 0x82] ++ (otsPublic h iKeyIdentifier seed q).publicKey.toList) =
        leafValue h ⟨iKeyIdentifier, lmotsSha256N32W8, lmsSha256M32H10⟩
          (otsPublics h iKeyIdentifier seed) (1024 + q) := hleaf.symm
  have hverify := @verifyPath_total h (publicOf h iKeyIdentifier seed).params
    (fun height => Block.ofList (slice (signatureBytes q c chains
      (pathOf h iKeyIdentifier seed q)) (1132 + height * 32) 32)) 10 0 (1024 + q)
    (leafValue h ⟨iKeyIdentifier, lmotsSha256N32W8, lmsSha256M32H10⟩
      (otsPublics h iKeyIdentifier seed) (1024 + q))
  rw [slice_path hchains hpath] at hverify
  have hroot : HashTree.climb (innerValue h (publicOf h iKeyIdentifier seed).params)
      (pathOf h iKeyIdentifier seed q) (1024 + q)
      (leafValue h ⟨iKeyIdentifier, lmotsSha256N32W8, lmsSha256M32H10⟩
        (otsPublics h iKeyIdentifier seed) (1024 + q)) = rootOf h iKeyIdentifier seed := hclimb
  rw [hroot] at hverify
  rw [hvalue, hverify]
  exact if_neg (not_not.mpr rfl)

/-! ## The result -/

def totalEnv (h : ByteString → Node) (iKeyIdentifier : Block 16) (c : Node) : Env :=
  { hash := totalHash h, randomizer := .ok c, identifier := .ok iKeyIdentifier, alloc := true }

theorem lmsSign_next (hkey : KeyOf h iKeyIdentifier seed ctx) (c : Node)
    (hq : ctx.qNextUsableKey < 1024) {msg sig : ByteString} (hsize : 1452 ≤ sig.length) :
    (lmsSign (totalEnv h iKeyIdentifier c) ctx msg sig).ctx.qNextUsableKey =
      ctx.qNextUsableKey + 1 := by
  have htotal := @lmsSign_total h iKeyIdentifier seed ctx (totalEnv h iKeyIdentifier c) hkey rfl rfl
    c rfl hq msg sig hsize
  rcases lmsSign_cases (totalEnv h iKeyIdentifier c) ctx msg sig with
    ⟨e, heq⟩ | ⟨_, _, _, ⟨⟨e, hret⟩, _, _⟩ | hctx⟩
  · rw [heq] at htotal
    cases htotal.1
  · rw [hret] at htotal
    cases htotal.1
  · rw [hctx]
    rfl

theorem exists_run_leaf {key : LmsPrivate} (hkey : KeyOf h iKeyIdentifier seed key)
    (hfirst : key.qNextUsableKey = 0) (q : Nat) (hq : q ≤ 1024) :
    ∃ tr ctx, Machine.Run signMachine key tr ctx ∧ ctx.qNextUsableKey = q := by
  induction q with
  | zero => exact ⟨[], key, .nil, hfirst⟩
  | succ q ih =>
    obtain ⟨tr, ctx, hrun, hnext⟩ := ih (by omega)
    let call : SignCall :=
      { env := totalEnv h iKeyIdentifier Block.zero, msg := [], sig := List.replicate 1452 0 }
    refine ⟨_, _, hrun.snoc (a := call) rfl, ?_⟩
    rw [← hnext]
    exact lmsSign_next (hkey.run hrun) Block.zero (by omega) (by rw [List.length_replicate])

theorem hashDigitArray_meet {params : LmotsParameters} {d : Nat → Nat} (hd : ∀ i, d i ≤ 255)
    (hsome : ∃ i < 34, 0 < d i) (hless : ∃ i < 34, d i < 255) :
    ∃ ys, hashDigitArray (totalHash h) params x (fun _ => 0) d = .ok ys ∧
      hashDigitArray (totalHash h) params (digitArray ys) d (fun _ => 255) =
        hashDigitArray (totalHash h) params x (fun _ => 0) (fun _ => 255) := by
  refine ⟨_, hashDigitArray_total hsome, ?_⟩
  rw [hashDigitArray_total hless, hashDigitArray_total ⟨0, by omega, by omega⟩]
  apply congrArg Except.ok
  apply chainEnds_meet hd
  intro i hi
  unfold digitArray
  rw [List.getD_eq_getElem _ _ (by rw [length_chainEnds]; exact hi)]
  exact getElem_chainEnds hi

/-- Key generation succeeds; the public key survives export and import; every leaf comes up, and the
next signature verifies after any calls. `hash_digit_array` always calculates a hash. -/
theorem lms_sign_verify (h : ByteString → Node) (iKeyIdentifier : Block 16) (seed : ByteString) :
    (∀ c, ∃ key pub,
      lmsGeneratePrivateKey (totalEnv h iKeyIdentifier c) lmsSha256M32H10 lmotsSha256N32W8 seed =
          .ok key ∧
        (∀ q < 2 ^ 10, ∃ tr ctx, Machine.Run signMachine key tr ctx ∧ ctx.qNextUsableKey = q) ∧
        ∀ tr ctx, Machine.Run signMachine key tr ctx →
          (∀ c', lmsCalculatePublicKey (totalEnv h iKeyIdentifier c') ctx = .ok pub) ∧
          (∀ keySize, 56 ≤ keySize → ∃ bytes, lmsExportPublicKey pub keySize = .ok bytes ∧
            bytes.length = 56 ∧ lmsImportPublicKey bytes = .ok pub) ∧
          ∀ c' msg sig, ctx.qNextUsableKey < 2 ^ 10 → 1452 ≤ sig.length →
            let signed := lmsSign (totalEnv h iKeyIdentifier c') ctx msg sig
            signed.ret = .ok () ∧ signed.leaf = some ctx.qNextUsableKey ∧
              lmsVerify (totalHash h) pub msg (signed.sig.take 1452) = .ok ()) ∧
      ∀ params msg c, ∃ digits,
        createDigitArrayWithChecksum (totalHash h) params msg c = .ok digits ∧
          (∃ i < 34, 0 < digitOf digits i) ∧ (∃ i < 34, digitOf digits i < 255) ∧
          ∀ x, ∃ ys,
            hashDigitArray (totalHash h) params x (fun _ => 0) (digitOf digits) = .ok ys ∧
              hashDigitArray (totalHash h) params (digitArray ys) (digitOf digits)
                  (fun _ => 255) =
                hashDigitArray (totalHash h) params x (fun _ => 0) (fun _ => 255) := by
  constructor
  · intro c
    obtain ⟨key, hgen, hkey, hfirst⟩ := @lmsGeneratePrivateKey_total h iKeyIdentifier seed
      (totalEnv h iKeyIdentifier c) rfl rfl rfl
    refine ⟨key, publicOf h iKeyIdentifier seed, hgen, ?_, ?_⟩
    · intro q hq
      exact exists_run_leaf hkey hfirst q (Nat.le_of_lt hq)
    intro tr ctx hrun
    have hctx := hkey.run hrun
    refine ⟨?_, ?_, ?_⟩
    · intro c'
      exact lmsCalculatePublicKey_total hctx rfl rfl
    · intro keySize hsize
      exact ⟨_, lmsExportPublicKey_total hsize, length_publicKeyBytes _,
        lmsImportPublicKey_publicKeyBytes⟩
    intro c' msg sig hq hsize
    obtain ⟨hret, hleaf, hsig⟩ := @lmsSign_total h iKeyIdentifier seed ctx
      (totalEnv h iKeyIdentifier c') hctx rfl rfl c' rfl hq msg sig hsize
    refine ⟨hret, hleaf, ?_⟩
    rw [hsig]
    exact lmsVerify_signatureBytes hq msg c'
  · intro params msg c
    have hsome := digitsOf_not_zero (digestOf h params msg c)
    have hless := digitsOf_not_max (digestOf h params msg c)
    have hdigits := @createDigitArrayWithChecksum_total h params msg c
    generalize digitsOf (digestOf h params msg c) = digits at hsome hless hdigits
    refine ⟨digits, hdigits, hsome, hless, ?_⟩
    intro x
    exact hashDigitArray_meet (digitOf_le digits) hsome hless

/-- With a hash function that always gives zeros, leaf 1000 signs. -/
theorem lms_sign_verify_witness :
    ∃ key pub tr ctx signed,
      lmsGeneratePrivateKey (totalEnv (fun _ => Block.zero) Block.zero Block.zero) lmsSha256M32H10
          lmotsSha256N32W8 [] = .ok key ∧
        Machine.Run signMachine key tr ctx ∧ ctx.qNextUsableKey = 1000 ∧
        lmsSign (totalEnv (fun _ => Block.zero) Block.zero Block.zero) ctx [1, 2, 3]
          (List.replicate 1452 0) = signed ∧
        lmsVerify (totalHash fun _ => Block.zero) pub [1, 2, 3] (signed.sig.take 1452) =
          .ok () := by
  obtain ⟨key, pub, hgen, hleaves, hall⟩ :=
    (lms_sign_verify (fun _ => Block.zero) Block.zero []).1 Block.zero
  obtain ⟨tr, ctx, hrun, hq⟩ := hleaves 1000 (by omega)
  have hsign := (hall tr ctx hrun).2.2 Block.zero [1, 2, 3] (List.replicate 1452 0) (by omega)
    (by rw [List.length_replicate])
  exact ⟨key, pub, tr, ctx, _, hgen, hrun, hq, rfl, hsign.2.2⟩

end Lms

end TfPsaCrypto
