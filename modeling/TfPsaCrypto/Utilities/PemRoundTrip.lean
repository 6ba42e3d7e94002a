import TfPsaCrypto.Utilities.Pem

/-!
# Reading back what was written as PEM

The length that the writer computes is the length that it uses, and the reader finds the body
between the two lines again.
-/

namespace TfPsaCrypto

open Bytes

variable {fuel : Nat} {text : ByteString} {c : UInt8}

namespace Pem

open Base64 (newline carriageReturn space equalSign mbedtlsBase64Encode mbedtlsBase64Decode
  encodeGroups encodedLength length_encodeGroups IsDigit Padded Layout Layout.character
  Layout.lineEnd encodeGroups_padded)

/-! ## Lines -/

def wrap : (fuel : Nat) → ByteString → ByteString
  | 0, _ => []
  | fuel + 1, text =>
    if text.length = 0 then []
    else text.take 64 ++ newline :: wrap fuel (text.drop 64)

def lineCount (n : Nat) : Nat := (n + 63) / 64

theorem length_wrap (h : text.length ≤ fuel) :
    (wrap fuel text).length = text.length + lineCount text.length := by
  induction fuel generalizing text with
  | zero =>
    obtain rfl := List.eq_nil_of_length_eq_zero (Nat.le_zero.mp h)
    rfl
  | succ fuel ih =>
    unfold wrap
    split
    · next hzero =>
      rw [hzero]
      rfl
    next hne =>
    have hdrop : (text.drop 64).length ≤ fuel := by
      rw [List.length_drop]
      omega
    have hrest := ih hdrop
    rw [List.length_append, List.length_cons, hrest, List.length_take, List.length_drop]
    unfold lineCount
    omega

theorem mem_wrap (h : c ∈ wrap fuel text) : c ∈ text ∨ c = newline := by
  induction fuel generalizing text with
  | zero => simp [wrap] at h
  | succ fuel ih =>
    unfold wrap at h
    split at h
    · simp at h
    rcases List.mem_append.mp h with hline | hrest
    · exact .inl (List.mem_of_mem_take hline)
    · rcases List.mem_cons.mp hrest with rfl | hrest
      · exact .inr rfl
      · exact (ih hrest).imp_left List.mem_of_mem_drop

theorem layout_wrap (h : text.length ≤ fuel)
    (hspace : ∀ c ∈ text, c ≠ space ∧ c ≠ newline ∧ c ≠ carriageReturn) :
    Layout (wrap fuel text) text := by
  have hline : ∀ line src rest : ByteString,
      (∀ c ∈ line, c ≠ space ∧ c ≠ newline ∧ c ≠ carriageReturn) → Layout src rest →
      Layout (line ++ newline :: src) (line ++ rest) := by
    intro line src rest hall hlayout
    induction line with
    | nil => exact .lineEnd 0 (.inl rfl) hlayout
    | cons c line ih =>
      obtain ⟨⟨hs, hn, hr⟩, hrest⟩ := List.forall_mem_cons.mp hall
      exact .character hs hn hr (ih hrest)
  induction fuel generalizing text with
  | zero =>
    obtain rfl := List.eq_nil_of_length_eq_zero (Nat.le_zero.mp h)
    exact .trailing 0
  | succ fuel ih =>
    unfold wrap
    split
    · next hzero =>
      obtain rfl := List.eq_nil_of_length_eq_zero hzero
      exact .trailing 0
    have hdrop : (text.drop 64).length ≤ fuel := by
      rw [List.length_drop]
      omega
    have hrest := ih hdrop fun c hc => hspace c (List.mem_of_mem_drop hc)
    conv_rhs => rw [← List.take_append_drop 64 text]
    exact hline _ _ _ (fun c hc => hspace c (List.mem_of_mem_take hc)) hrest

/-! ## Stores through the cursor -/

theorem Cursor.put_spec (written data rest : ByteString) (h : data.length ≤ rest.length) :
    (⟨written ++ rest, written.length⟩ : Cursor).put data =
      some ⟨(written ++ data) ++ rest.drop data.length, (written ++ data).length⟩ := by
  have hfits : written.length + data.length ≤ (written ++ rest).length := by
    rw [List.length_append]
    omega
  unfold Cursor.put
  rw [if_pos hfits, List.length_append]
  have hsplit : rest = rest.take data.length ++ rest.drop data.length :=
    (List.take_append_drop _ _).symm
  congr 2
  conv_lhs => rw [hsplit]
  rw [storeAt_middle rfl (by rw [List.length_take]; omega), List.append_assoc]

theorem putLines_spec (htext : text.length ≤ fuel) (written rest : ByteString)
    (h : (wrap fuel text).length ≤ rest.length) :
    putLines fuel text ⟨written ++ rest, written.length⟩ =
      some ⟨(written ++ wrap fuel text) ++ rest.drop (wrap fuel text).length,
        (written ++ wrap fuel text).length⟩ := by
  induction fuel generalizing text written rest with
  | zero => simp [putLines, wrap]
  | succ fuel ih =>
    unfold putLines
    unfold wrap at h ⊢
    by_cases hzero : text.length = 0
    · rw [if_pos hzero]
      simp [hzero]
    rw [if_neg hzero] at h ⊢
    rw [if_neg hzero]
    have hlen : (if text.length > 64 then 64 else text.length) = min 64 text.length := by
      split <;> omega
    have htake : text.take (min 64 text.length) = text.take 64 := by
      rcases Nat.le_total 64 text.length with hle | hle
      · rw [Nat.min_eq_left hle]
      · rw [Nat.min_eq_right hle, List.take_length, List.take_of_length_le hle]
    have hdrop : text.drop (min 64 text.length) = text.drop 64 := by
      rcases Nat.le_total 64 text.length with hle | hle
      · rw [Nat.min_eq_left hle]
      · rw [Nat.min_eq_right hle, List.drop_length, List.drop_of_length_le hle]
    have hdropLen : (text.drop 64).length ≤ fuel := by
      rw [List.length_drop]
      omega
    rw [List.length_append, List.length_cons] at h
    dsimp only
    rw [hlen, htake, hdrop, Cursor.put_spec _ _ _ (by omega)]
    dsimp only
    have hone : ([newline] : ByteString).length = 1 := rfl
    rw [Cursor.put_spec _ _ _ (by rw [hone, List.length_drop]; omega)]
    dsimp only
    rw [ih hdropLen _ _ (by rw [hone, List.length_drop, List.length_drop]; omega)]
    congr 2
    · simp only [List.append_assoc, List.singleton_append, List.drop_drop, List.length_append,
        List.length_cons, hone]
      congr 4
      omega
    · simp [List.append_assoc]

def pemText (header footer text : ByteString) : ByteString :=
  header ++ wrap text.length text ++ footer

theorem putPem_spec (header footer text buf : ByteString)
    (h : (pemText header footer text).length + 1 ≤ buf.length) :
    putPem header footer text ⟨buf, 0⟩ =
      some ⟨pemText header footer text ++ [0] ++
          buf.drop ((pemText header footer text).length + 1),
        (pemText header footer text).length + 1⟩ := by
  have hlen : (pemText header footer text).length =
      header.length + (wrap text.length text).length + footer.length := by
    unfold pemText
    rw [List.length_append, List.length_append]
  have hone : ([0] : ByteString).length = 1 := rfl
  unfold putPem
  have hheader := Cursor.put_spec [] header buf (by omega)
  rw [List.nil_append, List.length_nil] at hheader
  rw [hheader]
  dsimp only
  rw [putLines_spec (Nat.le_refl _) _ _ (by rw [List.length_drop]; omega)]
  dsimp only
  rw [Cursor.put_spec _ _ _ (by rw [List.length_drop, List.length_drop]; omega)]
  dsimp only
  rw [Cursor.put_spec _ _ _ (by
    rw [hone, List.length_drop, List.length_drop, List.length_drop]
    omega)]
  have hwhole : ([] ++ header ++ wrap text.length text ++ footer ++ [0]).length =
      (pemText header footer text).length + 1 := by
    simp only [List.length_append, List.length_nil, hone, hlen]
    omega
  congr 2
  have hdrop : (((buf.drop header.length).drop (wrap text.length text).length).drop
      footer.length).drop ([0] : ByteString).length =
        buf.drop ((pemText header footer text).length + 1) := by
    simp only [List.drop_drop, hlen, hone, Nat.add_assoc]
  rw [hdrop]
  rfl

/-! ## The writer -/

section Writer

variable {sizeMax : Nat} {calloc : Nat → Bool} {header footer der buf : ByteString}

/-- The length of the PEM text of `n` bytes, with its NUL. -/
def pemLength (header footer : ByteString) (n : Nat) : Nat :=
  header.length + footer.length + encodedLength n + lineCount (encodedLength n) + 1

theorem length_pemText (header footer der : ByteString) :
    (pemText header footer (encodeGroups der)).length + 1 = pemLength header footer der.length := by
  unfold pemText pemLength
  rw [List.length_append, List.length_append, length_wrap (Nat.le_refl _), length_encodeGroups]
  omega

theorem mbedtlsBase64Encode_eq (sizeMax : Nat) (null : Bool) (dlen : Nat) (hder : der ≠ []) :
    mbedtlsBase64Encode sizeMax null dlen der =
      if encodedLength der.length + 1 > sizeMax then ⟨.bufferTooSmall, some sizeMax, []⟩
      else if dlen < encodedLength der.length + 1 ∨ null then
        ⟨.bufferTooSmall, some (encodedLength der.length + 1), []⟩
      else ⟨.ok, some (encodedLength der.length), encodeGroups der ++ [0]⟩ := by
  have hn : der.length / 3 + (if der.length % 3 ≠ 0 then 1 else 0) = (der.length + 2) / 3 := by
    split <;> omega
  have hpos : der.length ≠ 0 := fun hzero => hder (List.eq_nil_of_length_eq_zero hzero)
  have hlen : (der.length + 2) / 3 * 4 = encodedLength der.length := Nat.mul_comm _ _
  have hguard : (der.length + 2) / 3 > (sizeMax - 1) / 4 ↔
      encodedLength der.length + 1 > sizeMax := by
    rw [← hlen]
    omega
  unfold mbedtlsBase64Encode
  rw [if_neg hpos]
  dsimp only
  rw [hn, hlen, length_encodeGroups]
  simp only [hguard]

theorem mbedtlsPemWriteBuffer_eq (hder : der ≠ []) (hfit : encodedLength der.length + 1 ≤ sizeMax) :
    mbedtlsPemWriteBuffer sizeMax calloc header footer der buf =
      let required := pemLength header footer der.length % (sizeMax + 1)
      if required > buf.length then ⟨.bufferTooSmall, some required, buf⟩
      else if ¬ calloc (encodedLength der.length + 1) then ⟨.allocFailed, none, buf⟩
      else
        match putPem header footer (encodeGroups der) ⟨buf, 0⟩ with
        | none => ⟨.overrun, none, buf⟩
        | some c => ⟨.ok, some c.p, storeAt c.buf c.p (List.replicate (c.buf.length - c.p) 0)⟩ := by
  have hpos : 0 < der.length := List.length_pos_iff.mpr hder
  have hadd : encodedLength der.length + 1 + (header.length + footer.length +
      (if encodedLength der.length + 1 > 2 then encodedLength der.length + 1 - 2 else 0) / 64 +
        1) = pemLength header footer der.length := by
    unfold pemLength lineCount encodedLength
    rw [if_pos (by omega)]
    omega
  have hmeasured : mbedtlsBase64Encode sizeMax true 0 der =
      ⟨.bufferTooSmall, some (encodedLength der.length + 1), []⟩ := by
    rw [mbedtlsBase64Encode_eq sizeMax true 0 hder, if_neg (by omega), if_pos (.inr rfl)]
  have hencoded : mbedtlsBase64Encode sizeMax false (encodedLength der.length + 1) der =
      ⟨.ok, some (encodedLength der.length), encodeGroups der ++ [0]⟩ := by
    rw [mbedtlsBase64Encode_eq sizeMax false _ hder, if_neg (by omega), if_neg (by simp)]
  have hnull : (decide (encodedLength der.length + 1 = 0)) = false := by simp
  unfold mbedtlsPemWriteBuffer
  simp only [hmeasured, Option.getD_some, hadd, hnull, hencoded]
  rw [← length_encodeGroups, List.take_left]
  simp only [ne_eq, Nat.add_one_ne_zero, not_false_eq_true, true_and, not_true_eq_false,
    if_false, Bool.not_eq_true] <;> rfl

theorem pemLength_le_of_calloc (hder : der ≠ [])
    (hcalloc : ∀ n, calloc n = true → n + der.length + header.length + footer.length ≤ sizeMax)
    (h : calloc (encodedLength der.length + 1) = true) :
    pemLength header footer der.length ≤ sizeMax := by
  have hmem := hcalloc _ h
  have hlines : lineCount (encodedLength der.length) ≤ der.length := by
    unfold lineCount encodedLength
    omega
  unfold pemLength
  omega

structure WriterSpec (sizeMax : Nat) (calloc : Nat → Bool) (header footer der buf : ByteString)
    (w : Written) : Prop where
  in_buffer : w.ret ≠ .overrun ∧ w.buf.length = buf.length
  too_small : w.ret = .bufferTooSmall → pemLength header footer der.length ≤ sizeMax →
    w.olen = some (pemLength header footer der.length) ∧
      buf.length < pemLength header footer der.length
  written : w.ret = .ok → w.olen = some (pemLength header footer der.length) ∧
    pemLength header footer der.length ≤ buf.length ∧
    w.buf = pemText header footer (encodeGroups der) ++
      0 :: List.replicate (buf.length - pemLength header footer der.length) 0
  large_enough : pemLength header footer der.length ≤ buf.length →
    calloc (encodedLength der.length + 1) = true → w.ret = .ok
  unchanged : w.ret ≠ .ok → w.buf = buf
  encoded : ∀ ret, w.ret ≠ .base64 ret

theorem storeAt_zeros {n : Nat} (htext : text.length + 1 = n) (hn : n ≤ buf.length) :
    storeAt (text ++ [0] ++ buf.drop n) n
        (List.replicate ((text ++ [0] ++ buf.drop n).length - n) 0) =
      text ++ 0 :: List.replicate (buf.length - n) 0 := by
  have hwhole : (text ++ [0] ++ buf.drop n).length = buf.length := by
    simp only [List.length_append, List.length_drop, List.length_cons, List.length_nil]
    omega
  have hmiddle := storeAt_middle (x := text ++ [0]) (y := buf.drop n) (z := [])
    (show (text ++ [0]).length = n by rw [List.length_append]; exact htext)
    (show (buf.drop n).length = (List.replicate (buf.length - n) 0).length by simp)
  rw [hwhole]
  simpa using hmiddle

theorem mbedtlsPemWriteBuffer_spec (hder : der ≠ []) (hsize : der.length ≤ sizeMax)
    (hbuf : buf.length ≤ sizeMax)
    (hcalloc : ∀ n, calloc n = true → n + der.length + header.length + footer.length ≤ sizeMax) :
    WriterSpec sizeMax calloc header footer der buf
      (mbedtlsPemWriteBuffer sizeMax calloc header footer der buf) := by
  have hpos : 0 < der.length := List.length_pos_iff.mpr hder
  have hlong : encodedLength der.length + 1 ≤ pemLength header footer der.length := by
    unfold pemLength
    omega
  by_cases hfit : encodedLength der.length + 1 ≤ sizeMax
  · rw [mbedtlsPemWriteBuffer_eq hder hfit]
    dsimp only
    split
    · next hgt =>
      refine ⟨⟨by simp, rfl⟩, fun _ hle => ?_, by simp, fun hle => ?_, fun _ => rfl, by simp⟩
      · rw [Nat.mod_eq_of_lt (by omega)] at hgt ⊢
        exact ⟨rfl, hgt⟩
      · rw [Nat.mod_eq_of_lt (by omega)] at hgt
        omega
    next hle =>
    split
    · next halloc =>
      exact ⟨⟨by simp, rfl⟩, by simp, by simp, fun _ h => absurd h halloc, fun _ => rfl, by simp⟩
    next halloc =>
    have hlength := pemLength_le_of_calloc hder hcalloc (not_not.mp halloc)
    rw [Nat.mod_eq_of_lt (by omega)] at hle
    have htext := length_pemText header footer der
    rw [putPem_spec _ _ _ _ (by omega), htext]
    dsimp only
    rw [storeAt_zeros htext (Nat.le_of_not_lt hle)]
    refine ⟨⟨by simp, ?_⟩, by simp, fun _ => ⟨rfl, Nat.le_of_not_lt hle, rfl⟩, fun _ _ => rfl,
      fun h => absurd rfl h, by simp⟩
    simp only [List.length_append, List.length_cons, List.length_replicate]
    omega
  · have hmeasured : mbedtlsBase64Encode sizeMax true 0 der =
        ⟨.bufferTooSmall, some sizeMax, []⟩ := by
      rw [mbedtlsBase64Encode_eq sizeMax true 0 hder, if_pos (by omega)]
    unfold mbedtlsPemWriteBuffer
    simp only [hmeasured, Option.getD_some]
    generalize (sizeMax + _) % (sizeMax + 1) = required
    split
    · exact ⟨⟨by simp, rfl⟩, fun _ h => by omega, by simp,
        fun h => absurd (h.trans hbuf) (by omega),
        fun _ => rfl, by simp⟩
    split
    · exact ⟨⟨by simp, rfl⟩, by simp, by simp, fun h => absurd (h.trans hbuf) (by omega),
        fun _ => rfl, by simp⟩
    next halloc =>
    -- a block of `SIZE_MAX` bytes leaves no room for the data
    rw [not_and, not_not] at halloc
    have hmem := hcalloc sizeMax (halloc (by omega))
    omega

end Writer

/-! ## The two lines -/

section Lines

variable {header footer body : ByteString}

def IsBodyChar (c : UInt8) : Prop := IsDigit c ∨ c = equalSign ∨ c = newline

def Collides (header footer : ByteString) : Prop :=
  ∃ body : ByteString, (∀ c ∈ body, IsBodyChar c) ∧
    ∃ p, p < header.length + body.length ∧ footer <+: (header ++ body ++ footer).drop p

theorem not_collides {rest : ByteString} (hc : ¬ IsBodyChar c) (hline : newline ∉ c :: rest)
    (hpart : ¬ (c :: rest) <:+: header) :
    ¬ Collides (header ++ [newline]) (c :: rest) := by
  rintro ⟨body, hbody, p, hp, hocc⟩
  rw [List.append_assoc, List.append_assoc] at hocc
  rw [List.length_append, List.length_singleton] at hp
  rcases Nat.lt_or_ge p header.length with hin | hout
  · rw [List.drop_append_of_le_length (Nat.le_of_lt hin)] at hocc
    rcases Nat.le_total (c :: rest).length (header.drop p).length with hle | hge
    · have hstart := List.prefix_of_prefix_length_le hocc (List.prefix_append _ _) hle
      exact hpart (hstart.isInfix.trans (List.drop_suffix p header).isInfix)
    rcases Nat.lt_or_eq_of_le hge with hlt | heq
    · -- the occurrence goes beyond the end of the line
      have hlonger : header.drop p ++ [newline] <+: c :: rest := by
        refine List.prefix_of_prefix_length_le ?_ hocc ?_
        · exact ⟨body ++ c :: rest, List.append_assoc _ _ _⟩
        · rw [List.length_append, List.length_singleton]
          omega
      exact hline (hlonger.subset (by simp))
    · have hstart := List.prefix_of_prefix_length_le hocc (List.prefix_append _ _)
        (Nat.le_of_eq heq.symm)
      exact hpart (hstart.isInfix.trans (List.drop_suffix p header).isInfix)
  · have hdrop : (header ++ ([newline] ++ (body ++ c :: rest))).drop p =
        (newline :: body).drop (p - header.length) ++ c :: rest := by
      have hle : p - header.length ≤ (newline :: body).length := by
        rw [List.length_cons]
        omega
      rw [List.drop_append, List.drop_eq_nil_of_le hout, List.nil_append, ← List.append_assoc]
      exact List.drop_append_of_le_length hle
    rw [hdrop] at hocc
    obtain ⟨b, tail, htail⟩ : ∃ b tail, (newline :: body).drop (p - header.length) = b :: tail := by
      cases h : (newline :: body).drop (p - header.length) with
      | nil =>
        have hlen := congrArg List.length h
        rw [List.length_drop, List.length_cons, List.length_nil] at hlen
        omega
      | cons b tail => exact ⟨b, tail, rfl⟩
    have hb : b ∈ newline :: body := List.mem_of_mem_drop (htail ▸ List.mem_cons_self)
    rw [htail, List.cons_append, List.cons_prefix_cons] at hocc
    rcases List.mem_cons.mp hb with hnew | hmem
    · exact hline (by rw [hocc.1, hnew]; exact List.mem_cons_self)
    · exact hc (hocc.1 ▸ hbody b hmem)

theorem strstr_eq {needle d : ByteString} {p : Nat} (hp : p ≤ d.length)
    (hocc : needle <+: d.drop p) (hfirst : ∀ q < p, ¬ needle <+: d.drop q) :
    strstr needle d = some p := by
  induction d generalizing p with
  | nil =>
    obtain rfl : p = 0 := Nat.le_zero.mp hp
    rw [List.drop_nil] at hocc
    unfold strstr
    rw [if_pos (List.isPrefixOf_iff_prefix.mpr hocc)]
  | cons c d ih =>
    unfold strstr
    cases p with
    | zero =>
      rw [List.drop_zero] at hocc
      rw [if_pos (List.isPrefixOf_iff_prefix.mpr hocc)]
    | succ p =>
      have hnot : ¬ needle.isPrefixOf (c :: d) = true := fun h =>
        hfirst 0 (Nat.succ_pos p) (List.isPrefixOf_iff_prefix.mp h)
      rw [if_neg hnot, ih (Nat.le_of_succ_le_succ hp) hocc
        fun q hq => hfirst (q + 1) (Nat.succ_lt_succ hq)]
      rfl

theorem cString_append {x : ByteString} (hx : ∀ b ∈ x, b ≠ 0) (y : ByteString) :
    cString (x ++ y) = x ++ cString y := by
  exact List.takeWhile_append_of_pos fun b hb => decide_eq_true (hx b hb)

theorem getD_append_length (x y : ByteString) : (x ++ y).getD x.length 0 = y.getD 0 0 := by
  rw [List.getD_eq_getElem?_getD, List.getElem?_append_right (Nat.le_refl _), Nat.sub_self,
    List.getD_eq_getElem?_getD]

theorem strstr_footer (hcollide : ¬ Collides header footer) (hbody : ∀ c ∈ body, IsBodyChar c)
    (tail : ByteString) :
    strstr footer (header ++ (body ++ (footer ++ tail))) = some (header.length + body.length) := by
  have hsplit : header ++ (body ++ (footer ++ tail)) = (header ++ body ++ footer) ++ tail := by
    simp only [List.append_assoc]
  have hlen : (header ++ body).length = header.length + body.length := List.length_append
  apply strstr_eq
  · simp only [List.length_append]
    omega
  · rw [← List.append_assoc, ← hlen, List.drop_left]
    exact List.prefix_append _ _
  intro q hq hocc
  refine hcollide ⟨body, hbody, q, hq, ?_⟩
  have hq' : q ≤ (header ++ body ++ footer).length := by
    rw [List.length_append, hlen]
    omega
  rw [hsplit, List.drop_append_of_le_length hq'] at hocc
  refine List.prefix_of_prefix_length_le hocc (List.prefix_append _ _) ?_
  rw [List.length_drop, List.length_append, hlen]
  omega

end Lines

/-! ## The reader -/

section Reader

variable {header footer body der : ByteString}

theorem isBodyChar_of_wrap (h : c ∈ wrap (encodeGroups der).length (encodeGroups der)) :
    IsBodyChar c := by
  obtain ⟨digits, pads, htext, hdigits, -⟩ := encodeGroups_padded der
  rcases mem_wrap h with htextMem | hnew
  · rw [htext] at htextMem
    rcases List.mem_append.mp htextMem with hdigit | hpad
    · exact .inl (hdigits c hdigit)
    · exact .inr (.inl (List.mem_replicate.mp hpad).2)
  · exact .inr (.inr hnew)

theorem IsBodyChar.ne_zero (h : IsBodyChar c) : c ≠ 0 := by
  rintro rfl
  revert h
  unfold IsBodyChar
  decide

theorem mbedtlsBase64Decode_wrap (der : ByteString) (null : Bool) (dlen : Nat) :
    mbedtlsBase64Decode null dlen (wrap (encodeGroups der).length (encodeGroups der)) =
      if (der.length ≠ 0 ∧ null) ∨ dlen < der.length then
        ⟨.bufferTooSmall, some der.length, []⟩
      else ⟨.ok, some der.length, der⟩ := by
  obtain ⟨digits, pads, htext, hdigits, hpads⟩ := encodeGroups_padded der
  have hcount := length_encodeGroups der
  rw [htext, Base64.length_padded] at hcount
  have hlayout :
      Layout (wrap (encodeGroups der).length (encodeGroups der)) (Padded digits pads) := by
    have hwrap := layout_wrap (Nat.le_refl (encodeGroups der).length)
      (by rw [htext]; exact Padded.no_space hdigits)
    rwa [← htext]
  have hback : Base64.decodeDigits 0 0 digits = der := by
    rw [← Base64.decodeDigits_padded hdigits pads, ← htext, Base64.decodeDigits_encodeGroups]
  have hsize : Base64.decodedLength digits.length = der.length := by
    have hlen := Base64.length_decodeDigits hdigits 0 0 (by omega)
    rw [hback, Nat.zero_add] at hlen
    exact hlen.symm
  rw [Base64.mbedtlsBase64Decode_text ⟨hlayout, hdigits, hpads⟩
    (by rw [hcount, encodedLength]; omega), hsize, hback]

theorem slice_body {n : Nat} (hn : n ≤ body.length) (x z : ByteString) :
    slice (x ++ (body ++ z)) x.length n = body.take n := by
  unfold slice
  rw [List.drop_left, List.take_append_of_le_length hn]

theorem startsAt_body (hbody : ∀ c ∈ body, IsBodyChar c) (x z : ByteString) {t : ByteString}
    (hc : c ∈ t) (hnot : ¬ IsBodyChar c) :
    startsAt (x ++ (body ++ z)) x.length (x.length + body.length) t = false := by
  unfold startsAt
  rw [Bool.and_eq_false_iff]
  by_cases hle : t.length ≤ body.length
  · refine .inr (decide_eq_false fun heq => hnot (hbody c ?_))
    rw [slice_body hle] at heq
    exact List.mem_of_mem_take (heq ▸ hc)
  · exact .inl (decide_eq_false (by omega))

theorem encryptionHeaders_body (hbody : ∀ c ∈ body, IsBodyChar c) (x z : ByteString) :
    encryptionHeaders (x ++ (body ++ z)) x.length (x.length + body.length) =
      .ok (x.length, none) := by
  have hdash : '-'.toUInt8 ∈ ascii "Proc-Type: 4,ENCRYPTED" := by decide
  have hnot : ¬ IsBodyChar '-'.toUInt8 := by
    unfold IsBodyChar
    decide
  unfold encryptionHeaders
  rw [startsAt_body hbody x z hdash hnot]
  rfl

def lineEnd (d : ByteString) : Nat := skip d (skip d (skip d 0 space) carriageReturn) newline

theorem skip_append (x y : ByteString) (k : Nat) (c : UInt8) :
    skip (x ++ y) (x.length + k) c = x.length + skip y k c := by
  have hget : (x ++ y).getD (x.length + k) 0 = y.getD k 0 := by
    rw [List.getD_eq_getElem?_getD, List.getElem?_append_right (Nat.le_add_right _ _),
      Nat.add_sub_cancel_left, List.getD_eq_getElem?_getD]
  unfold skip
  rw [hget]
  split <;> rfl

theorem skip_of_ne {d : ByteString} {s : Nat} (h : d.getD s 0 ≠ c) : skip d s c = s := if_neg h

theorem readBody_wrap (calloc : Nat → Bool)
    (pemAesDecrypt : ByteString → Nat → ByteString → ByteString → Except Int ByteString)
    (hder : der ≠ []) (x z : ByteString) (pwd : Option ByteString) :
    readBody calloc pemAesDecrypt
        (x ++ (wrap (encodeGroups der).length (encodeGroups der) ++ z)) x.length
        (x.length + (wrap (encodeGroups der).length (encodeGroups der)).length) none pwd =
      if calloc der.length then .ok der else .error .allocFailed := by
  have hpos : 0 < der.length := List.length_pos_iff.mpr hder
  have hbodyPos : 0 < (wrap (encodeGroups der).length (encodeGroups der)).length := by
    rw [length_wrap (Nat.le_refl _), length_encodeGroups, encodedLength]
    omega
  have hmeasured := mbedtlsBase64Decode_wrap der true 0
  have hdecoded := mbedtlsBase64Decode_wrap der false der.length
  rw [if_pos (.inl ⟨by omega, rfl⟩)] at hmeasured
  rw [if_neg (by simp)] at hdecoded
  generalize wrap (encodeGroups der).length (encodeGroups der) = body at *
  have hslice : slice (x ++ (body ++ z)) x.length (x.length + body.length - x.length) = body := by
    rw [Nat.add_sub_cancel_left, slice_body (Nat.le_refl _), List.take_length]
  unfold readBody
  simp only [hslice, hmeasured, Option.getD_some, hdecoded]
  rw [if_neg (by omega), if_neg (by simp), if_neg (by omega)]
  cases calloc der.length <;> simp

theorem mbedtlsPemReadBuffer_pemText (calloc : Nat → Bool)
    (pemAesDecrypt : ByteString → Nat → ByteString → ByteString → Except Int ByteString)
    {eol : ByteString} (hder : der ≠ []) (hheader : ∀ b ∈ header, b ≠ 0)
    (hfooter : ∀ b ∈ footer, b ≠ 0) (heol : eol = [] ∨ eol = [newline])
    (hcollide : ¬ Collides (header ++ [newline]) footer) (more : ByteString)
    (pwd : Option ByteString) :
    mbedtlsPemReadBuffer calloc pemAesDecrypt header footer
        (pemText (header ++ [newline]) (footer ++ eol) (encodeGroups der) ++ more) pwd =
      { ret := if calloc der.length then .ok der else .error .allocFailed
        useLen := some ((pemText (header ++ [newline]) footer (encodeGroups der)).length +
          lineEnd (eol ++ cString more)) } := by
  have hbody : ∀ c ∈ wrap (encodeGroups der).length (encodeGroups der), IsBodyChar c :=
    fun c hc => isBodyChar_of_wrap hc
  have hread := readBody_wrap calloc pemAesDecrypt hder (header ++ [newline])
    (footer ++ (eol ++ cString more)) pwd
  unfold pemText
  generalize wrap (encodeGroups der).length (encodeGroups der) = body at *
  have hstring : cString (header ++ [newline] ++ body ++ (footer ++ eol) ++ more) =
      (header ++ [newline]) ++ (body ++ (footer ++ (eol ++ cString more))) := by
    rw [cString_append]
    · simp only [List.append_assoc]
    intro b hb
    simp only [List.mem_append, List.mem_singleton] at hb
    rcases hb with ((hb | rfl) | hb) | (hb | hb)
    · exact hheader b hb
    · decide
    · exact (hbody b hb).ne_zero
    · exact hfooter b hb
    · rcases heol with rfl | rfl
      · simp at hb
      · rw [List.mem_singleton.mp hb]
        decide
  have hstart : strstr header ((header ++ [newline]) ++
      (body ++ (footer ++ (eol ++ cString more)))) = some 0 := by
    refine strstr_eq (Nat.zero_le _) ?_ (by simp)
    rw [List.drop_zero, List.append_assoc]
    exact List.prefix_append _ _
  have hplace := strstr_footer hcollide hbody (eol ++ cString more)
  have hnewline : ((header ++ [newline]) ++ (body ++ (footer ++ (eol ++ cString more)))).getD
      header.length 0 = newline := by
    rw [List.append_assoc, getD_append_length]
    rfl
  have hskip : ∀ c, newline ≠ c → skip ((header ++ [newline]) ++
      (body ++ (footer ++ (eol ++ cString more)))) header.length c = header.length :=
    fun c hc => skip_of_ne (by rw [hnewline]; exact hc)
  have hline : (header ++ [newline]).length = header.length + 1 := List.length_append
  have hrest : (header ++ [newline]) ++ (body ++ (footer ++ (eol ++ cString more))) =
      ((header ++ [newline]) ++ body ++ footer) ++ (eol ++ cString more) := by
    simp only [List.append_assoc]
  have hlength : (header ++ [newline] ++ body ++ footer).length =
      (header ++ [newline]).length + body.length + footer.length := by
    simp only [List.length_append]
  have hstop : ∀ c k, skip ((header ++ [newline]) ++ (body ++ (footer ++ (eol ++ cString more))))
      ((header ++ [newline]).length + body.length + footer.length + k) c =
        (header ++ [newline]).length + body.length + footer.length +
          skip (eol ++ cString more) k c := by
    intro c k
    have happend := skip_append ((header ++ [newline]) ++ body ++ footer) (eol ++ cString more) k c
    rwa [← hrest, hlength] at happend
  unfold mbedtlsPemReadBuffer
  simp only [hstring, hstart, hplace]
  rw [if_neg (by omega), Nat.zero_add, hskip _ (by decide), hskip _ (by decide),
    if_neg (not_not.mpr hnewline), ← hline, encryptionHeaders_body hbody]
  have hzero := hstop space 0
  rw [Nat.add_zero] at hzero
  rw [hlength]
  simp only [hread, hzero, hstop]
  rfl

theorem lineEnd_newline (d : ByteString) : lineEnd (newline :: d) = 1 := by
  have hspace : skip (newline :: d) 0 space = 0 := skip_of_ne (show newline ≠ space by decide)
  have hreturn : skip (newline :: d) 0 carriageReturn = 0 :=
    skip_of_ne (show newline ≠ carriageReturn by decide)
  unfold lineEnd
  rw [hspace, hreturn]
  exact if_pos rfl

/-- **PEM.** For every non-empty byte string and lines that do not collide: too small a buffer gets
the length needed, no call writes past its buffer, and the reader takes what was written back to the
byte string and stops at the end of the footer. -/
theorem mbedtlsPem_roundTrip (sizeMax : Nat) (calloc : Nat → Bool) {eol : ByteString}
    (hder : der ≠ []) (hsize : der.length ≤ sizeMax) (hheader : ∀ b ∈ header, b ≠ 0)
    (hfooter : ∀ b ∈ footer, b ≠ 0) (heol : eol = [] ∨ eol = [newline])
    (hcollide : ¬ Collides (header ++ [newline]) footer)
    (hcalloc : ∀ n, calloc n = true →
      n + der.length + (header ++ [newline]).length + (footer ++ eol).length ≤ sizeMax) :
    (∀ buf : ByteString, buf.length ≤ sizeMax →
      WriterSpec sizeMax calloc (header ++ [newline]) (footer ++ eol) der buf
        (mbedtlsPemWriteBuffer sizeMax calloc (header ++ [newline]) (footer ++ eol) der buf)) ∧
    (∀ small large : ByteString, small.length ≤ sizeMax → large.length ≤ sizeMax →
      (mbedtlsPemWriteBuffer sizeMax calloc (header ++ [newline]) (footer ++ eol) der small).ret =
        .bufferTooSmall →
      (mbedtlsPemWriteBuffer sizeMax calloc (header ++ [newline]) (footer ++ eol) der large).ret =
        .ok →
      (mbedtlsPemWriteBuffer sizeMax calloc (header ++ [newline]) (footer ++ eol) der small).olen =
        (mbedtlsPemWriteBuffer sizeMax calloc (header ++ [newline]) (footer ++ eol) der
          large).olen) ∧
    ∀ (readCalloc : Nat → Bool)
      (pemAesDecrypt : ByteString → Nat → ByteString → ByteString → Except Int ByteString)
      (more : ByteString), readCalloc der.length = true →
      mbedtlsPemReadBuffer readCalloc pemAesDecrypt header footer
          (pemText (header ++ [newline]) (footer ++ eol) (encodeGroups der) ++ more) none =
        { ret := .ok der
          useLen := some ((pemText (header ++ [newline]) footer (encodeGroups der)).length +
            lineEnd (eol ++ cString more)) } ∧
      (eol = [newline] → lineEnd (eol ++ cString more) = eol.length) := by
  refine ⟨fun buf hbuf => mbedtlsPemWriteBuffer_spec hder hsize hbuf hcalloc, ?_, ?_⟩
  · intro small large hsmall hlarge htoo hok
    have hw := mbedtlsPemWriteBuffer_spec hder hsize hlarge hcalloc
    obtain ⟨holen, hle, -⟩ := hw.written hok
    have hs := mbedtlsPemWriteBuffer_spec hder hsize hsmall hcalloc
    rw [(hs.too_small htoo (hle.trans hlarge)).1, holen]
  · intro readCalloc pemAesDecrypt more halloc
    refine ⟨?_, ?_⟩
    · rw [mbedtlsPemReadBuffer_pemText readCalloc pemAesDecrypt hder hheader hfooter heol hcollide
        more none, if_pos halloc]
    · rintro rfl
      exact lineEnd_newline _

/-- A memory of 2^32 bytes with the data, its lines and blocks of up to 4096 bytes. -/
theorem mbedtlsPem_roundTrip_publicKey :
    let header := ascii "-----BEGIN PUBLIC KEY-----"
    let footer := ascii "-----END PUBLIC KEY-----"
    let der : ByteString := [0x30, 0x03, 0x02, 0x01, 0x2a]
    (mbedtlsPemWriteBuffer (2 ^ 32 - 1) (· ≤ 4096) (header ++ [newline]) (footer ++ [newline]) der
        []).olen = some (pemLength (header ++ [newline]) (footer ++ [newline]) 5) ∧
      (mbedtlsPemReadBuffer (· ≤ 4096) (fun _ _ _ _ => .error 0) header footer
        (pemText (header ++ [newline]) (footer ++ [newline]) (encodeGroups der) ++ [0, 1, 2])
        none).ret = .ok der := by
  intro header footer der
  have hdash : ¬ IsBodyChar '-'.toUInt8 := by
    unfold IsBodyChar
    decide
  have hfooterEq : footer = '-'.toUInt8 :: (ascii "----END PUBLIC KEY-----") := rfl
  have hcollide : ¬ Collides (header ++ [newline]) footer := by
    rw [hfooterEq]
    exact not_collides hdash (by decide +kernel) (by decide +kernel)
  obtain ⟨hwrite, -, hread⟩ := mbedtlsPem_roundTrip (2 ^ 32 - 1)
    (fun n => decide (n ≤ 4096)) (show der ≠ [] by decide) (by decide)
    (show ∀ b ∈ header, b ≠ 0 by decide +kernel) (show ∀ b ∈ footer, b ≠ 0 by decide +kernel)
    (.inr (rfl : [newline] = [newline])) hcollide
    (by
      intro n hn
      have hle : n ≤ 4096 := of_decide_eq_true hn
      have hlen : (header ++ [newline]).length = 27 := by decide +kernel
      have hlen' : (footer ++ [newline]).length = 25 := by decide +kernel
      have hder : der.length = 5 := rfl
      omega)
  refine ⟨((hwrite [] (by decide)).too_small (by decide +kernel) (by decide +kernel)).1, ?_⟩
  rw [(hread (fun n => decide (n ≤ 4096)) (fun _ _ _ _ => .error 0) [0, 1, 2] (by decide)).1]

end Reader

end Pem

end TfPsaCrypto
