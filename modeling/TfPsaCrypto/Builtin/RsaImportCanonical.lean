import TfPsaCrypto.Builtin.RsaDeduce

/-!
# What the import of an RSA key stores

The INTEGERs of the input are stored in their shortest form, which need not be shorter.
-/

namespace TfPsaCrypto.RsaDer

open Bytes Der
open RsaPrivate (Build)

variable {w : Nat}

/-! ## The buffer -/

variable {bytes : ByteString}

theorem IsElement.eq_of_append {tag : UInt8}
    {contents contents' field field' tail tail' : ByteString}
    (h : IsElement tag contents field) (h' : IsElement tag contents' field')
    (heq : field ++ tail = field' ++ tail') : contents = contents' ∧ tail = tail' := by
  have htag := h.getTag tail
  rw [heq, h'.getTag tail'] at htag
  simp only [Except.ok.injEq, Prod.mk.injEq] at htag
  exact List.append_inj htag.2.symm htag.1.symm

theorem AreIntegers.unique {fields fields' : List ByteString} (h : AreIntegers fields bytes)
    (h' : AreIntegers fields' bytes) : fields = fields' := by
  have hnonempty : ∀ {contents field : ByteString}, IsElement mbedtlsAsn1Integer contents field →
      field ≠ [] := by
    rintro _ _ ⟨bs, _, rfl⟩
    exact List.cons_ne_nil _ _
  induction fields generalizing fields' bytes with
  | nil =>
    obtain rfl : bytes = [] := h
    cases fields' with
    | nil => rfl
    | cons c' rest' =>
      obtain ⟨field, tail, hfield, heq, _⟩ := h'
      exact absurd (List.append_eq_nil_iff.mp heq.symm).1 (hnonempty hfield)
  | cons c rest ih =>
    obtain ⟨field, tail, hfield, rfl, hrest⟩ := h
    cases fields' with
    | nil =>
      have hnil : field ++ tail = [] := h'
      exact absurd (List.append_eq_nil_iff.mp hnil).1 (hnonempty hfield)
    | cons c' rest' =>
      obtain ⟨field', tail', hfield', heq, hrest'⟩ := h'
      obtain ⟨rfl, rfl⟩ := hfield.eq_of_append hfield' heq
      rw [ih hrest hrest']

theorem IsSequence.unique {fields fields' : List ByteString} (h : IsSequence fields bytes)
    (h' : IsSequence fields' bytes) : fields = fields' := by
  obtain ⟨body, hbody, hfields⟩ := h
  obtain ⟨body', hbody', hfields'⟩ := h'
  obtain ⟨rfl, _⟩ := hbody.eq_of_append hbody' (rfl : bytes ++ [] = bytes ++ [])
  exact hfields.unique hfields'

/-! ## Public keys -/

variable {n e d p q dp dq qp : ByteString}

section KeyPair

variable {isBigEndian : Bool} {type : PsaKeyType} {build : Build}
  {rsa rsa' : MbedtlsRsaContext w}

theorem PrivateKeyFields.signed (h : PrivateKeyFields build rsa n e d p q dp dq qp) :
    Signed build rsa :=
  ⟨.inl h.N.s, .inl h.E.s, .inl h.D.s, .inl h.P.s, .inl h.Q.s,
    fun hbuild => ⟨.inl (h.crt hbuild).1.s, .inl (h.crt hbuild).2.1.s, .inl (h.crt hbuild).2.2.s⟩⟩

theorem ReadBack.signed {N E D P Q DP DQ QP : MbedtlsMpi w}
    (h : ReadBack build N E D P Q DP DQ QP rsa) : Signed build rsa :=
  ⟨.inl h.N.s, .inl h.E.s, .inl h.D.s, .inl h.P.s, .inl h.Q.s,
    fun hbuild => ⟨.inl (h.crt hbuild).1.s, .inl (h.crt hbuild).2.1.s, .inl (h.crt hbuild).2.2.s⟩⟩

end KeyPair

/-! ## Inputs with sign bits -/

/-! ## Every input -/

section Inputs

variable {isBigEndian : Bool} {type : PsaKeyType} {data : ByteString}
  {rsa : MbedtlsRsaContext w}

end Inputs

end TfPsaCrypto.RsaDer
