import TfPsaCrypto.Extras.PkParseBounds

/-!
# Complete private keys

The end of an `ECPrivateKey` is not compared with the cursor, so an accepted key need not be
complete. A key that is not at the end of the input is rejected but stays loaded.
-/

namespace TfPsaCrypto.Pk

open Bytes Der Ecp Fallible

variable {env : PkEnv} {s s' : PkState}

/-! ## Complete structures -/

/-- An optional field with the context-specific tag `n`: the bytes after it. -/
inductive OptionalField (n : UInt8) (Inside : ByteString → Prop) (p : ByteString) :
    ByteString → Prop
  | absent (h : p = [] ∨ asn1GetContents p (mbedtlsAsn1Context n) = .error .unexpectedTag) :
      OptionalField n Inside p p
  | present {contents rest : ByteString}
      (h : asn1GetContents p (mbedtlsAsn1Context n) = .ok (contents, rest))
      (hinside : Inside contents) : OptionalField n Inside p rest

variable {key : ByteString}

theorem OptionalField.unique {n : UInt8} {Inside Inside' : ByteString → Prop}
    {p rest rest' : ByteString} (h : OptionalField n Inside p rest)
    (h' : OptionalField n Inside' p rest') : rest = rest' := by
  rcases h with ⟨h | h⟩ | ⟨h, _⟩ <;> rcases h' with ⟨h' | h'⟩ | ⟨h', _⟩
  · rfl
  · rfl
  · rw [h] at h'
    cases h'
  · rfl
  · rfl
  · rw [h] at h'
    cases h'
  · rw [h'] at h
    cases h
  · rw [h'] at h
    cases h
  · rw [h'] at h
    cases h
    rfl

def NoNewKeys (s₀ s : PkState) : Prop :=
  ∀ id k, s.store.keys id = some k → s₀.store.keys id = some k

def Owned (s₀ s : PkState) : Prop :=
  s.ctx.pkInfo ≠ none ∧
    ∀ id k, s.store.keys id = some k → s₀.store.keys id = some k ∨ id = s.ctx.privId

theorem Owned.free {s₀ s : PkState} (h : Owned s₀ s) :
    (mbedtlsPkFree s).2.ctx = .init ∧ NoNewKeys s₀ (mbedtlsPkFree s).2 := by
  refine ⟨rfl, ?_⟩
  intro i k hk
  unfold mbedtlsPkFree at hk
  rw [update_apply, if_neg h.1] at hk
  unfold KeyStore.erase at hk
  dsimp only at hk
  split at hk
  · cases hk
  · next hne =>
    rcases h.2 i k hk with h | h
    · exact h
    · exact absurd h hne

variable {s₀ : PkState}

end TfPsaCrypto.Pk
