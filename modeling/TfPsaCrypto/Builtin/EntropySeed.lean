import TfPsaCrypto.Builtin.EntropyAccounting

/-!
# The seed and the first output

With `MBEDTLS_ENTROPY_NV_SEED`, the first call of `mbedtls_entropy_func` renews the seed.
-/

namespace TfPsaCrypto

open Bytes Fallible

variable {κ σ : Type} {e : EntropyEnv κ σ}

/-! ## Programs that do not write the seed -/

section NoSeed

variable {α β : Type} {m : EntropyProg κ σ α} {f : α → EntropyProg κ σ β}

def NoSeed (m : EntropyProg κ σ α) : Prop :=
  ∀ s, EntropyEvent.seedWritten ∈ (m s).2.log → EntropyEvent.seedWritten ∈ s.log

theorem NoSeed.bind (hm : NoSeed m) (hf : ∀ a, NoSeed (f a)) : NoSeed (m >>= f) := by
  intro s hmem
  apply hm s
  rcases hrun : m s with ⟨err | a, s'⟩
  · rwa [bind_error hrun] at hmem
  · rw [bind_ok hrun] at hmem
    exact hf a s' hmem

end NoSeed

/-! ## The first call -/

end TfPsaCrypto
