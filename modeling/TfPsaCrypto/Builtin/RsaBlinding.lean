import TfPsaCrypto.Builtin.RsaPrivateCorrect
import TfPsaCrypto.Library.Machine

/-!
# The blinding values over the calls of a context

The calls of `mbedtls_rsa_private` on one context, each with the operation that fails in it, if any.
-/

namespace TfPsaCrypto.RsaPrivate

open Bytes Fallible

/-! ## Calls -/

variable {key : RsaKey}

def rsaMachine (key : RsaKey) (build : Build) :
    Machine.StepFn Blinding (RsaCall key) (Except RsaFailure ByteString) :=
  fun s c => some ((mbedtlsRsaPrivate c build s).2, (mbedtlsRsaPrivate c build s).1)

/-- A call of which `breaksPair` knows nothing bad, or one that ends before the blinding. -/
def HarmlessCall (build : Build) (s : Blinding) (c : RsaCall key) : Prop :=
  ofBE (c.input.take key.len) < key.N → Harmless build c s

instance (build : Build) (s : Blinding) (c : RsaCall key) : Decidable (HarmlessCall build s c) :=
  inferInstanceAs (Decidable (_ → _))

theorem mbedtlsRsaPrivate_fits {c : RsaCall key} {build : Build} {s s' : Blinding}
    {out : ByteString} (h : mbedtlsRsaPrivate c build s = (.ok out, s')) :
    expModFits key.E key.N = true := by
  unfold mbedtlsRsaPrivate at h
  split at h
  · cases h
  obtain ⟨_, _, -, h⟩ := bind_eq_ok h
  simp only at h
  split at h
  · cases h
  obtain ⟨_, _, -, h⟩ := bind_eq_ok h
  obtain ⟨_, _, -, h⟩ := bind_eq_ok h
  obtain ⟨_, _, -, h⟩ := bind_eq_ok h
  obtain ⟨_, _, -, h⟩ := bind_eq_ok h
  obtain ⟨_, _, -, h⟩ := bind_eq_ok h
  obtain ⟨_, _, -, h⟩ := bind_eq_ok h
  obtain ⟨_, _, hcheck, -⟩ := bind_eq_ok h
  unfold mbedtlsMpiExpMod at hcheck
  split at hcheck
  · cases hcheck
  · next hfits => exact Bool.eq_true_of_not_eq_false hfits

/-! ## Runs -/

def Paired (key : RsaKey) (s : Blinding) : Prop := expModFits key.E key.N = true → Consistent key s

theorem mbedtlsRsaPrivate_step (hkey : key.Valid) {build : Build} {c : RsaCall key}
    {s s' : Blinding} {o : Except RsaFailure ByteString} (hs : Paired key s)
    (hharmless : HarmlessCall build s c) (h : mbedtlsRsaPrivate c build s = (o, s')) :
    Paired key s' ∧ ∀ out, o = .ok out →
      out = toBE key.len (ofBE (c.input.take key.len) ^ key.D % key.N) := by
  by_cases hfits : expModFits key.E key.N = true
  · obtain ⟨hok, herror⟩ := mbedtlsRsaPrivate_triple hkey build (hs hfits) s rfl
    rcases o with e | out
    · obtain ⟨-, hconsistent⟩ := herror e s' h
      exact ⟨fun _ => hconsistent hharmless hfits, nofun⟩
    · obtain ⟨hconsistent, -, -, -, hout⟩ := hok out s' h
      refine ⟨fun _ => hconsistent, ?_⟩
      rintro _ ⟨⟩
      exact hout
  · refine ⟨fun htrue => absurd htrue hfits, ?_⟩
    rintro out rfl
    exact absurd (mbedtlsRsaPrivate_fits h) hfits

/-- In every run whose calls are harmless, what a call returns is the private power, and a call
that updates the blinding values by squaring finds a pair. -/
theorem rsa_blinding_survives (hkey : key.Valid) (build : Build)
    {tr : List (RsaCall key × Except RsaFailure ByteString)} {s : Blinding}
    (hrun : Machine.Run (Machine.restrict (rsaMachine key build) (HarmlessCall build)) .init tr s) :
    (∀ c out, (c, .ok out) ∈ tr →
      out = toBE key.len (ofBE (c.input.take key.len) ^ key.D % key.N)) ∧
    (expModFits key.E key.N = true → Consistent key s) := by
  have hinit : Paired key .init := fun _ => .inl rfl
  induction hrun with
  | nil => exact ⟨nofun, hinit⟩
  | @snoc tr s s' c o _ hstep ih =>
    obtain ⟨hout, hs⟩ := ih
    obtain ⟨hharmless, hstep⟩ := Machine.restrict_eq_some.mp hstep
    have hcall : mbedtlsRsaPrivate c build s = (o, s') := by
      cases hstep
      rfl
    obtain ⟨hs', hlast⟩ := mbedtlsRsaPrivate_step hkey hs hharmless hcall
    refine ⟨?_, hs'⟩
    intro c' out hmem
    rcases List.mem_append.mp hmem with hmem | hmem
    · exact hout c' out hmem
    · cases List.mem_singleton.mp hmem
      exact hlast out rfl

/-- A call that fails after the blinding, and the call that squares. -/
theorem rsa_blinding_survives_check :
    [18] = toBE smallKey.len (ofBE ([2].take smallKey.len) ^ smallKey.D % smallKey.N) := by
  have hnil : Machine.Run (Machine.restrict (rsaMachine smallKey .crt) (HarmlessCall .crt)) .init []
    .init := .nil
  have hfirst := hnil.snoc (a := smallCall (some .expCheck)) (if_pos (by decide +kernel))
  have hrun := hfirst.snoc (a := smallCall none) (if_pos (by decide +kernel))
  refine (rsa_blinding_survives smallKey_valid .crt hrun).1 (smallCall none) [18] ?_
  rw [List.mem_append, List.mem_singleton]
  right
  apply congrArg (Prod.mk _)
  decide +kernel

/-- The first call stops while it recombines `Vf`, or in the generator. The second call takes what
it finds in `Vf` and `Vi` for a blinding pair. -/
theorem rsa_blinding_broken :
    smallKey.Valid ∧
    (∃ s, Machine.Run (rsaMachine smallKey .crt) .init
      [(smallCall (some (.crtVf .mulQP)), .error (.operation (.crtVf .mulQP))),
        (smallCall none, .ok [0])] s) ∧
    (∃ s, Machine.Run (rsaMachine smallKey .noCrt) .init
      [(smallCall (some .drawA), .error (.operation .drawA)), (smallCall none, .ok [0])] s) ∧
    toBE smallKey.len (2 ^ smallKey.D % smallKey.N) = [18] := by
  have hcrt : Machine.Run (rsaMachine smallKey .crt) .init [] _ := .nil
  have hnoCrt : Machine.Run (rsaMachine smallKey .noCrt) .init [] _ := .nil
  have hcrt₂ := (hcrt.snoc (a := smallCall (some (.crtVf .mulQP))) rfl).snoc
    (a := smallCall none) rfl
  have hnoCrt₂ := (hnoCrt.snoc (a := smallCall (some .drawA)) rfl).snoc (a := smallCall none) rfl
  have hfails : (mbedtlsRsaPrivate (smallCall (some (.crtVf .mulQP))) .crt .init).1 =
      .error (.operation (.crtVf .mulQP)) := by decide +kernel
  have hzero : (mbedtlsRsaPrivate (smallCall none) .crt
      (mbedtlsRsaPrivate (smallCall (some (.crtVf .mulQP))) .crt .init).2).1 = .ok [0] := by
    decide +kernel
  have hfails' : (mbedtlsRsaPrivate (smallCall (some .drawA)) .noCrt .init).1 =
      .error (.operation .drawA) := by decide +kernel
  have hzero' : (mbedtlsRsaPrivate (smallCall none) .noCrt
      (mbedtlsRsaPrivate (smallCall (some .drawA)) .noCrt .init).2).1 = .ok [0] := by
    decide +kernel
  rw [hfails, hzero] at hcrt₂
  rw [hfails', hzero'] at hnoCrt₂
  exact ⟨smallKey_valid, ⟨_, hcrt₂⟩, ⟨_, hnoCrt₂⟩, by decide⟩

end TfPsaCrypto.RsaPrivate
