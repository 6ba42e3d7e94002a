import Mathlib.Data.Nat.Size
import Mathlib.Tactic.NormNum.Prime
import TfPsaCrypto.Builtin.RsaPrivate

/-!
# The private operation computes the private power

What each part of `mbedtls_rsa_private` computes and leaves in the blinding values, whichever
operation fails.
-/

namespace TfPsaCrypto.RsaPrivate

open Bytes Fallible

/-! ## Valid keys -/

variable {vf : Nat}

structure RsaKey.Valid (key : RsaKey) : Prop where
  exponents : Rsa.Key key.P key.Q key.N key.E key.D
  dp : key.DP = key.D % (key.P - 1)
  dq : key.DQ = key.D % (key.Q - 1)
  qp : key.Q * key.QP ≡ 1 [MOD key.P]
  limbs : key.N < (2 ^ biL) ^ key.limbs

def Consistent (key : RsaKey) (s : Blinding) : Prop :=
  s.vf = none ∨ ∃ vf vi : Nat, s.vf = some (vf : Int) ∧ s.vi = vi ∧ vi * vf ^ key.E ≡ 1 [MOD key.N]

structure Ready (key : RsaKey) (s : Blinding) (vf vi : Nat) : Prop where
  vf_eq : s.vf = some (vf : Int)
  vi_eq : s.vi = vi
  vf_lt : vf < key.N
  pair : vi * vf ^ key.E ≡ 1 [MOD key.N]

theorem Ready.consistent {key : RsaKey} {s : Blinding} {vi : Nat} (h : Ready key s vf vi) :
    Consistent key s := .inr ⟨vf, vi, h.vf_eq, h.vi_eq, h.pair⟩

/-! ## Operations -/

variable {point : RsaPoint} {s₀ : Blinding}

section Operations

variable {key : RsaKey} {c : RsaCall key} {α : Type} {P : Blinding → Prop}
  {Q : α → Blinding → Prop} {E : RsaFailure → Blinding → Prop}

theorem operation_bind {m : RsaProg α}
    (hfault : c.fault = some point → ∀ s, P s → E (.operation point) s)
    (hm : c.fault ≠ some point → Triple P m Q E) :
    Triple P (operation c point >>= fun _ => m) Q E := by
  unfold operation
  split
  · next hpoint =>
    exact (Triple.fail (Q := fun _ _ => False) (hfault hpoint)).bind fun _ _ hfalse => hfalse.elim
  · next hpoint =>
    exact (Triple.pure (Q := fun _ s => P s) fun _ hs => hs).bind fun _ => hm hpoint

theorem expMod_triple {a : Int} {e n : Nat} {Q : Int → Blinding → Prop}
    (hfits : expModFits e n = false → ∀ s, P s → E .mpiBadInputData s)
    (hfault : c.fault = some point → ∀ s, P s → E (.operation point) s)
    (hok : expModFits e n = true → c.fault ≠ some point → ∀ s, P s → Q (a ^ e % n) s) :
    Triple P (mbedtlsMpiExpMod c point a e n) Q E := by
  apply Triple.ite
  · intro hlarge
    exact .fail (hfits hlarge)
  · intro hsmall
    apply operation_bind hfault
    intro hpoint
    exact .pure (hok (Bool.eq_true_of_not_eq_false hsmall) hpoint)

theorem update_bind {m : RsaProg α} {g : Blinding → Blinding} (R : Blinding → Prop)
    (hR : ∀ s, P s → R (g s)) (hm : Triple R m Q E) :
    Triple P (update g >>= fun _ => m) Q E :=
  (Triple.update (Q := fun _ s => R s) hR).bind fun _ => hm

theorem modMpi_triple {point : RsaPoint} {w : Int → Blinding → Blinding} {x : Int} {n : Nat}
    {Q : Int → Blinding → Prop}
    (hfault : c.fault = some point → ∀ s, P s → ∀ y, (0 ≤ x → y = x) → E (.operation point) (w y s))
    (hok : c.fault ≠ some point → ∀ s, P s → Q (x % n) (w (x % n) s)) :
    Triple P (mbedtlsMpiModMpi c point (fun x => update (w x)) x n) Q E := by
  apply Triple.ite
  · intro hpoint
    apply update_bind (fun s => E (.operation point) s)
    · intro s hs
      apply hfault hpoint s hs
      intro hx
      exact if_neg fun hneg => absurd hneg.2 (Int.not_lt.mpr hx)
    · exact .fail fun s hs => hs
  · intro hpoint
    apply update_bind (fun s => Q (x % n) s)
    · exact hok hpoint
    · exact .pure fun s hs => hs

theorem rsaApplyCrt_triple {point : CrtStep → RsaPoint} {w : Int → Blinding → Blinding}
    (hw : ∀ x y s, w x (w y s) = w x s) (TP TQ : Int) (s₀ : Blinding) :
    Triple (· = s₀) (rsaApplyCrt c point (fun x => update (w x)) TP TQ)
      (fun a s => a = Rsa.garner key.P key.Q key.QP TP TQ ∧ s = w a s₀)
      (fun _ s => ∃ step, c.fault = some (point step) ∧
        ((step = .sub ∧ s = s₀) ∨ (step ≠ .sub ∧ ∃ x, s = w x s₀))) := by
  apply operation_bind
  · rintro hpoint s rfl
    exact ⟨.sub, hpoint, .inl ⟨rfl, rfl⟩⟩
  intro _
  apply update_bind (fun s => ∃ x, s = w x s₀)
  · rintro s rfl
    exact ⟨_, rfl⟩
  apply operation_bind
  · rintro hpoint s ⟨x, rfl⟩
    exact ⟨.mulQP, hpoint, .inr ⟨nofun, x, rfl⟩⟩
  intro _
  apply update_bind (fun s => ∃ x, s = w x s₀)
  · rintro s ⟨x, rfl⟩
    exact ⟨_, hw _ _ _⟩
  refine Triple.bind (Q := fun T s => T = (TP - TQ) * key.QP % key.P ∧ ∃ x, s = w x s₀) ?_ ?_
  · apply modMpi_triple
    · rintro hpoint s ⟨x, rfl⟩ y -
      exact ⟨.modP, hpoint, .inr ⟨nofun, y, hw _ _ _⟩⟩
    · rintro - s ⟨x, rfl⟩
      exact ⟨rfl, _, hw _ _ _⟩
  intro T
  apply operation_bind
  · rintro hpoint s ⟨_, x, rfl⟩
    exact ⟨.mulQ, hpoint, .inr ⟨nofun, x, rfl⟩⟩
  intro _
  apply update_bind (fun s => T = (TP - TQ) * key.QP % key.P ∧ ∃ x, s = w x s₀)
  · rintro s ⟨hT, x, rfl⟩
    exact ⟨hT, _, hw _ _ _⟩
  apply operation_bind
  · rintro hpoint s ⟨_, x, rfl⟩
    exact ⟨.addTQ, hpoint, .inr ⟨nofun, x, rfl⟩⟩
  intro _
  apply update_bind (fun s => T = (TP - TQ) * key.QP % key.P ∧ s = w (T * key.Q + TQ) s₀)
  · rintro s ⟨hT, x, rfl⟩
    exact ⟨hT, hw _ _ _⟩
  · apply Triple.pure
    rintro s ⟨rfl, rfl⟩
    exact ⟨rfl, rfl⟩

/-! ## Blinding -/

def breaksPair (build : Build) (s : Blinding) (point : RsaPoint) : Bool :=
  match s.vf, build, point with
  | some _, _, .modVi => true
  | some _, _, .mulVf => true
  | none, .crt, .crtVf step => step ≠ .sub
  | none, .crt, .crtVi _ => true
  | none, .noCrt, .drawA => true
  | none, .noCrt, .invertA => true
  | none, _, .expVi => true
  | _, _, _ => false

def Invertible (build : Build) (c : RsaCall key) (s : Blinding) : Prop :=
  build = .noCrt → s.vf = none → Nat.gcd c.draws.a key.N = 1

instance (build : Build) (c : RsaCall key) (s : Blinding) : Decidable (Invertible build c s) :=
  inferInstanceAs (Decidable (_ → _ → _))

def Harmless (build : Build) (c : RsaCall key) (s : Blinding) : Prop :=
  (∀ point ∈ c.fault, breaksPair build s point = false) ∧ Invertible build c s

instance (build : Build) (c : RsaCall key) (s : Blinding) : Decidable (Harmless build c s) :=
  inferInstanceAs (Decidable (_ ∧ _))

theorem Harmless.fault_ne {build : Build} {s : Blinding} (h : Harmless build c s)
    (hbreaks : breaksPair build s point = true) :
    c.fault ≠ some point := by
  intro hpoint
  exact absurd ((h.1 point hpoint).symm.trans hbreaks) nofun

theorem rsaSquareBlinding_triple {vi : Nat} (hN : 0 < key.N) (hvf : s₀.vf = some (vf : Int))
    (hvi : s₀.vi = vi) (hpair : vi * vf ^ key.E ≡ 1 [MOD key.N]) :
    Triple (· = s₀) (rsaSquareBlinding c vf)
      (fun _ s => ∃ vf vi, Ready key s vf vi)
      (fun _ s => c.fault ≠ none ∧
        (c.fault ≠ some .modVi → c.fault ≠ some .mulVf → Consistent key s)) := by
  have hsquare := Rsa.blinding_square hpair
  apply Triple.read_bind
  apply operation_bind
  · rintro hpoint s rfl
    rw [hpoint]
    exact ⟨nofun, fun _ _ => .inr ⟨vf, vi, hvf, hvi, hpair⟩⟩
  intro _
  apply update_bind (fun s => s = { s₀ with vi := s₀.vi * s₀.vi })
  · rintro s rfl
    rfl
  refine Triple.bind (Q := fun _ s => s = { s₀ with vi := ((vi * vi % key.N : Nat) : Int) }) ?_ ?_
  · apply modMpi_triple
    · rintro hpoint s rfl y -
      rw [hpoint]
      exact ⟨nofun, fun hne => absurd rfl hne⟩
    · rintro - s rfl
      simp only [hvi]
      norm_cast
  intro _
  apply operation_bind
  · rintro hpoint s rfl
    rw [hpoint]
    exact ⟨nofun, fun _ hne => absurd rfl hne⟩
  intro _
  apply update_bind (fun s => s = ⟨some ((vf * vf : Nat) : Int), ((vi * vi % key.N : Nat) : Int)⟩)
  · rintro s rfl
    simp only [Nat.cast_mul]
  refine Triple.bind (Q := fun _ s => ∃ vf vi, Ready key s vf vi) ?_ ?_
  · apply modMpi_triple
    · rintro hpoint s rfl y hy
      rw [hpoint]
      refine ⟨nofun, fun _ _ => .inr ⟨vf * vf, vi * vi % key.N, ?_, rfl, hsquare⟩⟩
      simp only [hy (by positivity), Nat.cast_mul]
    · rintro - s rfl
      refine ⟨vf * vf % key.N, vi * vi % key.N, ?_, rfl, Nat.mod_lt _ hN, Rsa.blinding_mod hsquare⟩
      norm_cast
  · intro _
    exact .pure fun s hs => hs

theorem modInverse_spec {a n : Nat} (hn : 1 < n) (hcoprime : Nat.gcd a n = 1) :
    modInverse a n < n ∧ a * modInverse a n ≡ 1 [MOD n] := by
  obtain ⟨x, hx, hinverse⟩ := Nat.exists_mul_mod_eq_one_of_coprime hcoprime hn
  have hsome : ((List.range n).find? fun x => a * x % n = 1).isSome := by
    rw [List.find?_isSome]
    exact ⟨x, List.mem_range.mpr hx, by simpa using hinverse⟩
  obtain ⟨y, hy⟩ := Option.isSome_iff_exists.mp hsome
  have hmem := List.mem_range.mp (List.mem_of_find?_eq_some hy)
  have hfound := List.find?_some hy
  rw [modInverse, hy, Option.getD_some]
  constructor
  · exact hmem
  · rw [Nat.ModEq, Nat.mod_eq_of_lt hn]
    simpa using hfound

structure Fresh (key : RsaKey) (s : Blinding) (vf vi : Nat) : Prop where
  vf_eq : s.vf = some (vf : Int)
  vi_eq : s.vi = vi
  vf_lt : vf < key.N
  inverse : vf * vi ≡ 1 [MOD key.N]

theorem rsaGenRandWithInverseNoCrt_triple (hN : 1 < key.N) (hnone : s₀.vf = none) :
    Triple (· = s₀) (rsaGenRandWithInverseNoCrt c)
      (fun _ s => Nat.gcd c.draws.a key.N = 1 ∧ ∃ vf vi, Fresh key s vf vi)
      (fun _ s => (c.fault ≠ none ∨ Nat.gcd c.draws.a key.N ≠ 1) ∧
        (c.fault ≠ some .drawA → c.fault ≠ some .invertA → Nat.gcd c.draws.a key.N = 1 →
          Consistent key s)) := by
  apply operation_bind
  · rintro hpoint s rfl
    rw [hpoint]
    exact ⟨.inl nofun, fun _ _ _ => .inl hnone⟩
  intro _
  apply update_bind fun _ => True
  · exact fun _ _ => trivial
  apply Triple.ite
  · intro hpoint
    apply update_bind fun _ => True
    · exact fun _ _ => trivial
    · apply Triple.fail
      intro s _
      rw [hpoint]
      exact ⟨.inl nofun, fun hne => absurd rfl hne⟩
  · intro _
    apply update_bind fun s => s.vf = some (c.draws.a : Int)
    · exact fun _ _ => rfl
    apply operation_bind
    · intro hpoint s _
      rw [hpoint]
      exact ⟨.inl nofun, fun _ hne => absurd rfl hne⟩
    intro _
    apply update_bind fun s =>
      s.vf = some (c.draws.a : Int) ∧ s.vi = (modInverse c.draws.a key.N : Int)
    · exact fun s hs => ⟨hs, rfl⟩
    apply Triple.ite
    · intro hgcd
      exact .fail fun s _ => ⟨.inr hgcd, fun _ _ hone => absurd hone hgcd⟩
    intro hgcd
    have hone : Nat.gcd c.draws.a key.N = 1 := not_not.mp hgcd
    apply Triple.pure
    rintro s ⟨hvf, hvi⟩
    obtain ⟨-, hinverse⟩ := modInverse_spec hN hone
    exact ⟨hone, _, _, hvf, hvi, c.draws.a_range.2, hinverse⟩

theorem modInverse_prime {a p : Nat} (hp : p.Prime) (hrange : 1 ≤ a ∧ a < p) :
    Nat.gcd a p = 1 ∧ modInverse a p < p ∧ a * modInverse a p ≡ 1 [MOD p] := by
  have hcoprime : Nat.gcd a p = 1 := (Nat.coprime_of_lt_prime (by omega) hrange.2 hp).symm
  exact ⟨hcoprime, modInverse_spec hp.one_lt hcoprime⟩

theorem rsaGenRandWithInverseCrt_triple (hkey : key.Valid) (hnone : s₀.vf = none) :
    Triple (· = s₀) (rsaGenRandWithInverseCrt c)
      (fun _ s => ∃ vf vi, Fresh key s vf vi)
      (fun _ s => c.fault ≠ none ∧
        ((∀ step, c.fault = some (.crtVf step) → step = .sub) →
          (∀ step, c.fault ≠ some (.crtVi step)) → Consistent key s)) := by
  obtain ⟨hgcdp, hltp, hinvp⟩ := modInverse_prime hkey.exponents.prime_p c.draws.ap_range
  obtain ⟨hgcdq, hltq, hinvq⟩ := modInverse_prime hkey.exponents.prime_q c.draws.aq_range
  obtain ⟨x, y, hx, hy, hxlt, hxy⟩ := Rsa.garner_inverse key.QP hkey.exponents.coprime
    hkey.exponents.product
    (by exact_mod_cast Int.natCast_modEq_iff.mpr hkey.qp) hinvp hinvq c.draws.aq_range.2 hltq
    hkey.exponents.prime_p.pos
  have hearly : ∀ {point : RsaPoint}, c.fault = some point → ∀ s, s = s₀ →
      c.fault ≠ none ∧
        ((∀ step, c.fault = some (.crtVf step) → step = .sub) →
          (∀ step, c.fault ≠ some (.crtVi step)) → Consistent key s) := by
    rintro point hpoint s rfl
    rw [hpoint]
    exact ⟨nofun, fun _ _ => .inl hnone⟩
  apply operation_bind hearly
  intro _
  apply operation_bind hearly
  intro _
  apply operation_bind hearly
  intro _
  rw [if_neg (not_not.mpr hgcdp)]
  apply operation_bind hearly
  intro _
  apply operation_bind hearly
  intro _
  apply operation_bind hearly
  intro _
  rw [if_neg (not_not.mpr hgcdq)]
  refine Triple.bind (Q := fun _ s => s = { s₀ with vf := some (x : Int) }) ?_ ?_
  · apply (rsaApplyCrt_triple (w := fun x s => { s with vf := some x }) (fun _ _ _ => rfl)
      c.draws.ap c.draws.aq s₀).imp fun _ h => h
    · rintro A s ⟨hA, hs⟩
      rw [hs, hA, hx]
    · rintro e s ⟨step, hpoint, hstep⟩
      rw [hpoint]
      refine ⟨nofun, fun hsub _ => ?_⟩
      rcases hstep with ⟨-, rfl⟩ | ⟨hne, -⟩
      · exact .inl hnone
      · exact absurd (hsub step rfl) hne
  intro _
  refine Triple.bind (Q := fun _ s => s = ⟨some (x : Int), y⟩) ?_ ?_
  · apply (rsaApplyCrt_triple (w := fun x s => { s with vi := x }) (fun _ _ _ => rfl)
      (modInverse c.draws.ap key.P) (modInverse c.draws.aq key.Q)
      { s₀ with vf := some (x : Int) }).imp fun _ h => h
    · rintro B s ⟨hB, hs⟩
      rw [hs, hB, hy]
    · rintro e s ⟨step, hpoint, -⟩
      rw [hpoint]
      exact ⟨nofun, fun _ hne => absurd rfl (hne step)⟩
  · intro _
    apply Triple.pure
    rintro s rfl
    exact ⟨x, y, rfl, rfl, hxlt, hxy⟩

theorem freshPower_triple {vi : Nat} (h : Fresh key s₀ vf vi) :
    Triple (· = s₀)
      (do
        let s ← Fallible.read
        let vi ← mbedtlsMpiExpMod c .expVi s.vi key.E key.N
        setVi vi)
      (fun _ s => ∃ vf vi, Ready key s vf vi)
      (fun _ _ => c.fault ≠ some .expVi → expModFits key.E key.N = false) := by
  apply Triple.read_bind
  refine Triple.bind (Q := fun x s => x = ((vi ^ key.E % key.N : Nat) : Int) ∧ s = s₀) ?_ ?_
  · apply expMod_triple
    · exact fun hlarge _ _ _ => hlarge
    · exact fun hpoint _ _ hne => absurd hpoint hne
    · rintro - - s rfl
      rw [h.vi_eq]
      exact ⟨by norm_cast, rfl⟩
  · intro x
    apply Triple.update
    rintro s ⟨rfl, rfl⟩
    exact ⟨vf, _, h.vf_eq, rfl, h.vf_lt, Rsa.blinding_fresh h.inverse⟩

theorem rsaPrepareBlinding_triple (hkey : key.Valid) (build : Build) (hs₀ : Consistent key s₀) :
    Triple (· = s₀) (rsaPrepareBlinding c build)
      (fun _ s => Invertible build c s₀ ∧ ∃ vf vi, Ready key s vf vi)
      (fun _ s =>
        (c.fault = none → Invertible build c s₀ → expModFits key.E key.N = false) ∧
        (Harmless build c s₀ → expModFits key.E key.N = true → Consistent key s)) := by
  have hN := hkey.exponents.n_pos
  have hN' : 1 < key.N := by
    rw [hkey.exponents.product]
    exact Nat.one_lt_mul_iff.mpr ⟨hkey.exponents.prime_p.pos, hkey.exponents.prime_q.pos,
      .inl hkey.exponents.prime_p.one_lt⟩
  apply Triple.read_bind
  rcases hvf : s₀.vf with _ | v
  · simp only
    have hpower : ∀ s, (c.fault ≠ some .expVi → expModFits key.E key.N = false) →
        (c.fault = none → Invertible build c s₀ → expModFits key.E key.N = false) ∧
          (Harmless build c s₀ → expModFits key.E key.N = true → Consistent key s) := by
      intro s hs
      constructor
      · intro hnone _
        exact hs (hnone ▸ nofun)
      · intro hharmless hsmall
        have hpoint : c.fault ≠ some .expVi := hharmless.fault_ne (by simp [breaksPair, hvf])
        exact absurd ((hs hpoint).symm.trans hsmall) nofun
    cases build with
    | crt =>
      refine Triple.bind (Q := fun _ s => Invertible .crt c s₀ ∧ ∃ vf vi, Fresh key s vf vi)
        ?_ fun _ => Triple.of_forall ?_
      rotate_left
      · rintro s₁ ⟨hinvertible, vf, vi, hs₁⟩
        exact (freshPower_triple hs₁).imp (fun _ h => h) (fun _ _ hs => ⟨hinvertible, hs⟩)
          fun _ => hpower
      apply (rsaGenRandWithInverseCrt_triple hkey hvf).imp fun _ h => h
      · intro _ s hs
        exact ⟨nofun, hs⟩
      rintro e s ⟨hfault, hs⟩
      constructor
      · intro hnone
        exact absurd hnone hfault
      intro hharmless _
      apply hs
      · intro step hpoint
        have hbreaks := hharmless.1 _ hpoint
        simpa [breaksPair, hvf] using hbreaks
      · exact fun step => hharmless.fault_ne (by simp [breaksPair, hvf])
    | noCrt =>
      refine Triple.bind (Q := fun _ s => Invertible .noCrt c s₀ ∧ ∃ vf vi, Fresh key s vf vi)
        ?_ fun _ => Triple.of_forall ?_
      rotate_left
      · rintro s₁ ⟨hinvertible, vf, vi, hs₁⟩
        exact (freshPower_triple hs₁).imp (fun _ h => h) (fun _ _ hs => ⟨hinvertible, hs⟩)
          fun _ => hpower
      apply (rsaGenRandWithInverseNoCrt_triple hN' hvf).imp fun _ h => h
      · rintro _ s ⟨hgcd, hs⟩
        exact ⟨fun _ _ => hgcd, hs⟩
      rintro e s ⟨hfault, hs⟩
      constructor
      · intro hnone hinvertible
        rcases hfault with hfault | hgcd
        · exact absurd hnone hfault
        · exact absurd (hinvertible rfl hvf) hgcd
      · intro hharmless _
        exact hs (hharmless.fault_ne (by simp [breaksPair, hvf]))
          (hharmless.fault_ne (by simp [breaksPair, hvf])) (hharmless.2 rfl hvf)
  · rcases hs₀ with hnone | ⟨vf, vi, hvf', hvi, hpair⟩
    · rw [hnone] at hvf
      cases hvf
    rw [hvf'] at hvf
    cases hvf
    apply (rsaSquareBlinding_triple hN hvf' hvi hpair).imp fun _ h => h
    · intro _ s hs
      refine ⟨fun _ hnone => ?_, hs⟩
      rw [hvf'] at hnone
      cases hnone
    · rintro e s ⟨hfault, hs⟩
      refine ⟨fun hnone => absurd hnone hfault, fun hharmless _ => ?_⟩
      exact hs (hharmless.fault_ne (by simp [breaksPair, hvf']))
        (hharmless.fault_ne (by simp [breaksPair, hvf']))

/-! ## The private power -/

def PowerFits (build : Build) (c : RsaCall key) : Prop :=
  match build with
  | .noCrt => expModFits ((key.P - 1) * (key.Q - 1) * c.draws.r + key.D) key.N = true
  | .crt => expModFits ((key.P - 1) * c.draws.r + key.DP) key.P = true ∧
      expModFits ((key.Q - 1) * c.draws.r₂ + key.DQ) key.Q = true

theorem rsaBlindedPower_triple (hkey : key.Valid) (build : Build) (t : Nat) (s₀ : Blinding) :
    Triple (· = s₀) (rsaBlindedPower c build t)
      (fun T s => s = s₀ ∧ PowerFits build c ∧ T = (t ^ key.D % key.N : Nat))
      (fun _ s => s = s₀ ∧ (c.fault = none → ¬ PowerFits build c)) := by
  have hstop : ∀ {point : RsaPoint}, c.fault = some point → ∀ s, s = s₀ →
      s = s₀ ∧ (c.fault = none → ¬ PowerFits build c) := by
    rintro point hpoint s rfl
    rw [hpoint]
    exact ⟨rfl, nofun⟩
  have hQ := hkey.exponents.prime_q.pos
  apply operation_bind hstop
  intro _
  apply operation_bind hstop
  intro _
  cases build with
  | noCrt =>
    apply operation_bind hstop
    intro _
    apply operation_bind hstop
    intro _
    apply operation_bind hstop
    intro _
    apply operation_bind hstop
    intro _
    apply expMod_triple
    · rintro hlarge s rfl
      exact ⟨rfl, fun _ hfits => absurd (hlarge.symm.trans hfits) nofun⟩
    · exact hstop
    · rintro hfits - s rfl
      refine ⟨rfl, hfits, ?_⟩
      rw [← hkey.exponents.pow_blinded t c.draws.r]
      norm_cast
  | crt =>
    apply operation_bind hstop
    intro _
    apply operation_bind hstop
    intro _
    apply operation_bind hstop
    intro _
    apply operation_bind hstop
    intro _
    apply operation_bind hstop
    intro _
    apply operation_bind hstop
    intro _
    refine Triple.bind (Q := fun TP s => s = s₀ ∧
      expModFits ((key.P - 1) * c.draws.r + key.DP) key.P = true ∧
      TP ≡ (t ^ key.D : Nat) [ZMOD key.P]) ?_ ?_
    · apply expMod_triple
      · rintro hlarge s rfl
        exact ⟨rfl, fun _ hfits => absurd (hlarge.symm.trans hfits.1) nofun⟩
      · exact hstop
      · rintro hfits - s rfl
        refine ⟨rfl, hfits, (Int.mod_modEq _ _).trans ?_⟩
        rw [hkey.dp]
        exact_mod_cast Int.natCast_modEq_iff.mpr (hkey.exponents.pow_blinded_p t c.draws.r)
    intro TP
    refine Triple.bind (Q := fun TQ s => s = s₀ ∧ PowerFits .crt c ∧
      TP ≡ (t ^ key.D : Nat) [ZMOD key.P] ∧ TQ ≡ (t ^ key.D : Nat) [ZMOD key.Q] ∧
      0 ≤ TQ ∧ TQ < key.Q) ?_ ?_
    · apply expMod_triple
      · rintro hlarge s ⟨hs, -⟩
        exact ⟨hs, fun _ hfits => absurd (hlarge.symm.trans hfits.2) nofun⟩
      · exact fun hpoint s hs => hstop hpoint s hs.1
      rintro hfits - s ⟨rfl, hfitsP, hTP⟩
      refine ⟨rfl, ⟨hfitsP, hfits⟩, hTP, (Int.mod_modEq _ _).trans ?_,
        Int.emod_nonneg _ (by omega), Int.emod_lt_of_pos _ (by omega)⟩
      rw [hkey.dq]
      exact_mod_cast Int.natCast_modEq_iff.mpr (hkey.exponents.pow_blinded_q t c.draws.r₂)
    intro TQ
    apply Triple.of_forall
    rintro s ⟨rfl, hfits, hTP, hTQ, hnonneg, hlt⟩
    apply (rsaApplyCrt_triple (c := c) (w := fun _ s => s) (fun _ _ _ => rfl) TP TQ s).imp
      fun _ h => h
    · rintro T s' ⟨rfl, rfl⟩
      refine ⟨rfl, hfits, ?_⟩
      exact Rsa.garner_eq hkey.exponents.coprime hkey.exponents.product
        hkey.exponents.prime_p.pos (by exact_mod_cast Int.natCast_modEq_iff.mpr hkey.qp)
        hnonneg hlt hTP hTQ
    · rintro e s' ⟨step, hpoint, hstate⟩
      apply hstop hpoint
      rcases hstate with ⟨-, rfl⟩ | ⟨-, -, rfl⟩ <;> rfl

theorem rsaUnblind_triple (hkey : key.Valid) {t : Nat} (ht : t < key.N) (hvf : vf < key.N)
    (s₀ : Blinding) :
    Triple (· = s₀) (rsaUnblind c t vf) (fun T s => s = s₀ ∧ T = t * vf % key.N)
      (fun _ s => s = s₀ ∧ c.fault ≠ none) := by
  have hstop : ∀ {point : RsaPoint}, c.fault = some point → ∀ s, s = s₀ →
      s = s₀ ∧ c.fault ≠ none := by
    rintro point hpoint s rfl
    rw [hpoint]
    exact ⟨rfl, nofun⟩
  have hbig : key.N < 2 ^ (biL * key.limbs) := by
    rw [Nat.pow_mul]
    exact hkey.limbs
  apply operation_bind hstop
  intro _
  apply operation_bind hstop
  intro _
  apply operation_bind hstop
  intro _
  apply operation_bind hstop
  intro _
  apply Triple.pure
  rintro s rfl
  refine ⟨rfl, ?_⟩
  rw [Int.natAbs_natCast, Int.natAbs_natCast, Nat.mod_eq_of_lt (ht.trans hbig),
    Nat.mod_eq_of_lt (hvf.trans hbig)]
  exact mbedtlsMpiCoreMontmul_toMontRep (.inr rfl) hkey.exponents.odd_n (BitVec.toNat_ofNat _ _)
    hkey.limbs ht hvf

theorem RsaKey.lt_len (key : RsaKey) : key.N < 256 ^ key.len := by
  calc key.N < 2 ^ key.N.size := Nat.lt_size_self _
    _ ≤ 2 ^ (8 * key.len) := Nat.pow_le_pow_right (by omega) (by unfold RsaKey.len; omega)
    _ = 256 ^ key.len := by rw [Nat.pow_mul]

/-! ## The private operation -/

structure Computes (build : Build) (c : RsaCall key) (s : Blinding) : Prop where
  invertible : Invertible build c s
  check : expModFits key.E key.N = true
  power : PowerFits build c

theorem rsaPrivateNumber_triple (hkey : key.Valid) (build : Build) (hs₀ : Consistent key s₀)
    (x : Nat) :
    Triple (· = s₀) (rsaPrivateNumber c build x)
      (fun out s => Consistent key s ∧ Computes build c s₀ ∧ out = toBE key.len (x ^ key.D % key.N))
      (fun _ s => (c.fault = none → ¬ Computes build c s₀) ∧
        (Harmless build c s₀ → expModFits key.E key.N = true → Consistent key s)) := by
  have hN := hkey.exponents.n_pos
  refine Triple.bind ((rsaPrepareBlinding_triple hkey build hs₀).imp (fun _ h => h)
    (fun _ _ h => h) ?_) ?_
  · rintro e s ⟨hfault, hs⟩
    refine ⟨fun hnone h => ?_, hs⟩
    exact absurd ((hfault hnone h.invertible).symm.trans h.check) nofun
  intro _
  apply Triple.of_forall
  rintro s₁ ⟨hinvertible, vf, vi, hs₁⟩
  have hstop : ∀ {point : RsaPoint}, c.fault = some point → ∀ s, s = s₁ →
      (c.fault = none → ¬ Computes build c s₀) ∧
        (Harmless build c s₀ → expModFits key.E key.N = true → Consistent key s) := by
    rintro point hpoint s rfl
    rw [hpoint]
    exact ⟨nofun, fun _ _ => hs₁.consistent⟩
  apply Triple.read_bind
  apply operation_bind hstop
  intro _
  refine Triple.bind (Q := fun b s => b = ((x * vi % key.N : Nat) : Int) ∧ s = s₁) ?_ ?_
  · apply modMpi_triple (w := fun _ s => s)
    · exact fun hpoint s hs _ _ => hstop hpoint s hs
    · rintro - s rfl
      rw [hs₁.vi_eq]
      exact ⟨by norm_cast, rfl⟩
  intro b
  apply operation_bind fun hpoint s hs => hstop hpoint s hs.2
  intro _
  apply Triple.of_forall
  rintro s ⟨rfl, rfl⟩
  refine Triple.bind ((rsaBlindedPower_triple hkey build _ s).imp (fun _ h => h)
    (fun _ _ h => h) ?_) ?_
  · rintro e s' ⟨rfl, hfault⟩
    exact ⟨fun hnone h => hfault hnone h.power, fun _ _ => hs₁.consistent⟩
  intro T
  refine Triple.bind (Q := fun check s' => s' = s ∧ Computes build c s₀ ∧
    T = ((x * vi % key.N) ^ key.D % key.N : Nat) ∧
    check = ((x * vi % key.N : Nat) : Int)) ?_ ?_
  · apply expMod_triple
    · rintro hlarge s' ⟨rfl, -⟩
      refine ⟨fun _ h => absurd (hlarge.symm.trans h.check) nofun, fun _ _ => hs₁.consistent⟩
    · exact fun hpoint s' hs' => hstop hpoint s' hs'.1
    rintro hcheck - s' ⟨rfl, hpower, rfl⟩
    refine ⟨rfl, ⟨hinvertible, hcheck, hpower⟩, rfl, ?_⟩
    have hback := hkey.exponents.pow_pow_modEq (x * vi % key.N)
    rw [Nat.ModEq, Nat.mod_mod] at hback
    exact_mod_cast hback
  intro check
  apply Triple.of_forall
  rintro s' ⟨rfl, hcomputes, rfl, rfl⟩
  rw [if_neg (not_not.mpr rfl), hs₁.vf_eq, Option.getD_some]
  refine Triple.bind ((rsaUnblind_triple hkey (Nat.mod_lt _ hN) hs₁.vf_lt s').imp (fun _ h => h)
    (fun _ _ h => h) ?_) ?_
  · rintro e s'' ⟨rfl, hfault⟩
    exact ⟨fun hnone => absurd hnone hfault, fun _ _ => hs₁.consistent⟩
  intro a
  apply Triple.of_forall
  rintro s'' ⟨rfl, ha⟩
  have hresult : a = x ^ key.D % key.N := by
    rw [ha]
    exact hkey.exponents.unblind hs₁.pair
  have hfits : a < 256 ^ key.len := by
    rw [hresult]
    exact (Nat.mod_lt _ hN).trans key.lt_len
  rw [if_neg (Nat.not_le.mpr hfits)]
  apply Triple.pure
  rintro s rfl
  exact ⟨hs₁.consistent, hcomputes, by rw [hresult]⟩

theorem RsaKey.Valid.qp_pos (hkey : key.Valid) : 0 < key.QP := by
  have hp := hkey.exponents.three_le_p
  have hinverse := hkey.qp
  rw [Nat.pos_iff_ne_zero]
  intro hzero
  rw [hzero, Nat.mul_zero, Nat.ModEq, Nat.zero_mod, Nat.mod_eq_of_lt (by omega)] at hinverse
  cases hinverse

theorem rsaCheckContext_valid (hkey : key.Valid) (build : Build) (isPriv : Bool) :
    rsaCheckContext build key isPriv = true ↔ key.len ≤ mbedtlsMpiMaxSize := by
  have hDP : 0 < key.DP := by
    rw [hkey.dp]
    exact hkey.exponents.mod_p_pos
  have hDQ : 0 < key.DQ := by
    rw [hkey.dq]
    exact hkey.exponents.mod_q_pos
  unfold rsaCheckContext
  cases build <;>
    simp [hDP, hDQ, hkey.qp_pos, hkey.exponents.n_pos, hkey.exponents.odd_n, hkey.exponents.e_pos,
      hkey.exponents.d_pos, hkey.exponents.prime_p.pos, hkey.exponents.prime_q.pos,
      hkey.exponents.odd_p, hkey.exponents.odd_q]

theorem mbedtlsRsaPrivate_triple (hkey : key.Valid) (build : Build) (hs₀ : Consistent key s₀) :
    Triple (· = s₀) (mbedtlsRsaPrivate c build)
      (fun out s => Consistent key s ∧ key.len ≤ mbedtlsMpiMaxSize ∧
        ofBE (c.input.take key.len) < key.N ∧ Computes build c s₀ ∧
        out = toBE key.len (ofBE (c.input.take key.len) ^ key.D % key.N))
      (fun _ s =>
        (c.fault = none → key.len ≤ mbedtlsMpiMaxSize → ofBE (c.input.take key.len) < key.N →
          ¬ Computes build c s₀) ∧
        ((ofBE (c.input.take key.len) < key.N → Harmless build c s₀) →
          expModFits key.E key.N = true → Consistent key s)) := by
  apply Triple.ite
  · intro hcheck
    apply Triple.fail
    rintro s rfl
    refine ⟨fun _ hlen _ => ?_, fun _ _ => hs₀⟩
    rw [(rsaCheckContext_valid hkey build true).mpr hlen] at hcheck
    cases hcheck
  intro hcheck
  have hlen := (rsaCheckContext_valid hkey build true).mp (Bool.eq_true_of_not_eq_false hcheck)
  apply operation_bind
  · rintro hpoint s rfl
    rw [hpoint]
    exact ⟨nofun, fun _ _ => hs₀⟩
  intro _
  apply Triple.ite
  · intro hlarge
    apply Triple.fail
    rintro s rfl
    exact ⟨fun _ _ hlt => absurd hlt (Nat.not_lt.mpr hlarge), fun _ _ => hs₀⟩
  · intro hsmall
    have hlt := Nat.lt_of_not_le hsmall
    apply (rsaPrivateNumber_triple hkey build hs₀ _).imp fun _ h => h
    · rintro out s ⟨hs, hcomputes, hout⟩
      exact ⟨hs, hlen, hlt, hcomputes, hout⟩
    · rintro e s ⟨hfault, hs⟩
      exact ⟨fun hnone _ _ => hfault hnone, fun hharmless => hs (hharmless hlt)⟩

end Operations

/-! ## A small key -/

def smallKey : RsaKey :=
  { N := 55, E := 3, D := 7, P := 11, Q := 5, DP := 7, DQ := 3, QP := 9, limbs := 1 }

theorem smallKey_valid : smallKey.Valid where
  exponents :=
    { prime_p := by norm_num [smallKey]
      prime_q := by norm_num [smallKey]
      odd_p := rfl
      odd_q := rfl
      ne := by decide
      product := rfl
      inverse := rfl }
  dp := rfl
  dq := rfl
  qp := rfl
  limbs := by decide

def smallCall (fault : Option RsaPoint) : RsaCall smallKey where
  input := [2]
  fault := fault
  residue := 0
  truncated := false
  draws :=
    { a := 2
      ap := 2
      aq := 3
      r := 1
      r₂ := 1
      a_range := by decide
      ap_range := by decide
      aq_range := by decide
      r_range := by decide
      r₂_range := by decide }

end TfPsaCrypto.RsaPrivate
