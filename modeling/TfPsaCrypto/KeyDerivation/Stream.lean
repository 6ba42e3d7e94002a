import TfPsaCrypto.KeyDerivation.Protocol

/-!
# The output is one stream

An operation hands out the stream that the standards define from its inputs, however it is read.
-/

namespace TfPsaCrypto

open Bytes (ByteString)
open BlockStream (firstElements segment)

variable {P : KdfPlatform} {k : Kdf} {alg : PsaAlgorithm} {inputs : KdfInputs}
  {op op' : PsaKeyDerivationOperation}

/-! ## Requests -/

def KdfCall.isInput : KdfCall → Bool
  | .inputBytes _ _ => true
  | .inputInteger _ _ => true
  | .inputKey _ _ => true
  | .keyAgreement _ _ _ => true
  | _ => false

def KdfCall.requestLength : KdfCall → Nat
  | .outputBytes n => n
  | _ => 0

def requested (l : List KdfEvent) : Nat := (l.map fun e => e.1.1.requestLength).sum

def given (l : List KdfEvent) : ByteString := l.flatMap fun e => e.2.output

@[simp] theorem requested_append (l : List KdfEvent) (e : KdfEvent) :
    requested (l ++ [e]) = requested l + e.1.1.requestLength := by
  simp [requested]

@[simp] theorem given_append (l : List KdfEvent) (e : KdfEvent) :
    given (l ++ [e]) = given l ++ e.2.output := by
  simp [given]

def OutputEnv.Reliable (env : OutputEnv) : Prop :=
  env.localAlloc = true ∧ (∀ block i, env.mac block i = .success) ∧ env.hash = .success

theorem OutputEnv.Reliable.not_fault {env : OutputEnv} (h : env.Reliable)
    (e : PsaStatus) : ¬ env.Fault e := by
  rintro ⟨hne, ⟨block, i, he⟩ | he⟩
  · exact hne (he.symm.trans (h.2.1 block i))
  · exact hne (he.symm.trans h.2.2)

/-! ## Reading -/

theorem inputs_run {l : List KdfEvent} (h : StandsAt P k .empty 0 op)
    (hrun : Machine.Run (kdfMachine P) op l op')
    (hin : ∀ e ∈ l, e.1.1.isInput = true ∧ e.2.supplied.isSome = true) :
    StandsAt P k (suppliedInputs l) 0 op' ∧ op'.alg = op.alg ∧ op'.capacity = op.capacity := by
  refine hrun.invariant
    (I := fun l op' => StandsAt P k (suppliedInputs l) 0 op' ∧ op'.alg = op.alg ∧
      op'.capacity = op.capacity)
    (P := fun e => e.1.1.isInput = true ∧ e.2.supplied.isSome = true) ⟨h, rfl, rfl⟩ ?_ hin
  rintro l op₁ ⟨call, env⟩ op₂ o ⟨hstands, halg, hcap⟩ ⟨hcall, hsome⟩ hs
  obtain ⟨rfl, rfl⟩ := kdfMachine_eq hs
  obtain ⟨x, hx⟩ := Option.isSome_iff_exists.mp hsome
  have hsupported : Supported op₁ := .inr ⟨k, hstands.kind⟩
  have hnext : ∀ fromKey r, InputOutcome P env.input op₁ fromKey r →
      kdfCall P env op₁ call = .ofInput r →
      StandsAt P k (suppliedInputs (l ++ [((call, env), kdfCall P env op₁ call)])) 0
          r.operation ∧
        r.operation.alg = op.alg ∧ r.operation.capacity = op.capacity := by
    intro fromKey r hr heq
    have hx' : r.supplied = some x := by
      rw [heq] at hx
      exact hx
    obtain ⟨hstands', halg', hcap'⟩ := hr.stands hx' hstands
    rw [suppliedInputs_append, hx]
    exact ⟨hstands', halg'.trans halg, hcap'.trans hcap⟩
  cases call with
  | inputBytes step data =>
    exact hnext _ _ (psaKeyDerivationInputBytes_outcome hsupported) rfl
  | inputInteger step value => exact hnext _ _ psaKeyDerivationInputInteger_outcome rfl
  | inputKey step key =>
    exact hnext _ _ (psaKeyDerivationInputKey_outcome P env.input step hsupported key).1 rfl
  | keyAgreement step privateKey peerKey =>
    exact hnext _ _ (psaKeyDerivationKeyAgreement_outcome hsupported) rfl
  | _ => cases hcall

def requestStatus (capacity : Nat) (pre : List KdfEvent) (e : KdfEvent) : PsaStatus :=
  if e.1.1.requestLength = 0 ∧ requested pre = capacity then .errorInsufficientData
  else .success

structure ReadInv (P : KdfPlatform) (k : Kdf) (alg : PsaAlgorithm) (inputs : KdfInputs)
    (capacity : Nat) (l : List KdfEvent) (op : PsaKeyDerivationOperation) : Prop where
  stands : StandsAt P k inputs (requested l) op
  alg_eq : op.alg = alg
  capacity_eq : op.capacity + requested l = capacity
  given_eq : given l = segment (k.blockSize (kdfAlgOf alg))
    (kdfBlock P k (kdfAlgOf alg) inputs) 0 (requested l)
  status : History.Each (fun pre e => e.2.status = requestStatus capacity pre e) l

theorem ReadInv.step {capacity : Nat} {l : List KdfEvent} {env : KdfEnv} {n : Nat}
    (h : ReadInv P k alg inputs capacity l op) (hne : k ≠ .tls12EcjpakeToPms)
    (hcomplete : inputs.Complete k) (henv : env.output.Reliable)
    (hle : requested l + n ≤ capacity)
    (hlimit : k = .tls12Prf → requested l + n ≤ k.blockLimit * k.blockSize (kdfAlgOf alg)) :
    ReadInv P k alg inputs capacity
      (l ++ [((.outputBytes n, env), kdfCall P env op (.outputBytes n))])
      (kdfCall P env op (.outputBytes n)).operation := by
  have hcap := h.capacity_eq
  have hstatus := h.status
  have hgiven := h.given_eq
  obtain rfl := h.alg_eq
  have hcall : kdfCall P env op (.outputBytes n)
      = .ofOutput (psaKeyDerivationOutputBytes P env.output op n) := rfl
  rw [hcall]
  cases psaKeyDerivationOutputBytes_outcome env.output n h.stands with
  | read ctx hok hpos hn hop hnext _ hout =>
    constructor
    · rw [requested_append]
      exact hnext
    · show (psaKeyDerivationOutputBytes P env.output op n).operation.alg = op.alg
      rw [hop]
    · rw [requested_append]
      show (psaKeyDerivationOutputBytes P env.output op n).operation.capacity
        + (requested l + n) = capacity
      rw [hop]
      show op.capacity - n + (requested l + n) = capacity
      omega
    · rw [requested_append, given_append, hgiven, BlockStream.segment_add, Nat.zero_add]
      exact congrArg _ (hout hne)
    · rw [History.each_append_singleton]
      refine ⟨hstatus, ?_⟩
      rw [requestStatus, if_neg]
      · exact hok
      · rintro ⟨_, hall⟩
        omega
  | exhausted hzero hempty hr =>
    subst hzero
    rw [hr]
    constructor
    · rw [requested_append]
      exact h.stands
    · rfl
    · rw [requested_append]
      exact hcap
    · rw [requested_append, given_append, hgiven]
      exact List.append_nil _
    rw [History.each_append_singleton]
    refine ⟨hstatus, ?_⟩
    rw [requestStatus, if_pos]
    · rfl
    · exact ⟨rfl, by omega⟩
  | wiped e hreason hr =>
    exfalso
    cases hreason with
    | memory hn hfalse => cases henv.1.symm.trans hfalse
    | capacity hlt => omega
    | incomplete _ hnot => exact hnot hcomplete
    | length hecjpake => exact hne hecjpake
    | fault e hfault => exact henv.not_fault e hfault
    | counter _ hk hbeyond =>
      have hwithin := hlimit hk
      omega

/-- A derivation that is set up, takes its inputs, and is read with requests that stay
within the capacity it was set up with, and within the 255 blocks of the TLS 1.2 PRF. -/
structure KdfReading (P : KdfPlatform) (k : Kdf) (alg : PsaAlgorithm)
    (started : PsaKeyDerivationOperation) (ins outs : List KdfEvent) : Prop where
  setup : ∃ hashTrySupport idle,
    psaKeyDerivationSetup P hashTrySupport idle alg = (.success, started)
  kind : k.Is (kdfAlgOf alg) = true
  not_ecjpake : k ≠ .tls12EcjpakeToPms
  calls : ∃ ready done, Machine.Run (kdfMachine P) started ins ready ∧
    Machine.Run (kdfMachine P) ready outs done
  accepted : ∀ e ∈ ins, e.1.1.isInput = true ∧ e.2.supplied.isSome = true
  complete : (suppliedInputs ins).Complete k
  requests : ∀ e ∈ outs, e.1.1 = .outputBytes e.1.1.requestLength ∧ e.1.2.output.Reliable
  capacity : requested outs ≤ started.capacity
  limit : k = .tls12Prf → requested outs ≤ 255 * k.blockSize (kdfAlgOf alg)

theorem KdfReading.readInv {started : PsaKeyDerivationOperation} {ins outs : List KdfEvent}
    (h : KdfReading P k alg started ins outs) :
    ∃ done, ReadInv P k alg (suppliedInputs ins) started.capacity outs done := by
  obtain ⟨hashTrySupport, idle, hsetup⟩ := h.setup
  obtain ⟨ready, done, hins, houts⟩ := h.calls
  have hstarted : StandsAt P k .empty 0 started ∧ started.alg = alg := by
    have houtcome := psaKeyDerivationSetup_outcome P idle hashTrySupport alg
    rw [hsetup] at houtcome
    cases houtcome with
    | failed hfail => exact absurd rfl hfail
    | started k' capacity _ _ hkind hsize _ hlimit hop =>
      obtain rfl : k = k' := of_decide_eq_true ((Kdf.is_iff hkind k).symm.trans h.kind)
      have hop : started = _ := hop
      rw [hop]
      refine ⟨⟨hkind, hsize, kdfInv_zero P k _, ?_⟩, rfl⟩
      rcases hlimit with hk | hlimit
      · exact .inl hk
      · right
        rw [Nat.zero_add]
        exact hlimit
  obtain ⟨hstands, halg, hcap⟩ := inputs_run hstarted.1 hins h.accepted
  refine ⟨done, ?_⟩
  -- along the run, the requests so far stay within the bounds on all of them
  have hrule := houts.invariant
    (I := fun l op => requested l ≤ started.capacity →
      (k = .tls12Prf → requested l ≤ k.blockLimit * k.blockSize (kdfAlgOf alg)) →
      ReadInv P k alg (suppliedInputs ins) started.capacity l op)
    (P := fun e => e.1.1 = .outputBytes e.1.1.requestLength ∧ e.1.2.output.Reliable)
  refine hrule ?_ ?_ h.requests h.capacity fun hk => (h.limit hk).trans_eq (by rw [hk]; rfl)
  · intro _ _
    refine ⟨hstands, halg.trans hstarted.2, hcap, ?_, History.each_nil⟩
    exact rfl
  rintro l op ⟨call, env⟩ op₁ o hI ⟨hcall, henv⟩ hs hle hlimit
  obtain ⟨rfl, rfl⟩ := kdfMachine_eq hs
  have hcall : call = .outputBytes call.requestLength := hcall
  rw [requested_append] at hle hlimit
  rw [hcall] at hle hlimit ⊢
  have hle : requested l + call.requestLength ≤ started.capacity := hle
  refine (hI (by omega) fun hk => ?_).step h.not_ecjpake h.complete henv hle hlimit
  have hwithin : requested l + call.requestLength
      ≤ k.blockLimit * k.blockSize (kdfAlgOf alg) := hlimit hk
  omega

/-! ## One stream -/

/-- **One stream.** However an operation is read, its bytes are the beginning of the stream of the
standards, and every request succeeds, but an empty one at the end of the capacity. -/
theorem output_is_one_stream {started : PsaKeyDerivationOperation}
    {ins outs : List KdfEvent} (h : KdfReading P k alg started ins outs) :
    given outs = firstElements (k.blockSize (kdfAlgOf alg))
      (kdfBlock P k (kdfAlgOf alg) (suppliedInputs ins)) (requested outs) ∧
    ∀ pre e post, outs = pre ++ e :: post →
      e.2.status = if e.1.1.requestLength = 0 ∧ requested pre = started.capacity
        then .errorInsufficientData else .success := by
  obtain ⟨done, hread⟩ := h.readInv
  refine ⟨?_, hread.status⟩
  have hsize := hread.stands.size
  rw [hread.alg_eq] at hsize
  rw [hread.given_eq, BlockStream.firstElements_eq hsize]
  intro i
  exact length_kdfBlock P k _ _ i h.not_ecjpake

def rfc5869Salt : ByteString :=
  [0x00, 0x01, 0x02, 0x03, 0x04, 0x05, 0x06, 0x07, 0x08, 0x09, 0x0a, 0x0b, 0x0c]

def rfc5869Secret : ByteString := List.replicate 22 0x0b

/-- The inner hash of `HMAC(salt, secret)` in this test case, and its result. -/
def rfc5869Inner : ByteString :=
  [0xf4, 0x2f, 0xe5, 0x4a, 0x0e, 0x06, 0x15, 0xbd,
    0xca, 0x1d, 0x45, 0xf8, 0xa9, 0xa6, 0x63, 0xb1,
    0x33, 0x7f, 0x4a, 0x70, 0x59, 0xf9, 0xed, 0x21,
    0xd8, 0x76, 0xed, 0x21, 0x2a, 0x89, 0xa6, 0x3b]

def rfc5869Prk : ByteString :=
  [0x07, 0x77, 0x09, 0x36, 0x2c, 0x2e, 0x32, 0xdf,
    0x0d, 0xdc, 0x3f, 0x0d, 0xc4, 0x7b, 0xba, 0x63,
    0x90, 0xb6, 0xc7, 0x3b, 0xb5, 0x0f, 0x9c, 0x31,
    0x22, 0xec, 0x84, 0x4a, 0xd7, 0xc2, 0xb3, 0xe5]

def rfc5869Platform : KdfPlatform where
  sizeMax := 2 ^ 64 - 1
  sizeMax_eq := zeroCoordinatePlatform.sizeMax_eq
  hash := fun alg m =>
    let block := rfc5869Salt ++ List.replicate 51 0
    if alg = psaAlgSha256 ∧
        m = Bytes.xor block (List.replicate 64 0x36) ++ rfc5869Secret then rfc5869Inner
    else if alg = psaAlgSha256 ∧
        m = Bytes.xor block (List.replicate 64 0x5c) ++ rfc5869Inner then rfc5869Prk
    else List.replicate (psaHashLength alg) 0
  length_hash := fun alg m => by
    have hinner : rfc5869Inner.length = psaHashLength psaAlgSha256 := by decide
    have hprk : rfc5869Prk.length = psaHashLength psaAlgSha256 := by decide
    dsimp only
    split
    · next h => rw [h.1, hinner]
    split
    · next h => rw [h.1, hprk]
    · exact List.length_replicate
  aesCmac := fun _ _ => List.replicate 16 0
  length_aesCmac := zeroCoordinatePlatform.length_aesCmac

theorem permissiveOutputEnv_reliable : permissiveOutputEnv.Reliable := ⟨rfl, fun _ _ => rfl, rfl⟩

def hkdfExtractSha256 : PsaAlgorithm := 0x08000409

def hkdfExtractStarted : PsaKeyDerivationOperation :=
  { psaKeyDerivationOperationInit with alg := hkdfExtractSha256, capacity := 32 }

def rfc5869Ready : PsaKeyDerivationOperation :=
  let salted := kdfCall rfc5869Platform permissiveKdfEnv hkdfExtractStarted
    (.inputBytes .salt rfc5869Salt)
  (kdfCall rfc5869Platform permissiveKdfEnv salted.operation
    (.inputBytes .secret rfc5869Secret)).operation

theorem rfc5869_reading :
    ∃ ins outs, KdfReading rfc5869Platform .hkdfExtract hkdfExtractSha256 hkdfExtractStarted
        ins outs ∧
      outs.map (fun e => (e.1.1.requestLength, e.2.status)) = [(20, .success), (12, .success),
        (0, .errorInsufficientData)] := by
  have hins : Machine.Run (kdfMachine rfc5869Platform) hkdfExtractStarted
      ([] ++ [((.inputBytes .salt rfc5869Salt, permissiveKdfEnv), _)]
        ++ [((.inputBytes .secret rfc5869Secret, permissiveKdfEnv), _)]) rfc5869Ready :=
    (Machine.Run.nil.snoc rfl).snoc rfl
  have houts : Machine.Run (kdfMachine rfc5869Platform) rfc5869Ready
      ([] ++ [((.outputBytes 20, permissiveKdfEnv), _)]
        ++ [((.outputBytes 12, permissiveKdfEnv), _)]
        ++ [((.outputBytes 0, permissiveKdfEnv), _)]) _ :=
    ((Machine.Run.nil.snoc rfl).snoc rfl).snoc rfl
  refine ⟨_, _, ⟨⟨fun _ => .success, psaKeyDerivationOperationInit, by decide⟩, by decide,
    by decide, ⟨_, _, hins, houts⟩, by decide, ⟨by decide, by decide⟩, ?_, by decide,
    nofun⟩, by decide⟩
  intro e he
  simp only [List.nil_append, List.cons_append, List.mem_cons, List.not_mem_nil, or_false] at he
  rcases he with rfl | rfl | rfl
  · exact ⟨rfl, permissiveOutputEnv_reliable⟩
  · exact ⟨rfl, permissiveOutputEnv_reliable⟩
  · exact ⟨rfl, permissiveOutputEnv_reliable⟩

theorem output_is_one_stream_witness :
    ∃ ins outs, KdfReading rfc5869Platform .hkdfExtract hkdfExtractSha256 hkdfExtractStarted
        ins outs ∧
      given outs = firstElements (Kdf.hkdfExtract.blockSize hkdfExtractSha256)
        (kdfBlock rfc5869Platform .hkdfExtract hkdfExtractSha256 (suppliedInputs ins)) 32 := by
  obtain ⟨ins, outs, h, hrequests⟩ := rfc5869_reading
  obtain ⟨hgiven, _⟩ := output_is_one_stream h
  have hlengths : outs.map (fun e => e.1.1.requestLength) = [20, 12, 0] := by
    have hfirst := congrArg (List.map Prod.fst) hrequests
    rw [List.map_map] at hfirst
    exact hfirst
  rw [requested, hlengths] at hgiven
  exact ⟨ins, outs, h, hgiven⟩

/-- **Counterexample.** When the capacity has been used up, a request for no bytes
fails. -/
theorem empty_request_without_capacity :
    ¬ ∀ P k alg started ins outs, KdfReading P k alg started ins outs →
      ∀ e ∈ outs, e.2.status = .success := by
  intro h
  obtain ⟨ins, outs, hread, hrequests⟩ := rfc5869_reading
  have hlast : (0, PsaStatus.errorInsufficientData)
      ∈ outs.map (fun e => (e.1.1.requestLength, e.2.status)) := by
    rw [hrequests]
    simp
  obtain ⟨e, he, hstatus⟩ := List.mem_map.mp hlast
  have hok := h _ _ _ _ _ _ hread e he
  have herror : e.2.status = .errorInsufficientData := congrArg Prod.snd hstatus
  cases hok.symm.trans herror

end TfPsaCrypto
