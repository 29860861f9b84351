import Vellar.Contracts.AttestationRegistry
import Vellar.Lib.Effect
import Vellar.Worker.Artifact
import Vellar.Worker.ErrorClassification
import Vellar.Worker.Verify

/-!
# Vellar.Worker.Attestor — verdicts mirrored into the registry

`services/worker-service/src/attestor.ts` over the submitter of `registry-submitter.ts`.  The submitter calls
the attestation registry over the network: a request is answered in some ledger, fails, or fails after its
transaction took effect, and `World` carries the registry's storage and the answers still to come.
-/

set_option autoImplicit false

namespace Vellar.Worker.Attestor

open Soroban Hex Effect

/-- What becomes of the next request to the network. -/
inductive Answer where
  | ok (env : Env)
  | failed (e : Thrown)
  /-- The transaction was applied, and the answer got lost. -/
  | unconfirmed (env : Env) (e : Thrown)

inductive Metric where
  | upserted
  | revoked
  | error
deriving DecidableEq, Repr

structure World where
  registry : AttestationRegistry.Storage
  answers : List Answer
  metrics : List Metric

abbrev Act (α : Type) := Effect Thrown World α

/-! ## The submitter -/

def noAnswer : Thrown := .error "Error" "no answer"

/-- `invoke`: a transaction to the registry. -/
def invoke (method : String) (call : Env → AttestationRegistry.Call) : Act Unit := fun w =>
  match w.answers with
  | [] => .error noAnswer w
  | .failed e :: rest => .error e { w with answers := rest }
  | .unconfirmed env e :: rest =>
    .error e { w with answers := rest, registry := AttestationRegistry.step w.registry (call env) }
  | .ok env :: rest =>
    match AttestationRegistry.exec w.registry (call env) with
    | .ok s => .ok () { w with answers := rest, registry := s }
    | .error _ => .error (.error "Error" s!"registry {method} failed on-chain") { w with answers := rest }

/-- A read; it changes nothing but the answers to come. -/
def read {α : Type} (f : AttestationRegistry.Storage → Env → α) : Act α := fun w =>
  match w.answers with
  | [] => .error noAnswer w
  | .failed e :: rest => .error e { w with answers := rest }
  | .unconfirmed _ e :: rest => .error e { w with answers := rest }
  | .ok env :: rest => .ok (f w.registry env) { w with answers := rest }

def currentLedger : Act ℕ := read fun _ env => env.sequence

def isAttested (contractId : String) : Act Bool := read fun s _ => (s.attestation ⟨contractId⟩).isSome

/-- `Buffer.from(hex, "hex")` where 32 bytes are asked for. -/
def bytes32 (hex : String) : Option (BytesN 32) :=
  if h : (fromHex hex).length = 32 then some ⟨fromHex hex, h⟩ else none

/-- The bytes, or the error that names what they were meant to be. -/
def requireBytes32 (what hex : String) : Act (BytesN 32) :=
  match bytes32 hex with
  | some bytes => pure bytes
  | none => throw (.error "Error" (what ++ " must be 32 bytes, got " ++ toString (fromHex hex).length))

def upsert (contractId wasmHashHex : String) (expiresLedger : ℕ) : Act Unit := do
  let hash ← requireBytes32 "attested wasm hash" wasmHashHex
  invoke "upsert" fun env => .upsert env ⟨contractId⟩ hash expiresLedger

def upsertWithPublisher (contractId wasmHashHex publisherIdHex : String) (expiresLedger : ℕ) : Act Unit := do
  let hash ← requireBytes32 "attested wasm hash" wasmHashHex
  let publisher ← requireBytes32 "publisher id" publisherIdHex
  invoke "upsert_with_publisher" fun env => .upsertWithPublisher env ⟨contractId⟩ hash publisher expiresLedger

def revoke (contractId : String) : Act Unit := invoke "revoke" fun env => .revoke env ⟨contractId⟩

/-! ## The attestor -/

/-- `ttlLedgers`, where an attestor is created without it. -/
def DEFAULT_TTL_LEDGERS : ℕ := (60 * 60 * 24 * 7) / 5

def emit (m : Metric) : Act Unit := fun w => .ok () { w with metrics := w.metrics ++ [m] }

/-- A hash that is passed on where a string is expected; `undefined` makes `Buffer.from` throw. -/
def definedHash (hash : Option String) : Act String :=
  match hash with
  | some hash => pure hash
  | none => throw (.error "TypeError" "The first argument must be of type string")

/-- The publisher of the source, if it has one. -/
def publisherOfSource (P : Platform) (repoUrl : Option String) : Option String :=
  (truthy repoUrl).bind (publisherIdFor P)

/-- The second write of `reportOutcome`. -/
def writeAttributed (contractId : String) (outputHash : Option String) (publisher : Option String)
    (expiresLedger : ℕ) : Act Unit :=
  match publisher with
  | some publisher => do
    let hash ← definedHash outputHash
    upsertWithPublisher contractId hash publisher expiresLedger
  | none => do
    let hash ← definedHash outputHash
    upsert contractId hash expiresLedger

/-- A verified outcome with a hash: written under the attested hash, then once more under the rebuilt one. -/
def attest (P : Platform) (ttl : ℕ) (contractId hash : String) (outcome : VerificationOutcome)
    (repoUrl : Option String) : Act Unit := do
  let now ← currentLedger
  upsert contractId hash (now + ttl)
  writeAttributed contractId outcome.outputHash (publisherOfSource P repoUrl) (now + ttl)
  emit .upserted

/-- A failed outcome: a live attestation is revoked. -/
def retract (contractId : String) : Act Unit := do
  let attested ← isAttested contractId
  if attested then do
    revoke contractId
    emit .revoked
  else pure ()

/-- The body of the try block of `reportOutcome`. -/
def mirrorOutcome (P : Platform) (ttl : ℕ) (contractId : String) (outcome : VerificationOutcome)
    (repoUrl : Option String) : Act Unit :=
  if outcome.status = .verified then
    match truthy outcome.attestedHash with
    | none => pure ()
    | some hash => attest P ttl contractId hash outcome repoUrl
  else retract contractId

def reportOutcome (P : Platform) (ttl : ℕ) (contractId : String) (outcome : VerificationOutcome)
    (repoUrl : Option String) : Act Unit :=
  attempt (mirrorOutcome P ttl contractId outcome repoUrl) fun _ => emit .error

/-- The live hash as the sweep reads it: a hash, none for a contract that is gone, nothing on RPC trouble. -/
def liveHash (resolver : ContractArtifactResolver) (contractId : String) : Option (Option String) :=
  match resolver.resolveDeployedHash contractId with
  | .ok hash => some (some hash)
  | .error (.resolve code _) => if code = .rpcError then none else some none
  | .error _ => none

/-- One entry of the watch list; the number of revocations. -/
def sweepEntry (resolver : ContractArtifactResolver) (entry : WatchEntry) : Act ℕ := do
  let attested ← isAttested entry.contractId
  match if attested then liveHash resolver entry.contractId else none with
  | none => pure 0
  | some live =>
    if live ≠ some entry.outputHash then do
      revoke entry.contractId
      emit .revoked
      pure 1
    else pure 0

def sweepLoop (resolver : ContractArtifactResolver) : List WatchEntry → Act ℕ
  | [] => pure 0
  | entry :: rest => do
    let n ← attempt (sweepEntry resolver entry) fun _ => do
      emit .error
      pure 0
    let m ← sweepLoop resolver rest
    pure (n + m)

/-- `runUpgradeSweep`, given what the source's `listLatestVerified` returned. -/
def runUpgradeSweep (watch : Except Thrown (List WatchEntry)) (resolver : ContractArtifactResolver) : Act ℕ :=
  match watch with
  | .ok entries => sweepLoop resolver entries
  | .error _ => do
    emit .error
    pure 0

/-! ## What the calls do -/

section Specs

variable {w w' : World} {contractId : String}

theorem invoke_returns {method : String} {call : Env → AttestationRegistry.Call} {u : Unit} :
    Returns (invoke method call) w u w' ↔ ∃ env rest s, w.answers = .ok env :: rest ∧
      AttestationRegistry.exec w.registry (call env) = .ok s ∧
      w' = { w with answers := rest, registry := s } := by
  show invoke method call w = .ok u w' ↔ _
  unfold invoke
  cases w.answers with
  | nil => simp
  | cons a rest =>
    cases a with
    | ok env =>
      cases hexec : AttestationRegistry.exec w.registry (call env) with
      | ok s => simp [hexec, @eq_comm _ w']
      | error e => simp [hexec]
    | failed e => simp
    | unconfirmed env e => simp

theorem requireBytes32_returns {what hex : String} {bytes : BytesN 32} :
    Returns (requireBytes32 what hex) w bytes w' ↔ bytes32 hex = some bytes ∧ w' = w := by
  unfold requireBytes32
  cases bytes32 hex with
  | none => simp [returns_throw]
  | some b => simp [returns_pure, @eq_comm _ b]

/-- What a successful upsert leaves. -/
theorem upsert_returns {wasmHashHex : String} {expiresLedger : ℕ} {u : Unit}
    (h : Returns (upsert contractId wasmHashHex expiresLedger) w u w') :
    ∃ hash ledger, bytes32 wasmHashHex = some hash ∧
      w'.registry.attestation ⟨contractId⟩ = some ⟨hash, ledger, expiresLedger, none⟩ := by
  unfold upsert at h
  simp only [returns_bind, requireBytes32_returns, invoke_returns] at h
  obtain ⟨hash, w₁, ⟨hbytes, rfl⟩, env, rest, s, -, hexec, rfl⟩ := h
  exact ⟨hash, env.sequence, hbytes, (AttestationRegistry.exec_ok hexec).2.2.1 ⟨contractId⟩ rfl⟩

theorem upsertWithPublisher_returns {wasmHashHex publisherIdHex : String} {expiresLedger : ℕ} {u : Unit}
    (h : Returns (upsertWithPublisher contractId wasmHashHex publisherIdHex expiresLedger) w u w') :
    ∃ hash publisher ledger, bytes32 wasmHashHex = some hash ∧ bytes32 publisherIdHex = some publisher ∧
      w'.registry.attestation ⟨contractId⟩ = some ⟨hash, ledger, expiresLedger, some publisher⟩ := by
  unfold upsertWithPublisher at h
  simp only [returns_bind, requireBytes32_returns, invoke_returns] at h
  obtain ⟨hash, w₁, ⟨hbytes, rfl⟩, publisher, w₂, ⟨hpub, rfl⟩, env, rest, s, -, hexec, rfl⟩ := h
  exact ⟨hash, publisher, env.sequence, hbytes, hpub, (AttestationRegistry.exec_ok hexec).2.2.1 ⟨contractId⟩ rfl⟩

theorem emit_returns {m : Metric} {u : Unit} :
    Returns (emit m) w u w' ↔ w' = { w with metrics := w.metrics ++ [m] } := by
  show emit m w = .ok u w' ↔ _
  unfold emit
  simp [@eq_comm _ w']

theorem definedHash_returns {hash : Option String} {s : String} :
    Returns (definedHash hash) w s w' ↔ hash = some s ∧ w' = w := by
  unfold definedHash
  cases hash with
  | none => simp [returns_throw]
  | some t => simp [returns_pure, @eq_comm _ t]

/-- What the second write leaves: the rebuilt hash, and the publisher when there is one. -/
theorem writeAttributed_returns {outputHash publisher : Option String} {expiresLedger : ℕ} {u : Unit}
    (h : Returns (writeAttributed contractId outputHash publisher expiresLedger) w u w') :
    ∃ hex hash ledger, outputHash = some hex ∧ bytes32 hex = some hash ∧
      w'.registry.attestation ⟨contractId⟩ = some ⟨hash, ledger, expiresLedger, publisher.bind bytes32⟩ ∧
      ((publisher.bind bytes32).isSome ↔ publisher.isSome) := by
  cases publisher with
  | none =>
    simp only [writeAttributed, returns_bind, definedHash_returns] at h
    obtain ⟨hex, w₁, ⟨hout, rfl⟩, h⟩ := h
    obtain ⟨hash, ledger, hbytes, hrec⟩ := upsert_returns h
    exact ⟨hex, hash, ledger, hout, hbytes, hrec, Iff.rfl⟩
  | some publisher =>
    simp only [writeAttributed, returns_bind, definedHash_returns] at h
    obtain ⟨hex, w₁, ⟨hout, rfl⟩, h⟩ := h
    obtain ⟨hash, publisher', ledger, hbytes, hpub, hrec⟩ := upsertWithPublisher_returns h
    refine ⟨hex, hash, ledger, hout, hbytes, ?_, ?_⟩
    · rw [hrec, Option.bind_some, hpub]
    · rw [Option.bind_some, hpub]
      exact ⟨fun _ => rfl, fun _ => rfl⟩

/-- **What a report leaves**: the record of the second write. -/
theorem mirrorOutcome_returns {P : Platform} {ttl : ℕ} {o : VerificationOutcome} {repoUrl : Option String} {hash : String}
    {u : Unit} (hv : o.status = .verified) (hhash : truthy o.attestedHash = some hash)
    (h : Returns (mirrorOutcome P ttl contractId o repoUrl) w u w') :
    ∃ hex bytes ledger expires, o.outputHash = some hex ∧ bytes32 hex = some bytes ∧
      w'.registry.attestation ⟨contractId⟩ =
        some ⟨bytes, ledger, expires, (publisherOfSource P repoUrl).bind bytes32⟩ ∧
      (((publisherOfSource P repoUrl).bind bytes32).isSome ↔ (publisherOfSource P repoUrl).isSome) := by
  unfold mirrorOutcome at h
  simp only [if_pos hv, hhash, attest, returns_bind, emit_returns] at h
  obtain ⟨now, w₁, -, u₁, w₂, -, u₂, w₃, hsecond, rfl⟩ := h
  obtain ⟨hex, bytes, ledger, hout, hbytes, hrec, hpub⟩ := writeAttributed_returns hsecond
  exact ⟨hex, bytes, ledger, now + ttl, hout, hbytes, hrec, hpub⟩

end Specs

/-! ## What the sweep keeps -/

section Sweep

variable {contractId : String} {record : Option AttestationRegistry.Attestation}

/-- The registry's record of the contract. -/
def Holds (contractId : String) (record : Option AttestationRegistry.Attestation) (w : World) : Prop :=
  w.registry.attestation ⟨contractId⟩ = record

theorem keeps_read {α : Type} {f : AttestationRegistry.Storage → Env → α} : Keeps (Holds contractId record) (read f) := by
  intro w hw
  unfold after read
  cases w.answers with
  | nil => exact hw
  | cons a rest => cases a <;> exact hw

theorem keeps_emit {m : Metric} : Keeps (Holds contractId record) (emit m) := fun _ hw => hw

/-- A transaction leaves the registry as it is, or as the call leaves it. -/
theorem registry_after_invoke (method : String) (call : Env → AttestationRegistry.Call) (w : World) :
    ((invoke method call).after w).registry = w.registry ∨
      ∃ env, ((invoke method call).after w).registry = AttestationRegistry.step w.registry (call env) := by
  unfold after invoke
  cases w.answers with
  | nil => exact Or.inl rfl
  | cons a rest =>
    cases a with
    | failed e => exact Or.inl rfl
    | unconfirmed env e => exact Or.inr ⟨env, rfl⟩
    | ok env =>
      refine Or.inr ⟨env, ?_⟩
      unfold AttestationRegistry.step
      cases hexec : AttestationRegistry.exec w.registry (call env) with
      | ok s => simp [hexec]
      | error e => simp [hexec]

/-- A revocation of another contract. -/
theorem keeps_revoke {other : String} (hne : other ≠ contractId) : Keeps (Holds contractId record) (revoke other) := by
  intro w hw
  rcases registry_after_invoke "revoke" (fun env => .revoke env ⟨other⟩) w with hsame | ⟨env, hstep⟩
  · show ((invoke _ _).after w).registry.attestation ⟨contractId⟩ = record
    rw [hsame]
    exact hw
  · have hother : ¬ AttestationRegistry.Writes ⟨contractId⟩ w.registry (.revoke env ⟨other⟩) := by
      intro hwrites
      have htarget : some (Address.mk other) = some ⟨contractId⟩ := hwrites.1
      exact hne (by simpa using htarget)
    show ((invoke _ _).after w).registry.attestation ⟨contractId⟩ = record
    rw [hstep, AttestationRegistry.step_keep hother]
    exact hw

theorem keeps_sweepEntry {resolver : ContractArtifactResolver} {entry : WatchEntry}
    (h : entry.contractId = contractId → resolver.resolveDeployedHash contractId = .ok entry.outputHash) :
    Keeps (Holds contractId record) (sweepEntry resolver entry) := by
  refine Keeps.bind keeps_read fun attested => ?_
  by_cases hid : entry.contractId = contractId
  · have hlive : liveHash resolver entry.contractId = some (some entry.outputHash) := by
      unfold liveHash
      rw [hid, h hid]
    cases attested with
    | false => exact keeps_pure
    | true =>
      simp only [if_true, hlive]
      rw [if_neg fun hne => hne rfl]
      exact keeps_pure
  · cases (if attested then liveHash resolver entry.contractId else none) with
    | none => exact keeps_pure
    | some live =>
      simp only
      split_ifs
      · exact Keeps.bind (keeps_revoke hid) fun _ => Keeps.bind keeps_emit fun _ => keeps_pure
      · exact keeps_pure

/-- **The sweep keeps what is live**: if the watch list has the live hash of the contract, no sweep touches the
contract's record, whatever the network does. -/
theorem keeps_runUpgradeSweep {resolver : ContractArtifactResolver} {watch : List WatchEntry}
    (h : ∀ entry ∈ watch, entry.contractId = contractId →
      resolver.resolveDeployedHash contractId = .ok entry.outputHash) :
    Keeps (Holds contractId record) (runUpgradeSweep (.ok watch) resolver) := by
  show Keeps (Holds contractId record) (sweepLoop resolver watch)
  induction watch with
  | nil => exact keeps_pure
  | cons entry rest ih =>
    have hentry : Keeps (Holds contractId record) (sweepEntry resolver entry) := keeps_sweepEntry (h entry (by simp))
    refine Keeps.bind (hentry.attempt fun _ => Keeps.bind keeps_emit fun _ => keeps_pure) fun n => ?_
    exact Keeps.bind (ih fun e he => h e (List.mem_cons_of_mem _ he)) fun m => keeps_pure

end Sweep

end Vellar.Worker.Attestor
