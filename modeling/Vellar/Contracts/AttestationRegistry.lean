import Vellar.Soroban.Host

/-!
# Vellar.Contracts.AttestationRegistry — the attestation registry

`contracts/attestation-registry/src/lib.rs`: attestor-only writes of one record per contract, and the reads
other contracts make.  Then its runs: calls by anyone, failed ones rolled back.  `LastWrite` names the last
successful write for a contract, and `attestation_some_iff` says the registry is last-write-wins: the stored
record is the one that write left, under the attestor and the expiry bounds of its own ledger.
-/

set_option autoImplicit false

namespace Vellar.AttestationRegistry

open Checked Soroban Machine

inductive RegistryError where
  | invalidExpiry
  | notInitialized
deriving DecidableEq, Repr

def MAX_ATTESTATION_LEDGERS : ℕ := 60 * 60 * 24 * 365 / 5

structure Attestation where
  wasmHash : BytesN 32
  attestedLedger : ℕ
  expiresLedger : ℕ
  publisher : Option (BytesN 32)
deriving DecidableEq

structure Storage where
  attestor : Option Address
  attestation : Address → Option Attestation

/-! ## The contract -/

/-- `__constructor`. -/
def constructor (attestor : Address) : Storage := ⟨some attestor, fun _ => none⟩

/-- `load_attestor`. -/
def loadAttestor (s : Storage) : Except (Trap RegistryError) Address := orPanic s.attestor .notInitialized

/-- `write_attestation`. -/
def writeAttestation (env : Env) (s : Storage) (contract : Address) (wasmHash : BytesN 32)
    (expiresLedger : ℕ) (publisher : Option (BytesN 32)) : Except (Trap RegistryError) Storage := do
  let attestor ← loadAttestor s
  env.requireAuth attestor
  let now := env.sequence
  require (¬ (expiresLedger ≤ now ∨ expiresLedger - now > MAX_ATTESTATION_LEDGERS)) .invalidExpiry
  pure { s with
    attestation := Function.update s.attestation contract (some ⟨wasmHash, now, expiresLedger, publisher⟩) }

def upsert (env : Env) (s : Storage) (contract : Address) (wasmHash : BytesN 32) (expiresLedger : ℕ) :
    Except (Trap RegistryError) Storage :=
  writeAttestation env s contract wasmHash expiresLedger none

def upsertWithPublisher (env : Env) (s : Storage) (contract : Address) (wasmHash publisher : BytesN 32)
    (expiresLedger : ℕ) : Except (Trap RegistryError) Storage :=
  writeAttestation env s contract wasmHash expiresLedger (some publisher)

def revoke (env : Env) (s : Storage) (contract : Address) : Except (Trap RegistryError) Storage := do
  let attestor ← loadAttestor s
  env.requireAuth attestor
  pure { s with attestation := Function.update s.attestation contract none }

def setAttestor (env : Env) (s : Storage) (newAttestor : Address) :
    Except (Trap RegistryError) Storage := do
  let attestor ← loadAttestor s
  env.requireAuth attestor
  pure { s with attestor := some newAttestor }

def isVerified (env : Env) (s : Storage) (contract : Address) : Bool :=
  match s.attestation contract with
  | some attestation => env.sequence < attestation.expiresLedger
  | none => false

def publisherOf (env : Env) (s : Storage) (contract : Address) : Option (BytesN 32) :=
  match s.attestation contract with
  | some attestation => if env.sequence < attestation.expiresLedger then attestation.publisher else none
  | none => none

/-! ## One spec for each function -/

section Specs

variable {env : Env} {s s' : Storage} {contract : Address} {wasmHash : BytesN 32} {expiresLedger : ℕ}
  {publisher : Option (BytesN 32)}

/-- The write is authorized by the attestor now stored. -/
def Authorized (env : Env) (s : Storage) : Prop := ∃ attestor, s.attestor = some attestor ∧ attestor ∈ env.auths

/-- The expiry bounds of a write made at ledger `now`. -/
def ValidExpiry (now expiresLedger : ℕ) : Prop :=
  now < expiresLedger ∧ expiresLedger ≤ now + MAX_ATTESTATION_LEDGERS

theorem authorize_bind_ok {α : Type} {k : Except (Trap RegistryError) α} {a : α} :
    (loadAttestor s >>= fun attestor => env.requireAuth attestor >>= fun _ => k) = .ok a ↔
      Authorized env s ∧ k = .ok a := by
  unfold loadAttestor Authorized
  simp only [bind_ok, orPanic_ok, requireAuth_ok, exists_const]
  constructor
  · rintro ⟨attestor, h1, h2, h3⟩
    exact ⟨⟨attestor, h1, h2⟩, h3⟩
  · rintro ⟨⟨attestor, h1, h2⟩, h3⟩
    exact ⟨attestor, h1, h2, h3⟩

theorem writeAttestation_ok :
    writeAttestation env s contract wasmHash expiresLedger publisher = .ok s' ↔
      Authorized env s ∧ ValidExpiry env.sequence expiresLedger ∧
      s' = { s with attestation :=
        Function.update s.attestation contract (some ⟨wasmHash, env.sequence, expiresLedger, publisher⟩) } := by
  unfold writeAttestation
  rw [authorize_bind_ok]
  simp only [check_bind_ok, require_ok, pure_ok, @eq_comm _ _ s']
  refine and_congr_right fun _ => and_congr_left fun _ => ?_
  unfold ValidExpiry
  omega

theorem revoke_ok :
    revoke env s contract = .ok s' ↔
      Authorized env s ∧ s' = { s with attestation := Function.update s.attestation contract none } := by
  unfold revoke
  rw [authorize_bind_ok, pure_ok, @eq_comm _ _ s']

theorem setAttestor_ok {newAttestor : Address} :
    setAttestor env s newAttestor = .ok s' ↔ Authorized env s ∧ s' = { s with attestor := some newAttestor } := by
  unfold setAttestor
  rw [authorize_bind_ok, pure_ok, @eq_comm _ _ s']

theorem isVerified_iff :
    isVerified env s contract = true ↔ ∃ a, s.attestation contract = some a ∧ env.sequence < a.expiresLedger := by
  unfold isVerified
  cases s.attestation contract <;> simp

theorem publisherOf_some {p : BytesN 32} :
    publisherOf env s contract = some p ↔
      ∃ a, s.attestation contract = some a ∧ env.sequence < a.expiresLedger ∧ a.publisher = some p := by
  unfold publisherOf
  cases s.attestation contract <;> simp

end Specs

/-! ## Runs -/

/-- A call of a mutating function. -/
inductive Call where
  | upsert (env : Env) (contract : Address) (wasmHash : BytesN 32) (expiresLedger : ℕ)
  | upsertWithPublisher (env : Env) (contract : Address) (wasmHash publisher : BytesN 32) (expiresLedger : ℕ)
  | revoke (env : Env) (contract : Address)
  | setAttestor (env : Env) (newAttestor : Address)

def Call.env : Call → Env
  | .upsert env _ _ _ => env
  | .upsertWithPublisher env _ _ _ _ => env
  | .revoke env _ => env
  | .setAttestor env _ => env

/-- The contract whose record the call writes. -/
def Call.target : Call → Option Address
  | .upsert _ contract _ _ => some contract
  | .upsertWithPublisher _ contract _ _ _ => some contract
  | .revoke _ contract => some contract
  | .setAttestor _ _ => none

/-- The record an upsert of either kind writes; none for the other calls. -/
def Call.record : Call → Option Attestation
  | .upsert env _ wasmHash expiresLedger => some ⟨wasmHash, env.sequence, expiresLedger, none⟩
  | .upsertWithPublisher env _ wasmHash publisher expiresLedger =>
    some ⟨wasmHash, env.sequence, expiresLedger, some publisher⟩
  | .revoke _ _ => none
  | .setAttestor _ _ => none

def exec (s : Storage) : Call → Except (Trap RegistryError) Storage
  | .upsert env contract wasmHash expiresLedger =>
    Vellar.AttestationRegistry.upsert env s contract wasmHash expiresLedger
  | .upsertWithPublisher env contract wasmHash publisher expiresLedger =>
    Vellar.AttestationRegistry.upsertWithPublisher env s contract wasmHash publisher expiresLedger
  | .revoke env contract => Vellar.AttestationRegistry.revoke env s contract
  | .setAttestor env newAttestor => Vellar.AttestationRegistry.setAttestor env s newAttestor

/-- One call: a failed one leaves the storage alone. -/
def step (s : Storage) (c : Call) : Storage := commit s (exec s c)

/-- The call succeeds and writes the record of `contract`. -/
def Writes (contract : Address) (s : Storage) (c : Call) : Prop :=
  c.target = some contract ∧ ∃ s', exec s c = .ok s'

/-- What a successful call does to the records. -/
theorem exec_ok {s s' : Storage} {c : Call} (h : exec s c = .ok s') :
    Authorized c.env s ∧ (∀ a, c.record = some a → ValidExpiry c.env.sequence a.expiresLedger) ∧
      (∀ contract, c.target = some contract → s'.attestation contract = c.record) ∧
      ∀ contract, c.target ≠ some contract → s'.attestation contract = s.attestation contract := by
  cases c with
  | upsert env contract wasmHash expiresLedger =>
    obtain ⟨h1, h2, rfl⟩ := writeAttestation_ok.mp h
    refine ⟨h1, fun a ha => Option.some.inj ha ▸ h2, fun c hc => ?_, fun c hc => ?_⟩
    · obtain rfl := Option.some.inj hc
      exact Function.update_self ..
    · exact Function.update_of_ne (fun heq => hc (congrArg some heq.symm)) ..
  | upsertWithPublisher env contract wasmHash publisher expiresLedger =>
    obtain ⟨h1, h2, rfl⟩ := writeAttestation_ok.mp h
    refine ⟨h1, fun a ha => Option.some.inj ha ▸ h2, fun c hc => ?_, fun c hc => ?_⟩
    · obtain rfl := Option.some.inj hc
      exact Function.update_self ..
    · exact Function.update_of_ne (fun heq => hc (congrArg some heq.symm)) ..
  | revoke env contract =>
    obtain ⟨h1, rfl⟩ := revoke_ok.mp h
    refine ⟨h1, fun a ha => absurd ha (by simp [Call.record]), fun c hc => ?_, fun c hc => ?_⟩
    · obtain rfl := Option.some.inj hc
      exact Function.update_self ..
    · exact Function.update_of_ne (fun heq => hc (congrArg some heq.symm)) ..
  | setAttestor env newAttestor =>
    obtain ⟨h1, rfl⟩ := setAttestor_ok.mp h
    exact ⟨h1, fun a ha => absurd ha (by simp [Call.record]), fun c hc => absurd hc (by simp [Call.target]),
      fun _ _ => rfl⟩

/-- Only a successful write for a contract changes its record. -/
theorem step_keep {contract : Address} {s : Storage} {c : Call} (h : ¬ Writes contract s c) :
    (step s c).attestation contract = s.attestation contract := by
  unfold step
  cases hc : exec s c with
  | error e => rfl
  | ok s' => exact (exec_ok hc).2.2.2 contract fun ht => h ⟨ht, s', hc⟩

/-- A successful write leaves its own record. -/
theorem step_write {contract : Address} {s : Storage} {c : Call} (h : Writes contract s c) :
    (step s c).attestation contract = c.record := by
  obtain ⟨ht, s', hc⟩ := h
  unfold step
  rw [hc]
  exact (exec_ok hc).2.2.1 contract ht

/-- The last successful write for `contract` in the run is `w`, made at `s`. -/
def LastWrite (s₀ : Storage) (calls : List Call) (contract : Address) (s : Storage) (w : Call) : Prop :=
  ∃ pre post, calls = pre ++ w :: post ∧ s = run step s₀ pre ∧ Writes contract s w ∧
    Along step (fun s c => ¬ Writes contract s c) (step s w) post

/-- **Last write wins**: the stored record is the one the last successful write left, and that write was an
upsert authorized by the attestor of its moment, its expiry within bounds. -/
theorem attestation_some_iff {attestor : Address} {calls : List Call} {contract : Address} {a : Attestation} :
    (run step (constructor attestor) calls).attestation contract = some a ↔
      ∃ s w, LastWrite (constructor attestor) calls contract s w ∧ w.record = some a ∧
        Authorized w.env s ∧ ValidExpiry w.env.sequence a.expiresLedger := by
  constructor
  · intro h
    have hne : (run step (constructor attestor) calls).attestation contract ≠
        (constructor attestor).attestation contract := by
      rw [h]
      exact Option.some_ne_none a
    obtain ⟨pre, w, post, rfl, hw, hv, hpost⟩ := last_event (v := fun s => s.attestation contract)
      (E := Writes contract) (fun _ _ hE => step_keep hE) hne
    have hrec : w.record = some a := (step_write hw).symm.trans (hv.symm.trans h)
    obtain ⟨-, s', hs'⟩ := id hw
    obtain ⟨hauth, hexp, -, -⟩ := exec_ok hs'
    exact ⟨_, w, ⟨pre, post, rfl, rfl, hw, hpost⟩, hrec, hauth, hexp a hrec⟩
  · rintro ⟨s, w, ⟨pre, post, rfl, rfl, hw, hpost⟩, hrec, -, -⟩
    rw [run_append, run_cons]
    exact (keep_run (v := fun s => s.attestation contract) (E := Writes contract)
      (fun _ _ hE => step_keep hE) hpost).trans ((step_write hw).trans hrec)

end Vellar.AttestationRegistry
