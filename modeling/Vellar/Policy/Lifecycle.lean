import Vellar.Policy.DeployRoutes
import Vellar.Policy.VerifyAttach

/-!
# Vellar.Policy.Lifecycle — the status of a policy record

`deployPolicyInstance`, `reconcileOrphanedDeployment` and `verifyAndRecordAttach`
(`services/policy-service/src/deployment.ts`) on one record, called one after the other.  `lifecycle_iff`: the status only
advances, and is honest, exactly when no call takes a deployed record back and no attach names a contract of its own.
-/

set_option autoImplicit false

namespace Vellar.Policy

open Machine ServiceKit

/-! ## Records -/

/-- The `deployment` of a record. -/
structure PolicyDeployment where
  contractId : Option String
  txHash : String
  deployedAt : String

structure AttachedRecord extends PolicyRecord where
  deployment : Option PolicyDeployment

structure OrphanedDeployment where
  contractId : String
  txHash : String
  wallet : String

structure LifecycleDeps extends DeploymentDeps where
  /-- Whether there is one. -/
  verifyAttach : Bool
  network : Option BudgetNetwork
  networkPassphrase : Option String
  /-- `TransactionBuilder.fromXDR`. -/
  fromXDR : String → String → Except String (List Operation)

inductive DeploymentError where
  | error (message : String)
  | policyDeploy (code : String)
  | deploymentCommit (message contractId txHash wallet : String)
  | attach (e : AttachError)

/-- What `update` comes to; a `lost` one is written and throws. -/
inductive Update where
  | written
  | failed (message : String)
  | lost (message : String)

/-- What the parties of a call answer, where it asks them. -/
structure Answers where
  now : String
  /-- `find` throws. -/
  findError : Option String
  budget : SpendBudget.Answer
  deployInstance : Except DeploymentError (String × String)
  lookup : TxAnswer
  update : Update

/-- The stored record after `update(updated)`, and the error it throws.  A `Map` holds the object that was changed. -/
def Repository.save (repository : Repository) (update : Update) (stored updated : AttachedRecord) :
    AttachedRecord × Option String :=
  match repository, update with
  | .memory, _ => (updated, none)
  | .postgres, .written => (updated, none)
  | .postgres, .failed message => (stored, some message)
  | .postgres, .lost message => (updated, some message)

/-! ## The calls -/

section Calls

variable (deps : LifecycleDeps) (answers : Answers) (record : AttachedRecord)

/-- The budget lets the deploy pass. -/
def budgetAllows : Bool :=
  match deps.meter with
  | some _ => answers.budget = .ok
  | none => true

def AttachedRecord.provisioned (wallet contractId txHash : String) : AttachedRecord :=
  { record with status := .instanceDeployed, policyInstance := some ⟨contractId, wallet, txHash, answers.now⟩ }

/-- `deployPolicyInstance`, and the stored record. -/
def deployPolicyInstance (wallet : String) : Except DeploymentError (AttachedRecord × String) × AttachedRecord :=
  match record.manifest.enforcement with
  | .policyContract _ (some _) =>
    if budgetAllows deps answers then
      match answers.deployInstance with
      | .ok (contractId, txHash) =>
        let updated := record.provisioned answers wallet contractId txHash
        match deps.repository.save answers.update record updated with
        | (stored, none) => (.ok (updated, contractId), stored)
        | (stored, some message) =>
          (.error (.deploymentCommit ("On-chain deployment succeeded (contract: " ++ contractId ++ ", tx: " ++ txHash ++
            "), but local record commit failed: " ++ message) contractId txHash wallet), stored)
      | .error e => (.error e, record)
    else (.error (.error "deploy_budget_exceeded"), record)
  | _ => (.error (.error "Policy is not contract-enforced"), record)

/-- The contract of the record's instance or of its deployment. -/
def AttachedRecord.shows (contractId : String) : Bool :=
  record.instanceId = some contractId || record.deployment.bind (·.contractId) = some contractId

/-- The orphan is already recorded. -/
def AttachedRecord.holds (contractId : String) : Bool :=
  (record.status = .instanceDeployed || record.status = .deployed) && record.shows contractId

def AttachedRecord.backfilled (orphaned : OrphanedDeployment) : AttachedRecord :=
  { record with
    status := .instanceDeployed
    policyInstance := some
      { contractId := orphaned.contractId
        wallet := orphaned.wallet
        txHash := orphaned.txHash
        deployedAt := (record.policyInstance.map (·.deployedAt)).getD answers.now } }

/-- `reconcileOrphanedDeployment`, and the stored record; other policies are left out. -/
def reconcileOrphanedDeployment (policyId : String) (orphaned : OrphanedDeployment) :
    Except DeploymentError (AttachedRecord × Bool) × AttachedRecord :=
  match deps.repository, answers.findError with
  | .postgres, some message => (.error (.error message), record)
  | _, _ =>
    if policyId = record.id then
      if record.holds orphaned.contractId then (.ok (record, false), record)
      else
        let updated := record.backfilled answers orphaned
        match deps.repository.save answers.update record updated with
        | (stored, none) => (.ok (updated, true), stored)
        | (stored, some message) => (.error (.error message), stored)
    else (.error (.error ("Policy record not found: " ++ policyId)), record)

/-- What is verified of an attach. -/
def AttachedRecord.attachTarget (i : PolicyInstance) (txHash : String) : AttachTarget :=
  ⟨txHash, deps.network.getD .testnet, i.wallet, i.contractId⟩

/-- The verification, when there is one; none while it is awaited. -/
def verification (txHash : String) : Option (Except DeploymentError (Option AttachTarget)) :=
  if deps.verifyAttach then
    match record.policyInstance with
    | none => some (.error (.error "no_instance"))
    | some i =>
      let target := AttachedRecord.attachTarget deps i txHash
      (verifyAttachTx deps.fromXDR answers.lookup target ⟨some (deps.networkPassphrase.getD TESTNET_PASSPHRASE), none⟩).map
        fun r => (r.mapError .attach).map fun _ => some target
  else some (.ok none)

def AttachedRecord.attached (txHash : String) (contractId : Option String) : AttachedRecord :=
  { record with status := .deployed, deployment := some ⟨contractId, txHash, answers.now⟩ }

/-- `verifyAndRecordAttach`, and the stored record. -/
def verifyAndRecordAttach (txHash : String) (contractId : Option String) :
    Option (Except DeploymentError AttachedRecord) × AttachedRecord :=
  match verification deps answers record txHash with
  | none => (none, record)
  | some (.error e) => (some (.error e), record)
  | some (.ok _) =>
    let updated := record.attached answers txHash contractId
    match deps.repository.save answers.update record updated with
    | (stored, none) => (some (.ok updated), stored)
    | (stored, some message) => (some (.error (.error message)), stored)

end Calls

/-! ## Sequences of calls -/

inductive Call where
  | deployPolicyInstance (wallet : String)
  | reconcileOrphanedDeployment (policyId : String) (orphaned : OrphanedDeployment)
  | verifyAndRecordAttach (txHash : String) (contractId : Option String)

structure Lifecycle where
  record : AttachedRecord
  /-- The attaches verified so far. -/
  verified : List AttachTarget
  /-- The orphans of the reconciliations that returned. -/
  reconciled : List OrphanedDeployment

/-- `POST /policies/generate` inserts it. -/
def generatedRecord (p : GeneratedPolicy) (id createdAt : String) : AttachedRecord :=
  { p with id := id, createdAt := createdAt, status := .generated, policyInstance := none, deployment := none }

section Runs

variable (deps : LifecycleDeps)

def lifecycleStep (s : Lifecycle) : Call × Answers → Lifecycle
  | (.deployPolicyInstance wallet, answers) => { s with record := (deployPolicyInstance deps answers s.record wallet).2 }
  | (.reconcileOrphanedDeployment policyId orphaned, answers) =>
    match reconcileOrphanedDeployment deps answers s.record policyId orphaned with
    | (.ok _, stored) => { s with record := stored, reconciled := s.reconciled ++ [orphaned] }
    | (.error _, stored) => { s with record := stored }
  | (.verifyAndRecordAttach txHash contractId, answers) =>
    { s with
      record := (verifyAndRecordAttach deps answers s.record txHash contractId).2
      verified := match verification deps answers s.record txHash with
        | some (.ok (some target)) => s.verified ++ [target]
        | _ => s.verified }

/-- The state after calls on a record that was just generated. -/
def lifecycleAfter (p : GeneratedPolicy) (id createdAt : String) (calls : List (Call × Answers)) : Lifecycle :=
  run (lifecycleStep deps) ⟨generatedRecord p id createdAt, [], []⟩ calls

/-- A status stays or is the next one. -/
def PolicyStatus.Advances (status status' : PolicyStatus) : Prop :=
  status' = status ∨ (status = .generated ∧ status' = .instanceDeployed) ∨
    (status = .instanceDeployed ∧ status' = .deployed)

/-- Deployed is what was verified for the wallet and the contract of the instance, and names no other contract. -/
def Honest (s : Lifecycle) : Prop :=
  s.record.status = .deployed → ∃ i, s.record.policyInstance = some i ∧
    (∃ target ∈ s.verified, target.wallet = i.wallet ∧ target.policyContractId = i.contractId) ∧
    ∀ contractId, s.record.deployment.bind (·.contractId) = some contractId → contractId = i.contractId

structure LifecycleHeld (p : GeneratedPolicy) (id createdAt : String) (calls : List (Call × Answers)) : Prop where
  monotone : ∀ pre call post, calls = pre ++ call :: post →
    (lifecycleAfter deps p id createdAt pre).record.status.Advances
      (lifecycleAfter deps p id createdAt (pre ++ [call])).record.status
  honest : ∀ pre, pre <+: calls → Honest (lifecycleAfter deps p id createdAt pre)
  idempotent : ∀ pre policyId orphaned answers post,
    calls = pre ++ (.reconcileOrphanedDeployment policyId orphaned, answers) :: post →
    orphaned ∈ (lifecycleAfter deps p id createdAt pre).reconciled →
      (lifecycleAfter deps p id createdAt (pre ++ [(.reconcileOrphanedDeployment policyId orphaned, answers)])).record =
        (lifecycleAfter deps p id createdAt pre).record

/-- An update is stored. -/
def Stores (answers : Answers) : Prop := deps.repository = .memory ∨ ∀ message, answers.update ≠ .failed message

/-- The condition on a call, at the state it starts from: no deploy is stored over a deployed record; an orphan stored over
a deployed record, or for the second time, is one the record shows; and a verified attach that is stored names no contract
or the instance's. -/
def AdvancesOnly (s : Lifecycle) : Call × Answers → Prop
  | (.deployPolicyInstance _, answers) =>
    s.record.status = .deployed → (∃ hash args, s.record.manifest.enforcement = .policyContract hash (some args)) →
      budgetAllows deps answers = true → (∃ r, answers.deployInstance = .ok r) → ¬ Stores deps answers
  | (.reconcileOrphanedDeployment policyId orphaned, answers) =>
    s.record.status = .deployed ∨ orphaned ∈ s.reconciled → policyId = s.record.id →
      (deps.repository = .memory ∨ answers.findError = none) → Stores deps answers →
      s.record.shows orphaned.contractId = true
  | (.verifyAndRecordAttach txHash contractId, answers) =>
    (∃ target, verification deps answers s.record txHash = some (.ok target)) → Stores deps answers →
      contractId = none ∨ contractId = s.record.instanceId

end Runs

/-! ## What a call can do -/

section Steps

variable {deps : LifecycleDeps} {answers : Answers} {s : Lifecycle}

theorem save_of_stores (h : Stores deps answers) (stored updated : AttachedRecord) :
    (deps.repository.save answers.update stored updated).1 = updated := by
  cases hrepository : deps.repository with
  | memory => rfl
  | postgres =>
    have hupdate := h.resolve_left (by rw [hrepository]; decide)
    cases hu : answers.update with
    | written | lost => rfl
    | failed message => exact absurd hu (hupdate message)

theorem save_of_not_stores (h : ¬ Stores deps answers) (stored updated : AttachedRecord) :
    ∃ message, deps.repository.save answers.update stored updated = (stored, some message) := by
  rw [Stores, not_or, not_forall] at h
  obtain ⟨hrepository, message, hupdate⟩ := h
  have hpostgres : deps.repository = .postgres := by
    cases hr : deps.repository with
    | memory => exact absurd hr hrepository
    | postgres => rfl
  rw [hpostgres, not_not.mp hupdate]
  exact ⟨message, rfl⟩

/-- A deploy is made and stored. -/
def Provisions (deps : LifecycleDeps) (answers : Answers) (record : AttachedRecord) : Prop :=
  (∃ hash args, record.manifest.enforcement = .policyContract hash (some args)) ∧ budgetAllows deps answers = true ∧
    (∃ r, answers.deployInstance = .ok r) ∧ Stores deps answers

theorem deploy_of_provisions {record : AttachedRecord} (h : Provisions deps answers record) (wallet : String) :
    ∃ contractId txHash,
      (deployPolicyInstance deps answers record wallet).2 = record.provisioned answers wallet contractId txHash := by
  obtain ⟨⟨hash, args, henforcement⟩, hbudget, ⟨⟨contractId, txHash⟩, hdeploy⟩, hstores⟩ := h
  refine ⟨contractId, txHash, ?_⟩
  have hsave := save_of_stores hstores record (record.provisioned answers wallet contractId txHash)
  simp only [deployPolicyInstance, henforcement, hbudget, hdeploy, if_true]
  split
  all_goals
    rename_i heq
    rw [heq] at hsave
    exact hsave

theorem deploy_of_not_provisions {record : AttachedRecord} (h : ¬ Provisions deps answers record) (wallet : String) :
    (deployPolicyInstance deps answers record wallet).2 = record := by
  unfold deployPolicyInstance
  split
  · rename_i hash args henforcement
    by_cases hbudget : budgetAllows deps answers = true
    · rw [if_pos hbudget]
      split
      · rename_i contractId txHash hdeploy
        have hstores : ¬ Stores deps answers := fun hstores =>
          h ⟨⟨hash, args, henforcement⟩, hbudget, ⟨_, hdeploy⟩, hstores⟩
        obtain ⟨message, hsave⟩ :=
          save_of_not_stores hstores record (record.provisioned answers wallet contractId txHash)
        simp only [hsave]
      · rfl
    · rw [if_neg hbudget]
  · rfl

/-- An orphan is stored. -/
def Backfills (deps : LifecycleDeps) (answers : Answers) (record : AttachedRecord) (policyId : String)
    (orphaned : OrphanedDeployment) : Prop :=
  policyId = record.id ∧ (deps.repository = .memory ∨ answers.findError = none) ∧
    ¬ (record.status ≠ .generated ∧ record.shows orphaned.contractId = true) ∧ Stores deps answers

theorem holds_iff {record : AttachedRecord} {contractId : String} :
    record.holds contractId = true ↔ record.status ≠ .generated ∧ record.shows contractId = true := by
  unfold AttachedRecord.holds
  cases record.status <;> simp

theorem reconcile_of_backfills {record : AttachedRecord} {policyId : String} {orphaned : OrphanedDeployment}
    (h : Backfills deps answers record policyId orphaned) :
    (reconcileOrphanedDeployment deps answers record policyId orphaned).2 = record.backfilled answers orphaned := by
  obtain ⟨hid, hfind, hnew, hstores⟩ := h
  have hsave := save_of_stores hstores record (record.backfilled answers orphaned)
  unfold reconcileOrphanedDeployment
  split
  · rename_i message hrepository herror
    rcases hfind with hfind | hfind
    · rw [hrepository] at hfind
      cases hfind
    · rw [herror] at hfind
      cases hfind
  · rw [if_pos hid, if_neg (mt holds_iff.mp hnew)]
    dsimp only
    split
    all_goals
      rename_i heq
      rw [heq] at hsave
      exact hsave

/-- Otherwise the record stays, and a call that returns found the orphan on it. -/
theorem reconcile_of_not_backfills {record : AttachedRecord} {policyId : String} {orphaned : OrphanedDeployment}
    (h : ¬ Backfills deps answers record policyId orphaned) :
    (reconcileOrphanedDeployment deps answers record policyId orphaned).2 = record ∧
      ∀ r, (reconcileOrphanedDeployment deps answers record policyId orphaned).1 = .ok r → record.status ≠ .generated := by
  unfold reconcileOrphanedDeployment
  split
  · exact ⟨rfl, fun r hr => by cases hr⟩
  · rename_i hfind
    have hfound : deps.repository = .memory ∨ answers.findError = none := by
      cases hrepository : deps.repository with
      | memory => exact .inl rfl
      | postgres =>
        cases herror : answers.findError with
        | none => exact .inr rfl
        | some message => exact absurd herror (hfind message hrepository)
    by_cases hid : policyId = record.id
    · by_cases hshown : record.status ≠ .generated ∧ record.shows orphaned.contractId = true
      · rw [if_pos hid, if_pos (holds_iff.mpr hshown)]
        exact ⟨rfl, fun _ _ => hshown.1⟩
      · have hstores : ¬ Stores deps answers := fun hstores => h ⟨hid, hfound, hshown, hstores⟩
        obtain ⟨message, hsave⟩ := save_of_not_stores hstores record (record.backfilled answers orphaned)
        rw [if_pos hid, if_neg (mt holds_iff.mp hshown)]
        dsimp only
        rw [hsave]
        exact ⟨rfl, fun r hr => by cases hr⟩
    · rw [if_neg hid]
      exact ⟨rfl, fun r hr => by cases hr⟩

/-- An attach that was verified is stored. -/
def Attaches (deps : LifecycleDeps) (answers : Answers) (record : AttachedRecord) (txHash : String) : Prop :=
  (∃ target, verification deps answers record txHash = some (.ok target)) ∧ Stores deps answers

theorem attach_of_attaches {record : AttachedRecord} {txHash : String} (h : Attaches deps answers record txHash)
    (contractId : Option String) :
    (verifyAndRecordAttach deps answers record txHash contractId).2 = record.attached answers txHash contractId := by
  obtain ⟨⟨target, hverified⟩, hstores⟩ := h
  have hsave := save_of_stores hstores record (record.attached answers txHash contractId)
  simp only [verifyAndRecordAttach, hverified]
  split
  all_goals
    rename_i heq
    rw [heq] at hsave
    exact hsave

theorem attach_of_not_attaches {record : AttachedRecord} {txHash : String} (h : ¬ Attaches deps answers record txHash)
    (contractId : Option String) : (verifyAndRecordAttach deps answers record txHash contractId).2 = record := by
  unfold verifyAndRecordAttach
  split
  · rfl
  · rfl
  · rename_i target hverified
    have hstores : ¬ Stores deps answers := fun hstores => h ⟨⟨target, hverified⟩, hstores⟩
    obtain ⟨message, hsave⟩ := save_of_not_stores hstores record (record.attached answers txHash contractId)
    simp only [hsave]

/-- With verification configured, what is verified is the instance. -/
theorem verification_ok (hverify : deps.verifyAttach = true) {record : AttachedRecord} {txHash : String}
    {target : Option AttachTarget} (h : verification deps answers record txHash = some (.ok target)) :
    ∃ i t, record.policyInstance = some i ∧ target = some t ∧ t.wallet = i.wallet ∧ t.policyContractId = i.contractId := by
  unfold verification at h
  rw [if_pos hverify] at h
  split at h
  · cases h
  · rename_i i hinstance
    obtain ⟨r, -, hr⟩ := Option.map_eq_some_iff.mp h
    cases r with
    | error e => cases hr
    | ok u =>
      obtain rfl := Except.ok.inj hr
      exact ⟨i, _, hinstance, rfl, rfl, rfl⟩

/-! ## The invariant -/

/-- A generated record has no instance, and nothing was reconciled. -/
structure Lifecycle.Sound (s : Lifecycle) : Prop where
  fresh : s.record.status = .generated → s.record.policyInstance = none ∧ s.reconciled = []
  honest : Honest s

theorem deploy_sound (hs : s.Sound) {wallet : String}
    (hG : AdvancesOnly deps s (.deployPolicyInstance wallet, answers)) :
    (lifecycleStep deps s (.deployPolicyInstance wallet, answers)).Sound ∧
      s.record.status.Advances (lifecycleStep deps s (.deployPolicyInstance wallet, answers)).record.status := by
  by_cases h : Provisions deps answers s.record
  · obtain ⟨contractId, txHash, hrecord⟩ := deploy_of_provisions h wallet
    have hdeployed : s.record.status ≠ .deployed := fun hstatus => hG hstatus h.1 h.2.1 h.2.2.1 h.2.2.2
    simp only [lifecycleStep, hrecord]
    refine ⟨⟨fun hstatus => ?_, fun hstatus => ?_⟩, ?_⟩
    · cases hstatus
    · cases hstatus
    · show s.record.status.Advances .instanceDeployed
      cases hstatus : s.record.status with
      | generated => exact .inr (.inl ⟨rfl, rfl⟩)
      | instanceDeployed => exact .inl rfl
      | deployed => exact absurd hstatus hdeployed
  · have hrecord := deploy_of_not_provisions h wallet
    simp only [lifecycleStep, hrecord]
    exact ⟨hs, .inl rfl⟩

theorem backfilled_shows (record : AttachedRecord) (orphaned : OrphanedDeployment) :
    (record.backfilled answers orphaned).shows orphaned.contractId = true := by
  simp [AttachedRecord.shows, AttachedRecord.backfilled, PolicyRecord.instanceId]

variable (deps answers s) in
/-- The record after a reconciliation, the other fields of the state with it. -/
theorem reconcile_step (policyId : String) (orphaned : OrphanedDeployment) :
    (lifecycleStep deps s (.reconcileOrphanedDeployment policyId orphaned, answers)).record =
        (reconcileOrphanedDeployment deps answers s.record policyId orphaned).2 ∧
      (lifecycleStep deps s (.reconcileOrphanedDeployment policyId orphaned, answers)).verified = s.verified := by
  rcases h : reconcileOrphanedDeployment deps answers s.record policyId orphaned with ⟨r, stored⟩
  cases r <;> simp only [lifecycleStep, h, and_self]

theorem reconcile_sound (hs : s.Sound) {policyId : String} {orphaned : OrphanedDeployment}
    (hG : AdvancesOnly deps s (.reconcileOrphanedDeployment policyId orphaned, answers)) :
    let s' := lifecycleStep deps s (.reconcileOrphanedDeployment policyId orphaned, answers)
    s'.Sound ∧ s.record.status.Advances s'.record.status ∧ (orphaned ∈ s.reconciled → s'.record = s.record) := by
  obtain ⟨hrecord, hverified⟩ := reconcile_step deps answers s policyId orphaned
  by_cases h : Backfills deps answers s.record policyId orphaned
  · rw [reconcile_of_backfills h] at hrecord
    obtain ⟨hid, hfind, hnew, hstores⟩ := h
    have hshows : s.record.status = .deployed ∨ orphaned ∈ s.reconciled → s.record.shows orphaned.contractId = true :=
      fun h => hG h hid hfind hstores
    have hstatus : s.record.status ≠ .deployed := fun hstatus =>
      hnew ⟨by rw [hstatus]; decide, hshows (.inl hstatus)⟩
    refine ⟨⟨fun hgenerated => ?_, fun hdeployed => ?_⟩, ?_, fun hmem => ?_⟩
    · rw [hrecord] at hgenerated
      cases hgenerated
    · rw [hrecord] at hdeployed
      cases hdeployed
    · rw [hrecord]
      cases hs' : s.record.status with
      | generated => exact .inr (.inl ⟨rfl, rfl⟩)
      | instanceDeployed => exact .inl rfl
      | deployed => exact absurd hs' hstatus
    · have hgenerated : s.record.status ≠ .generated := fun hgenerated => by
        rw [(hs.fresh hgenerated).2] at hmem
        cases hmem
      exact absurd ⟨hgenerated, hshows (.inr hmem)⟩ hnew
  · obtain ⟨hsame, hreturned⟩ := reconcile_of_not_backfills h
    rw [hsame] at hrecord
    refine ⟨⟨fun hgenerated => ⟨?_, ?_⟩, ?_⟩, ?_, fun _ => hrecord⟩
    · rw [hrecord] at hgenerated ⊢
      exact (hs.fresh hgenerated).1
    · rw [hrecord] at hgenerated
      have hnone := (hs.fresh hgenerated).2
      rcases hr : reconcileOrphanedDeployment deps answers s.record policyId orphaned with ⟨r, stored⟩
      cases r with
      | ok r => exact absurd hgenerated (hreturned r (by rw [hr]))
      | error e => simpa only [lifecycleStep, hr] using hnone
    · unfold Honest
      rw [hrecord, hverified]
      exact hs.honest
    · rw [hrecord]
      exact .inl rfl

theorem attach_sound (hverify : deps.verifyAttach = true) (hs : s.Sound) {txHash : String} {contractId : Option String}
    (hG : AdvancesOnly deps s (.verifyAndRecordAttach txHash contractId, answers)) :
    let s' := lifecycleStep deps s (.verifyAndRecordAttach txHash contractId, answers)
    s'.Sound ∧ s.record.status.Advances s'.record.status := by
  by_cases h : Attaches deps answers s.record txHash
  · have hrecord := attach_of_attaches h contractId
    obtain ⟨⟨target, hverified⟩, hstores⟩ := h
    obtain ⟨i, t, hinstance, rfl, hwallet, hcontract⟩ := verification_ok hverify hverified
    have hnames : contractId = none ∨ contractId = s.record.instanceId := hG ⟨_, hverified⟩ hstores
    simp only [lifecycleStep, hrecord, hverified]
    refine ⟨⟨fun hstatus => ?_, fun _ => ⟨i, hinstance, ⟨t, by simp, hwallet, hcontract⟩, ?_⟩⟩, ?_⟩
    · cases hstatus
    · intro id hid
      obtain rfl : contractId = some id := hid
      have heq := hnames.resolve_left (by simp)
      simpa [PolicyRecord.instanceId, hinstance] using heq
    · show s.record.status.Advances .deployed
      cases hstatus : s.record.status with
      | generated =>
        rw [(hs.fresh hstatus).1] at hinstance
        cases hinstance
      | instanceDeployed => exact .inr (.inr ⟨rfl, rfl⟩)
      | deployed => exact .inl rfl
  · have hrecord := attach_of_not_attaches h contractId
    simp only [lifecycleStep, hrecord]
    refine ⟨⟨hs.fresh, fun hstatus => ?_⟩, .inl rfl⟩
    obtain ⟨i, hinstance, ⟨target, hmem, htarget⟩, hnames⟩ := hs.honest hstatus
    refine ⟨i, hinstance, ⟨target, ?_, htarget⟩, hnames⟩
    split
    · exact List.mem_append_left _ hmem
    · exact hmem

/-- **One call** of the condition keeps the invariant, and advances the status. -/
theorem call_sound (hverify : deps.verifyAttach = true) (hs : s.Sound) {call : Call × Answers}
    (hG : AdvancesOnly deps s call) :
    (lifecycleStep deps s call).Sound ∧ s.record.status.Advances (lifecycleStep deps s call).record.status := by
  obtain ⟨call, answers⟩ := call
  cases call with
  | deployPolicyInstance wallet => exact deploy_sound hs hG
  | reconcileOrphanedDeployment policyId orphaned =>
    obtain ⟨hsound, hadvances, -⟩ := reconcile_sound hs hG
    exact ⟨hsound, hadvances⟩
  | verifyAndRecordAttach txHash contractId => exact attach_sound hverify hs hG

/-- A call outside the condition shows. -/
theorem call_bad {call : Call × Answers}
    (hadvances : s.record.status.Advances (lifecycleStep deps s call).record.status)
    (hhonest : Honest (lifecycleStep deps s call))
    (hidempotent : ∀ policyId orphaned, call.1 = .reconcileOrphanedDeployment policyId orphaned →
      orphaned ∈ s.reconciled → (lifecycleStep deps s call).record = s.record) :
    AdvancesOnly deps s call := by
  obtain ⟨call, answers⟩ := call
  cases call with
  | deployPolicyInstance wallet =>
    intro hstatus henforcement hbudget hdeploy hstores
    obtain ⟨contractId, txHash, hrecord⟩ := deploy_of_provisions ⟨henforcement, hbudget, hdeploy, hstores⟩ wallet
    simp only [lifecycleStep, hrecord, hstatus] at hadvances
    rcases hadvances with h | ⟨h, -⟩ | ⟨h, -⟩ <;> cases h
  | reconcileOrphanedDeployment policyId orphaned =>
    intro hagain hid hfind hstores
    by_contra hshows
    have hbackfills : Backfills deps answers s.record policyId orphaned :=
      ⟨hid, hfind, fun h => hshows h.2, hstores⟩
    have hrecord := (reconcile_step deps answers s policyId orphaned).1
    rw [reconcile_of_backfills hbackfills] at hrecord
    rcases hagain with hstatus | hmem
    · rw [hrecord, hstatus] at hadvances
      rcases hadvances with h | ⟨h, -⟩ | ⟨h, -⟩ <;> cases h
    · have hsame := hidempotent policyId orphaned rfl hmem
      rw [hrecord] at hsame
      exact hshows (hsame ▸ backfilled_shows s.record orphaned)
  | verifyAndRecordAttach txHash contractId =>
    intro hverified hstores
    have hrecord := attach_of_attaches ⟨hverified, hstores⟩ contractId
    unfold Honest at hhonest
    simp only [lifecycleStep, hrecord] at hhonest
    obtain ⟨i, hinstance, -, hnames⟩ := hhonest rfl
    cases contractId with
    | none => exact .inl rfl
    | some id =>
      refine .inr ?_
      rw [hnames id rfl, PolicyRecord.instanceId]
      exact (congrArg (Option.map (·.contractId)) hinstance).symm

end Steps

/-! ## Runs -/

section Runs

variable {deps : LifecycleDeps} {p : GeneratedPolicy} {id createdAt : String}

/-- **The lifecycle is monotone and honest exactly in the runs of `AdvancesOnly`**, with verification configured. -/
theorem lifecycle_iff (hverify : deps.verifyAttach = true) {calls : List (Call × Answers)} :
    LifecycleHeld deps p id createdAt calls ↔
      Along (lifecycleStep deps) (AdvancesOnly deps) ⟨generatedRecord p id createdAt, [], []⟩ calls := by
  constructor
  · intro h
    rw [along_iff]
    rintro pre call post rfl
    have hstep : lifecycleAfter deps p id createdAt (pre ++ [call]) =
        lifecycleStep deps (lifecycleAfter deps p id createdAt pre) call := run_snoc _ _ _ _
    refine call_bad ?_ ?_ fun policyId orphaned hcall hmem => ?_
    · have hadvances := h.monotone pre call post rfl
      rwa [hstep] at hadvances
    · have hhonest := h.honest (pre ++ [call]) ⟨post, by simp⟩
      rwa [hstep] at hhonest
    · obtain ⟨call, answers⟩ := call
      obtain rfl : call = .reconcileOrphanedDeployment policyId orphaned := hcall
      have hsame := h.idempotent pre policyId orphaned answers post rfl hmem
      rwa [hstep] at hsame
  · intro h
    have hsound : ∀ pre, pre <+: calls → (lifecycleAfter deps p id createdAt pre).Sound :=
      inv_prefix (fun s call hs hG => (call_sound hverify hs hG).1)
        ⟨fun _ => ⟨rfl, rfl⟩, fun hstatus => by cases hstatus⟩ h
    rw [along_iff] at h
    refine ⟨fun pre call post hcalls => ?_, fun pre hpre => (hsound pre hpre).honest, ?_⟩
    · have hpre : pre <+: calls := ⟨call :: post, hcalls.symm⟩
      have hstep := (call_sound hverify (hsound pre hpre) (h pre call post hcalls)).2
      rwa [lifecycleAfter, lifecycleAfter, run_snoc]
    · intro pre policyId orphaned answers post hcalls hmem
      have hpre : pre <+: calls := ⟨_, hcalls.symm⟩
      have hstep := (reconcile_sound (hsound pre hpre) (h pre _ post hcalls)).2.2 hmem
      rwa [lifecycleAfter, lifecycleAfter, run_snoc]

end Runs

/-! A deploy of `CA` for the wallet and its attach, then orphans and attaches of other contracts. -/

def attachTx : List Operation :=
  [.invokeHostFunction (.invokeContract ⟨"CW"⟩ "add_signer" [.vec [.symbol "Policy", .address ⟨"CA"⟩, .void]])]

def verifyingDeps : LifecycleDeps where
  repository := .memory
  deployer := true
  budget := false
  budgetNetwork := none
  verifyAttach := true
  network := some .testnet
  networkPassphrase := none
  fromXDR _ _ := .ok attachTx

def attachAnswers : Answers where
  now := "2026-08-29T12:00:00.000Z"
  findError := none
  budget := .ok
  deployInstance := .ok ("CA", "deploytx")
  lookup := .result ⟨.success, some "AAAA"⟩
  update := .written

def deployThenAttach (contractId : Option String) : List (Call × Answers) :=
  [(.deployPolicyInstance "CW", attachAnswers), (.verifyAndRecordAttach "attachtx" contractId, attachAnswers)]

def orphan (contractId : String) : Call × Answers :=
  (.reconcileOrphanedDeployment "p1" ⟨contractId, "orphantx", "CW"⟩, attachAnswers)

def recordsAfter (calls : List (Call × Answers)) : Lifecycle :=
  lifecycleAfter verifyingDeps spendingRecord.toGeneratedPolicy "p1" "2026-07-17T00:00:00.000Z" calls

theorem lifecycle_iff_attached :
    LifecycleHeld verifyingDeps spendingRecord.toGeneratedPolicy "p1" "2026-07-17T00:00:00.000Z"
      (deployThenAttach (some "CA") ++ [orphan "CA"]) := by
  refine (lifecycle_iff rfl).mpr ?_
  simp only [deployThenAttach, List.cons_append, List.nil_append, Along, and_true]
  refine ⟨fun h => ?_, fun _ _ => ?_, fun _ _ _ _ => ?_⟩
  · cases h
  · right
    decide
  · decide

/-- A deployed record is taken back by an orphan of another contract; an attach names a contract of its own; and an orphan
that was reconciled changes the record again. -/
theorem lifecycle_not_held :
    (¬ LifecycleHeld verifyingDeps spendingRecord.toGeneratedPolicy "p1" "2026-07-17T00:00:00.000Z"
      (deployThenAttach none ++ [orphan "CB"])) ∧
    (¬ LifecycleHeld verifyingDeps spendingRecord.toGeneratedPolicy "p1" "2026-07-17T00:00:00.000Z"
      (deployThenAttach (some "CB"))) ∧
    ¬ LifecycleHeld verifyingDeps spendingRecord.toGeneratedPolicy "p1" "2026-07-17T00:00:00.000Z"
      [orphan "CA", orphan "CB", orphan "CA"] := by
  refine ⟨fun h => ?_, fun h => ?_, fun h => ?_⟩
  · have hadvances := h.monotone (deployThenAttach none) (orphan "CB") [] rfl
    have hbefore : (recordsAfter (deployThenAttach none)).record.status = .deployed := by decide
    have hafter : (recordsAfter (deployThenAttach none ++ [orphan "CB"])).record.status = .instanceDeployed := by
      decide
    rw [recordsAfter] at hbefore hafter
    rw [hbefore, hafter] at hadvances
    rcases hadvances with h | ⟨h, -⟩ | ⟨h, -⟩ <;> cases h
  · obtain ⟨i, hinstance, -, hnames⟩ := h.honest _ (List.prefix_refl _) (by decide)
    have hid : (recordsAfter (deployThenAttach (some "CB"))).record.instanceId = some "CA" := by decide
    rw [recordsAfter, PolicyRecord.instanceId, hinstance] at hid
    have hother := hnames "CB" (by decide)
    have hown : i.contractId = "CA" := Option.some.inj hid
    rw [hown] at hother
    exact absurd hother (by decide)
  · have hsame := h.idempotent [orphan "CA", orphan "CB"] _ _ _ [] rfl (List.mem_cons_self ..)
    have hbefore : (recordsAfter [orphan "CA", orphan "CB"]).record.instanceId = some "CB" := by decide
    have hafter : (recordsAfter [orphan "CA", orphan "CB", orphan "CA"]).record.instanceId = some "CA" := by
      decide
    have heq := congrArg (fun r : AttachedRecord => r.instanceId) hsame
    exact absurd (hafter.symm.trans (heq.trans hbefore)) (by decide)

end Vellar.Policy
