import Vellar.Lib.Machine
import Vellar.Policy.Templates
import Vellar.Worker.JsText

/-!
# Vellar.Policy.DeployWorker — deployment jobs and their dead letters

`services/policy-service/src/policy-deploy-worker.ts` over the memory stores of `dlq-store.ts`.  An operation of a store may throw,
before its effect or after it.  `settled_run`: while the insert of a dead letter and `markCompleted` do not fail, jobs and dead
letters agree after every call, and no job is tried or deployed too often.
-/

set_option autoImplicit false

namespace Vellar.Policy.DeployWorker

open Machine
open Worker (includes asciiLower truthy)

/-! ## Stores that may fail -/

/-- What an operation of a store comes to. -/
inductive Fault where
  | none
  /-- It throws without effect. -/
  | refused
  /-- It has its effect and throws. -/
  | lost
deriving DecidableEq, Repr

def Fault.effect {α : Type} (fault : Fault) (change : α → α) (a : α) : α := if fault = .refused then a else change a

inductive JobStatus where
  | pending
  | inProgress
  | completed
  | failed
  | dead
deriving DecidableEq, Repr

structure DeployJob where
  id : String
  policyId : String
  wallet : String
  network : Network
  status : JobStatus
  retryCount : ℕ
  maxAttempts : Option ℤ
  lastError : Option String
  lastFailedAt : Option String
  firstFailedAt : Option String
  createdAt : String
  updatedAt : String

structure Payload where
  wallet : String
  network : Network
  policyId : String
  terminal : Bool

/-- Of the job type `policy_deploy`. -/
structure DLQRecord where
  id : String
  originalJobId : String
  policyId : String
  payload : Payload
  lastError : String
  failureCount : ℕ
  firstFailedAt : String
  lastFailedAt : String
  archived : Bool
  requeueCount : ℕ
  requeueInProgress : Bool
  lastRequeuedAt : Option String
  lastRequeuedBy : Option String
  createdAt : String
  updatedAt : String

inductive AuditType where
  | dlqMove
  | dlqRequeue
  | dlqRequeueFailed
  | dlqArchived
deriving DecidableEq, Repr

structure AuditEvent where
  id : String
  dlqId : String
  eventType : AuditType
  actor : Option String
  metadata : List (String × String)
  createdAt : String

/-- `createMemoryDLQStore`. -/
structure DLQStore where
  records : List DLQRecord
  auditLog : List AuditEvent

namespace DLQStore

/-- `records.set` under a generated id. -/
def insert (record : DLQRecord) (s : DLQStore) : DLQStore := { s with records := s.records ++ [record] }

def recordAudit (event : AuditEvent) (s : DLQStore) : DLQStore := { s with auditLog := s.auditLog ++ [event] }

def depth (s : DLQStore) : ℕ := s.records.countP fun r => !r.archived

/-- The dead letters of a job. -/
def ofJob (s : DLQStore) (jobId : String) : List DLQRecord := s.records.filter (·.originalJobId = jobId)

end DLQStore

/-! ## Errors -/

structure JobError where
  isTerminal : Bool
  message : String

def TerminalDeployError (message : String) : JobError := ⟨true, message⟩

/-- The line terminators, which `.` does not match. -/
def isLineTerminator (c : Char) : Bool := c.toNat ∈ [10, 13, 0x2028, 0x2029]

/-- `/first.*second/`, in lower case. -/
def includesOnLine (s first second : String) : Bool :=
  s.toList.tails.any fun rest => first.toList.isPrefixOf rest &&
    includes (String.ofList ((rest.drop first.length).takeWhile fun c => !isLineTerminator c)) second

def terminalPatterns : List String :=
  ["policy not found", "not contract-enforced", "invalid template", "unknown policy type", "missing constructor args",
    "unattributable publisher", "terminal"]

def isTerminalFailure (error : JobError) : Bool :=
  error.isTerminal || terminalPatterns.any (includes (asciiLower error.message)) ||
    includesOnLine (asciiLower error.message) "schema version " " does not exist"

/-! ## The job store -/

structure FailureOptions where
  maxAttempts : Option ℤ
  dlqThreshold : Option ℤ

def FailureOptions.none : FailureOptions := ⟨Option.none, Option.none⟩

/-- What the operations of the dead letter store come to in one call. -/
structure DlqFaults where
  insert : Fault
  depth : Fault
  recordAudit : Fault

/-- What a call reads of the clock and of the random numbers. -/
structure Readings where
  now : String
  recordId : String
  auditId : String

structure Stores where
  jobs : List DeployJob
  maxAttempts : Option ℤ
  dlqThreshold : ℤ
  dlq : DLQStore
  /-- `dlq_enqueue_total` and the last value of `dlq_depth_gauge`. -/
  enqueueTotal : ℕ
  depthGauge : Option ℕ
  /-- The job ids of the calls of `processDeploymentJob`, and of those whose instance was deployed. -/
  attempts : List String
  deployed : List String

def DEFAULT_DLQ_THRESHOLD : ℤ := 5

namespace Stores

/-- `jobs.set`, for a job that is there. -/
def setJob (w : Stores) (job : DeployJob) : Stores := { w with jobs := w.jobs.map fun j => if j.id = job.id then job else j }

def maxAttemptsOf (w : Stores) (options : FailureOptions) (job : DeployJob) : Option ℤ :=
  options.maxAttempts.or (job.maxAttempts.or w.maxAttempts)

/-- The job has failed for the last time. -/
def Exhausted (w : Stores) (options : FailureOptions) (error : JobError) (job : DeployJob) : Prop :=
  isTerminalFailure error = true ∨ (∃ limit ∈ w.maxAttemptsOf options job, limit ≤ job.retryCount) ∨
    options.dlqThreshold.getD w.dlqThreshold < job.retryCount

instance (w : Stores) (options : FailureOptions) (error : JobError) (job : DeployJob) : Decidable (w.Exhausted options error job) :=
  inferInstanceAs (Decidable (_ ∨ (∃ limit ∈ w.maxAttemptsOf options job, limit ≤ (job.retryCount : ℤ)) ∨ _))

section Calls

-- The message of an error without addresses and keys.
variable (summarizeError : JobError → String)

def countFailure (error : JobError) (now : String) (job : DeployJob) : DeployJob :=
  { job with
    retryCount := job.retryCount + 1
    lastError := some (summarizeError error)
    lastFailedAt := some now
    firstFailedAt := some ((truthy job.firstFailedAt).getD now)
    updatedAt := now }

def deadLetter (error : JobError) (readings : Readings) (job : DeployJob) : DLQRecord :=
  { id := readings.recordId
    originalJobId := job.id
    policyId := job.policyId
    payload := ⟨job.wallet, job.network, job.policyId, isTerminalFailure error⟩
    lastError := job.lastError.getD ""
    failureCount := job.retryCount
    firstFailedAt := job.firstFailedAt.getD ""
    lastFailedAt := job.lastFailedAt.getD ""
    archived := false
    requeueCount := 0
    requeueInProgress := false
    lastRequeuedAt := Option.none
    lastRequeuedBy := Option.none
    createdAt := readings.now
    updatedAt := readings.now }

/-- The audit event of a move. -/
def moveAudit (error : JobError) (readings : Readings) (job : DeployJob) : AuditEvent :=
  ⟨readings.auditId, readings.recordId, .dlqMove, Option.none,
    [("original_job_id", job.id), ("reason", job.lastError.getD ""), ("retry_count", toString job.retryCount),
      ("terminal", toString (isTerminalFailure error))], readings.now⟩

/-- The branch that moves a job to the dead letters. -/
def moveToDlq (w : Stores) (error : JobError) (metrics : Bool) (faults : DlqFaults) (readings : Readings) (job : DeployJob) :
    Except String Unit × Stores :=
  let w := w.setJob { job with status := .dead }
  let w := { w with dlq := faults.insert.effect (DLQStore.insert (deadLetter error readings job)) w.dlq }
  if faults.insert ≠ .none then (.error "insert", w)
  else
    let w := if metrics then { w with enqueueTotal := w.enqueueTotal + 1 } else w
    if metrics ∧ faults.depth ≠ .none then (.error "depth", w)
    else
      let w := if metrics then { w with depthGauge := some w.dlq.depth } else w
      let w := { w with dlq := faults.recordAudit.effect (DLQStore.recordAudit (moveAudit error readings job)) w.dlq }
      (if faults.recordAudit ≠ .none then .error "recordAudit" else .ok (), w)

def handleFailure (w : Stores) (jobId : String) (error : JobError) (metrics : Bool) (options : FailureOptions) (faults : DlqFaults)
    (readings : Readings) : Except String Unit × Stores :=
  match w.jobs.find? (·.id = jobId) with
  | Option.none => (.error ("Job not found: " ++ jobId), w)
  | some found =>
    let job := countFailure summarizeError error readings.now found
    if w.Exhausted options error job then w.moveToDlq error metrics faults readings job
    else (.ok (), w.setJob { job with status := .pending })

/-- `claim`: the first job that waits. -/
def claim (w : Stores) (now : String) : Option (DeployJob × Stores) :=
  (w.jobs.find? (·.status = .pending)).map fun job =>
    let job := { job with status := .inProgress, updatedAt := now }
    (job, w.setJob job)

structure Deployed where
  contractId : String
  txHash : String

/-- What a call meets: the policy, the deployer, and the stores. -/
structure Answers where
  policy : Except JobError (Option Enforcement)
  deployInstance : String → ConstructorArgs → Except JobError Deployed
  markCompleted : Fault
  /-- What `markCompleted` throws, if it does. -/
  completionError : JobError
  metrics : Bool
  faults : DlqFaults
  readings : Readings

/-- The deployment of a job that was claimed. -/
def deploy (answers : Answers) (job : DeployJob) : Except JobError Deployed := do
  match ← answers.policy with
  | Option.none => .error (TerminalDeployError ("Policy not found: " ++ job.policyId))
  | some (.policyContract _ (some constructorArgs)) => answers.deployInstance job.wallet constructorArgs
  | some _ => .error (TerminalDeployError ("Policy is not contract-enforced: " ++ job.policyId))

def markCompleted (job : DeployJob) (now : String) (w : Stores) : Stores :=
  w.setJob { job with status := .completed, updatedAt := now }

def processDeploymentJob (w : Stores) (answers : Answers) : Except String Bool × Stores :=
  match w.claim answers.readings.now with
  | Option.none => (.ok false, w)
  | some (job, w) =>
    let w := { w with attempts := w.attempts ++ [job.id] }
    let failed := fun (w : Stores) (error : JobError) =>
      let (out, w) := w.handleFailure summarizeError job.id error answers.metrics FailureOptions.none answers.faults answers.readings
      (out.map fun _ => true, w)
    match deploy answers job with
    | .error error => failed w error
    | .ok _ =>
      let w := { w with deployed := w.deployed ++ [job.id] }
      let w := answers.markCompleted.effect (markCompleted job answers.readings.now) w
      if answers.markCompleted ≠ .none then failed w answers.completionError else (.ok true, w)

end Calls

end Stores

/-! ## Runs -/

inductive Event where
  | processJob (answers : Stores.Answers)
  | handleFailure (jobId : String) (error : JobError) (metrics : Bool) (faults : DlqFaults) (readings : Readings)

section Runs

variable (summarizeError : JobError → String)

def step (w : Stores) : Event → Stores
  | .processJob answers => (w.processDeploymentJob summarizeError answers).2
  | .handleFailure jobId error metrics faults readings =>
    (w.handleFailure summarizeError jobId error metrics FailureOptions.none faults readings).2

/-- The job whose failure an event handles. -/
def failing (w : Stores) : Event → Option String
  | .processJob answers => (w.claim answers.readings.now).bind fun claimed =>
      match Stores.deploy answers claimed.1 with
      | .error _ => some claimed.1.id
      | .ok _ => if answers.markCompleted ≠ .none then some claimed.1.id else none
  | .handleFailure jobId _ _ _ _ => some jobId

/-- `min(maxAttempts, dlqThreshold + 1)` -/
def limit (w : Stores) (job : DeployJob) : ℤ :=
  ((job.maxAttempts.or w.maxAttempts).map fun n => min n (w.dlqThreshold + 1)).getD (w.dlqThreshold + 1)

/-- Jobs and dead letters agree, and no job is tried or deployed too often. -/
structure Settled (w : Stores) : Prop where
  dead_iff : ∀ job ∈ w.jobs, job.status = .dead ↔ ∃ r, w.dlq.ofJob job.id = [r] ∧ r.failureCount = job.retryCount
  attempts : ∀ job ∈ w.jobs, w.attempts.count job.id ≤ (limit w job).toNat
  deployed : ∀ job ∈ w.jobs, w.deployed.count job.id ≤ 1

/-- Jobs that wait, before anything has happened to them. -/
structure Start (w : Stores) : Prop where
  ids : (w.jobs.map DeployJob.id).Nodup
  pending : ∀ job ∈ w.jobs, job.status = .pending
  noLetters : ∀ job ∈ w.jobs, w.dlq.ofJob job.id = []
  attempts : w.attempts = []
  deployed : w.deployed = []

/-- The insert of a dead letter has its effect, `markCompleted` does not throw, a job that is taken may be tried, and only open jobs
fail. -/
def Orderly (w : Stores) : Event → Prop
  | .processJob answers => answers.faults.insert ≠ .refused ∧ answers.markCompleted = .none ∧
      ∀ claimed ∈ w.claim answers.readings.now, 1 ≤ limit w claimed.1
  | .handleFailure jobId _ _ faults _ => faults.insert ≠ .refused ∧
      ∀ job ∈ w.jobs, job.id = jobId → job.status = .pending ∨ job.status = .inProgress

end Runs

/-! ## One job -/

variable {summarizeError : JobError → String} {w w' : Stores} {job job' : DeployJob}

/-- What is known of a job by its status. -/
structure Tracked (w : Stores) (job : DeployJob) : Prop where
  ledger : if job.status = .dead then ∃ r, w.dlq.ofJob job.id = [r] ∧ r.failureCount = job.retryCount else w.dlq.ofJob job.id = []
  deployed : w.deployed.count job.id ≤ 1 ∧ (job.status ≠ .completed → w.deployed.count job.id = 0)
  attempts : w.attempts.count job.id ≤ (limit w job).toNat
  pending : job.status = .pending →
    w.attempts.count job.id = 0 ∨ (job.retryCount < limit w job ∧ w.attempts.count job.id ≤ job.retryCount)
  inProgress : job.status = .inProgress →
    w.attempts.count job.id ≤ 1 ∨ (job.retryCount + 1 ≤ limit w job ∧ w.attempts.count job.id ≤ job.retryCount + 1)

structure Inv (w : Stores) : Prop where
  ids : (w.jobs.map DeployJob.id).Nodup
  tracked : ∀ job ∈ w.jobs, Tracked w job

theorem Inv.settled (h : Inv w) : Settled w := by
  refine ⟨fun job hjob => ⟨fun hdead => ?_, fun hletter => ?_⟩, fun job hjob => (h.tracked job hjob).attempts,
    fun job hjob => (h.tracked job hjob).deployed.1⟩
  · have hledger := (h.tracked job hjob).ledger
    rwa [if_pos hdead] at hledger
  · by_contra hdead
    have hledger := (h.tracked job hjob).ledger
    rw [if_neg hdead] at hledger
    obtain ⟨r, hr, -⟩ := hletter
    rw [hledger] at hr
    cases hr

theorem Start.inv (h : Start w) : Inv w := by
  refine ⟨h.ids, fun job hjob => ?_⟩
  have hpending := h.pending job hjob
  have hattempts : w.attempts.count job.id = 0 := by rw [h.attempts, List.count_nil]
  have hdeployed : w.deployed.count job.id = 0 := by rw [h.deployed, List.count_nil]
  refine ⟨?_, ⟨hdeployed.trans_le (Nat.zero_le 1), fun _ => hdeployed⟩, hattempts.trans_le (Nat.zero_le _), fun _ => .inl hattempts, fun hin => ?_⟩
  · rw [if_neg (hpending ▸ by decide)]
    exact h.noLetters job hjob
  · rw [hpending] at hin
    cases hin

/-- A job is replaced; what concerns the others stays. -/
structure Replaces (w w' : Stores) (job : DeployJob) : Prop where
  jobs : w'.jobs = w.jobs.map fun j => if j.id = job.id then job else j
  limits : w'.maxAttempts = w.maxAttempts ∧ w'.dlqThreshold = w.dlqThreshold
  letters : ∀ id, id ≠ job.id → w'.dlq.ofJob id = w.dlq.ofJob id
  attempts : ∀ id, id ≠ job.id → w'.attempts.count id = w.attempts.count id
  deployed : ∀ id, id ≠ job.id → w'.deployed.count id = w.deployed.count id

theorem limit_congr (h : w'.maxAttempts = w.maxAttempts ∧ w'.dlqThreshold = w.dlqThreshold) : limit w' = limit w := by
  funext job
  rw [limit, limit, h.1, h.2]

theorem Inv.replace (h : Inv w) (job : DeployJob) (hreplaces : Replaces w w' job) (htracked : Tracked w' job) : Inv w' := by
  have hlimit := limit_congr hreplaces.limits
  refine ⟨?_, fun j hj => ?_⟩
  · rw [hreplaces.jobs, List.map_map]
    refine (List.map_congr_left fun j _ => ?_).symm ▸ h.ids
    show (if j.id = job.id then job else j).id = j.id
    split_ifs with heq
    · exact heq.symm
    · rfl
  · rw [hreplaces.jobs] at hj
    obtain ⟨old, hold, rfl⟩ := List.mem_map.mp hj
    split_ifs with heq
    · exact htracked
    · obtain ⟨hledger, hdeployed, hattempts, hpending, hinProgress⟩ := h.tracked old hold
      rw [← hreplaces.letters old.id heq] at hledger
      rw [← hreplaces.deployed old.id heq] at hdeployed
      rw [← hreplaces.attempts old.id heq, ← hlimit] at hattempts hpending hinProgress
      exact ⟨hledger, hdeployed, hattempts, hpending, hinProgress⟩

/-- A job that is found by its id, and is the only one of that id. -/
theorem Inv.find (h : Inv w) {p : DeployJob → Bool} (hfind : w.jobs.find? p = some job) : job ∈ w.jobs ∧ p job = true ∧ Tracked w job :=
  ⟨List.mem_of_find?_eq_some hfind, List.find?_some hfind, h.tracked job (List.mem_of_find?_eq_some hfind)⟩

theorem not_exhausted {error : JobError} (h : ¬ w.Exhausted FailureOptions.none error job) : (job.retryCount : ℤ) < limit w job := by
  unfold Stores.Exhausted at h
  push Not at h
  obtain ⟨-, hmax, hthreshold⟩ := h
  have hthreshold : (job.retryCount : ℤ) < w.dlqThreshold + 1 := Int.lt_add_one_of_le hthreshold
  unfold limit
  cases hof : job.maxAttempts.or w.maxAttempts with
  | none => exact hthreshold
  | some n => exact lt_min (hmax n hof) hthreshold

/-! ## A failure -/

section Failure

variable {error : JobError} {metrics : Bool} {faults : DlqFaults} {readings : Readings} {jobId : String}

theorem ofJob_insert (s : DLQStore) (record : DLQRecord) (id : String) :
    (s.insert record).ofJob id = if record.originalJobId = id then s.ofJob id ++ [record] else s.ofJob id := by
  unfold DLQStore.insert DLQStore.ofJob
  dsimp only
  rw [List.filter_append]
  split_ifs with h
  · simp [h]
  · simp [h]

/-- What a move does, whatever fails after the insert. -/
theorem moveToDlq_fields (w : Stores) (job : DeployJob) (error : JobError) (metrics : Bool) (readings : Readings)
    (h : faults.insert ≠ .refused) :
    (w.moveToDlq error metrics faults readings job).2.jobs = (w.setJob { job with status := .dead }).jobs ∧
      ((w.moveToDlq error metrics faults readings job).2.maxAttempts = w.maxAttempts ∧
        (w.moveToDlq error metrics faults readings job).2.dlqThreshold = w.dlqThreshold) ∧
      (∀ id, (w.moveToDlq error metrics faults readings job).2.dlq.ofJob id =
        (w.dlq.insert (Stores.deadLetter error readings job)).ofJob id) ∧
      (w.moveToDlq error metrics faults readings job).2.attempts = w.attempts ∧
      (w.moveToDlq error metrics faults readings job).2.deployed = w.deployed := by
  have haudit : ∀ (fault : Fault) (event : AuditEvent) (s : DLQStore) (id : String),
      (fault.effect (DLQStore.recordAudit event) s).ofJob id = s.ofJob id := by
    intro fault event s id
    unfold Fault.effect
    split_ifs <;> rfl
  have hinsert : ∀ (record : DLQRecord) (s : DLQStore), faults.insert.effect (DLQStore.insert record) s = s.insert record := fun record s =>
    if_neg h
  unfold Stores.moveToDlq
  simp only [hinsert]
  split_ifs
  all_goals first
    | exact ⟨rfl, ⟨rfl, rfl⟩, fun _ => rfl, rfl, rfl⟩
    | exact ⟨rfl, ⟨rfl, rfl⟩, fun _ => haudit _ _ _ _, rfl, rfl⟩

theorem replaces_moveToDlq (h : faults.insert ≠ .refused) :
    Replaces w (w.moveToDlq error metrics faults readings job).2 { job with status := .dead } := by
  obtain ⟨hjobs, hlimits, hletters, hattempts, hdeployed⟩ :=
    moveToDlq_fields w job error metrics readings h
  refine ⟨hjobs, hlimits, fun id hid => ?_, fun id _ => by rw [hattempts], fun id _ => by rw [hdeployed]⟩
  have hother : ¬ (Stores.deadLetter error readings job).originalJobId = id := fun heq => hid heq.symm
  rw [hletters, ofJob_insert, if_neg hother]

theorem tracked_moveToDlq (h : faults.insert ≠ .refused) {old : DeployJob} (htracked : Tracked w old)
    (hopen : old.status = .pending ∨ old.status = .inProgress) (hid : job.id = old.id) (hmax : job.maxAttempts = old.maxAttempts) :
    Tracked (w.moveToDlq error metrics faults readings job).2 { job with status := .dead } := by
  obtain ⟨hjobs, hlimits, hletters, hattempts, hdeployed⟩ :=
    moveToDlq_fields w job error metrics readings h
  have hledger := htracked.ledger
  have hfresh := htracked.deployed.2 (by rcases hopen with h | h <;> rw [h] <;> decide)
  rw [if_neg (by rcases hopen with h | h <;> rw [h] <;> decide)] at hledger
  refine ⟨?_, ?_, ?_, fun hpending => (nomatch hpending), fun hin => nomatch hin⟩
  · rw [if_pos rfl, hletters]
    refine ⟨Stores.deadLetter error readings job, ?_, rfl⟩
    show (w.dlq.insert _).ofJob job.id = _
    rw [ofJob_insert, if_pos (show (Stores.deadLetter error readings job).originalJobId = job.id from rfl), hid, hledger, List.nil_append]
  · show (_ : Stores).deployed.count job.id ≤ 1 ∧ (_ → (_ : Stores).deployed.count job.id = 0)
    rw [hdeployed, hid, hfresh]
    exact ⟨Nat.zero_le 1, fun _ => rfl⟩
  · show (_ : Stores).attempts.count job.id ≤ _
    have hlimit : limit (w.moveToDlq error metrics faults readings job).2 { job with status := .dead } = limit w old := by
      rw [limit_congr hlimits]
      unfold limit
      rw [← hmax]
    rw [hlimit, hattempts, hid]
    exact htracked.attempts

theorem inv_handleFailure (h : Inv w) (hfault : faults.insert ≠ .refused)
    (hopen : ∀ job ∈ w.jobs, job.id = jobId → job.status = .pending ∨ job.status = .inProgress) :
    Inv (w.handleFailure summarizeError jobId error metrics FailureOptions.none faults readings).2 := by
  unfold Stores.handleFailure
  split
  · exact h
  · rename_i old hfind
    obtain ⟨hmem, hp, htracked⟩ := h.find hfind
    have hold := hopen old hmem (of_decide_eq_true hp)
    dsimp only
    split
    · exact h.replace _ (replaces_moveToDlq hfault) (tracked_moveToDlq hfault htracked hold rfl rfl)
    · rename_i hmore
      have hlt := not_exhausted hmore
      have hledger := htracked.ledger
      rw [if_neg (by rcases hold with h | h <;> rw [h] <;> decide)] at hledger
      have hzero := htracked.deployed.2 (by rcases hold with h | h <;> rw [h] <;> decide)
      refine h.replace { Stores.countFailure summarizeError error readings.now old with status := .pending }
        ⟨rfl, ⟨rfl, rfl⟩, fun _ _ => rfl, fun _ _ => rfl, fun _ _ => rfl⟩ ⟨?_, ⟨hzero.trans_le (Nat.zero_le 1), fun _ => hzero⟩, htracked.attempts,
        fun _ => ?_, fun hin => nomatch hin⟩
      · rw [if_neg fun hdead => nomatch hdead]
        exact hledger
      · refine .inr ⟨hlt, ?_⟩
        show w.attempts.count old.id ≤ old.retryCount + 1
        rcases hold with hstatus | hstatus
        · rcases htracked.pending hstatus with hnone | ⟨-, hle⟩
          · omega
          · omega
        · rcases htracked.inProgress hstatus with hone | ⟨-, hle⟩
          · omega
          · exact hle

/-- After the call the job is dead, or it waits. -/
theorem status_handleFailure (options : FailureOptions) :
    ∀ job ∈ (w.handleFailure summarizeError jobId error metrics options faults readings).2.jobs, job.id = jobId →
      job.status = .dead ∨ job.status = .pending := by
  have hset : ∀ new : DeployJob, new.id = jobId → ∀ job ∈ (w.setJob new).jobs, job.id = jobId → job.status = new.status := by
    intro new hnew job hjob hid
    obtain ⟨old, -, rfl⟩ := List.mem_map.mp hjob
    split_ifs at hid ⊢ with heq
    · rfl
    · exact absurd (hid.trans hnew.symm) heq
  unfold Stores.handleFailure
  split
  · rename_i hnone
    intro job hjob hid
    exact absurd hid (by simpa using List.find?_eq_none.mp hnone job hjob)
  · rename_i old hfind
    have hid : old.id = jobId := by simpa using List.find?_some hfind
    dsimp only
    split
    · intro job hjob hjobId
      have hjobs : (w.moveToDlq error metrics faults readings (Stores.countFailure summarizeError error readings.now old)).2.jobs =
          (w.setJob { Stores.countFailure summarizeError error readings.now old with status := .dead }).jobs := by
        unfold Stores.moveToDlq
        dsimp only
        split_ifs <;> rfl
      exact .inl (hset { Stores.countFailure summarizeError error readings.now old with status := .dead } hid job (hjobs ▸ hjob) hjobId)
    · exact fun job hjob hjobId =>
        .inr (hset { Stores.countFailure summarizeError error readings.now old with status := .pending } hid job hjob hjobId)

end Failure

/-! ## A job that is taken -/

section Process

variable {answers : Stores.Answers} {now : String}

/-- The stores of the call once it has taken the job. -/
def taken (w : Stores) (job : DeployJob) : Stores := { w.setJob job with attempts := w.attempts ++ [job.id] }

theorem claim_eq_some {claimed : DeployJob × Stores} (h : w.claim now = some claimed) : ∃ old ∈ w.jobs, old.status = .pending ∧
    claimed = ({ old with status := .inProgress, updatedAt := now }, w.setJob { old with status := .inProgress, updatedAt := now }) := by
  obtain ⟨old, hfind, rfl⟩ := Option.map_eq_some_iff.mp h
  exact ⟨old, List.mem_of_find?_eq_some hfind, by simpa using List.find?_some hfind, rfl⟩

theorem mem_setJob {old : DeployJob} (hold : old ∈ w.jobs) (hid : old.id = job.id) : job ∈ (w.setJob job).jobs :=
  List.mem_map.mpr ⟨old, hold, if_pos hid⟩

theorem eq_of_mem_setJob (hj : job' ∈ (w.setJob job).jobs) (hid : job'.id = job.id) : job' = job := by
  obtain ⟨old, -, rfl⟩ := List.mem_map.mp hj
  split_ifs at hid ⊢ with h
  · rfl
  · exact absurd hid h

theorem tracked_taken (h : Inv w) {old : DeployJob} (job : DeployJob) (hold : old ∈ w.jobs) (hpending : old.status = .pending) (hid : job.id = old.id)
    (hstatus : job.status = .inProgress) (hmax : job.maxAttempts = old.maxAttempts) (hretry : job.retryCount = old.retryCount)
    (hlimit : 1 ≤ limit w job) : Inv (taken w job) := by
  obtain ⟨hledger, hdeployed, hattempts, hopen, -⟩ := h.tracked old hold
  have hsame : limit w job = limit w old := by
    unfold limit
    rw [hmax]
  have hcount : (taken w job).attempts.count job.id = w.attempts.count old.id + 1 := by
    rw [taken, List.count_append, List.count_singleton_self, hid]
  have hother : ∀ id, id ≠ job.id → (taken w job).attempts.count id = w.attempts.count id := by
    intro id hne
    rw [taken, List.count_append, List.count_singleton]
    simp [Ne.symm hne]
  rw [if_neg (by rw [hpending]; decide)] at hledger
  have hzero := hdeployed.2 (by rw [hpending]; decide)
  refine h.replace job ⟨rfl, ⟨rfl, rfl⟩, fun _ _ => rfl, hother, fun _ _ => rfl⟩ ⟨?_, ?_, ?_, fun hp => ?_, fun _ => ?_⟩
  · rw [if_neg (by rw [hstatus]; decide), hid]
    exact hledger
  · show w.deployed.count job.id ≤ 1 ∧ (_ → w.deployed.count job.id = 0)
    rw [hid, hzero]
    exact ⟨Nat.zero_le 1, fun _ => rfl⟩
  · rw [hcount]
    show _ ≤ (limit w job).toNat
    rcases hopen hpending with hnone | ⟨hlt, hle⟩
    · omega
    · omega
  · rw [hstatus] at hp
    cases hp
  · rw [hcount, hretry]
    show _ ∨ (_ ≤ limit w job ∧ _)
    rcases hopen hpending with hnone | ⟨hlt, hle⟩
    · exact .inl (by omega)
    · exact .inr ⟨by omega, by omega⟩

/-- A deployment that is recorded. -/
theorem inv_completed (h : Inv w) (hjob : job ∈ w.jobs) (hstatus : job.status = .inProgress) :
    Inv (Stores.markCompleted job now { w with deployed := w.deployed ++ [job.id] }) := by
  obtain ⟨hledger, hdeployed, hattempts, -, -⟩ := h.tracked job hjob
  rw [if_neg (by rw [hstatus]; decide)] at hledger
  have hzero := hdeployed.2 (by rw [hstatus]; decide)
  have hother : ∀ id, id ≠ job.id → (w.deployed ++ [job.id]).count id = w.deployed.count id := by
    intro id hne
    rw [List.count_append, List.count_singleton]
    simp [Ne.symm hne]
  refine h.replace { job with status := .completed, updatedAt := now }
    ⟨rfl, ⟨rfl, rfl⟩, fun _ _ => rfl, fun _ _ => rfl, hother⟩
    ⟨?_, ?_, hattempts, fun hp => (nomatch hp), fun hp => nomatch hp⟩
  · rw [if_neg fun hdead => nomatch hdead]
    exact hledger
  · refine ⟨?_, fun hne => absurd rfl hne⟩
    show (w.deployed ++ [job.id]).count job.id ≤ 1
    rw [List.count_append, hzero, List.count_singleton_self]

theorem inv_process (h : Inv w) (horderly : Orderly w (.processJob answers)) : Inv (w.processDeploymentJob summarizeError answers).2 := by
  obtain ⟨hinsert, hmark, hlimit⟩ := horderly
  unfold Stores.processDeploymentJob
  cases hclaim : w.claim answers.readings.now with
  | none => exact h
  | some claimed =>
    obtain ⟨old, hold, hpending, rfl⟩ := claim_eq_some hclaim
    have htaken := tracked_taken h { old with status := .inProgress, updatedAt := answers.readings.now } hold hpending
      rfl rfl rfl rfl (hlimit _ hclaim)
    dsimp only
    split
    · refine inv_handleFailure htaken hinsert fun j hj hid => .inr ?_
      rw [eq_of_mem_setJob hj hid]
    · rw [hmark, if_neg (not_not.mpr rfl)]
      exact inv_completed htaken (mem_setJob hold rfl) rfl

end Process

theorem inv_step {e : Event} (h : Inv w) (horderly : Orderly w e) : Inv (step summarizeError w e) := by
  cases e with
  | processJob answers => exact inv_process h horderly
  | handleFailure jobId error metrics faults readings => exact inv_handleFailure h horderly.1 horderly.2

/-- After the failure that an event handles the job is dead, or it waits. -/
theorem status_step (e : Event) : ∀ id ∈ failing w e, ∀ job ∈ (step summarizeError w e).jobs, job.id = id →
    job.status = .dead ∨ job.status = .pending := by
  intro id hid
  cases e with
  | handleFailure jobId error metrics faults readings =>
    obtain rfl := Option.some.inj hid
    exact status_handleFailure FailureOptions.none
  | processJob answers =>
    obtain ⟨claimed, hclaim, hfails⟩ := Option.bind_eq_some_iff.mp hid
    show ∀ job ∈ (w.processDeploymentJob summarizeError answers).2.jobs, _
    unfold Stores.processDeploymentJob
    rw [hclaim]
    dsimp only at hfails ⊢
    cases hdeploy : Stores.deploy answers claimed.1 with
    | error err =>
      rw [hdeploy] at hfails
      obtain rfl := Option.some.inj hfails
      exact status_handleFailure FailureOptions.none
    | ok result =>
      rw [hdeploy] at hfails
      dsimp only at hfails ⊢
      split_ifs at hfails with hmark
      obtain rfl := Option.some.inj hfails
      rw [if_pos hmark]
      exact status_handleFailure FailureOptions.none

/-- **Jobs and dead letters agree** after every call of an orderly run, and a failed job is dead or waits. -/
theorem settled_run (hstart : Start w) {l : List Event} (h : Along (step summarizeError) Orderly w l) :
    Settled (run (step summarizeError) w l) ∧ ∀ pre e post, l = pre ++ e :: post →
      ∀ id ∈ failing (run (step summarizeError) w pre) e, ∀ job ∈ (run (step summarizeError) w (pre ++ [e])).jobs, job.id = id →
        job.status = .dead ∨ job.status = .pending := by
  refine ⟨(inv_run (P := Inv) (fun _ _ hs ho => inv_step hs ho) hstart.inv h).settled, fun pre e post _ id hid => ?_⟩
  rw [run_snoc]
  exact status_step e id hid

/-- A job that waits. -/
def oneJob : Stores :=
  ⟨[⟨"j", "p", "C", .testnet, .pending, 0, none, none, none, none, "t", "t"⟩], none, DEFAULT_DLQ_THRESHOLD, ⟨[], []⟩, 0, none, [], []⟩

/-- A call for a policy that is not there, with what the insert of the dead letter comes to. -/
def missingPolicy (insert : Fault) : Event :=
  .processJob ⟨.ok none, fun _ _ => .ok ⟨"", ""⟩, .none, ⟨false, ""⟩, false, ⟨insert, .none, .none⟩, ⟨"t", "r", "a"⟩⟩

theorem oneJob_start : Start oneJob := by
  constructor <;> decide

theorem settled_missing : Settled (run (step JobError.message) oneJob [missingPolicy .none]) :=
  (@settled_run JobError.message oneJob oneJob_start [missingPolicy .none]
    ⟨⟨by decide, rfl, fun claimed hclaimed => by obtain rfl := Option.some.inj hclaimed; decide⟩, trivial⟩).1

/-- The insert of the dead letter throws: the job is dead and in no store. -/
theorem dead_without_letter : ¬ Settled (run (step JobError.message) oneJob [missingPolicy .refused]) := by
  intro h
  have hdead : ∃ job ∈ (run (step JobError.message) oneJob [missingPolicy .refused]).jobs, job.status = .dead := by decide
  have hletters : (run (step JobError.message) oneJob [missingPolicy .refused]).dlq.records = [] :=
    List.length_eq_zero_iff.mp (by decide)
  obtain ⟨job, hjob, hstatus⟩ := hdead
  obtain ⟨r, hr, -⟩ := (h.dead_iff job hjob).mp hstatus
  rw [DLQStore.ofJob, hletters] at hr
  cases hr

end Vellar.Policy.DeployWorker
