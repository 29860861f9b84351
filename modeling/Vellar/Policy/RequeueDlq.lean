import Vellar.Lib.Processes
import Vellar.Policy.DeployWorker

/-!
# Vellar.Policy.RequeueDlq — requeuing a dead letter

`POST /admin/dlq/:id/requeue` of `services/policy-service/src/admin-dlq.ts`.  Any number of requests run side by
side, each from one operation of a store to the next; the store of the dead letters hands out its records or copies
of them.  `safe_run`: while no operation fails once the job is added and nobody marks an entry that is marked by then,
every request adds a job exactly if it answers 201, the counts are right, and one request at a time holds an entry.
-/

set_option autoImplicit false

namespace Vellar.Policy.RequeueDlq

open Machine Processes
open DeployWorker (Fault DeployJob DLQRecord AuditEvent AuditType)

/-! ## Requests -/

inductive Reply where
  | created
  | forbidden
  | notFound
  | archived
  | inProgress
  | requeueFailed
  /-- The handler throws, which Fastify answers. -/
  | rejected
deriving DecidableEq, Repr

def Reply.code : Reply → ℕ
  | .created => 201
  | .forbidden => 403
  | .notFound => 404
  | .archived => 409
  | .inProgress => 409
  | .requeueFailed => 500
  | .rejected => 500

/-- How far a request is; the record is the one that it found. -/
inductive Phase where
  | start
  | found (record : DLQRecord)
  | marked (record : DLQRecord)
  | inserted (record : DLQRecord)
  | counted (record : DLQRecord)
  /-- In the `catch`, with the entry marked by this request or not. -/
  | failing (own : Bool) (error : String)
  | cleared (error : String)
  | answered (reply : Reply)

structure Request where
  dlqId : String
  userId : Option String
  /-- What `randomUUID()` gives. -/
  newJobId : String
  phase : Phase

/-- How the job store takes a job. -/
inductive Insertion where
  /-- `addJob`, which has added the job once it returns. -/
  | addJob
  /-- An `addJob` that returns a promise, which is not awaited. -/
  | addJobLater
  | insertJob
  | neither
deriving DecidableEq, Repr

structure Shared where
  records : String → Option DLQRecord
  auditLog : List AuditEvent
  /-- The jobs that requests have added, and the entry of each. -/
  jobs : List DeployJob
  created : List String
  requeueTotal : ℕ

/-- What a step meets. -/
structure Action where
  fault : Fault
  /-- The message, where the operation throws. -/
  error : String
  now : String
  auditId : String

/-- The deployment of the service. -/
structure Deps where
  /-- The store hands out its records, not copies. -/
  live : Bool
  insertion : Insertion

section Exec

variable (deps : Deps)

/-- The record a request found, as it is by now. -/
def current (s : Shared) (dlqId : String) (record : DLQRecord) : DLQRecord :=
  if deps.live then (s.records dlqId).getD record else record

def newJob (req : Request) (record : DLQRecord) (now : String) : DeployJob :=
  { id := req.newJobId
    policyId := record.policyId
    wallet := record.payload.wallet
    network := record.payload.network
    status := .pending
    retryCount := 0
    maxAttempts := none
    lastError := none
    lastFailedAt := none
    firstFailedAt := none
    createdAt := now
    updatedAt := now }

namespace Shared

/-- `update` of an entry that is there. -/
def update (dlqId : String) (change : DLQRecord → DLQRecord) (s : Shared) : Shared :=
  { s with records := Function.update s.records dlqId ((s.records dlqId).map change) }

def setInProgress (dlqId : String) (inProgress : Bool) (now : String) (s : Shared) : Shared :=
  s.update dlqId fun r => { r with requeueInProgress := inProgress, updatedAt := now }

/-- The second update of a request, with the count it computed. -/
def recordRequeue (dlqId : String) (count : ℕ) (userId now : String) (s : Shared) : Shared :=
  s.update dlqId fun r =>
    { r with
      requeueCount := count
      lastRequeuedAt := some now
      lastRequeuedBy := some userId
      requeueInProgress := false
      updatedAt := now }

def addJob (dlqId : String) (job : DeployJob) (s : Shared) : Shared :=
  { s with jobs := s.jobs ++ [job], created := s.created ++ [dlqId] }

def recordAudit (event : AuditEvent) (s : Shared) : Shared := { s with auditLog := s.auditLog ++ [event] }

end Shared

/-- The insert of the job. -/
def insertStep (act : Action) (req : Request) (record : DLQRecord) (s : Shared) : Phase × Shared :=
  let add := s.addJob req.dlqId (newJob req (current deps s req.dlqId record) act.now)
  match deps.insertion, act.fault with
  | .neither, _ => (.inserted record, s)
  | .addJobLater, .refused => (.inserted record, s)
  | .addJobLater, _ => (.inserted record, add)
  | _, .none => (.inserted record, add)
  | _, .refused => (.failing true act.error, s)
  | _, .lost => (.failing true act.error, add)

/-- From one operation of a store to the next. -/
def nextPhase (act : Action) (req : Request) (s : Shared) : Phase × Shared :=
  let user := req.userId.getD ""
  match req.phase with
  | .start =>
    if user = "" then (.answered .forbidden, s)
    else if act.fault ≠ .none then (.answered .rejected, s)
    else match s.records req.dlqId with
      | none => (.answered .notFound, s)
      | some record => (.found record, s)
  | .found record =>
    if (current deps s req.dlqId record).archived then (.answered .archived, s)
    else if (current deps s req.dlqId record).requeueInProgress then (.answered .inProgress, s)
    else (if act.fault = .none then .marked record else .failing (act.fault = .lost) act.error,
      act.fault.effect (Shared.setInProgress req.dlqId true act.now) s)
  | .marked record => insertStep deps act req record s
  | .inserted record =>
    (if act.fault = .none then .counted record else .failing (act.fault = .refused) act.error,
      act.fault.effect (Shared.recordRequeue req.dlqId ((current deps s req.dlqId record).requeueCount + 1) user act.now) s)
  | .counted record =>
    (if act.fault = .none then .answered .created else .failing false act.error,
      act.fault.effect (Shared.recordAudit ⟨act.auditId, req.dlqId, .dlqRequeue, some user,
        [("original_job_id", record.originalJobId), ("new_job_id", req.newJobId), ("policy_id", record.policyId)],
        act.now⟩)
        { s with requeueTotal := s.requeueTotal + 1 })
  | .failing _ error =>
    (if act.fault = .none then .cleared error else .answered .rejected,
      act.fault.effect (Shared.setInProgress req.dlqId false act.now) s)
  | .cleared error =>
    (.answered (if act.fault = .none then .requeueFailed else .rejected),
      act.fault.effect (Shared.recordAudit ⟨act.auditId, req.dlqId,
        .dlqRequeueFailed, some user, [("error", error)], act.now⟩) s)
  | .answered reply => (.answered reply, s)

def exec (act : Action) (req : Request) (s : Shared) : Request × Shared :=
  ({ req with phase := (nextPhase deps act req s).1 }, (nextPhase deps act req s).2)

end Exec

/-! ## The law -/

/-- Whether a request is between marking and clearing its entry, and if so whether it has added its job. -/
def holds : Phase → Option Bool
  | .marked _ => some false
  | .inserted _ => some true
  | .failing true _ => some false
  | _ => none

/-- Whether a request has added its job for good. -/
def hasAdded : Phase → Bool
  | .inserted _ => true
  | .counted _ => true
  | .answered .created => true
  | _ => false

/-- The jobs of a request. -/
def jobsOf (s : Shared) (req : Request) : List DeployJob := s.jobs.filter (·.id = req.newJobId)

/-- What an administrator may count on, in one state. -/
structure Safe (c : Config Shared Request) : Prop where
  /-- A request that answers 201 has added one job, which waits; one that answers anything else has added none. -/
  answered : ∀ i reply, (c.procs i).phase = .answered reply →
    if reply.code = 201 then ∃ job, jobsOf c.shared (c.procs i) = [job] ∧ job.status = .pending ∧ job.retryCount = 0
    else jobsOf c.shared (c.procs i) = []
  /-- The count is that of the jobs, unless a request has added its job and is about to count it. -/
  counted : ∀ dlqId r, c.shared.records dlqId = some r →
    (∀ i, (c.procs i).dlqId = dlqId → holds (c.procs i).phase ≠ some true) →
      c.shared.created.count dlqId = r.requeueCount
  /-- The flag is set exactly while a request holds the entry. -/
  inProgress : ∀ dlqId r, c.shared.records dlqId = some r →
    (r.requeueInProgress = true ↔ ∃ i, (c.procs i).dlqId = dlqId ∧ (holds (c.procs i).phase).isSome = true)
  exclusive : ∀ i j, (c.procs i).dlqId = (c.procs j).dlqId → (holds (c.procs i).phase).isSome = true →
    (holds (c.procs j).phase).isSome = true → i = j

/-- A request marks only an entry that is unmarked by then and counts from the count of then, the insert works as a
whole or not at all and as it is awaited, nothing fails once a job is added, and a `catch` clears the mark of its own
request and no other's. -/
def Orderly (deps : Deps) (act : Action) (req : Request) (s : Shared) : Prop :=
  match req.phase with
  | .found record =>
    (current deps s req.dlqId record).archived = false → (current deps s req.dlqId record).requeueInProgress = false →
      act.fault ≠ .refused → ∀ r ∈ s.records req.dlqId, r.requeueInProgress = false
  | .marked _ =>
    match deps.insertion with
    | .neither => False
    | .addJobLater => act.fault ≠ .refused
    | _ => act.fault ≠ .lost
  | .inserted record =>
    act.fault = .none ∧ ∀ r ∈ s.records req.dlqId, (current deps s req.dlqId record).requeueCount = r.requeueCount
  | .counted _ => act.fault = .none
  | .failing true _ => act.fault ≠ .refused
  | .failing false _ => act.fault ≠ .refused → ∀ r ∈ s.records req.dlqId, r.requeueInProgress = false
  | _ => True

instance (deps : Deps) (act : Action) (req : Request) (s : Shared) : Decidable (Orderly deps act req s) := by
  unfold Orderly
  split <;> first | infer_instance | (split <;> infer_instance)

/-- Requests that have not begun, with job ids of their own, over entries that nobody requeues. -/
structure Start (c : Config Shared Request) : Prop where
  phase : ∀ i, (c.procs i).phase = .start
  ids : ∀ i j, (c.procs i).newJobId = (c.procs j).newJobId → i = j
  jobs : ∀ i, jobsOf c.shared (c.procs i) = []
  records : ∀ dlqId r, c.shared.records dlqId = some r →
    r.requeueInProgress = false ∧ c.shared.created.count dlqId = r.requeueCount

/-! ## Who holds an entry -/

/-- The invariant, with the request that holds each entry. -/
structure Held (holder : String → Option (ℕ × Bool)) (c : Config Shared Request) : Prop where
  ids : ∀ i j, (c.procs i).newJobId = (c.procs j).newJobId → i = j
  held_iff : ∀ dlqId i b, holder dlqId = some (i, b) ↔ (c.procs i).dlqId = dlqId ∧ holds (c.procs i).phase = some b
  records : ∀ dlqId r, c.shared.records dlqId = some r →
    (r.requeueInProgress = true ↔ (holder dlqId).isSome = true) ∧
    c.shared.created.count dlqId = r.requeueCount + if (holder dlqId).map Prod.snd = some true then 1 else 0
  found : ∀ i record, (c.procs i).phase = .found record → ∃ r, c.shared.records (c.procs i).dlqId = some r
  jobs : ∀ i, if hasAdded (c.procs i).phase = true
    then ∃ job, jobsOf c.shared (c.procs i) = [job] ∧ job.status = .pending ∧ job.retryCount = 0
    else jobsOf c.shared (c.procs i) = []

variable {deps : Deps} {holder : String → Option (ℕ × Bool)} {c : Config Shared Request}

theorem Start.held (h : Start c) : Held (fun _ => none) c := by
  have hnone : ∀ i, holds (c.procs i).phase = none := fun i => by
    rw [h.phase i]
    rfl
  refine ⟨h.ids, fun dlqId i b => ?_, fun dlqId r hr => ?_, fun i record hphase => ?_, fun i => ?_⟩
  · rw [hnone i]
    simp
  · obtain ⟨hflag, hcount⟩ := h.records dlqId r hr
    simp [hflag, hcount]
  · rw [h.phase i] at hphase
    cases hphase
  · rw [h.phase i]
    exact h.jobs i

theorem hasAdded_answered (reply : Reply) : hasAdded (.answered reply) = true ↔ reply.code = 201 := by
  cases reply <;> decide

theorem Held.safe (h : Held holder c) : Safe c := by
  refine ⟨fun i reply hphase => ?_, fun dlqId r hr hnobody => ?_, fun dlqId r hr => ?_, fun i j hsame hi hj => ?_⟩
  · have hjobs := h.jobs i
    rw [hphase] at hjobs
    simpa only [hasAdded_answered] using hjobs
  · obtain ⟨-, hcount⟩ := h.records dlqId r hr
    rw [hcount, if_neg, Nat.add_zero]
    intro hinserted
    obtain ⟨⟨i, b⟩, hholder, hb⟩ := Option.map_eq_some_iff.mp hinserted
    obtain ⟨hid, hholds⟩ := (h.held_iff dlqId i b).mp hholder
    exact hnobody i hid (hholds.trans (congrArg some hb))
  · rw [(h.records dlqId r hr).1, Option.isSome_iff_exists]
    constructor
    · rintro ⟨⟨i, b⟩, hholder⟩
      obtain ⟨hid, hholds⟩ := (h.held_iff dlqId i b).mp hholder
      exact ⟨i, hid, Option.isSome_iff_exists.mpr ⟨b, hholds⟩⟩
    · rintro ⟨i, hid, hholds⟩
      obtain ⟨b, hb⟩ := Option.isSome_iff_exists.mp hholds
      exact ⟨(i, b), (h.held_iff dlqId i b).mpr ⟨hid, hb⟩⟩
  · obtain ⟨b, hb⟩ := Option.isSome_iff_exists.mp hi
    obtain ⟨b', hb'⟩ := Option.isSome_iff_exists.mp hj
    have hfirst := (h.held_iff _ i b).mpr ⟨rfl, hb⟩
    have hsecond := (h.held_iff _ j b').mpr ⟨hsame.symm, hb'⟩
    rw [hfirst] at hsecond
    exact congrArg Prod.fst (Option.some.inj hsecond)

/-- Who holds the entry of request `i` once its phase is `phase`. -/
def slot (holder : String → Option (ℕ × Bool)) (c : Config Shared Request) (i : ℕ) (phase : Phase) :
    Option (ℕ × Bool) :=
  match holds phase with
  | some b => some (i, b)
  | none => if (holds (c.procs i).phase).isSome then none else holder (c.procs i).dlqId

/-- What a move of request `i` must establish. -/
structure Moves (holder : String → Option (ℕ × Bool)) (c : Config Shared Request) (i : ℕ) (phase : Phase)
    (s : Shared) : Prop where
  /-- A request that begins to hold finds the entry free. -/
  free : (holds (c.procs i).phase).isSome = true ∨ holder (c.procs i).dlqId = none ∨ holds phase = none
  records : ∀ e, e ≠ (c.procs i).dlqId → s.records e = c.shared.records e
  persists : ∀ r, c.shared.records (c.procs i).dlqId = some r → ∃ r', s.records (c.procs i).dlqId = some r'
  found : ∀ record, phase = .found record → ∃ r, c.shared.records (c.procs i).dlqId = some r
  created : ∀ e, e ≠ (c.procs i).dlqId → s.created.count e = c.shared.created.count e
  entry : ∀ r, s.records (c.procs i).dlqId = some r →
    (r.requeueInProgress = true ↔ (slot holder c i phase).isSome = true) ∧
    s.created.count (c.procs i).dlqId = r.requeueCount + if (slot holder c i phase).map Prod.snd = some true then 1 else 0
  others : ∀ j, j ≠ i → jobsOf s (c.procs j) = jobsOf c.shared (c.procs j)
  own : if hasAdded phase = true then ∃ job, jobsOf s (c.procs i) = [job] ∧ job.status = .pending ∧ job.retryCount = 0
    else jobsOf s (c.procs i) = []

theorem Held.unique (h : Held holder c) {i j : ℕ} {b b' : Bool} (hi : holds (c.procs i).phase = some b)
    (hj : holds (c.procs j).phase = some b') (hsame : (c.procs j).dlqId = (c.procs i).dlqId) : j = i := by
  have hfirst := (h.held_iff _ i b).mpr ⟨rfl, hi⟩
  have hsecond := (h.held_iff _ j b').mpr ⟨hsame, hj⟩
  rw [hfirst] at hsecond
  exact (congrArg Prod.fst (Option.some.inj hsecond)).symm

/-- The slot is right for every request after the move. -/
theorem Moves.slot_iff (h : Held holder c) {i : ℕ} {phase : Phase} {s : Shared} (hmoves : Moves holder c i phase s)
    (j : ℕ) (b : Bool) : slot holder c i phase = some (j, b) ↔
      if j = i then holds phase = some b
      else (c.procs j).dlqId = (c.procs i).dlqId ∧ holds (c.procs j).phase = some b := by
  unfold slot
  cases hphase : holds phase with
  | some b₀ =>
    by_cases hj : j = i
    · subst hj
      rw [if_pos rfl]
      simp
    · rw [if_neg hj]
      refine ⟨fun heq => absurd (congrArg Prod.fst (Option.some.inj heq)).symm hj, fun ⟨hid, hholds⟩ => ?_⟩
      rcases hmoves.free with hheld | hnone | hnone
      · obtain ⟨b₁, hb₁⟩ := Option.isSome_iff_exists.mp hheld
        exact absurd (h.unique hb₁ hholds hid) hj
      · rw [(h.held_iff _ j b).mpr ⟨hid, hholds⟩] at hnone
        cases hnone
      · rw [hphase] at hnone
        cases hnone
  | none =>
    dsimp only
    cases hheld : holds (c.procs i).phase with
    | some b₁ =>
      rw [Option.isSome_some, if_pos rfl]
      refine ⟨fun heq => (nomatch heq), fun hholds => ?_⟩
      split_ifs at hholds with hj
      exact absurd (h.unique hheld hholds.2 hholds.1) hj
    | none =>
      rw [Option.isSome_none, if_neg Bool.false_ne_true, h.held_iff]
      by_cases hj : j = i
      · subst hj
        rw [if_pos rfl, hheld]
        simp
      · rw [if_neg hj]

/-- **A move** keeps the invariant. -/
theorem Held.move (h : Held holder c) {i : ℕ} {phase : Phase} {s : Shared} (hmoves : Moves holder c i phase s) :
    Held (Function.update holder (c.procs i).dlqId (slot holder c i phase))
      ⟨s, Function.update c.procs i { c.procs i with phase := phase }⟩ := by
  have hdlqId : ∀ j, (Function.update c.procs i { c.procs i with phase := phase } j).dlqId = (c.procs j).dlqId := by
    intro j
    rw [Function.update_apply]
    split_ifs with hj
    · rw [hj]
    · rfl
  have hnewJobId : ∀ j,
      (Function.update c.procs i { c.procs i with phase := phase } j).newJobId = (c.procs j).newJobId := by
    intro j
    rw [Function.update_apply]
    split_ifs with hj
    · rw [hj]
    · rfl
  have hphase : ∀ j, (Function.update c.procs i { c.procs i with phase := phase } j).phase =
      if j = i then phase else (c.procs j).phase := by
    intro j
    rw [Function.update_apply]
    split_ifs <;> rfl
  have hjobsOf : ∀ j, jobsOf s (Function.update c.procs i { c.procs i with phase := phase } j) = jobsOf s (c.procs j) := by
    intro j
    unfold jobsOf
    rw [hnewJobId]
  refine ⟨fun j k hjk => ?_, fun dlqId j b => ?_, fun dlqId r hr => ?_, fun j record hfound => ?_, fun j => ?_⟩
  · dsimp only at hjk
    rw [hnewJobId, hnewJobId] at hjk
    exact h.ids j k hjk
  · dsimp only
    rw [hdlqId, hphase]
    by_cases hd : dlqId = (c.procs i).dlqId
    · subst hd
      rw [Function.update_self, hmoves.slot_iff h]
      split_ifs with hj
      · rw [hj]
        exact ⟨fun hb => ⟨rfl, hb⟩, And.right⟩
      · rfl
    · rw [Function.update_of_ne hd, h.held_iff]
      split_ifs with hj
      · rw [hj]
        exact ⟨fun hb => absurd hb.1.symm hd, fun hb => absurd hb.1.symm hd⟩
      · rfl
  · dsimp only at hr ⊢
    by_cases hd : dlqId = (c.procs i).dlqId
    · subst hd
      rw [Function.update_self]
      exact hmoves.entry r hr
    · rw [Function.update_of_ne hd, hmoves.created dlqId hd]
      rw [hmoves.records dlqId hd] at hr
      exact h.records dlqId r hr
  · dsimp only at hfound ⊢
    rw [hphase] at hfound
    rw [hdlqId]
    have hthere : ∃ r, c.shared.records (c.procs j).dlqId = some r := by
      split_ifs at hfound with hj
      · rw [hj]
        exact hmoves.found record hfound
      · exact h.found j record hfound
    obtain ⟨r, hr⟩ := hthere
    by_cases hd : (c.procs j).dlqId = (c.procs i).dlqId
    · rw [hd] at hr ⊢
      exact hmoves.persists r hr
    · rw [hmoves.records _ hd]
      exact ⟨r, hr⟩
  · dsimp only
    rw [hjobsOf, hphase]
    by_cases hj : j = i
    · subst hj
      rw [if_pos rfl]
      exact hmoves.own
    · rw [if_neg hj, hmoves.others j hj]
      exact h.jobs j

/-! ## The moves -/

variable {i : ℕ} {act : Action} {phase : Phase} {s : Shared} {record : DLQRecord}

theorem jobsOf_congr (h : s.jobs = c.shared.jobs) (j : ℕ) : jobsOf s (c.procs j) = jobsOf c.shared (c.procs j) := by
  unfold jobsOf
  rw [h]

theorem Held.slot_eq (h : Held holder c) (hholds : holds phase = holds (c.procs i).phase) :
    slot holder c i phase = holder (c.procs i).dlqId := by
  unfold slot
  cases hphase : holds phase with
  | some b => exact ((h.held_iff _ i b).mpr ⟨rfl, hholds ▸ hphase⟩).symm
  | none =>
    rw [← hholds, hphase]
    rfl

/-- A move that changes nothing but the entry of the request. -/
theorem Held.moves_of_update (h : Held holder c) (change : DLQRecord → DLQRecord)
    (hrecords : s.records = (c.shared.update (c.procs i).dlqId change).records)
    (hcreated : s.created = c.shared.created) (hjobs : s.jobs = c.shared.jobs)
    (hfree : (holds (c.procs i).phase).isSome = true ∨ holder (c.procs i).dlqId = none ∨ holds phase = none)
    (hadded : hasAdded phase = hasAdded (c.procs i).phase)
    (hflag : ∀ old, c.shared.records (c.procs i).dlqId = some old →
      ((change old).requeueInProgress = true ↔ (slot holder c i phase).isSome = true))
    (hcount : ∀ old, c.shared.records (c.procs i).dlqId = some old →
      old.requeueCount + (if (holder (c.procs i).dlqId).map Prod.snd = some true then 1 else 0) =
        (change old).requeueCount + if (slot holder c i phase).map Prod.snd = some true then 1 else 0)
    (hfound : ∀ record, phase = .found record → ∃ r, c.shared.records (c.procs i).dlqId = some r) :
    Moves holder c i phase s := by
  have hentry : ∀ r, s.records (c.procs i).dlqId = some r →
      ∃ old, c.shared.records (c.procs i).dlqId = some old ∧ change old = r := by
    intro r hr
    rw [hrecords] at hr
    unfold Shared.update at hr
    dsimp only at hr
    rw [Function.update_self] at hr
    exact Option.map_eq_some_iff.mp hr
  refine ⟨hfree, fun e he => ?_, fun r hr => ?_, hfound, fun e _ => by rw [hcreated], fun r hr => ?_,
    fun j _ => jobsOf_congr hjobs j, ?_⟩
  · rw [hrecords]
    exact Function.update_of_ne he ..
  · refine ⟨change r, ?_⟩
    rw [hrecords]
    unfold Shared.update
    dsimp only
    rw [Function.update_self, hr]
    rfl
  · obtain ⟨old, hold, rfl⟩ := hentry r hr
    refine ⟨hflag old hold, ?_⟩
    rw [hcreated, (h.records _ old hold).2]
    exact hcount old hold
  · rw [hadded, jobsOf_congr hjobs]
    exact h.jobs i

/-- A move that leaves the entries and the jobs alone. -/
theorem Held.moves_quiet (h : Held holder c) (hrecords : s.records = c.shared.records)
    (hcreated : s.created = c.shared.created) (hjobs : s.jobs = c.shared.jobs)
    (hholds : holds phase = holds (c.procs i).phase) (hadded : hasAdded phase = hasAdded (c.procs i).phase)
    (hfound : ∀ record, phase = .found record → ∃ r, c.shared.records (c.procs i).dlqId = some r) :
    Moves holder c i phase s := by
  have hslot := h.slot_eq hholds
  refine h.moves_of_update id ?_ hcreated hjobs ?_ hadded (fun old hold => ?_) (fun old _ => ?_) hfound
  · rw [hrecords]
    unfold Shared.update
    dsimp only
    rw [Option.map_id_fun, id_eq, Function.update_eq_self]
  · rw [hholds]
    cases holds (c.procs i).phase with
    | some b => exact .inl rfl
    | none => exact .inr (.inr rfl)
  · rw [hslot]
    exact (h.records _ old hold).1
  · rw [hslot]
    rfl

/-- Marking an entry that is free. -/
theorem Held.moves_mark (h : Held holder c) (hphase : (c.procs i).phase = .found record)
    (hflag : ∀ r ∈ c.shared.records (c.procs i).dlqId, r.requeueInProgress = false) (now : String)
    (hnext : holds phase = some false) (hadded : hasAdded phase = false) :
    Moves holder c i phase (c.shared.setInProgress (c.procs i).dlqId true now) := by
  have hslot : slot holder c i phase = some (i, false) := by
    unfold slot
    rw [hnext]
  obtain ⟨old, hold⟩ := h.found i record hphase
  have hfree : holder (c.procs i).dlqId = none := by
    by_contra hsome
    have hmarked := (h.records _ old hold).1.mpr (Option.isSome_iff_ne_none.mpr hsome)
    rw [hflag old hold] at hmarked
    cases hmarked
  refine h.moves_of_update _ rfl rfl rfl (.inr (.inl hfree)) ?_ (fun old _ => ?_) (fun old _ => ?_)
    (fun _ _ => ⟨old, hold⟩)
  · rw [hadded, hphase]
    rfl
  · rw [hslot]
    exact ⟨fun _ => rfl, fun _ => rfl⟩
  · rw [hslot, hfree]
    rfl

/-- Adding the job, with an id that no other request has. -/
theorem Held.moves_insert (h : Held holder c) (hphase : (c.procs i).phase = .marked record) (now : String) :
    Moves holder c i (.inserted record)
      (c.shared.addJob (c.procs i).dlqId (newJob (c.procs i) (current deps c.shared (c.procs i).dlqId record) now)) := by
  have hheld : holder (c.procs i).dlqId = some (i, false) := (h.held_iff _ i false).mpr ⟨rfl, by rw [hphase]; rfl⟩
  have hslot : slot holder c i (.inserted record) = some (i, true) := rfl
  have hbefore : jobsOf c.shared (c.procs i) = [] := by
    have hjobs := h.jobs i
    rw [hphase] at hjobs
    exact hjobs
  refine ⟨.inl (by rw [hphase]; rfl), fun e _ => rfl, fun r hr => ⟨r, hr⟩, fun r hr => (nomatch hr), fun e he => ?_,
    fun r hr => ?_, fun j hj => ?_, ?_⟩
  · unfold Shared.addJob
    rw [List.count_append, List.count_singleton, beq_false_of_ne (Ne.symm he)]
    rfl
  · obtain ⟨hflag, hcount⟩ := h.records _ r hr
    rw [hheld] at hflag hcount
    rw [hslot]
    refine ⟨hflag, ?_⟩
    unfold Shared.addJob
    dsimp only at hcount ⊢
    rw [List.count_append, hcount, List.count_singleton_self]
    rfl
  · unfold jobsOf Shared.addJob
    dsimp only
    rw [List.filter_append, List.filter_singleton, decide_eq_false fun hid => hj (h.ids j i hid.symm), Bool.cond_false,
      List.append_nil]
  · refine ⟨newJob (c.procs i) (current deps c.shared (c.procs i).dlqId record) now, ?_, rfl, rfl⟩
    unfold jobsOf Shared.addJob at *
    dsimp only
    rw [List.filter_append, hbefore, List.filter_singleton, decide_eq_true (by rfl), Bool.cond_true, List.nil_append]

/-- Counting the job that was added. -/
theorem Held.moves_count (h : Held holder c) (hphase : (c.procs i).phase = .inserted record) (user now : String)
    (hcount : ∀ r ∈ c.shared.records (c.procs i).dlqId,
      (current deps c.shared (c.procs i).dlqId record).requeueCount = r.requeueCount) :
    Moves holder c i (.counted record) (c.shared.recordRequeue (c.procs i).dlqId
      ((current deps c.shared (c.procs i).dlqId record).requeueCount + 1) user now) := by
  have hheld : holder (c.procs i).dlqId = some (i, true) := (h.held_iff _ i true).mpr ⟨rfl, by rw [hphase]; rfl⟩
  have hslot : slot holder c i (.counted record) = none := by
    unfold slot
    rw [hphase]
    rfl
  refine h.moves_of_update _ rfl rfl rfl (.inr (.inr rfl)) (by rw [hphase]; rfl) (fun old _ => ?_) (fun old hold => ?_)
    (fun r hr => (nomatch hr))
  · rw [hslot]
    exact ⟨fun hflag => (nomatch hflag), fun hsome => (nomatch hsome)⟩
  · rw [hslot, hheld]
    exact congrArg (· + 1) (hcount old hold).symm

/-- Clearing the flag: the request's own mark, or none. -/
theorem Held.moves_clear (h : Held holder c) (hadded : hasAdded phase = hasAdded (c.procs i).phase)
    (hnext : holds phase = none) (hfound : ∀ record, phase ≠ .found record)
    (hown : holds (c.procs i).phase = some false ∨ holds (c.procs i).phase = none ∧
      ∀ r, c.shared.records (c.procs i).dlqId = some r → r.requeueInProgress = false) (now : String) :
    Moves holder c i phase (c.shared.setInProgress (c.procs i).dlqId false now) := by
  refine h.moves_of_update _ rfl rfl rfl (.inr (.inr hnext)) hadded (fun old hold => ?_) (fun old hold => ?_)
    (fun r hr => absurd hr (hfound r))
  · rcases hown with hfalse | ⟨hnone, hflag⟩
    · unfold slot
      rw [hnext, hfalse]
      exact ⟨fun hflag => (nomatch hflag), fun hsome => (nomatch hsome)⟩
    · rw [h.slot_eq (hnext.trans hnone.symm), ← (h.records _ old hold).1, hflag old hold]
  · rcases hown with hfalse | ⟨hnone, -⟩
    · unfold slot
      rw [hnext, hfalse, (h.held_iff _ i false).mpr ⟨rfl, hfalse⟩]
      rfl
    · rw [h.slot_eq (hnext.trans hnone.symm)]

/-- The insert, as a whole or not at all. -/
theorem Held.moves_insertStep (h : Held holder c) (hphase : (c.procs i).phase = .marked record)
    (hG : Orderly deps act (c.procs i) c.shared) :
    Moves holder c i (insertStep deps act (c.procs i) record c.shared).1
      (insertStep deps act (c.procs i) record c.shared).2 := by
  unfold Orderly at hG
  rw [hphase] at hG
  have hadds := @Held.moves_insert deps _ _ _ _ h hphase act.now
  have hfails : Moves holder c i (.failing true act.error) c.shared :=
    h.moves_quiet rfl rfl rfl (by rw [hphase]; rfl) (by rw [hphase]; rfl) fun r hr => (nomatch hr)
  unfold insertStep
  cases hinsertion : deps.insertion <;> cases hfault : act.fault <;> simp only [hinsertion, hfault] at hG ⊢ <;>
    first | exact hadds | exact hfails | contradiction

/-- **Every step** is such a move. -/
theorem Held.moves_next (h : Held holder c) (hG : Orderly deps act (c.procs i) c.shared) :
    Moves holder c i (nextPhase deps act (c.procs i) c.shared).1 (nextPhase deps act (c.procs i) c.shared).2 := by
  unfold nextPhase
  cases hphase : (c.procs i).phase with
  | start =>
    have hquiet : ∀ phase, holds phase = none → hasAdded phase = false →
        (∀ r, phase = .found r → ∃ r, c.shared.records (c.procs i).dlqId = some r) →
        Moves holder c i phase c.shared := by
      intro phase hholds hadded hfound
      exact h.moves_quiet rfl rfl rfl (by rw [hphase, hholds]; rfl) (by rw [hphase, hadded]; rfl) hfound
    dsimp only
    split_ifs
    · exact hquiet _ rfl rfl fun r hr => (nomatch hr)
    · exact hquiet _ rfl rfl fun r hr => (nomatch hr)
    · cases hthere : c.shared.records (c.procs i).dlqId with
      | none => exact hquiet _ rfl rfl fun r hr => (nomatch hr)
      | some record => exact hquiet _ rfl rfl fun _ _ => ⟨record, hthere⟩
  | found record =>
    unfold Orderly at hG
    rw [hphase] at hG
    have hquiet : ∀ phase, holds phase = none → hasAdded phase = false → Moves holder c i phase c.shared := by
      intro phase hholds hadded
      exact h.moves_quiet rfl rfl rfl (by rw [hphase, hholds]; rfl) (by rw [hphase, hadded]; rfl)
        fun _ _ => h.found i record hphase
    dsimp only
    split_ifs with harchived hflag hfault
    · exact hquiet _ rfl rfl
    · exact hquiet _ rfl rfl
    · rw [hfault]
      have hfree := hG (Bool.eq_false_iff.mpr harchived) (Bool.eq_false_iff.mpr hflag) (by rw [hfault]; decide)
      exact h.moves_mark hphase hfree _ rfl rfl
    · cases hact : act.fault with
      | none => exact absurd hact hfault
      | refused => exact hquiet _ rfl rfl
      | lost =>
        have hfree := hG (Bool.eq_false_iff.mpr harchived) (Bool.eq_false_iff.mpr hflag) (by rw [hact]; decide)
        exact h.moves_mark hphase hfree _ rfl rfl
  | marked record => exact h.moves_insertStep hphase hG
  | inserted record =>
    unfold Orderly at hG
    rw [hphase] at hG
    obtain ⟨hfault, hcount⟩ := hG
    dsimp only
    rw [hfault]
    exact h.moves_count hphase _ _ hcount
  | counted record =>
    have hfault : act.fault = .none := by
      unfold Orderly at hG
      rwa [hphase] at hG
    dsimp only
    rw [hfault]
    exact h.moves_quiet rfl rfl rfl (by rw [hphase]; rfl) (by rw [hphase]; rfl) fun r hr => (nomatch hr)
  | failing own error =>
    unfold Orderly at hG
    rw [hphase] at hG
    have hclear : act.fault ≠ .refused → ∀ phase, hasAdded phase = false → holds phase = none →
        (∀ r, phase ≠ .found r) → Moves holder c i phase (c.shared.setInProgress (c.procs i).dlqId false act.now) := by
      intro hfault phase hadded hnext hfound
      refine h.moves_clear (by rw [hphase, hadded]; rfl) hnext hfound ?_ act.now
      cases own with
      | true => exact .inl (by rw [hphase]; rfl)
      | false => exact .inr ⟨by rw [hphase]; rfl, hG hfault⟩
    dsimp only
    cases hfault : act.fault with
    | none => exact hclear (by rw [hfault]; decide) _ rfl rfl fun r hr => (nomatch hr)
    | lost => exact hclear (by rw [hfault]; decide) _ rfl rfl fun r hr => (nomatch hr)
    | refused =>
      cases own with
      | true => exact absurd hfault hG
      | false =>
        exact h.moves_quiet rfl rfl rfl (by rw [hphase]; rfl) (by rw [hphase]; rfl) fun r hr => (nomatch hr)
  | cleared error =>
    have hquiet : ∀ reply s, reply ≠ .created → s.records = c.shared.records → s.created = c.shared.created →
        s.jobs = c.shared.jobs → Moves holder c i (.answered reply) s := by
      intro reply s hreply hrecords hcreated hjobs
      refine h.moves_quiet hrecords hcreated hjobs (by rw [hphase]; rfl) ?_ fun r hr => (nomatch hr)
      rw [hphase]
      cases reply <;> first | rfl | exact absurd rfl hreply
    dsimp only
    cases hfault : act.fault with
    | none => exact hquiet _ _ (by decide) rfl rfl rfl
    | refused => exact hquiet _ _ (by decide) rfl rfl rfl
    | lost => exact hquiet _ _ (by decide) rfl rfl rfl
  | answered reply =>
    exact h.moves_quiet rfl rfl rfl (by rw [hphase]) (by rw [hphase]) fun r hr => (nomatch hr)

/-- **Step**. -/
theorem Held.step (h : ∃ holder, Held holder c) (a : ℕ × Action) (hG : Orderly deps a.2 (c.procs a.1) c.shared) :
    ∃ holder, Held holder (step (exec deps) c a) := by
  obtain ⟨holder, hheld⟩ := h
  exact ⟨_, hheld.move (hheld.moves_next hG)⟩

/-- **Runs**: where every step is orderly, every request adds a job exactly if it answers 201, the counts are right, and one
request at a time holds an entry. -/
theorem safe_run (hstart : Start c) {l : List (ℕ × Action)}
    (hG : Along (step (exec deps)) (fun c a => Orderly deps a.2 (c.procs a.1) c.shared) c l) :
    Safe (run (step (exec deps)) c l) := by
  obtain ⟨holder, hheld⟩ := inv_run (P := fun c => ∃ holder, Held holder c)
    (fun c a h hG => Held.step h a hG) ⟨_, hstart.held⟩ hG
  exact hheld.safe

/-! ## Examples -/

/-- The entry of a job that died. -/
def deadEntry : DLQRecord :=
  ⟨"d", "j", "p", ⟨"C", .testnet, "p", false⟩, "e", 3, "t", "t", false, 0, false, none, none, "t", "t"⟩

/-- Requests of one administrator for that entry. -/
def requests : Config Shared Request :=
  ⟨⟨fun e => if e = "d" then some deadEntry else none, [], [], [], 0⟩,
    fun i => ⟨"d", some "admin", String.ofList (List.replicate i 'j'), .start⟩⟩

/-- An operation, which throws or not. -/
def meets (fault : Fault) : Action := ⟨fault, "down", "t", "a"⟩

theorem requests_start : Start requests := by
  refine ⟨fun i => rfl, fun i j hij => ?_, fun i => rfl, fun e r hr => ?_⟩
  · have hlist := congrArg List.length (String.ofList_injective hij)
    simpa using hlist
  · obtain ⟨-, hr⟩ := Option.ite_none_right_eq_some.mp hr
    obtain rfl := Option.some.inj hr
    exact ⟨rfl, rfl⟩

/-- The second request comes while the first holds the entry. -/
theorem safe_two : Safe (run (step (exec ⟨true, .addJob⟩)) requests
    [(0, meets .none), (0, meets .none), (1, meets .none), (1, meets .none), (0, meets .none), (0, meets .none),
      (0, meets .none)]) :=
  safe_run requests_start (by decide)

/-- The count fails, which is answered 500 with the job added. -/
theorem added_unanswered : ¬ Safe (run (step (exec ⟨true, .addJob⟩)) requests
    [(0, meets .none), (0, meets .none), (0, meets .none), (0, meets .refused), (0, meets .none), (0, meets .none)]) := by
  intro h
  have hnone := h.answered 0 .requeueFailed rfl
  rw [if_neg (by decide)] at hnone
  exact absurd (congrArg List.length hnone) (by decide)

/-- Both requests have their copy of the entry before either marks it. -/
theorem marked_twice : ¬ Safe (run (step (exec ⟨false, .addJob⟩)) requests
    [(0, meets .none), (1, meets .none), (0, meets .none), (1, meets .none)]) := fun h =>
  absurd (h.exclusive 0 1 rfl rfl rfl) Nat.zero_ne_one

end Vellar.Policy.RequeueDlq
