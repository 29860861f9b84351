import Vellar.Lib.Processes
import Vellar.Worker.AttestedArtifact
import Vellar.Worker.Attestor
import Vellar.Worker.MemoryJobStore
import Vellar.Worker.PgJobStore

/-!
# Vellar.Worker.Loop — one tick of the worker

`runWorkerTick` of `services/worker-service/src/loop.ts` over either job store: claim a batch, then workers take one
job after the other and verify it, complete it, report it.  The workers interleave at these steps; a job whose
verification or completion throws is left as it is.  Two theorems say when the tick does what its parts promise:
`transient_never_terminal_iff` for transient failures and `signatures_enforced_iff` for signed jobs.
-/

set_option autoImplicit false

namespace Vellar.Worker

open Machine Processes

/-! ## The two stores -/

/-- A `VerificationJobStore` as the tick sees it: what a claim may hand out and what completing a record does to the
statuses. -/
structure JobStore (σ : Type) where
  /-- `claimSubmitted(limit)` at a time may leave this store and return these jobs. -/
  Claims : σ → ℕ → ℤ → σ → List ClaimedJob → Prop
  complete : σ → String → VerificationOutcome → ℤ → σ
  statusOf : σ → String → Option VerificationStatus
  claims_building : ∀ {s limit now s' jobs}, Claims s limit now s' jobs → ∀ job ∈ jobs,
    statusOf s' job.recordId = some .building
  claims_nodup : ∀ {s limit now s' jobs}, Claims s limit now s' jobs → (jobs.map ClaimedJob.recordId).Nodup
  complete_self : ∀ {s id o now}, statusOf s id = some .building →
    statusOf (complete s id o now) id = some o.status.toStatus
  complete_other : ∀ {s id o now id'}, id' ≠ id → statusOf (complete s id o now) id' = statusOf s id'

namespace MemoryJobStore

def statusOf (s : Store) (id : String) : Option VerificationStatus := (s.find id).map Row.status

def jobStore : JobStore Store where
  Claims s limit now s' jobs := claimSubmitted s limit now = (s', jobs)
  complete := complete
  statusOf := statusOf
  claims_building {s limit now s' jobs} h job hjob := by
    obtain rfl : (claimSubmitted s limit now).1 = s' := congrArg Prod.fst h
    obtain rfl : (claimSubmitted s limit now).2 = jobs := congrArg Prod.snd h
    rw [claimSubmitted_jobs] at hjob
    obtain ⟨row, hrow, rfl⟩ := List.mem_map.mp hjob
    have htakes : Takes s limit row.recordId := List.mem_map_of_mem hrow
    obtain ⟨row', hfind, -⟩ := takes_submitted htakes
    show ((claimSubmitted s limit now).1.find row.recordId).map Row.status = _
    rw [find_claimSubmitted, hfind, Option.map_some, if_pos htakes]
    rfl
  claims_nodup {s limit now s' jobs} h := by
    obtain rfl : (claimSubmitted s limit now).2 = jobs := congrArg Prod.snd h
    rw [claimSubmitted_jobs, List.map_map]
    exact batch_nodup
  complete_self {s id o now} h := by
    unfold statusOf at h ⊢
    obtain ⟨row, hfind, -⟩ := Option.map_eq_some_iff.mp h
    obtain ⟨-, rfl⟩ := Table.mem_of_find hfind
    rw [find_complete, hfind, Option.map_some, if_pos rfl]
    rfl
  complete_other {s id o now id'} hne := by
    unfold statusOf
    rw [find_complete]
    cases hfind : s.find id' with
    | none => rfl
    | some row =>
      obtain ⟨-, rfl⟩ := Table.mem_of_find hfind
      rw [Option.map_some, if_neg hne]

end MemoryJobStore

namespace PgJobStore

def statusOf (t : Store) (id : String) : Option VerificationStatus := (t.find id).map Row.status

/-- Every row holds the record of its own id, as `insert` writes it. -/
def Keyed (t : Store) : Prop := ∀ row ∈ t.rows, row.record.id = row.id

theorem claimJobs_ids (isUrl : String → Bool) {rows : List Row} (h : ∀ row ∈ rows, row.record.id = row.id) :
    List.Sublist ((claimJobs isUrl rows).jobs.map ClaimedJob.recordId) (rows.map Row.id) := by
  induction rows with
  | nil => exact List.Sublist.refl _
  | cons row rows ih =>
    have hrest := ih fun r hr => h r (List.mem_cons_of_mem _ hr)
    rw [claimJobs]
    cases hvalid : validateImportedRecord isUrl row.record with
    | error reason => exact hrest.cons _
    | ok r =>
      have hid : r.id = row.id := by
        unfold validateImportedRecord at hvalid
        split at hvalid
        · rw [← Except.ok.inj hvalid]
          exact h row List.mem_cons_self
        · cases hvalid
      show List.Sublist (r.id :: _) (row.id :: _)
      rw [hid]
      exact hrest.cons_cons _

theorem filterMap_find_ids (t : Store) (ids : List String) : List.Sublist ((ids.filterMap t.find).map Row.id) ids := by
  induction ids with
  | nil => exact List.Sublist.refl _
  | cons id ids ih =>
    cases hfind : t.find id with
    | none =>
      rw [List.filterMap_cons_none hfind]
      exact ih.cons _
    | some row =>
      obtain ⟨-, rfl⟩ := Table.mem_of_find hfind
      rw [List.filterMap_cons_some hfind]
      exact ih.cons_cons _

theorem keyed_claimUpdate {t : Store} (h : Keyed t) (ids : List String) (now : ℤ) : Keyed (claimUpdate t ids now) := by
  intro row hrow
  have hfind := Table.find_of_mem hrow
  rw [find_claimUpdate, Option.map_eq_some_iff] at hfind
  obtain ⟨row₀, hfind₀, heq⟩ := hfind
  have hrow₀ := h row₀ (Table.mem_of_find hfind₀).1
  rw [← heq]
  split_ifs
  · exact hrow₀
  · exact hrow₀

/-- The claimed jobs carry ids of claimed rows, each once. -/
theorem claimSubmitted_ids (isUrl : String → Bool) {t : Store} (h : Keyed t) (ids : List String) (now : ℤ) :
    List.Sublist ((claimSubmitted isUrl t ids now).2.jobs.map ClaimedJob.recordId) ids := by
  refine (claimJobs_ids isUrl fun row hrow => ?_).trans (filterMap_find_ids _ _)
  obtain ⟨id, -, hfind⟩ := List.mem_filterMap.mp hrow
  exact keyed_claimUpdate h ids now row (Table.mem_of_find hfind).1

def jobStore (isUrl : String → Bool) : JobStore Store where
  Claims t limit now t' jobs := Keyed t ∧ ∃ ids, PgJobStore.Claims t limit ids ∧
    (claimSubmitted isUrl t ids now).1 = t' ∧ (claimSubmitted isUrl t ids now).2.jobs = jobs
  complete := complete
  statusOf := statusOf
  claims_building {t limit now t' jobs} h job hjob := by
    obtain ⟨hkeyed, ids, hids, rfl, rfl⟩ := h
    have hmem : job.recordId ∈ ids := (claimSubmitted_ids isUrl hkeyed ids now).subset (List.mem_map_of_mem hjob)
    obtain ⟨row, hrow, hid⟩ := List.mem_map.mp (hids.submitted _ hmem)
    have hfind := Table.find_of_mem (mem_submittedRows.mp hrow).1
    show ((claimUpdate t ids now).find job.recordId).map Row.status = _
    rw [← hid, find_claimUpdate, hfind, Option.map_some, if_pos (by rw [hid]; exact hmem)]
    rfl
  claims_nodup {t limit now t' jobs} h := by
    obtain ⟨hkeyed, ids, hids, rfl, rfl⟩ := h
    exact hids.nodup.sublist (claimSubmitted_ids isUrl hkeyed ids now)
  complete_self {t id o now} h := by
    unfold statusOf at h ⊢
    obtain ⟨row, hfind, hbuilding⟩ := Option.map_eq_some_iff.mp h
    obtain ⟨-, rfl⟩ := Table.mem_of_find hfind
    rw [find_complete, hfind, Option.map_some, if_pos ⟨rfl, hbuilding⟩]
    rfl
  complete_other {t id o now id'} hne := by
    unfold statusOf
    rw [find_complete]
    cases hfind : t.find id' with
    | none => rfl
    | some row =>
      obtain ⟨-, rfl⟩ := Table.mem_of_find hfind
      rw [Option.map_some, if_neg fun h => hne h.1]

end PgJobStore

/-! ## The tick -/

/-- The executor and the resolver are given by what they do in the run of each record. -/
structure WorkerDeps where
  executor : String → BuildExecutor
  resolver : String → ContractArtifactResolver
  jobSecret : Option String
  batchSize : Option ℕ
  concurrencyLimit : Option ℤ
  /-- The lifetime the attestor writes, when there is an attestor. -/
  attestorTtl : Option ℕ
  nowMs : ℤ
  random : ℚ

def WorkerDeps.concurrency (deps : WorkerDeps) : ℕ := (max 1 (deps.concurrencyLimit.getD 1)).toNat

/-- How many jobs a tick claims. -/
def WorkerDeps.claimLimit (deps : WorkerDeps) : ℕ := deps.batchSize.getD deps.concurrency

/-- What `processJob` hands to `runVerification`: the executor, the resolver, and the job's `retryAttempt`, which
no store sets. -/
def WorkerDeps.handed (deps : WorkerDeps) (job : ClaimedJob) : RunVerificationDeps where
  executor := deps.executor job.recordId
  resolver := deps.resolver job.recordId
  retryAttempt := none
  baseDelayMs := none
  maxDelayMs := none
  jobSecret := none
  nowMs := deps.nowMs
  random := deps.random

/-- A call of the resolver or the executor. -/
inductive Invocation where
  | resolveDeployedHash (contractId : String)
  | build (input : BuildInput)
  | fetchDeployedWasm (hash : String)
deriving DecidableEq

/-- Where a worker of the pool stands. -/
inductive WorkerPhase where
  | idle
  | processing (job : ClaimedJob)
  | settled (job : ClaimedJob) (outcome : VerificationOutcome)
  | stored (job : ClaimedJob) (outcome : VerificationOutcome)
  | stopped

/-- The jobs from the cursor on, the store, the registry behind the attestor, and the calls made for each job. -/
structure TickState (σ : Type) where
  pending : List ClaimedJob
  store : σ
  world : Attestor.World
  invoked : List (ClaimedJob × Invocation)

/-- What the store answers to a completion, and its clock. -/
inductive StoreReply where
  | completes (now : ℤ)
  | throws
deriving DecidableEq

section Tick

variable (P : Platform) {σ : Type} (store : JobStore σ) (deps : WorkerDeps)

/-- The calls `runVerification` makes, in order. -/
def invocations (deps : RunVerificationDeps) (job : VerificationJobInput) : List Invocation :=
  match checkSignature deps job with
  | .error _ => []
  | .ok () =>
    .resolveDeployedHash job.contractId ::
      match deps.resolver.resolveDeployedHash job.contractId with
      | .error _ => []
      | .ok deployedHash =>
        .build job.toBuildInput ::
          match deps.executor job.toBuildInput with
          | .error _ => []
          | .ok build =>
            if hashesMatch P build.wasmHash deployedHash || isFirstPartyContract P job.repoUrl deployedHash ||
                deps.resolver.fetchDeployedWasm.isNone then []
            else [.fetchDeployedWasm deployedHash]

/-- The verification of a claimed job. -/
def verifyClaimed (job : ClaimedJob) : Except Thrown VerificationOutcome :=
  runVerification P (deps.handed job) job.toVerificationJobInput

def TickState.verifying (s : TickState σ) (job : ClaimedJob) : TickState σ :=
  { s with invoked := s.invoked ++
      (invocations P (deps.handed job) job.toVerificationJobInput).map fun call => (job, call) }

def TickState.completing (s : TickState σ) (job : ClaimedJob) (outcome : VerificationOutcome) (now : ℤ) : TickState σ :=
  { s with store := store.complete s.store job.recordId outcome now }

/-- The outcome mirrored on chain, when there is an attestor. -/
def TickState.reporting (s : TickState σ) (job : ClaimedJob) (outcome : VerificationOutcome) : TickState σ :=
  match deps.attestorTtl with
  | none => s
  | some ttl => { s with world := (Attestor.reportOutcome P ttl job.contractId outcome job.repoUrl).after s.world }

/-- One step of a worker: the next job from the cursor, or a step of `processJob`. -/
def workerStep (reply : StoreReply) (p : WorkerPhase) (s : TickState σ) : WorkerPhase × TickState σ :=
  match p with
  | .idle =>
    match s.pending with
    | [] => (.stopped, s)
    | job :: rest => (.processing job, { s with pending := rest })
  | .processing job =>
    match verifyClaimed P deps job with
    | .ok outcome => (.settled job outcome, s.verifying P deps job)
    | .error _ => (.idle, s.verifying P deps job)
  | .settled job outcome =>
    match reply with
    | .completes now => (.stored job outcome, s.completing store job outcome now)
    | .throws => (.idle, s)
  | .stored job outcome => (.idle, s.reporting P deps job outcome)
  | .stopped => (.stopped, s)

/-- The pool over a claimed batch. -/
def startTick (s : σ) (world : Attestor.World) (jobs : List ClaimedJob) : Config (TickState σ) WorkerPhase :=
  ⟨⟨jobs, s, world, []⟩, fun i => if i < min deps.concurrency jobs.length then .idle else .stopped⟩

/-- Where a schedule of the workers' steps leads. -/
def runWorkerTick (s : σ) (world : Attestor.World) (jobs : List ClaimedJob) (schedule : List (ℕ × StoreReply)) :
    Config (TickState σ) WorkerPhase :=
  run (Processes.step (workerStep P store deps)) (startTick deps s world jobs) schedule

/-- All the ways a worker moves. -/
inductive Move : WorkerPhase → TickState σ → WorkerPhase → TickState σ → Prop where
  | stop {s} (h : s.pending = []) : Move .idle s .stopped s
  | take {s job rest} (h : s.pending = job :: rest) : Move .idle s (.processing job) { s with pending := rest }
  | verify {s job o} (h : verifyClaimed P deps job = .ok o) :
    Move (.processing job) s (.settled job o) (s.verifying P deps job)
  | error {s job e} (h : verifyClaimed P deps job = .error e) :
    Move (.processing job) s .idle (s.verifying P deps job)
  | complete {s job o now} : Move (.settled job o) s (.stored job o) (s.completing store job o now)
  | refuse {s job o} : Move (.settled job o) s .idle s
  | report {s job o} : Move (.stored job o) s .idle (s.reporting P deps job o)
  | rest {s} : Move .stopped s .stopped s

variable {P store deps}

section Equations

variable {reply : StoreReply} {s : TickState σ} {job : ClaimedJob} {o : VerificationOutcome}

theorem workerStep_stop (h : s.pending = []) : workerStep P store deps reply .idle s = (.stopped, s) := by
  simp only [workerStep, h]

theorem workerStep_take {rest : List ClaimedJob} (h : s.pending = job :: rest) :
    workerStep P store deps reply .idle s = (.processing job, { s with pending := rest }) := by
  simp only [workerStep, h]

theorem workerStep_verify (h : verifyClaimed P deps job = .ok o) :
    workerStep P store deps reply (.processing job) s = (.settled job o, s.verifying P deps job) := by
  simp only [workerStep, h]

theorem workerStep_error {e : Thrown} (h : verifyClaimed P deps job = .error e) :
    workerStep P store deps reply (.processing job) s = (.idle, s.verifying P deps job) := by
  simp only [workerStep, h]

theorem workerStep_complete {now : ℤ} :
    workerStep P store deps (.completes now) (.settled job o) s = (.stored job o, s.completing store job o now) := rfl

theorem workerStep_report :
    workerStep P store deps reply (.stored job o) s = (.idle, s.reporting P deps job o) := rfl

end Equations

theorem move_workerStep (reply : StoreReply) (p : WorkerPhase) (s : TickState σ) :
    Move P store deps p s (workerStep P store deps reply p s).1 (workerStep P store deps reply p s).2 := by
  cases p with
  | idle =>
    cases hpending : s.pending with
    | nil =>
      rw [workerStep_stop hpending]
      exact .stop hpending
    | cons job rest =>
      rw [workerStep_take hpending]
      exact .take hpending
  | processing job =>
    cases hrun : verifyClaimed P deps job with
    | ok o =>
      rw [workerStep_verify hrun]
      exact .verify hrun
    | error e =>
      rw [workerStep_error hrun]
      exact .error hrun
  | settled job o =>
    cases reply with
    | completes now => exact .complete
    | throws => exact .refuse
  | stored job o => exact .report
  | stopped => exact .rest

@[simp] theorem TickState.reporting_store {s : TickState σ} {job : ClaimedJob} {o : VerificationOutcome} :
    (s.reporting P deps job o).store = s.store := by
  unfold TickState.reporting
  cases deps.attestorTtl <;> rfl

@[simp] theorem TickState.reporting_pending {s : TickState σ} {job : ClaimedJob} {o : VerificationOutcome} :
    (s.reporting P deps job o).pending = s.pending := by
  unfold TickState.reporting
  cases deps.attestorTtl <;> rfl

@[simp] theorem TickState.reporting_invoked {s : TickState σ} {job : ClaimedJob} {o : VerificationOutcome} :
    (s.reporting P deps job o).invoked = s.invoked := by
  unfold TickState.reporting
  cases deps.attestorTtl <;> rfl

/-! ## What every step keeps -/

/-- A worker is at a job of the batch, with the outcome of its verification once there is one. -/
def WorkerPhase.Of (P : Platform) (deps : WorkerDeps) (jobs : List ClaimedJob) : WorkerPhase → Prop
  | .idle | .stopped => True
  | .processing job => job ∈ jobs
  | .settled job o | .stored job o => job ∈ jobs ∧ verifyClaimed P deps job = .ok o

/-- Only jobs of the batch are taken and verified, and none of the `spared` jobs is recorded as failed. -/
structure TickState.Within (store : JobStore σ) (jobs : List ClaimedJob) (spared : ClaimedJob → Prop)
    (s : TickState σ) : Prop where
  pending : ∀ job ∈ s.pending, job ∈ jobs
  invoked : ∀ entry ∈ s.invoked, entry.1 ∈ jobs
  unfailed : ∀ job ∈ jobs, spared job → store.statusOf s.store job.recordId ≠ some .failed

variable {jobs : List ClaimedJob} {spared : ClaimedJob → Prop}

theorem of_move {p p' : WorkerPhase} {s s' : TickState σ} (hmove : Move P store deps p s p' s')
    (hs : s.Within store jobs spared) (hp : p.Of P deps jobs) : p'.Of P deps jobs := by
  cases hmove with
  | stop | rest | error | refuse | report => trivial
  | take h => exact hs.pending _ (by rw [h]; exact List.mem_cons_self)
  | verify h => exact ⟨hp, h⟩
  | complete => exact hp

/-- Jobs whose verification throws are never completed, so their records are not touched. -/
theorem within_move (hnodup : (jobs.map ClaimedJob.recordId).Nodup)
    (hspared : ∀ job ∈ jobs, spared job → ∃ e, verifyClaimed P deps job = .error e) {p p' : WorkerPhase}
    {s s' : TickState σ} (hmove : Move P store deps p s p' s') (hs : s.Within store jobs spared)
    (hp : p.Of P deps jobs) : s'.Within store jobs spared := by
  cases hmove with
  | stop | rest | refuse => exact hs
  | take h =>
    exact ⟨fun job hjob => hs.pending job (by rw [h]; exact List.mem_cons_of_mem _ hjob), hs.invoked, hs.unfailed⟩
  | verify h | error h =>
    refine ⟨hs.pending, fun entry hentry => ?_, hs.unfailed⟩
    rcases List.mem_append.mp hentry with hold | hnew
    · exact hs.invoked entry hold
    · obtain ⟨call, -, rfl⟩ := List.mem_map.mp hnew
      exact hp
  | @complete _ job o now =>
    refine ⟨hs.pending, hs.invoked, fun other hmem hother => ?_⟩
    obtain ⟨e, herror⟩ := hspared other hmem hother
    have hne : other.recordId ≠ job.recordId := by
      intro heq
      rw [List.inj_on_of_nodup_map hnodup hmem hp.1 heq, hp.2] at herror
      cases herror
    show store.statusOf (store.complete s.store job.recordId o now) other.recordId ≠ _
    rw [store.complete_other hne]
    exact hs.unfailed other hmem hother
  | report =>
    refine ⟨?_, ?_, ?_⟩
    · rw [TickState.reporting_pending]
      exact hs.pending
    · rw [TickState.reporting_invoked]
      exact hs.invoked
    · rw [TickState.reporting_store]
      exact hs.unfailed

theorem workerStep_stable (hnodup : (jobs.map ClaimedJob.recordId).Nodup)
    (hspared : ∀ job ∈ jobs, spared job → ∃ e, verifyClaimed P deps job = .error e) :
    Stable (workerStep P store deps) (fun _ _ _ => True) (TickState.Within store jobs spared)
      (fun _ p => WorkerPhase.Of P deps jobs p) (fun _ _ => True) where
  symm _ _ _ := trivial
  shared x p s _ hs hp := within_move hnodup hspared (move_workerStep x p s) hs hp
  own x p s _ hs hp := of_move (move_workerStep x p s) hs hp
  other _ _ _ _ _ _ _ hq _ := hq
  apart _ _ _ _ _ _ _ _ _ := trivial

variable (deps) in
/-- What holds in every state of a tick. -/
theorem runWorkerTick_within {s : σ} (world : Attestor.World) (hnodup : (jobs.map ClaimedJob.recordId).Nodup)
    (hbuilding : ∀ job ∈ jobs, store.statusOf s job.recordId = some .building)
    (hspared : ∀ job ∈ jobs, spared job → ∃ e, verifyClaimed P deps job = .error e)
    (schedule : List (ℕ × StoreReply)) :
    Inv (TickState.Within store jobs spared) (fun _ p => WorkerPhase.Of P deps jobs p) (fun _ _ => True)
      (runWorkerTick P store deps s world jobs schedule) := by
  have hstart : Inv (TickState.Within store jobs spared) (fun _ p => WorkerPhase.Of P deps jobs p) (fun _ _ => True)
      (startTick deps s world jobs) := by
    refine ⟨⟨fun job hjob => hjob, fun entry hentry => absurd hentry List.not_mem_nil, fun job hjob _ => ?_⟩,
      fun i => ?_, fun _ _ _ => trivial⟩
    · show store.statusOf s job.recordId ≠ _
      rw [hbuilding job hjob]
      simp
    · show WorkerPhase.Of P deps jobs (if _ then _ else _)
      split_ifs <;> trivial
  exact (workerStep_stable hnodup hspared).inv_upto hstart along_true schedule (List.prefix_refl _)

/-! ## What a tick reaches -/

variable (P store deps) in
/-- One worker alone gets through a job: it is idle again, and only that job's record may have changed. -/
theorem one_job {c : Config (TickState σ) WorkerPhase} {job : ClaimedJob} {rest : List ClaimedJob}
    (hidle : c.procs 0 = .idle) (hpending : c.shared.pending = job :: rest) :
    ∃ schedule : List (ℕ × StoreReply),
      (run (Processes.step (workerStep P store deps)) c schedule).procs 0 = .idle ∧
      (run (Processes.step (workerStep P store deps)) c schedule).shared.pending = rest ∧
      ∀ id, id ≠ job.recordId →
        store.statusOf (run (Processes.step (workerStep P store deps)) c schedule).shared.store id =
          store.statusOf c.shared.store id := by
  cases hrun : verifyClaimed P deps job with
  | error e =>
    refine ⟨[(0, .completes 0), (0, .completes 0)], ?_⟩
    simp only [run_cons, run_nil, Processes.step, hidle, workerStep_take hpending, Function.update_self,
      workerStep_error hrun]
    exact ⟨trivial, rfl, fun _ _ => rfl⟩
  | ok o =>
    refine ⟨[(0, .completes 0), (0, .completes 0), (0, .completes 0), (0, .completes 0)], ?_⟩
    simp only [run_cons, run_nil, Processes.step, hidle, workerStep_take hpending, Function.update_self,
      workerStep_verify hrun, workerStep_complete, workerStep_report]
    refine ⟨trivial, by rw [TickState.reporting_pending]; rfl, fun id hid => ?_⟩
    rw [TickState.reporting_store]
    exact store.complete_other hid

variable (P store deps) in
/-- One worker alone comes to any job of the batch. -/
theorem reaches_job {c : Config (TickState σ) WorkerPhase} {pre rest : List ClaimedJob}
    (hidle : c.procs 0 = .idle) (hpending : c.shared.pending = pre ++ rest) :
    ∃ schedule : List (ℕ × StoreReply),
      (run (Processes.step (workerStep P store deps)) c schedule).procs 0 = .idle ∧
      (run (Processes.step (workerStep P store deps)) c schedule).shared.pending = rest ∧
      ∀ id, id ∉ pre.map ClaimedJob.recordId →
        store.statusOf (run (Processes.step (workerStep P store deps)) c schedule).shared.store id =
          store.statusOf c.shared.store id := by
  induction pre generalizing c with
  | nil => exact ⟨[], hidle, hpending, fun _ _ => rfl⟩
  | cons job pre ih =>
    obtain ⟨first, hidle₁, hpending₁, hkeep₁⟩ := one_job P store deps hidle hpending
    obtain ⟨more, hidle₂, hpending₂, hkeep₂⟩ := ih hidle₁ hpending₁
    refine ⟨first ++ more, ?_⟩
    rw [run_append]
    refine ⟨hidle₂, hpending₂, fun id hid => ?_⟩
    rw [List.map_cons, List.mem_cons, not_or] at hid
    rw [hkeep₂ id hid.2, hkeep₁ id hid.1]

variable (P store deps) in
/-- For every job of the batch there is a schedule after which a worker is about to verify it, its record building. -/
theorem reaches_processing {s : σ} (world : Attestor.World) (hnodup : (jobs.map ClaimedJob.recordId).Nodup)
    (hbuilding : ∀ job ∈ jobs, store.statusOf s job.recordId = some .building) {job : ClaimedJob} (hjob : job ∈ jobs) :
    ∃ schedule, (runWorkerTick P store deps s world jobs schedule).procs 0 = .processing job ∧
      store.statusOf (runWorkerTick P store deps s world jobs schedule).shared.store job.recordId = some .building := by
  obtain ⟨pre, rest, hsplit⟩ := List.append_of_mem hjob
  have hidle : (startTick deps s world jobs).procs 0 = .idle := by
    have hpos : 0 < min deps.concurrency jobs.length := by
      have := List.length_pos_of_mem hjob
      unfold WorkerDeps.concurrency
      omega
    exact if_pos hpos
  obtain ⟨schedule, hidle₁, hpending₁, hkeep₁⟩ := reaches_job P store deps hidle
    (show (startTick deps s world jobs).shared.pending = pre ++ job :: rest from hsplit)
  have hnot : job.recordId ∉ pre.map ClaimedJob.recordId := by
    rw [hsplit, List.map_append, List.map_cons] at hnodup
    intro hmem
    exact List.disjoint_of_nodup_append hnodup hmem List.mem_cons_self
  refine ⟨schedule ++ [(0, .completes 0)], ?_⟩
  unfold runWorkerTick
  rw [run_snoc, Processes.step]
  simp only [hidle₁, workerStep_take hpending₁, Function.update_self, true_and]
  rw [hkeep₁ _ hnot]
  exact hbuilding job hjob

/-! ## Transient failures -/

/-- The step of `runVerification` at which a failure is raised. -/
inductive Stage where
  | resolve
  | build
  | fetch
deriving DecidableEq, Repr

/-- What the resolver or the executor throws during `runVerification`, and where. -/
def raisedFailure (P : Platform) (deps : RunVerificationDeps) (job : VerificationJobInput) : Option (Stage × Thrown) :=
  match checkSignature deps job with
  | .error _ => none
  | .ok () =>
    match deps.resolver.resolveDeployedHash job.contractId with
    | .error e => some (.resolve, e)
    | .ok deployedHash =>
      match deps.executor job.toBuildInput with
      | .error e => some (.build, e)
      | .ok build =>
        if hashesMatch P build.wasmHash deployedHash then none
        else if isFirstPartyContract P job.repoUrl deployedHash then none
        else
          match deps.resolver.fetchDeployedWasm with
          | none => none
          | some fetchDeployedWasm =>
            match fetchDeployedWasm deployedHash with
            | .error e => some (.fetch, e)
            | .ok _ => none

/-- The failures that are thrown on: at the resolver all but an `ArtifactResolveError` without code timeout, at the
executor all but a `BuildExecutorError`. -/
def Stage.Rethrows : Stage → Thrown → Prop
  | .resolve, .resolve code _ | .fetch, .resolve code _ => code = .timeout
  | .build, .build _ _ _ => False
  | _, _ => True

section Raised

variable {deps : RunVerificationDeps} {job : VerificationJobInput} {e : Thrown}

theorem resolveFailed_cases (e : Thrown) :
    (Stage.resolve.Rethrows e ∧ resolveFailed P deps e = .error e) ∨
      (¬ Stage.resolve.Rethrows e ∧ ∃ o, resolveFailed P deps e = .ok o ∧ o.status = .failed) := by
  cases e with
  | resolve code message =>
    by_cases hcode : code = .timeout
    · exact Or.inl ⟨hcode, by simp only [resolveFailed, if_pos hcode]⟩
    · refine Or.inr ⟨hcode, ?_⟩
      simp only [resolveFailed, if_neg hcode]
      exact ⟨_, rfl, rfl⟩
  | build | error | value => exact Or.inl ⟨trivial, rfl⟩

theorem buildFailed_cases (deployedHash : String) (e : Thrown) :
    (Stage.build.Rethrows e ∧ buildFailed P deps deployedHash e = .error e) ∨
      (¬ Stage.build.Rethrows e ∧ ∃ o, buildFailed P deps deployedHash e = .ok o ∧ o.status = .failed) := by
  cases e with
  | build code message log => exact Or.inr ⟨fun h => h, _, rfl, rfl⟩
  | resolve | error | value => exact Or.inl ⟨trivial, rfl⟩

theorem fetchFailed_cases (deployedHash : String) (build : BuildResult) (e : Thrown) :
    (Stage.fetch.Rethrows e ∧ fetchFailed P deps deployedHash build e = .error e) ∨
      (¬ Stage.fetch.Rethrows e ∧ ∃ o, fetchFailed P deps deployedHash build e = .ok o ∧ o.status = .failed) := by
  cases e with
  | resolve code message =>
    by_cases hcode : code = .timeout
    · exact Or.inl ⟨hcode, by simp only [fetchFailed, if_pos hcode]⟩
    · refine Or.inr ⟨hcode, ?_⟩
      simp only [fetchFailed, if_neg hcode]
      exact ⟨_, rfl, rfl⟩
  | build | error | value => exact Or.inl ⟨trivial, rfl⟩

/-- **A raised failure is thrown on, or it is a verdict**. -/
theorem runVerification_raised {stage : Stage} (h : raisedFailure P deps job = some (stage, e)) :
    (stage.Rethrows e ∧ runVerification P deps job = .error e) ∨
      (¬ stage.Rethrows e ∧ ∃ o, runVerification P deps job = .ok o ∧ o.status = .failed) := by
  cases hsig : checkSignature deps job with
  | error reason => simp [raisedFailure, hsig] at h
  | ok u =>
    cases hres : deps.resolver.resolveDeployedHash job.contractId with
    | error e' =>
      simp only [raisedFailure, hsig, hres, Option.some.injEq, Prod.mk.injEq] at h
      obtain ⟨rfl, rfl⟩ := h
      simp only [runVerification, hsig, hres]
      exact resolveFailed_cases e'
    | ok deployedHash =>
      cases hbuild : deps.executor job.toBuildInput with
      | error e' =>
        simp only [raisedFailure, hsig, hres, hbuild, Option.some.injEq, Prod.mk.injEq] at h
        obtain ⟨rfl, rfl⟩ := h
        simp only [runVerification, hsig, hres, hbuild]
        exact buildFailed_cases deployedHash e'
      | ok build =>
        simp only [raisedFailure, hsig, hres, hbuild] at h
        simp only [runVerification, hsig, hres, hbuild, compareBuild]
        by_cases hmatch : hashesMatch P build.wasmHash deployedHash = true
        · simp [hmatch] at h
        · rw [if_neg hmatch] at h ⊢
          by_cases hfirst : isFirstPartyContract P job.repoUrl deployedHash = true
          · simp [hfirst] at h
          · rw [if_neg hfirst] at h ⊢
            cases hfetch : deps.resolver.fetchDeployedWasm with
            | none => simp [hfetch] at h
            | some fetchDeployedWasm =>
              cases hwasm : fetchDeployedWasm deployedHash with
              | ok deployedWasm => simp [hfetch, hwasm] at h
              | error e' =>
                simp only [hfetch, hwasm, Option.some.injEq, Prod.mk.injEq] at h
                obtain ⟨rfl, rfl⟩ := h
                simp only [hwasm]
                exact fetchFailed_cases deployedHash build e'

end Raised

/-- The verification of the job raises a failure that is worth a retry. -/
def FailsTransiently (P : Platform) (deps : WorkerDeps) (job : ClaimedJob) : Prop :=
  ∃ stage e, raisedFailure P (deps.handed job) job.toVerificationJobInput = some (stage, e) ∧
    isTransientFailure P e = true

/-- The contract had an attestation and has none any more. -/
def Revokes (contractId : String) (w w' : Attestor.World) : Prop :=
  w.registry.attestation ⟨contractId⟩ ≠ none ∧ w'.registry.attestation ⟨contractId⟩ = none

/-- The job a worker is at. -/
def WorkerPhase.job : WorkerPhase → Option ClaimedJob
  | .idle | .stopped => none
  | .processing job | .settled job _ | .stored job _ => some job

/-- A worker's step leaves no verdict behind a transient failure, neither in the store nor on chain. -/
structure HonoursTransient (P : Platform) (store : JobStore σ) (deps : WorkerDeps) (jobs : List ClaimedJob)
    (c : Config (TickState σ) WorkerPhase) (a : ℕ × StoreReply) : Prop where
  unrecorded : ∀ job ∈ jobs, FailsTransiently P deps job →
    store.statusOf (Processes.step (workerStep P store deps) c a).shared.store job.recordId ≠ some .failed
  unrevoked : ∀ job ∈ (c.procs a.1).job, FailsTransiently P deps job →
    ¬ Revokes job.contractId c.shared.world (Processes.step (workerStep P store deps) c a).shared.world

/-- Every schedule of the tick honours transient failures. -/
def TransientNeverTerminal (P : Platform) (store : JobStore σ) (deps : WorkerDeps) (s : σ) (world : Attestor.World)
    (jobs : List ClaimedJob) : Prop :=
  ∀ schedule, Along (Processes.step (workerStep P store deps)) (HonoursTransient P store deps jobs)
    (startTick deps s world jobs) schedule

/-- **Transient trouble stays open exactly when every transient failure is one that is thrown on**. -/
theorem transient_never_terminal_iff {s s' : σ} {now : ℤ} {world : Attestor.World}
    (hclaim : store.Claims s deps.claimLimit now s' jobs) :
    TransientNeverTerminal P store deps s' world jobs ↔
      ∀ job ∈ jobs, ∀ stage e, raisedFailure P (deps.handed job) job.toVerificationJobInput = some (stage, e) →
        isTransientFailure P e = true → stage.Rethrows e := by
  have hnodup := store.claims_nodup hclaim
  have hbuilding := store.claims_building hclaim
  refine ⟨fun h job hjob stage e hraised htransient => ?_, fun h schedule => ?_⟩
  · -- if it were a verdict, the tick in which one worker gets to the job and completes it would record it
    rcases runVerification_raised hraised with ⟨hrethrows, -⟩ | ⟨-, o, hrun, hfailed⟩
    · exact hrethrows
    · obtain ⟨schedule, hphase, hstatus⟩ :=
        reaches_processing P store deps world hnodup hbuilding hjob
      have hverify : verifyClaimed P deps job = .ok o := hrun
      have halong := along_iff.mp (h (schedule ++ [(0, .completes 0), (0, .completes 0)])) (schedule ++
        [(0, .completes 0)]) (0, .completes 0) [] (by simp)
      refine absurd ?_ (halong.unrecorded job hjob ⟨stage, e, hraised, htransient⟩)
      rw [run_snoc]
      unfold runWorkerTick at hphase hstatus
      simp only [Processes.step, hphase, workerStep_verify hverify, Function.update_self, workerStep_complete]
      refine (store.complete_self hstatus).trans ?_
      rw [hfailed]
      rfl
  · have hspared : ∀ job ∈ jobs, FailsTransiently P deps job → ∃ e, verifyClaimed P deps job = .error e := by
      rintro job hjob ⟨stage, e, hraised, htransient⟩
      rcases runVerification_raised hraised with ⟨-, hrun⟩ | ⟨hno, -⟩
      · exact ⟨e, hrun⟩
      · exact absurd (h job hjob stage e hraised htransient) hno
    refine along_iff.mpr fun pre a post _ => ?_
    have hpre := runWorkerTick_within deps world hnodup hbuilding hspared pre
    have hnext := runWorkerTick_within deps world hnodup hbuilding hspared (pre ++ [a])
    unfold runWorkerTick at hpre hnext
    rw [run_snoc] at hnext
    refine ⟨hnext.shared.unfailed, fun job hjob hfails => ?_⟩
    have hown := hpre.own a.1
    generalize run (Processes.step (workerStep P store deps)) (startTick deps s' world jobs) pre = c at hown hjob ⊢
    cases hphase : c.procs a.1 with
    | idle | stopped =>
      rw [hphase] at hjob
      cases hjob
    | processing job' =>
      rw [hphase] at hjob hown
      obtain rfl : job' = job := by simpa [WorkerPhase.job] using hjob
      obtain ⟨e, herror⟩ := hspared job' hown hfails
      simp only [Processes.step, hphase, workerStep_error herror]
      exact fun hrevokes => hrevokes.1 hrevokes.2
    | settled job' o | stored job' o =>
      rw [hphase] at hjob hown
      obtain rfl : job' = job := by simpa [WorkerPhase.job] using hjob
      obtain ⟨e, herror⟩ := hspared job' hown.1 hfails
      rw [hown.2] at herror
      cases herror

/-! ## Signed jobs -/

/-- The job verifies under the secret of the tick, if there is one. -/
def SignatureValid (deps : WorkerDeps) (job : ClaimedJob) : Prop :=
  ∀ secret, truthy deps.jobSecret = some secret →
    verifyJobSignature job.toVerificationJobInput secret ⟨none, deps.nowMs⟩ = .ok ()

/-- Nothing is resolved or built for a job that does not verify, and when all workers have stopped, every completion
having been stored, its record is failed. -/
structure Enforces (store : JobStore σ) (deps : WorkerDeps) (jobs : List ClaimedJob)
    (schedule : List (ℕ × StoreReply)) (c : Config (TickState σ) WorkerPhase) : Prop where
  invoked : ∀ entry ∈ c.shared.invoked, SignatureValid deps entry.1
  failed : (∀ i, c.procs i = .stopped) → (∀ a ∈ schedule, a.2 ≠ .throws) → ∀ job ∈ jobs,
    ¬ SignatureValid deps job → store.statusOf c.shared.store job.recordId = some .failed

/-- Every schedule of the tick enforces the signatures. -/
def SignaturesEnforced (P : Platform) (store : JobStore σ) (deps : WorkerDeps) (s : σ)
    (world : Attestor.World) (jobs : List ClaimedJob) : Prop :=
  ∀ schedule, Enforces store deps jobs schedule (runWorkerTick P store deps s world jobs schedule)

/-- The contract of a job that is verified without a secret is always resolved. -/
theorem resolve_mem_verifying {s : TickState σ} {job : ClaimedJob} :
    (job, .resolveDeployedHash job.contractId) ∈ (s.verifying P deps job).invoked := by
  refine List.mem_append_right _ (List.mem_map_of_mem ?_)
  show Invocation.resolveDeployedHash job.contractId ∈ Invocation.resolveDeployedHash job.contractId :: _
  exact List.mem_cons_self

/-- **The signatures are enforced exactly when there is nothing to enforce**: the tick does not look at its secret. -/
theorem signatures_enforced_iff {s s' : σ} {now : ℤ} {world : Attestor.World}
    (hclaim : store.Claims s deps.claimLimit now s' jobs) :
    SignaturesEnforced P store deps s' world jobs ↔ ∀ job ∈ jobs, SignatureValid deps job := by
  have hnodup := store.claims_nodup hclaim
  have hbuilding := store.claims_building hclaim
  refine ⟨fun h job hjob => ?_, fun h schedule => ?_⟩
  · -- the contract of the job is resolved once a worker gets to it
    obtain ⟨schedule, hphase, -⟩ :=
      reaches_processing P store deps world hnodup hbuilding hjob
    refine (h (schedule ++ [(0, .completes 0)])).invoked (job, .resolveDeployedHash job.contractId) ?_
    unfold runWorkerTick at hphase ⊢
    rw [run_snoc]
    cases hrun : verifyClaimed P deps job with
    | ok o =>
      simp only [Processes.step, hphase, workerStep_verify hrun]
      exact resolve_mem_verifying
    | error e =>
      simp only [Processes.step, hphase, workerStep_error hrun]
      exact resolve_mem_verifying
  · have hwithin := runWorkerTick_within (P := P) deps world hnodup hbuilding
      (fun _ _ (hno : False) => hno.elim) schedule
    exact ⟨fun entry hentry => h _ (hwithin.shared.invoked entry hentry),
      fun _ _ job hjob hinvalid => absurd (h job hjob) hinvalid⟩

end Tick

/-- A job read from the table is not signed. -/
theorem PgJobStore.claims_unsigned {isUrl : String → Bool} {t t' : PgJobStore.Store} {limit : ℕ} {now : ℤ}
    {jobs : List ClaimedJob} (h : (PgJobStore.jobStore isUrl).Claims t limit now t' jobs) :
    ∀ job ∈ jobs, job.signature = none := by
  obtain ⟨-, ids, -, -, rfl⟩ := h
  show ∀ job ∈ (PgJobStore.claimJobs isUrl (ids.filterMap (PgJobStore.claimUpdate t ids now).find)).jobs, _
  induction ids.filterMap (PgJobStore.claimUpdate t ids now).find with
  | nil => exact fun job hjob => absurd hjob List.not_mem_nil
  | cons row rows ih =>
    rw [PgJobStore.claimJobs]
    cases validateImportedRecord isUrl row.record with
    | error reason => exact ih
    | ok r =>
      intro job hjob
      rcases List.mem_cons.mp hjob with rfl | hrest
      · rfl
      · exact ih job hrest

/-- With a secret, a batch from the table verifies only if it is empty. -/
theorem PgJobStore.claims_valid_iff {isUrl : String → Bool} {deps : WorkerDeps} {t t' : PgJobStore.Store}
    {now : ℤ} {jobs : List ClaimedJob} {secret : String}
    (hsecret : truthy deps.jobSecret = some secret)
    (hclaim : (PgJobStore.jobStore isUrl).Claims t deps.claimLimit now t' jobs) :
    (∀ job ∈ jobs, SignatureValid deps job) ↔ jobs = [] := by
  refine ⟨fun h => List.eq_nil_iff_forall_not_mem.mpr fun job hjob => ?_, fun h => by simp [h]⟩
  have hvalid := h job hjob secret hsecret
  have hnone : job.toVerificationJobInput.signature = none := PgJobStore.claims_unsigned hclaim job hjob
  unfold verifyJobSignature at hvalid
  rw [hnone] at hvalid
  cases hvalid

/-! Ticks over an in-memory store with one submitted record. -/

section Runs

open Attestor

def queued (job : VerificationJobInput) : MemoryJobStore.Store := MemoryJobStore.submit Table.empty "r1" job 0

def claimedOf (job : VerificationJobInput) : ClaimedJob := ⟨job, "r1", some 0, none, none⟩

/-- The queue after the claim. -/
def claimedQueue (job : VerificationJobInput) : MemoryJobStore.Store :=
  (MemoryJobStore.claimSubmitted (queued job) 1 0).1

/-- A worker that hands out one job at a time, over an executor and a resolver. -/
def workerOf (deps : RunVerificationDeps) (secret : Option String) : WorkerDeps where
  executor := fun _ => deps.executor
  resolver := fun _ => deps.resolver
  jobSecret := secret
  batchSize := none
  concurrencyLimit := none
  attestorTtl := some 500
  nowMs := 0
  random := 0

theorem claims_queued (deps : RunVerificationDeps) (secret : Option String) (job : VerificationJobInput) :
    MemoryJobStore.jobStore.Claims (queued job) (workerOf deps secret).claimLimit 0 (claimedQueue job)
      [claimedOf job] := rfl

/-- A resolver that only throws. -/
def unresolved (code : ResolveErrorCode) (message : String) : RunVerificationDeps :=
  { exactDeps with resolver := ⟨fun _ => .error (.resolve code message), none⟩ }

theorem transient_never_terminal_iff_timeout :
    TransientNeverTerminal acmePlatform MemoryJobStore.jobStore (workerOf (unresolved .timeout "rpc") none)
      (claimedQueue acmeJob) freshWorld [claimedOf acmeJob] := by
  refine (transient_never_terminal_iff (claims_queued _ none acmeJob)).mpr fun job hjob stage e hraised _ => ?_
  obtain rfl := List.mem_singleton.mp hjob
  obtain ⟨rfl, rfl⟩ : Stage.resolve = stage ∧ Thrown.resolve .timeout "rpc" = e := by
    simpa using (show some (Stage.resolve, Thrown.resolve .timeout "rpc") = some (stage, e) from hraised)
  rfl

/-- The registry attests the contract, and the network answers the two requests of a revocation. -/
def attestedWorld : World where
  registry := AttestationRegistry.step (AttestationRegistry.constructor ⟨"GATTESTOR"⟩)
    (.upsert attestorEnv ⟨"CTOKEN"⟩ ⟨List.replicate 32 7, rfl⟩ 5000)
  answers := List.replicate 2 (.ok attestorEnv)
  metrics := []

def fourSteps : List (ℕ × StoreReply) := List.replicate 4 (0, .completes 0)

/-- An RPC error of the resolver, worth a retry by the classifier, ends as a failed record and a revoked
attestation. -/
theorem rpc_error_is_terminal :
    isTransientFailure acmePlatform (.resolve .rpcError "bad gateway") = true ∧
    MemoryJobStore.statusOf (runWorkerTick acmePlatform MemoryJobStore.jobStore
      (workerOf (unresolved .rpcError "bad gateway") none) (claimedQueue acmeJob) attestedWorld [claimedOf acmeJob]
      fourSteps).shared.store "r1" = some .failed ∧
    Revokes "CTOKEN" attestedWorld (runWorkerTick acmePlatform MemoryJobStore.jobStore
      (workerOf (unresolved .rpcError "bad gateway") none) (claimedQueue acmeJob) attestedWorld [claimedOf acmeJob]
      fourSteps).shared.world ∧
    ¬ TransientNeverTerminal acmePlatform MemoryJobStore.jobStore
      (workerOf (unresolved .rpcError "bad gateway") none) (claimedQueue acmeJob) attestedWorld [claimedOf acmeJob] := by
  have hfailed : MemoryJobStore.statusOf (runWorkerTick acmePlatform MemoryJobStore.jobStore
      (workerOf (unresolved .rpcError "bad gateway") none) (claimedQueue acmeJob) attestedWorld [claimedOf acmeJob]
      fourSteps).shared.store "r1" = some .failed := by decide +kernel
  have htransient : isTransientFailure acmePlatform (.resolve .rpcError "bad gateway") = true := by decide +kernel
  refine ⟨htransient, hfailed, ⟨by decide +kernel, by decide +kernel⟩, fun h => ?_⟩
  have hlast := along_iff.mp (h fourSteps) (List.replicate 3 (0, .completes 0)) (0, .completes 0) [] rfl
  exact hlast.unrecorded (claimedOf acmeJob) List.mem_cons_self ⟨.resolve, _, rfl, htransient⟩ hfailed

def sharedSecret : String := "shared-secret"

def signedJob : VerificationJobInput := { acmeJob with signature := some (signJobPayload acmeJob sharedSecret) }

theorem signatures_enforced_iff_signed :
    SignaturesEnforced acmePlatform MemoryJobStore.jobStore (workerOf exactDeps (some sharedSecret)) (claimedQueue signedJob)
      freshWorld [claimedOf signedJob] := by
  refine (signatures_enforced_iff (claims_queued _ _ signedJob)).mpr fun job hjob s hs => ?_
  obtain rfl := List.mem_singleton.mp hjob
  obtain rfl : sharedSecret = s := Option.some.inj ((show some sharedSecret = truthy (some sharedSecret) by decide).trans hs)
  exact verifyJobSignature_sign sharedSecret rfl

/-- The unsigned job is built, whatever the secret. -/
theorem unsigned_job_is_built :
    (claimedOf acmeJob, .build acmeJob.toBuildInput) ∈ (runWorkerTick acmePlatform MemoryJobStore.jobStore
      (workerOf exactDeps (some sharedSecret)) (claimedQueue acmeJob) freshWorld [claimedOf acmeJob]
      fourSteps).shared.invoked ∧
    ¬ SignaturesEnforced acmePlatform MemoryJobStore.jobStore (workerOf exactDeps (some sharedSecret)) (claimedQueue acmeJob)
      freshWorld [claimedOf acmeJob] := by
  have hbuilt : (claimedOf acmeJob, .build acmeJob.toBuildInput) ∈ (runWorkerTick acmePlatform MemoryJobStore.jobStore
      (workerOf exactDeps (some sharedSecret)) (claimedQueue acmeJob) freshWorld [claimedOf acmeJob]
      fourSteps).shared.invoked := by decide +kernel
  refine ⟨hbuilt, fun h => ?_⟩
  have hvalid := (h fourSteps).invoked _ hbuilt sharedSecret (by decide)
  exact absurd hvalid (by decide +kernel)

end Runs

end Vellar.Worker
