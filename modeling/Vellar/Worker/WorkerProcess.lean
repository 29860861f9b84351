import Vellar.Worker.Loop

/-!
# Vellar.Worker.WorkerProcess — the loops of the worker process

`services/worker-service/src/index.ts`, `loop.ts` and the consumer groups: the main loop and the loops of the verification group
over one store, and the drain on shutdown.  A loop wakes, claims a batch, lets its lanes work it off and sleeps again; lanes and loops
interleave at every await.  The group is assembled without an attestor, and the drain waits for the main loop alone: `mirrors_iff`
says that a run mirrors every verdict and drains every loop exactly when no job of a group loop is completed and no group loop holds
a job when the main loop has drained.
-/

set_option autoImplicit false

namespace Vellar.Worker.WorkerProcess

open Machine

/-! ## The wiring -/

/-- What `index.ts` has when an attestor is configured. -/
structure Wiring where
  executor : String → BuildExecutor
  resolver : String → ContractArtifactResolver
  concurrencyLimit : Option ℤ
  workerConcurrency : Option ℕ
  attestorTtl : ℕ
  nowMs : ℤ
  random : ℚ

/-- What `startWorkerLoop` is given for the main loop. -/
def Wiring.mainLoop (w : Wiring) : WorkerDeps where
  executor := w.executor
  resolver := w.resolver
  jobSecret := none
  batchSize := none
  concurrencyLimit := w.concurrencyLimit
  attestorTtl := some w.attestorTtl
  nowMs := w.nowMs
  random := w.random

/-- What `createVerificationGroup` hands to `startConsumerGroup`: the store, the executor and the resolver. -/
def Wiring.verificationGroup (w : Wiring) : WorkerDeps where
  executor := w.executor
  resolver := w.resolver
  jobSecret := none
  batchSize := none
  concurrencyLimit := none
  attestorTtl := none
  nowMs := w.nowMs
  random := w.random

/-- The main loop is number 0, the group's follow. -/
def Wiring.deps (w : Wiring) : ℕ → WorkerDeps
  | 0 => w.mainLoop
  | _ + 1 => w.verificationGroup

def Wiring.loopCount (w : Wiring) : ℕ := 1 + w.workerConcurrency.getD 1

/-! ## Lanes -/

/-- What a lane does with a job. -/
inductive LaneEvent where
  | started (job : ClaimedJob)
  /-- `store.complete` resolved. -/
  | completed (job : ClaimedJob) (outcome : VerificationOutcome)
  | reported (contractId : String) (outcome : VerificationOutcome) (repoUrl : Option String)
  /-- `processJob` returned. -/
  | ended (job : ClaimedJob)
deriving DecidableEq

def LaneEvent.startedJob : LaneEvent → Option ClaimedJob
  | .started job => some job
  | _ => none

section Lane

variable (P : Platform) {σ : Type} (store : JobStore σ) (deps : WorkerDeps)

/-- One step of a lane, and what it does.  Without an attestor there is no await after the completion. -/
def laneStep (reply : StoreReply) (p : WorkerPhase) (s : TickState σ) : (WorkerPhase × TickState σ) × List LaneEvent :=
  let moved := workerStep P store deps reply p s
  match p, moved.1 with
  | .idle, .processing job => (moved, [.started job])
  | .settled job outcome, .stored _ _ =>
    match deps.attestorTtl with
    | some _ => (moved, [.completed job outcome])
    | none => (workerStep P store deps reply moved.1 moved.2, [.completed job outcome, .ended job])
  | .stored job outcome, _ =>
    match deps.attestorTtl with
    | some _ => (moved, [.reported job.contractId outcome job.repoUrl, .ended job])
    | none => (moved, [.ended job])
  | .processing job, .idle | .settled job _, .idle => (moved, [.ended job])
  | _, _ => (moved, [])

/-- All the ways a lane moves, over the jobs no lane has taken. -/
inductive LaneMove : StoreReply → WorkerPhase → List ClaimedJob → WorkerPhase → List ClaimedJob → List LaneEvent → Prop where
  | stop (reply : StoreReply) : LaneMove reply .idle [] .stopped [] []
  | take (reply : StoreReply) (job : ClaimedJob) (rest : List ClaimedJob) :
      LaneMove reply .idle (job :: rest) (.processing job) rest [.started job]
  | verify (reply : StoreReply) (job : ClaimedJob) (o : VerificationOutcome) (pending : List ClaimedJob) :
      LaneMove reply (.processing job) pending (.settled job o) pending []
  | error (reply : StoreReply) (job : ClaimedJob) (pending : List ClaimedJob) :
      LaneMove reply (.processing job) pending .idle pending [.ended job]
  | complete (now : ℤ) (job : ClaimedJob) (o : VerificationOutcome) (pending : List ClaimedJob) (hattests : deps.attestorTtl ≠ none) :
      LaneMove (.completes now) (.settled job o) pending (.stored job o) pending [.completed job o]
  | mute (now : ℤ) (job : ClaimedJob) (o : VerificationOutcome) (pending : List ClaimedJob) (hmute : deps.attestorTtl = none) :
      LaneMove (.completes now) (.settled job o) pending .idle pending [.completed job o, .ended job]
  | refuse (job : ClaimedJob) (o : VerificationOutcome) (pending : List ClaimedJob) :
      LaneMove .throws (.settled job o) pending .idle pending [.ended job]
  | report (reply : StoreReply) (job : ClaimedJob) (o : VerificationOutcome) (pending : List ClaimedJob)
      (hattests : deps.attestorTtl ≠ none) :
      LaneMove reply (.stored job o) pending .idle pending [.reported job.contractId o job.repoUrl, .ended job]
  | skip (reply : StoreReply) (job : ClaimedJob) (o : VerificationOutcome) (pending : List ClaimedJob)
      (hmute : deps.attestorTtl = none) : LaneMove reply (.stored job o) pending .idle pending [.ended job]
  | rest (reply : StoreReply) (pending : List ClaimedJob) : LaneMove reply .stopped pending .stopped pending []

variable {P store deps}

variable (P store deps) in
theorem move_laneStep (reply : StoreReply) (p : WorkerPhase) (s : TickState σ) :
    LaneMove deps reply p s.pending (laneStep P store deps reply p s).1.1 (laneStep P store deps reply p s).1.2.pending
      (laneStep P store deps reply p s).2 := by
  unfold laneStep
  cases p with
  | idle =>
    cases hpending : s.pending with
    | nil =>
      rw [workerStep_stop hpending]
      dsimp only
      rw [hpending]
      exact .stop reply
    | cons job rest =>
      rw [workerStep_take hpending]
      exact .take reply job rest
  | processing job =>
    cases hrun : verifyClaimed P deps job with
    | ok o =>
      rw [workerStep_verify hrun]
      exact .verify reply job o _
    | error e =>
      rw [workerStep_error hrun]
      exact .error reply job _
  | settled job o =>
    cases reply with
    | completes now =>
      rw [workerStep_complete]
      dsimp only
      cases hattests : deps.attestorTtl with
      | some ttl => exact .complete now job o _ (by rw [hattests]; exact Option.some_ne_none ttl)
      | none =>
        dsimp only
        rw [workerStep_report]
        dsimp only [TickState.reporting]
        rw [hattests]
        exact .mute now job o _ hattests
    | throws => exact .refuse job o _
  | stored job o =>
    rw [workerStep_report]
    dsimp only [TickState.reporting]
    cases hattests : deps.attestorTtl with
    | some ttl => exact .report reply job o _ (by rw [hattests]; exact Option.some_ne_none ttl)
    | none => exact .skip reply job o _ hattests
  | stopped => exact .rest reply _

end Lane

/-! ## Loops -/

/-- A batch that is worked off. -/
structure Tick where
  taken : List ClaimedJob
  pending : List ClaimedJob
  lanes : ℕ → WorkerPhase

/-- Where a loop is. -/
inductive Stage where
  /-- The timer is set, or the loop is stopped. -/
  | waiting
  | claiming
  | running (tick : Tick)

structure LoopState where
  stopped : Bool
  stage : Stage

inductive Event where
  | claimed (loop : ℕ) (jobs : List ClaimedJob)
  | lane (loop lane : ℕ) (event : LaneEvent)
  /-- `drain` returned true, with the jobs that all the loops still held. -/
  | drained (held : List ClaimedJob)
deriving DecidableEq

structure State (σ : Type) where
  store : σ
  world : Attestor.World
  loops : ℕ → LoopState
  draining : Bool
  log : List Event

inductive Action (σ : Type) where
  | wake (loop : ℕ)
  /-- `claimSubmitted` returns, with the store and the jobs, or throws. -/
  | claimed (loop : ℕ) (now : ℤ) (answer : Option (σ × List ClaimedJob))
  | lane (loop lane : ℕ) (reply : StoreReply)
  /-- All lanes are done. -/
  | finish (loop : ℕ)
  | shutdown
  | drained
  /-- The ten seconds are over. -/
  | timedOut

def startTick (deps : WorkerDeps) (jobs : List ClaimedJob) : Tick :=
  ⟨[], jobs, fun k => if k < min deps.concurrency jobs.length then .idle else .stopped⟩

def isStopped : WorkerPhase → Bool
  | .stopped => true
  | _ => false

/-- The claimed jobs a tick has not finished. -/
def Stage.held (deps : WorkerDeps) : Stage → List ClaimedJob
  | .running t => t.pending ++ (List.range deps.concurrency).filterMap fun k => (t.lanes k).job
  | _ => []

def Stage.lanes : Stage → ℕ → WorkerPhase
  | .running t => t.lanes
  | _ => fun _ => .stopped

section Process

variable (P : Platform) {σ : Type} (store : JobStore σ) (w : Wiring)

def State.init (s : σ) (world : Attestor.World) : State σ := ⟨s, world, fun _ => ⟨false, .waiting⟩, false, []⟩

def State.setStage (s : State σ) (loop : ℕ) (stage : Stage) : State σ :=
  { s with loops := Function.update s.loops loop ⟨(s.loops loop).stopped, stage⟩ }

/-- `verificationGroup.stop()`, after the drain. -/
def State.stopGroup (s : State σ) : State σ :=
  { s with draining := false, loops := fun i => if i = 0 then s.loops 0 else ⟨true, (s.loops i).stage⟩ }

/-- The jobs all loops hold. -/
def State.held (s : State σ) : List ClaimedJob :=
  (List.range w.loopCount).flatMap fun i => (s.loops i).stage.held (w.deps i)

def step (s : State σ) : Action σ → State σ
  | .wake i =>
    match (s.loops i).stage with
    | .waiting => if i < w.loopCount ∧ (s.loops i).stopped = false then s.setStage i .claiming else s
    | _ => s
  | .claimed i _ answer =>
    match (s.loops i).stage with
    | .claiming =>
      match answer with
      | none => s.setStage i .waiting
      | some (store', jobs) =>
        { s.setStage i (.running (startTick (w.deps i) jobs)) with store := store', log := s.log ++ [.claimed i jobs] }
    | _ => s
  | .lane i k reply =>
    match (s.loops i).stage with
    | .running t =>
      let moved := laneStep P store (w.deps i) reply (t.lanes k) ⟨t.pending, s.store, s.world, []⟩
      { s.setStage i (.running ⟨t.taken ++ moved.2.filterMap LaneEvent.startedJob, moved.1.2.pending,
          Function.update t.lanes k moved.1.1⟩) with
        store := moved.1.2.store
        world := moved.1.2.world
        log := s.log ++ moved.2.map (.lane i k) }
    | _ => s
  | .finish i =>
    match (s.loops i).stage with
    | .running t =>
      if (List.range (w.deps i).concurrency).all fun k => isStopped (t.lanes k) then s.setStage i .waiting else s
    | _ => s
  | .shutdown => { s with draining := true, loops := Function.update s.loops 0 ⟨true, (s.loops 0).stage⟩ }
  | .drained =>
    match (s.loops 0).stage with
    | .waiting => if s.draining then { s.stopGroup with log := s.log ++ [.drained (s.held w)] } else s
    | _ => s
  | .timedOut => if s.draining then s.stopGroup else s

/-- What a claim returns is what the store may hand out. -/
def Possible (s : State σ) : Action σ → Prop
  | .claimed i now (some (store', jobs)) => store.Claims s.store (w.deps i).claimLimit now store' jobs
  | _ => True

/-! ## What is promised -/

/-- A job a lane is done with, and its outcome, if it was completed. -/
structure Round where
  job : ClaimedJob
  outcome : Option VerificationOutcome

def Round.events (r : Round) : List LaneEvent :=
  match r.outcome with
  | none => [.started r.job, .ended r.job]
  | some o => [.started r.job, .completed r.job o, .reported r.job.contractId o r.job.repoUrl, .ended r.job]

/-- What a lane has done with the job it is at. -/
def begun : WorkerPhase → List LaneEvent
  | .idle | .stopped => []
  | .processing job | .settled job _ => [.started job]
  | .stored job o => [.started job, .completed job o]

def laneEvent (i k : ℕ) : Event → Option LaneEvent
  | .lane i' k' e => if i' = i ∧ k' = k then some e else none
  | _ => none

def laneTrace (i k : ℕ) (log : List Event) : List LaneEvent := log.filterMap (laneEvent i k)

/-- A batch, or a job taken from it. -/
inductive TickEvent where
  | claimed (jobs : List ClaimedJob)
  | started (job : ClaimedJob)

def tickEvent (i : ℕ) : Event → Option TickEvent
  | .claimed i' jobs => if i' = i then some (.claimed jobs) else none
  | .lane i' _ (.started job) => if i' = i then some (.started job) else none
  | _ => none

def tickTrace (i : ℕ) (log : List Event) : List TickEvent := log.filterMap (tickEvent i)

/-- A batch that is worked off: every job of it is taken once, in order. -/
def batchEvents (jobs : List ClaimedJob) : List TickEvent := .claimed jobs :: jobs.map .started

def Stage.begun : Stage → List TickEvent
  | .running t => .claimed (t.taken ++ t.pending) :: t.taken.map .started
  | _ => []

structure Mirrors (s : State σ) : Prop where
  /-- Every completion is reported, once, before the lane takes another job. -/
  lanes : ∀ i k, ∃ rounds : List Round, laneTrace i k s.log = rounds.flatMap Round.events ++ begun ((s.loops i).stage.lanes k)
  ticks : ∀ i, ∃ batches : List (List ClaimedJob), tickTrace i s.log = batches.flatMap batchEvents ++ (s.loops i).stage.begun
  limit : ∀ i k, ((s.loops i).stage.lanes k).job ≠ none → k < (w.deps i).concurrency
  drained : ∀ held, .drained held ∈ s.log → held = []

/-- No lane without an attestor completes a job, and no group loop holds one when the main loop has drained. -/
def Orderly (s : State σ) : Action σ → Prop
  | .lane i k (.completes _) => ∀ job o, (s.loops i).stage.lanes k = .settled job o → (w.deps i).attestorTtl ≠ none
  | .drained => s.draining = true → (s.loops 0).stage = .waiting → ∀ i < w.loopCount, (s.loops i).stage.held (w.deps i) = []
  | _ => True

end Process

/-! ## Traces -/

section Traces

variable {i j k l : ℕ} {log log' : List Event} {events : List LaneEvent}

theorem laneTrace_append : laneTrace i k (log ++ log') = laneTrace i k log ++ laneTrace i k log' := List.filterMap_append

theorem tickTrace_append : tickTrace i (log ++ log') = tickTrace i log ++ tickTrace i log' := List.filterMap_append

theorem laneTrace_lane_self : laneTrace i k (events.map (.lane i k)) = events := by
  induction events with
  | nil => rfl
  | cons e events ih =>
    unfold laneTrace at ih ⊢
    rw [List.map_cons, List.filterMap_cons, ih]
    simp [laneEvent]

theorem laneTrace_lane_other (h : i = j → k ≠ l) : laneTrace j l (events.map (.lane i k)) = [] := by
  refine List.filterMap_eq_nil_iff.mpr fun e he => ?_
  obtain ⟨e', -, rfl⟩ := List.mem_map.mp he
  exact if_neg fun hboth => h hboth.1 hboth.2

theorem tickTrace_lane_self : tickTrace i (events.map (.lane i k)) = (events.filterMap LaneEvent.startedJob).map .started := by
  unfold tickTrace
  rw [List.filterMap_map, List.map_filterMap]
  refine congrArg (fun f => events.filterMap f) (funext fun e => ?_)
  cases e with
  | started job => exact if_pos rfl
  | completed | reported | ended => rfl

theorem tickTrace_lane_other (h : i ≠ j) : tickTrace j (events.map (.lane i k)) = [] := by
  refine List.filterMap_eq_nil_iff.mpr fun e he => ?_
  obtain ⟨e', -, rfl⟩ := List.mem_map.mp he
  cases e' with
  | started job => exact if_neg h
  | completed | reported | ended => rfl

end Traces

/-! ## What every run keeps -/

section Base

variable {P : Platform} {σ : Type} {store : JobStore σ} {w : Wiring} {deps : WorkerDeps} {s s' : State σ}

theorem LaneMove.startedJobs {reply : StoreReply} {p p' : WorkerPhase} {pending pending' : List ClaimedJob} {events : List LaneEvent}
    (h : LaneMove deps reply p pending p' pending' events) : events.filterMap LaneEvent.startedJob ++ pending' = pending := by
  cases h <;> rfl

structure StageOk (deps : WorkerDeps) (stage : Stage) : Prop where
  /-- There are no more lanes than the limit. -/
  past : ∀ k, deps.concurrency ≤ k → stage.lanes k = .stopped
  /-- While there are jobs to take, some lane will. -/
  awake : ∀ t, stage = .running t → t.pending ≠ [] → ∃ k < deps.concurrency, t.lanes k ≠ .stopped
  attested : ∀ k job o, stage.lanes k = .stored job o → deps.attestorTtl ≠ none

theorem stageOk_waiting : StageOk deps .waiting := ⟨fun _ _ => rfl, fun _ h => (nomatch h), fun _ _ _ h => nomatch h⟩

theorem stageOk_claiming : StageOk deps .claiming := ⟨fun _ _ => rfl, fun _ h => (nomatch h), fun _ _ _ h => nomatch h⟩

theorem concurrency_pos (deps : WorkerDeps) : 0 < deps.concurrency := by
  unfold WorkerDeps.concurrency
  omega

theorem stageOk_start (jobs : List ClaimedJob) : StageOk deps (.running (startTick deps jobs)) where
  past k hk := if_neg (by omega)
  awake t ht hpending := by
    obtain rfl := (Stage.running.inj ht).symm
    have hjobs : 0 < jobs.length := List.length_pos_iff.mpr hpending
    have hpos := concurrency_pos deps
    refine ⟨0, hpos, ?_⟩
    show (if 0 < min deps.concurrency jobs.length then WorkerPhase.idle else .stopped) ≠ .stopped
    rw [if_pos (by omega)]
    exact fun h => nomatch h
  attested k job o h := by
    have hphase : (if k < min deps.concurrency jobs.length then WorkerPhase.idle else .stopped) = .stored job o := h
    split at hphase <;> cases hphase

theorem stageOk_lane {t : Tick} (h : StageOk deps (.running t)) {reply : StoreReply} {k : ℕ} {p' : WorkerPhase}
    {pending' taken' : List ClaimedJob} {events : List LaneEvent}
    (hmove : LaneMove deps reply (t.lanes k) t.pending p' pending' events) :
    StageOk deps (.running ⟨taken', pending', Function.update t.lanes k p'⟩) where
  past l hl := by
    show Function.update t.lanes k p' l = .stopped
    by_cases hlk : l = k
    · rw [hlk, Function.update_self]
      have hstopped : t.lanes k = .stopped := hlk ▸ h.past l hl
      rw [hstopped] at hmove
      cases hmove
      rfl
    · rw [Function.update_of_ne hlk]
      exact h.past l hl
  awake t' ht' hpending := by
    obtain rfl := (Stage.running.inj ht').symm
    have hne : t.pending ≠ [] := by
      intro hnil
      have hall := hmove.startedJobs
      rw [hnil] at hall
      exact hpending (List.append_eq_nil_iff.mp hall).2
    obtain ⟨l, hl, hawake⟩ := h.awake t rfl hne
    refine ⟨l, hl, ?_⟩
    show Function.update t.lanes k p' l ≠ .stopped
    by_cases hlk : l = k
    · -- A lane stops only when there is nothing to take.
      rw [hlk, Function.update_self]
      rintro rfl
      rw [hlk] at hawake
      generalize t.lanes k = p at hmove hawake
      generalize t.pending = pending at hmove
      cases hmove with
      | stop => exact hpending rfl
      | rest => exact hawake rfl
    · rwa [Function.update_of_ne hlk]
  attested l job o hl := by
    have hphase : Function.update t.lanes k p' l = .stored job o := hl
    by_cases hlk : l = k
    · rw [hlk, Function.update_self] at hphase
      rw [hphase] at hmove
      generalize t.lanes k = p at hmove
      generalize t.pending = pending at hmove
      cases hmove with
      | complete now job o pending hattests => exact hattests
    · rw [Function.update_of_ne hlk] at hphase
      exact h.attested l job o hphase

structure Base (w : Wiring) (s : State σ) : Prop where
  stages : ∀ i, StageOk (w.deps i) (s.loops i).stage
  ticks : ∀ i, ∃ batches : List (List ClaimedJob), tickTrace i s.log = batches.flatMap batchEvents ++ (s.loops i).stage.begun

theorem base_init (st : σ) (world : Attestor.World) : Base w (State.init st world) where
  stages _ := stageOk_waiting
  ticks _ := ⟨[], rfl⟩

/-- One loop moves, with what it adds to the history. -/
theorem Base.moved (h : Base w s) (i : ℕ) (events : List Event) (hothers : ∀ j, j ≠ i → (s'.loops j).stage = (s.loops j).stage)
    (hlog : s'.log = s.log ++ events) (hquiet : ∀ j, j ≠ i → tickTrace j events = []) (hok : StageOk (w.deps i) (s'.loops i).stage)
    (htick : ∀ batches : List (List ClaimedJob), tickTrace i s.log = batches.flatMap batchEvents ++ (s.loops i).stage.begun →
      ∃ batches' : List (List ClaimedJob), tickTrace i s.log ++ tickTrace i events = batches'.flatMap batchEvents ++
        (s'.loops i).stage.begun) : Base w s' where
  stages j := by
    by_cases hj : j = i
    · exact hj ▸ hok
    · rw [hothers j hj]
      exact h.stages j
  ticks j := by
    obtain ⟨batches, hbatches⟩ := h.ticks j
    rw [hlog, tickTrace_append]
    by_cases hj : j = i
    · subst hj
      exact htick batches hbatches
    · rw [hothers j hj, hquiet j hj, List.append_nil]
      exact ⟨batches, hbatches⟩

/-- Only flags change. -/
theorem Base.flags (h : Base w s) (events : List Event) (hstages : ∀ i, (s'.loops i).stage = (s.loops i).stage)
    (hlog : s'.log = s.log ++ events) (hquiet : ∀ i, tickTrace i events = []) : Base w s' where
  stages i := by
    rw [hstages]
    exact h.stages i
  ticks i := by
    rw [hlog, tickTrace_append, hquiet, List.append_nil, hstages]
    exact h.ticks i

theorem setStage_other {i j : ℕ} {stage : Stage} (h : j ≠ i) : ((s.setStage i stage).loops j).stage = (s.loops j).stage := by
  show (Function.update s.loops i _ j).stage = _
  rw [Function.update_of_ne h]

theorem setStage_self {i : ℕ} {stage : Stage} : ((s.setStage i stage).loops i).stage = stage := by
  show (Function.update s.loops i _ i).stage = _
  rw [Function.update_self]

theorem stopGroup_stage (i : ℕ) : (s.stopGroup.loops i).stage = (s.loops i).stage := by
  show (if i = 0 then s.loops 0 else ⟨true, (s.loops i).stage⟩ : LoopState).stage = _
  split
  · next h => rw [h]
  · rfl

theorem shutdown_stage (i : ℕ) : (Function.update s.loops 0 ⟨true, (s.loops 0).stage⟩ i).stage = (s.loops i).stage := by
  by_cases hi : i = 0
  · rw [hi, Function.update_self]
  · rw [Function.update_of_ne hi]

/-- When all lanes have stopped, the whole batch was taken. -/
theorem StageOk.all_taken {t : Tick} (h : StageOk deps (.running t))
    (hall : ((List.range deps.concurrency).all fun k => isStopped (t.lanes k)) = true) : t.pending = [] := by
  by_contra hpending
  obtain ⟨k, hk, hawake⟩ := h.awake t rfl hpending
  have hstopped := List.all_eq_true.mp hall k (List.mem_range.mpr hk)
  generalize t.lanes k = p at hawake hstopped
  cases p with
  | stopped => exact hawake rfl
  | idle | processing | settled | stored => cases hstopped

/-- **Step lemma**, of any step. -/
theorem base_step (h : Base w s) (a : Action σ) : Base w (step P store w s a) := by
  cases a with
  | wake i =>
    unfold step
    dsimp only
    split
    · next hstage =>
      split
      · refine h.moved i [] (fun j hj => setStage_other hj) (List.append_nil _).symm (fun _ _ => rfl) ?_ fun batches hbatches => ⟨batches, ?_⟩
        · rw [setStage_self]
          exact stageOk_claiming
        · rw [setStage_self, hbatches, hstage]
          exact List.append_nil _
      · exact h
    · exact h
  | claimed i now answer =>
    unfold step
    dsimp only
    split
    · next hstage =>
      split
      · refine h.moved i [] (fun j hj => setStage_other hj) (List.append_nil _).symm (fun _ _ => rfl) ?_ fun batches hbatches => ⟨batches, ?_⟩
        · rw [setStage_self]
          exact stageOk_waiting
        · rw [setStage_self, hbatches, hstage]
          exact List.append_nil _
      · next store' jobs =>
        refine h.moved i [.claimed i jobs] (fun j hj => setStage_other hj) rfl (fun j hj => ?_) ?_ fun batches hbatches => ⟨batches, ?_⟩
        · simp [tickTrace, tickEvent, Ne.symm hj]
        · show StageOk _ ((s.setStage i _).loops i).stage
          rw [setStage_self]
          exact stageOk_start jobs
        · show _ = _ ++ ((s.setStage i _).loops i).stage.begun
          rw [setStage_self, hbatches, hstage]
          simp [tickTrace, tickEvent, Stage.begun, startTick]
    · exact h
  | lane i k reply =>
    unfold step
    dsimp only
    split
    · next t hstage =>
      have hmove := move_laneStep P store (w.deps i) reply (t.lanes k) ⟨t.pending, s.store, s.world, []⟩
      generalize laneStep P store (w.deps i) reply (t.lanes k) ⟨t.pending, s.store, s.world, []⟩ = moved at hmove ⊢
      have hok := h.stages i
      rw [hstage] at hok
      refine h.moved i (moved.2.map (.lane i k)) (fun j hj => setStage_other hj) rfl (fun j hj => tickTrace_lane_other (Ne.symm hj)) ?_
        fun batches hbatches => ⟨batches, ?_⟩
      · show StageOk _ ((s.setStage i _).loops i).stage
        rw [setStage_self]
        exact stageOk_lane hok hmove
      · show _ = _ ++ ((s.setStage i _).loops i).stage.begun
        have htaken : moved.2.filterMap LaneEvent.startedJob ++ moved.1.2.pending = t.pending := hmove.startedJobs
        rw [setStage_self, hbatches, hstage, tickTrace_lane_self]
        simp [Stage.begun, htaken]
    · exact h
  | finish i =>
    unfold step
    dsimp only
    split
    · next t hstage =>
      split
      · next hall =>
        have hok := h.stages i
        rw [hstage] at hok
        have htaken := hok.all_taken hall
        refine h.moved i [] (fun j hj => setStage_other hj) (List.append_nil _).symm (fun _ _ => rfl) ?_
          fun batches hbatches => ⟨batches ++ [t.taken], ?_⟩
        · rw [setStage_self]
          exact stageOk_waiting
        · rw [setStage_self, hbatches, hstage]
          simp [Stage.begun, htaken, batchEvents, tickTrace]
      · exact h
    · exact h
  | shutdown => exact h.flags [] (fun i => shutdown_stage i) (List.append_nil _).symm fun _ => rfl
  | drained =>
    unfold step
    dsimp only
    split
    · split
      · exact h.flags [_] (fun i => stopGroup_stage i) rfl fun _ => rfl
      · exact h
    · exact h
  | timedOut =>
    unfold step
    dsimp only
    split
    · exact h.flags [] (fun i => stopGroup_stage i) (List.append_nil _).symm fun _ => rfl
    · exact h

end Base

/-! ## What an orderly run keeps -/

section Ordered

variable {P : Platform} {σ : Type} {store : JobStore σ} {w : Wiring} {deps : WorkerDeps} {s s' : State σ}

structure Ordered (s : State σ) : Prop where
  lanes : ∀ i k, ∃ rounds : List Round, laneTrace i k s.log = rounds.flatMap Round.events ++ begun ((s.loops i).stage.lanes k)
  drained : ∀ held, .drained held ∈ s.log → held = []

theorem ordered_init (st : σ) (world : Attestor.World) : Ordered (State.init st world) where
  lanes _ _ := ⟨[], rfl⟩
  drained _ h := nomatch h

/-- A lane goes on in its round, or ends it. -/
theorem LaneMove.rounds {reply : StoreReply} {p p' : WorkerPhase} {pending pending' : List ClaimedJob} {events trace : List LaneEvent}
    {rounds : List Round} (h : LaneMove deps reply p pending p' pending' events)
    (hattests : ∀ job o, (∃ now, reply = .completes now) ∧ p = .settled job o ∨ p = .stored job o → deps.attestorTtl ≠ none)
    (htrace : trace = rounds.flatMap Round.events ++ begun p) :
    ∃ rounds' : List Round, trace ++ events = rounds'.flatMap Round.events ++ begun p' := by
  subst htrace
  -- A round more, where the job ends.
  have hround : ∀ (r : Round) (done : List LaneEvent), done ++ events = r.events → begun p = done → begun p' = [] →
      ∃ rounds' : List Round, rounds.flatMap Round.events ++ begun p ++ events = rounds'.flatMap Round.events ++ begun p' := by
    intro r done hevents hdone hnone
    refine ⟨rounds ++ [r], ?_⟩
    rw [hdone, hnone, List.append_assoc, hevents]
    simp
  cases h with
  | stop | verify | rest => exact ⟨rounds, List.append_nil _⟩
  | take reply job rest => exact ⟨rounds, by rw [begun, List.append_nil, begun]⟩
  | error reply job pending => exact hround ⟨job, none⟩ _ rfl rfl rfl
  | complete now job o pending hattests' => exact ⟨rounds, by rw [List.append_assoc]; rfl⟩
  | mute now job o pending hmute => exact absurd hmute (hattests job o (.inl ⟨⟨now, rfl⟩, rfl⟩))
  | refuse job o pending => exact hround ⟨job, none⟩ _ rfl rfl rfl
  | report reply job o pending hattests' => exact hround ⟨job, some o⟩ _ rfl rfl rfl
  | skip reply job o pending hmute => exact absurd hmute (hattests job o (.inr rfl))

/-- One loop moves, with what its lanes add to the history. -/
theorem Ordered.moved (h : Ordered s) (i : ℕ) (events : List Event) (hothers : ∀ j, j ≠ i → (s'.loops j).stage = (s.loops j).stage)
    (hlog : s'.log = s.log ++ events) (hquiet : ∀ j k, j ≠ i → laneTrace j k events = []) (hdrained : ∀ held, .drained held ∉ events)
    (hlanes : ∀ k (rounds : List Round), laneTrace i k s.log = rounds.flatMap Round.events ++ begun ((s.loops i).stage.lanes k) →
      ∃ rounds' : List Round, laneTrace i k s.log ++ laneTrace i k events = rounds'.flatMap Round.events ++
        begun ((s'.loops i).stage.lanes k)) : Ordered s' where
  lanes j k := by
    obtain ⟨rounds, hrounds⟩ := h.lanes j k
    rw [hlog, laneTrace_append]
    by_cases hj : j = i
    · subst hj
      exact hlanes k rounds hrounds
    · rw [hothers j hj, hquiet j k hj, List.append_nil]
      exact ⟨rounds, hrounds⟩
  drained held hheld := by
    rw [hlog] at hheld
    exact h.drained held ((List.mem_append.mp hheld).resolve_right (hdrained held))

/-- Only flags change, or the drain is over with nothing held. -/
theorem Ordered.flags (h : Ordered s) (events : List Event) (hstages : ∀ i, (s'.loops i).stage = (s.loops i).stage)
    (hlog : s'.log = s.log ++ events) (hevents : ∀ e ∈ events, e = .drained []) : Ordered s' where
  lanes i k := by
    have hquiet : laneTrace i k events = [] := List.filterMap_eq_nil_iff.mpr fun e he => by
      rw [hevents e he]
      rfl
    rw [hlog, laneTrace_append, hquiet, List.append_nil, hstages]
    exact h.lanes i k
  drained held hheld := by
    rw [hlog] at hheld
    rcases List.mem_append.mp hheld with hold | hnew
    · exact h.drained held hold
    · exact Event.drained.inj (hevents _ hnew)

/-- A loop with no lanes at work goes on to lanes that are not. -/
theorem Ordered.quiet (h : Ordered s) (i : ℕ) (stage : Stage) (events : List Event) (hlog : s'.log = s.log ++ events)
    (hloops : s'.loops = (s.setStage i stage).loops) (hevents : ∀ e ∈ events, ∃ jobs, e = .claimed i jobs)
    (hbefore : ∀ k, begun ((s.loops i).stage.lanes k) = []) (hafter : ∀ k, begun (stage.lanes k) = []) : Ordered s' := by
  have hnone : ∀ j k, laneTrace j k events = [] := fun j k => List.filterMap_eq_nil_iff.mpr fun e he => by
    obtain ⟨jobs, rfl⟩ := hevents e he
    rfl
  refine h.moved i events (fun j hj => ?_) hlog (fun j k _ => hnone j k) (fun held he => ?_) fun k rounds hrounds => ⟨rounds, ?_⟩
  · rw [hloops]
    exact setStage_other hj
  · obtain ⟨jobs, hjobs⟩ := hevents _ he
    cases hjobs
  · rw [hnone, List.append_nil, hrounds, hloops, setStage_self, hbefore, hafter]

/-- **Step lemma**, of an orderly step. -/
theorem ordered_step (hbase : Base w s) (h : Ordered s) {a : Action σ} (horderly : Orderly w s a) : Ordered (step P store w s a) := by
  cases a with
  | wake i =>
    unfold step
    dsimp only
    split
    · next hstage =>
      split
      · refine h.quiet i .claiming [] (List.append_nil _).symm rfl (fun _ he => nomatch he) (fun k => ?_) fun k => rfl
        rw [hstage]
        rfl
      · exact h
    · exact h
  | claimed i now answer =>
    unfold step
    dsimp only
    split
    · next hstage =>
      have hbefore : ∀ k, begun ((s.loops i).stage.lanes k) = [] := by
        intro k
        rw [hstage]
        rfl
      split
      · exact h.quiet i .waiting [] (List.append_nil _).symm rfl (fun _ he => nomatch he) hbefore fun k => rfl
      · next store' jobs =>
        refine h.quiet i _ [.claimed i jobs] rfl rfl (fun e he => ⟨jobs, List.mem_singleton.mp he⟩) hbefore fun k => ?_
        show begun (if k < min (w.deps i).concurrency jobs.length then .idle else .stopped) = []
        split <;> rfl
    · exact h
  | lane i k reply =>
    unfold step
    dsimp only
    split
    · next t hstage =>
      have hmove := move_laneStep P store (w.deps i) reply (t.lanes k) ⟨t.pending, s.store, s.world, []⟩
      generalize laneStep P store (w.deps i) reply (t.lanes k) ⟨t.pending, s.store, s.world, []⟩ = moved at hmove ⊢
      have hlanes : (s.loops i).stage.lanes = t.lanes := by rw [hstage]; rfl
      have hattests : ∀ job o, (∃ now, reply = .completes now) ∧ t.lanes k = .settled job o ∨ t.lanes k = .stored job o →
          (w.deps i).attestorTtl ≠ none := by
        rintro job o (⟨⟨now, rfl⟩, hsettled⟩ | hstored)
        · exact horderly job o (hlanes ▸ hsettled)
        · exact (hbase.stages i).attested k job o (hlanes ▸ hstored)
      refine h.moved i (moved.2.map (.lane i k)) (fun j hj => setStage_other hj) rfl
        (fun j l hj => laneTrace_lane_other fun heq => absurd heq.symm hj) (fun held he => ?_) fun l rounds hrounds => ?_
      · obtain ⟨e, -, he'⟩ := List.mem_map.mp he
        cases he'
      · show ∃ rounds' : List Round, _ = _ ++ begun (((s.setStage i _).loops i).stage.lanes l)
        rw [setStage_self]
        show ∃ rounds' : List Round, _ = _ ++ begun (Function.update t.lanes k moved.1.1 l)
        rw [hlanes] at hrounds
        by_cases hl : l = k
        · rw [hl] at hrounds ⊢
          rw [Function.update_self, laneTrace_lane_self]
          exact hmove.rounds hattests hrounds
        · rw [Function.update_of_ne hl, laneTrace_lane_other fun _ => Ne.symm hl, List.append_nil]
          exact ⟨rounds, hrounds⟩
    · exact h
  | finish i =>
    unfold step
    dsimp only
    split
    · next t hstage =>
      split
      · next hall =>
        refine h.quiet i .waiting [] (List.append_nil _).symm rfl (fun _ he => nomatch he) (fun k => ?_) fun k => rfl
        by_cases hk : k < (w.deps i).concurrency
        · have hstopped := List.all_eq_true.mp hall k (List.mem_range.mpr hk)
          rw [hstage]
          show begun (t.lanes k) = []
          generalize t.lanes k = p at hstopped
          cases p with
          | stopped => rfl
          | idle | processing | settled | stored => cases hstopped
        · rw [(hbase.stages i).past k (by omega)]
          rfl
      · exact h
    · exact h
  | shutdown => exact h.flags [] (fun i => shutdown_stage i) (List.append_nil _).symm fun _ he => nomatch he
  | drained =>
    unfold step
    dsimp only
    split
    · next hmain =>
      split
      · next hdraining =>
        refine h.flags [_] (fun i => stopGroup_stage i) rfl fun e he => ?_
        rw [List.mem_singleton.mp he]
        refine congrArg Event.drained (List.flatMap_eq_nil_iff.mpr fun i hi => ?_)
        exact horderly hdraining hmain i (List.mem_range.mp hi)
      · exact h
    · exact h
  | timedOut =>
    unfold step
    dsimp only
    split
    · exact h.flags [] (fun i => stopGroup_stage i) (List.append_nil _).symm fun _ he => nomatch he
    · exact h

/-! ## The converse -/

/-- A round does not end with a completion that is not reported. -/
theorem rounds_end (rounds : List Round) (l : List LaneEvent) (job job' : ClaimedJob) (o : VerificationOutcome) :
    rounds.flatMap Round.events ≠ l ++ [.completed job o, .ended job'] := by
  intro heq
  rcases List.eq_nil_or_concat rounds with rfl | ⟨rounds, r, rfl⟩
  · simp at heq
  · rw [List.concat_eq_append, List.flatMap_append, List.flatMap_singleton] at heq
    -- The last two events are those of the last round.
    have hlast := congrArg (fun l => l.reverse.take 2) heq
    obtain ⟨job'', outcome⟩ := r
    cases outcome with
    | none => simp [Round.events] at hlast
    | some o' => simp [Round.events] at hlast

theorem orderly_of_mirrors {a : Action σ} (h' : Mirrors w (step P store w s a)) : Orderly w s a := by
  cases a with
  | lane i k reply =>
    cases reply with
    | throws => trivial
    | completes now =>
      intro job o hsettled hmute
      obtain ⟨rounds, hrounds⟩ := h'.lanes i k
      unfold step at hrounds
      dsimp only at hrounds
      split at hrounds
      · next t hstage =>
        have hlane : t.lanes k = .settled job o := by
          rw [hstage] at hsettled
          exact hsettled
        have hmove := move_laneStep P store (w.deps i) (.completes now) (t.lanes k) ⟨t.pending, s.store, s.world, []⟩
        generalize laneStep P store (w.deps i) (.completes now) (t.lanes k) ⟨t.pending, s.store, s.world, []⟩ = moved at hmove hrounds
        obtain ⟨⟨p', s'⟩, events⟩ := moved
        rw [hlane] at hmove
        -- The lane is done with the job, and has not reported it.
        obtain ⟨rfl, rfl⟩ : p' = .idle ∧ events = [.completed job o, .ended job] := by
          dsimp only at hmove
          generalize s'.pending = pending' at hmove
          cases hmove with
          | complete now job o pending hattests => exact absurd hmute hattests
          | mute => exact ⟨rfl, rfl⟩
        have htrace : laneTrace i k (s.log ++ [LaneEvent.completed job o, .ended job].map (.lane i k)) =
            rounds.flatMap Round.events ++ begun (((s.setStage i _).loops i).stage.lanes k) := hrounds
        rw [setStage_self, laneTrace_append, laneTrace_lane_self] at htrace
        have hidle : begun (Function.update t.lanes k .idle k) = [] := by rw [Function.update_self]; rfl
        refine rounds_end rounds _ job job o (Eq.symm (htrace.trans ?_))
        exact (congrArg (rounds.flatMap Round.events ++ ·) hidle).trans (List.append_nil _)
      · next hstage =>
        cases hphase : (s.loops i).stage with
        | running t => exact hstage t hphase
        | waiting | claiming =>
          rw [hphase] at hsettled
          cases hsettled
  | drained =>
    intro hdraining hmain i hi
    have hheld : .drained (s.held w) ∈ (step P store w s .drained).log := by
      unfold step
      rw [hmain]
      dsimp only
      rw [if_pos hdraining]
      exact List.mem_append_right _ (List.mem_singleton_self _)
    exact List.flatMap_eq_nil_iff.mp (h'.drained _ hheld) i (List.mem_range.mpr hi)
  | wake | claimed | finish | shutdown | timedOut => trivial

/-- **Every verdict is mirrored and every loop is drained** in exactly the orderly runs. -/
theorem mirrors_iff (P : Platform) (store : JobStore σ) (w : Wiring) (st : σ) (world : Attestor.World) (actions : List (Action σ)) :
    (∀ pre, pre <+: actions → Mirrors w (run (step P store w) (State.init st world) pre)) ↔
      Along (step P store w) (Orderly w) (State.init st world) actions := by
  constructor
  · intro hall
    refine along_iff.mpr fun pre a post hsplit => ?_
    have hnext : Mirrors w (run (step P store w) (State.init st world) (pre ++ [a])) := hall _ ⟨post, by rw [hsplit]; simp⟩
    rw [run_snoc] at hnext
    exact orderly_of_mirrors hnext
  · intro horderly pre hpre
    obtain ⟨hbase, hordered⟩ : Base w (run (step P store w) (State.init st world) pre) ∧
        Ordered (run (step P store w) (State.init st world) pre) :=
      inv_prefix (P := fun s => Base w s ∧ Ordered s) (fun s a h ha => ⟨base_step h.1 a, ordered_step h.1 h.2 ha⟩)
        ⟨base_init st world, ordered_init st world⟩ horderly pre hpre
    refine ⟨hordered.lanes, hbase.ticks, fun i k hjob => ?_, hordered.drained⟩
    by_contra hk
    rw [(hbase.stages i).past k (by omega)] at hjob
    exact hjob rfl

end Ordered

/-! ## One job for the group -/

section GroupFirst

open Attestor

def acmeWiring : Wiring where
  executor := fun _ => exactDeps.executor
  resolver := fun _ => exactDeps.resolver
  concurrencyLimit := none
  workerConcurrency := none
  attestorTtl := 500
  nowMs := 0
  random := 0

/-- The loop of the group claims the one job in the queue, verifies it and completes it. -/
def groupFirst : List (Action MemoryJobStore.Store) :=
  [.wake 1, .claimed 1 0 (some (claimedQueue acmeJob, [claimedOf acmeJob])), .lane 1 0 .throws, .lane 1 0 .throws,
    .lane 1 0 (.completes 0)]

/-- The verdict is stored, and not reported. -/
theorem group_never_reports : ¬ ∀ (P : Platform) (store : JobStore MemoryJobStore.Store) (w : Wiring) (st : MemoryJobStore.Store)
    (world : Attestor.World) (actions : List (Action MemoryJobStore.Store)),
    Along (step P store w) (Possible store w) (State.init st world) actions →
      ∀ pre, pre <+: actions → Mirrors w (run (step P store w) (State.init st world) pre) := by
  intro hall
  have hpossible : Along (step acmePlatform MemoryJobStore.jobStore acmeWiring) (Possible MemoryJobStore.jobStore acmeWiring)
      (State.init (queued acmeJob) freshWorld) groupFirst :=
    ⟨trivial, rfl, trivial, trivial, trivial, trivial⟩
  obtain ⟨rounds, hrounds⟩ := (hall _ _ _ _ _ _ hpossible groupFirst (List.prefix_refl _)).lanes 1 0
  have hlog : (run (step acmePlatform MemoryJobStore.jobStore acmeWiring) (State.init (queued acmeJob) freshWorld)
      groupFirst).log = [.claimed 1 [claimedOf acmeJob], .lane 1 0 (.started (claimedOf acmeJob)),
        .lane 1 0 (.completed (claimedOf acmeJob) exactOutcome), .lane 1 0 (.ended (claimedOf acmeJob))] := by decide +kernel
  have hdone : begun (((run (step acmePlatform MemoryJobStore.jobStore acmeWiring) (State.init (queued acmeJob) freshWorld)
      groupFirst).loops 1).stage.lanes 0) = [] := by decide +kernel
  rw [hlog, hdone, List.append_nil] at hrounds
  exact rounds_end rounds [.started (claimedOf acmeJob)] _ _ _ hrounds.symm

end GroupFirst

end Vellar.Worker.WorkerProcess
