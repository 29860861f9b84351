import Vellar.Lib.Processes
import Vellar.Lib.Table

/-!
# Vellar.Wallet.SubmissionWorker — the submission worker's ticks

`services/wallet-service/src/worker/submission-worker.ts` over `db/pg-tx-store.ts`.  Any number of workers and cleanups
interleave and may stop anywhere.  The tick calls `require`, which no ES module has, so it throws before its SELECT.  With a
`require` it would go from one SQL statement or submission to the next, and the lock of `markInFlight`, an INSERT into the
table the row was selected from, would always conflict.  `exactlyOnce_iff` says when a run keeps its promise all the same.
-/

set_option autoImplicit false

namespace Vellar.Wallet.SubmissionWorker

open Machine Processes

/-! ## The table -/

inductive Status where
  | submitted
  | processing
  | succeeded
  | failed
  | deadLetter
deriving DecidableEq, Repr

/-- The `record` of a row. -/
structure SubmissionData where
  signedXdr : String
  network : String
  submitterType : Option String
  attempts : ℕ
  workerId : String
  startedAt : Option ℤ
deriving DecidableEq, Repr

/-- A row of `transaction_submissions`; times in milliseconds. -/
structure Row where
  transactionId : String
  status : Status
  record : SubmissionData
  createdAt : ℤ
  updatedAt : ℤ
  expiresAt : Option ℤ
deriving DecidableEq, Repr

abbrev Submissions := Table Row.transactionId

def IN_FLIGHT_TTL_MS : ℤ := 5 * 60 * 1000

def PROCESSED_TTL_MS : ℤ := 48 * 60 * 60 * 1000

def checkTransactionStatus (table : Submissions) (transactionId : String) : Option Status :=
  (table.find transactionId).map Row.status

/-- `markInFlight`: the table, and whether the INSERT returned a row. -/
def markInFlight (table : Submissions) (transactionId workerId signedXdr network submitterType : String) (now : ℤ) :
    Submissions × Bool :=
  let inserted := table.insertNew
    [⟨transactionId, .processing, ⟨signedXdr, network, some submitterType, 1, workerId, some now⟩, now, now,
      some (now + IN_FLIGHT_TTL_MS)⟩]
  (inserted.1, decide (0 < inserted.2))

def markProcessed (table : Submissions) (transactionId : String) (now : ℤ) : Submissions :=
  table.updateWhere (·.transactionId = transactionId)
    (fun r => { r with status := .succeeded, updatedAt := now, expiresAt := some (now + PROCESSED_TTL_MS) })
    fun _ => rfl

def markFailed (table : Submissions) (transactionId : String) (now : ℤ) : Submissions :=
  table.updateWhere (·.transactionId = transactionId) (fun r => { r with status := .failed, updatedAt := now })
    fun _ => rfl

def clearInFlightLock (table : Submissions) (transactionId : String) (now : ℤ) : Submissions :=
  table.updateWhere (·.transactionId = transactionId)
    (fun r => { r with status := .submitted, updatedAt := now, expiresAt := none }) fun _ => rfl

/-- `lt(expiresAt, now)`, which NULL is not. -/
def Row.expired (now : ℤ) (r : Row) : Bool := r.expiresAt.any (· < now)

/-- What `cleanupExpiredRecords` deletes. -/
def Row.cleaned (now : ℤ) (r : Row) : Bool := r.expired now && (r.status = .processing || r.status = .succeeded)

def cleanupExpiredRecords (table : Submissions) (now : ℤ) : Submissions := table.removeWhere (Row.cleaned now)

/-! ## Ticks -/

/-- What the `"type"` of its package makes of a file. -/
inductive PackageType where
  | module
  | commonjs
deriving DecidableEq, Repr

/-- `"type": "module"` of the wallet service. -/
def packageType : PackageType := .module

/-- Whether `require` is bound; in an ES module its use is a ReferenceError. -/
def PackageType.requires : PackageType → Bool
  | .module => false
  | .commonjs => true

/-- Codes that are never retried. -/
def permanentCodes : List String :=
  ["sponsor_bad_tx", "sponsor_simulation_failed", "sponsor_fee_too_high", "sponsor_budget_exceeded",
    "relayer_not_configured", "tx_failed"]

/-- `isTransientSubmissionFailure`, of a `SubmissionError` with its code or of any other error. -/
def isTransientSubmissionFailure : Option String → Bool
  | some code => !permanentCodes.contains code.toLower
  | none => true

/-- What happened, by worker and transaction. -/
inductive Event where
  /-- A tick begins, whose SELECT takes the row; `free` where no other worker holds it. -/
  | due (worker : ℕ) (transactionId : String) (free : Bool)
  /-- `metrics.workerFailure`: the tick threw. -/
  | workerFailure (worker : ℕ)
  /-- `submitter.submit` was called. -/
  | submit (worker : ℕ) (transactionId : String) (now : ℤ)
  | returned (worker : ℕ) (transactionId : String) (success : Bool)
  /-- The tick is done with the row. -/
  | left (worker : ℕ) (transactionId : String)
  | deleted (transactionId : String)
deriving DecidableEq, Repr

structure World where
  table : Submissions
  /-- Who has marked what in flight and is not done with it. -/
  holders : List (ℕ × String)
  log : List Event

def World.add (w : World) (events : List Event) : World := { w with log := w.log ++ events }

inductive Settled where
  | processed
  | failed
  | retried
deriving DecidableEq, Repr

/-- Where a worker is in its tick: at a row, with the rest of the batch.  Who reaps calls `cleanupExpiredRecords` only. -/
inductive Phase where
  | idle (worker : ℕ)
  | checking (worker : ℕ) (row : Row) (rest : List Row)
  | locking (worker : ℕ) (row : Row) (rest : List Row)
  | submitting (worker : ℕ) (row : Row) (rest : List Row)
  | settling (worker : ℕ) (row : Row) (rest : List Row) (settled : Settled)
  | cleaning (worker : ℕ)
  | reaping (worker : ℕ)
  | stopped (worker : ℕ)

def Phase.worker : Phase → ℕ
  | .idle i | .checking i _ _ | .locking i _ _ | .submitting i _ _ | .settling i _ _ _ | .cleaning i | .reaping i | .stopped i => i

/-- What a step draws from outside: whether the worker stops, the clock, the rows a SELECT returns, how a submission
ends, and `Math.random() < 0.1`. -/
structure Draw where
  stop : Bool
  now : ℤ
  rows : List Row
  /-- None for success, else the code of the error, if it has one. -/
  error : Option (Option String)
  cleans : Bool

/-- A result of `SELECT … WHERE status = 'submitted' LIMIT batchSize`. -/
def IsBatch (batchSize : ℕ) (table : Submissions) (rows : List Row) : Prop :=
  rows.Nodup ∧ (∀ r ∈ rows, r ∈ table.rows ∧ r.status = .submitted) ∧
    rows.length = min batchSize (table.rows.countP (·.status = .submitted))

instance {batchSize : ℕ} {table : Submissions} {rows : List Row} : Decidable (IsBatch batchSize table rows) :=
  inferInstanceAs (Decidable (_ ∧ _))

/-- On to the next row, or out of the loop to the cleanup or the end of the tick. -/
def next (cleans : Bool) (worker : ℕ) : List Row → Phase
  | r :: rest => .checking worker r rest
  | [] => if cleans then .cleaning worker else .idle worker

/-- The id the service gives a worker. -/
def workerName (worker : ℕ) : String := "worker-" ++ worker.repr

def World.cleaned (w : World) (now : ℤ) : World :=
  World.add { w with table := cleanupExpiredRecords w.table now }
    ((w.table.rows.filter (Row.cleaned now)).map fun r => .deleted r.transactionId)

/-- One step of `runSubmissionWorkerTick`. -/
def tick (type : PackageType) (batchSize : ℕ) (x : Draw) (p : Phase) (w : World) : Phase × World :=
  if x.stop then (.stopped p.worker, w)
  else
    match p with
    | .idle i =>
      if IsBatch batchSize w.table x.rows then
        let due := x.rows.map fun r => .due i r.transactionId (!w.holders.any fun h => h.2 = r.transactionId && h.1 ≠ i)
        if type.requires then (next x.cleans i x.rows, w.add due)
        else
          -- The table's name is `require("../db/schema")…`: the tick throws before its SELECT is sent.
          (.idle i, w.add (due ++ .workerFailure i :: x.rows.map fun r => .left i r.transactionId))
      else (p, w)
    | .checking i r rest =>
      match checkTransactionStatus w.table r.transactionId with
      | some .succeeded | some .failed | some .processing =>
        (next x.cleans i rest, w.add [.left i r.transactionId])
      | _ => (.locking i r rest, w)
    | .locking i r rest =>
      let marked := markInFlight w.table r.transactionId (workerName i) r.record.signedXdr r.record.network
        (r.record.submitterType.getD "relayer") x.now
      if marked.2 then
        (.submitting i r rest,
          World.add { w with table := marked.1, holders := (i, r.transactionId) :: w.holders }
            [.submit i r.transactionId x.now])
      else (next x.cleans i rest, World.add { w with table := marked.1 } [.left i r.transactionId])
    | .submitting i r rest =>
      match x.error with
      | none => (.settling i r rest .processed, w.add [.returned i r.transactionId true])
      | some code =>
        (.settling i r rest (if isTransientSubmissionFailure code then .retried else .failed),
          w.add [.returned i r.transactionId false])
    | .settling i r rest settled =>
      let table :=
        match settled with
        | .processed => markProcessed w.table r.transactionId x.now
        | .failed => markFailed w.table r.transactionId x.now
        | .retried => clearInFlightLock w.table r.transactionId x.now
      (next x.cleans i rest,
        World.add { w with table, holders := w.holders.erase (i, r.transactionId) } [.left i r.transactionId])
    | .cleaning i => (.idle i, w.cleaned x.now)
    | .reaping i => (.reaping i, w.cleaned x.now)
    | .stopped i => (.stopped i, w)

/-! ## What is promised -/

section Promise

variable (type : PackageType) (batchSize : ℕ) (table : Submissions) (reapers : ℕ → Bool)

/-- Idle workers over a table, and reapers. -/
def start : Config World Phase where
  shared := ⟨table, [], []⟩
  procs i := if reapers i then .reaping i else .idle i

def reached (schedule : List (ℕ × Draw)) : Config World Phase :=
  run (step (tick type batchSize)) (start table reapers) schedule

/-- Exactly-once processing in a run. -/
structure ExactlyOnce (schedule : List (ℕ × Draw)) : Prop where
  /-- No call after a successful one while the row is retained. -/
  once : ∀ (b : List Event) i id now (a : List Event),
    (reached type batchSize table reapers schedule).shared.log = b ++ .submit i id now :: a →
    ∀ (b₁ : List Event) j (b₂ : List Event), b = b₁ ++ .returned j id true :: b₂ → .deleted id ∈ b₂
  /-- No call while another worker's call has not returned, within the time of the lock. -/
  apart : ∀ (b : List Event) i id now (a : List Event),
    (reached type batchSize table reapers schedule).shared.log = b ++ .submit i id now :: a →
    ∀ (b₁ : List Event) j now' (b₂ : List Event), b = b₁ ++ .submit j id now' :: b₂ → j ≠ i →
      (∃ success, .returned j id success ∈ b₂) ∨ now' + IN_FLIGHT_TTL_MS < now
  /-- A tick submits a free row that is due before it leaves it. -/
  handed : ∀ (b : List Event) i id (m a : List Event),
    (reached type batchSize table reapers schedule).shared.log = b ++ .due i id true :: (m ++ .left i id :: a) →
      .left i id ∉ m → ∃ now, .submit i id now ∈ m
  /-- A row that goes has been succeeded. -/
  kept : ∀ earlier x, earlier ++ [x] <+: schedule →
    ∀ r ∈ (reached type batchSize table reapers earlier).shared.table.rows,
    (reached type batchSize table reapers (earlier ++ [x])).shared.table.find r.transactionId = none →
      ∃ before, before <+: earlier ∧
        ∃ r', (reached type batchSize table reapers before).shared.table.find r.transactionId = some r' ∧
          r'.status = .succeeded

/-- The step begins no tick that has a row to take, where `require` is not bound, or marks no row in flight, where it is;
and it cleans no expired row in `processing` up. -/
def Avoids (x : Draw) (p : Phase) (w : World) : Prop :=
  x.stop = true ∨
    (match type with
      | .module => ∀ i, p = .idle i → IsBatch batchSize w.table x.rows → x.rows = []
      | .commonjs => ∀ i r rest, p ≠ .locking i r rest) ∧
    ∀ i, p = .cleaning i ∨ p = .reaping i → ∀ r ∈ w.table.rows, r.status = .processing → r.expired x.now = false

end Promise

/-! ## The invariant -/

section Ticks

variable {type : PackageType} {batchSize : ℕ} {table₀ : Submissions} {w w' : World} {p p' : Phase} {x : Draw}

/-- The lock is never taken, so the table has only lost rows, and none that is `submitted`. -/
structure Sound (table₀ : Submissions) (w : World) : Prop where
  rows : ∀ r ∈ w.table.rows, r ∈ table₀.rows
  submitted : ∀ r ∈ table₀.rows, r.status = .submitted → r ∈ w.table.rows
  holders : w.holders = []
  unsent : ∀ i id now, .submit i id now ∉ w.log

/-- Due and free, and not left since. -/
def Pending (log : List Event) (i : ℕ) (id : String) : Prop :=
  ∃ b m : List Event, log = b ++ .due i id true :: m ∧ .left i id ∉ m

/-- The rows a tick has before it. -/
structure Batch (table₀ : Submissions) (w : World) (i : ℕ) (rows : List Row) : Prop where
  nodup : (rows.map Row.transactionId).Nodup
  rows : ∀ r ∈ rows, r ∈ table₀.rows ∧ r.status = .submitted ∧ Pending w.log i r.transactionId

/-- What holds of a worker. -/
def Holds (type : PackageType) (table₀ : Submissions) (w : World) : Phase → Prop
  | .checking i r rest | .locking i r rest => type = .commonjs ∧ Batch table₀ w i (r :: rest)
  | .submitting _ _ _ | .settling _ _ _ _ => False
  | .idle _ | .cleaning _ | .reaping _ | .stopped _ => True

theorem Pending.append {log events : List Event} {i : ℕ} {id : String} (h : Pending log i id)
    (hevents : .left i id ∉ events) : Pending (log ++ events) i id := by
  obtain ⟨b, m, rfl, hm⟩ := h
  refine ⟨b, m ++ events, by simp, ?_⟩
  rw [List.mem_append]
  exact fun hmem => hmem.elim hm hevents

theorem Batch.append {i : ℕ} {rows : List Row} (h : Batch table₀ w i rows) {events : List Event}
    (hlog : w'.log = w.log ++ events) (hevents : ∀ r ∈ rows, .left i r.transactionId ∉ events) :
    Batch table₀ w' i rows := by
  refine ⟨h.nodup, fun r hr => ?_⟩
  obtain ⟨hmem, hstatus, hpending⟩ := h.rows r hr
  rw [hlog]
  exact ⟨hmem, hstatus, hpending.append (hevents r hr)⟩

theorem Batch.tail {i : ℕ} {r : Row} {rest : List Row} (h : Batch table₀ w i (r :: rest)) : Batch table₀ w i rest :=
  ⟨(List.nodup_cons.mp h.nodup).2, fun r' hr' => h.rows r' (List.mem_cons_of_mem _ hr')⟩

theorem holds_next {cleans : Bool} {i : ℕ} {rows : List Row} (htype : type = .commonjs) (h : Batch table₀ w i rows) :
    Holds type table₀ w (next cleans i rows) := by
  cases rows with
  | cons r rest => exact ⟨htype, h⟩
  | nil => cases cleans <;> exact trivial

theorem worker_next (cleans : Bool) (i : ℕ) (rows : List Row) : (next cleans i rows).worker = i := by
  cases rows with
  | cons r rest => rfl
  | nil => cases cleans <;> rfl

/-- The row is there, so its INSERT conflicts. -/
theorem markInFlight_conflict {table : Submissions} {r : Row} (h : r ∈ table.rows)
    (workerId signedXdr network submitterType : String) (now : ℤ) :
    markInFlight table r.transactionId workerId signedXdr network submitterType now = (table, false) := by
  unfold markInFlight
  simp only [Table.insertNew, Table.find_of_mem h, lt_irrefl, decide_false]

/-! ## What a step can do -/

inductive Move (type : PackageType) (batchSize : ℕ) (x : Draw) (w : World) : Phase → Phase → World → Prop where
  | stay (p : Phase) : Move type batchSize x w p p w
  | stop (p : Phase) : Move type batchSize x w p (.stopped p.worker) w
  | fail (i : ℕ) (htype : type = .module) (hbatch : IsBatch batchSize w.table x.rows) (hrun : x.stop = false) :
      Move type batchSize x w (.idle i) (.idle i)
        (w.add ((x.rows.map fun r => .due i r.transactionId true) ++
          .workerFailure i :: x.rows.map fun r => .left i r.transactionId))
  | select (i : ℕ) (htype : type = .commonjs) (hbatch : IsBatch batchSize w.table x.rows) :
      Move type batchSize x w (.idle i) (next x.cleans i x.rows) (w.add (x.rows.map fun r => .due i r.transactionId true))
  | check (i : ℕ) (r : Row) (rest : List Row) : Move type batchSize x w (.checking i r rest) (.locking i r rest) w
  | conflict (i : ℕ) (r : Row) (rest : List Row) (hrun : x.stop = false) :
      Move type batchSize x w (.locking i r rest) (next x.cleans i rest) (w.add [.left i r.transactionId])
  | clean (i : ℕ) (hrun : x.stop = false) : Move type batchSize x w (.cleaning i) (.idle i) (w.cleaned x.now)
  | reap (i : ℕ) (hrun : x.stop = false) : Move type batchSize x w (.reaping i) (.reaping i) (w.cleaned x.now)

theorem tick_failing {i : ℕ} (hw : Sound table₀ w) (hrun : x.stop = false) (hbatch : IsBatch batchSize w.table x.rows) :
    tick .module batchSize x (.idle i) w = (.idle i, w.add ((x.rows.map fun r => .due i r.transactionId true) ++
      .workerFailure i :: x.rows.map fun r => .left i r.transactionId)) := by
  simp only [tick, hrun, Bool.false_eq_true, if_false, if_pos hbatch, PackageType.requires, hw.holders, List.any_nil, Bool.not_false]

theorem tick_locking {i : ℕ} {r : Row} {rest : List Row} (hw : Sound table₀ w)
    (hp : Holds type table₀ w (.locking i r rest)) (hrun : x.stop = false) :
    tick type batchSize x (.locking i r rest) w = (next x.cleans i rest, w.add [.left i r.transactionId]) := by
  obtain ⟨hmem, hstatus, -⟩ := hp.2.rows r List.mem_cons_self
  have hconflict := markInFlight_conflict (hw.submitted r hmem hstatus)
  simp only [tick, hrun, Bool.false_eq_true, if_false, hconflict]

/-- Both cleanups do the same to the table. -/
theorem tick_cleaned {i : ℕ} (hp : p = .cleaning i ∨ p = .reaping i) (hrun : x.stop = false) :
    (tick type batchSize x p w).2 = w.cleaned x.now := by
  obtain rfl | rfl := hp
  · simp only [tick, hrun, Bool.false_eq_true, if_false]
  · simp only [tick, hrun, Bool.false_eq_true, if_false]

theorem tick_move (hw : Sound table₀ w) (hp : Holds type table₀ w p) :
    Move type batchSize x w p (tick type batchSize x p w).1 (tick type batchSize x p w).2 := by
  cases hstop : x.stop with
  | true =>
    simp only [tick, hstop, if_true]
    exact .stop p
  | false =>
    cases p with
    | idle i =>
      by_cases hbatch : IsBatch batchSize w.table x.rows
      · cases htype : type with
        | module =>
          rw [tick_failing hw hstop hbatch]
          exact .fail i rfl hbatch hstop
        | commonjs =>
          simp only [tick, hstop, Bool.false_eq_true, if_false, if_pos hbatch, PackageType.requires, if_true, hw.holders,
            List.any_nil, Bool.not_false]
          exact .select i rfl hbatch
      · simp only [tick, hstop, Bool.false_eq_true, if_false, if_neg hbatch]
        exact .stay _
    | checking i r rest =>
      obtain ⟨hmem, hstatus, -⟩ := hp.2.rows r List.mem_cons_self
      have hcheck : checkTransactionStatus w.table r.transactionId = some .submitted := by
        rw [checkTransactionStatus, Table.find_of_mem (hw.submitted r hmem hstatus), Option.map_some, hstatus]
      simp only [tick, hstop, Bool.false_eq_true, if_false, hcheck]
      exact .check i r rest
    | locking i r rest =>
      rw [tick_locking hw hp hstop]
      exact .conflict i r rest hstop
    | submitting => exact hp.elim
    | settling => exact hp.elim
    | cleaning i =>
      simp only [tick, hstop, Bool.false_eq_true, if_false]
      exact .clean i hstop
    | reaping i =>
      simp only [tick, hstop, Bool.false_eq_true, if_false]
      exact .reap i hstop
    | stopped i =>
      simp only [tick, hstop, Bool.false_eq_true, if_false]
      exact .stay _

theorem Move.worker_eq (h : Move type batchSize x w p p' w') : p'.worker = p.worker := by
  cases h with
  | select i => exact worker_next _ _ _
  | conflict i r rest => exact worker_next _ _ _
  | stay | stop | fail | check | clean | reap => rfl

/-- The events of a step name no other worker, and no submission. -/
theorem Move.log_eq (h : Move type batchSize x w p p' w') :
    ∃ events, w'.log = w.log ++ events ∧ (∀ j id, j ≠ p.worker → .left j id ∉ events) ∧
      ∀ j id now, .submit j id now ∉ events := by
  cases h with
  | stay | stop | check => exact ⟨[], (List.append_nil _).symm, by simp, by simp⟩
  | select i | clean i | reap i => exact ⟨_, rfl, by simp, by simp⟩
  | fail i =>
    refine ⟨_, rfl, fun j id hj hmem => ?_, by simp⟩
    obtain ⟨r, -, hij, -⟩ : ∃ r ∈ x.rows, i = j ∧ r.transactionId = id := by simpa using hmem
    exact hj hij.symm
  | conflict i r rest => exact ⟨_, rfl, fun j id hj hmem => hj (Event.left.inj (List.mem_singleton.mp hmem)).1, by simp⟩

/-- A row is left by a tick that throws, or where its lock is not taken. -/
theorem Move.unleft (h : Move type batchSize x w p p' w') (hp : Holds type table₀ w p) (havoids : Avoids type batchSize x p w)
    {i : ℕ} {id : String} (hleft : .left i id ∉ w.log) : .left i id ∉ w'.log := by
  cases h with
  | stay | stop | check => exact hleft
  | select j | clean j | reap j =>
    intro hmem
    rcases List.mem_append.mp hmem with hold | hnew
    · exact hleft hold
    · simp at hnew
  | fail j htype hbatch hrun =>
    subst htype
    rcases havoids with hstop | ⟨hidle, -⟩
    · exact absurd (hstop.symm.trans hrun) (by decide)
    · have hnone : x.rows = [] := hidle j rfl hbatch
      simpa [World.add, hnone] using hleft
  | conflict j r rest hrun =>
    obtain rfl := hp.1
    rcases havoids with hstop | ⟨hlocking, -⟩
    · exact absurd (hstop.symm.trans hrun) (by decide)
    · exact absurd rfl (hlocking j r rest)

/-- A row goes in a cleanup only. -/
theorem Move.gone (h : Move type batchSize x w p p' w') {r : Row} (hr : r ∈ w.table.rows)
    (hgone : w'.table.find r.transactionId = none) :
    ∃ i, (p = .cleaning i ∨ p = .reaping i) ∧ x.stop = false ∧ r.cleaned x.now = true := by
  have hfind := Table.find_of_mem hr
  have hcleaned : (w.cleaned x.now).table.find r.transactionId = none → r.cleaned x.now = true := fun hnone =>
    Bool.of_not_eq_false fun hkept => Table.find_eq_none.mp hnone r (Table.mem_removeWhere.mpr ⟨hr, hkept⟩) rfl
  cases h with
  | stay | stop | fail | select | check | conflict => exact absurd (hfind.symm.trans hgone) (by simp)
  | clean i hrun => exact ⟨i, .inl rfl, hrun, hcleaned hgone⟩
  | reap i hrun => exact ⟨i, .inr rfl, hrun, hcleaned hgone⟩

theorem Move.sound (h : Move type batchSize x w p p' w') (hw : Sound table₀ w) : Sound table₀ w' := by
  obtain ⟨events, hlog, -, hunsent⟩ := h.log_eq
  have hsubmit : ∀ i id now, .submit i id now ∉ w'.log := by
    intro i id now hmem
    rw [hlog] at hmem
    exact (List.mem_append.mp hmem).elim (hw.unsent i id now) (hunsent i id now)
  cases h with
  | stay | stop | fail | select | check | conflict => exact ⟨hw.rows, hw.submitted, hw.holders, hsubmit⟩
  | clean i | reap i =>
    refine ⟨fun r hr => hw.rows r (Table.mem_removeWhere.mp hr).1, fun r hr hstatus => ?_, hw.holders, hsubmit⟩
    refine Table.mem_removeWhere.mpr ⟨hw.submitted r hr hstatus, ?_⟩
    rw [Row.cleaned, hstatus]
    exact Bool.and_false _

/-- The rows of a result, all due and free. -/
theorem batch_select (hw : Sound table₀ w) {rows : List Row} {i : ℕ} (hbatch : IsBatch batchSize w.table rows) :
    Batch table₀ (w.add (rows.map fun r => .due i r.transactionId true)) i rows := by
  obtain ⟨hnodup, hrows, -⟩ := hbatch
  refine ⟨hnodup.map_on fun a ha b hb heq => ?_, fun r hr => ⟨hw.rows r (hrows r hr).1, (hrows r hr).2, ?_⟩⟩
  · exact List.inj_on_of_nodup_map w.table.nodup (hrows a ha).1 (hrows b hb).1 heq
  · obtain ⟨before, after, rfl⟩ := List.append_of_mem hr
    refine ⟨w.log ++ before.map fun r => .due i r.transactionId true,
      after.map fun r => .due i r.transactionId true, ?_, by simp⟩
    simp [World.add]

theorem Move.holds (h : Move type batchSize x w p p' w') (hw : Sound table₀ w) (hp : Holds type table₀ w p) :
    Holds type table₀ w' p' := by
  cases h with
  | stay | check => exact hp
  | stop | fail | clean | reap => trivial
  | select i htype hbatch => exact holds_next htype (batch_select hw hbatch)
  | conflict i r rest =>
    obtain ⟨htype, hbatch⟩ := hp
    refine holds_next htype (hbatch.tail.append rfl fun r' hr' hmem => ?_)
    have heq := (Event.left.inj (List.mem_singleton.mp hmem)).2
    exact (List.nodup_cons.mp hbatch.nodup).1 (heq ▸ List.mem_map_of_mem hr')

theorem Move.holds_other {q : Phase} (h : Move type batchSize x w p p' w') (hq : Holds type table₀ w q)
    (hapart : p.worker ≠ q.worker) : Holds type table₀ w' q := by
  obtain ⟨events, hlog, hother, -⟩ := h.log_eq
  cases q with
  | checking i r rest => exact ⟨hq.1, hq.2.append hlog fun r' _ => hother _ _ hapart.symm⟩
  | locking i r rest => exact ⟨hq.1, hq.2.append hlog fun r' _ => hother _ _ hapart.symm⟩
  | submitting | settling => exact hq.elim
  | idle | cleaning | reaping | stopped => trivial

theorem tick_stable : Stable (tick type batchSize) (fun _ _ _ => True) (Sound table₀) (Holds type table₀)
    fun p q => p.worker ≠ q.worker where
  symm _ _ h := h.symm
  shared _ _ _ _ hw hp := (tick_move hw hp).sound hw
  own _ _ _ _ hw hp := (tick_move hw hp).holds hw hp
  other _ _ _ _ _ hw hp hq hapart := (tick_move hw hp).holds_other hq hapart
  apart _ _ _ _ _ hw hp _ hapart := by
    rw [(tick_move hw hp).worker_eq]
    exact hapart

end Ticks

/-! ## Runs -/

section Runs

variable {type : PackageType} {batchSize : ℕ} {table₀ : Submissions} {reapers : ℕ → Bool} {schedule : List (ℕ × Draw)}

abbrev Ticking (type : PackageType) (table₀ : Submissions) (c : Config World Phase) : Prop :=
  Processes.Inv (Sound table₀) (Holds type table₀) (fun p q => p.worker ≠ q.worker) c

theorem ticking_start : Ticking type table₀ (start table₀ reapers) where
  shared := ⟨fun _ h => h, fun _ h _ => h, rfl, fun _ _ _ => List.not_mem_nil⟩
  own i := by
    show Holds type table₀ _ (if reapers i then .reaping i else .idle i)
    split <;> trivial
  apart i j hij := by
    show (if reapers i then Phase.reaping i else .idle i).worker ≠ (if reapers j then Phase.reaping j else .idle j).worker
    split <;> split <;> exact hij

theorem ticking_reached (type : PackageType) (batchSize : ℕ) (table₀ : Submissions) (reapers : ℕ → Bool)
    (schedule : List (ℕ × Draw)) : Ticking type table₀ (reached type batchSize table₀ reapers schedule) :=
  tick_stable.inv_upto ticking_start along_true schedule (List.prefix_refl _)

theorem reached_snoc (earlier : List (ℕ × Draw)) (x : ℕ × Draw) :
    (reached type batchSize table₀ reapers (earlier ++ [x])).shared =
      (tick type batchSize x.2 ((reached type batchSize table₀ reapers earlier).procs x.1)
        (reached type batchSize table₀ reapers earlier).shared).2 := by
  unfold reached
  rw [run_snoc]
  rfl

theorem move_reached (type : PackageType) (batchSize : ℕ) (table₀ : Submissions) (reapers : ℕ → Bool)
    (earlier : List (ℕ × Draw)) (x : ℕ × Draw) :
    ∃ p', Move type batchSize x.2 (reached type batchSize table₀ reapers earlier).shared
      ((reached type batchSize table₀ reapers earlier).procs x.1) p'
      (reached type batchSize table₀ reapers (earlier ++ [x])).shared := by
  have hinv := ticking_reached type batchSize table₀ reapers earlier
  rw [reached_snoc]
  exact ⟨_, tick_move hinv.shared (hinv.own x.1)⟩

/-- Logs only grow. -/
theorem log_prefix (type : PackageType) (batchSize : ℕ) (table₀ : Submissions) (reapers : ℕ → Bool)
    {earlier later : List (ℕ × Draw)} (h : earlier <+: later) :
    (reached type batchSize table₀ reapers earlier).shared.log <+: (reached type batchSize table₀ reapers later).shared.log := by
  obtain ⟨between, rfl⟩ := h
  induction between using List.reverseRecOn with
  | nil => rw [List.append_nil]
  | append_singleton between x ih =>
    obtain ⟨p', hmove⟩ := move_reached type batchSize table₀ reapers (earlier ++ between) x
    obtain ⟨events, hlog, -⟩ := hmove.log_eq
    rw [← List.append_assoc, hlog]
    exact ih.trans (List.prefix_append _ _)

/-- No run submits anything. -/
theorem none_submitted {b a : List Event} {i : ℕ} {id : String} {now : ℤ}
    (hlog : (reached type batchSize table₀ reapers schedule).shared.log = b ++ .submit i id now :: a) : False := by
  have hunsent := (ticking_reached type batchSize table₀ reapers schedule).shared.unsent i id now
  rw [hlog] at hunsent
  exact hunsent (List.mem_append_right b List.mem_cons_self)

/-- A run that avoids it leaves no row that is due. -/
theorem none_left
    (h : Along (step (tick type batchSize)) (fun c a => Avoids type batchSize a.2 (c.procs a.1) c.shared) (start table₀ reapers)
      schedule) (i : ℕ) (id : String) : .left i id ∉ (reached type batchSize table₀ reapers schedule).shared.log := by
  refine (inv_run (P := fun c => Ticking type table₀ c ∧ .left i id ∉ c.shared.log) (fun c a hc hG => ?_)
    ⟨ticking_start, List.not_mem_nil⟩ h).2
  obtain ⟨hinv, hleft⟩ := hc
  exact ⟨tick_stable.inv_step hinv a trivial, (tick_move hinv.shared (hinv.own a.1)).unleft (hinv.own a.1) hG hleft⟩

/-- Two rows of a run with one id are one row: no row is ever rewritten. -/
theorem same_row {earlier later : List (ℕ × Draw)} {r r' : Row}
    (hr : r ∈ (reached type batchSize table₀ reapers earlier).shared.table.rows)
    (hr' : r' ∈ (reached type batchSize table₀ reapers later).shared.table.rows) (hid : r.transactionId = r'.transactionId) : r = r' :=
  List.inj_on_of_nodup_map table₀.nodup ((ticking_reached type batchSize table₀ reapers earlier).shared.rows r hr)
    ((ticking_reached type batchSize table₀ reapers later).shared.rows r' hr') hid

/-- A row that goes is in `processing` or `succeeded`, and expired. -/
theorem status_of_cleaned {r : Row} {now : ℤ} (h : r.cleaned now = true) :
    r.expired now = true ∧ (r.status = .processing ∨ r.status = .succeeded) := by
  unfold Row.cleaned at h
  obtain ⟨hexpired, hstatus⟩ := Bool.and_eq_true_iff.mp h
  exact ⟨hexpired, by simpa using hstatus⟩

/-- Kept where the run avoids what breaks it. -/
theorem exactlyOnce_of_avoids
    (h : Along (step (tick type batchSize)) (fun c a => Avoids type batchSize a.2 (c.procs a.1) c.shared) (start table₀ reapers)
      schedule) : ExactlyOnce type batchSize table₀ reapers schedule where
  once b i id now a hlog := (none_submitted hlog).elim
  apart b i id now a hlog := (none_submitted hlog).elim
  handed b i id m a hlog := by
    refine absurd ?_ (none_left h i id)
    rw [hlog]
    simp
  kept earlier x hearlier r hr hgone := by
    obtain ⟨p', hmove⟩ := move_reached type batchSize table₀ reapers earlier x
    obtain ⟨i, hcleaning, hrun, hcleaned⟩ := hmove.gone hr hgone
    obtain ⟨hexpired, hprocessing | hsucceeded⟩ := status_of_cleaned hcleaned
    · obtain ⟨post, hpost⟩ := hearlier
      rcases along_iff.mp h earlier x post (by rw [← hpost, List.append_assoc]; rfl) with hstop | ⟨-, hclean⟩
      · exact absurd (hstop.symm.trans hrun) (by decide)
      · exact absurd (hexpired.symm.trans (hclean i hcleaning r hr hprocessing)) (by decide)
    · exact ⟨earlier, List.prefix_refl _, r, Table.find_of_mem hr, hsucceeded⟩

/-- No row that is due and free is left. -/
theorem never_left (h : ExactlyOnce type batchSize table₀ reapers schedule) {earlier : List (ℕ × Draw)}
    (hearlier : earlier <+: schedule) {b m a : List Event} {i : ℕ} {id : String}
    (hlog : (reached type batchSize table₀ reapers earlier).shared.log = b ++ .due i id true :: (m ++ .left i id :: a))
    (hleft : .left i id ∉ m) : False := by
  obtain ⟨after, hafter⟩ := log_prefix type batchSize table₀ reapers hearlier
  rw [hlog] at hafter
  have hfinal : (reached type batchSize table₀ reapers schedule).shared.log =
      b ++ .due i id true :: (m ++ .left i id :: (a ++ after)) := by
    rw [← hafter]
    simp
  obtain ⟨now, hsubmit⟩ := h.handed b i id m (a ++ after) hfinal hleft
  refine (ticking_reached type batchSize table₀ reapers schedule).shared.unsent i id now ?_
  rw [hfinal]
  simp [hsubmit]

/-- A tick that throws leaves the rows it was to take. -/
theorem not_failing (h : ExactlyOnce .module batchSize table₀ reapers schedule) {earlier : List (ℕ × Draw)} {x : ℕ × Draw}
    (hearlier : earlier ++ [x] <+: schedule) (hrun : x.2.stop = false) {i : ℕ}
    (hidle : (reached .module batchSize table₀ reapers earlier).procs x.1 = .idle i)
    (hbatch : IsBatch batchSize (reached .module batchSize table₀ reapers earlier).shared.table x.2.rows) : x.2.rows = [] := by
  cases hrows : x.2.rows with
  | nil => rfl
  | cons r rest =>
    have hinv := ticking_reached .module batchSize table₀ reapers earlier
    have hlog : (reached .module batchSize table₀ reapers (earlier ++ [x])).shared.log =
        (reached .module batchSize table₀ reapers earlier).shared.log ++ .due i r.transactionId true ::
          (((rest.map fun r => .due i r.transactionId true) ++ [.workerFailure i]) ++
            .left i r.transactionId :: rest.map fun r => .left i r.transactionId) := by
      rw [reached_snoc, hidle, tick_failing hinv.shared hrun hbatch, World.add, hrows]
      simp
    exact (never_left h hearlier hlog (by simp)).elim

/-- A tick that gets to the lock leaves the row without having submitted it. -/
theorem not_locking (h : ExactlyOnce type batchSize table₀ reapers schedule) {earlier : List (ℕ × Draw)} {x : ℕ × Draw}
    (hearlier : earlier ++ [x] <+: schedule) (hrun : x.2.stop = false) (i : ℕ) (r : Row) (rest : List Row) :
    (reached type batchSize table₀ reapers earlier).procs x.1 ≠ .locking i r rest := by
  intro hlocking
  have hinv := ticking_reached type batchSize table₀ reapers earlier
  have hbatch := hinv.own x.1
  rw [hlocking] at hbatch
  obtain ⟨-, -, b, m, hlog, hleft⟩ := hbatch.2.rows r List.mem_cons_self
  have hnow : (reached type batchSize table₀ reapers (earlier ++ [x])).shared.log =
      b ++ .due i r.transactionId true :: (m ++ [.left i r.transactionId]) := by
    rw [reached_snoc, hlocking, tick_locking hinv.shared hbatch hrun, World.add, hlog]
    simp
  exact never_left h hearlier hnow hleft

/-- A cleanup that finds an expired row in `processing` loses it. -/
theorem none_expired (h : ExactlyOnce type batchSize table₀ reapers schedule) {earlier : List (ℕ × Draw)} {x : ℕ × Draw}
    (hearlier : earlier ++ [x] <+: schedule) (hrun : x.2.stop = false) {i : ℕ}
    (hcleaning : (reached type batchSize table₀ reapers earlier).procs x.1 = .cleaning i ∨
      (reached type batchSize table₀ reapers earlier).procs x.1 = .reaping i) {r : Row}
    (hr : r ∈ (reached type batchSize table₀ reapers earlier).shared.table.rows) (hprocessing : r.status = .processing) :
    r.expired x.2.now = false := by
  refine Bool.eq_false_of_not_eq_true fun hexpired => ?_
  have hcleaned : r.cleaned x.2.now = true := by simp [Row.cleaned, hexpired, hprocessing]
  have hgone : (reached type batchSize table₀ reapers (earlier ++ [x])).shared.table.find r.transactionId = none := by
    rw [reached_snoc, tick_cleaned hcleaning hrun]
    change (Table.removeWhere _ _).find _ = none
    rw [Table.find_removeWhere, Table.find_of_mem hr, Option.filter_some_neg (by simp [hcleaned])]
  obtain ⟨before, -, r', hr', hsucceeded⟩ := h.kept earlier x hearlier r hr hgone
  obtain ⟨hmem, hid⟩ := Table.mem_of_find hr'
  rw [← same_row hr hmem hid.symm, hprocessing] at hsucceeded
  cases hsucceeded

/-- Under either `"type"`, a run keeps the promise exactly when it avoids what breaks it. -/
theorem exactlyOnce_iff_avoids (type : PackageType) (batchSize : ℕ) (table₀ : Submissions) (reapers : ℕ → Bool)
    (schedule : List (ℕ × Draw)) : ExactlyOnce type batchSize table₀ reapers schedule ↔
      Along (step (tick type batchSize)) (fun c a => Avoids type batchSize a.2 (c.procs a.1) c.shared) (start table₀ reapers)
        schedule := by
  refine ⟨fun h => along_iff.mpr fun earlier x post hschedule => ?_, exactlyOnce_of_avoids⟩
  have hearlier : earlier ++ [x] <+: schedule := ⟨post, by rw [hschedule, List.append_assoc]; rfl⟩
  cases hrun : x.2.stop with
  | true => exact .inl hrun
  | false =>
    refine .inr ⟨?_, fun i hcleaning r hr hprocessing => none_expired h hearlier hrun hcleaning hr hprocessing⟩
    cases type with
    | module => exact fun i hidle hbatch => not_failing h hearlier hrun hidle hbatch
    | commonjs => exact not_locking h hearlier hrun

/-- **Exactly once**: a run of the service's module keeps the promise exactly when no tick begins with a row to take, and no
cleanup finds an expired row in `processing`. -/
theorem exactlyOnce_iff (batchSize : ℕ) (table₀ : Submissions) (reapers : ℕ → Bool) (schedule : List (ℕ × Draw)) :
    ExactlyOnce packageType batchSize table₀ reapers schedule ↔
      Along (step (tick packageType batchSize)) (fun c a => Avoids packageType batchSize a.2 (c.procs a.1) c.shared)
        (start table₀ reapers) schedule :=
  exactlyOnce_iff_avoids packageType batchSize table₀ reapers schedule

/-- One row in `status`. -/
def tableOf (status : Status) (expiresAt : Option ℤ) : Submissions :=
  Table.empty.put ⟨"tx", status, ⟨"AAAA", "testnet", none, 1, "worker-1", none⟩, 0, 0, expiresAt⟩

/-- A row waits, one worker ticks: the tick throws, and the row is not submitted.  A row is in `processing` for too long: a
cleanup deletes it. -/
theorem loses_transactions :
    ¬ExactlyOnce packageType 10 (tableOf .submitted none) (fun _ => false)
      [(0, ⟨false, 5, (tableOf .submitted none).rows, none, false⟩)] ∧
    ¬ExactlyOnce packageType 10 (tableOf .processing (some 0)) (fun _ => true) [(0, ⟨false, 5, [], none, false⟩)] := by
  refine ⟨fun h => ?_, fun h => ?_⟩
  · obtain ⟨now, hsubmit⟩ := h.handed [] 0 "tx" [.workerFailure 0] [] (by decide) (by decide)
    cases List.mem_singleton.mp hsubmit
  · obtain ⟨before, hbefore, r', hr', hsucceeded⟩ :=
      h.kept [] (0, ⟨false, 5, [], none, false⟩) (List.prefix_refl _)
        ⟨"tx", .processing, ⟨"AAAA", "testnet", none, 1, "worker-1", none⟩, 0, 0, some 0⟩ (by decide) (by decide)
    obtain rfl := List.prefix_nil.mp hbefore
    have hrow : r'.status = .processing := by
      have hfound : (tableOf .processing (some 0)).find "tx" = some r' := hr'
      rw [show (tableOf .processing (some 0)).find "tx" = some _ from rfl] at hfound
      rw [← Option.some.inj hfound]
    rw [hrow] at hsucceeded
    cases hsucceeded

end Runs

end Vellar.Wallet.SubmissionWorker
