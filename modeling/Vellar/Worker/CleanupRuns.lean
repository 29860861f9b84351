import Vellar.Worker.PgInterleaving

/-!
# Vellar.Worker.CleanupRuns — the cleanup of old records, beside workers

`services/worker-service/src/cleanup.ts`, statement by statement, over the table of `Worker.PgJobStore` and next
to the workers and reapers of `Worker.PgInterleaving`.  A pass selects ids, copies the rows to the archive and
deletes them.  The copy is `WHERE id = ANY(${ids})` of a template: Postgres gets a row of parameters there and no
array, so the statement fails and the pass ends before its delete.  `lastWritten` remembers what was last written
to each record.  `cleanup_safe`: nothing is lost and nothing goes, and a drain ends with no eligible row when
there is none as it selects.
-/

set_option autoImplicit false

namespace Vellar.Worker.CleanupRuns

open Machine PgJobStore
open PgInterleaving (updateCall)

/-! ## The three statements -/

structure CleanupConfig where
  retentionDays : ℤ
  batchSize : ℕ
  archiveEnabled : Bool
  nowMs : Option ℤ

structure CleanupResult where
  archived : ℕ
  deleted : ℕ
deriving DecidableEq

def terminalStatuses : List VerificationStatus := [.verified, .failed, .deadLetter]

/-- A row of `verification_records_archive`. -/
structure ArchivedRow extends Row where
  archivedAt : ℤ
deriving DecidableEq

abbrev Archive := Table fun r : ArchivedRow => r.id

/-- `config.nowMs ?? Date.now()`. -/
def CleanupConfig.now (config : CleanupConfig) (clock : ℤ) : ℤ := config.nowMs.getD clock

def CleanupConfig.cutoff (config : CleanupConfig) (now : ℤ) : ℤ := now - config.retentionDays * 24 * 60 * 60 * 1000

/-- Terminal, and at least `retentionDays` old. -/
def Eligible (config : CleanupConfig) (now : ℤ) (row : Row) : Prop :=
  row.status ∈ terminalStatuses ∧ row.updatedAt ≤ config.cutoff now

instance (config : CleanupConfig) (now : ℤ) (row : Row) : Decidable (Eligible config now row) :=
  inferInstanceAs (Decidable (_ ∧ _))

/-- The ids of the eligible rows. -/
def eligible (t : Store) (config : CleanupConfig) (now : ℤ) : List String :=
  (t.rows.filter fun row => Eligible config now row).map Row.id

/-- What the select can return: eligible rows in any order, as many as there are up to the batch size. -/
structure Selects (t : Store) (config : CleanupConfig) (now : ℤ) (ids : List String) : Prop where
  nodup : ids.Nodup
  subset : ids ⊆ eligible t config now
  length_eq : ids.length = min config.batchSize (eligible t config now).length

instance {t : Store} {config : CleanupConfig} {now : ℤ} {ids : List String} : Decidable (Selects t config now ids) :=
  decidable_of_iff (ids.Nodup ∧ ids ⊆ eligible t config now ∧
      ids.length = min config.batchSize (eligible t config now).length)
    ⟨fun h => ⟨h.1, h.2.1, h.2.2⟩, fun h => ⟨h.nodup, h.subset, h.length_eq⟩⟩

/-- What `ANY(${ids})` lists.  The template renders ids as `($1, …, $n)`: one is a parameter in brackets, read as
an array literal, more are a row, which is no array. -/
def anyOf (arrayLiteral : String → Option (List String)) : List String → Option (List String)
  | [id] => arrayLiteral id
  | _ => none

/-- `INSERT … SELECT … WHERE id = ANY(${ids}) ON CONFLICT (id) DO NOTHING`, and its row count; none where it fails. -/
def archiveInsert (arrayLiteral : String → Option (List String)) (archive : Archive) (t : Store) (ids : List String)
    (archivedAt : ℤ) : Option (Archive × ℕ) :=
  (anyOf arrayLiteral ids).map fun listed =>
    archive.insertNew ((t.rows.filter fun row => listed.contains row.id).map fun row => ⟨row, archivedAt⟩)

/-- The delete: by id, whatever the row is by now. -/
def deleteRows (t : Store) (ids : List String) : Store := t.removeWhere fun row => row.id ∈ ids

/-! ## Passes -/

/-- `MAX_PASSES`. -/
def maxPasses : ℕ := 10000

/-- A call: its configuration, whether it is one of `runCleanupUntilEmpty`, how many passes may follow the current
one, and the totals so far. -/
structure Job where
  config : CleanupConfig
  drains : Bool
  left : ℕ
  total : CleanupResult

/-- Where a call of `runCleanup` or `runCleanupUntilEmpty` stands. -/
inductive Pass where
  | idle
  | selecting (job : Job)
  | archiving (job : Job) (now : ℤ) (ids : List String)
  | deleting (job : Job) (now : ℤ) (ids : List String) (archived : ℕ)
  | done (total : CleanupResult)
  /-- A statement failed, and the call with it. -/
  | failed

def Pass.config : Pass → Option CleanupConfig
  | .selecting job | .archiving job _ _ | .deleting job _ _ _ => some job.config
  | .idle | .done _ | .failed => none

/-- After the select: an empty one ends the call. -/
def afterSelect (job : Job) (now : ℤ) (ids : List String) : Pass :=
  if ids.isEmpty then .done job.total
  else if job.config.archiveEnabled then .archiving job now ids
  else .deleting job now ids 0

/-- After the delete: the next pass, if one is left. -/
def afterDelete (job : Job) (ids : List String) (archived : ℕ) : Pass :=
  let total := ⟨job.total.archived + archived, job.total.deleted + ids.length⟩
  match job.left with
  | 0 => .done total
  | left + 1 => .selecting ⟨job.config, job.drains, left, total⟩

structure State where
  workers : PgInterleaving.State
  archive : Archive
  passes : ℕ → Pass
  clock : ℤ
  lastWritten : String → Option Row

def State.table (s : State) : Store := s.workers.table

def start (t : Store) (clock : ℤ) : State := ⟨PgInterleaving.start t, Table.empty, fun _ => .idle, clock, t.find⟩

/-- What can happen: a worker's statement, time, a call, the next statement of a call (the select returns `ids`),
and a call that stops between two statements. -/
inductive Op where
  | worker (op : ℕ × PgInterleaving.Stmt)
  | tick (ms : ℕ)
  | runCleanup (p : ℕ) (config : CleanupConfig)
  | runCleanupUntilEmpty (p : ℕ) (config : CleanupConfig)
  | next (p : ℕ) (ids : List String)
  | stop (p : ℕ)

def setPass (s : State) (p : ℕ) (pass : Pass) : State := { s with passes := Function.update s.passes p pass }

section Steps

variable (arrayLiteral : String → Option (List String))

/-- The next statement of a call. -/
def nextStatement (s : State) (p : ℕ) (ids : List String) : State :=
  match s.passes p with
  | .idle | .done _ | .failed => s
  | .selecting job => setPass s p (afterSelect job (job.config.now s.clock) ids)
  | .archiving job now ids =>
    match archiveInsert arrayLiteral s.archive s.table ids now with
    | some r => setPass { s with archive := r.1 } p (.deleting job now ids r.2)
    | none => setPass s p .failed
  | .deleting job _ ids archived =>
    setPass { s with workers := { s.workers with table := deleteRows s.table ids } } p (afterDelete job ids archived)

/-- A worker's statement; what it leaves in the table is what was last written. -/
def workerStatement (s : State) (op : ℕ × PgInterleaving.Stmt) : State :=
  let workers := PgInterleaving.step s.workers op
  { s with workers, lastWritten := fun id => (workers.table.find id).or (s.lastWritten id) }

def step (s : State) : Op → State
  | .worker op => workerStatement s op
  | .tick ms => { s with clock := s.clock + ms }
  | .runCleanup p config => setPass s p (.selecting ⟨config, false, 0, 0, 0⟩)
  | .runCleanupUntilEmpty p config => setPass s p (.selecting ⟨config, true, maxPasses - 1, 0, 0⟩)
  | .next p ids => nextStatement arrayLiteral s p ids
  | .stop p => setPass s p .idle

end Steps

/-- The database can answer so, and archiving is on. -/
def Possible (s : State) : Op → Prop
  | .worker op => PgInterleaving.Possible s.workers op
  | .runCleanup _ config | .runCleanupUntilEmpty _ config => config.archiveEnabled = true
  | .next p ids =>
    match s.passes p with
    | .selecting job => Selects s.table job.config (job.config.now s.clock) ids
    | _ => True
  | .tick _ | .stop _ => True

/-! ## What must hold of a run -/

/-- Every record is in the live table or in the archive, as it was last written. -/
def Kept (s : State) : Prop :=
  ∀ id row, s.lastWritten id = some row →
    s.table.find id = some row ∨ ∃ copy, s.archive.find id = some copy ∧ copy.toRow = row

/-- The rows that are eligible now. -/
def State.eligible (s : State) (config : CleanupConfig) : List String :=
  CleanupRuns.eligible s.table config (config.now s.clock)

/-- The step lets the call of `p` go on. -/
def Leaves (p : ℕ) : Op → Prop
  | .runCleanup q _ | .runCleanupUntilEmpty q _ | .stop q => q ≠ p
  | .worker _ | .tick _ | .next _ _ => True

/-- A statement of `p`. -/
def Moves (p : ℕ) : Op → Bool
  | .next q _ => q = p
  | _ => false

/-- The call has returned or thrown. -/
def Pass.Ended : Pass → Prop
  | .done _ | .failed => True
  | .idle | .selecting _ | .archiving _ _ _ | .deleting _ _ _ _ => False

section Promise

variable (arrayLiteral : String → Option (List String))

/-- A row that goes is one a pass deletes, terminal and at least `retentionDays` old by then. -/
def RemovesOld (s : State) (op : Op) : Prop :=
  ∀ id row, s.table.find id = some row → (step arrayLiteral s op).table.find id = none →
    ∃ p ids config, op = .next p ids ∧ (s.passes p).config = some config ∧ Eligible config (config.now s.clock) row

/-- The step makes no row eligible. -/
def NoneNew (config : CleanupConfig) (s : State) (op : Op) : Prop :=
  (step arrayLiteral s op).eligible config ⊆ s.eligible config

/-- A call of `runCleanupUntilEmpty` at `s` that nothing stops ends, after at most three statements a pass, and
leaves no eligible row if none becomes eligible. -/
def Drains (s : State) (p : ℕ) (config : CleanupConfig) (ops : List Op) : Prop :=
  let s' := run (step arrayLiteral) s (.runCleanupUntilEmpty p config :: ops)
  (3 * maxPasses ≤ ops.countP (Moves p) → (s'.passes p).Ended) ∧
  (Along (step arrayLiteral) (NoneNew arrayLiteral config) s (.runCleanupUntilEmpty p config :: ops) →
    (s'.passes p).Ended → s'.eligible config = [])

/-- Nothing is lost, only old terminal rows go, and a drain ends with no eligible row. -/
structure Safe (s : State) (ops : List Op) : Prop where
  kept : ∀ pre, pre <+: ops → Kept (run (step arrayLiteral) s pre)
  removesOld : Along (step arrayLiteral) (RemovesOld arrayLiteral) s ops
  drains : ∀ pre p config mid, pre ++ .runCleanupUntilEmpty p config :: mid <+: ops → (∀ op ∈ mid, Leaves p op) →
    Drains arrayLiteral (run (step arrayLiteral) s pre) p config mid

/-- No row is eligible when a drain selects, and no id that is archived alone reads as an array. -/
def Orderly (s : State) : Op → Prop
  | .next p _ =>
    match s.passes p with
    | .selecting job => job.drains = true → s.eligible job.config = []
    | .archiving _ _ ids => anyOf arrayLiteral ids = none
    | _ => True
  | _ => True

end Promise

/-! ## One statement -/

section Statements

variable {arrayLiteral : String → Option (List String)} {s : State} {p : ℕ} {ids : List String}

theorem next_ended (h : (s.passes p).Ended) : step arrayLiteral s (.next p ids) = s := by
  show nextStatement arrayLiteral s p ids = s
  unfold nextStatement
  cases hpass : s.passes p with
  | idle => rfl
  | done total => rfl
  | failed => rfl
  | selecting | archiving | deleting =>
    rw [hpass] at h
    cases h

theorem next_selecting {job : Job} (hpass : s.passes p = .selecting job) :
    step arrayLiteral s (.next p ids) = setPass s p (afterSelect job (job.config.now s.clock) ids) := by
  show nextStatement arrayLiteral s p ids = _
  unfold nextStatement
  rw [hpass]

/-- The copy fails. -/
theorem next_archiving {job : Job} {now : ℤ} {sel : List String} (hpass : s.passes p = .archiving job now sel)
    (hord : Orderly arrayLiteral s (.next p ids)) : step arrayLiteral s (.next p ids) = setPass s p .failed := by
  have hnone : anyOf arrayLiteral sel = none := by
    unfold Orderly at hord
    simpa only [hpass] using hord
  show nextStatement arrayLiteral s p ids = _
  unfold nextStatement archiveInsert
  simp only [hpass, hnone, Option.map_none]

theorem selects_of_possible {job : Job} (hop : Possible s (.next p ids)) (hpass : s.passes p = .selecting job) :
    Selects s.table job.config (job.config.now s.clock) ids := by
  unfold Possible at hop
  simpa only [hpass] using hop

theorem setPass_self (s : State) (p : ℕ) (pass : Pass) : (setPass s p pass).passes p = pass := Function.update_self ..

/-- Workers rewrite rows, they add and delete none. -/
theorem find_worker (w : PgInterleaving.State) (op : ℕ × PgInterleaving.Stmt) (id : String) :
    ((PgInterleaving.step w op).table.find id).isSome = (w.table.find id).isSome := by
  obtain ⟨p, stmt⟩ := op
  cases stmt with
  | claimSubmitted limit ids now =>
    show ((claimUpdate w.table ids now).find id).isSome = _
    rw [find_claimUpdate, Option.isSome_map]
  | completeSelect | reapSelect | stop => rfl
  | update =>
    show ((updateCall w.table (w.calls p)).1.find id).isSome = _
    cases w.calls p with
    | idle => rfl
    | completing recordId status now updated =>
      show ((completeUpdate w.table recordId status now updated).find id).isSome = _
      rw [find_completeUpdate, Option.isSome_map]
    | reaping maxAttempts now list =>
      cases list with
      | nil => rfl
      | cons sel rest =>
        show ((reapUpdate w.table maxAttempts now sel).find id).isSome = _
        rw [find_reapUpdate, Option.isSome_map]

end Statements

/-! ## The invariant -/

/-- No pass gets to its delete. -/
def Pass.Archives : Pass → Prop
  | .deleting _ _ _ _ => False
  | .selecting job | .archiving job _ _ => job.config.archiveEnabled = true
  | .idle | .done _ | .failed => True

/-- The invariant of the runs. -/
structure Inv (s : State) : Prop where
  live : ∀ id, s.lastWritten id = s.table.find id
  passing : ∀ p, (s.passes p).Archives

section Invariant

variable {arrayLiteral : String → Option (List String)} {s : State}

theorem inv_start (t : Store) (clock : ℤ) : Inv (start t clock) := ⟨fun _ => rfl, fun _ => trivial⟩

theorem Inv.setPass (h : Inv s) {p : ℕ} {pass : Pass} (hpass : pass.Archives) : Inv (setPass s p pass) := by
  refine ⟨h.live, fun q => ?_⟩
  show (Function.update s.passes p pass q).Archives
  by_cases hq : q = p
  · rw [hq, Function.update_self]
    exact hpass
  · rw [Function.update_of_ne hq]
    exact h.passing q

theorem Inv.worker (h : Inv s) (op : ℕ × PgInterleaving.Stmt) : Inv (step arrayLiteral s (.worker op)) := by
  refine ⟨fun id => ?_, h.passing⟩
  show ((PgInterleaving.step s.workers op).table.find id).or (s.lastWritten id) = (PgInterleaving.step s.workers op).table.find id
  have hsome := find_worker s.workers op id
  cases hfind : (PgInterleaving.step s.workers op).table.find id with
  | some row => rfl
  | none =>
    rw [hfind] at hsome
    rw [Option.none_or, h.live]
    exact Option.isSome_eq_false_iff.mp hsome.symm |> Option.isNone_iff_eq_none.mp

/-- What the next statement of a call comes to: the call goes on, and no row does. -/
theorem Inv.next (h : Inv s) {p : ℕ} {ids : List String} (hord : Orderly arrayLiteral s (.next p ids)) :
    step arrayLiteral s (.next p ids) = s ∨
      ∃ pass : Pass, pass.Archives ∧ step arrayLiteral s (.next p ids) = CleanupRuns.setPass s p pass := by
  have hpassing := h.passing p
  cases hpass : s.passes p with
  | idle =>
    refine .inl ?_
    show nextStatement arrayLiteral s p ids = s
    unfold nextStatement
    rw [hpass]
  | done total => exact .inl (next_ended (by rw [hpass]; trivial))
  | failed => exact .inl (next_ended (by rw [hpass]; trivial))
  | selecting job =>
    rw [hpass] at hpassing
    refine .inr ⟨_, ?_, next_selecting hpass⟩
    have hon : job.config.archiveEnabled = true := hpassing
    unfold afterSelect
    rw [if_pos hon]
    split
    · trivial
    · exact hon
  | archiving job now sel => exact .inr ⟨.failed, trivial, next_archiving hpass hord⟩
  | deleting job now sel archived =>
    rw [hpass] at hpassing
    exact hpassing.elim

/-- **Step**: an orderly step keeps the invariant. -/
theorem inv_step {op : Op} (h : Inv s) (hop : Possible s op) (hord : Orderly arrayLiteral s op) :
    Inv (step arrayLiteral s op) := by
  cases op with
  | worker op => exact h.worker op
  | tick ms => exact ⟨h.live, h.passing⟩
  | runCleanup p config | runCleanupUntilEmpty p config => exact h.setPass hop
  | next p ids =>
    obtain hsame | ⟨pass, hpass, heq⟩ := h.next hord
    · rwa [hsame]
    · rw [heq]
      exact h.setPass hpass
  | stop p => exact h.setPass trivial

/-- No step takes a row away. -/
theorem find_step {op : Op} (h : Inv s) (hord : Orderly arrayLiteral s op) (id : String) :
    ((step arrayLiteral s op).table.find id).isSome = (s.table.find id).isSome := by
  cases op with
  | worker op => exact find_worker s.workers op id
  | tick | runCleanup | runCleanupUntilEmpty | stop => rfl
  | next p ids =>
    obtain hsame | ⟨pass, -, heq⟩ := h.next hord
    · rw [hsame]
    · rw [heq]
      rfl

end Invariant

/-! ## A drain -/

section Drain

variable {arrayLiteral : String → Option (List String)} {s : State} {p : ℕ} {config : CleanupConfig} {op : Op}

theorem eq_next_of_moves (h : Moves p op = true) : ∃ ids, op = .next p ids := by
  cases op with
  | next q ids =>
    obtain rfl : q = p := by simpa [Moves] using h
    exact ⟨ids, rfl⟩
  | worker | tick | runCleanup | runCleanupUntilEmpty | stop => cases h

/-- What is not a statement of the call leaves it where it stands. -/
theorem passes_step (h : Inv s) (hord : Orderly arrayLiteral s op) (hleaves : Leaves p op) (hmoves : Moves p op = false) :
    (step arrayLiteral s op).passes p = s.passes p := by
  cases op with
  | worker | tick => rfl
  | runCleanup q config => exact Function.update_of_ne (Ne.symm hleaves) ..
  | runCleanupUntilEmpty q config => exact Function.update_of_ne (Ne.symm hleaves) ..
  | stop q => exact Function.update_of_ne (Ne.symm hleaves) ..
  | next q ids =>
    have hne : p ≠ q := fun heq => by simp [Moves, heq] at hmoves
    obtain hsame | ⟨pass, -, heq⟩ := h.next hord
    · rw [hsame]
    · rw [heq]
      exact Function.update_of_ne hne ..

/-- The select of a drain that has nothing to do ends it. -/
theorem select_done {job : Job} {ids : List String} (hpass : s.passes p = .selecting job) (hdrains : job.drains = true)
    (hop : Possible s (.next p ids)) (hord : Orderly arrayLiteral s (.next p ids)) :
    step arrayLiteral s (.next p ids) = setPass s p (.done job.total) ∧ s.eligible job.config = [] := by
  have hnone : s.eligible job.config = [] := by
    unfold Orderly at hord
    simp only [hpass] at hord
    exact hord hdrains
  have hids : ids = [] := List.subset_nil.mp (hnone ▸ (selects_of_possible hop hpass).subset)
  rw [next_selecting hpass, hids]
  exact ⟨rfl, hnone⟩

/-- A call that has ended stays so. -/
theorem ended_run {ops : List Op} (h : Inv s) (hleaves : ∀ op ∈ ops, Leaves p op)
    (hrun : Along (step arrayLiteral) (fun s op => Possible s op ∧ Orderly arrayLiteral s op) s ops)
    (hended : (s.passes p).Ended) : ((run (step arrayLiteral) s ops).passes p).Ended := by
  induction ops generalizing s with
  | nil => exact hended
  | cons op ops ih =>
    refine ih (inv_step h hrun.1.1 hrun.1.2) (fun op hop => hleaves op (List.mem_cons_of_mem _ hop)) hrun.2 ?_
    cases hmoves : Moves p op with
    | false => rwa [passes_step h hrun.1.2 (hleaves op List.mem_cons_self) hmoves]
    | true =>
      obtain ⟨ids, rfl⟩ := eq_next_of_moves hmoves
      rwa [next_ended hended]

theorem eligible_run {ops : List Op} (hnone : Along (step arrayLiteral) (NoneNew arrayLiteral config) s ops) :
    (run (step arrayLiteral) s ops).eligible config ⊆ s.eligible config := by
  induction ops generalizing s with
  | nil => exact List.Subset.refl _
  | cons op ops ih => exact fun id hid => hnone.1 (ih hnone.2 hid)

/-- **A drain**: its first statement ends it, with no eligible row left. -/
theorem drain_run {ops : List Op} (h : Inv s) (hleaves : ∀ op ∈ ops, Leaves p op)
    (hrun : Along (step arrayLiteral) (fun s op => Possible s op ∧ Orderly arrayLiteral s op) s ops)
    {job : Job} (hpass : s.passes p = .selecting job) (hdrains : job.drains = true) :
    (0 < ops.countP (Moves p) → ((run (step arrayLiteral) s ops).passes p).Ended) ∧
    (Along (step arrayLiteral) (NoneNew arrayLiteral job.config) s ops →
      ((run (step arrayLiteral) s ops).passes p).Ended → (run (step arrayLiteral) s ops).eligible job.config = []) := by
  induction ops generalizing s with
  | nil =>
    refine ⟨fun hmany => absurd hmany (lt_irrefl 0), fun _ hended => ?_⟩
    have hat : (s.passes p).Ended := hended
    rw [hpass] at hat
    cases hat
  | cons op ops ih =>
    have hinv := inv_step h hrun.1.1 hrun.1.2
    have hrest : ∀ op ∈ ops, Leaves p op := fun op hop => hleaves op (List.mem_cons_of_mem _ hop)
    rw [run_cons]
    cases hmoves : Moves p op with
    | false =>
      rw [List.countP_cons_of_neg (by simp [hmoves])]
      have hstay := passes_step h hrun.1.2 (hleaves op List.mem_cons_self) hmoves
      obtain ⟨hends, hleft⟩ := ih hinv hrest hrun.2 (hstay.trans hpass)
      exact ⟨hends, fun hnone => hleft hnone.2⟩
    | true =>
      obtain ⟨ids, rfl⟩ := eq_next_of_moves hmoves
      obtain ⟨hdone, hempty⟩ := select_done hpass hdrains hrun.1.1 hrun.1.2
      have hended : ((step arrayLiteral s (.next p ids)).passes p).Ended := by
        rw [hdone, setPass_self]
        trivial
      refine ⟨fun _ => ended_run hinv hrest hrun.2 hended, fun hnone _ => ?_⟩
      exact List.subset_nil.mp (hempty ▸ eligible_run hnone)

end Drain

/-! ## Runs -/

/-- **Cleanup keeps every record, and drains what is empty**: along a run in which no drain selects while a row is
eligible, and no id that a pass has selected alone reads as an array, every record stays as it was last written, no
row goes, and a drain ends with no eligible row. -/
theorem cleanup_safe {arrayLiteral : String → Option (List String)} {t : Store} {clock : ℤ} {ops : List Op}
    (hrun : Along (step arrayLiteral) Possible (start t clock) ops)
    (hord : Along (step arrayLiteral) (Orderly arrayLiteral) (start t clock) ops) :
    Safe arrayLiteral (start t clock) ops := by
  have hboth := along_and.mpr ⟨hrun, hord⟩
  have hinv := inv_prefix (P := Inv) (fun s op h hop => inv_step h hop.1 hop.2) (inv_start t clock) hboth
  refine ⟨fun pre hpre id row hrow => ?_, ?_, ?_⟩
  · exact .inl (((hinv pre hpre).live id).symm.trans hrow)
  · rw [along_iff]
    intro pre op post heq id row hrow hgone
    have hsome := find_step (hinv pre ⟨op :: post, heq.symm⟩) (along_iff.mp hord pre op post heq) id
    rw [hgone, hrow] at hsome
    cases hsome
  · rintro pre p config mid hpre hleaves
    have hpre' := hpre
    obtain ⟨post, rfl⟩ := hpre
    have hcalled := (along_append.mp (along_append.mp hboth).1).2
    have hat : Inv (run (step arrayLiteral) (start t clock) pre) :=
      hinv pre ((List.prefix_append _ _).trans hpre')
    have hselecting : (step arrayLiteral (run (step arrayLiteral) (start t clock) pre) (.runCleanupUntilEmpty p config)).passes p =
        .selecting ⟨config, true, maxPasses - 1, 0, 0⟩ := setPass_self ..
    obtain ⟨hends, hleft⟩ := drain_run (inv_step hat hcalled.1.1 hcalled.1.2) hleaves hcalled.2 hselecting rfl
    exact ⟨fun hmany => hends (lt_of_lt_of_le (by decide) hmany), fun hnone => hleft hnone.2⟩

instance (s : State) : (op : Op) → Decidable (Possible s op)
  | .worker op => inferInstanceAs (Decidable (PgInterleaving.Possible s.workers op))
  | .runCleanup _ config | .runCleanupUntilEmpty _ config => inferInstanceAs (Decidable (config.archiveEnabled = true))
  | .next p ids =>
    match h : s.passes p with
    | .selecting job =>
      decidable_of_iff (Selects s.table job.config (job.config.now s.clock) ids) (by simp [Possible, h])
    | .idle | .archiving _ _ _ | .deleting _ _ _ _ | .done _ | .failed => isTrue (by simp [Possible, h])
  | .tick _ | .stop _ => isTrue trivial

def dayConfig : CleanupConfig := ⟨1, 500, true, none⟩

/-- An array of texts without quotes; what is not in braces is none. -/
def bracedLiteral (text : String) : Option (List String) :=
  match text.toList with
  | '{' :: rest => some ((rest.dropLast.splitOn ',').map String.ofList)
  | _ => none

/-- A job is completed, and a drain finds nothing old; a day later a pass selects the job and fails. -/
def quietOps : List Op :=
  [.worker (1, .completeSelect "r1" PgInterleaving.verifiedOutcome 20), .worker (1, .update),
    .runCleanupUntilEmpty 1 dayConfig, .next 1 [], .tick 86400000, .runCleanup 2 dayConfig, .next 2 ["r1"], .next 2 []]

theorem cleanup_safe_quiet : Safe bracedLiteral (start strandedTable 20) quietOps :=
  cleanup_safe (by decide)
    ⟨trivial, trivial, trivial, fun _ => by decide, trivial, trivial, fun h => absurd h (by decide),
      show anyOf bracedLiteral ["r1"] = none by decide, trivial⟩

def failedTable : Store := insert (insert Table.empty (sampleRecord "r1" .failed)) (sampleRecord "r2" .failed)

/-- The drain of two old rows: the select, and the copy. -/
def drainOps : List Op := [.runCleanupUntilEmpty 1 dayConfig, .next 1 ["r1", "r2"], .next 1 []]

/-- A drain that ends with a row left is not safe. -/
theorem not_safe_of_left {arrayLiteral : String → Option (List String)} {s : State} {config : CleanupConfig} {mid : List Op}
    (hleaves : ∀ op ∈ mid, Leaves 1 op)
    (hnone : Along (step arrayLiteral) (NoneNew arrayLiteral config) s (.runCleanupUntilEmpty 1 config :: mid))
    (hended : ((run (step arrayLiteral) s (.runCleanupUntilEmpty 1 config :: mid)).passes 1).Ended)
    (hleft : (run (step arrayLiteral) s (.runCleanupUntilEmpty 1 config :: mid)).eligible config ≠ []) :
    ¬ Safe arrayLiteral s (.runCleanupUntilEmpty 1 config :: mid) :=
  fun h => hleft ((h.drains [] 1 config mid (List.prefix_refl _) hleaves).2 hnone hended)

/-- Two old rows: the drain fails at its copy, whatever an array literal is, and leaves them.  A drain without a batch
size leaves them too. -/
theorem drain_leaves_rows :
    (∀ arrayLiteral, Along (step arrayLiteral) Possible (start failedTable 86400020) drainOps ∧
      ¬ Safe arrayLiteral (start failedTable 86400020) drainOps) ∧
    ¬ Safe bracedLiteral (start failedTable 86400020) [.runCleanupUntilEmpty 1 ⟨1, 0, true, none⟩, .next 1 []] := by
  refine ⟨fun arrayLiteral => ⟨⟨rfl, ?_, trivial, trivial⟩, not_safe_of_left (by simp [Leaves]) ?_ trivial ?_⟩, ?_⟩
  · show Selects failedTable dayConfig 86400020 ["r1", "r2"]
    decide
  · exact ⟨fun _ h => h, fun _ h => h, fun _ h => h, trivial⟩
  · show eligible failedTable dayConfig 86400020 ≠ []
    decide
  · exact not_safe_of_left (by simp [Leaves]) ⟨fun _ h => h, fun _ h => h, trivial⟩ trivial (by decide)

end Vellar.Worker.CleanupRuns
