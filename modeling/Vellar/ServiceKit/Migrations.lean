import Vellar.Lib.GitConfig
import Vellar.Lib.Partial
import Vellar.Lib.Processes

/-!
# Vellar.ServiceKit.Migrations — services that migrate one database

`applyMigrations` of `packages/service-kit/src/migrations.ts`, as `connectDb` of every service's `db/client.ts` runs it: on a
connection of its own, under the advisory lock.  Boots of any services, from checkouts with either line ending, go from one query
to the next; a query may throw, a connection may be lost.  `migrated_once`: every text is run at most once, all that a boot had
to do or nothing however it ends, and a boot that returns has left nothing of its journal undone.
-/

set_option autoImplicit false

namespace Vellar.ServiceKit.Migrations

open Machine Processes Partial

/-! ## Migration files -/

def BREAKPOINT : String := "--> statement-breakpoint"

/-- What `readMigrationFiles` reads of a file: its pieces between breakpoints, and the hash of the whole. -/
structure MigrationMeta where
  sql : List String
  hash : String
  folderMillis : ℤ
deriving DecidableEq

/-- `replace(/\n/g, "\r\n")` -/
def windowsLines (text : List Char) : List Char := text.flatMap fun c => if c = '\n' then ['\r', '\n'] else [c]

namespace MigrationMeta

variable (m : MigrationMeta)

def raw : String := BREAKPOINT.intercalate m.sql

def lf : String := String.ofList (GitConfig.unixLines m.raw.toList)

def crlf : String := String.ofList (windowsLines m.lf.toList)

end MigrationMeta

/-- The hashes under which a migration counts as applied. -/
def recordedForms (sha : String → String) (m : MigrationMeta) : List String := [m.hash, sha m.lf, sha m.crlf]

/-! ## The database -/

/-- A row of `drizzle.__drizzle_migrations`. -/
structure MigrationRow where
  hash : String
  createdAt : ℤ
deriving DecidableEq

inductive Bookkeeping where
  | absent
  /-- The schema, without the table. -/
  | schema
  | table (rows : List MigrationRow)
deriving DecidableEq

def Bookkeeping.rows : Bookkeeping → List MigrationRow
  | .table rows => rows
  | .absent | .schema => []

/-- `CREATE SCHEMA IF NOT EXISTS` -/
def Bookkeeping.createSchema : Bookkeeping → Bookkeeping
  | .absent => .schema
  | b => b

/-- `CREATE TABLE IF NOT EXISTS` -/
def Bookkeeping.createTable : Bookkeeping → Bookkeeping
  | .table rows => .table rows
  | .absent | .schema => .table []

/-- `tables` is all that the migrations make. -/
structure Database (σ : Type) where
  tables : σ
  bookkeeping : Bookkeeping

/-- A query of the transaction. -/
inductive Query where
  | statement (sql : String)
  | record (hash : String) (folderMillis : ℤ)

def queriesOf (m : MigrationMeta) : List Query := m.sql.map .statement ++ [.record m.hash m.folderMillis]

section Boots

variable {σ : Type} (sha : String → String) (statement : String → σ → Option σ)

/-- None for a query that fails. -/
def runQuery (d : Database σ) : Query → Option (Database σ)
  | .statement sql => (statement sql d.tables).map fun tables => { d with tables := tables }
  | .record hash folderMillis =>
    match d.bookkeeping with
    | .table rows => some { d with bookkeeping := .table (rows ++ [⟨hash, folderMillis⟩]) }
    | .absent | .schema => none

/-- What a migration's statements make of the tables. -/
def runStatements (m : MigrationMeta) (tables : σ) : Option σ := m.sql.foldlM (fun tables sql => statement sql tables) tables

def isRecorded (d : Database σ) (m : MigrationMeta) : Bool :=
  (recordedForms sha m).any fun hash => decide (hash ∈ d.bookkeeping.rows.map MigrationRow.hash)

/-- The migrations of the folder that are not recorded. -/
def pendingOf (d : Database σ) (migrations : List MigrationMeta) : List MigrationMeta :=
  migrations.filter fun m => !isRecorded sha d m

/-! ## Boots -/

inductive Result where
  | returned (applied : ℕ)
  /-- A query threw on a connection that was up. -/
  | threw
  /-- The connection is lost, or the process. -/
  | lost
deriving DecidableEq

inductive Stage (σ : Type) where
  | connecting
  | locked
  | schemaCreated
  | tableCreated
  | beginning (pending : List MigrationMeta)
  /-- In the transaction, with what it has made so far. -/
  | running (pending : List MigrationMeta) (todo : List Query) (draft : Database σ)
  | rollingBack
  | unlocking (result : Result)
  | ended (result : Result)

/-- A call of `connectDb`. -/
structure Boot (σ : Type) where
  id : ℕ
  migrations : List MigrationMeta
  stage : Stage σ

/-- What a query is answered; a connection that is lost at its COMMIT may have committed. -/
inductive Answer where
  | ok
  | throws
  | lost (committed : Bool)
deriving DecidableEq

/-- The log has what was committed, and by which boot. -/
structure Shared (σ : Type) where
  db : Database σ
  lock : Option ℕ
  log : List (ℕ × MigrationMeta)

def Shared.release (s : Shared σ) (id : ℕ) : Shared σ := { s with lock := if s.lock = some id then none else s.lock }

def Shared.commit (s : Shared σ) (id : ℕ) (pending : List MigrationMeta) (draft : Database σ) : Shared σ :=
  { s with db := draft, log := s.log ++ pending.map fun m => (id, m) }

/-- After the rows are read. -/
def afterSelect (pending : List MigrationMeta) : Stage σ := if pending = [] then .unlocking (.returned 0) else .beginning pending

def afterQuery (pending : List MigrationMeta) (todo : List Query) : Option (Database σ) → Stage σ
  | some draft => .running pending todo draft
  | none => .rollingBack

/-- The query is answered. -/
def onOk (p : Boot σ) (s : Shared σ) : Stage σ × Shared σ :=
  match p.stage with
  | .connecting => if s.lock = none then (.locked, { s with lock := some p.id }) else (.connecting, s)
  | .locked => (.schemaCreated, { s with db := { s.db with bookkeeping := s.db.bookkeeping.createSchema } })
  | .schemaCreated => (.tableCreated, { s with db := { s.db with bookkeeping := s.db.bookkeeping.createTable } })
  | .tableCreated => (afterSelect (pendingOf sha s.db p.migrations), s)
  | .beginning pending => (.running pending (pending.flatMap queriesOf) s.db, s)
  | .running pending (q :: todo) draft => (afterQuery pending todo (runQuery statement draft q), s)
  | .running pending [] draft => (.unlocking (.returned pending.length), s.commit p.id pending draft)
  | .rollingBack => (.unlocking .threw, s)
  | .unlocking result => (.ended result, s.release p.id)
  | .ended result => (.ended result, s)

/-- The query throws; what `pg_advisory_unlock` throws is swallowed. -/
def onThrow (stage : Stage σ) : Stage σ :=
  match stage with
  | .running _ _ _ => .rollingBack
  | .unlocking result | .ended result => .ended result
  | _ => .unlocking .threw

/-- The session ends, and with it its transaction and its lock; an unlock that is lost is swallowed too. -/
def onLost (committed : Bool) (p : Boot σ) (s : Shared σ) : Stage σ × Shared σ :=
  match p.stage with
  | .ended result => (.ended result, s)
  | .unlocking result => (.ended result, s.release p.id)
  | .running pending [] draft => (.ended .lost, (if committed then s.commit p.id pending draft else s).release p.id)
  | _ => (.ended .lost, s.release p.id)

def exec (x : Answer) (p : Boot σ) (s : Shared σ) : Boot σ × Shared σ :=
  match x with
  | .ok => ({ p with stage := (onOk sha statement p s).1 }, (onOk sha statement p s).2)
  | .throws => ({ p with stage := onThrow p.stage }, s)
  | .lost committed => ({ p with stage := (onLost committed p s).1 }, (onLost committed p s).2)

def start (db : Database σ) (folders : ℕ → List MigrationMeta) : Config (Shared σ) (Boot σ) where
  shared := ⟨db, none, []⟩
  procs i := ⟨i, folders i, .connecting⟩

def reached (db : Database σ) (folders : ℕ → List MigrationMeta) (schedule : List (ℕ × Answer)) : Config (Shared σ) (Boot σ) :=
  run (step (exec sha statement)) (start db folders) schedule

end Boots

/-! ## What is promised -/

section Promise

variable {σ : Type} (sha : String → String) (statement : String → σ → Option σ)

/-- A migration as a checkout has it: hashed as it is, the lines ended one way or the other. -/
structure CheckedOut (m : MigrationMeta) : Prop where
  hash : m.hash = sha m.raw
  plain : '\r' ∉ m.lf.toList
  ends : m.raw = m.lf ∨ m.raw = m.crlf

def Recorded (d : Database σ) (m : MigrationMeta) : Prop :=
  ∃ hash ∈ recordedForms sha m, hash ∈ d.bookkeeping.rows.map MigrationRow.hash

/-- What a boot has committed, in order. -/
def Shared.entries (s : Shared σ) (id : ℕ) : List MigrationMeta := (s.log.filter fun e => e.1 = id).map Prod.snd

def rowOf (m : MigrationMeta) : MigrationRow := ⟨m.hash, m.folderMillis⟩

structure MigratedOnce (db : Database σ) (folders : ℕ → List MigrationMeta) (c : Config (Shared σ) (Boot σ)) : Prop where
  /-- The tables are what the migrations of the log make of the first ones, each run once and in this order. -/
  tables : (c.shared.log.map Prod.snd).foldlM (fun tables m => runStatements statement m tables) db.tables =
    some c.shared.db.tables
  rows : c.shared.db.bookkeeping.rows = db.bookkeeping.rows ++ c.shared.log.map fun e => rowOf e.2
  once : (c.shared.log.map fun e => e.2.lf).Nodup
  fresh : ∀ e ∈ c.shared.log, ¬ Recorded sha db e.2
  order : ∀ i, (c.shared.entries i).Sublist (folders i)
  /-- Wherever a boot stands and however it ended, it has committed nothing, or at one moment all of its journal that was not
  applied then. -/
  whole : ∀ i, c.shared.entries i = [] ∨ ∃ before after,
    c.shared.log = before ++ (c.shared.entries i).map (fun m => (i, m)) ++ after ∧
      ∀ m ∈ folders i, m ∈ c.shared.entries i ∨ Recorded sha db m ∨ ∃ e ∈ before, e.2.lf = m.lf
  returned : ∀ i n, (c.procs i).stage = .ended (.returned n) → n = (c.shared.entries i).length ∧
    ∀ m ∈ folders i, Recorded sha db m ∨ ∃ e ∈ c.shared.log, e.2.lf = m.lf
  threw : ∀ i, (c.procs i).stage = .ended .threw → c.shared.entries i = []

end Promise

/-! ## Line endings -/

theorem unixLines_windowsLines (text : List Char) : GitConfig.unixLines (windowsLines text) = text := by
  induction text with
  | nil => rfl
  | cons c text ih =>
    have hhead : (windowsLines text).head? ≠ some '\n' := by
      cases text with
      | nil => simp [windowsLines]
      | cons d text =>
        unfold windowsLines
        rw [List.flatMap_cons]
        split
        · simp
        · next hd => simpa using hd
    show GitConfig.unixLines ((if c = '\n' then ['\r', '\n'] else [c]) ++ windowsLines text) = c :: text
    split
    · next hc =>
      subst hc
      show GitConfig.unixLines ('\r' :: '\n' :: windowsLines text) = _
      rw [GitConfig.unixLines, if_pos ⟨rfl, rfl⟩, GitConfig.unixLines, if_neg (fun h => absurd h.1 (by decide)), ih]
    · show GitConfig.unixLines (c :: windowsLines text) = _
      rw [GitConfig.unixLines, if_neg (fun h => hhead h.2), ih]

theorem windowsLines_of_plain {text : List Char} (h : '\n' ∉ text) : windowsLines text = text := by
  induction text with
  | nil => rfl
  | cons c text ih =>
    simp only [List.mem_cons, not_or] at h
    obtain ⟨hc, htext⟩ := h
    show (if c = '\n' then _ else [c]) ++ windowsLines text = _
    rw [if_neg (Ne.symm hc), ih htext]
    rfl

theorem mem_windowsLines {text : List Char} (h : '\n' ∈ text) : '\r' ∈ windowsLines text :=
  List.mem_flatMap.mpr ⟨'\n', h, by simp⟩

/-- A text without carriage returns, checked out either way, is such a file. -/
theorem checkedOut_of_text {sha : String → String} {m : MigrationMeta} (text : String) (hash : m.hash = sha m.raw)
    (hplain : '\r' ∉ text.toList) (hraw : m.raw = text ∨ m.raw = String.ofList (windowsLines text.toList)) :
    CheckedOut sha m := by
  have hlf : m.lf = text := by
    unfold MigrationMeta.lf
    obtain hraw | hraw := hraw
    · rw [hraw, GitConfig.unixLines_of_plain hplain, String.ofList_toList]
    · rw [hraw, String.toList_ofList, unixLines_windowsLines, String.ofList_toList]
  refine ⟨hash, by rw [hlf]; exact hplain, ?_⟩
  unfold MigrationMeta.crlf
  rwa [hlf]

/-- Of two texts without carriage returns, no line-ending form is one of the other's unless they are the same. -/
theorem lf_eq_of_forms {m m' : MigrationMeta} (hm : '\r' ∉ m.lf.toList) (hm' : '\r' ∉ m'.lf.toList) {x : String}
    (hx : x = m.lf ∨ x = m.crlf) (hx' : x = m'.lf ∨ x = m'.crlf) : m.lf = m'.lf := by
  have hcross : ∀ a b : MigrationMeta, '\r' ∉ b.lf.toList → b.lf = a.crlf → a.lf = b.lf := by
    intro a b hb heq
    have hchars : b.lf.toList = windowsLines a.lf.toList := by
      rw [heq]
      exact String.toList_ofList
    have hline : '\n' ∉ a.lf.toList := fun hmem => hb (hchars ▸ mem_windowsLines hmem)
    rw [windowsLines_of_plain hline] at hchars
    exact String.toList_inj.mp hchars.symm
  obtain rfl | rfl := hx
  · exact hx'.elim id fun h => (hcross m' m hm h).symm
  · obtain h | h := hx'
    · exact hcross m m' hm' h.symm
    · have hback := congrArg (fun s : String => GitConfig.unixLines s.toList) h
      simp only [MigrationMeta.crlf, String.toList_ofList, unixLines_windowsLines] at hback
      exact String.toList_inj.mp hback

/-! ## What a transaction makes -/

section Transactions

variable {σ : Type} {sha : String → String} {statement : String → σ → Option σ} {d d' : Database σ}

theorem isRecorded_iff {m : MigrationMeta} : isRecorded sha d m = true ↔ Recorded sha d m := by
  simp only [isRecorded, Recorded, List.any_eq_true, decide_eq_true_eq]

theorem mem_pendingOf {migrations : List MigrationMeta} {m : MigrationMeta} :
    m ∈ pendingOf sha d migrations ↔ m ∈ migrations ∧ ¬ Recorded sha d m := by
  simp only [pendingOf, List.mem_filter, Bool.not_eq_true', ← Bool.not_eq_true, isRecorded_iff]

theorem Recorded.mono {m : MigrationMeta} (hrows : ∀ hash ∈ d.bookkeeping.rows.map MigrationRow.hash,
    hash ∈ d'.bookkeeping.rows.map MigrationRow.hash) (h : Recorded sha d m) : Recorded sha d' m := by
  obtain ⟨hash, hform, hmem⟩ := h
  exact ⟨hash, hform, hrows hash hmem⟩

theorem runQuery_statements {sqls : List String} (h : (sqls.map Query.statement).foldlM (runQuery statement) d = some d') :
    sqls.foldlM (fun tables sql => statement sql tables) d.tables = some d'.tables ∧ d'.bookkeeping = d.bookkeeping := by
  induction sqls generalizing d with
  | nil =>
    obtain rfl : d = d' := Option.some.inj h
    exact ⟨rfl, rfl⟩
  | cons sql sqls ih =>
    rw [List.map_cons] at h
    obtain ⟨d₁, hstep, hrest⟩ := foldlM_cons_some.mp h
    obtain ⟨tables, htables, rfl⟩ := Option.map_eq_some_iff.mp hstep
    obtain ⟨hfold, hbooks⟩ := ih hrest
    exact ⟨foldlM_cons_some.mpr ⟨tables, htables, hfold⟩, hbooks⟩

theorem runQuery_record {hash : String} {folderMillis : ℤ} (h : runQuery statement d (.record hash folderMillis) = some d') :
    d'.tables = d.tables ∧ d'.bookkeeping.rows = d.bookkeeping.rows ++ [⟨hash, folderMillis⟩] := by
  unfold runQuery at h
  cases hbooks : d.bookkeeping with
  | absent => simp [hbooks] at h
  | schema => simp [hbooks] at h
  | table rows =>
    simp only [hbooks, Option.some.injEq] at h
    subst h
    exact ⟨rfl, rfl⟩

/-- **A transaction**: the migrations in order, each with its row. -/
theorem runQuery_pending {pending : List MigrationMeta} (h : (pending.flatMap queriesOf).foldlM (runQuery statement) d = some d') :
    pending.foldlM (fun tables m => runStatements statement m tables) d.tables = some d'.tables ∧
      d'.bookkeeping.rows = d.bookkeeping.rows ++ pending.map rowOf := by
  induction pending generalizing d with
  | nil =>
    obtain rfl : d = d' := Option.some.inj h
    exact ⟨rfl, by simp⟩
  | cons m pending ih =>
    rw [List.flatMap_cons] at h
    obtain ⟨d₂, hone, hrest⟩ := foldlM_append_some.mp h
    obtain ⟨d₁, hsql, hrecord⟩ := foldlM_append_some.mp hone
    obtain ⟨htables, hbooks⟩ := runQuery_statements hsql
    obtain ⟨d₂', hrow, hnil⟩ := foldlM_cons_some.mp hrecord
    obtain rfl : d₂' = d₂ := Option.some.inj hnil
    obtain ⟨hsame, hrows⟩ := runQuery_record hrow
    obtain ⟨hfold, hall⟩ := ih hrest
    refine ⟨foldlM_cons_some.mpr ⟨d₁.tables, htables, by rw [← hsame]; exact hfold⟩, ?_⟩
    rw [hall, hrows, hbooks]
    simp [rowOf]

@[simp] theorem rows_createSchema (b : Bookkeeping) : b.createSchema.rows = b.rows := by
  cases b <;> rfl

@[simp] theorem rows_createTable (b : Bookkeeping) : b.createTable.rows = b.rows := by
  cases b <;> rfl

end Transactions

/-! ## The invariant -/

section Rules

variable {σ : Type} {sha : String → String} {statement : String → σ → Option σ} {db : Database σ}
  {folders : ℕ → List MigrationMeta}

/-- The log explains the database. -/
structure Sound (sha : String → String) (statement : String → σ → Option σ) (db : Database σ)
    (folders : ℕ → List MigrationMeta) (s : Shared σ) : Prop where
  tables : (s.log.map Prod.snd).foldlM (fun tables m => runStatements statement m tables) db.tables = some s.db.tables
  rows : s.db.bookkeeping.rows = db.bookkeeping.rows ++ s.log.map fun e => rowOf e.2
  once : (s.log.map fun e => e.2.lf).Nodup
  fresh : ∀ e ∈ s.log, ¬ Recorded sha db e.2
  known : ∀ e ∈ s.log, e.2 ∈ folders e.1

/-- Recorded at first, or by the log. -/
def RecordedBy (sha : String → String) (db : Database σ) (log : List (ℕ × MigrationMeta)) (m : MigrationMeta) : Prop :=
  ∃ hash ∈ recordedForms sha m, hash ∈ db.bookkeeping.rows.map MigrationRow.hash ++ log.map fun e => e.2.hash

theorem Sound.recorded_iff {s : Shared σ} (hs : Sound sha statement db folders s) {m : MigrationMeta} :
    RecordedBy sha db s.log m ↔ Recorded sha s.db m := by
  unfold RecordedBy Recorded
  rw [hs.rows, List.map_append, List.map_map]
  rfl

/-- The log has all that a boot had to do, or nothing of it. -/
def Whole (sha : String → String) (db : Database σ) (s : Shared σ) (p : Boot σ) : Prop :=
  s.entries p.id = [] ∨ ∃ before after, s.log = before ++ (s.entries p.id).map (fun m => (p.id, m)) ++ after ∧
    ∀ m ∈ p.migrations, m ∈ s.entries p.id ∨ RecordedBy sha db before m

/-- The lock is held. -/
def Stage.Locked : Stage σ → Prop
  | .locked | .schemaCreated | .tableCreated | .beginning _ | .running _ _ _ => True
  | .connecting | .rollingBack | .unlocking _ | .ended _ => False

/-- Nothing is committed. -/
def Stage.Uncommitted : Stage σ → Prop
  | .unlocking result | .ended result => result = .threw
  | _ => True

/-- What a boot has worked out. -/
def Work (sha : String → String) (statement : String → σ → Option σ) (s : Shared σ) (p : Boot σ) : Prop :=
  match p.stage with
  | .beginning pending => pending = pendingOf sha s.db p.migrations
  | .running pending todo draft =>
    pending = pendingOf sha s.db p.migrations ∧
      ∃ ran, pending.flatMap queriesOf = ran ++ todo ∧ ran.foldlM (runQuery statement) s.db = some draft
  | .unlocking (.returned n) | .ended (.returned n) =>
    n = (s.entries p.id).length ∧ ∀ m ∈ p.migrations, Recorded sha s.db m
  | _ => True

structure Owns (sha : String → String) (statement : String → σ → Option σ) (db : Database σ) (folders : ℕ → List MigrationMeta)
    (s : Shared σ) (p : Boot σ) : Prop where
  folder : p.migrations = folders p.id
  lock : p.stage.Locked → s.lock = some p.id
  work : Work sha statement s p
  order : (s.entries p.id).Sublist p.migrations
  whole : Whole sha db s p
  none : p.stage.Uncommitted → s.entries p.id = []

def Apart (p q : Boot σ) : Prop := p.id ≠ q.id

/-- What a step of a boot leaves of the others. -/
structure Respects (id : ℕ) (s s' : Shared σ) : Prop where
  lock : ∀ j, j ≠ id → s.lock = some j → s'.lock = some j
  /-- The database changes under the lock only. -/
  db : s'.db ≠ s.db → s.lock = some id
  rows : ∀ hash ∈ s.db.bookkeeping.rows.map MigrationRow.hash, hash ∈ s'.db.bookkeeping.rows.map MigrationRow.hash
  entries : ∀ j, j ≠ id → s'.entries j = s.entries j
  log : s.log <+: s'.log

variable {s s' : Shared σ} {p q : Boot σ} {id : ℕ}

theorem Respects.refl (id : ℕ) (s : Shared σ) : Respects id s s :=
  ⟨fun _ _ h => h, fun h => absurd rfl h, fun _ h => h, fun _ _ => rfl, List.prefix_rfl⟩

theorem Respects.release (h : Respects id s s') : Respects id s (s'.release id) := by
  refine ⟨fun j hj hlock => ?_, h.db, h.rows, h.entries, h.log⟩
  have hheld := h.lock j hj hlock
  show (if s'.lock = some id then none else s'.lock) = some j
  rw [if_neg, hheld]
  intro hsome
  exact hj (Option.some.inj (hheld.symm.trans hsome))

theorem entries_commit_self (s : Shared σ) (id : ℕ) (pending : List MigrationMeta) (draft : Database σ) :
    (s.commit id pending draft).entries id = s.entries id ++ pending := by
  unfold Shared.entries Shared.commit
  rw [List.filter_append, List.map_append]
  congr 1
  induction pending with
  | nil => rfl
  | cons m pending ih => simpa using ih

theorem entries_commit_other {j : ℕ} (h : j ≠ id) (s : Shared σ) (pending : List MigrationMeta) (draft : Database σ) :
    (s.commit id pending draft).entries j = s.entries j := by
  unfold Shared.entries Shared.commit
  rw [List.filter_append, List.map_append]
  have hnone : (pending.map fun m => (id, m)).filter (fun e => decide (e.1 = j)) = [] := by
    rw [List.filter_eq_nil_iff]
    intro e he
    obtain ⟨m, -, rfl⟩ := List.mem_map.mp he
    simpa using h.symm
  rw [hnone, List.map_nil, List.append_nil]

/-- **The others**: whoever does not move keeps what it has worked out. -/
theorem Owns.other (hq : Owns sha statement db folders s q) (h : Respects id s s') (hid : q.id ≠ id) :
    Owns sha statement db folders s' q := by
  refine ⟨hq.folder, fun hlocked => h.lock _ hid (hq.lock hlocked), ?_, ?_, ?_, ?_⟩
  · have hsame : q.stage.Locked → s'.db = s.db := by
      intro hlocked
      by_contra hne
      exact hid (Option.some.inj ((hq.lock hlocked).symm.trans (h.db hne)))
    have hwork := hq.work
    have hentries := h.entries _ hid
    unfold Work at hwork ⊢
    cases hstage : q.stage with
    | connecting | locked | schemaCreated | tableCreated | rollingBack => trivial
    | beginning pending =>
      rw [hstage] at hwork hsame
      simp only at hwork ⊢
      rw [hsame trivial]
      exact hwork
    | running pending todo draft =>
      rw [hstage] at hwork hsame
      simp only at hwork ⊢
      rw [hsame trivial]
      exact hwork
    | unlocking result | ended result =>
      rw [hstage] at hwork
      cases result with
      | returned n =>
        simp only at hwork ⊢
        rw [hentries]
        exact ⟨hwork.1, fun m hm => (hwork.2 m hm).mono h.rows⟩
      | threw | lost => trivial
  · rw [h.entries _ hid]
    exact hq.order
  · unfold Whole
    rw [h.entries _ hid]
    refine hq.whole.imp_right fun ⟨before, after, hlog, hall⟩ => ?_
    obtain ⟨more, hmore⟩ := h.log
    exact ⟨before, after ++ more, by rw [← hmore, hlog, List.append_assoc], hall⟩
  · rw [h.entries _ hid]
    exact hq.none

/-! ## The commit -/

/-- **A commit** under the lock: the migrations are new, and each is run once. -/
theorem Sound.commit (hs : Sound sha statement db folders s) (hp : Owns sha statement db folders s p)
    (hfiles : ∀ i, ∀ m ∈ folders i, CheckedOut sha m) (hdistinct : ∀ i, ((folders i).map MigrationMeta.lf).Nodup)
    {pending : List MigrationMeta} {draft : Database σ} (hpending : pending = pendingOf sha s.db p.migrations)
    (hrun : (pending.flatMap queriesOf).foldlM (runQuery statement) s.db = some draft) :
    Sound sha statement db folders (s.commit p.id pending draft) := by
  obtain ⟨htables, hrows⟩ := runQuery_pending hrun
  have hfolder : ∀ m ∈ pending, m ∈ folders p.id ∧ ¬ Recorded sha s.db m := by
    intro m hm
    rw [hpending, mem_pendingOf, hp.folder] at hm
    exact hm
  -- The log and the pending migrations, as one list.
  have hsnd : (s.commit p.id pending draft).log.map Prod.snd = s.log.map Prod.snd ++ pending := by
    simp [Shared.commit, Function.comp_def]
  have hof : ∀ {α : Type} (f : MigrationMeta → α), (s.commit p.id pending draft).log.map (fun e => f e.2) =
      s.log.map (fun e => f e.2) ++ pending.map f := by
    intro α f
    simp [Shared.commit, Function.comp_def]
  refine ⟨?_, ?_, ?_, fun e he => ?_, fun e he => ?_⟩
  · rw [hsnd]
    exact foldlM_append_some.mpr ⟨s.db.tables, hs.tables, htables⟩
  · rw [hof rowOf]
    show draft.bookkeeping.rows = _
    rw [hrows, hs.rows, List.append_assoc]
  · rw [hof MigrationMeta.lf]
    refine List.nodup_append.mpr ⟨hs.once, ?_, ?_⟩
    · rw [hpending, hp.folder]
      exact (hdistinct p.id).sublist (List.filter_sublist.map _)
    · rintro t hlogged t' ht' rfl
      obtain ⟨e, he, hlf⟩ := List.mem_map.mp hlogged
      obtain ⟨m, hm, hsame⟩ := List.mem_map.mp ht'
      -- The row of the logged migration has a form of the pending one.
      refine (hfolder m hm).2 ⟨e.2.hash, ?_, ?_⟩
      · have hfile := hfiles e.1 e.2 (hs.known e he)
        have hcrlf : e.2.crlf = m.crlf := by
          unfold MigrationMeta.crlf
          rw [hlf, hsame]
        unfold recordedForms
        rw [hfile.hash]
        obtain hraw | hraw := hfile.ends
        · rw [hraw, hlf, ← hsame]
          simp
        · rw [hraw, hcrlf]
          simp
      · rw [hs.rows, List.map_append, List.map_map]
        exact List.mem_append_right _ (List.mem_map_of_mem he)
  · rcases List.mem_append.mp he with he | he
    · exact hs.fresh e he
    · obtain ⟨m, hm, rfl⟩ := List.mem_map.mp he
      intro hrecorded
      refine (hfolder m hm).2 (hrecorded.mono fun hash hmem => ?_)
      rw [hs.rows, List.map_append]
      exact List.mem_append_left _ hmem
  · rcases List.mem_append.mp he with he | he
    · exact hs.known e he
    · obtain ⟨m, hm, rfl⟩ := List.mem_map.mp he
      exact (hfolder m hm).1

/-- What is committed is all that was pending. -/
theorem whole_commit (hs : Sound sha statement db folders s) {pending : List MigrationMeta} {draft : Database σ}
    (hpending : pending = pendingOf sha s.db p.migrations) (hentries : (s.commit p.id pending draft).entries p.id = pending) :
    Whole sha db (s.commit p.id pending draft) p := by
  refine .inr ⟨s.log, [], by rw [hentries, List.append_nil]; rfl, fun m hm => ?_⟩
  rw [hentries, hpending, mem_pendingOf, ← hs.recorded_iff]
  exact or_iff_not_imp_right.mpr fun hfresh => ⟨hm, hfresh⟩

/-- What is committed is recorded, with what was there before. -/
theorem recorded_commit {pending : List MigrationMeta} {draft : Database σ}
    (hpending : pending = pendingOf sha s.db p.migrations)
    (hrun : (pending.flatMap queriesOf).foldlM (runQuery statement) s.db = some draft) :
    ∀ m ∈ p.migrations, Recorded sha draft m := by
  obtain ⟨-, hrows⟩ := runQuery_pending hrun
  intro m hm
  by_cases hbefore : Recorded sha s.db m
  · refine hbefore.mono fun hash hmem => ?_
    rw [hrows, List.map_append]
    exact List.mem_append_left _ hmem
  · refine ⟨m.hash, by simp [recordedForms], ?_⟩
    have hmem : m ∈ pending := by
      rw [hpending, mem_pendingOf]
      exact ⟨hm, hbefore⟩
    rw [hrows, List.map_append, List.map_map]
    exact List.mem_append_right _ (List.mem_map_of_mem hmem)

theorem Respects.commit {pending : List MigrationMeta} {draft : Database σ} (hlock : s.lock = some id)
    (hrun : (pending.flatMap queriesOf).foldlM (runQuery statement) s.db = some draft) :
    Respects id s (s.commit id pending draft) := by
  obtain ⟨-, hrows⟩ := runQuery_pending hrun
  refine ⟨fun _ _ h => h, fun _ => hlock, fun hash hmem => ?_, fun j hj => entries_commit_other hj s pending draft,
    List.prefix_append _ _⟩
  show hash ∈ draft.bookkeeping.rows.map MigrationRow.hash
  rw [hrows, List.map_append]
  exact List.mem_append_left _ hmem

/-! ## Steps -/

/-- What a step comes to. -/
structure Moved (sha : String → String) (statement : String → σ → Option σ) (db : Database σ) (folders : ℕ → List MigrationMeta)
    (s : Shared σ) (p : Boot σ) (stage : Stage σ) (s' : Shared σ) : Prop where
  sound : Sound sha statement db folders s'
  owns : Owns sha statement db folders s' { p with stage := stage }
  respects : Respects p.id s s'

variable {stage : Stage σ}

/-- The boot goes on, and nothing is written. -/
theorem Moved.still (hs : Sound sha statement db folders s) (hp : Owns sha statement db folders s p)
    (hlock : stage.Locked → p.stage.Locked) (hwork : Work sha statement s { p with stage := stage })
    (hnone : stage.Uncommitted → p.stage.Uncommitted) : Moved sha statement db folders s p stage s :=
  ⟨hs, ⟨hp.folder, fun h => hp.lock (hlock h), hwork, hp.order, hp.whole, fun h => hp.none (hnone h)⟩, Respects.refl p.id s⟩

/-- Whoever ends gives the lock back. -/
theorem Moved.release (h : Moved sha statement db folders s p stage s') (hfree : ¬ stage.Locked) :
    Moved sha statement db folders s p stage (s'.release p.id) :=
  ⟨⟨h.sound.tables, h.sound.rows, h.sound.once, h.sound.fresh, h.sound.known⟩,
    ⟨h.owns.folder, fun hlocked => absurd hlocked hfree, h.owns.work, h.owns.order, h.owns.whole, h.owns.none⟩, h.respects.release⟩

/-- The bookkeeping is created, when it is missing. -/
theorem Moved.create (hs : Sound sha statement db folders s) (hp : Owns sha statement db folders s p) (hlock : s.lock = some p.id)
    {b : Bookkeeping} (hb : b.rows = s.db.bookkeeping.rows) (hwork : ∀ s', Work sha statement s' { p with stage := stage })
    (hnone : p.stage.Uncommitted) : Moved sha statement db folders s p stage { s with db := { s.db with bookkeeping := b } } := by
  refine ⟨⟨hs.tables, hb.trans hs.rows, hs.once, hs.fresh, hs.known⟩,
    ⟨hp.folder, fun _ => hlock, hwork _, hp.order, hp.whole, fun _ => hp.none hnone⟩,
    ⟨fun _ _ h => h, fun _ => hlock, ?_, fun _ _ => rfl, List.prefix_rfl⟩⟩
  intro hash hmem
  show hash ∈ b.rows.map MigrationRow.hash
  rw [hb]
  exact hmem

/-- **The COMMIT**, however it is answered. -/
theorem Moved.commit (hs : Sound sha statement db folders s) (hp : Owns sha statement db folders s p)
    (hfiles : ∀ i, ∀ m ∈ folders i, CheckedOut sha m) (hdistinct : ∀ i, ((folders i).map MigrationMeta.lf).Nodup)
    {pending : List MigrationMeta} {draft : Database σ} (hstage : p.stage = .running pending [] draft)
    (hend : stage = .unlocking (.returned pending.length) ∨ stage = .ended .lost) :
    Moved sha statement db folders s p stage (s.commit p.id pending draft) := by
  have hwork := hp.work
  unfold Work at hwork
  rw [hstage] at hwork
  obtain ⟨hpending, ran, hran, hrun⟩ := hwork
  rw [List.append_nil] at hran
  rw [← hran] at hrun
  have hlock : s.lock = some p.id := hp.lock (by rw [hstage]; trivial)
  have hnone : s.entries p.id = [] := hp.none (by rw [hstage]; trivial)
  have hentries : (s.commit p.id pending draft).entries p.id = pending := by
    rw [entries_commit_self, hnone, List.nil_append]
  refine ⟨hs.commit hp hfiles hdistinct hpending hrun, ⟨hp.folder, fun _ => hlock, ?_, ?_, whole_commit hs hpending hentries, ?_⟩,
    Respects.commit hlock hrun⟩
  · obtain rfl | rfl := hend
    · refine ⟨?_, recorded_commit hpending hrun⟩
      show pending.length = ((s.commit p.id pending draft).entries p.id).length
      rw [hentries]
    · trivial
  · show ((s.commit p.id pending draft).entries p.id).Sublist p.migrations
    rw [hentries, hpending]
    exact List.filter_sublist
  · intro huncommitted
    obtain rfl | rfl := hend <;> cases huncommitted

/-- The next query of the transaction, when there is one. -/
theorem work_afterQuery (hp : Owns sha statement db folders s p) {pending : List MigrationMeta} {q : Query} {todo : List Query}
    {draft : Database σ} (hstage : p.stage = .running pending (q :: todo) draft) :
    Work sha statement s { p with stage := afterQuery pending todo (runQuery statement draft q) } := by
  have hwork := hp.work
  unfold Work at hwork
  rw [hstage] at hwork
  obtain ⟨hpending, ran, hran, hrun⟩ := hwork
  cases hquery : runQuery statement draft q with
  | none => trivial
  | some draft' =>
    refine ⟨hpending, ran ++ [q], by rw [hran, List.append_assoc]; rfl, ?_⟩
    exact foldlM_append_some.mpr ⟨draft, hrun, foldlM_cons_some.mpr ⟨draft', hquery, rfl⟩⟩

theorem work_afterSelect (hp : Owns sha statement db folders s p) (hnone : p.stage.Uncommitted) :
    Work sha statement s { p with stage := afterSelect (pendingOf sha s.db p.migrations) } := by
  unfold afterSelect
  split
  · next hempty =>
    refine ⟨?_, ?_⟩
    · show 0 = (s.entries p.id).length
      rw [hp.none hnone]
      rfl
    · intro m hm
      by_contra hfresh
      have hmem : m ∈ pendingOf sha s.db p.migrations := mem_pendingOf.mpr ⟨hm, hfresh⟩
      rw [hempty] at hmem
      cases hmem
  · rfl

/-- The lock is given back, however the unlock is answered. -/
theorem moved_unlocked (hs : Sound sha statement db folders s) (hp : Owns sha statement db folders s p) {result : Result}
    (hstage : p.stage = .unlocking result) : Moved sha statement db folders s p (.ended result) (s.release p.id) := by
  have hwork := hp.work
  unfold Work at hwork
  rw [hstage] at hwork
  have hstill : Moved sha statement db folders s p (.ended result) s :=
    .still hs hp (fun h => h.elim) (by cases result <;> exact hwork) fun h => by rw [hstage]; exact h
  exact hstill.release fun h => h

/-- **Step**, of a query that is answered. -/
theorem moved_onOk (hs : Sound sha statement db folders s) (hp : Owns sha statement db folders s p)
    (hfiles : ∀ i, ∀ m ∈ folders i, CheckedOut sha m) (hdistinct : ∀ i, ((folders i).map MigrationMeta.lf).Nodup) :
    Moved sha statement db folders s p (onOk sha statement p s).1 (onOk sha statement p s).2 := by
  have hwork := hp.work
  unfold Work at hwork
  unfold onOk
  cases hstage : p.stage with
  | connecting =>
    simp only
    split
    · next hfree =>
      refine ⟨⟨hs.tables, hs.rows, hs.once, hs.fresh, hs.known⟩,
        ⟨hp.folder, fun _ => rfl, trivial, hp.order, hp.whole, fun _ => hp.none (by rw [hstage]; trivial)⟩,
        ⟨fun _ _ hheld => ?_, fun hne => absurd rfl hne, fun _ h => h, fun _ _ => rfl, List.prefix_rfl⟩⟩
      rw [hfree] at hheld
      cases hheld
    · exact .still hs hp (fun h => h.elim) trivial fun _ => by rw [hstage]; trivial
  | locked =>
    exact .create hs hp (hp.lock (by rw [hstage]; trivial)) (rows_createSchema _) (fun _ => trivial) (by rw [hstage]; trivial)
  | schemaCreated =>
    exact .create hs hp (hp.lock (by rw [hstage]; trivial)) (rows_createTable _) (fun _ => trivial) (by rw [hstage]; trivial)
  | tableCreated =>
    exact .still hs hp (fun _ => by rw [hstage]; trivial) (work_afterSelect hp (by rw [hstage]; trivial))
      fun _ => by rw [hstage]; trivial
  | beginning pending =>
    rw [hstage] at hwork
    exact .still hs hp (fun _ => by rw [hstage]; trivial) ⟨hwork, [], rfl, rfl⟩ fun _ => by rw [hstage]; trivial
  | running pending todo draft =>
    cases todo with
    | nil => exact .commit hs hp hfiles hdistinct hstage (.inl rfl)
    | cons q todo =>
      exact .still hs hp (fun _ => by rw [hstage]; trivial) (work_afterQuery hp hstage) fun _ => by rw [hstage]; trivial
  | rollingBack => exact .still hs hp (fun h => h.elim) trivial fun _ => by rw [hstage]; trivial
  | unlocking result => exact moved_unlocked hs hp hstage
  | ended result =>
    rw [hstage] at hwork
    exact .still hs hp (fun h => h.elim) (by cases result <;> exact hwork) fun h => by rw [hstage]; exact h

theorem moved_onThrow (hs : Sound sha statement db folders s) (hp : Owns sha statement db folders s p) :
    Moved sha statement db folders s p (onThrow p.stage) s := by
  have hwork := hp.work
  unfold Work at hwork
  unfold onThrow
  cases hstage : p.stage with
  | connecting | locked | schemaCreated | tableCreated | beginning _ | running _ _ _ | rollingBack =>
    exact .still hs hp (fun h => h.elim) trivial fun _ => by rw [hstage]; trivial
  | unlocking result | ended result =>
    rw [hstage] at hwork
    exact .still hs hp (fun h => h.elim) (by cases result <;> exact hwork) fun h => by rw [hstage]; exact h

theorem moved_onLost (hs : Sound sha statement db folders s) (hp : Owns sha statement db folders s p)
    (hfiles : ∀ i, ∀ m ∈ folders i, CheckedOut sha m) (hdistinct : ∀ i, ((folders i).map MigrationMeta.lf).Nodup)
    (committed : Bool) : Moved sha statement db folders s p (onLost committed p s).1 (onLost committed p s).2 := by
  have hlost : Moved sha statement db folders s p (.ended .lost) s :=
    .still hs hp (fun h => h.elim) trivial fun h => by cases h
  have hfree : ¬ (Stage.ended Result.lost : Stage σ).Locked := fun h => h
  have hwork := hp.work
  unfold Work at hwork
  unfold onLost
  cases hstage : p.stage with
  | connecting | locked | schemaCreated | tableCreated | beginning _ | rollingBack => exact hlost.release hfree
  | unlocking result => exact moved_unlocked hs hp hstage
  | running pending todo draft =>
    cases todo with
    | cons q todo => exact hlost.release hfree
    | nil =>
      simp only
      split
      · have hcommit : Moved sha statement db folders s p (.ended .lost) (s.commit p.id pending draft) :=
          .commit hs hp hfiles hdistinct hstage (.inr rfl)
        exact hcommit.release hfree
      · exact hlost.release hfree
  | ended result =>
    rw [hstage] at hwork
    exact .still hs hp (fun h => h.elim) (by cases result <;> exact hwork) fun h => by rw [hstage]; exact h

/-- **Step**. -/
theorem moved (hs : Sound sha statement db folders s) (hp : Owns sha statement db folders s p)
    (hfiles : ∀ i, ∀ m ∈ folders i, CheckedOut sha m) (hdistinct : ∀ i, ((folders i).map MigrationMeta.lf).Nodup) (x : Answer) :
    Moved sha statement db folders s p (exec sha statement x p s).1.stage (exec sha statement x p s).2 ∧
      (exec sha statement x p s).1 = { p with stage := (exec sha statement x p s).1.stage } := by
  cases x with
  | ok => exact ⟨moved_onOk hs hp hfiles hdistinct, rfl⟩
  | throws => exact ⟨moved_onThrow hs hp, rfl⟩
  | lost committed => exact ⟨moved_onLost hs hp hfiles hdistinct committed, rfl⟩

/-! ## Runs -/

theorem stable_exec (hfiles : ∀ i, ∀ m ∈ folders i, CheckedOut sha m)
    (hdistinct : ∀ i, ((folders i).map MigrationMeta.lf).Nodup) :
    Stable (exec sha statement) (fun _ _ _ => True) (Sound sha statement db folders) (Owns sha statement db folders) Apart where
  symm _ _ h := Ne.symm h
  shared x p s _ hs hp := (moved hs hp hfiles hdistinct x).1.sound
  own x p s _ hs hp := by
    obtain ⟨hmoved, heq⟩ := moved hs hp hfiles hdistinct x
    rw [heq]
    exact hmoved.owns
  other x p s q _ hs hp hq hpq := hq.other (moved hs hp hfiles hdistinct x).1.respects (Ne.symm hpq)
  apart x p s q _ hs hp _ hpq := by
    rw [(moved hs hp hfiles hdistinct x).2]
    exact hpq

theorem inv_start (db : Database σ) (folders : ℕ → List MigrationMeta) :
    Processes.Inv (Sound sha statement db folders) (Owns sha statement db folders) Apart (start db folders) where
  shared := ⟨rfl, by simp [start], List.nodup_nil, fun _ he => absurd he List.not_mem_nil, fun _ he => absurd he List.not_mem_nil⟩
  own i := ⟨rfl, fun h => h.elim, trivial, List.nil_sublist _, .inl rfl, fun _ => rfl⟩
  apart i j hij := hij

/-- What is recorded was so at first, or is a text of the log. -/
theorem RecordedBy.cases (hfiles : ∀ i, ∀ m ∈ folders i, CheckedOut sha m)
    (hsha : Set.InjOn sha {text | ∃ i, ∃ m ∈ folders i, text = m.lf ∨ text = m.crlf}) {log : List (ℕ × MigrationMeta)}
    (hknown : ∀ e ∈ log, e.2 ∈ folders e.1) {i : ℕ} {m : MigrationMeta} (hm : m ∈ folders i) (h : RecordedBy sha db log m) :
    Recorded sha db m ∨ ∃ e ∈ log, e.2.lf = m.lf := by
  obtain ⟨hash, hform, hrow⟩ := h
  rcases List.mem_append.mp hrow with hrow | hrow
  · exact .inl ⟨hash, hform, hrow⟩
  · -- The row is that of a migration of the log, so the two are one text.
    obtain ⟨e, he, rfl⟩ := List.mem_map.mp hrow
    refine .inr ⟨e, he, ?_⟩
    have hfile := hfiles e.1 e.2 (hknown e he)
    have hours := hfiles i m hm
    have hforms : ∃ text, (text = m.lf ∨ text = m.crlf) ∧ e.2.hash = sha text := by
      unfold recordedForms at hform
      simp only [List.mem_cons, List.not_mem_nil, or_false] at hform
      rcases hform with hform | hform | hform
      · exact ⟨m.raw, hours.ends, hform.trans hours.hash⟩
      · exact ⟨m.lf, .inl rfl, hform⟩
      · exact ⟨m.crlf, .inr rfl, hform⟩
    obtain ⟨text, htext, hhash⟩ := hforms
    have hsame : e.2.raw = text := hsha ⟨e.1, e.2, hknown e he, hfile.ends⟩ ⟨i, m, hm, htext⟩ (hfile.hash.symm.trans hhash)
    exact lf_eq_of_forms hfile.plain hours.plain hfile.ends (hsame ▸ htext)

theorem id_reached (schedule : List (ℕ × Answer)) (i : ℕ) : ((reached sha statement db folders schedule).procs i).id = i := by
  induction schedule using List.reverseRecOn with
  | nil => rfl
  | append_singleton pre a ih =>
    unfold reached at ih ⊢
    rw [run_snoc]
    by_cases hi : i = a.1
    · subst hi
      rw [procs_step_self]
      cases a.2 <;> exact ih
    · rw [procs_step_other hi]
      exact ih

end Rules

/-- **Shared migrations**: whatever services boot together or fail, a text is run once, and a boot that returns misses none. -/
theorem migrated_once {σ : Type} (sha : String → String) (statement : String → σ → Option σ) (db : Database σ)
    (folders : ℕ → List MigrationMeta) (hfiles : ∀ i, ∀ m ∈ folders i, CheckedOut sha m)
    (hdistinct : ∀ i, ((folders i).map MigrationMeta.lf).Nodup)
    (hsha : Set.InjOn sha {text | ∃ i, ∃ m ∈ folders i, text = m.lf ∨ text = m.crlf}) (schedule : List (ℕ × Answer)) :
    MigratedOnce sha statement db folders (reached sha statement db folders schedule) := by
  have hstable : Stable (exec sha statement) (fun _ _ _ => True) (Sound sha statement db folders) (Owns sha statement db folders) Apart :=
    stable_exec hfiles hdistinct
  have hinv := hstable.inv_upto (inv_start db folders) along_true schedule List.prefix_rfl
  have hs : Sound sha statement db folders (reached sha statement db folders schedule).shared := hinv.shared
  have howns : ∀ i, Owns sha statement db folders (reached sha statement db folders schedule).shared
      ((reached sha statement db folders schedule).procs i) := hinv.own
  have hid : ∀ i, ((reached sha statement db folders schedule).procs i).id = i := id_reached schedule
  have hfolder : ∀ i, ((reached sha statement db folders schedule).procs i).migrations = folders i := by
    intro i
    rw [(howns i).folder, hid]
  refine ⟨hs.tables, hs.rows, hs.once, hs.fresh, fun i => ?_, fun i => ?_, fun i n hstage => ?_, fun i hstage => ?_⟩
  · have horder := (howns i).order
    rwa [hid, hfolder] at horder
  · have hwhole := (howns i).whole
    unfold Whole at hwhole
    rw [hid, hfolder] at hwhole
    refine hwhole.imp_right fun ⟨before, after, hlog, hall⟩ => ⟨before, after, hlog, fun m hm => ?_⟩
    refine (hall m hm).imp_right fun h => h.cases hfiles hsha (fun e he => hs.known e ?_) hm
    rw [hlog, List.append_assoc]
    exact List.mem_append_left _ he
  · have hwork := (howns i).work
    unfold Work at hwork
    rw [hstage, hid, hfolder] at hwork
    exact ⟨hwork.1, fun m hm => (hs.recorded_iff.mpr (hwork.2 m hm)).cases hfiles hsha hs.known hm⟩
  · have hnone := (howns i).none
    rw [hstage, hid] at hnone
    exact hnone rfl

/-! ### Two boots, from checkouts with different line endings -/

/-- One file, of two statements on two lines. -/
def unixFile : MigrationMeta := ⟨["CREATE a;\n", "\nCREATE b;"], "CREATE a;\n--> statement-breakpoint\nCREATE b;", 1⟩

def windowsFile : MigrationMeta :=
  ⟨["CREATE a;\r\n", "\r\nCREATE b;"], "CREATE a;\r\n--> statement-breakpoint\r\nCREATE b;", 1⟩

def bothCheckouts (i : ℕ) : List MigrationMeta := if i = 0 then [unixFile] else [windowsFile]

/-- The second boot waits for the lock that the first one gives back. -/
def twoBoots : List (ℕ × Answer) :=
  [(0, .ok), (1, .ok)] ++ List.replicate 9 (0, .ok) ++ List.replicate 5 (1, .ok)

theorem checkedOut_unixFile : CheckedOut id unixFile :=
  checkedOut_of_text "CREATE a;\n--> statement-breakpoint\nCREATE b;" (by decide) (by decide)
    (.inl (by decide))

theorem checkedOut_windowsFile : CheckedOut id windowsFile :=
  checkedOut_of_text "CREATE a;\n--> statement-breakpoint\nCREATE b;" (by decide) (by decide)
    (.inr (by decide))

theorem migrated_once_twoBoots :
    MigratedOnce id (fun sql made => some (made ++ [sql])) ⟨[], .absent⟩ bothCheckouts
      (reached id (fun sql made => some (made ++ [sql])) ⟨[], .absent⟩ bothCheckouts twoBoots) := by
  refine migrated_once id _ _ bothCheckouts (fun i m hm => ?_) (fun i => ?_) Function.injective_id.injOn twoBoots
  · unfold bothCheckouts at hm
    split at hm
    · rw [List.mem_singleton.mp hm]
      exact checkedOut_unixFile
    · rw [List.mem_singleton.mp hm]
      exact checkedOut_windowsFile
  · unfold bothCheckouts
    split <;> exact List.nodup_singleton _

end Vellar.ServiceKit.Migrations
