import Vellar.Lib.Processes
import Vellar.Lib.SlidingWindow

/-!
# Vellar.ServiceKit.SpendBudget — the rolling-window spend budget

`createPgSpendBudget` of `packages/service-kit/src/pg-budget.ts`.  A call reads its clock twice, once for the
window start and once for the row, then runs a transaction: take the advisory lock of its line and network, run the
conditional INSERT, commit.  Calls interleave at these steps.  `windows_held`: when no clock runs backwards
between the two reads of one call, every window of every line holds at most the line's limits.
-/

set_option autoImplicit false

namespace Vellar.ServiceKit

open Machine Processes SlidingWindow

inductive BudgetLine where
  | sponsor
  | deploy
  | create
deriving DecidableEq, Repr

inductive BudgetNetwork where
  | testnet
  | mainnet
deriving DecidableEq, Repr

def BudgetLine.text : BudgetLine → String
  | .sponsor => "sponsor"
  | .deploy => "deploy"
  | .create => "create"

def BudgetNetwork.text : BudgetNetwork → String
  | .testnet => "testnet"
  | .mainnet => "mainnet"

structure BudgetLimits where
  maxStroops : Option ℤ
  maxCount : ℤ

structure ConsumeRequest where
  line : BudgetLine
  network : BudgetNetwork
  stroops : ℤ
  count : Option ℤ
deriving DecidableEq, Repr

structure PgBudgetConfig where
  windowMs : ℤ
  limits : BudgetLine → BudgetLimits

/-- A row of `spend_ledger`. -/
structure LedgerRow where
  id : String
  line : BudgetLine
  network : BudgetNetwork
  stroops : ℤ
  count : ℤ
  atMs : ℤ
deriving DecidableEq, Repr

namespace SpendBudget

/-- A call of `tryConsume` once it has drawn its row id and read its clock, for the window and for the row. -/
structure Call where
  id : String
  req : ConsumeRequest
  windowClock : ℤ
  atClock : ℤ
deriving DecidableEq, Repr

def Call.addCount (c : Call) : ℤ := c.req.count.getD 1

def Call.row (c : Call) : LedgerRow :=
  ⟨c.id, c.req.line, c.req.network, c.req.stroops, c.addCount, c.atClock⟩

inductive Answer where
  | ok
  | refused
  | threw
deriving DecidableEq, Repr

section Transaction

variable (config : PgBudgetConfig) (hashtext : String → ℤ)

def Call.windowStart (c : Call) : ℤ := c.windowClock - config.windowMs

/-- The key of the advisory lock. -/
def Call.lockKey (c : Call) : ℤ := hashtext (c.req.line.text ++ ":" ++ c.req.network.text)

/-- The rows of the line and the network. -/
def OnLine (line : BudgetLine) (network : BudgetNetwork) (r : LedgerRow) : Prop := r.line = line ∧ r.network = network

instance {line : BudgetLine} {network : BudgetNetwork} : DecidablePred (OnLine line network) := fun _ =>
  inferInstanceAs (Decidable (_ ∧ _))

/-- The rows the aggregate reads. -/
def Counted (c : Call) (r : LedgerRow) : Prop :=
  OnLine c.req.line c.req.network r ∧ c.windowStart config < r.atMs

instance {c : Call} : DecidablePred (Counted config c) := fun _ => inferInstanceAs (Decidable (_ ∧ _))

/-- A cast to a signed integer of `w` bits; out of range the statement fails. -/
def castInt (w : ℕ) (n : ℤ) : Option ℤ := if -(2 ^ (w - 1)) ≤ n ∧ n < 2 ^ (w - 1) then some n else none

def withinLimits (limits : BudgetLimits) (sumStroops sumCount stroops addCount : ℤ) : Prop :=
  sumCount + addCount ≤ limits.maxCount ∧ ∀ maxStroops ∈ limits.maxStroops, sumStroops + stroops ≤ maxStroops

instance {limits : BudgetLimits} {a b c d : ℤ} : Decidable (withinLimits limits a b c d) :=
  inferInstanceAs (Decidable (_ ∧ _))

/-- The `WITH agg … INSERT … RETURNING` statement: the row it inserts, if any, or a failed cast. -/
def insertWithinLimits (rows : List LedgerRow) (c : Call) : Option (Option LedgerRow) := do
  let sumCount ← castInt 32 (total LedgerRow.count (Counted config c) rows)
  let _ ← castInt 32 (sumCount + c.addCount)
  let stroops ← castInt 64 c.req.stroops
  if withinLimits (config.limits c.req.line) (total LedgerRow.stroops (Counted config c) rows) sumCount stroops
      c.addCount then
    some (some c.row)
  else some none

/-- How far a call has got. -/
inductive Phase where
  | waiting (c : Call)
  | locked (c : Call)
  | ran (c : Call) (row : Option LedgerRow)
  | done (c : Call) (answer : Answer)
deriving DecidableEq, Repr

/-- The table, as what it held at first and what these calls have recorded, and the advisory locks held. -/
structure Ledger where
  initial : List LedgerRow
  recorded : List Call
  locks : List ℤ

def Ledger.rows (s : Ledger) : List LedgerRow := s.initial ++ s.recorded.map Call.row

def Ledger.unlock (s : Ledger) (key : ℤ) : Ledger := { s with locks := s.locks.erase key }

def Ledger.record (s : Ledger) (c : Call) (row : Option LedgerRow) : Ledger :=
  if row.isSome then { s with recorded := s.recorded ++ [c] } else s

/-- What the database answers to a step: it succeeds, it fails, or its success gets lost. -/
inductive Reply where
  | succeeds
  | fails
  | lost
deriving DecidableEq, Repr

/-- One step of `tryConsume`. -/
def tryConsume : Reply → Phase → Ledger → Phase × Ledger
  | .succeeds, .waiting c, s =>
    if c.lockKey hashtext ∈ s.locks then (.waiting c, s)
    else (.locked c, { s with locks := c.lockKey hashtext :: s.locks })
  | _, .waiting c, s => (.done c .threw, s)
  | .succeeds, .locked c, s =>
    match insertWithinLimits config s.rows c with
    | some row => (.ran c row, s)
    | none => (.done c .threw, s.unlock (c.lockKey hashtext))
  | _, .locked c, s => (.done c .threw, s.unlock (c.lockKey hashtext))
  | .succeeds, .ran c row, s =>
    (.done c (if row.isSome then .ok else .refused), (s.record c row).unlock (c.lockKey hashtext))
  | .lost, .ran c row, s => (.done c .threw, (s.record c row).unlock (c.lockKey hashtext))
  | .fails, .ran c _, s => (.done c .threw, s.unlock (c.lockKey hashtext))
  | _, .done c answer, s => (.done c answer, s)

end Transaction

/-! ## The statement -/

section Statement

variable {config : PgBudgetConfig} {rows : List LedgerRow} {c : Call}

/-- An inserted row was within both limits. -/
theorem insertWithinLimits_row {row : LedgerRow} (h : insertWithinLimits config rows c = some (some row)) :
    row = c.row ∧
      total LedgerRow.count (Counted config c) rows + c.row.count ≤ (config.limits c.req.line).maxCount ∧
      ∀ m ∈ (config.limits c.req.line).maxStroops,
        total LedgerRow.stroops (Counted config c) rows + c.row.stroops ≤ m := by
  have hcast : ∀ {w : ℕ} {n k : ℤ}, castInt w n = some k → k = n := by
    intro w n k hk
    unfold castInt at hk
    split_ifs at hk
    exact (Option.some.inj hk).symm
  simp only [insertWithinLimits, Option.bind_eq_bind, Option.bind_eq_some_iff] at h
  obtain ⟨sumCount, hsum, -, -, stroops, hstroops, h⟩ := h
  obtain rfl := hcast hsum
  obtain rfl := hcast hstroops
  split_ifs at h with hwithin
  · exact ⟨(Option.some.inj (Option.some.inj h)).symm, hwithin.1, hwithin.2⟩
  · exact absurd (Option.some.inj h) (by simp)

/-- A row of another line or network is not counted. -/
theorem insertWithinLimits_other {r : LedgerRow} (h : ¬ OnLine c.req.line c.req.network r) :
    insertWithinLimits config (rows ++ [r]) c = insertWithinLimits config rows c := by
  have hsame : ∀ amount : LedgerRow → ℤ,
      total amount (Counted config c) (rows ++ [r]) = total amount (Counted config c) rows := by
    intro amount
    rw [total_append, total_singleton, if_neg fun hr => h hr.1, add_zero]
  unfold insertWithinLimits
  rw [hsame, hsame]

end Statement

/-! ## The invariant -/

section Invariant

variable (config : PgBudgetConfig) (hashtext : String → ℤ) (rows₀ : List LedgerRow)

/-- A call of the claim's domain whose clock did not run backwards between its two reads. -/
structure InOrder (c : Call) : Prop where
  stroops : 0 ≤ c.req.stroops
  count : 0 ≤ c.addCount
  clocks : c.windowClock ≤ c.atClock

/-- What the initial rows of a line add up to after a time. -/
def initialAfter (amount : LedgerRow → ℤ) (line : BudgetLine) (network : BudgetNetwork) (rows : List LedgerRow)
    (t : ℤ) : ℤ :=
  total amount (fun r => OnLine line network r ∧ t < r.atMs) rows

/-- The recorded calls of a line were each admitted against the ones before. -/
def MeteredOn (amount : LedgerRow → ℤ) (ceiling : ℤ) (line : BudgetLine) (network : BudgetNetwork) (s : Ledger) : Prop :=
  Metered Call.atClock (Call.windowStart config) (fun c => amount c.row) ceiling
    (initialAfter amount line network s.initial) (s.recorded.filter (OnLine line network ·.row))

structure Accounted (s : Ledger) : Prop where
  initial : s.initial = rows₀
  inOrder : ∀ c ∈ s.recorded, InOrder c
  count : ∀ line network, MeteredOn config LedgerRow.count (config.limits line).maxCount line network s
  stroops : ∀ line network, ∀ m ∈ (config.limits line).maxStroops,
    MeteredOn config LedgerRow.stroops m line network s

def Phase.call : Phase → Call
  | .waiting c => c
  | .locked c => c
  | .ran c _ => c
  | .done c _ => c

def Phase.HoldsLock : Phase → Prop
  | .locked _ => True
  | .ran _ _ => True
  | _ => False

/-- A call holds its lock from the first statement to the commit, and its statement still answers the same. -/
structure Holds (s : Ledger) (p : Phase) : Prop where
  inOrder : InOrder p.call
  lock : p.HoldsLock → p.call.lockKey hashtext ∈ s.locks
  ran : ∀ c row, p = .ran c row → insertWithinLimits config s.rows c = some row

def Apart (p q : Phase) : Prop := p.HoldsLock → q.HoldsLock → p.call.lockKey hashtext ≠ q.call.lockKey hashtext

variable {config hashtext rows₀} {s : Ledger} {c : Call}

@[simp] theorem rows_unlock {key : ℤ} : (s.unlock key).rows = s.rows := rfl

theorem total_rows (amount : LedgerRow → ℤ) :
    total amount (Counted config c) s.rows =
      initialAfter amount c.req.line c.req.network s.initial (c.windowStart config) +
        total (fun d => amount d.row) (fun d => c.windowStart config < d.atClock)
          (s.recorded.filter (OnLine c.req.line c.req.network ·.row)) := by
  unfold Ledger.rows
  rw [total_append, total_map, total_filter]
  rfl

theorem MeteredOn.record {amount : LedgerRow → ℤ} {ceiling : ℤ} {line : BudgetLine} {network : BudgetNetwork}
    (h : MeteredOn config amount ceiling line network s)
    (hc : c.req.line = line → c.req.network = network →
      total amount (Counted config c) s.rows + amount c.row ≤ ceiling) :
    MeteredOn config amount ceiling line network { s with recorded := s.recorded ++ [c] } := by
  unfold MeteredOn
  rw [List.filter_append]
  by_cases hon : OnLine line network c.row
  · have hadmitted := hc hon.1 hon.2
    obtain ⟨hline, hnetwork⟩ := hon
    obtain rfl : c.req.line = line := hline
    obtain rfl : c.req.network = network := hnetwork
    rw [total_rows] at hadmitted
    have hsingle : [c].filter (OnLine c.req.line c.req.network ·.row) = [c] := by
      simp [OnLine, Call.row]
    rw [hsingle]
    exact Metered.snoc h hadmitted
  · have hnone : [c].filter (OnLine line network ·.row) = [] := by simp [hon]
    rw [hnone, List.append_nil]
    exact h

theorem Accounted.record (h : Accounted config rows₀ s) (hc : InOrder c) {row : LedgerRow}
    (hrow : insertWithinLimits config s.rows c = some (some row)) :
    Accounted config rows₀ { s with recorded := s.recorded ++ [c] } := by
  obtain ⟨-, hcount, hstroops⟩ := insertWithinLimits_row hrow
  refine ⟨h.initial, fun d hd => ?_, fun line network => ?_, fun line network m hm => ?_⟩
  · rcases List.mem_append.mp hd with hd | hd
    · exact h.inOrder d hd
    · obtain rfl := List.mem_singleton.mp hd
      exact hc
  · refine (h.count line network).record fun hline _ => ?_
    rw [← hline]
    exact hcount
  · refine (h.stroops line network m hm).record fun hline _ => ?_
    rw [← hline] at hm
    exact hstroops m hm

theorem Accounted.of_eq {s' : Ledger} (h : Accounted config rows₀ s) (hi : s'.initial = s.initial)
    (hr : s'.recorded = s.recorded) : Accounted config rows₀ s' := by
  refine ⟨hi.trans h.initial, ?_, fun line network => ?_, fun line network m hm => ?_⟩
  · rw [hr]
    exact h.inOrder
  · unfold MeteredOn
    rw [hi, hr]
    exact h.count line network
  · unfold MeteredOn
    rw [hi, hr]
    exact h.stroops line network m hm

end Invariant

/-! ## What a step can do -/

section Steps

variable {config : PgBudgetConfig} {hashtext : String → ℤ} {rows₀ : List LedgerRow}

inductive Move (config : PgBudgetConfig) (hashtext : String → ℤ) (s : Ledger) : Phase → Phase → Ledger → Prop where
  | stay (p : Phase) : Move config hashtext s p p s
  | lock (c : Call) (hfree : c.lockKey hashtext ∉ s.locks) :
      Move config hashtext s (.waiting c) (.locked c) { s with locks := c.lockKey hashtext :: s.locks }
  | giveUp (c : Call) : Move config hashtext s (.waiting c) (.done c .threw) s
  | run (c : Call) (row : Option LedgerRow) (hrow : insertWithinLimits config s.rows c = some row) :
      Move config hashtext s (.locked c) (.ran c row) s
  | rollback (p : Phase) (hp : p.HoldsLock) :
      Move config hashtext s p (.done p.call .threw) (s.unlock (p.call.lockKey hashtext))
  | refuse (c : Call) : Move config hashtext s (.ran c none) (.done c .refused) (s.unlock (c.lockKey hashtext))
  | commit (c : Call) (row : LedgerRow) (answer : Answer) (hans : answer ≠ .refused) :
      Move config hashtext s (.ran c (some row)) (.done c answer)
        (Ledger.unlock { s with recorded := s.recorded ++ [c] } (c.lockKey hashtext))

variable (config hashtext) in
theorem tryConsume_move (x : Reply) (p : Phase) (s : Ledger) :
    Move config hashtext s p (tryConsume config hashtext x p s).1 (tryConsume config hashtext x p s).2 := by
  cases p with
  | waiting c =>
    cases x with
    | succeeds =>
      by_cases hheld : c.lockKey hashtext ∈ s.locks
      · simp only [tryConsume, if_pos hheld]
        exact .stay _
      · simp only [tryConsume, if_neg hheld]
        exact .lock c hheld
    | fails => exact .giveUp c
    | lost => exact .giveUp c
  | locked c =>
    cases x with
    | succeeds =>
      cases hrow : insertWithinLimits config s.rows c with
      | some row =>
        simp only [tryConsume, hrow]
        exact .run c row hrow
      | none =>
        simp only [tryConsume, hrow]
        exact .rollback (.locked c) trivial
    | fails => exact .rollback (.locked c) trivial
    | lost => exact .rollback (.locked c) trivial
  | ran c row =>
    cases x with
    | succeeds =>
      cases row with
      | none => exact .refuse c
      | some row => exact .commit c row .ok (by decide)
    | fails => exact .rollback (.ran c row) trivial
    | lost =>
      cases row with
      | none => exact .rollback (.ran c none) trivial
      | some row => exact .commit c row .threw (by decide)
  | done c answer => cases x <;> exact .stay _

theorem Move.call_eq {s s' : Ledger} {p p' : Phase} (h : Move config hashtext s p p' s') : p'.call = p.call := by
  cases h <;> rfl

theorem Move.accounted {s s' : Ledger} {p p' : Phase} (h : Move config hashtext s p p' s')
    (hs : Accounted config rows₀ s) (hp : Holds config hashtext s p) : Accounted config rows₀ s' := by
  cases h with
  | commit c row answer hans =>
    exact (hs.record hp.inOrder (hp.ran c (some row) rfl)).of_eq rfl rfl
  | stay | lock | giveUp | run | rollback | refuse => exact hs.of_eq rfl rfl

theorem Move.holds {s s' : Ledger} {p p' : Phase} (h : Move config hashtext s p p' s')
    (hp : Holds config hashtext s p) : Holds config hashtext s' p' := by
  have hinOrder : InOrder p'.call := by
    rw [h.call_eq]
    exact hp.inOrder
  cases h with
  | stay => exact hp
  | lock c hfree => exact ⟨hinOrder, fun _ => List.mem_cons_self, fun d row h => by cases h⟩
  | run c row hrow =>
    refine ⟨hinOrder, fun _ => hp.lock trivial, fun d row' h => ?_⟩
    cases h
    exact hrow
  | giveUp | rollback | refuse | commit => exact ⟨hinOrder, False.elim, fun d row h => by cases h⟩

/-- A key other than the released one stays locked. -/
theorem mem_unlock {s : Ledger} {key key' : ℤ} (h : key ∈ s.locks) (hne : key' ≠ key) : key ∈ (s.unlock key').locks :=
  (List.mem_erase_of_ne hne.symm).mpr h

/-- Calls under different locks are on different lines, so what one records the other does not count. -/
theorem Move.holds_other {s s' : Ledger} {p p' q : Phase} (h : Move config hashtext s p p' s')
    (hq : Holds config hashtext s q) (hapart : Apart hashtext p q) : Holds config hashtext s' q := by
  cases h with
  | stay | giveUp | run => exact hq
  | lock c hfree => exact ⟨hq.inOrder, fun hl => List.mem_cons_of_mem _ (hq.lock hl), hq.ran⟩
  | rollback p hp => exact ⟨hq.inOrder, fun hl => mem_unlock (hq.lock hl) (hapart hp hl), hq.ran⟩
  | refuse c => exact ⟨hq.inOrder, fun hl => mem_unlock (hq.lock hl) (hapart trivial hl), hq.ran⟩
  | commit c row answer hans =>
    refine ⟨hq.inOrder, fun hl => mem_unlock (hq.lock hl) (hapart trivial hl), fun d row' hd => ?_⟩
    have hkeys : c.lockKey hashtext ≠ d.lockKey hashtext := by
      have := hapart trivial (show q.HoldsLock by rw [hd]; trivial)
      rwa [hd] at this
    have hother : ¬ OnLine d.req.line d.req.network c.row := by
      intro hon
      obtain ⟨hline, hnetwork⟩ := hon
      apply hkeys
      unfold Call.lockKey
      rw [show c.req.line = d.req.line from hline, show c.req.network = d.req.network from hnetwork]
    have hrows : (Ledger.unlock { s with recorded := s.recorded ++ [c] } (c.lockKey hashtext)).rows =
        s.rows ++ [c.row] := by
      simp [Ledger.rows, Ledger.unlock]
    rw [hrows, insertWithinLimits_other hother]
    exact hq.ran d row' hd

theorem Move.apart {s s' : Ledger} {p p' q : Phase} (h : Move config hashtext s p p' s')
    (hq : Holds config hashtext s q) (hapart : Apart hashtext p q) : Apart hashtext p' q := by
  cases h with
  | stay => exact hapart
  | lock c hfree =>
    intro _ hl heq
    apply hfree
    rw [show c.lockKey hashtext = q.call.lockKey hashtext from heq]
    exact hq.lock hl
  | run c row hrow => exact fun _ hl => hapart trivial hl
  | giveUp | rollback | refuse | commit => exact fun h => h.elim

/-- The calls keep the ledger accounted for, whatever the database answers and whoever moves. -/
theorem tryConsume_stable :
    Stable (tryConsume config hashtext) (fun _ _ _ => True) (Accounted config rows₀) (Holds config hashtext)
      (Apart hashtext) where
  symm _ _ h hq hp heq := h hp hq heq.symm
  shared x p s _ hs hp := (tryConsume_move config hashtext x p s).accounted hs hp
  own x p s _ _ hp := (tryConsume_move config hashtext x p s).holds hp
  other x p s _ _ _ _ hq hapart := (tryConsume_move config hashtext x p s).holds_other hq hapart
  apart x p s _ _ _ _ hq hapart := (tryConsume_move config hashtext x p s).apart hq hapart

end Steps

/-! ## Every window of every run -/

section Runs

variable (config : PgBudgetConfig) (hashtext : String → ℤ)

/-- The rows these calls recorded for a line in the half-open interval `(x, x + windowMs]`. -/
def InInterval (line : BudgetLine) (network : BudgetNetwork) (x : ℤ) (r : LedgerRow) : Prop :=
  OnLine line network r ∧ x < r.atMs ∧ r.atMs ≤ x + config.windowMs

instance {line : BudgetLine} {network : BudgetNetwork} {x : ℤ} : DecidablePred (InInterval config line network x) :=
  fun _ => inferInstanceAs (Decidable (_ ∧ _))

structure WindowsHeld (s : Ledger) : Prop where
  count : ∀ line network x,
    total LedgerRow.count (InInterval config line network x) (s.recorded.map Call.row) ≤ (config.limits line).maxCount
  stroops : ∀ line network x, ∀ m ∈ (config.limits line).maxStroops,
    total LedgerRow.stroops (InInterval config line network x) (s.recorded.map Call.row) ≤ m

/-- The calls about to start on a ledger that holds `rows₀`. -/
def start (rows₀ : List LedgerRow) (calls : ℕ → Call) : Config Ledger Phase :=
  ⟨⟨rows₀, [], []⟩, fun i => .waiting (calls i)⟩

/-- The state a schedule of the calls reaches. -/
def reached (rows₀ : List LedgerRow) (calls : ℕ → Call) (schedule : List (ℕ × Reply)) : Config Ledger Phase :=
  run (Processes.step (tryConsume config hashtext)) (start rows₀ calls) schedule

/-- At every point of the schedule every window is within the limits, and a step that records a row ends its
call, for good, with something other than a refusal. -/
structure BudgetHeld (rows₀ : List LedgerRow) (calls : ℕ → Call) (schedule : List (ℕ × Reply)) : Prop where
  windows : ∀ pre, pre <+: schedule → WindowsHeld config (reached config hashtext rows₀ calls pre).shared
  refused : ∀ pre a post, schedule = pre ++ a :: post →
    (reached config hashtext rows₀ calls (pre ++ [a])).shared.rows ≠
        (reached config hashtext rows₀ calls pre).shared.rows →
      ∃ c answer, answer ≠ .refused ∧ ∀ later, later <+: post →
        (reached config hashtext rows₀ calls (pre ++ [a] ++ later)).procs a.1 = .done c answer

variable {config hashtext} {rows₀ : List LedgerRow} {calls : ℕ → Call} {schedule : List (ℕ × Reply)}

theorem Accounted.windowsHeld {s : Ledger} (h : Accounted config rows₀ s)
    (hceiling : ∀ line, 0 ≤ (config.limits line).maxCount ∧ ∀ m ∈ (config.limits line).maxStroops, 0 ≤ m)
    (hrows : ∀ r ∈ rows₀, 0 ≤ r.stroops ∧ 0 ≤ r.count) : WindowsHeld config s := by
  have hbound : ∀ (amount : LedgerRow → ℤ) (ceiling : ℤ) line network x, 0 ≤ ceiling → (∀ r ∈ rows₀, 0 ≤ amount r) →
      (∀ c ∈ s.recorded, 0 ≤ amount c.row) → MeteredOn config amount ceiling line network s →
      total amount (InInterval config line network x) (s.recorded.map Call.row) ≤ ceiling := by
    intro amount ceiling line network x hpos hinitial hrecorded hmetered
    have hbase : ∀ t, 0 ≤ initialAfter amount line network s.initial t := by
      intro t
      unfold initialAfter
      rw [h.initial]
      exact total_nonneg hinitial
    have hstart : ∀ c ∈ s.recorded.filter (OnLine line network ·.row), c.atClock ≤ x + config.windowMs →
        c.windowStart config ≤ x := by
      intro c hc hat
      have hclocks := (h.inOrder c (List.mem_filter.mp hc).1).clocks
      unfold Call.windowStart
      omega
    have hwindow := hmetered.window_le hpos hbase (fun c hc => hrecorded c (List.mem_filter.mp hc).1) hstart
    rw [total_filter] at hwindow
    rw [total_map]
    exact hwindow
  refine ⟨fun line network x => ?_, fun line network x m hm => ?_⟩
  · exact hbound _ _ line network x (hceiling line).1 (fun r hr => (hrows r hr).2)
      (fun c hc => (h.inOrder c hc).count) (h.count line network)
  · exact hbound _ _ line network x ((hceiling line).2 m hm) (fun r hr => (hrows r hr).1)
      (fun c hc => (h.inOrder c hc).stroops) (h.stroops line network m hm)

theorem holds_start {config : PgBudgetConfig} {hashtext : String → ℤ} (hcalls : ∀ i, InOrder (calls i)) :
    Inv (Accounted config rows₀) (Holds config hashtext) (Apart hashtext) (start rows₀ calls) where
  shared := ⟨rfl, by simp [start], fun _ _ => metered_nil, fun _ _ _ _ => metered_nil⟩
  own i := ⟨hcalls i, False.elim, fun c row h => by cases h⟩
  apart i j _ h := h.elim

/-- A call that is done stays done. -/
theorem done_run {s : Config Ledger Phase} {i : ℕ} {c : Call} {answer : Answer} (h : s.procs i = .done c answer)
    (later : List (ℕ × Reply)) : (run (Processes.step (tryConsume config hashtext)) s later).procs i = .done c answer := by
  refine inv_run (P := fun s : Config Ledger Phase => s.procs i = .done c answer) (G := fun _ _ => True)
    (fun s a hs _ => ?_) h along_true
  by_cases hi : i = a.1
  · subst hi
    rw [procs_step_self, hs]
    cases a.2 <;> rfl
  · rw [procs_step_other hi]
    exact hs

/-- What a step that changes the rows did. -/
theorem Move.records {s s' : Ledger} {p p' : Phase} (h : Move config hashtext s p p' s') (hne : s'.rows ≠ s.rows) :
    ∃ c answer, p' = .done c answer ∧ answer ≠ .refused := by
  cases h with
  | commit c row answer hans => exact ⟨c, answer, rfl, hans⟩
  | stay | lock | giveUp | run | rollback | refuse => exact absurd rfl hne

/-- **No window is overspent**: when each call's clock reads are in order, under every schedule. -/
theorem windows_held (hceiling : ∀ line, 0 ≤ (config.limits line).maxCount ∧ ∀ m ∈ (config.limits line).maxStroops, 0 ≤ m)
    (hrows : ∀ r ∈ rows₀, 0 ≤ r.stroops ∧ 0 ≤ r.count)
    (hdomain : ∀ i, 0 ≤ (calls i).req.stroops ∧ 0 ≤ (calls i).addCount)
    (hclocks : ∀ i, (calls i).windowClock ≤ (calls i).atClock) :
    BudgetHeld config hashtext rows₀ calls schedule := by
  have hcalls : ∀ i, InOrder (calls i) := fun i => ⟨(hdomain i).1, (hdomain i).2, hclocks i⟩
  refine ⟨fun pre hpre => ?_, fun pre a post heq hne => ?_⟩
  · have hstart : Inv (Accounted config rows₀) (Holds config hashtext) (Apart hashtext) (start rows₀ calls) :=
      holds_start hcalls
    have hinv := tryConsume_stable.inv_upto hstart along_true pre hpre
    exact hinv.shared.windowsHeld hceiling hrows
  · have hmove := tryConsume_move config hashtext a.2
      ((reached config hashtext rows₀ calls pre).procs a.1) (reached config hashtext rows₀ calls pre).shared
    have hstep : reached config hashtext rows₀ calls (pre ++ [a]) =
        Processes.step (tryConsume config hashtext) (reached config hashtext rows₀ calls pre) a := run_snoc ..
    rw [hstep] at hne
    obtain ⟨c, answer, hdone, hans⟩ := hmove.records hne
    refine ⟨c, answer, hans, fun later _ => ?_⟩
    have hnow : (reached config hashtext rows₀ calls (pre ++ [a])).procs a.1 = .done c answer := by
      rw [hstep, procs_step_self]
      exact hdone
    unfold reached
    rw [run_append]
    exact done_run hnow later

end Runs

/-! Two calls of one row each, under a ceiling of one row in ten milliseconds. -/

def oneRow : PgBudgetConfig := ⟨10, fun _ => ⟨none, 1⟩⟩

def lengthHash (s : String) : ℤ := s.length

/-- Call 0 reads 5 twice; the others read `windowClock` for the window, then 5 for the row. -/
def callsAt (windowClock : ℤ) (i : ℕ) : Call :=
  ⟨if i = 0 then "a" else "b", ⟨.sponsor, .testnet, 7, none⟩, if i = 0 then 5 else windowClock, 5⟩

def oneAfterTheOther : List (ℕ × Reply) :=
  [(0, .succeeds), (0, .succeeds), (0, .succeeds), (1, .succeeds), (1, .succeeds), (1, .succeeds)]

theorem windows_held_same_clock :
    (reached oneRow lengthHash [] (callsAt 5) oneAfterTheOther).procs 1 = .done (callsAt 5 1) .refused ∧
      BudgetHeld oneRow lengthHash [] (callsAt 5) oneAfterTheOther := by
  refine ⟨by decide, windows_held ?_ (by simp) ?_ ?_⟩
  · intro line
    exact ⟨Int.one_nonneg, fun m hm => by cases hm⟩
  · intro i
    exact ⟨show (0 : ℤ) ≤ 7 by decide, show (0 : ℤ) ≤ 1 by decide⟩
  · intro i
    unfold callsAt
    split_ifs
    · exact le_rfl
    · exact le_rfl

/-- A clock that steps back from 20 to 5 between the two reads: the row of call 0 is left out of the aggregate of
call 1, and `(0, 10]` gets two rows. -/
theorem stepped_clock_overspends : ¬ BudgetHeld oneRow lengthHash [] (callsAt 20) oneAfterTheOther := by
  intro h
  have hcount := (h.windows oneAfterTheOther (List.prefix_refl _)).count .sponsor .testnet 0
  revert hcount
  decide

end Vellar.ServiceKit.SpendBudget
