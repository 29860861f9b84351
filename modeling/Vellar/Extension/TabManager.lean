import Vellar.Extension.Router
import Vellar.Lib.Table

/-!
# Vellar.Extension.TabManager — the requests that wait for the user

`apps/extension/lib/paired-tab-manager.ts` and `pending-approvals.ts`: the pending queue, the requests in flight, and the
window they are approved in.  An operation also tells which promises it resolves.
-/

set_option autoImplicit false

namespace Vellar.Extension

/-! ## Entries -/

/-- An entry of the queue; `promise` is the promise that `resolve` settles. -/
structure Entry where
  id : String
  origin : String
  request : ProviderRequest
  tabId : Option ℕ
  promise : ℕ
deriving DecidableEq

structure InFlight where
  entry : Entry
  tabClosed : Bool
deriving DecidableEq

def InFlight.id (item : InFlight) : String := item.entry.id

structure TabManager where
  pending : Table Entry.id
  inFlight : Table InFlight.id
  approvalWindowId : Option ℕ

def TabManager.new : TabManager := ⟨Table.empty, Table.empty, none⟩

/-- What settles a promise. -/
inductive Cause where
  | answered
  | resolved (id : String)
  | superseded (origin : String) (method : ProviderMethod)
  | tabClosed (tabId : ℕ)
deriving DecidableEq

/-- A call of an entry's `resolve`. -/
structure Settlement where
  promise : ℕ
  payload : ResponsePayload
  cause : Cause
deriving DecidableEq

/-! ## Operations -/

namespace TabManager

variable (m : TabManager)

def addPending (entry : Entry) : TabManager := { m with pending := m.pending.put entry }

/-- What `listPending` shows. -/
def listPending : List (String × String × ProviderRequest) := m.pending.rows.map fun e => (e.id, e.origin, e.request)

def startResolving (id : String) : Option (Entry × TabManager) :=
  (m.pending.find id).map fun entry =>
    (entry,
      { m with
        pending := m.pending.removeWhere fun e => e.id = id
        inFlight := m.inFlight.put ⟨entry, false⟩ })

/-- The window is forgotten, and closed, when nothing waits. -/
def closeApprovalWindowIfEmpty : TabManager :=
  if m.pending.rows = [] then { m with approvalWindowId := none } else m

def finishResolving (id : String) (payload : Option ResponsePayload) : TabManager × List Settlement :=
  match m.inFlight.find id with
  | none => (m, [])
  | some item =>
    (closeApprovalWindowIfEmpty { m with inFlight := m.inFlight.removeWhere fun i => i.id = id },
      payload.toList.map fun payload => ⟨item.entry.promise, payload, .resolved id⟩)

def tabClosedPayload : ResponsePayload := .error .rejected "The initiating tab was closed"

def handleTabRemoved (closedTabId : ℕ) : TabManager × List Settlement :=
  let closed := fun e : Entry => decide (e.tabId = some closedTabId)
  (closeApprovalWindowIfEmpty
    { m with
      pending := m.pending.removeWhere closed
      inFlight := m.inFlight.updateWhere (fun i => closed i.entry) (fun i => { i with tabClosed := true }) fun _ => rfl },
    (m.pending.rows.filter closed).map fun e => ⟨e.promise, tabClosedPayload, .tabClosed closedTabId⟩)

def handleWindowRemoved (closedWindowId : ℕ) : TabManager :=
  if m.approvalWindowId = some closedWindowId then { m with approvalWindowId := none } else m

def supersededPayload : ResponsePayload := .error .rejected "Superseded by a newer request"

/-- `supersededEntries`, settled and deleted. -/
def supersede (origin : String) (request : ProviderRequest) : TabManager × List Settlement :=
  let stale := fun e : Entry => decide (e.origin = origin ∧ e.request.method = request.method)
  ({ m with pending := m.pending.removeWhere stale },
    (m.pending.rows.filter stale).map fun e => ⟨e.promise, supersededPayload, .superseded origin request.method⟩)

end TabManager

end Vellar.Extension
