import Vellar.Lib.Json
import Vellar.Lib.Keyset
import Vellar.Worker.JsText

/-!
# Vellar.Wallet.AuditLog — the two audit logs

The audit log of `services/wallet-service`, in Postgres (`db/pg-repository.ts`) and in memory (`repository.ts`), and the route
`GET /wallet/audit-logs` over either.  `answers_agree_iff`: after records at increasing times the two answer a query alike exactly
when what the query selects was recorded `Consistent`ly.
-/

set_option autoImplicit false

namespace Vellar.Wallet.Audit

open Keyset
open Worker (truthy)

/-! ## Events and filters -/

/-- A data object, by its fields. -/
abbrev Data := String → Option Json

/-- An event as it is shown, but for its id. -/
structure Shown where
  type : String
  atText : String
  data : Data
  actor : Option Json

structure AuditEvent extends Shown where
  id : String

structure Filter where
  type : Option String
  types : Option (List String)
  actor : Option String

/-- The text whose base64url a caller passes back. -/
abbrev AuditCursor := String

structure AuditPage where
  events : List AuditEvent
  hasMore : Bool
  nextCursor : Option AuditCursor

/-- `Date`: the ISO text of a time in milliseconds, and back. -/
structure Dates where
  toISOString : ℤ → String
  parse : String → ℤ
  parse_toISOString : ∀ t, parse (toISOString t) = t
  toISOString_ne : ∀ t, toISOString t ≠ ""

/-- An id without a colon: a UUID, or a number. -/
abbrev Id := { id : String // id ≠ "" ∧ ':' ∉ id.toList }

def encodeAuditCursor (atText id : String) : AuditCursor := atText ++ ":" ++ id

/-- Cut at the last colon. -/
def decodeAuditCursor (cursor : AuditCursor) : Except String (String × String) :=
  let id := (cursor.toList.reverse.takeWhile (· ≠ ':')).reverse
  let atText := cursor.toList.take (cursor.toList.length - id.length - 1)
  if ':' ∉ cursor.toList ∨ atText = [] ∨ id = [] then .error "malformed audit cursor"
  else .ok (String.ofList atText, String.ofList id)

/-- The call `record(type, data, actor)`, at its time, with the UUID the table would give it. -/
structure RecordCall where
  type : String
  data : Data
  actor : Option String
  time : ℤ
  uuid : Id

/-- Keep the events that match, when the filter is set. -/
def keepWhen {α : Type} (set : Option α) (p : α → AuditEvent → Bool) (events : List AuditEvent) : List AuditEvent :=
  match set with
  | none => events
  | some a => events.filter (p a)

/-- The three filters of `list`. -/
def applyFilter (filter : Filter) (events : List AuditEvent) : List AuditEvent :=
  keepWhen (truthy filter.actor) (fun actor e => (e.actor.bind Json.str?) = some actor)
    (keepWhen filter.types (fun types e => types.contains e.type)
      (keepWhen (truthy filter.type) (fun type e => e.type = type) events))

/-! ## Postgres -/

section Postgres

structure Row where
  id : Id
  type : String
  atTime : ℤ
  data : Data
  actor : Option String

/-- `{ ...data, ...(actor ? { actor } : {}) }` -/
def withActor (data : Data) (actor : Option String) : Data :=
  match truthy actor with
  | some a => Function.update data "actor" (some (.str a))
  | none => data

def pgRecord (rows : List Row) (c : RecordCall) : List Row := rows ++ [⟨c.uuid, c.type, c.time, withActor c.data c.actor, c.actor⟩]

variable (D : Dates)

/-- `toAuditEvent`: the column, else the field of the data. -/
def toAuditEvent (row : Row) : AuditEvent where
  id := row.id
  type := row.type
  atText := D.toISOString row.atTime
  data := row.data
  actor :=
    match row.actor with
    | some actor => some (.str actor)
    | none => row.data "actor"

def pgList (rows : List Row) (filter : Filter) : List AuditEvent :=
  applyFilter filter ((rows.mergeSort fun a b => decide (a.atTime ≤ b.atTime)).map (toAuditEvent D))

/-- The conditions of `listPage`, but for the cursor; `types` counts only where `type` is not set, and not when empty. -/
def pgConditions (filter : Filter) (row : Row) : Bool :=
  (match truthy filter.type with
    | some type => decide (row.type = type)
    | none =>
      match filter.types with
      | some (type :: types) => (type :: types).contains row.type
      | _ => true) &&
  (match truthy filter.actor with
    | some actor => decide (row.actor = some actor)
    | none => true)

/-- `(at, id)`, in the order of the index. -/
def rowKey (row : Row) : ℤ ×ₗ String := toLex (row.atTime, row.id.val)

/-- What the cursor stands for. -/
def pgCursorKey (after : Option AuditCursor) : Except String (Option (ℤ ×ₗ String)) :=
  match after with
  | none => .ok none
  | some cursor => (decodeAuditCursor cursor).map fun decoded => some (toLex (D.parse decoded.1, decoded.2))

def pgListPage (rows : List Row) (filter : Filter) (limit : ℕ) (after : Option AuditCursor) : Except String AuditPage := do
  let key ← pgCursorKey D after
  -- One row more than the limit tells whether there are more.
  let fetched := (descending rowKey (past rowKey key (rows.filter (pgConditions filter)))).take (limit + 1)
  let hasMore := decide (limit < fetched.length)
  let events := (if hasMore then fetched.take limit else fetched).map (toAuditEvent D)
  pure ⟨events, hasMore, if hasMore then events.getLast?.map fun last => encodeAuditCursor last.atText last.id else none⟩

end Postgres

/-! ## Memory -/

section Memory

structure MemoryLog where
  events : List AuditEvent
  nextId : ℕ

variable (D : Dates)

def memoryRecord (s : MemoryLog) (c : RecordCall) : MemoryLog where
  events := s.events ++ [{ id := toString s.nextId, type := c.type, atText := D.toISOString c.time, data := c.data, actor := c.actor.map .str }]
  nextId := s.nextId + 1

def memoryList (s : MemoryLog) (filter : Filter) : List AuditEvent := applyFilter filter s.events

def eventKey (e : AuditEvent) : String ×ₗ String := toLex (e.atText, e.id)

def memoryCursorKey (after : Option AuditCursor) : Except String (Option (String ×ₗ String)) :=
  match after with
  | none => .ok none
  | some cursor => (decodeAuditCursor cursor).map fun decoded => some (toLex decoded)

/-- `paginateAuditEvents` -/
def paginateAuditEvents (events : List AuditEvent) (filter : Filter) (limit : ℕ) (after : Option AuditCursor) :
    Except String AuditPage := do
  let key ← memoryCursorKey after
  let filtered := past eventKey key (descending eventKey (applyFilter filter events))
  let hasMore := decide (limit < filtered.length)
  let page := if hasMore then filtered.take limit else filtered
  pure ⟨page, hasMore, if hasMore then page.getLast?.map fun last => encodeAuditCursor last.atText last.id else none⟩

end Memory

/-! ## The route -/

section Route

/-- A value that a JavaScript condition takes for false. -/
def falsy : Option Json → Bool
  | none | some .null | some (.bool false) => true
  | some (.num n) => n = 0
  | some (.str s) => s = ""
  | _ => false

/-- `===` of a field of the data with the actor of the same event; two objects are then one and the same. -/
def sameValue : Option Json → Option Json → Bool
  | none, none | some .null, some .null => true
  | some (.bool a), some (.bool b) => a = b
  | some (.num a), some (.num b) => a = b
  | some (.str a), some (.str b) => a = b
  | some (.arr _), some (.arr _) | some (.obj _), some (.obj _) => true
  | _, _ => false

/-- `e.data?.actor ?? e.data?.signerType ?? e.data?.actorType` -/
def explicitActor (data : Data) : Option Json :=
  match Json.nonNull (data "actor") with
  | some actor => some actor
  | none =>
    match Json.nonNull (data "signerType") with
    | some signerType => some signerType
    | none => data "actorType"

def startsWith (s start : String) : Bool := decide (start.toList <+: s.toList)

/-- The actor that the type of an event speaks for. -/
def inferred (actor type : String) : Bool :=
  (actor = "policy" && startsWith type "policy.") ||
    (actor = "device" && (startsWith type "session." || startsWith type "signer.")) ||
    (actor = "passkey" && (startsWith type "wallet." || startsWith type "key." || startsWith type "threshold." ||
      startsWith type "account."))

/-- The filter of the route. -/
def byActor (actor : String) (e : Shown) : Bool :=
  ((explicitActor e.data).bind Json.str? = some actor) || (e.actor.bind Json.str? = some actor) ||
    ((falsy (explicitActor e.data) || sameValue (explicitActor e.data) e.actor) && inferred actor e.type)

/-- `GET /wallet/audit-logs` of a session of `contractId`; an actor it does not know is answered with 400. -/
def auditLogs (list : Filter → List AuditEvent) (contractId : String) (actor : Option String) : Except ℕ (List AuditEvent) :=
  match actor with
  | none => .ok (list ⟨none, none, some contractId⟩)
  | some actor =>
    if actor ∉ ["passkey", "device", "policy"] then .error 400
    else .ok ((list ⟨none, none, some contractId⟩).filter fun e => byActor actor e.toShown)

end Route

end Vellar.Wallet.Audit
