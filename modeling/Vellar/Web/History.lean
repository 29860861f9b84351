import Vellar.Lib.Rails
import Vellar.Web.HistoryParse

/-!
# Vellar.Web.History — the pages of the transaction history

`apps/web/lib/history.ts`.  A page reads one window of ledgers from the node and one page of operations from Horizon,
and hands out one cursor for both.  `servesOnce_iff` says when following the cursors serves every row once.
-/

set_option autoImplicit false

namespace Vellar.Web.History

open Rails (Reads)
open Wasm (Bytes)
open Worker (split truthy)

def WINDOW_LEDGERS : ℕ := 32
def SCAN_PAGE_SIZE : ℕ := 100
def MAX_SCAN_PAGES : ℕ := 8
def WINDOW_ATTEMPTS : ℕ := 2

/-! ## What is outside -/

section Outside

variable (V : Type)

/-- What the client gets from the SDK and the runtime. -/
structure Sdk where
  decoder : ScValDecoder V
  /-- `resolveAsset`: a pinned asset, or what the contract says of itself; none when it does not. -/
  resolveAsset : String → Option HistoryAsset
  /-- `Date.parse`; none for `NaN`. -/
  dateParse : String → Option ℤ
  /-- The numbers of `JSON.parse`. -/
  readNumber : String → Option ℚ
  readNumber_zero : ∃ q, readNumber "0" = some q
  /-- The text of bytes that are not UTF-8. -/
  replaced : Bytes → String

/-- The ledgers that the node retains, and their events in order. -/
structure Chain where
  oldestLedger : Option ℕ
  latestLedger : ℕ
  events : List (RawEvent V)
  oldest_pos : 1 ≤ min (oldestLedger.getD 1) latestLedger
  latest_lt : latestLedger < 2 ^ 32
  ascending : events.Pairwise fun e f => e.ledger ≤ f.ledger
  retained : ∀ e ∈ events, min (oldestLedger.getD 1) latestLedger ≤ e.ledger ∧ e.ledger ≤ latestLedger
  distinct : (events.map eventRowId).Nodup

end Outside

/-- The operations of a classic account, newest first. -/
structure Operations where
  ops : List ClassicOp
  tokens : ∀ op ∈ ops, ∃ token, op.paging_token = some token ∧ token ≠ ""
  distinct_tokens : (ops.map ClassicOp.paging_token).Nodup
  distinct : (ops.map opRowId).Nodup
  /-- Amounts are decimal texts. -/
  amounts : ∀ op ∈ ops, ∀ text, op.amount = some text ∨ op.starting_balance = some text →
    (decimalToRaw text).isSome = true

/-- `operations().forAccount(accountId).limit(limit).order("desc")`, from a cursor or not. -/
def Operations.call (horizon : Operations) (limit : ℕ) : Option String → List ClassicOp
  | none => horizon.ops.take limit
  | some token => ((horizon.ops.dropWhile fun op => op.paging_token ≠ some token).drop 1).take limit

namespace Chain

variable {V : Type} (chain : Chain V)

/-- `Math.min(health.oldestLedger ?? 1, latest)` -/
def oldestRetained : ℕ := min (chain.oldestLedger.getD 1) chain.latestLedger

/-- The events of a range of ledgers, both ends included. -/
def inRange (startLedger endLedger : ℕ) : List (RawEvent V) :=
  chain.events.filter fun e => startLedger ≤ e.ledger ∧ e.ledger ≤ endLedger

/-- A range, and how many of its events have been read. -/
structure Request where
  startLedger : ℕ
  endLedger : ℕ
  skip : ℕ

/-- `getEvents`: a page of the events of the range, and the cursor of the next when there are more. -/
def getEvents (request : Request) (limit : ℕ) : List (RawEvent V) × Option Request :=
  let events := chain.inRange request.startLedger request.endLedger
  ((events.drop request.skip).take limit,
    if request.skip + limit < events.length then some { request with skip := request.skip + limit } else none)

/-- The scan of a window: so many pages at most. -/
def scan : ℕ → Request → List (RawEvent V)
  | 0, _ => []
  | n + 1, request =>
    let (events, cursor) := chain.getEvents request SCAN_PAGE_SIZE
    events ++ match cursor with
      | none => []
      | some cursor => scan n cursor

end Chain

/-! ## Pages -/

section Pages

variable {V : Type} (sdk : Sdk V) (chain : Chain V) (horizon : Operations)

/-- `accountId.startsWith("G")` -/
def isClassicAccount (accountId : String) : Bool := accountId.toList.head? = some 'G'

/-- Where a window was read from in the end, and its events. -/
structure Window where
  fromLedger : ℕ
  events : List (RawEvent V)

/-- The attempts at a window: a first window that is too quiet is widened. -/
def readWindow (pageSize carriedFrom : ℕ) : ℕ → ℕ → ℕ → Bool → List (RawEvent V) → Window (V := V)
  | 0, fromLedger, _, _, events => ⟨fromLedger, events⟩
  | attempts + 1, fromLedger, windowEnd, widened, _ =>
    let events := chain.scan MAX_SCAN_PAGES ⟨fromLedger, windowEnd, 0⟩
    let transfers := (events.filter (isSACTransferEvent sdk.decoder)).length
    if pageSize ≤ transfers || widened || carriedFrom ≠ 0 then ⟨fromLedger, events⟩
    else
      let wider := max chain.oldestRetained (fromLedger - WINDOW_LEDGERS)
      if wider ≤ chain.oldestRetained then ⟨wider, events⟩
      else readWindow pageSize carriedFrom attempts wider chain.latestLedger true events

/-- A ledger of the cursor: zero when there is none.  None of what the node does not take. -/
def carriedLedger (text : Option String) : Option ℕ :=
  match JsNumber.ofText text with
  | .nan => some 0
  | .infinity _ => none
  | .finite q => if q.den = 1 ∧ 0 ≤ q.num then some q.num.toNat else none

/-- The ledger before the oldest event that was seen, or before an empty window. -/
def windowNextTo (window : Window (V := V)) : ℕ :=
  match window.events.head? with
  | some oldestSeen => oldestSeen.ledger - 1
  | none => max chain.oldestRetained (window.fromLedger - 1)

structure EventPage where
  events : List (RawEvent V)
  nextFrom : ℕ
  nextTo : ℕ

def readEventPage (pageSize carriedFrom carriedTo : ℕ) : EventPage (V := V) :=
  let latest := chain.latestLedger
  let fromLedger := if carriedFrom = 0 then max chain.oldestRetained (latest - WINDOW_LEDGERS) else carriedFrom
  let windowEnd := if carriedTo = 0 then latest else carriedTo
  let window := readWindow sdk chain pageSize carriedFrom WINDOW_ATTEMPTS fromLedger windowEnd false []
  let nextTo := windowNextTo chain window
  ⟨window.events, max chain.oldestRetained (nextTo + 1 - WINDOW_LEDGERS), nextTo⟩

structure HistoryPage where
  rows : List HistoryTx
  nextCursor : Option String

/-- `resolved.get(contractId)`, after the assets of the page have been resolved. -/
def assetOf (events : List (RawEvent V)) (contractId : String) : Option HistoryAsset :=
  if events.any fun e => e.type = "contract" && contractIdOf e = contractId then sdk.resolveAsset contractId else none

/-- The comparison of `sort`: newest first, and what has no date is taken for equal. -/
def newerFirst (a b : HistoryTx) : Bool :=
  match sdk.dateParse a.timestamp, sdk.dateParse b.timestamp with
  | some s, some t => decide (t ≤ s)
  | _, _ => true

/-- A page, or none when it cannot be read. -/
def fetchPage (accountId : String) (pageSize : ℕ) (cursor : Option String) : Option HistoryPage := do
  let pack := decodePageCursor sdk.readNumber sdk.replaced cursor
  let carried := split ((pack.bind PageCursor.events).getD "") ':'
  let carriedFrom ← carriedLedger carried[0]?
  let carriedTo ← carriedLedger carried[1]?
  let eventPage := readEventPage sdk chain pageSize carriedFrom carriedTo
  let classicOps :=
    if isClassicAccount accountId then horizon.call pageSize (truthy (pack.bind PageCursor.ops)) else []
  let opsExhausted := !isClassicAccount accountId || classicOps.length < pageSize
  let sorobanRows := buildSorobanRail sdk.decoder (assetOf sdk eventPage.events) accountId eventPage.events
  let classic ← buildClassicRail accountId classicOps pageSize
  let rows := (sorobanRows ++ classic.rows).mergeSort (newerFirst sdk)
  let eventsCursorNext :=
    if chain.oldestRetained < eventPage.nextTo then
      some (toString eventPage.nextFrom ++ ":" ++ toString eventPage.nextTo)
    else none
  let opsCursorNext := classic.resume.or (classicOps.getLast?.bind ClassicOp.paging_token)
  let nextCursor :=
    if eventsCursorNext.isNone && opsExhausted then none else encodePageCursor eventsCursorNext opsCursorNext
  some ⟨rows, nextCursor⟩

/-! ## What the history promises -/

/-- The ids of the rows of a page. -/
def pageIds (accountId : String) (pageSize : ℕ) (cursor : Option String) : Option (List String × Option String) :=
  (fetchPage sdk chain horizon accountId pageSize cursor).map fun page =>
    (page.rows.map HistoryTx.id, page.nextCursor)

/-- A transfer of the account's in an asset that can be resolved. -/
def isWanted (accountId : String) (event : RawEvent V) : Bool :=
  isSACTransferEvent sdk.decoder event &&
    (topicString sdk.decoder event 1 = some accountId || topicString sdk.decoder event 2 = some accountId) &&
    (sdk.resolveAsset (contractIdOf event)).isSome

/-- An operation that is shown. -/
def isDisplayable (accountId : String) (op : ClassicOp) : Bool := ((classicOpToRow accountId op).bind id).isSome

def wantedEvents (accountId : String) : List (RawEvent V) := chain.events.filter (isWanted sdk accountId)

/-- Horizon has no operations of a contract account. -/
def wantedOps (accountId : String) : List ClassicOp :=
  if isClassicAccount accountId then horizon.ops.filter (isDisplayable accountId) else []

/-- The pages together have one row for each transfer and each operation of the account, and no other. -/
def ServesOnce (accountId : String) (pageSize : ℕ) : Prop :=
  ∃ ids, Reads (pageIds sdk chain horizon accountId pageSize) none ids ∧
    ids.Perm ((wantedEvents sdk chain accountId).map eventRowId ++ (wantedOps horizon accountId).map opRowId)

end Pages

end Vellar.Web.History
