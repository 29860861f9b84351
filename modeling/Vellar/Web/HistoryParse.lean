import Vellar.Extension.TxSummary
import Vellar.Lib.JsNumber
import Vellar.Lib.JsonText
import Vellar.Lib.Partial
import Vellar.Wallet.AuditPages

/-!
# Vellar.Web.HistoryParse — rows, rails and cursors of the transaction history

`apps/web/lib/history-parse.ts`.  Which contract events are transfers and which operations are shown, the row of each,
and the cursor that both rails share.  A cursor that was handed out is read back (`decodePageCursor_encodePageCursor`).
-/

set_option autoImplicit false

namespace Vellar.Web.History

open Wallet.Create (base64Digit base64Bytes)
open Extension (bigInt)
open Wallet.Audit (toBase64url base64Digits base64Char)
open Wasm (Bytes utf8Bytes decodeUtf8_utf8Bytes textDecode)
open Worker (split truthy)

/-! ## Values of the SDK -/

/-- An `ScVal` that is not decoded, or a value of JavaScript. -/
inductive Native (V : Type) where
  | scVal (v : V)
  | text (s : String)
  | bigint (n : ℤ)
  | number (x : JsNumber)
  | array (items : List (Native V))
  /-- An object, and its `amount` if it has one. -/
  | record (amount : Option (Native V))
  | other

/-- `scValToNative`; none where it throws. -/
abbrev ScValDecoder (V : Type) := Native V → Option (Native V)

structure RawEvent (V : Type) where
  type : String
  ledger : ℕ
  ledgerClosedAt : Option String
  id : String
  txHash : String
  inSuccessfulContractCall : Bool
  /-- None when it is no array. -/
  topic : Option (List (Native V))
  value : Native V
  contractId : String

inductive Rail where
  | soroban
  | classic
deriving DecidableEq

structure HistoryAsset where
  kind : Rail
  code : String
  decimals : ℕ
  contractId : String
  issuer : Option String
deriving DecidableEq

inductive HistoryDirection where
  | incoming
  | outgoing
  | self
deriving DecidableEq

inductive HistoryStatus where
  | success
  | failed
deriving DecidableEq

structure HistoryTx where
  id : String
  kind : Rail
  direction : HistoryDirection
  counterparty : String
  amount : ℤ
  asset : HistoryAsset
  timestamp : String
  status : HistoryStatus
  txHash : String
  description : Option String
deriving DecidableEq

def statusOf (succeeded : Bool) : HistoryStatus := if succeeded then .success else .failed

def directionFor (accountId : String) («from» to? : Option String) : HistoryDirection :=
  let isFrom := decide («from» = some accountId)
  let isTo := decide (to? = some accountId)
  if isFrom && !isTo then .outgoing
  else if isTo && !isFrom then .incoming
  else .self

/-! ## Transfer events -/

section Events

variable {V : Type} (decoder : ScValDecoder V)

def decodeString (scVal : Native V) : Option String :=
  match decoder scVal with
  | some (.text s) => some s
  | _ => none

def contractIdOf (event : RawEvent V) : String := event.contractId

/-- `decodeString(decoder, event.topic[i])` -/
def topicString (event : RawEvent V) (i : ℕ) : Option String :=
  (event.topic.bind fun topic => topic[i]?).bind (decodeString decoder)

def isSACTransferEvent (event : RawEvent V) : Bool :=
  event.type = "contract" && event.topic.any (fun topic => 3 ≤ topic.length) &&
    topicString decoder event 0 = some "transfer"

/-- `/^-?\d+$/` -/
def isInteger (s : String) : Bool :=
  match s.toList with
  | '-' :: cs => cs ≠ [] && cs.all Char.isDigit
  | cs => cs ≠ [] && cs.all Char.isDigit

/-- `extractAmount` with the depths that are left. -/
def extractAmountFrom : ℕ → Native V → Option ℤ
  | 0, _ => none
  | n + 1, value =>
    match value with
    | .bigint m => some m
    | value => match decoder value with
      | some (.bigint m) => some m
      | some (.number (.finite q)) => some (q.num.tdiv q.den)
      | some (.text s) => if isInteger s then bigInt s else none
      | some (.array items) => items.findSome? (extractAmountFrom n)
      | some (.record (some amount)) => extractAmountFrom n amount
      | _ => none

def extractAmount (value : Native V) : Option ℤ := extractAmountFrom decoder 5 value

/-- The id of the row of an event. -/
def eventRowId (event : RawEvent V) : String := "soroban:" ++ contractIdOf event ++ ":" ++ event.id

def parseSACTransfer (accountId : String) (event : RawEvent V) (asset : HistoryAsset) : Option HistoryTx :=
  if !isSACTransferEvent decoder event then none
  else do
    let sender ← truthy (topicString decoder event 1)
    let receiver ← truthy (topicString decoder event 2)
    let amount ← extractAmount decoder event.value
    some {
      id := eventRowId event
      kind := .soroban
      direction := directionFor accountId (some sender) (some receiver)
      counterparty := if sender = accountId then receiver else sender
      amount := amount
      asset := asset
      timestamp := event.ledgerClosedAt.getD "1970-01-01T00:00:00.000Z"
      status := statusOf event.inSuccessfulContractCall
      txHash := event.txHash
      description := none }

variable (assetOf : String → Option HistoryAsset)

/-- The row that `buildSorobanRail` makes of an event. -/
def sorobanRow (accountId : String) (event : RawEvent V) : Option HistoryTx :=
  if isSACTransferEvent decoder event then
    (assetOf (contractIdOf event)).bind (parseSACTransfer decoder accountId event)
  else none

def buildSorobanRail (accountId : String) (events : List (RawEvent V)) : List HistoryTx :=
  (events.filterMap (sorobanRow decoder assetOf accountId)).reverse

end Events

/-! ## Classic operations -/

structure ClassicOp where
  id : String
  type : String
  transaction_successful : Bool
  created_at : String
  transaction_hash : String
  asset_type : Option String
  asset_code : Option String
  asset_issuer : Option String
  amount : Option String
  «from» : Option String
  to? : Option String
  account : Option String
  starting_balance : Option String
  paging_token : Option String
  address : Option String
  function_name : Option String

def NATIVE_DECIMALS : ℕ := 7

/-- `/^[\w.:-]{1,64}$/` -/
def isFunctionName (name : String) : Bool :=
  1 ≤ name.length && name.length ≤ 64 && name.toList.all fun c =>
    c.isAlpha || c.isDigit || c = '_' || c = '.' || c = ':' || c = '-'

def describeInvokeHostFunction (op : ClassicOp) : String :=
  match op.function_name with
  | some name => if isFunctionName name then "Contract call: " ++ name else "Contract invocation"
  | none => "Contract invocation"

/-- The id of the row of an operation. -/
def opRowId (op : ClassicOp) : String := "classic:" ++ op.id

def invokeHostFunctionRow (op : ClassicOp) : HistoryTx :=
  let contractId := op.address.getD ""
  { id := opRowId op
    kind := .soroban
    direction := .self
    counterparty := contractId
    amount := 0
    asset := ⟨.soroban, "Contract", NATIVE_DECIMALS, contractId, none⟩
    timestamp := op.created_at
    status := statusOf op.transaction_successful
    txHash := op.transaction_hash
    description := some (describeInvokeHostFunction op) }

def classicAssetOf (op : ClassicOp) : Option HistoryAsset :=
  if op.asset_type = some "native" then some ⟨.classic, "XLM", NATIVE_DECIMALS, "", none⟩
  else (truthy op.asset_code).bind fun code => (truthy op.asset_issuer).map fun issuer =>
    ⟨.classic, code, NATIVE_DECIMALS, "", some issuer⟩

/-- `padEnd(width, "0").slice(0, width)` -/
def padded (width : ℕ) (cs : List Char) : List Char := (cs ++ List.replicate (width - cs.length) '0').take width

/-- None where `BigInt` throws. -/
def decimalToRaw (decimal : String) : Option ℤ :=
  let negative := decide (decimal.toList.head? = some '-')
  let unsigned := if negative then String.ofList (decimal.toList.drop 1) else decimal
  let parts := split unsigned '.'
  let whole := parts.head?.getD ""
  let frac := (parts[1]?).getD ""
  (bigInt (whole ++ String.ofList (padded NATIVE_DECIMALS frac.toList))).map fun raw => if negative then -raw else raw

/-- What becomes of an amount: none when there is none; outside, none where reading it throws. -/
def withAmount {α : Type} (amount : Option String) (f : ℤ → α) : Option (Option α) :=
  match truthy amount with
  | none => some none
  | some amount => (decimalToRaw amount).map fun raw => some (f raw)

/-- `op.from === accountId ? "out" : "in"` -/
def sideOf (accountId : String) (op : ClassicOp) : HistoryDirection :=
  if op.from = some accountId then .outgoing else .incoming

/-- The counterparty, the direction and the amount of an operation that is a transfer. -/
def movementOf (accountId : String) (op : ClassicOp) : Option (Option (String × HistoryDirection × ℤ)) :=
  if op.type = "payment" || "path_payment".toList.isPrefixOf op.type.toList then
    let counterparty := (if op.from = some accountId then op.to? else op.from).getD ""
    withAmount op.amount fun raw => (counterparty, directionFor accountId op.from op.to?, raw)
  else if op.type = "create_account" then
    withAmount op.starting_balance fun raw => (op.account.getD "", sideOf accountId op, raw)
  else if op.type = "account_merge" then some (some (op.account.getD "", sideOf accountId op, 0))
  else some none

/-- The row of an operation, none when it is not shown; outside, none where reading its amount throws. -/
def classicOpToRow (accountId : String) (op : ClassicOp) : Option (Option HistoryTx) :=
  if op.type = "invoke_host_function" then some (some (invokeHostFunctionRow op))
  else match classicAssetOf op with
    | none => some none
    | some asset => (movementOf accountId op).map fun movement => movement.map fun (counterparty, direction, amount) =>
      { id := opRowId op
        kind := .classic
        direction := direction
        counterparty := counterparty
        amount := amount
        asset := asset
        timestamp := op.created_at
        status := statusOf op.transaction_successful
        txHash := op.transaction_hash
        description := none }

structure RailPage where
  rows : List HistoryTx
  resume : Option String

def buildClassicRail (accountId : String) (ops : List ClassicOp) (pageSize : ℕ) : Option RailPage := do
  let shown ← ops.mapM (classicOpToRow accountId)
  let rows := shown.reduceOption
  if rows.length ≤ pageSize then some ⟨rows, none⟩
  else
    let lastOpId := (rows[pageSize - 1]?).map fun last => String.ofList (last.id.toList.drop "classic:".length)
    some ⟨rows.take pageSize, (ops.find? fun op => some op.id = lastOpId).bind ClassicOp.paging_token⟩

/-! ## Cursors -/

structure PageCursor where
  events : Option String
  ops : Option String
deriving DecidableEq

def isAsciiSpace (c : Char) : Bool := c = '\t' || c = '\n' || c.toNat = 12 || c = '\r' || c = ' '

/-- The text without one or two `=` at its end. -/
def dropPadding (cs : List Char) : List Char :=
  match cs.reverse with
  | '=' :: '=' :: rest => rest.reverse
  | '=' :: rest => rest.reverse
  | _ => cs

/-- `atob`; none where it throws. -/
def atob (cs : List Char) : Option Bytes :=
  let data := cs.filter fun c => !isAsciiSpace c
  let data := if data.length % 4 = 0 then dropPadding data else data
  if data.length % 4 = 1 then none else (data.mapM base64Digit).map base64Bytes

/-- `+` and `/` for what stands for them in URLs. -/
def fromUrlAlphabet (c : Char) : Char := if c = '-' then '+' else if c = '_' then '/' else c

/-- `encodeBase64` in the alphabet of URLs and without its padding. -/
def encodeBase64url (input : String) : String := toBase64url (utf8Bytes input)

/-- An entry of the payload. -/
def cursorEntry (key : String) (position : Option String) : List (String × Json) :=
  (truthy position).toList.map fun t => (key, .str t)

def encodePageCursor (events ops : Option String) : Option String :=
  if (truthy events).isNone && (truthy ops).isNone then none
  else
    -- there is no number to print
    let payload := JsonText.stringify (fun _ => "0") (.obj (cursorEntry "e" events ++ cursorEntry "o" ops))
    some (encodeBase64url (String.ofList payload))

section Decode

variable (readNumber : String → Option ℚ) (replaced : Bytes → String)

/-- `decodeBase64`; `replaced` is the text of bytes that are not UTF-8. -/
def decodeBase64 (input : String) : Option String :=
  (atob (input.toList.map fromUrlAlphabet)).map fun bytes => (textDecode bytes).getD (replaced bytes)

def decodePageCursor (cursor : Option String) : Option PageCursor := do
  let cursor ← truthy cursor
  let json ← decodeBase64 replaced cursor
  let parsed ← JsonText.parse readNumber json.toList
  let events := (parsed.get? "e").bind Json.str?
  let ops := (parsed.get? "o").bind Json.str?
  if (truthy events).isSome || (truthy ops).isSome then some ⟨events, ops⟩ else none

end Decode

/-! ### A cursor read back -/

theorem length_base64Digits : (bytes : Bytes) → (base64Digits bytes).length % 4 ≠ 1
  | a :: b :: c :: rest => by
    have ih := length_base64Digits rest
    rw [base64Digits]
    simp only [List.length_cons]
    omega
  | [_, _] => (by decide : 3 % 4 ≠ 1)
  | [_] => (by decide : 2 % 4 ≠ 1)
  | [] => (by decide : 0 % 4 ≠ 1)

theorem fromUrlAlphabet_base64Char {n : ℕ} (h : n < 64) :
    base64Digit (fromUrlAlphabet (base64Char n)) = some n ∧ fromUrlAlphabet (base64Char n) ≠ '=' ∧
      isAsciiSpace (fromUrlAlphabet (base64Char n)) = false := by
  revert n
  decide

theorem dropPadding_eq_self {cs : List Char} (h : ∀ c ∈ cs, c ≠ '=') : dropPadding cs = cs := by
  unfold dropPadding
  split
  · next heq => exact absurd rfl (h '=' (List.mem_reverse.mp (heq ▸ List.mem_cons_self)))
  · next heq => exact absurd rfl (h '=' (List.mem_reverse.mp (heq ▸ List.mem_cons_self)))
  · rfl

theorem atob_toBase64url (bytes : Bytes) : atob ((toBase64url bytes).toList.map fromUrlAlphabet) = some bytes := by
  have hdigits := Wallet.Audit.base64Digits_lt bytes
  have htext : (toBase64url bytes).toList.map fromUrlAlphabet =
      (base64Digits bytes).map fun n => fromUrlAlphabet (base64Char n) := by
    rw [toBase64url, String.toList_ofList, List.map_map]
    rfl
  have hspace : ((base64Digits bytes).map fun n => fromUrlAlphabet (base64Char n)).filter (fun c => !isAsciiSpace c) =
      (base64Digits bytes).map fun n => fromUrlAlphabet (base64Char n) := by
    rw [List.filter_eq_self]
    intro c hc
    obtain ⟨n, hn, rfl⟩ := List.mem_map.mp hc
    rw [(fromUrlAlphabet_base64Char (hdigits n hn)).2.2]
    rfl
  have hpadding : dropPadding ((base64Digits bytes).map fun n => fromUrlAlphabet (base64Char n)) =
      (base64Digits bytes).map fun n => fromUrlAlphabet (base64Char n) := by
    refine dropPadding_eq_self fun c hc => ?_
    obtain ⟨n, hn, rfl⟩ := List.mem_map.mp hc
    exact (fromUrlAlphabet_base64Char (hdigits n hn)).2.1
  have hread : ((base64Digits bytes).map fun n => fromUrlAlphabet (base64Char n)).mapM base64Digit =
      some (base64Digits bytes) := by
    refine Partial.mapM_eq_some.mpr (List.forall₂_map_left_iff.mpr (List.forall₂_same.mpr fun n hn => ?_))
    exact (fromUrlAlphabet_base64Char (hdigits n hn)).1
  rw [htext, atob]
  simp only [hspace, hpadding, ite_self, List.length_map, if_neg (length_base64Digits bytes), hread, Option.map_some,
    Wallet.Audit.base64Bytes_base64Digits]

/-- A text that begins with a brace has no byte order mark. -/
theorem textDecode_brace (cs : List Char) :
    textDecode (utf8Bytes (String.ofList ('\x7b' :: cs))) = some (String.ofList ('\x7b' :: cs)) := by
  have hfirst : utf8Bytes (String.ofList ('\x7b' :: cs)) = 0x7b :: (List.utf8Encode cs).data.toList := by
    have hchar : String.utf8EncodeChar '\x7b' = [0x7b] := by decide
    show (List.utf8Encode ('\x7b' :: cs)).data.toList = _
    rw [List.utf8Encode_cons, List.utf8Encode_singleton, hchar]
    simp
  have hbom : Wasm.dropBom (utf8Bytes (String.ofList ('\x7b' :: cs))) = utf8Bytes (String.ofList ('\x7b' :: cs)) := by
    rw [Wasm.dropBom, hfirst]
    refine if_neg fun h => ?_
    rw [List.take_succ_cons] at h
    exact absurd (List.cons.inj h).1 (by decide)
  rw [textDecode, hbom, decodeUtf8_utf8Bytes]

theorem mapNumbers_cursorEntry (f : ℚ → ℚ) (events ops : Option String) :
    JsonText.mapNumbers f (.obj (cursorEntry "e" events ++ cursorEntry "o" ops)) =
      .obj (cursorEntry "e" events ++ cursorEntry "o" ops) := by
  unfold cursorEntry
  cases truthy events <;> cases truthy ops <;> rfl

theorem distinct_cursorEntry (events ops : Option String) :
    JsonText.Distinct (.obj (cursorEntry "e" events ++ cursorEntry "o" ops)) := by
  rw [JsonText.distinct_obj]
  unfold cursorEntry
  cases truthy events <;> cases truthy ops <;> simp [JsonText.Distinct]

theorem numerals_zero : JsonText.Numerals fun _ => "0" where
  ne_empty := fun _ => by simp
  chars := fun _ c hc => by
    obtain rfl : c = '0' := by simpa using hc
    rfl

theorem truthy_truthy (x : Option String) : truthy (truthy x) = truthy x := by
  rw [truthy, truthy, Option.filter_filter]
  simp

theorem get?_cursorEntry (events ops : Option String) :
    ((Json.obj (cursorEntry "e" events ++ cursorEntry "o" ops)).get? "e").bind Json.str? = truthy events ∧
      ((Json.obj (cursorEntry "e" events ++ cursorEntry "o" ops)).get? "o").bind Json.str? = truthy ops := by
  unfold cursorEntry
  cases truthy events <;> cases truthy ops <;> simp [Json.get?, List.lookup]

/-- A cursor that was handed out is read back. -/
theorem decodePageCursor_encodePageCursor {readNumber : String → Option ℚ} (hzero : ∃ q, readNumber "0" = some q)
    (replaced : Bytes → String) {events ops : Option String} {cursor : String}
    (h : encodePageCursor events ops = some cursor) :
    decodePageCursor readNumber replaced (some cursor) = some ⟨truthy events, truthy ops⟩ := by
  obtain ⟨q, hq⟩ := hzero
  rw [encodePageCursor] at h
  split_ifs at h with hnone
  obtain rfl := Option.some.inj h
  generalize hpayload : JsonText.stringify (fun _ => "0") (.obj (cursorEntry "e" events ++ cursorEntry "o" ops)) =
    payload
  have hparse : JsonText.parse readNumber payload =
      some (.obj (cursorEntry "e" events ++ cursorEntry "o" ops)) := by
    rw [← hpayload, JsonText.parse_stringify numerals_zero (fun _ => hq) (distinct_cursorEntry events ops),
      mapNumbers_cursorEntry]
  obtain ⟨rest, hrest⟩ : ∃ rest, payload = '\x7b' :: rest := ⟨_, hpayload.symm⟩
  have hne : encodeBase64url (String.ofList payload) ≠ "" := Wallet.Audit.encodeCursor_ne (by rw [hrest]; simp)
  have htruthy : truthy (some (encodeBase64url (String.ofList payload))) =
      some (encodeBase64url (String.ofList payload)) := by
    simp [truthy, hne]
  have hdecode : decodeBase64 replaced (encodeBase64url (String.ofList payload)) = some (String.ofList payload) := by
    rw [decodeBase64, encodeBase64url, atob_toBase64url, Option.map_some, hrest, textDecode_brace, Option.getD_some]
  have hsome : ((truthy (truthy events)).isSome || (truthy (truthy ops)).isSome) = true := by
    rw [truthy_truthy, truthy_truthy]
    revert hnone
    cases truthy events <;> cases truthy ops <;> simp
  rw [decodePageCursor, htruthy]
  simp only [Option.bind_eq_bind, Option.bind_some, hdecode, String.toList_ofList, hparse, get?_cursorEntry, hsome,
    if_true]

end Vellar.Web.History
