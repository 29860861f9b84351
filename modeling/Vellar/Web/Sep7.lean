import Vellar.Extension.Sanitization
import Vellar.Extension.State
import Vellar.Lib.PercentCoding
import Vellar.Wallet.Create

/-!
# Vellar.Web.Sep7 — payment requests

`apps/web/lib/sep7.ts` and the token registry of `apps/web/lib/assets.ts`, over texts as the browser has them.  The
address checks and the networks' tokens are those of the SDKs.
-/

set_option autoImplicit false

namespace Vellar.Web.Sep7

open WebText (Text text unit lowerUnit)
open PercentCoding (encodeURIComponent decodeURIComponent)
open Utf16 (encodeUtf8)
open Extension (Network)
open Extension.Sanitization (isJsSpace trim)
open Wallet.Create (base64Bytes)

/-! ## The packages -/

structure NetworkConfig where
  nativeTokenContractId : Text
  usdcIssuer : Text
  usdcContractId : Text

/-- `StrKey` and the networks' tokens.  An account and a contract have 56 characters and a muxed account has 69, and
the issuer is an account. -/
structure Sdk where
  isValidEd25519PublicKey : Text → Bool
  isValidContract : Text → Bool
  isValidMed25519PublicKey : Text → Bool
  config : Network → NetworkConfig
  length_account : ∀ t, isValidEd25519PublicKey t = true → t.length = 56
  length_contract : ∀ t, isValidContract t = true → t.length = 56
  length_muxed : ∀ t, isValidMed25519PublicKey t = true → t.length = 69
  issuer_account : ∀ network, isValidEd25519PublicKey (config network).usdcIssuer = true

/-! ## The token registry -/

structure RegisteredAsset where
  id : Text
  name : Text
  code : Text
  issuer : Option Text
  symbol : Text
  contractId : Text
  decimals : ℕ
deriving DecidableEq

def STELLAR_DECIMALS : ℕ := 7

def nativeOf (config : NetworkConfig) : RegisteredAsset :=
  ⟨text "native", text "Stellar Lumens", text "XLM", none, text "XLM", config.nativeTokenContractId, STELLAR_DECIMALS⟩

def usdcOf (config : NetworkConfig) : RegisteredAsset :=
  ⟨text "USDC:" ++ config.usdcIssuer, text "USD Coin", text "USDC", some config.usdcIssuer, text "USDC",
    config.usdcContractId, STELLAR_DECIMALS⟩

def registryFor (config : NetworkConfig) : List RegisteredAsset := [nativeOf config, usdcOf config]

section Model

variable (sdk : Sdk)

def assetsFor (network : Network) : List RegisteredAsset := registryFor (sdk.config network)

def nativeAsset (network : Network) : RegisteredAsset := nativeOf (sdk.config network)

def findClassicAsset (network : Network) (code issuer : Text) : Option RegisteredAsset :=
  (assetsFor sdk network).find? fun a => a.code = code && a.issuer = some issuer

/-! ## Requests and errors -/

def SEP7_SCHEME : Text := text "web+stellar:"

def MAX_URI_LENGTH : ℕ := 2048

def MAX_MSG_LENGTH : ℕ := 300

def MAX_MEMO_TEXT_BYTES : ℕ := 28

def PAY_PARAMS : List Text :=
  [text "destination", text "amount", text "asset_code", text "asset_issuer", text "memo", text "memo_type",
    text "callback", text "msg", text "network_passphrase", text "origin_domain", text "signature"]

inductive Sep7ErrorCode where
  | not_a_string
  | too_long
  | bad_scheme
  | unsupported_operation
  | malformed
  | duplicate_param
  | unknown_param
  | missing_destination
  | invalid_destination
  | unsupported_destination
  | invalid_amount
  | invalid_asset
  | unregistered_asset
  | memo_unsupported
  | callback_unsupported
  | wrong_network
  | unsafe_text
  | invalid_origin
deriving DecidableEq

/-- `Sep7Error`, or the result of a parse that failed. -/
structure Sep7Error where
  code : Sep7ErrorCode
  error : Text
deriving DecidableEq

inductive DestinationKind where
  | account
  | contract
deriving DecidableEq

structure Sep7PayRequest where
  destination : Text
  destinationKind : DestinationKind
  amount : Option Text
  asset : RegisteredAsset
  msg : Option Text
  originDomain : Option Text
  signature : Option Text
  uri : Text
deriving DecidableEq

structure Sep7Context where
  network : Network
  networkPassphrase : Text

def failure {α : Type} (code : Sep7ErrorCode) (error : String) : Except Sep7Error α := .error ⟨code, text error⟩

/-! ## Checks -/

def isDigit (c : UInt16) : Bool := decide (48 ≤ c.toNat ∧ c.toNat ≤ 57)

/-- `[1-9]` -/
def isNonZero (c : UInt16) : Bool := decide (49 ≤ c.toNat ∧ c.toNat ≤ 57)

/-- `(?:\.\d{1,7})?$` -/
def isFraction : Text → Bool
  | [] => true
  | c :: places => decide (c = unit '.') && places.all isDigit && decide (1 ≤ places.length ∧ places.length ≤ 7)

/-- `AMOUNT_PATTERN` -/
def matchesAmount (amount : Text) : Bool :=
  (decide (amount.takeWhile isDigit = text "0") ||
      (amount.takeWhile isDigit).head?.any isNonZero && decide ((amount.takeWhile isDigit).length ≤ 12)) &&
    isFraction (amount.dropWhile isDigit)

def isValidAmount (amount : Text) : Bool := matchesAmount amount && amount.any isNonZero

/-- `UNSAFE_TEXT` -/
def isUnsafe (c : UInt16) : Bool :=
  decide (c.toNat ≤ 0x1f ∨ 0x7f ≤ c.toNat ∧ c.toNat ≤ 0x9f ∨ 0x200b ≤ c.toNat ∧ c.toNat ≤ 0x200f ∨
    0x202a ≤ c.toNat ∧ c.toNat ≤ 0x202e ∨ 0x2066 ≤ c.toNat ∧ c.toNat ≤ 0x2069 ∨ c.toNat = 0xfeff)

/-- `[A-Za-z0-9]` -/
def isAlphanumeric (c : UInt16) : Bool :=
  decide (48 ≤ c.toNat ∧ c.toNat ≤ 57 ∨ 65 ≤ c.toNat ∧ c.toNat ≤ 90 ∨ 97 ≤ c.toNat ∧ c.toNat ≤ 122)

def isAssetCode (code : Text) : Bool := code.all isAlphanumeric && decide (1 ≤ code.length ∧ code.length ≤ 12)

def isLower (c : UInt16) : Bool := decide (97 ≤ c.toNat ∧ c.toNat ≤ 122)

/-- `(?!-)[a-z0-9-]{1,63}(?<!-)` -/
def isLabel (label : Text) : Bool :=
  label.all (fun c => isLower c || isDigit c || decide (c = unit '-')) &&
    decide (1 ≤ label.length ∧ label.length ≤ 63 ∧ label.head? ≠ some (unit '-') ∧ label.getLast? ≠ some (unit '-'))

/-- `FQDN` -/
def isDomain (domain : Text) : Bool :=
  let labels := domain.splitOn (unit '.')
  let top := labels.getLastD []
  decide (domain.length ≤ 253 ∧ 2 ≤ labels.length) && labels.dropLast.all isLabel && top.all isLower &&
    decide (2 ≤ top.length ∧ top.length ≤ 63)

def destinationKind (address : Text) : Option DestinationKind :=
  if sdk.isValidEd25519PublicKey address then some .account
  else if sdk.isValidContract address then some .contract
  else none

/-! ## Building -/

structure BuildPayUriInput where
  destination : Text
  amount : Option Text
  asset : Option RegisteredAsset
  memo : Option Text
  msg : Option Text
  networkPassphrase : Option Text
  network : Network

/-- A field that is given is not empty. -/
def given (value : Option Text) : Option Text := value.filter (· ≠ [])

def amountError : String := "Amount must be a positive number with at most 7 decimal places."

def amountParams (amount : Option Text) : Except Sep7Error (List (Text × Text)) :=
  match given amount with
  | none => .ok []
  | some amount =>
    if isValidAmount amount then .ok [(text "amount", amount)] else failure .invalid_amount amountError

/-- An asset without an issuer is the native one. -/
def assetParams (asset : Option RegisteredAsset) : List (Text × Text) :=
  match asset with
  | none => []
  | some asset =>
    match given asset.issuer with
    | none => []
    | some issuer => [(text "asset_code", asset.code), (text "asset_issuer", issuer)]

def memoParams (memo : Option Text) : Except Sep7Error (List (Text × Text)) :=
  match given memo with
  | none => .ok []
  | some memo =>
    if (encodeUtf8 memo).length > MAX_MEMO_TEXT_BYTES ∨ memo.any isUnsafe then
      failure .unsafe_text "Memo must be at most 28 bytes of printable text."
    else .ok [(text "memo", memo), (text "memo_type", text "MEMO_TEXT")]

def msgParams (msg : Option Text) : Except Sep7Error (List (Text × Text)) :=
  match given msg with
  | none => .ok []
  | some msg =>
    if msg.length > MAX_MSG_LENGTH ∨ msg.any isUnsafe then
      failure .unsafe_text "Message must be at most 300 printable characters."
    else .ok [(text "msg", msg)]

def networkParams (network : Network) (networkPassphrase : Option Text) : List (Text × Text) :=
  if network = .mainnet then []
  else
    match given networkPassphrase with
    | none => []
    | some passphrase => [(text "network_passphrase", passphrase)]

/-- The fields of the request, or why there is none. -/
def payParams (input : BuildPayUriInput) : Except Sep7Error (List (Text × Text)) :=
  if (destinationKind sdk input.destination).isNone then
    failure .invalid_destination "Destination must be a G… or C… address."
  else do
    let amount ← amountParams input.amount
    let memo ← memoParams input.memo
    let msg ← msgParams input.msg
    .ok ((text "destination", input.destination) :: amount ++ assetParams input.asset ++ memo ++ msg ++
      networkParams input.network input.networkPassphrase)

/-- `key=value`; none where the value cannot be encoded. -/
def pairText (field : Text × Text) : Option Text :=
  (encodeURIComponent field.2).map fun value => field.1 ++ unit '=' :: value

inductive BuildError where
  | refused (error : Sep7Error)
  /-- `encodeURIComponent` threw. -/
  | uriError
deriving DecidableEq

def buildPayUri (input : BuildPayUriInput) : Except BuildError Text :=
  match payParams sdk input with
  | .error error => .error (.refused error)
  | .ok params =>
    match params.mapM pairText with
    | none => .error .uriError
    | some pairs => .ok (SEP7_SCHEME ++ text "pay?" ++ [unit '&'].intercalate pairs)

/-! ## Parsing -/

/-- The text after the scheme. -/
def afterScheme (uri : Text) : Except Sep7Error Text :=
  if uri.length > MAX_URI_LENGTH then failure .too_long "Payment request is too long."
  -- no letter beyond ASCII has one of the scheme's as its lower case
  else if (uri.take SEP7_SCHEME.length).map lowerUnit ≠ SEP7_SCHEME then
    failure .bad_scheme "Not a Stellar payment request (expected web+stellar:)."
  else .ok (uri.drop SEP7_SCHEME.length)

def missingDestination : String := "Payment request has no destination."

def malformed : String := "Payment request is malformed."

/-- The text after the question mark. -/
def queryOf (rest : Text) : Except Sep7Error Text :=
  let operation := rest.takeWhile fun c => c ≠ unit '?'
  let query := rest.dropWhile fun c => c ≠ unit '?'
  if operation ≠ text "pay" then
    failure .unsupported_operation (if operation = text "tx" then
      "Transaction-signing requests (web+stellar:tx) aren't supported — only payment requests."
      else "Unsupported request type — only web+stellar:pay is supported.")
  else if query.length ≤ 1 then failure .missing_destination missingDestination
  else if unit '#' ∈ query.drop 1 then failure .malformed malformed
  else .ok (query.drop 1)

/-- A plus sign stands for a space. -/
def decode (raw : Text) : Option Text := decodeURIComponent (raw.map fun c => if c = unit '+' then unit ' ' else c)

def keyOf (pair : Text) : Text := pair.takeWhile fun c => c ≠ unit '='

def valueOf (pair : Text) : Text := pair.drop ((keyOf pair).length + 1)

/-- A pair, decoded; none where it has no key or one of the two cannot be decoded. -/
def decodePair (pair : Text) : Option (Text × Text) :=
  if keyOf pair = [] ∨ keyOf pair = pair then none
  else (decode (keyOf pair)).bind fun key => (decode (valueOf pair)).map fun value => (key, value)

def readPair (params : List (Text × Text)) (pair : Text) : Except Sep7Error (List (Text × Text)) :=
  if keyOf pair = [] ∨ keyOf pair = pair then failure .malformed malformed
  else
    match decode (keyOf pair), decode (valueOf pair) with
    | some key, some value =>
      if key ∉ PAY_PARAMS then failure .unknown_param "Payment request contains an unsupported field."
      else if (params.lookup key).isSome then
        failure .duplicate_param "Payment request repeats a field, so it is ambiguous."
      else .ok (params ++ [(key, value)])
    | _, _ => failure .malformed "Payment request contains invalid encoding."

def readParams (query : Text) : Except Sep7Error (List (Text × Text)) :=
  (query.splitOn (unit '&')).foldlM readPair []

def readDestination (params : List (Text × Text)) : Except Sep7Error (Text × DestinationKind) :=
  match given (params.lookup (text "destination")) with
  | none => failure .missing_destination missingDestination
  | some destination =>
    if sdk.isValidMed25519PublicKey destination then
      failure .unsupported_destination
        "Muxed (M…) destinations aren't supported — the payment couldn't carry the account id."
    else
      match destinationKind sdk destination with
      | none => failure .invalid_destination "Destination isn't a valid Stellar address."
      | some kind => .ok (destination, kind)

def checkUnsupported (params : List (Text × Text)) : Except Sep7Error Unit :=
  if (params.lookup (text "callback")).isSome then
    failure .callback_unsupported
      "This request asks for the signed payment to be sent to a callback URL, which Vellar doesn't do."
  else if (params.lookup (text "memo")).isSome ∨ (params.lookup (text "memo_type")).isSome then
    failure .memo_unsupported
      "This request needs a memo, which Vellar payments can't include yet. Paying without it could lose the funds."
  else .ok ()

def checkNetwork (ctx : Sep7Context) (params : List (Text × Text)) : Except Sep7Error Unit :=
  match params.lookup (text "network_passphrase") with
  | some passphrase =>
    if passphrase ≠ ctx.networkPassphrase then
      failure .wrong_network "This request is for a different Stellar network."
    else .ok ()
  | none =>
    if ctx.network ≠ .mainnet then
      failure .wrong_network "This request is for the public network, not this wallet's."
    else .ok ()

def readAsset (network : Network) (params : List (Text × Text)) : Except Sep7Error RegisteredAsset :=
  match params.lookup (text "asset_code"), params.lookup (text "asset_issuer") with
  | none, none => .ok (nativeAsset sdk network)
  | some code, some issuer =>
    if sdk.isValidEd25519PublicKey issuer = false ∨ isAssetCode code = false then
      failure .invalid_asset "Requested asset is malformed."
    else
      match findClassicAsset sdk network code issuer with
      | none => .error ⟨.unregistered_asset, code ++ text " from this issuer isn't a supported asset."⟩
      | some found => .ok found
  | _, _ => failure .invalid_asset "Asset code and issuer must be given together."

def readAmount (params : List (Text × Text)) : Except Sep7Error (Option Text) :=
  match params.lookup (text "amount") with
  | none => .ok none
  | some amount => if isValidAmount amount then .ok (some amount) else failure .invalid_amount amountError

/-- The message, as it was sent. -/
def readMsg (params : List (Text × Text)) : Except Sep7Error (Option Text) :=
  match params.lookup (text "msg") with
  | none => .ok none
  | some msg =>
    if msg.length > MAX_MSG_LENGTH ∨ msg.any isUnsafe then
      failure .unsafe_text "The request's message contains unsupported characters."
    else .ok (some msg)

def checkOrigin (originDomain signature : Option Text) : Except Sep7Error Unit :=
  match originDomain with
  | some domain =>
    if isDomain domain = false then failure .invalid_origin "The request names an invalid origin domain."
    else if given signature = none then failure .invalid_origin "The request claims an origin but isn't signed."
    else .ok ()
  | none =>
    if signature.isSome then failure .invalid_origin "The request is signed but names no origin domain." else .ok ()

/-- The request of the fields. -/
def readRequest (ctx : Sep7Context) (uri : Text) (params : List (Text × Text)) : Except Sep7Error Sep7PayRequest := do
  let (destination, kind) ← readDestination sdk params
  checkUnsupported params
  checkNetwork ctx params
  let asset ← readAsset sdk ctx.network params
  let amount ← readAmount params
  let msg ← readMsg params
  let originDomain := params.lookup (text "origin_domain")
  let signature := params.lookup (text "signature")
  checkOrigin originDomain signature
  .ok ⟨destination, kind, amount, asset, given msg, originDomain, signature, uri⟩

/-- `parsePayUri`; an input that is not a string is none. -/
def parsePayUri (input : Option Text) (ctx : Sep7Context) : Except Sep7Error Sep7PayRequest :=
  match input with
  | none => failure .not_a_string "Payment request must be text."
  | some input => do
    let rest ← afterScheme (trim input)
    let query ← queryOf rest
    let params ← readParams query
    readRequest sdk ctx (trim input) params

end Model

end Vellar.Web.Sep7
