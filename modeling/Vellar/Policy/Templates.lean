import Vellar.Lib.Json
import Vellar.Worker.Artifact

/-!
# Vellar.Policy.Templates — policy templates, validation, generation

`services/policy-service/src/templates.ts`: the pinned artifacts, the schema of every template, `validateDefinition`,
and `generatePolicy` with the constructor arguments it derives.  A definition is the JSON value of the request; what
is read off an accepted one is in `Vellar.Policy.Deployable`.
-/

set_option autoImplicit false

namespace Vellar.Policy

open Hex Sha256 Wasm Worker Schema

/-! ## Pins and bounds -/

def SPENDING_POLICY_WASM_HASH : String := "c42ab9b52c977a3ba29ca3e848dda499e91180e0c01de86a7e21e241989fcbdf"

def VERIFIED_RECIPIENT_WASM_HASH : String := "ef07b922670bab0f2c15c48bc96a3af0d858250c785536dde3e49d6ead690def"

def TOKEN_SPENDING_POLICY_WASM_HASH : String := "7756ebbd6423a225692a529ca1294bc74e40bc7265184265dcd9bfc2e6a09c5e"

def MAX_RULE_ENTRIES : ℕ := 8

def MAX_TRUSTED_PUBLISHERS : ℕ := 16

def ATTESTATION_REGISTRY_ID : String := "CDYLXSYEE7CSPM3JTU52TODQWVUMDUZVFIDPEAVGDCBO7Q4YFKYHHR4W"

def STROOPS_PER_XLM : ℕ := 10000000

def DEFAULT_WINDOW_SECONDS : ℕ := 60 * 60 * 24

/-! ## Amounts and addresses -/

/-- `/^\d+$/` -/
def isDigits (cs : List Char) : Bool := !cs.isEmpty && cs.all isAsciiDigit

/-- `BigInt` of a string of decimal digits. -/
def bigInt (cs : List Char) : ℕ := Nat.ofDigitChars 10 cs 0

/-- `xlmToStroops`, on digits with at most one dot. -/
def xlmToStroops (xlm : String) : ℕ :=
  let parts := xlm.toList.splitOn '.'
  let whole := parts[0]?.getD ['0']
  let frac := parts[1]?.getD []
  let fracPadded := (frac ++ List.replicate 7 '0').take 7
  bigInt whole * STROOPS_PER_XLM + bigInt fracPadded

/-- `/^\d+(\.\d{1,7})?$/` -/
def isXlmAmount (s : String) : Bool :=
  match s.toList.splitOn '.' with
  | [whole] => isDigits whole
  | [whole, frac] => isDigits whole && isDigits frac && decide (frac.length ≤ 7)
  | _ => false

/-- `[A-Z2-7]` -/
def isBase32 (c : Char) : Bool := ('A' ≤ c && c ≤ 'Z') || ('2' ≤ c && c ≤ '7')

/-- `/^C[A-Z2-7]{55}$/` -/
def isContractAddress (s : String) : Bool :=
  match s.toList with
  | c :: rest => c = 'C' && rest.length = 55 && rest.all isBase32
  | [] => false

/-- `/^[GC][A-Z2-7]{55}$/` -/
def isStellarAddress (s : String) : Bool :=
  match s.toList with
  | c :: rest => (c = 'G' || c = 'C') && rest.length = 55 && rest.all isBase32
  | [] => false

/-- The length of a string in UTF-16 units. -/
def jsLength (s : String) : ℕ := (s.toList.map fun c => if c.toNat < 0x10000 then 1 else 2).sum

def uniqueItems (items : List Json) : Bool := decide (strings items).Nodup

/-! ## The schemas -/

def address : Schema := string isStellarAddress

def contractAddress : Schema := string isContractAddress

/-- `baseUnits`: a whole number from 1 on that fits i128. -/
def isBaseUnits (s : String) : Bool :=
  isDigits s.toList && decide (1 ≤ bigInt s.toList) && decide (bigInt s.toList ≤ 2 ^ 127 - 1)

def baseUnits : Schema := string isBaseUnits

def isInteger (n : ℚ) : Bool := n.den = 1

def windowSeconds : Schema := number fun n => isInteger n && decide (1 ≤ n) && decide (n ≤ 31536000)

def capSchema : Schema := strictObject [("token", required contractAddress), ("amountBaseUnits", required baseUnits)]

/-- The tokens of the entries of a table. -/
def tokensOf (entries : List Json) : List Json := entries.filterMap fun e => e.get? "token"

def safetyRulesSchema : Schema := strictObject
  [("maxSingleTransfer", optional (array capSchema fun rules =>
      decide (rules.length ≤ MAX_RULE_ENTRIES) && uniqueItems (tokensOf rules))),
    ("allowedTokens", optional (array contractAddress fun tokens =>
      decide (1 ≤ tokens.length) && decide (tokens.length ≤ MAX_RULE_ENTRIES) && uniqueItems tokens))]

def tokenBudgetSchema : Schema := strictObject
  [("token", required contractAddress), ("amountBaseUnits", required baseUnits),
    ("windowSeconds", optional windowSeconds)]

def isXlm (s : String) : Bool := isXlmAmount s && decide (0 < xlmToStroops s)

/-- `positiveXlmAmount`. -/
def positiveXlmAmount : Schema := string isXlm

/-- The amount under a key of the limits. -/
def amountOf (limits : Json) (key : String) : Option String := (Json.nonNull (limits.get? key)).bind Json.str?

def spendingLimitsSchema : Schema :=
  refine
    (refine
      (strictObject [("dailyXlm", optional positiveXlmAmount), ("perTxXlm", optional positiveXlmAmount)])
      fun limits => (limits.get? "dailyXlm").isSome || (limits.get? "perTxXlm").isSome)
    fun limits =>
      match amountOf limits "dailyXlm", amountOf limits "perTxXlm" with
      | some dailyXlm, some perTxXlm => decide (xlmToStroops perTxXlm ≤ xlmToStroops dailyXlm)
      | _, _ => true

/-- The keys of every definition; the owners' own checks differ. -/
def base (type : String) (owners : List Json → Bool) : List (String × Field) :=
  [("version", required (literal "1")),
    ("schemaVersion", optional (number fun n => isInteger n && decide (1 ≤ n))),
    ("type", required (literal type)),
    ("owners", required (array address fun items => owners items && uniqueItems items))]

/-- What `base` itself asks of the owners. -/
def someOwner (items : List Json) : Bool := decide (1 ≤ items.length)

section Registry

variable (P : Platform)

/-- `publisher`, after `trim`. -/
def isPublisher (s : String) : Bool :=
  decide (1 ≤ jsLength (trim s)) && decide (jsLength (trim s) ≤ 200) && (publisherIdFor P (trim s)).isSome

def provenanceSchema : Schema :=
  union
    (strictObject [("mode", required (literal "strict"))])
    (strictObject [("mode", required (literal "trusted_publishers")),
      ("trustedPublishers", required (array (string (isPublisher P)) fun publishers =>
        decide (1 ≤ publishers.length) && decide (publishers.length ≤ MAX_TRUSTED_PUBLISHERS)))])

/-! ## Constructor arguments -/

structure CapArg where
  token : String
  amountBaseUnits : String
deriving DecidableEq

structure SafetyRulesConstructor where
  maxSingleTransfer : List CapArg
  allowedTokens : Option (List String)
deriving DecidableEq

structure SpendingConstructor where
  dailyLimitStroops : String
  windowSeconds : ℚ
  rules : Option SafetyRulesConstructor
deriving DecidableEq

structure TokenSpendingConstructor where
  token : String
  dailyLimitBaseUnits : String
  windowSeconds : ℚ
deriving DecidableEq

/-- The mode with its ids, as hexadecimal. -/
inductive ModeArg where
  | strict
  | trustedPublishers (ids : List String)
deriving DecidableEq

structure VerifiedRecipientConstructor where
  registry : String
  mode : ModeArg
deriving DecidableEq

inductive ConstructorArgs where
  | spending (args : SpendingConstructor)
  | tokenSpending (args : TokenSpendingConstructor)
  | verifiedRecipient (args : VerifiedRecipientConstructor)
deriving DecidableEq

inductive Enforcement where
  | policyContract (wasmHash : String) (constructorArgs : Option ConstructorArgs)
  | signerLimits
  | none
  | customContractPending
deriving DecidableEq

/-! ## The registry of templates -/

structure PolicyTemplate where
  type : String
  schemaVersion : ℕ
  schema : Schema
  enforcement : Enforcement

def singleOwner : PolicyTemplate where
  type := "single_owner"
  schemaVersion := 1
  schema := strictObject (base "single_owner" fun items => items.length = 1)
  enforcement := .none

def multisigThreshold : PolicyTemplate where
  type := "multisig_threshold"
  schemaVersion := 1
  schema := refine
    (strictObject (base "multisig_threshold" (fun items => decide (2 ≤ items.length)) ++
      [("threshold", required (number fun n => isInteger n && decide (2 ≤ n)))]))
    fun v =>
      match (v.get? "threshold").bind Json.num?, (v.get? "owners").bind Json.items? with
      | some threshold, some owners => decide (threshold ≤ owners.length)
      | _, _ => false
  enforcement := .signerLimits

def spendingLimit : PolicyTemplate where
  type := "spending_limit"
  schemaVersion := 1
  schema := strictObject (base "spending_limit" someOwner ++
    [("spendingLimits", required spendingLimitsSchema), ("safetyRules", optional safetyRulesSchema)])
  enforcement := .policyContract SPENDING_POLICY_WASM_HASH none

def tokenSpendingLimit : PolicyTemplate where
  type := "token_spending_limit"
  schemaVersion := 1
  schema := strictObject (base "token_spending_limit" someOwner ++ [("tokenBudget", required tokenBudgetSchema)])
  enforcement := .policyContract TOKEN_SPENDING_POLICY_WASM_HASH none

def contractAllowlist : PolicyTemplate where
  type := "contract_allowlist"
  schemaVersion := 1
  schema := strictObject (base "contract_allowlist" someOwner ++
    [("allowlistedContracts", required (array contractAddress fun items =>
      decide (1 ≤ items.length) && uniqueItems items))])
  enforcement := .signerLimits

def verifiedOnly : PolicyTemplate where
  type := "verified_only"
  schemaVersion := 1
  schema := strictObject (base "verified_only" someOwner ++ [("provenance", optional (provenanceSchema P))])
  enforcement := .policyContract VERIFIED_RECIPIENT_WASM_HASH none

def timelock : PolicyTemplate where
  type := "timelock"
  schemaVersion := 1
  schema := strictObject (base "timelock" someOwner ++
    [("timelocks", required (strictObject [("adminActionDelaySeconds", required (number fun n =>
      isInteger n && decide (1 ≤ n) && decide (n ≤ 31536000)))]))])
  enforcement := .customContractPending

def templates : List PolicyTemplate :=
  [singleOwner, multisigThreshold, spendingLimit, tokenSpendingLimit, contractAllowlist, verifiedOnly P, timelock]

/-- `getTemplate`: the version asked for, or the highest. -/
def getTemplate (type : String) (schemaVersion : Option ℚ) : Option PolicyTemplate :=
  match schemaVersion with
  | some version => (templates P).find? fun t => t.type = type && (t.schemaVersion : ℚ) = version
  | none =>
    (((templates P).filter fun t => t.type = type).insertionSort fun a b => b.schemaVersion ≤ a.schemaVersion).head?

/-- The `valid` of `validateDefinition`. -/
def validateDefinition (definition : Json) (schemaVersionOverride : Option ℚ) : Bool :=
  match truthy ((definition.get? "type").bind Json.str?) with
  | none => false
  | some type =>
    let requestedVersion := schemaVersionOverride.or ((definition.get? "schemaVersion").bind Json.num?)
    match getTemplate P type requestedVersion with
    | none => false
    | some template => template.schema definition

/-! ## Generation -/

/-- `deriveSafetyRules`. -/
def deriveSafetyRules (definition : Json) : Option SafetyRulesConstructor :=
  match Json.nonNull (definition.get? "safetyRules") with
  | none => none
  | some rules =>
    let caps := (Json.nonNull (rules.get? "maxSingleTransfer")).bind Json.items?
    let tokens := (Json.nonNull (rules.get? "allowedTokens")).bind Json.items?
    if (caps.getD []).isEmpty && tokens.isNone then none
    else some
      { maxSingleTransfer := (caps.getD []).map fun cap =>
          ⟨(amountOf cap "token").getD "", (amountOf cap "amountBaseUnits").getD ""⟩
        allowedTokens := tokens.map strings }

/-- `deriveSpendingConstructor`. -/
def deriveSpendingConstructor (definition : Json) : Except String SpendingConstructor :=
  let limits := (Json.nonNull (definition.get? "spendingLimits")).getD .null
  match truthy ((amountOf limits "dailyXlm").or (amountOf limits "perTxXlm")) with
  | none => .error "spending_limit policy has no dailyXlm or perTxXlm"
  | some capXlm => .ok
    { dailyLimitStroops := (xlmToStroops capXlm).repr
      windowSeconds := DEFAULT_WINDOW_SECONDS
      rules := deriveSafetyRules definition }

/-- `deriveTokenSpendingConstructor`. -/
def deriveTokenSpendingConstructor (definition : Json) : Except String TokenSpendingConstructor :=
  match Json.nonNull (definition.get? "tokenBudget") with
  | none => .error "token_spending_limit policy has no tokenBudget"
  | some budget => .ok
    { token := (amountOf budget "token").getD ""
      dailyLimitBaseUnits := (amountOf budget "amountBaseUnits").getD ""
      windowSeconds := ((Json.nonNull (budget.get? "windowSeconds")).bind Json.num?).getD DEFAULT_WINDOW_SECONDS }

/-- The ids of the publishers, in order. -/
def publisherIds : List String → Except String (List String)
  | [] => .ok []
  | p :: rest =>
    match publisherIdFor P p with
    | none => .error ("unattributable publisher: " ++ p)
    | some id => (publisherIds rest).map (id :: ·)

/-- `[...new Set(ids)]`: the first of each. -/
def distinct (ids : List String) : List String := ids.reverse.dedup.reverse

/-- `deriveVerifiedRecipientConstructor`. -/
def deriveVerifiedRecipientConstructor (definition : Json) : Except String VerifiedRecipientConstructor :=
  let provenance := (Json.nonNull (definition.get? "provenance")).getD (.obj [("mode", .str "strict")])
  if amountOf provenance "mode" = some "trusted_publishers" then
    let publishers := strings (((Json.nonNull (provenance.get? "trustedPublishers")).bind Json.items?).getD [])
    (publisherIds P publishers).map fun ids => ⟨ATTESTATION_REGISTRY_ID, .trustedPublishers (distinct ids)⟩
  else .ok ⟨ATTESTATION_REGISTRY_ID, .strict⟩

/-- The enforcement with the arguments derived from the definition, for the types that have a contract. -/
def enforce (definition : Json) (type : String) (enforcement : Enforcement) : Except String Enforcement :=
  match enforcement with
  | .policyContract wasmHash args =>
    if type = "spending_limit" then
      (deriveSpendingConstructor definition).map fun a => .policyContract wasmHash (some (.spending a))
    else if type = "token_spending_limit" then
      (deriveTokenSpendingConstructor definition).map fun a => .policyContract wasmHash (some (.tokenSpending a))
    else if type = "verified_only" then
      (deriveVerifiedRecipientConstructor P definition).map fun a =>
        .policyContract wasmHash (some (.verifiedRecipient a))
    else .ok (.policyContract wasmHash args)
  | other => .ok other

inductive Network where
  | testnet
  | mainnet
deriving DecidableEq, Repr

structure Manifest where
  template : String
  schemaVersion : ℕ
  enforcement : Enforcement
  network : Network

structure GeneratedPolicy where
  definition : Json
  policyHash : String
  schemaVersion : ℕ
  manifest : Manifest

/-- The UTF-16 units of a string, by which keys are sorted. -/
def utf16 (s : String) : List ℕ :=
  s.toList.flatMap fun c =>
    if c.toNat < 0x10000 then [c.toNat] else [0xd7c0 + c.toNat / 0x400, 0xdc00 + c.toNat % 0x400]

mutual

/-- `canonicalize`; `numberText` is what `JSON.stringify` prints for a number. -/
def canonicalize (numberText : ℚ → String) : Json → String
  | .null => "null"
  | .bool b => if b then "true" else "false"
  | .num n => numberText n
  | .str s => jsonString s
  | .arr items => "[" ++ ",".intercalate (canonicalizeItems numberText items) ++ "]"
  | .obj fields =>
    let entries := (canonicalizeFields numberText fields).mergeSort fun a b => decide (utf16 a.1 ≤ utf16 b.1)
    "\x7b" ++ ",".intercalate (entries.map fun e => jsonString e.1 ++ ":" ++ e.2) ++ "\x7d"

def canonicalizeItems (numberText : ℚ → String) : List Json → List String
  | [] => []
  | item :: rest => canonicalize numberText item :: canonicalizeItems numberText rest

def canonicalizeFields (numberText : ℚ → String) : List (String × Json) → List (String × String)
  | [] => []
  | (key, value) :: rest => (key, canonicalize numberText value) :: canonicalizeFields numberText rest

end

def policyHash (numberText : ℚ → String) (definition : Json) : String :=
  hexOf (sha256 (utf8Bytes (canonicalize numberText definition)))

/-- `generatePolicy`. -/
def generatePolicy (numberText : ℚ → String) (definition : Json) (network : Network) : Except String GeneratedPolicy :=
  let type := ((definition.get? "type").bind Json.str?).getD ""
  let schemaVersion := (Json.nonNull (definition.get? "schemaVersion")).bind Json.num?
  match getTemplate P type (some (schemaVersion.getD 1)) with
  | none =>
    .error ("unknown policy type: " ++ type ++
      (schemaVersion.map fun v => " (schemaVersion: " ++ numberText v ++ ")").getD "")
  | some template =>
    (enforce P definition type template.enforcement).map fun enforcement =>
      let defWithVersion := definition.set "schemaVersion" (.num template.schemaVersion)
      { definition := defWithVersion
        policyHash := policyHash numberText defWithVersion
        schemaVersion := template.schemaVersion
        manifest := ⟨template.type, template.schemaVersion, enforcement, network⟩ }

end Registry

end Vellar.Policy
