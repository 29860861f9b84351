import Vellar.Cleanup.ClassicLedger
import Vellar.Cleanup.Planner
import Vellar.Lib.Partial
import Vellar.Lib.Utf16

/-!
# Vellar.Cleanup.Builder — the cleanup transactions

`services/lifecycle-service/src/builder.ts`: the operations in the order of their dependencies, split into transactions of a
hundred operations with consecutive sequence numbers.  The SDK's builders of operations are a parameter; a step's
`xdr` and `hash` are the SDK's encodings of its transaction.
-/

set_option autoImplicit false

namespace Vellar.Cleanup

open Partial

/-! ## The SDK -/

/-- A code of an issued asset. -/
def IsAssetCode (code : String) : Prop :=
  1 ≤ code.length ∧ code.length ≤ 12 ∧ code.toList.all (·.isAlphanum) = true

/-- The text of an offer's number, a signed 64-bit integer. -/
def IsOfferId (id : String) : Prop := ∃ n : ℕ, n < 2 ^ 63 ∧ id = n.repr

/-- The length of a name as the SDK takes it, in UTF-16 units. -/
def nameLength (name : String) : ℕ := (name.toList.flatMap fun c => Utf16.units c.toNat).length

/-- What the builder uses of the Stellar SDK; none where a call throws. -/
structure ClassicSdk where
  /-- `StrKey.isValidEd25519PublicKey` -/
  isAccountId : String → Bool
  isAccountId_empty : isAccountId "" = false
  newAsset : String → String → Option Credit
  newAsset_ok : ∀ {code issuer}, IsAssetCode code → isAccountId issuer = true → newAsset code issuer = some ⟨code, issuer⟩
  /-- `Operation.manageSellOffer`, by its amount, price and offer id. -/
  manageSellOffer : (selling buying : Asset) → (amount price offerId : String) → Option ClassicOp
  /-- Prices are positive, and at most the largest 32-bit integer. -/
  manageSellOffer_ok : ∀ selling buying {offerId price}, IsOfferId offerId → 0 < price → price ≤ 2147483647 * 10 ^ 7 →
    manageSellOffer selling buying "0" (amountText price) offerId = some (.manageSellOffer selling buying offerId)
  /-- No fraction approximates a price of zero. -/
  manageSellOffer_zero : ∀ selling buying amount offerId, manageSellOffer selling buying amount (amountText 0) offerId = none
  payment : (destination : String) → Credit → (amount : String) → Option ClassicOp
  /-- Amounts are positive 64-bit integers of stroops. -/
  payment_ok : ∀ {destination} asset {amount}, isAccountId destination = true → 0 < amount → amount < 2 ^ 63 →
    payment destination asset (amountText amount) = some (.payment destination asset amount)
  changeTrust : Credit → (limit : String) → Option ClassicOp
  changeTrust_zero : ∀ asset, changeTrust asset "0" = some (.changeTrust asset)
  manageData : String → Option ClassicOp
  manageData_ok : ∀ {name}, nameLength name ≤ 64 → manageData name = some (.manageData name)

/-! ## The operations -/

/-- An operation, and the action it performs. -/
structure CleanupOp where
  op : ClassicOp
  action : String

structure CleanupStep where
  title : String
  description : String
  tx : Transaction

def BASE_FEE : ℕ := 100

section Build

variable (sdk : ClassicSdk) (numbers : JsNumbers) (account : HorizonAccount) (destination : String)

/-- `toAsset`; a code or an issuer that is empty is missing. -/
def toAsset (code issuer : Option String) : Option Credit := do
  let code ← code.filter (· ≠ "")
  let issuer ← issuer.filter (· ≠ "")
  sdk.newAsset code issuer

/-- An asset of an offer. -/
def offerAsset (assetType : String) (code issuer : Option String) : Option Asset :=
  if assetType = "native" then some .native else (toAsset sdk code issuer).map .credit

def cancelOffer (offer : HorizonOffer) : Option CleanupOp := do
  let selling ← offerAsset sdk offer.sellingAssetType offer.sellingAssetCode offer.sellingAssetIssuer
  let buying ← offerAsset sdk offer.buyingAssetType offer.buyingAssetCode offer.buyingAssetIssuer
  let op ← sdk.manageSellOffer selling buying "0" offer.price offer.id
  some ⟨op, "cancel offer #" ++ offer.id⟩

/-- The payment of a balance, when there is something to pay. -/
def payBalance (asset : Credit) (balance : String) : Option (List CleanupOp) :=
  if numbers.isPositive balance then
    (sdk.payment destination asset balance).map fun op =>
      [⟨op, "send " ++ balance ++ " " ++ asset.code ++ " to the destination"⟩]
  else some []

/-- The payment, and the removal of the trustline. -/
def clearBalance (balance : HorizonBalance) : Option (List CleanupOp) := do
  let asset ← toAsset sdk balance.assetCode balance.assetIssuer
  let paid ← payBalance sdk numbers destination asset balance.balance
  let op ← sdk.changeTrust asset "0"
  some (paid ++ [⟨op, "remove the " ++ asset.code ++ " trustline"⟩])

def deleteEntry (key : String) : Option CleanupOp :=
  (sdk.manageData key).map fun op => ⟨op, "delete data entry \"" ++ key ++ "\""⟩

/-- `collectCleanupOps`: offers, balances, data entries. -/
def collectCleanupOps : Option (List CleanupOp) := do
  let cancels ← account.offers.mapM (cancelOffer sdk)
  let cleared ← account.issued.mapM (clearBalance sdk numbers destination)
  let deletes ← account.dataKeys.mapM (deleteEntry sdk)
  some (cancels ++ cleared.flatten ++ deletes)

/-! ## The steps -/

def stepTitle (part chunkCount : ℕ) : String :=
  if chunkCount = 1 then "Clean up the account"
  else "Clean up the account (" ++ part.repr ++ "/" ++ chunkCount.repr ++ ")"

def stepDescription (part chunkCount : ℕ) (actions : String) : String :=
  (if chunkCount = 1 then "One transaction that will: " ++ actions ++ "."
  else "Transaction " ++ part.repr ++ " of " ++ chunkCount.repr ++ " — sign and submit in order. This one will: " ++
    actions ++ ".") ++ " Note: the destination must trust any asset being sent to it."

/-- `cleanupOps.slice(start, start + OPS_PER_TX)` -/
def chunkOf (ops : List CleanupOp) (k : ℕ) : List CleanupOp := (ops.drop (k * OPS_PER_TX)).take OPS_PER_TX

/-- The step of a chunk; `build` takes the next sequence number. -/
def cleanupStep (ops : List CleanupOp) (chunkCount k : ℕ) : CleanupStep where
  title := stepTitle (k + 1) chunkCount
  description := stepDescription (k + 1) chunkCount ("; ".intercalate ((chunkOf ops k).map (·.action)))
  tx :=
    { source := account.accountId
      sequence := account.sequence + k + 1
      fee := BASE_FEE * (chunkOf ops k).length
      operations := (chunkOf ops k).map (·.op) }

def stepsOf (ops : List CleanupOp) : List CleanupStep :=
  (List.range (transactionCount ops.length)).map (cleanupStep account ops (transactionCount ops.length))

def buildCleanupSteps : Option (List CleanupStep) :=
  (collectCleanupOps sdk numbers account destination).map (stepsOf account)

end Build

/-! ## The counts -/

section Counts

variable {sdk : ClassicSdk} {numbers : JsNumbers} {account : HorizonAccount} {destination : String}

theorem length_payBalance {asset : Credit} {balance : String} {paid : List CleanupOp}
    (h : payBalance sdk numbers destination asset balance = some paid) :
    paid.length = if numbers.isPositive balance then 1 else 0 := by
  unfold payBalance at h
  by_cases hpositive : numbers.isPositive balance = true
  · rw [if_pos hpositive] at h ⊢
    obtain ⟨op, -, rfl⟩ := Option.map_eq_some_iff.mp h
    rfl
  · rw [if_neg hpositive] at h ⊢
    obtain rfl := Option.some.inj h
    rfl

theorem clearBalance_some {balance : HorizonBalance} {ops : List CleanupOp}
    (h : clearBalance sdk numbers destination balance = some ops) :
    ∃ asset paid op, toAsset sdk balance.assetCode balance.assetIssuer = some asset ∧
      payBalance sdk numbers destination asset balance.balance = some paid ∧ sdk.changeTrust asset "0" = some op ∧
      ops = paid ++ [⟨op, "remove the " ++ asset.code ++ " trustline"⟩] := by
  obtain ⟨asset, hasset, h⟩ := Option.bind_eq_some_iff.mp h
  obtain ⟨paid, hpaid, h⟩ := Option.bind_eq_some_iff.mp h
  obtain ⟨op, hop, h⟩ := Option.bind_eq_some_iff.mp h
  exact ⟨asset, paid, op, hasset, hpaid, hop, (Option.some.inj h).symm⟩

theorem length_clearBalance {balance : HorizonBalance} {ops : List CleanupOp}
    (h : clearBalance sdk numbers destination balance = some ops) : ops.length = balanceOps numbers balance := by
  obtain ⟨asset, paid, op, -, hpaid, -, rfl⟩ := clearBalance_some h
  rw [List.length_append, length_payBalance hpaid, balanceOps]
  split <;> rfl

theorem collectCleanupOps_some {ops : List CleanupOp} (h : collectCleanupOps sdk numbers account destination = some ops) :
    ∃ cancels cleared deletes, account.offers.mapM (cancelOffer sdk) = some cancels ∧
      account.issued.mapM (clearBalance sdk numbers destination) = some cleared ∧
      account.dataKeys.mapM (deleteEntry sdk) = some deletes ∧ ops = cancels ++ cleared.flatten ++ deletes := by
  obtain ⟨cancels, hcancels, h⟩ := Option.bind_eq_some_iff.mp h
  obtain ⟨cleared, hcleared, h⟩ := Option.bind_eq_some_iff.mp h
  obtain ⟨deletes, hdeletes, h⟩ := Option.bind_eq_some_iff.mp h
  exact ⟨cancels, cleared, deletes, hcancels, hcleared, hdeletes, (Option.some.inj h).symm⟩

/-- **The builder emits what the planner counts.** -/
theorem length_collectCleanupOps {ops : List CleanupOp} (hopen : account.openOffers = account.offers.length)
    (h : collectCleanupOps sdk numbers account destination = some ops) : ops.length = cleanupOps numbers account := by
  obtain ⟨cancels, cleared, deletes, hcancels, hcleared, hdeletes, rfl⟩ := collectCleanupOps_some h
  have hcount := length_flatten_mapM hcleared fun _ _ => length_clearBalance
  rw [List.length_append, List.length_append, hcount, ← (mapM_eq_some.mp hcancels).length_eq,
    ← (mapM_eq_some.mp hdeletes).length_eq, cleanupOps, hopen]
  omega

end Counts

/-! ## The split -/

section Split

variable {account : HorizonAccount} {ops : List CleanupOp}

theorem length_stepsOf : (stepsOf account ops).length = transactionCount ops.length := by
  unfold stepsOf
  rw [List.length_map, List.length_range]

theorem stepsOf_small {s : CleanupStep} (h : s ∈ stepsOf account ops) : s.tx.operations.length ≤ OPS_PER_TX := by
  obtain ⟨k, -, rfl⟩ := List.mem_map.mp h
  show ((chunkOf ops k).map _).length ≤ OPS_PER_TX
  rw [List.length_map]
  exact List.length_take_le _ _

theorem stepsOf_sequence {k : ℕ} {s : CleanupStep} (h : (stepsOf account ops)[k]? = some s) :
    s.tx.sequence = account.sequence + k + 1 ∧ s.tx.source = account.accountId := by
  unfold stepsOf at h
  rw [List.getElem?_map] at h
  obtain ⟨k', hk, rfl⟩ := Option.map_eq_some_iff.mp h
  obtain ⟨hlt, hk⟩ := List.getElem?_eq_some_iff.mp hk
  rw [List.getElem_range] at hk
  rw [hk]
  exact ⟨rfl, rfl⟩

/-- **The steps hold the operations in order.** -/
theorem stepsOf_operations : (stepsOf account ops).flatMap (·.tx.operations) = ops.map (·.op) := by
  have hslices := flatMap_slices OPS_PER_TX ops (transactionCount ops.length)
  have hall : ops.length ≤ transactionCount ops.length * OPS_PER_TX := by
    unfold transactionCount OPS_PER_TX
    omega
  rw [List.take_of_length_le hall] at hslices
  conv_rhs => rw [← hslices]
  unfold stepsOf
  rw [List.flatMap_map, List.map_flatMap]
  rfl

end Split

end Vellar.Cleanup
