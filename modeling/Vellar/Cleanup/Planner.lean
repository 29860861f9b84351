import Vellar.Lib.Decimal

/-!
# Vellar.Cleanup.Planner — the cleanup plan

`services/lifecycle-service/src/planner.ts`: the preflight check of the fees, the blockers, and the estimate of the
transactions, from what `horizon.ts` read of the account.  Floating-point arithmetic on texts is a parameter.
-/

set_option autoImplicit false

namespace Vellar.Cleanup

/-! ## What Horizon told -/

structure HorizonBalance where
  assetType : String
  assetCode : Option String
  assetIssuer : Option String
  balance : String

structure HorizonOffer where
  id : String
  sellingAssetType : String
  sellingAssetCode : Option String
  sellingAssetIssuer : Option String
  buyingAssetType : String
  buyingAssetCode : Option String
  buyingAssetIssuer : Option String
  price : String

structure HorizonAccount where
  accountId : String
  /-- The number the text denotes. -/
  sequence : ℤ
  subentryCount : Option ℕ
  balances : List HorizonBalance
  dataKeys : List String
  offers : List HorizonOffer
  openOffers : ℕ
  paginationIncomplete : Bool

/-- Horizon writes amounts and prices with seven places. -/
def amountText (stroops : ℕ) : String := Decimal.text 7 stroops

/-- What the planner and the builder do with numbers. -/
structure JsNumbers where
  /-- `Number(text) > 0` -/
  isPositive : String → Bool
  isPositive_amount : ∀ n, isPositive (amountText n) = decide (0 < n)
  /-- `BigInt(Math.round(Number(text) * 10_000_000))` -/
  stroops : String → ℤ
  /-- `(Number(n) / 10_000_000).toFixed(7)` -/
  xlm : ℤ → String

/-- A balance that is not native. -/
def HorizonBalance.isIssued (b : HorizonBalance) : Bool := b.assetType ≠ "native"

def HorizonAccount.issued (account : HorizonAccount) : List HorizonBalance := account.balances.filter (·.isIssued)

/-! ## The plan -/

inductive BlockerType where
  | trustline
  | offer
  | data
  | balance
deriving DecidableEq, Repr

structure Blocker where
  type : BlockerType
  description : String
  actionRequired : String
deriving DecidableEq

structure CleanupPlan where
  accountId : String
  destination : String
  blockers : List Blocker
  estimatedTransactions : ℕ
  mergeReady : Bool

structure InsufficientSpendableBalance where
  message : String
  spendableBalanceXlm : String
  requiredFeeXlm : String
  spendableBalanceStroops : ℤ
  requiredFeeStroops : ℤ
  accountId : String
  destination : String

inductive CleanupPlanResult where
  | plan (p : CleanupPlan)
  | insufficient (r : InsufficientSpendableBalance)

def BASE_RESERVE_STROOPS : ℤ := 5000000

def BASE_FEE_STROOPS : ℤ := 100

def OPS_PER_TX : ℕ := 100

section Plan

variable (numbers : JsNumbers) (account : HorizonAccount)

def nativeStroops : ℤ :=
  match account.balances.find? (fun b => b.assetType = "native") with
  | some native => numbers.stroops native.balance
  | none => 0

def reserveStroops : ℤ :=
  ((2 + account.subentryCount.getD (account.issued.length + account.openOffers + account.dataKeys.length) : ℕ) : ℤ) *
    BASE_RESERVE_STROOPS

def calculateSpendableBalanceStroops : ℤ :=
  if nativeStroops numbers account > reserveStroops account then nativeStroops numbers account - reserveStroops account
  else 0

/-- The operations of a balance: a payment when there is something to pay, and the removal of the trustline. -/
def balanceOps (b : HorizonBalance) : ℕ := if numbers.isPositive b.balance then 2 else 1

/-- `cleanupOps`, of the fee and of the estimate. -/
def cleanupOps : ℕ :=
  (account.issued.map (balanceOps numbers)).sum + account.openOffers + account.dataKeys.length

def calculateRequiredFeeStroops : ℤ := ((max 1 (cleanupOps numbers account) : ℕ) : ℤ) * BASE_FEE_STROOPS

/-- `${assetCode ?? "?"}:${assetIssuer ?? "?"}` -/
def HorizonBalance.asset (b : HorizonBalance) : String := b.assetCode.getD "?" ++ ":" ++ b.assetIssuer.getD "?"

def HorizonBalance.blockers (b : HorizonBalance) : List Blocker :=
  (if numbers.isPositive b.balance then
    [⟨.balance, "Holds " ++ b.balance ++ " " ++ b.assetCode.getD b.asset,
      "Transfer or burn the " ++ b.assetCode.getD b.asset ++ " balance before removing its trustline"⟩]
  else []) ++
  [⟨.trustline, "Trustline to " ++ b.asset,
    "Remove the " ++ b.assetCode.getD b.asset ++ " trustline (requires zero balance)"⟩]

def offerBlockers : List Blocker :=
  if account.openOffers > 0 then
    [⟨.offer, account.openOffers.repr ++ " open DEX offer(s)", "Cancel all open offers"⟩]
  else []

def dataBlocker (key : String) : Blocker :=
  ⟨.data, "Managed data entry \"" ++ key ++ "\"", "Delete the \"" ++ key ++ "\" data entry"⟩

def blockers : List Blocker :=
  account.issued.flatMap (HorizonBalance.blockers numbers) ++ offerBlockers account ++ account.dataKeys.map dataBlocker

/-- `Math.ceil(n / OPS_PER_TX)` -/
def transactionCount (n : ℕ) : ℕ := (n + (OPS_PER_TX - 1)) / OPS_PER_TX

def estimatedTransactions : ℕ := max 1 (transactionCount (cleanupOps numbers account) + 1)

def paginationError : String :=
  "Cannot build cleanup plan: account trustline pagination is incomplete or was cut short by an error"

def buildCleanupPlan (destination : String) : Except String CleanupPlanResult :=
  if account.paginationIncomplete then .error paginationError
  else
    let spendable := calculateSpendableBalanceStroops numbers account
    let required := calculateRequiredFeeStroops numbers account
    if spendable < required then
      .ok (.insufficient
        { message := "Account cannot self-fund its own cleanup: spendable balance (" ++ numbers.xlm spendable ++
            " XLM) is less than the required fee (" ++ numbers.xlm required ++ " XLM)"
          spendableBalanceXlm := numbers.xlm spendable
          requiredFeeXlm := numbers.xlm required
          spendableBalanceStroops := spendable
          requiredFeeStroops := required
          accountId := account.accountId
          destination := destination })
    else
      let blockers := blockers numbers account
      .ok (.plan
        { accountId := account.accountId
          destination := destination
          blockers := blockers
          estimatedTransactions := if blockers.length = 0 then 1 else estimatedTransactions numbers account
          mergeReady := decide (blockers.length = 0) })

end Plan

/-! ## The counts -/

section Counts

variable {numbers : JsNumbers} {account : HorizonAccount} {destination : String} {plan : CleanupPlan}

theorem cleanupOps_eq_zero_iff :
    cleanupOps numbers account = 0 ↔ account.issued = [] ∧ account.openOffers = 0 ∧ account.dataKeys = [] := by
  unfold cleanupOps
  constructor
  · intro h
    have hsum : (account.issued.map (balanceOps numbers)).sum = 0 := by omega
    have hnone : account.issued = [] := by
      rw [List.eq_nil_iff_forall_not_mem]
      intro b hb
      have hle := List.single_le_sum (fun x _ => Nat.zero_le x) _ (List.mem_map_of_mem (f := balanceOps numbers) hb)
      have hpos : 1 ≤ balanceOps numbers b := by
        unfold balanceOps
        split <;> omega
      omega
    exact ⟨hnone, by omega, List.length_eq_zero_iff.mp (by omega)⟩
  · rintro ⟨hissued, hoffers, hdata⟩
    rw [hissued, hoffers, hdata]
    rfl

/-- Nothing blocks exactly when there is nothing to do. -/
theorem blockers_eq_nil_iff : blockers numbers account = [] ↔ cleanupOps numbers account = 0 := by
  rw [cleanupOps_eq_zero_iff]
  unfold blockers offerBlockers
  rw [List.append_eq_nil_iff, List.append_eq_nil_iff, List.map_eq_nil_iff]
  constructor
  · rintro ⟨⟨hissued, hoffers⟩, hdata⟩
    have hnone : account.issued = [] := by
      rw [List.eq_nil_iff_forall_not_mem]
      intro b hb
      have hblockers := List.flatMap_eq_nil_iff.mp hissued b hb
      exact absurd hblockers (by simp [HorizonBalance.blockers])
    have hzero : account.openOffers = 0 := by
      by_contra h
      rw [if_pos (Nat.pos_of_ne_zero h)] at hoffers
      cases hoffers
    exact ⟨hnone, hzero, hdata⟩
  · rintro ⟨hnone, hzero, hdata⟩
    rw [hnone, hzero, hdata]
    exact ⟨⟨rfl, rfl⟩, rfl⟩

/-- A plan is made of an account that can pay the fees. -/
theorem plan_of_funded (hread : account.paginationIncomplete = false)
    (hfunded : calculateRequiredFeeStroops numbers account ≤ calculateSpendableBalanceStroops numbers account) :
    ∃ plan, buildCleanupPlan numbers account destination = .ok (.plan plan) := by
  unfold buildCleanupPlan
  rw [if_neg (by rw [hread]; decide)]
  dsimp only
  rw [if_neg (not_lt.mpr hfunded)]
  exact ⟨_, rfl⟩

/-- **The plan counts the transactions**: those of the operations, and the merge. -/
theorem plan_counts (h : buildCleanupPlan numbers account destination = .ok (.plan plan)) :
    plan.blockers = blockers numbers account ∧
      plan.estimatedTransactions = transactionCount (cleanupOps numbers account) + 1 ∧
      (plan.mergeReady = true ↔ cleanupOps numbers account = 0) := by
  unfold buildCleanupPlan at h
  split at h
  · cases h
  · dsimp only at h
    split at h
    · cases h
    · obtain rfl := CleanupPlanResult.plan.inj (Except.ok.inj h)
      refine ⟨rfl, ?_, ?_⟩
      · dsimp only
        by_cases hnone : blockers numbers account = []
        · rw [if_pos (List.length_eq_zero_iff.mpr hnone), blockers_eq_nil_iff.mp hnone]
          rfl
        · rw [if_neg (mt List.length_eq_zero_iff.mp hnone), estimatedTransactions]
          omega
      · dsimp only
        rw [decide_eq_true_iff, List.length_eq_zero_iff, blockers_eq_nil_iff]

end Counts

end Vellar.Cleanup
