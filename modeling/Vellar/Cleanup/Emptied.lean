import Vellar.Cleanup.Builder

/-!
# Vellar.Cleanup.Emptied — the cleanup steps empty the account

A snapshot against the account it was read from, and the cleanup steps against the ledger.  The steps empty every account
but those with a trustline to a pool share, for which no steps are built, those whose destination does not trust what it is
sent, and those with an offer at a price that Horizon writes as zero.
-/

set_option autoImplicit false

namespace Vellar.Cleanup

open Partial

/-! ## Snapshots -/

/-- Horizon rounds a price to seven places. -/
def priceUnits (price : ℚ) : ℕ := ⌊price * 10 ^ 7 + 1 / 2⌋₊

def Credit.Valid (sdk : ClassicSdk) (asset : Credit) : Prop :=
  IsAssetCode asset.code ∧ sdk.isAccountId asset.issuer = true

def Asset.Valid (sdk : ClassicSdk) : Asset → Prop
  | .native => True
  | .credit asset => asset.Valid sdk

/-- An account as the network keeps it; the 64 bytes a name may have there are no more units. -/
structure Ledger.Valid (sdk : ClassicSdk) (l : Ledger) : Prop where
  lines : ∀ t ∈ l.trustlines.rows, t.balance < 2 ^ 63 ∧ ∀ asset, t.line = .credit asset → asset.Valid sdk
  offers : ∀ o ∈ l.offers.rows, IsOfferId o.id ∧ 0 < o.price ∧ o.price ≤ 2147483647 ∧ o.selling.Valid sdk ∧ o.buying.Valid sdk
  data : ∀ name ∈ l.data.rows, nameLength name ≤ 64

def assetTypeOf (asset : Credit) : String :=
  if asset.code.length ≤ 4 then "credit_alphanum4" else "credit_alphanum12"

/-- An asset of an offer, as it was read. -/
def ReadsAsset (assetType : String) (code issuer : Option String) : Asset → Prop
  | .native => assetType = "native"
  | .credit asset => assetType = assetTypeOf asset ∧ code = some asset.code ∧ issuer = some asset.issuer

structure ReadsOffer (offer : HorizonOffer) (o : Offer) : Prop where
  id : offer.id = o.id
  selling : ReadsAsset offer.sellingAssetType offer.sellingAssetCode offer.sellingAssetIssuer o.selling
  buying : ReadsAsset offer.buyingAssetType offer.buyingAssetCode offer.buyingAssetIssuer o.buying
  price : offer.price = amountText (priceUnits o.price)

/-- A pool share has neither a code nor an issuer. -/
def ReadsLine (assetType : String) (code issuer : Option String) : Line → Prop
  | .credit asset => assetType = assetTypeOf asset ∧ code = some asset.code ∧ issuer = some asset.issuer
  | .poolShare _ => assetType = "liquidity_pool_shares" ∧ code = none ∧ issuer = none

structure ReadsTrustline (balance : HorizonBalance) (t : Trustline) : Prop where
  line : ReadsLine balance.assetType balance.assetCode balance.assetIssuer t.line
  balance : balance.balance = amountText t.balance

/-- The snapshot `getAccount` returns of an account. -/
structure Reads (account : HorizonAccount) (l : Ledger) : Prop where
  accountId : account.accountId = l.account
  sequence : account.sequence = l.sequence
  balances : List.Forall₂ ReadsTrustline account.issued l.trustlines.rows
  offers : List.Forall₂ ReadsOffer account.offers l.offers.rows
  openOffers : account.openOffers = account.offers.length
  dataKeys : account.dataKeys = l.data.rows

/-! ## An account emptied -/

def Line.text : Line → String
  | .credit asset => asset.code ++ ":" ++ asset.issuer
  | .poolShare _ => "?:?"

def Line.name : Line → String
  | .credit asset => asset.code
  | .poolShare _ => "?:?"

/-- What a blocker tells of the account is so. -/
def Blocks (l : Ledger) (b : Blocker) : Prop :=
  match b.type with
  | .balance => ∃ t ∈ l.trustlines.rows, 0 < t.balance ∧ b.description = "Holds " ++ amountText t.balance ++ " " ++ t.line.name
  | .trustline => ∃ t ∈ l.trustlines.rows, b.description = "Trustline to " ++ t.line.text
  | .offer => l.offers.rows ≠ []
  | .data => ∃ name ∈ l.data.rows, b.description = (dataBlocker name).description

structure Ledger.Empty (l : Ledger) : Prop where
  trustlines : l.trustlines.rows = []
  offers : l.offers.rows = []
  data : l.data.rows = []

section Emptied

variable (trusts : String → Credit → Bool)

/-- The steps empty the account, as the plan said. -/
structure Emptied (l : Ledger) (plan : CleanupPlan) (steps : List CleanupStep) : Prop where
  small : ∀ s ∈ steps, s.tx.operations.length ≤ OPS_PER_TX
  sequences : ∀ (k : ℕ) s, steps[k]? = some s → s.tx.sequence = l.sequence + k + 1
  emptied : ∃ final, applyTxs trusts l (steps.map (·.tx)) = some final ∧ final.Empty
  estimated : plan.estimatedTransactions = steps.length + 1
  mergeReady : plan.mergeReady = true ↔ steps = []
  cleared : ∀ b ∈ plan.blockers, ∃ pre s post before after, steps = pre ++ s :: post ∧
    applyTxs trusts l (pre.map (·.tx)) = some before ∧ applyTx trusts before s.tx = some after ∧
    Blocks before b ∧ ¬ Blocks after b

/-- The accounts that the steps can empty. -/
structure Cleanable (destination : String) (l : Ledger) : Prop where
  credits : ∀ t ∈ l.trustlines.rows, ∃ asset, t.line = .credit asset
  trusted : ∀ t ∈ l.trustlines.rows, ∀ asset, t.line = .credit asset → 0 < t.balance → trusts destination asset = true
  prices : ∀ o ∈ l.offers.rows, 0 < priceUnits o.price

end Emptied

/-! ## The operations of a snapshot -/

section Operations

variable {sdk : ClassicSdk} {numbers : JsNumbers} {account : HorizonAccount} {l : Ledger} {destination : String}
  {trusts : String → Credit → Bool}

theorem toAsset_valid {asset : Credit} (h : asset.Valid sdk) :
    toAsset sdk (some asset.code) (some asset.issuer) = some asset := by
  have hcode : asset.code ≠ "" := by
    intro heq
    have hlength := h.1.1
    rw [heq] at hlength
    exact absurd hlength (by decide)
  have hissuer : asset.issuer ≠ "" := by
    intro heq
    have hissuer := h.2
    rw [heq, sdk.isAccountId_empty] at hissuer
    cases hissuer
  unfold toAsset
  rw [Option.filter_some, if_pos (decide_eq_true hcode), Option.filter_some, if_pos (decide_eq_true hissuer)]
  exact sdk.newAsset_ok h.1 h.2

theorem assetTypeOf_ne (asset : Credit) : assetTypeOf asset ≠ "native" := by
  unfold assetTypeOf
  split <;> decide

theorem offerAsset_valid {assetType : String} {code issuer : Option String} {asset : Asset}
    (hreads : ReadsAsset assetType code issuer asset) (h : asset.Valid sdk) :
    offerAsset sdk assetType code issuer = some asset := by
  cases asset with
  | native => exact if_pos hreads
  | credit asset =>
    obtain ⟨rfl, rfl, rfl⟩ := hreads
    unfold offerAsset
    rw [if_neg (assetTypeOf_ne asset), toAsset_valid h]
    rfl

/-- An offer is cancelled when its price is not written as zero. -/
theorem cancelOffer_valid {offer : HorizonOffer} {o : Offer} (hreads : ReadsOffer offer o) (hid : IsOfferId o.id)
    (hprice : o.price ≤ 2147483647) (hselling : o.selling.Valid sdk) (hbuying : o.buying.Valid sdk)
    (hpos : 0 < priceUnits o.price) :
    ∃ op, cancelOffer sdk offer = some op ∧ op.op = .manageSellOffer o.selling o.buying o.id := by
  have hmax : priceUnits o.price ≤ 2147483647 * 10 ^ 7 := by
    unfold priceUnits
    refine Nat.lt_succ_iff.mp (Nat.floor_lt' (by norm_num) |>.mpr ?_)
    push_cast
    linarith
  refine ⟨⟨.manageSellOffer o.selling o.buying o.id, "cancel offer #" ++ o.id⟩, ?_, rfl⟩
  unfold cancelOffer
  rw [offerAsset_valid hreads.selling hselling, Option.bind_eq_bind, Option.bind_some,
    offerAsset_valid hreads.buying hbuying, Option.bind_eq_bind, Option.bind_some, hreads.price, hreads.id,
    sdk.manageSellOffer_ok _ _ hid hpos hmax]
  rfl

theorem cancelOffer_zero {offer : HorizonOffer} {o : Offer} (hreads : ReadsOffer offer o)
    (hzero : priceUnits o.price = 0) : cancelOffer sdk offer = none := by
  unfold cancelOffer
  rw [hreads.price, hzero]
  simp only [sdk.manageSellOffer_zero, Option.bind_eq_bind, Option.bind_none, Option.bind_fun_none]

/-- A trustline to an issued asset is emptied and removed. -/
theorem clearBalance_credit {balance : HorizonBalance} {asset : Credit} {n : ℕ}
    (hreads : ReadsTrustline balance ⟨.credit asset, n⟩) (h : asset.Valid sdk) (hmax : n < 2 ^ 63)
    (hdestination : sdk.isAccountId destination = true) :
    ∃ ops, clearBalance sdk numbers destination balance = some ops ∧
      ops.map (·.op) = removeLine destination asset n := by
  obtain ⟨-, hcode, hissuer⟩ := hreads.line
  have hasset : toAsset sdk balance.assetCode balance.assetIssuer = some asset := by
    rw [hcode, hissuer, toAsset_valid h]
  have hpaid : ∃ paid, payBalance sdk numbers destination asset balance.balance = some paid ∧
      paid.map (·.op) = if 0 < n then [.payment destination asset n] else [] := by
    unfold payBalance
    rw [hreads.balance, numbers.isPositive_amount]
    by_cases hpos : 0 < n
    · rw [if_pos (decide_eq_true hpos), if_pos hpos, sdk.payment_ok asset hdestination hpos hmax]
      exact ⟨_, rfl, rfl⟩
    · rw [if_neg (by simpa using hpos), if_neg hpos]
      exact ⟨_, rfl, rfl⟩
  obtain ⟨paid, hpaid, hops⟩ := hpaid
  refine ⟨paid ++ [⟨.changeTrust asset, "remove the " ++ asset.code ++ " trustline"⟩], ?_, ?_⟩
  · unfold clearBalance
    rw [hasset, Option.bind_eq_bind, Option.bind_some, hpaid, Option.bind_eq_bind, Option.bind_some,
      sdk.changeTrust_zero asset]
    rfl
  · rw [List.map_append, hops]
    rfl

/-- No asset is read of a pool share. -/
theorem clearBalance_poolShare {balance : HorizonBalance} {poolId : String} {n : ℕ}
    (hreads : ReadsTrustline balance ⟨.poolShare poolId, n⟩) :
    clearBalance sdk numbers destination balance = none := by
  obtain ⟨-, hcode, -⟩ := hreads.line
  unfold clearBalance
  rw [hcode]
  rfl

theorem deleteEntry_valid {name : String} (h : nameLength name ≤ 64) :
    ∃ op, deleteEntry sdk name = some op ∧ op.op = .manageData name := by
  refine ⟨⟨.manageData name, "delete data entry \"" ++ name ++ "\""⟩, ?_, rfl⟩
  unfold deleteEntry
  rw [sdk.manageData_ok h]
  rfl

theorem exists_lines {rows : List Trustline} (h : ∀ t ∈ rows, ∃ asset, t.line = .credit asset) :
    ∃ lines : List (Credit × ℕ), rows = lines.map fun line => ⟨.credit line.1, line.2⟩ := by
  induction rows with
  | nil => exact ⟨[], rfl⟩
  | cons t rows ih =>
    obtain ⟨asset, hasset⟩ := h t List.mem_cons_self
    obtain ⟨lines, rfl⟩ := ih fun t ht => h t (List.mem_cons_of_mem _ ht)
    obtain ⟨line, balance⟩ := t
    obtain rfl : line = .credit asset := hasset
    exact ⟨(asset, balance) :: lines, rfl⟩

variable (numbers) in
/-- **The operations of a snapshot** are those that empty the account. -/
theorem collectCleanupOps_valid (hreads : Reads account l) (hvalid : l.Valid sdk)
    (hdestination : sdk.isAccountId destination = true) (hcredits : ∀ t ∈ l.trustlines.rows, ∃ asset, t.line = .credit asset)
    (hprices : ∀ o ∈ l.offers.rows, 0 < priceUnits o.price) :
    ∃ ops, collectCleanupOps sdk numbers account destination = some ops ∧ ops.map (·.op) = emptyingOps destination l := by
  obtain ⟨cancels, hcancels, hcancelOps⟩ := mapM_of_forall₂ (f := cancelOffer sdk) (g := (·.op))
    (h := fun o => .manageSellOffer o.selling o.buying o.id) hreads.offers fun offer o ho hoffer => by
      obtain ⟨hid, -, hprice, hselling, hbuying⟩ := hvalid.offers o ho
      exact cancelOffer_valid hoffer hid hprice hselling hbuying (hprices o ho)
  obtain ⟨cleared, hcleared, hclearedOps⟩ := mapM_of_forall₂ (f := clearBalance sdk numbers destination)
    (g := List.map (·.op)) (h := lineOps destination) hreads.balances fun balance t ht hb => by
      obtain ⟨hmax, hasset⟩ := hvalid.lines t ht
      obtain ⟨asset, hline⟩ := hcredits t ht
      obtain ⟨line, n⟩ := t
      obtain rfl : line = .credit asset := hline
      exact clearBalance_credit hb (hasset asset rfl) hmax hdestination
  obtain ⟨deletes, hdeletes, hdeleteOps⟩ := mapM_of_forall₂ (f := deleteEntry sdk) (g := (·.op)) (h := .manageData)
    (List.forall₂_same.mpr fun name _ => rfl) fun key name (hname : name ∈ l.data.rows) heq => by
      obtain rfl : key = name := heq
      exact deleteEntry_valid (hvalid.data key hname)
  refine ⟨cancels ++ cleared.flatten ++ deletes, ?_, ?_⟩
  · unfold collectCleanupOps
    rw [hcancels, hcleared, hreads.dataKeys, hdeletes]
    rfl
  · rw [List.map_append, List.map_append, hcancelOps, hdeleteOps, List.map_flatten, hclearedOps, ← List.flatMap_def]
    rfl

/-- **The operations of an account that can be emptied**, and what they do to it. -/
theorem collectCleanupOps_empties (hreads : Reads account l) (hvalid : l.Valid sdk)
    (hdestination : sdk.isAccountId destination = true) (hother : destination ≠ l.account)
    (h : Cleanable trusts destination l) :
    ∃ ops final, collectCleanupOps sdk numbers account destination = some ops ∧
      applyOps trusts l (ops.map (·.op)) = some final ∧ final.Empty := by
  obtain ⟨ops, hops, heq⟩ := collectCleanupOps_valid numbers hreads hvalid hdestination h.credits h.prices
  obtain ⟨lines, hlines⟩ := exists_lines h.credits
  have hmem : ∀ line ∈ lines, (⟨.credit line.1, line.2⟩ : Trustline) ∈ l.trustlines.rows := fun line hline => by
    rw [hlines]
    exact List.mem_map_of_mem (f := fun line : Credit × ℕ => (⟨.credit line.1, line.2⟩ : Trustline)) hline
  have hlineOps : l.trustlines.rows.flatMap (lineOps destination) =
      lines.flatMap fun line => removeLine destination line.1 line.2 := by
    rw [hlines, List.flatMap_map]
    rfl
  refine ⟨ops, { l with offers := Table.empty, trustlines := Table.empty, data := Table.empty }, hops, ?_, rfl, rfl, rfl⟩
  rw [heq]
  unfold emptyingOps
  rw [hlineOps]
  refine foldlM_append_some.mpr ⟨{ l with offers := Table.empty, trustlines := Table.empty }, ?_, ?_⟩
  · refine foldlM_append_some.mpr ⟨{ l with offers := Table.empty }, applyOps_cancel rfl, ?_⟩
    refine applyOps_lines (l := { l with offers := Table.empty }) rfl hother (fun line hline hpos => ?_) hlines
    exact h.trusted _ (hmem line hline) line.1 rfl hpos
  · exact applyOps_data (l := { l with offers := Table.empty, trustlines := Table.empty }) rfl

/-- Operations are only collected of issued assets, and of offers whose price is not written as zero. -/
theorem collectCleanupOps_ops {ops : List CleanupOp} (hreads : Reads account l) (hvalid : l.Valid sdk)
    (hdestination : sdk.isAccountId destination = true)
    (hops : collectCleanupOps sdk numbers account destination = some ops) :
    (∀ t ∈ l.trustlines.rows, ∃ asset, t.line = .credit asset) ∧ (∀ o ∈ l.offers.rows, 0 < priceUnits o.price) ∧
      ops.map (·.op) = emptyingOps destination l := by
  obtain ⟨cancels, cleared, deletes, hcancels, hcleared, -, -⟩ := collectCleanupOps_some hops
  have hcredits : ∀ t ∈ l.trustlines.rows, ∃ asset, t.line = .credit asset := by
    intro t ht
    obtain ⟨balance, hbalance, hline⟩ := exists_left hreads.balances t ht
    obtain ⟨line, n⟩ := t
    cases line with
    | credit asset => exact ⟨asset, rfl⟩
    | poolShare poolId =>
      obtain ⟨ops, -, hsome⟩ := exists_right (mapM_eq_some.mp hcleared) balance hbalance
      rw [clearBalance_poolShare hline] at hsome
      cases hsome
  have hprices : ∀ o ∈ l.offers.rows, 0 < priceUnits o.price := by
    intro o ho
    obtain ⟨offer, hoffer, hread⟩ := exists_left hreads.offers o ho
    obtain ⟨op, -, hsome⟩ := exists_right (mapM_eq_some.mp hcancels) offer hoffer
    by_contra hzero
    rw [cancelOffer_zero hread (by omega)] at hsome
    cases hsome
  obtain ⟨ops', hops', heq⟩ := collectCleanupOps_valid numbers hreads hvalid hdestination hcredits hprices
  obtain rfl : ops = ops' := Option.some.inj (hops.symm.trans hops')
  exact ⟨hcredits, hprices, heq⟩

end Operations

/-! ## Blockers -/

section Blockers

variable {numbers : JsNumbers} {account : HorizonAccount} {l : Ledger} {b : Blocker}

theorem ReadsTrustline.asset {balance : HorizonBalance} {t : Trustline} (h : ReadsTrustline balance t) :
    balance.asset = t.line.text ∧ balance.assetCode.getD balance.asset = t.line.name := by
  obtain ⟨line, n⟩ := t
  have hline := h.line
  unfold HorizonBalance.asset
  cases line with
  | credit asset =>
    obtain ⟨-, hcode, hissuer⟩ := hline
    rw [hcode, hissuer]
    exact ⟨rfl, rfl⟩
  | poolShare poolId =>
    obtain ⟨-, hcode, hissuer⟩ := hline
    rw [hcode, hissuer]
    have htext : "?" ++ ":" ++ "?" = "?:?" := by decide
    exact ⟨htext, htext⟩

/-- Every blocker is about something of the account. -/
theorem blocks_of_reads (hreads : Reads account l) (h : b ∈ blockers numbers account) : Blocks l b := by
  unfold blockers at h
  rcases List.mem_append.mp h with h | h
  · rcases List.mem_append.mp h with h | h
    · obtain ⟨balance, hbalance, h⟩ := List.mem_flatMap.mp h
      obtain ⟨t, ht, hline⟩ := exists_right hreads.balances balance hbalance
      obtain ⟨htext, hname⟩ := hline.asset
      rcases List.mem_append.mp h with h | h
      · rw [hline.balance, numbers.isPositive_amount] at h
        by_cases hpos : 0 < t.balance
        · rw [if_pos (decide_eq_true hpos)] at h
          obtain rfl := List.mem_singleton.mp h
          exact ⟨t, ht, hpos, by rw [hname]⟩
        · rw [if_neg (by simpa using hpos)] at h
          exact absurd h List.not_mem_nil
      · obtain rfl := List.mem_singleton.mp h
        exact ⟨t, ht, by rw [htext]⟩
    · unfold offerBlockers at h
      by_cases hopen : account.openOffers > 0
      · rw [if_pos hopen] at h
        obtain rfl := List.mem_singleton.mp h
        intro hnone
        rw [hreads.openOffers, hreads.offers.length_eq, hnone] at hopen
        exact absurd hopen (Nat.lt_irrefl 0)
      · rw [if_neg hopen] at h
        exact absurd h List.not_mem_nil
  · obtain ⟨key, hkey, rfl⟩ := List.mem_map.mp h
    rw [hreads.dataKeys] at hkey
    exact ⟨key, hkey, rfl⟩

theorem not_blocks_empty (h : l.Empty) : ¬ Blocks l b := by
  intro hblocks
  unfold Blocks at hblocks
  split at hblocks
  · obtain ⟨t, ht, -⟩ := hblocks
    exact absurd (h.trustlines ▸ ht) List.not_mem_nil
  · obtain ⟨t, ht, -⟩ := hblocks
    exact absurd (h.trustlines ▸ ht) List.not_mem_nil
  · exact hblocks h.offers
  · obtain ⟨name, hname, -⟩ := hblocks
    exact absurd (h.data ▸ hname) List.not_mem_nil

end Blockers

/-! ## Emptying -/

section Emptying

variable {sdk : ClassicSdk} {numbers : JsNumbers} {account : HorizonAccount} {l : Ledger} {destination : String}
  {trusts : String → Credit → Bool} {plan : CleanupPlan}

/-- The steps of operations that empty the account empty it. -/
theorem emptied_of_ops {ops : List CleanupOp} {final : Ledger} (hreads : Reads account l)
    (hplan : buildCleanupPlan numbers account destination = .ok (.plan plan))
    (hops : collectCleanupOps sdk numbers account destination = some ops)
    (happly : applyOps trusts l (ops.map (·.op)) = some final) (hempty : final.Empty) :
    Emptied trusts l plan (stepsOf account ops) := by
  obtain ⟨hblockers, hestimated, hready⟩ := plan_counts hplan
  have hcount := length_collectCleanupOps hreads.openOffers hops
  have hlength : (stepsOf account ops).length = transactionCount (cleanupOps numbers account) := by
    rw [length_stepsOf, hcount]
  have hrun : applyTxs trusts l ((stepsOf account ops).map (·.tx)) =
      some (final.withSequence (l.sequence + ((stepsOf account ops).map (·.tx)).length)) := by
    refine applyTxs_of_applyOps (fun k tx hk => ?_) ?_
    · rw [List.getElem?_map] at hk
      obtain ⟨s, hs, rfl⟩ := Option.map_eq_some_iff.mp hk
      obtain ⟨hsequence, hsource⟩ := stepsOf_sequence hs
      exact ⟨hsource.trans hreads.accountId, by rw [hsequence, hreads.sequence]⟩
    · rw [List.flatMap_map, stepsOf_operations]
      exact happly
  have hfinal : (final.withSequence (l.sequence + ((stepsOf account ops).map (·.tx)).length)).Empty :=
    ⟨hempty.trustlines, hempty.offers, hempty.data⟩
  refine ⟨fun s hs => stepsOf_small hs, fun k s hs => ?_, ⟨_, hrun, hfinal⟩, ?_, ?_, fun b hb => ?_⟩
  · rw [(stepsOf_sequence hs).1, hreads.sequence]
  · rw [hestimated, hlength]
  · rw [hready, ← List.length_eq_zero_iff, hlength]
    unfold transactionCount OPS_PER_TX
    omega
  · rw [hblockers] at hb
    obtain ⟨pre, tx, post, before, after, hsplit, hpre, htx, hblocks, hclears⟩ :=
      foldlM_ends (P := fun l => Blocks l b) hrun (blocks_of_reads hreads hb) (not_blocks_empty hfinal)
    obtain ⟨pre', rest, hsteps, rfl, hrest⟩ := List.map_eq_append_iff.mp hsplit
    obtain ⟨s, post', rfl, rfl, -⟩ := List.map_eq_cons_iff.mp hrest
    exact ⟨pre', s, post', before, after, hsteps, hpre, htx, hblocks, hclears⟩

/-- Steps that empty an account are of an account that can be emptied. -/
theorem cleanable_of_emptied {steps : List CleanupStep} (hreads : Reads account l) (hvalid : l.Valid sdk)
    (hdestination : sdk.isAccountId destination = true)
    (hsteps : buildCleanupSteps sdk numbers account destination = some steps)
    (h : Emptied trusts l plan steps) : Cleanable trusts destination l := by
  obtain ⟨ops, hops, rfl⟩ := Option.map_eq_some_iff.mp hsteps
  obtain ⟨hcredits, hprices, heq⟩ := collectCleanupOps_ops hreads hvalid hdestination hops
  refine ⟨hcredits, fun t ht asset hasset hpos => ?_, hprices⟩
  obtain ⟨line, n⟩ := t
  obtain rfl : line = .credit asset := hasset
  have hpayment : ClassicOp.payment destination asset n ∈ lineOps destination ⟨.credit asset, n⟩ := by
    show _ ∈ removeLine destination asset n
    rw [removeLine, if_pos hpos]
    exact List.mem_cons_self
  have htxs : ClassicOp.payment destination asset n ∈ (stepsOf account ops).flatMap (·.tx.operations) := by
    rw [stepsOf_operations, heq]
    exact List.mem_append_left _ (List.mem_append_right _ (List.mem_flatMap.mpr ⟨_, ht, hpayment⟩))
  obtain ⟨s, hs, hpayment⟩ := List.mem_flatMap.mp htxs
  obtain ⟨final, hrun, -⟩ := h.emptied
  obtain ⟨l₁, l₂, hpays⟩ := applyTxs_mem hrun (List.mem_map_of_mem hs) hpayment
  exact applyOp_trusts hpays

/-- **The cleanup steps empty exactly the accounts without pool shares**, towards a destination that trusts what it is
sent, whose offers have a price to be cancelled at. -/
theorem cleanup_iff (hvalid : l.Valid sdk) (hreads : Reads account l)
    (hdestination : sdk.isAccountId destination = true) (hother : destination ≠ l.account)
    (hplan : buildCleanupPlan numbers account destination = .ok (.plan plan)) :
    (∃ steps, buildCleanupSteps sdk numbers account destination = some steps ∧ Emptied trusts l plan steps) ↔
      Cleanable trusts destination l := by
  constructor
  · rintro ⟨steps, hsteps, h⟩
    exact cleanable_of_emptied hreads hvalid hdestination hsteps h
  · intro h
    obtain ⟨ops, final, hops, happly, hempty⟩ := collectCleanupOps_empties hreads hvalid hdestination hother h
    refine ⟨stepsOf account ops, ?_, emptied_of_ops hreads hplan hops happly hempty⟩
    unfold buildCleanupSteps
    rw [hops]
    rfl

end Emptying

/-! ## Two accounts -/

instance (code : String) : Decidable (IsAssetCode code) :=
  inferInstanceAs (Decidable (1 ≤ code.length ∧ code.length ≤ 12 ∧ code.toList.all (·.isAlphanum) = true))

/-- Texts are read as the digits they hold. -/
def plainNumbers : JsNumbers where
  isPositive s := decide (0 < Decimal.units s)
  isPositive_amount n := by rw [amountText, Decimal.units_text]
  stroops s := Decimal.units s
  xlm n := amountText n.toNat

def isAccountIdText (s : String) : Bool := s.startsWith "G" && s.length = 56

def plainSdk : ClassicSdk where
  isAccountId := isAccountIdText
  isAccountId_empty := by decide
  newAsset code issuer := if IsAssetCode code ∧ isAccountIdText issuer = true then some ⟨code, issuer⟩ else none
  newAsset_ok hcode hissuer := by rw [if_pos ⟨hcode, hissuer⟩]
  manageSellOffer selling buying amount price offerId :=
    if amount = "0" ∧ 0 < Decimal.units price ∧ Decimal.units price ≤ 2147483647 * 10 ^ 7 then
      some (.manageSellOffer selling buying offerId)
    else none
  manageSellOffer_ok selling buying offerId price _ hpos hmax := by
    rw [amountText, Decimal.units_text]
    exact if_pos ⟨rfl, hpos, hmax⟩
  manageSellOffer_zero selling buying amount offerId := by
    rw [amountText, Decimal.units_text]
    exact if_neg fun h => absurd h.2.1 (Nat.lt_irrefl 0)
  payment destination asset amount :=
    if isAccountIdText destination = true ∧ 0 < Decimal.units amount ∧ Decimal.units amount < 2 ^ 63 then
      some (.payment destination asset (Decimal.units amount))
    else none
  payment_ok asset amount hdestination hpos hmax := by
    rw [amountText, Decimal.units_text]
    exact if_pos ⟨hdestination, hpos, hmax⟩
  changeTrust asset limit := if limit = "0" then some (.changeTrust asset) else none
  changeTrust_zero asset := if_pos rfl
  manageData name := if nameLength name ≤ 64 then some (.manageData name) else none
  manageData_ok h := if_pos h

def sampleAccountId : String := "GDEZOW5M5ODU5SMPXC2XQFAHLRQKK7SSYXDZKMAF7ZKPCAX6KFBTFQZS"

def sampleDestination : String := "GDAP7ZVV7B6YSATUMPBQKZPTS4GODE5ZR3BTBTBDNNBXMPGSOA2TLVUS"

def sampleCredit : Credit := ⟨"USDC", "GAJFQEVBZCKKFBCCFFUMRHB45CB442JO27LNZ7KIQQMK6GKM7G5R5SOL"⟩

/-- Twelve and a half of an asset, four of it on offer, and a data entry. -/
def sampleLines : Table Trustline.line := ⟨[⟨.credit sampleCredit, 125000000⟩], List.nodup_singleton _⟩

def sampleLedger : Ledger where
  account := sampleAccountId
  sequence := 100
  trustlines := sampleLines
  offers := ⟨[⟨"7", .credit sampleCredit, .native, 1, 40000000, 0⟩], List.nodup_singleton _⟩
  data := ⟨["config"], List.nodup_singleton _⟩

def sampleAccount : HorizonAccount where
  accountId := sampleAccountId
  sequence := 100
  subentryCount := some 3
  balances := [⟨"credit_alphanum4", some sampleCredit.code, some sampleCredit.issuer, "12.5000000"⟩,
    ⟨"native", none, none, "100.0000000"⟩]
  dataKeys := ["config"]
  offers := [⟨"7", "credit_alphanum4", some sampleCredit.code, some sampleCredit.issuer, "native", none, none, "1.0000000"⟩]
  openOffers := 1
  paginationIncomplete := false

/-- A share of a pool of the asset, and its empty trustline. -/
def poolLedger : Ledger where
  account := sampleAccountId
  sequence := 100
  trustlines := ⟨[⟨.credit sampleCredit, 0⟩,
    ⟨.poolShare "dd7b1ab831c273310ddbec6f97870aa83c2fbd78ce22aded37ecbf4f3380fac7", 500000000⟩], by decide⟩
  offers := Table.empty
  data := Table.empty

def poolAccount : HorizonAccount where
  accountId := sampleAccountId
  sequence := 100
  subentryCount := some 3
  balances := [⟨"credit_alphanum4", some sampleCredit.code, some sampleCredit.issuer, "0.0000000"⟩,
    ⟨"liquidity_pool_shares", none, none, "50.0000000"⟩, ⟨"native", none, none, "100.0000000"⟩]
  dataKeys := []
  offers := []
  openOffers := 0
  paginationIncomplete := false

theorem sampleCredit_valid : sampleCredit.Valid plainSdk := ⟨by decide, by decide +kernel⟩

theorem sampleAccount_reads : Reads sampleAccount sampleLedger where
  accountId := rfl
  sequence := rfl
  balances := .cons ⟨⟨by decide, rfl, rfl⟩, by decide⟩ .nil
  offers := .cons ⟨rfl, ⟨by decide, rfl, rfl⟩, rfl, by
    have hprice : priceUnits 1 = 10000000 := by
      unfold priceUnits
      norm_num
    show "1.0000000" = amountText (priceUnits 1)
    rw [hprice]
    decide⟩ .nil
  openOffers := rfl
  dataKeys := rfl

theorem sampleLedger_valid : sampleLedger.Valid plainSdk where
  lines t ht := by
    obtain rfl := List.mem_singleton.mp ht
    exact ⟨by norm_num, fun asset hasset => Line.credit.inj hasset ▸ sampleCredit_valid⟩
  offers o ho := by
    obtain rfl := List.mem_singleton.mp ho
    exact ⟨⟨7, by norm_num, by decide⟩, one_pos, by norm_num, sampleCredit_valid, trivial⟩
  data name hname := by
    obtain rfl := List.mem_singleton.mp hname
    decide

theorem sampleLedger_cleanable : Cleanable (fun _ _ => true) sampleDestination sampleLedger where
  credits t ht := by
    obtain rfl := List.mem_singleton.mp ht
    exact ⟨sampleCredit, rfl⟩
  trusted _ _ _ _ _ := rfl
  prices o ho := by
    obtain rfl := List.mem_singleton.mp ho
    show 0 < priceUnits 1
    unfold priceUnits
    norm_num

theorem cleanup_iff_sample : ∃ plan, buildCleanupPlan plainNumbers sampleAccount sampleDestination = .ok (.plan plan) ∧
    ∃ steps, buildCleanupSteps plainSdk plainNumbers sampleAccount sampleDestination = some steps ∧
      Emptied (fun _ _ => true) sampleLedger plan steps := by
  obtain ⟨plan, hplan⟩ : ∃ plan, buildCleanupPlan plainNumbers sampleAccount sampleDestination = .ok (.plan plan) :=
    plan_of_funded rfl (by decide)
  exact ⟨plan, hplan, (cleanup_iff sampleLedger_valid sampleAccount_reads (by decide +kernel) (by decide) hplan).mpr
    sampleLedger_cleanable⟩

/-- **A pool share is planned for, and no steps are built.** -/
theorem pool_share_not_emptied : poolLedger.Valid plainSdk ∧ Reads poolAccount poolLedger ∧
    ∃ plan, buildCleanupPlan plainNumbers poolAccount sampleDestination = .ok (.plan plan) ∧
      ¬ ∃ steps, buildCleanupSteps plainSdk plainNumbers poolAccount sampleDestination = some steps ∧
        Emptied (fun _ _ => true) poolLedger plan steps := by
  refine ⟨⟨fun t ht => ?_, fun o ho => absurd ho List.not_mem_nil, fun name hname => absurd hname List.not_mem_nil⟩,
    ⟨rfl, rfl, ?_, .nil, rfl, rfl⟩, ?_⟩
  · rcases List.mem_pair.mp ht with rfl | rfl
    · exact ⟨by norm_num, fun asset hasset => Line.credit.inj hasset ▸ sampleCredit_valid⟩
    · exact ⟨by norm_num, fun asset hasset => by cases hasset⟩
  · exact .cons ⟨⟨by decide, rfl, rfl⟩, by decide⟩ (.cons ⟨⟨rfl, rfl, rfl⟩, by decide⟩ .nil)
  · obtain ⟨plan, hplan⟩ : ∃ plan, buildCleanupPlan plainNumbers poolAccount sampleDestination = .ok (.plan plan) :=
      plan_of_funded rfl (by decide)
    refine ⟨plan, hplan, ?_⟩
    rintro ⟨steps, hsteps, -⟩
    have hnone : (buildCleanupSteps plainSdk plainNumbers poolAccount sampleDestination).isNone = true := by decide +kernel
    rw [hsteps] at hnone
    cases hnone

end Vellar.Cleanup
