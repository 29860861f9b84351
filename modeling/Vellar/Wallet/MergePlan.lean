import Vellar.Lib.Json
import Vellar.Lib.JsNumber
import Vellar.Worker.ErrorClassification

/-!
# Vellar.Wallet.MergePlan — merging an account away

`buildMergePlan` of `services/wallet-service/src/merge-planner.ts` and the route `POST /wallet/account/merge` of
`server.ts` over it.  The planner reads `balance`, the body of the route has `amount`, so no plan of the route has a
blocker (`blockers_route`); `merge_iff` says when a merge is refused as it should be and when a plan has every entry.
-/

set_option autoImplicit false

namespace Vellar.Wallet.Merge

open Worker (Platform asciiPlatform)

/-! ## The planner -/

/-- `balance` is `undefined` where the caller gives none. -/
structure AccountBalanceInput where
  asset : String
  balance : Option String
  canMergeAutomatically : Option Bool

inductive BlockerType where
  | trustline
  | balance
deriving DecidableEq

structure MergePlanBlocker where
  type : BlockerType
  asset : String
  description : String
  actionRequired : String

structure AssetMoved where
  asset : String
  amount : Option String

inductive TrustlineAction where
  | remove
  | transfer
deriving DecidableEq

structure TrustlineAffected where
  asset : String
  action : TrustlineAction
  balance : Option String

structure FinalBalance where
  asset : String
  balance : Option String

structure MergePlan where
  sourceContractId : String
  destinationContractId : String
  assetsMoved : List AssetMoved
  trustlinesAffected : List TrustlineAffected
  /-- `finalBalances.source` -/
  sourceFinal : List FinalBalance
  /-- `finalBalances.destination` -/
  destinationFinal : List FinalBalance
  blockers : List MergePlanBlocker

def MergePlan.canMerge (plan : MergePlan) : Bool := plan.blockers = []

section Planner

variable (P : Platform)

def isNative (asset : String) : Bool := asset = "native" || P.toLowerCase asset = "xlm"

def AccountBalanceInput.isPositive (item : AccountBalanceInput) : Bool := (JsNumber.ofText item.balance).isPositive

def AccountBalanceInput.isManual (item : AccountBalanceInput) : Bool := item.canMergeAutomatically = some false

/-- What a text shows of a value that may be `undefined`. -/
def shown (text : Option String) : String := text.getD "undefined"

/-- The blockers of an asset that needs someone to act. -/
def blockersOf (item : AccountBalanceInput) : List MergePlanBlocker :=
  (if item.isPositive then
    [⟨.balance, item.asset, "Holds " ++ shown item.balance ++ " " ++ item.asset,
      "Transfer or burn the " ++ item.asset ++ " balance before removing its trustline"⟩]
  else []) ++
    [⟨.trustline, item.asset, "Trustline to " ++ item.asset ++ " requires manual action",
      "Remove the " ++ item.asset ++ " trustline (requires zero balance)"⟩]

/-- One turn of the loop. -/
def addItem (plan : MergePlan) (item : AccountBalanceInput) : MergePlan :=
  if isNative P item.asset then
    { plan with
      assetsMoved := plan.assetsMoved ++ if item.isPositive then [⟨item.asset, item.balance⟩] else []
      sourceFinal := plan.sourceFinal ++ [⟨item.asset, some "0"⟩]
      destinationFinal := plan.destinationFinal ++ [⟨item.asset, item.balance⟩] }
  else if item.isPositive || item.isManual then
    { plan with
      blockers := plan.blockers ++ blockersOf item
      trustlinesAffected := plan.trustlinesAffected ++ [⟨item.asset, .transfer, item.balance⟩]
      sourceFinal := plan.sourceFinal ++ [⟨item.asset, item.balance⟩] }
  else
    { plan with
      trustlinesAffected := plan.trustlinesAffected ++ [⟨item.asset, .remove, some "0"⟩]
      sourceFinal := plan.sourceFinal ++ [⟨item.asset, some "0"⟩] }

def buildMergePlan (sourceContractId destinationContractId : String) (balances : List AccountBalanceInput) :
    MergePlan :=
  let items := if balances ≠ [] then balances else [⟨"native", some "100", none⟩]
  items.foldl (addItem P) ⟨sourceContractId, destinationContractId, [], [], [], [], []⟩

end Planner

/-! ## The route -/

/-- A value of a query string: one text, or several under one name. -/
inductive QueryValue where
  | one (text : String)
  | many (texts : List String)

/-- `Boolean(value)` -/
def QueryValue.truthy : QueryValue → Bool
  | one text => text ≠ ""
  | many _ => true

structure MergeBalance where
  asset : String
  amount : String
  isNative : Option Bool
  hasTrustline : Option Bool
deriving DecidableEq

structure MergeBody where
  destinationContractId : String
  dryRun : Option Bool
  balances : Option (List MergeBalance)
deriving DecidableEq

/-- A key that may be absent. -/
def optionalKey {α : Type} (read : Json → Option α) : Option Json → Option (Option α)
  | none => some none
  | some v => (read v).map some

/-- `z.string().min(1)` -/
def nonempty (v : Option Json) : Option String := (v.bind Json.str?).filter (· ≠ "")

def boolean? : Json → Option Bool
  | .bool b => some b
  | _ => none

def mergeBalance (v : Json) : Option MergeBalance :=
  (nonempty (v.get? "asset")).bind fun asset => (nonempty (v.get? "amount")).bind fun amount =>
    (optionalKey boolean? (v.get? "isNative")).bind fun isNative =>
      (optionalKey boolean? (v.get? "hasTrustline")).map fun hasTrustline => ⟨asset, amount, isNative, hasTrustline⟩

/-- The schema of the body, which drops the keys it does not name. -/
def mergeBody (v : Json) : Option MergeBody :=
  (nonempty (v.get? "destinationContractId")).bind fun destination =>
    (optionalKey boolean? (v.get? "dryRun")).bind fun dryRun =>
      (optionalKey (fun list => list.items?.bind (List.mapM mergeBalance)) (v.get? "balances")).map fun balances =>
        ⟨destination, dryRun, balances⟩

/-- What the route reads of a session. -/
structure SessionCapability where
  contractId : String
  network : String

structure MergeRequest where
  /-- What `resolveSessionCapability` finds. -/
  session : Option SessionCapability
  /-- `dryRun` of the query. -/
  query : Option QueryValue
  body : Json
  /-- The audit log takes the event. -/
  audited : Bool

inductive MergeReply where
  | unauthorized
  | invalidBody
  | preview (plan : MergePlan)
  /-- 400 `cannot_merge_with_open_trustlines` -/
  | openTrustlines (message : String) (blockers : List MergePlanBlocker) (plan : MergePlan)
  | merged (destination : String) (plan : MergePlan)
  /-- The handler throws. -/
  | rejected

/-- The event `account.merged`. -/
structure AccountMerged where
  sourceContractId : String
  destinationContractId : String
  network : String
  plan : MergePlan

section Route

variable (P : Platform)

/-- What the planner is given of an entry of the body: it has no `balance` and no `canMergeAutomatically`. -/
def MergeBalance.toInput (e : MergeBalance) : AccountBalanceInput := ⟨e.asset, none, none⟩

def isDryRun (req : MergeRequest) (body : MergeBody) : Bool :=
  req.query.any QueryValue.truthy || body.dryRun.getD false

/-- `POST /wallet/account/merge`: the reply, and the events that are recorded. -/
def mergeRoute (req : MergeRequest) : MergeReply × List AccountMerged :=
  match req.session with
  | none => (.unauthorized, [])
  | some session =>
    match mergeBody req.body with
    | none => (.invalidBody, [])
    | some body =>
      let plan := buildMergePlan P session.contractId body.destinationContractId
        ((body.balances.getD []).map MergeBalance.toInput)
      if isDryRun req body then (.preview plan, [])
      else if plan.canMerge = false then
        (.openTrustlines
          "Cannot merge account with active non-native balances or trustlines. These must be transferred or closed first."
          plan.blockers plan, [])
      else if req.audited = false then (.rejected, [])
      else (.merged body.destinationContractId plan,
        [⟨session.contractId, body.destinationContractId, session.network, plan⟩])

/-! ## What is promised -/

/-- An entry that would be left behind: not native, and not of the amount zero. -/
def LeftBehind (e : MergeBalance) : Prop := isNative P e.asset = false ∧ JsNumber.ofString e.amount ≠ .finite 0

/-- The merge is refused, and nothing is recorded. -/
def Refused (result : MergeReply × List AccountMerged) : Prop :=
  (∃ message blockers plan, result.1 = .openTrustlines message blockers plan) ∧ result.2 = []

/-- What a plan has in its three groups: what it moves, what it transfers and what it removes. -/
def groups (plan : MergePlan) : List (String × Option String) :=
  plan.assetsMoved.map (fun m => (m.asset, m.amount)) ++ plan.trustlinesAffected.map fun t => (t.asset, t.balance)

/-- Every entry is in the groups as often as in the list. -/
def Placed {α : Type} (stated : α → String × Option String) (entries : List α) (plan : MergePlan) : Prop :=
  ∀ e ∈ entries, (groups plan).count (stated e) = (entries.map stated).count (stated e)

/-- The planner keeps an entry as it is stated. -/
def Kept (item : AccountBalanceInput) : Prop :=
  if isNative P item.asset then item.isPositive = true
  else item.isPositive = true ∨ item.isManual = true ∨ item.balance = some "0"

end Route

/-! ## Counting -/

section Counting

variable {α β : Type} [BEq β] [LawfulBEq β] {c : α → List β} {g : α → β} {good : α → Prop}

/-- What no bad element puts in is there at most as often as it is stated. -/
theorem count_flatMap_le (hgood : ∀ x, good x → c x = [g x]) {b : β} (hbad : ∀ x, ¬ good x → b ∉ c x) (l : List α) :
    (l.flatMap c).count b ≤ (l.map g).count b := by
  induction l with
  | nil => exact le_rfl
  | cons x l ih =>
    rw [List.flatMap_cons, List.count_append, List.map_cons, List.count_cons]
    by_cases hx : good x
    · rw [hgood x hx, List.count_singleton]
      omega
    · rw [List.count_eq_zero_of_not_mem (hbad x hx)]
      omega

/-- Every element is in as often as it is stated exactly if all are good. -/
theorem count_flatMap_iff (hgood : ∀ x, good x → c x = [g x])
    (hbad : ∀ x y, ¬ good x → ¬ good y → g y ∉ c x) (l : List α) :
    (∀ y ∈ l, (l.flatMap c).count (g y) = (l.map g).count (g y)) ↔ ∀ x ∈ l, good x := by
  constructor
  · intro h y hy
    by_contra hybad
    obtain ⟨front, back, rfl⟩ := List.append_of_mem hy
    have hcount := h y hy
    have hfront := count_flatMap_le hgood (fun x hx => hbad x y hx hybad) front
    have hback := count_flatMap_le hgood (fun x hx => hbad x y hx hybad) back
    rw [List.flatMap_append, List.flatMap_cons, List.map_append, List.map_cons, List.count_append, List.count_append,
      List.count_append, List.count_cons_self, List.count_eq_zero_of_not_mem (hbad y y hybad hybad)] at hcount
    omega
  · intro h y _
    have hall : l.flatMap c = l.map g := by
      rw [List.map_eq_flatMap]
      exact List.flatMap_congr fun x hx => hgood x (h x hx)
    rw [hall]

end Counting

/-! ## The plans -/

section Plans

variable {P : Platform}

/-- What an entry puts in the groups. -/
def contribution (P : Platform) (item : AccountBalanceInput) : List (String × Option String) :=
  if isNative P item.asset then (if item.isPositive then [(item.asset, item.balance)] else [])
  else if item.isPositive || item.isManual then [(item.asset, item.balance)]
  else [(item.asset, some "0")]

theorem count_addItem (plan : MergePlan) (item : AccountBalanceInput) (p : String × Option String) :
    (groups (addItem P plan item)).count p = (groups plan).count p + (contribution P item).count p := by
  unfold groups addItem contribution
  split_ifs <;> simp only [List.map_append, List.map_cons, List.map_nil, List.count_append, List.count_nil] <;> omega

theorem count_foldl (items : List AccountBalanceInput) (plan : MergePlan) (p : String × Option String) :
    (groups (items.foldl (addItem P) plan)).count p =
      (groups plan).count p + (items.flatMap (contribution P)).count p := by
  induction items generalizing plan with
  | nil => rfl
  | cons item items ih =>
    rw [List.foldl_cons, ih, count_addItem, List.flatMap_cons, List.count_append]
    omega

/-- The groups of a plan of entries. -/
theorem count_buildMergePlan {items : List AccountBalanceInput} (h : items ≠ []) (source destination : String)
    (p : String × Option String) :
    (groups (buildMergePlan P source destination items)).count p = (items.flatMap (contribution P)).count p := by
  unfold buildMergePlan
  rw [if_pos h, count_foldl]
  exact Nat.zero_add _

theorem contribution_of_kept {item : AccountBalanceInput} (h : Kept P item) :
    contribution P item = [(item.asset, item.balance)] := by
  unfold Kept at h
  unfold contribution
  split_ifs at h ⊢ with hnative hacts
  · rfl
  · rfl
  · rw [Bool.or_eq_true, not_or] at hacts
    rw [(h.resolve_left hacts.1).resolve_left hacts.2]

/-- An entry that is not kept is in no group, or in one with another amount. -/
theorem not_mem_contribution {x y : AccountBalanceInput} (hx : ¬ Kept P x) (hy : ¬ Kept P y) :
    (y.asset, y.balance) ∉ contribution P x := by
  intro hmem
  unfold Kept at hx hy
  unfold contribution at hmem
  split_ifs at hx hmem with hnative hacts
  · cases hmem
  · rw [Bool.or_eq_true] at hacts
    exact hx (hacts.imp id .inl)
  · obtain ⟨hasset, hbalance⟩ := Prod.mk.inj (List.mem_singleton.mp hmem)
    rw [hasset, if_neg hnative] at hy
    exact hy (.inr (.inr hbalance))

theorem placed_iff (source destination : String) (items : List AccountBalanceInput) :
    Placed (fun item : AccountBalanceInput => (item.asset, item.balance)) items
      (buildMergePlan P source destination items) ↔ ∀ item ∈ items, Kept P item := by
  by_cases hitems : items = []
  · subst hitems
    exact ⟨fun _ item hitem => (nomatch hitem), fun _ item hitem => (nomatch hitem)⟩
  rw [← count_flatMap_iff (g := fun item => (item.asset, item.balance)) (fun _ => contribution_of_kept)
    (fun _ _ => not_mem_contribution) items]
  unfold Placed
  simp only [count_buildMergePlan hitems]

/-- What the route's entries put in the groups: nothing, or the amount zero. -/
theorem contribution_toInput (e : MergeBalance) :
    contribution P e.toInput = if isNative P e.asset then [] else [(e.asset, some "0")] := rfl

/-- The route's plans: an entry is as it is stated only where that is what every entry is taken for. -/
theorem placed_route_iff (source destination : String) (entries : List MergeBalance) :
    Placed (fun e : MergeBalance => (e.asset, some e.amount)) entries
        (buildMergePlan P source destination (entries.map MergeBalance.toInput)) ↔
      ∀ e ∈ entries, isNative P e.asset = false ∧ e.amount = "0" := by
  by_cases hentries : entries = []
  · subst hentries
    exact ⟨fun _ e he => (nomatch he), fun _ e he => (nomatch he)⟩
  have hmap : entries.map MergeBalance.toInput ≠ [] := fun hnil => hentries (List.map_eq_nil_iff.mp hnil)
  rw [← count_flatMap_iff (c := fun e => contribution P e.toInput)
    (g := fun e : MergeBalance => (e.asset, some e.amount)) (fun e he => ?_) (fun x y hx hy hmem => ?_) entries]
  · unfold Placed
    simp only [count_buildMergePlan hmap, List.flatMap_map]
  · rw [contribution_toInput, he.1, he.2]
    rfl
  · rw [contribution_toInput] at hmem
    split_ifs at hmem with hnative
    · cases hmem
    · obtain ⟨hasset, hamount⟩ := Prod.mk.inj (List.mem_singleton.mp hmem)
      exact hy ⟨by rw [hasset]; exact Bool.eq_false_iff.mpr hnative, Option.some.inj hamount⟩

theorem blockers_foldl (entries : List MergeBalance) (plan : MergePlan) :
    ((entries.map MergeBalance.toInput).foldl (addItem P) plan).blockers = plan.blockers := by
  induction entries generalizing plan with
  | nil => rfl
  | cons e entries ih =>
    rw [List.map_cons, List.foldl_cons, ih]
    have hstep : (addItem P plan e.toInput).blockers = plan.blockers := by
      have hacts : (e.toInput.isPositive || e.toInput.isManual) = false := rfl
      unfold addItem
      rw [hacts]
      split_ifs <;> first | rfl | contradiction
    exact hstep

/-- **No plan of the route has a blocker**. -/
theorem blockers_route (source destination : String) (entries : List MergeBalance) :
    (buildMergePlan P source destination (entries.map MergeBalance.toInput)).blockers = [] := by
  unfold buildMergePlan
  split_ifs with hentries
  · exact blockers_foldl entries _
  · rfl

end Plans

/-! ## What holds of the code -/

section Law

variable (P : Platform)

/-- A merge that is no dry run is never refused. -/
theorem not_refused {req : MergeRequest} {session : SessionCapability} {body : MergeBody}
    (hsession : req.session = some session) (hbody : mergeBody req.body = some body) (hdry : isDryRun req body = false) : ¬ Refused (mergeRoute P req) := by
  rintro ⟨⟨message, blockers, plan, hreply⟩, -⟩
  have hmerge : (buildMergePlan P session.contractId body.destinationContractId
      ((body.balances.getD []).map MergeBalance.toInput)).canMerge = true := by
    unfold MergePlan.canMerge
    rw [blockers_route]
    rfl
  unfold mergeRoute at hreply
  rw [hsession] at hreply
  dsimp only at hreply
  rw [hbody] at hreply
  dsimp only at hreply
  rw [hdry, hmerge] at hreply
  split_ifs at hreply

/-- **When merging keeps its promise**: a merge is refused where it should be only where nothing would be left behind,
and a plan has every entry as it is stated only where each is one that the planner keeps. -/
theorem merge_iff :
    (∀ req session body, req.session = some session → mergeBody req.body = some body → isDryRun req body = false →
      (((∃ e ∈ body.balances.getD [], LeftBehind P e) → Refused (mergeRoute P req)) ↔
        ¬ ∃ e ∈ body.balances.getD [], LeftBehind P e)) ∧
    (∀ source destination items,
      Placed (fun item : AccountBalanceInput => (item.asset, item.balance)) items
          (buildMergePlan P source destination items) ↔ ∀ item ∈ items, Kept P item) ∧
    ∀ source destination entries,
      Placed (fun e : MergeBalance => (e.asset, some e.amount)) entries
          (buildMergePlan P source destination (entries.map MergeBalance.toInput)) ↔
        ∀ e ∈ entries, isNative P e.asset = false ∧ e.amount = "0" := by
  refine ⟨fun req session body hsession hbody hdry => ⟨fun h hleft => ?_, fun h hleft => absurd hleft h⟩, placed_iff,
    placed_route_iff⟩
  exact not_refused P hsession hbody hdry (h hleft)

/-- A body with one entry of an asset of another issuer. -/
def holding (amount : String) : MergeRequest :=
  ⟨some ⟨"C", "testnet"⟩, none, .obj [("destinationContractId", .str "D"),
    ("balances", .arr [.obj [("asset", .str "USDC:G"), ("amount", .str amount)]])], true⟩

def holdingBody (amount : String) : MergeBody := ⟨"D", none, some [⟨"USDC:G", amount, none, none⟩]⟩

/-- An empty trustline does not stand in the way. -/
theorem merge_zero :
    (((∃ e ∈ (holdingBody "0").balances.getD [], LeftBehind asciiPlatform e) →
        Refused (mergeRoute asciiPlatform (holding "0"))) ↔
      ¬ ∃ e ∈ (holdingBody "0").balances.getD [], LeftBehind asciiPlatform e) ∧
    ¬ ∃ e ∈ (holdingBody "0").balances.getD [], LeftBehind asciiPlatform e := by
  refine ⟨(merge_iff asciiPlatform).1 (holding "0") ⟨"C", "testnet"⟩ (holdingBody "0") rfl (by decide) rfl, ?_⟩
  rintro ⟨e, he, -, hamount⟩
  obtain rfl := List.mem_singleton.mp he
  exact hamount (by decide +kernel)

/-- A trustline that holds something is merged away. -/
theorem merged_with_balance :
    ¬ ∀ (P : Platform) (req : MergeRequest) session body, req.session = some session → mergeBody req.body = some body →
      isDryRun req body = false → (∃ e ∈ body.balances.getD [], LeftBehind P e) → Refused (mergeRoute P req) := by
  intro h
  have hrefused := h asciiPlatform (holding "15.5") ⟨"C", "testnet"⟩ (holdingBody "15.5") rfl (by decide) rfl
    ⟨_, List.mem_singleton.mpr rfl, by decide, by decide +kernel⟩
  exact absurd (congrArg List.length hrefused.2) (by decide)

end Law

end Vellar.Wallet.Merge
