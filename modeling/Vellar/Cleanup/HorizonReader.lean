import Vellar.Cleanup.Planner
import Vellar.Lib.Json
import Vellar.ServiceKit.Retry
import Vellar.Worker.JsText

/-!
# Vellar.Cleanup.HorizonReader — the account as Horizon tells it

`services/lifecycle-service/src/horizon.ts`: the account, its further trustlines and its offers, page by page up to a cap.  What
Horizon answers is a sequence of responses.  `snapshot_iff`: a snapshot is complete exactly when the caps cut off nothing new.
-/

set_option autoImplicit false

namespace Vellar.Cleanup

open Effect LinkedPages Retry
open Worker (truthy)

/-! ## Schemas -/

section Schemas

def asObject : Json → Option Json
  | .obj fields => some (.obj fields)
  | _ => none

variable {α : Type}

def required (parse : Json → Option α) (v : Json) (key : String) : Option α := (v.get? key).bind parse

def optional (parse : Json → Option α) (v : Json) (key : String) : Option (Option α) :=
  match v.get? key with
  | none => some none
  | some x => (parse x).map some

def array (parse : Json → Option α) (v : Json) : Option (List α) := v.items?.bind fun items => items.mapM parse

structure AssetRef where
  assetType : String
  assetCode : Option String
  assetIssuer : Option String

def assetRefSchema (v : Json) : Option AssetRef := do
  let v ← asObject v
  pure ⟨← required Json.str? v "asset_type", ← optional Json.str? v "asset_code", ← optional Json.str? v "asset_issuer"⟩

/-- With the names of `HorizonBalance`. -/
def balanceRecordSchema (v : Json) : Option HorizonBalance := do
  let v ← asObject v
  pure ⟨← required Json.str? v "asset_type", ← optional Json.str? v "asset_code", ← optional Json.str? v "asset_issuer",
    ← required Json.str? v "balance"⟩

def hrefSchema (v : Json) : Option String := do
  let v ← asObject v
  required Json.str? v "href"

structure AccountLinks where
  next : Option String
  balances : Option String
  trustlines : Option String

def accountLinksSchema (v : Json) : Option AccountLinks := do
  let v ← asObject v
  pure ⟨← optional hrefSchema v "next", ← optional hrefSchema v "balances", ← optional hrefSchema v "trustlines"⟩

/-- The keys of a record of strings. -/
def dataSchema (v : Json) : Option (List String) :=
  match v with
  | .obj fields => if fields.all (fun f => f.2.str?.isSome) then some (fields.map Prod.fst).eraseDups else none
  | _ => none

structure AccountBody where
  sequence : String
  subentryCount : Option ℚ
  balances : List HorizonBalance
  dataKeys : List String
  links : Option AccountLinks

def accountSchema (v : Json) : Option AccountBody := do
  let v ← asObject v
  pure ⟨← required Json.str? v "sequence", ← optional Json.num? v "subentry_count", ← required (array balanceRecordSchema) v "balances",
    (← optional dataSchema v "data").getD [], ← optional accountLinksSchema v "_links"⟩

/-- `_links?.next?.href` of a page. -/
def nextSchema (v : Json) : Option (Option String) := do
  let links ← optional (fun links => (asObject links).bind fun links => optional hrefSchema links "next") v "_links"
  pure links.join

/-- A page with its records under a key; a link that is empty is none. -/
def pageSchema {ρ : Type} (records : Json → Option (List ρ)) (v : Json) : Option (Page String ρ) := do
  let v ← asObject v
  pure ⟨← records v, truthy (← nextSchema v)⟩

def embeddedRecords {ρ : Type} (record : Json → Option ρ) (v : Json) : Option (List ρ) :=
  required (fun embedded => (asObject embedded).bind fun embedded => required (array record) embedded "records") v "_embedded"

def trustlinesPageSchema (v : Json) : Option (Page String HorizonBalance) :=
  pageSchema (fun v => required (array balanceRecordSchema) v "balances") v <|>
    pageSchema (embeddedRecords balanceRecordSchema) v <|>
    pageSchema (fun v => required (array balanceRecordSchema) v "records") v

/-- `numberText` is `String(n)`. -/
def idSchema (numberText : ℚ → String) : Json → Option String
  | .str s => some s
  | .num n => some (numberText n)
  | _ => none

/-- With the names of `HorizonOffer`. -/
def offerRecordSchema (numberText : ℚ → String) (v : Json) : Option HorizonOffer := do
  let v ← asObject v
  let id ← required (idSchema numberText) v "id"
  let selling ← required assetRefSchema v "selling"
  let buying ← required assetRefSchema v "buying"
  let price ← required Json.str? v "price"
  pure ⟨id, selling.assetType, selling.assetCode, selling.assetIssuer, buying.assetType, buying.assetCode, buying.assetIssuer, price⟩

def offersPageSchema (numberText : ℚ → String) (v : Json) : Option (Page String HorizonOffer) :=
  pageSchema (embeddedRecords (offerRecordSchema numberText)) v

end Schemas

/-! ## Requests -/

/-- What a request gets: an error, of the network or of the timeout, or an answer, whose body may be no JSON. -/
inductive Response where
  | failed (err : JsError)
  | answered (status : ℕ) (json : Except JsError Json)

/-- Horizon, and what the reader uses of the language and of the libraries. -/
structure Horizon where
  /-- To the request of a number. -/
  respond : ℕ → String → Response
  encodeURIComponent : String → String
  numberText : ℚ → String
  /-- `parsed.error.message` -/
  issues : Option Json → String
  /-- The sequence number that a text denotes, as the transaction builder takes it. -/
  sequenceOf : String → ℤ
  /-- The count that a number denotes, as the planner takes it. -/
  countOf : ℚ → ℕ

structure HorizonReaderOptions where
  maxOfferPages : Option ℕ
  maxTrustlinePages : Option ℕ
  maxAttempts : Option ℕ

def DEFAULT_MAX_OFFER_PAGES : ℕ := 50

def DEFAULT_MAX_TRUSTLINE_PAGES : ℕ := 50

def OFFERS_PAGE_LIMIT : ℕ := 200

/-- The state is the number of the next request. -/
abbrev Reading (α : Type) := Effect JsError ℕ α

section Reader

variable (H : Horizon) (horizonUrl : String) (options : HorizonReaderOptions)

def base : String := String.ofList (horizonUrl.toList.reverse.dropWhile (· = '/')).reverse

def maxOfferPages : ℕ := options.maxOfferPages.getD DEFAULT_MAX_OFFER_PAGES

def maxTrustlinePages : ℕ := options.maxTrustlinePages.getD DEFAULT_MAX_TRUSTLINE_PAGES

def maxAttempts : ℕ := options.maxAttempts.getD 3

/-- One attempt of a fetch. -/
def request (url label : String) : Reading (ℕ × Option Json) := fun n =>
  match H.respond n url with
  | .failed err => .error err (n + 1)
  | .answered status json =>
    if status = 404 then .ok (404, none) (n + 1)
    else if ¬ (200 ≤ status ∧ status ≤ 299) then
      .error (.plain ("Horizon " ++ label ++ " failed (" ++ toString status ++ ")")) (n + 1)
    else
      match json with
      | .ok body => .ok (status, some body) (n + 1)
      | .error err => .error err (n + 1)

def fetchJson (url label : String) : Reading (ℕ × Option Json) :=
  retryWithBackoff (maxAttempts options) (fun err => err.name ≠ "AbortError") (request H url label)

/-- The body of a schema, or an error that names the response. -/
def validated {α : Type} (schema : Json → Option α) (what : String) (body : Option Json) : Reading α :=
  match body.bind schema with
  | some a => pure a
  | none => throw (.plain ("Horizon " ++ what ++ " response was malformed: " ++ H.issues body))

/-- A turn of the loop of `fetchAllBalances`. -/
def trustlinesPage (url : String) : Reading (Page String HorizonBalance) := do
  let res ← attempt (fetchJson H options url "trustlines fetch") fun err =>
    throw (.plain ("Horizon trustlines pagination failed: pagination was cut short by an error (" ++ err.message ++ ")"))
  validated H trustlinesPageSchema "trustlines" res.2

def fetchAllBalances (initialBalances : List HorizonBalance) (initialNext : Option String) : Reading (List HorizonBalance) :=
  match truthy initialNext with
  | none => pure initialBalances
  | some nextUrl => do
    let records ← follow (trustlinesPage H options) (maxTrustlinePages options - 1) nextUrl
    pure (initialBalances ++ records)

/-- A turn of the loop of `fetchAllOffers`. -/
def offersPage (url : String) : Reading (Page String HorizonOffer) := do
  let res ← fetchJson H options url "offers fetch"
  validated H (offersPageSchema H.numberText) "offers" res.2

def accountUrl (accountId : String) : String := base horizonUrl ++ "/accounts/" ++ H.encodeURIComponent accountId

def offersUrl (accountId : String) : String :=
  accountUrl H horizonUrl accountId ++ "/offers?limit=" ++ toString OFFERS_PAGE_LIMIT

def fetchAllOffers (accountId : String) : Reading (List HorizonOffer) :=
  follow (offersPage H options) (maxOfferPages options) (offersUrl H horizonUrl accountId)

/-- `getAccount` up to the validation of the account; none when it does not exist. -/
def fetchAccount (accountId : String) : Reading (Option AccountBody) := do
  let res ← fetchJson H options (accountUrl H horizonUrl accountId) "account fetch"
  if res.1 = 404 then pure none
  else do
    let account ← validated H accountSchema "account" res.2
    pure (some account)

def AccountBody.nextTrustlineHref (account : AccountBody) : Option String :=
  account.links.bind fun links => links.balances.or (links.trustlines.or links.next)

def getAccount (accountId : String) : Reading (Option HorizonAccount) := do
  match ← fetchAccount H horizonUrl options accountId with
  | none => pure none
  | some account => do
    let balances ← fetchAllBalances H options account.balances account.nextTrustlineHref
    let offers ← fetchAllOffers H horizonUrl options accountId
    pure (some
      { accountId
        sequence := H.sequenceOf account.sequence
        subentryCount := account.subentryCount.map H.countOf
        balances
        dataKeys := account.dataKeys
        offers
        openOffers := offers.length
        paginationIncomplete := false })

end Reader

/-! ## Every reading ends -/

section Ends

variable {H : Horizon} {horizonUrl : String} {options : HorizonReaderOptions}

theorem within_request (url label : String) : Within id 1 (request H url label) := by
  intro n
  refine (show (request H url label).after n = n + 1 from ?_).le
  unfold request after
  cases hres : H.respond n url with
  | failed err => simp only [hres]
  | answered status json =>
    simp only [hres]
    by_cases hmissing : status = 404
    · rw [if_pos hmissing]
    · rw [if_neg hmissing]
      by_cases hok : ¬ (200 ≤ status ∧ status ≤ 299)
      · rw [if_pos hok]
      · rw [if_neg hok]
        cases json <;> rfl

theorem within_fetchJson (url label : String) : Within id (maxAttempts options) (fetchJson H options url label) :=
  within_retry (within_request url label)

theorem within_validated {α : Type} (schema : Json → Option α) (what : String) (body : Option Json) :
    Within id 0 (validated H schema what body) := by
  unfold validated
  cases body.bind schema with
  | none => exact within_throw
  | some a => exact within_pure

theorem within_trustlinesPage (url : String) : Within id (maxAttempts options) (trustlinesPage H options url) :=
  ((within_fetchJson url _).attempt fun _ => within_throw).bind fun _ => within_validated _ _ _

theorem within_offersPage (url : String) : Within id (maxAttempts options) (offersPage H options url) :=
  (within_fetchJson url _).bind fun _ => within_validated _ _ _

theorem within_fetchAllBalances (initialBalances : List HorizonBalance) (initialNext : Option String) :
    Within id ((maxTrustlinePages options - 1) * maxAttempts options) (fetchAllBalances H options initialBalances initialNext) := by
  unfold fetchAllBalances
  cases truthy initialNext with
  | none => exact within_pure.mono (Nat.zero_le _)
  | some nextUrl => exact (within_follow within_trustlinesPage _ nextUrl).bind fun _ => within_pure

theorem within_fetchAccount (accountId : String) :
    Within id (maxAttempts options) (fetchAccount H horizonUrl options accountId) := by
  have hbind : Within id (maxAttempts options + 0) (fetchAccount H horizonUrl options accountId) := by
    refine (within_fetchJson _ _).bind fun res => ?_
    split
    · exact within_pure
    · exact (within_validated _ _ _).bind fun _ => within_pure
  exact hbind

/-- **`getAccount` ends**, after so many requests at most. -/
theorem within_getAccount (accountId : String) :
    Within id (maxAttempts options + ((maxTrustlinePages options - 1) * maxAttempts options +
      maxOfferPages options * maxAttempts options)) (getAccount H horizonUrl options accountId) := by
  refine (within_fetchAccount accountId).bind fun account => ?_
  cases account with
  | none => exact within_pure.mono (Nat.zero_le _)
  | some account =>
    refine (within_fetchAllBalances _ _).bind fun balances => ?_
    exact (within_follow within_offersPage _ _).bind fun offers => within_pure

end Ends

/-! ## What a snapshot leaves out -/

section Snapshots

variable (H : Horizon) (horizonUrl : String) (options : HorizonReaderOptions)

/-- The next link of the account: of the links it may have the first that is not empty. -/
def AccountBody.firstLink (account : AccountBody) : Option String :=
  account.links.bind fun links => (truthy links.balances).or ((truthy links.trustlines).or (truthy links.next))

/-- The page `k` links on from the account's first link, for a reader that had the account at request `s`. -/
def trustlinesPageAt (account : AccountBody) (s k : ℕ) : Option (Page String HorizonBalance) :=
  account.firstLink.bind fun url => pageAt (trustlinesPage H options) k url s

/-- How many of these pages are read at most. -/
def trustlinePagesRead (account : AccountBody) : ℕ :=
  if (truthy account.nextTrustlineHref).isSome then maxTrustlinePages options - 1 else 0

/-- The request with which the offers begin. -/
def offersStart (account : AccountBody) (s : ℕ) : ℕ :=
  (fetchAllBalances H options account.balances account.nextTrustlineHref).after s

def offersPageAt (accountId : String) (account : AccountBody) (s k : ℕ) : Option (Page String HorizonOffer) :=
  pageAt (offersPage H options) k (offersUrl H horizonUrl accountId) (offersStart H options account s)

/-- The snapshot has the records of every page. -/
def Complete (body : AccountBody) (s : ℕ) (account : HorizonAccount) : Prop :=
  (∀ b ∈ body.balances, b ∈ account.balances) ∧
    (∀ k page, trustlinesPageAt H options body s k = some page → ∀ b ∈ page.records, b ∈ account.balances) ∧
    ∀ k page, offersPageAt H horizonUrl options account.accountId body s k = some page → ∀ o ∈ page.records, o ∈ account.offers

/-- No plan calls an account ready for the merge that has a trustline or an offer on some page. -/
def MergeSound (body : AccountBody) (s : ℕ) (account : HorizonAccount) : Prop :=
  ∀ numbers destination plan, buildCleanupPlan numbers account destination = .ok (.plan plan) → plan.mergeReady = true →
    (∀ k page, trustlinesPageAt H options body s k = some page → ∀ b ∈ page.records, b.isIssued = false) ∧
      ∀ k page, offersPageAt H horizonUrl options account.accountId body s k = some page → page.records = []

/-- The pages past the caps have nothing that the pages before them lack. -/
def CapsSuffice (accountId : String) (body : AccountBody) (s : ℕ) : Prop :=
  (∀ k page, trustlinePagesRead options body ≤ k → trustlinesPageAt H options body s k = some page → ∀ b ∈ page.records,
    b ∈ body.balances ∨
      ∃ j, j < trustlinePagesRead options body ∧ ∃ page', trustlinesPageAt H options body s j = some page' ∧ b ∈ page'.records) ∧
  ∀ k page, maxOfferPages options ≤ k → offersPageAt H horizonUrl options accountId body s k = some page → ∀ o ∈ page.records,
    ∃ j, j < maxOfferPages options ∧ ∃ page', offersPageAt H horizonUrl options accountId body s j = some page' ∧ o ∈ page'.records

variable {H horizonUrl options} {accountId : String} {s s' : ℕ} {account : HorizonAccount} {body : AccountBody}

theorem firstLink_eq {url : String} (h : truthy body.nextTrustlineHref = some url) : body.firstLink = some url := by
  unfold AccountBody.nextTrustlineHref at h
  unfold AccountBody.firstLink
  cases hlinks : body.links with
  | none =>
    rw [hlinks] at h
    cases h
  | some links =>
    rw [hlinks, Option.bind_some] at h
    rw [Option.bind_some]
    cases hbalances : links.balances with
    | some href =>
      rw [hbalances, Option.some_or] at h
      rw [h, Option.some_or]
    | none =>
      rw [hbalances, Option.none_or] at h
      cases htrustlines : links.trustlines with
      | some href =>
        rw [htrustlines, Option.some_or] at h
        rw [h]
        rfl
      | none =>
        rw [htrustlines, Option.none_or] at h
        rw [h]
        rfl

/-- What an account was read from. -/
theorem getAccount_returns (h : Returns (getAccount H horizonUrl options accountId) s (some account) s') :
    ∃ body s₁, Returns (fetchAccount H horizonUrl options accountId) s (some body) s₁ ∧
      Returns (fetchAllBalances H options body.balances body.nextTrustlineHref) s₁ account.balances (offersStart H options body s₁) ∧
      Returns (fetchAllOffers H horizonUrl options accountId) (offersStart H options body s₁) account.offers s' ∧
      account.accountId = accountId ∧ account.openOffers = account.offers.length ∧ account.paginationIncomplete = false := by
  obtain ⟨fetched, s₁, hfetched, hrest⟩ := returns_bind.mp h
  cases fetched with
  | none =>
    obtain ⟨hnone, -⟩ := returns_pure.mp hrest
    cases hnone
  | some body =>
    obtain ⟨balances, s₂, hbalances, hrest⟩ := returns_bind.mp hrest
    obtain ⟨offers, s₃, hoffers, hdone⟩ := returns_bind.mp hrest
    obtain ⟨haccount, rfl⟩ := returns_pure.mp hdone
    obtain rfl := Option.some.inj haccount
    obtain rfl : offersStart H options body s₁ = s₂ := hbalances.after_eq
    exact ⟨body, s₁, hfetched, hbalances, hoffers, rfl, rfl, rfl⟩

theorem trustlines_complete_iff {s₁ : ℕ}
    (h : Returns (fetchAllBalances H options body.balances body.nextTrustlineHref) s account.balances s₁) :
    (∀ b ∈ body.balances, b ∈ account.balances) ∧
        (∀ k page, trustlinesPageAt H options body s k = some page → ∀ b ∈ page.records, b ∈ account.balances) ↔
      ∀ k page, trustlinePagesRead options body ≤ k → trustlinesPageAt H options body s k = some page → ∀ b ∈ page.records,
        b ∈ body.balances ∨ ∃ j, j < trustlinePagesRead options body ∧
          ∃ page', trustlinesPageAt H options body s j = some page' ∧ b ∈ page'.records := by
  unfold fetchAllBalances at h
  cases hlink : truthy body.nextTrustlineHref with
  | none =>
    rw [hlink] at h
    obtain ⟨hbalances, -⟩ := returns_pure.mp h
    have hnone : trustlinePagesRead options body = 0 := by
      unfold trustlinePagesRead
      rw [hlink]
      rfl
    rw [hbalances, hnone]
    constructor
    · exact fun hall k page _ hpage b hb => .inl (hall.2 k page hpage b hb)
    · intro hpast
      refine ⟨fun b hb => hb, fun k page hpage b hb => ?_⟩
      rcases hpast k page (Nat.zero_le k) hpage b hb with hb | ⟨j, hj, -⟩
      · exact hb
      · omega
  | some url =>
    rw [hlink] at h
    obtain ⟨records, s₂, hread, hdone⟩ := returns_bind.mp h
    obtain ⟨hbalances, -⟩ := returns_pure.mp hdone
    have hread' : trustlinePagesRead options body = maxTrustlinePages options - 1 := by
      unfold trustlinePagesRead
      rw [hlink]
      rfl
    rw [hbalances, hread']
    unfold trustlinesPageAt
    rw [firstLink_eq hlink, and_iff_right fun b hb => List.mem_append_left _ hb]
    exact covers_iff body.balances hread

theorem offers_complete_iff {s₁ : ℕ} (hid : account.accountId = accountId)
    (h : Returns (fetchAllOffers H horizonUrl options accountId) (offersStart H options body s) account.offers s₁) :
    (∀ k page, offersPageAt H horizonUrl options account.accountId body s k = some page →
        ∀ o ∈ page.records, o ∈ account.offers) ↔
      ∀ k page, maxOfferPages options ≤ k → offersPageAt H horizonUrl options accountId body s k = some page →
        ∀ o ∈ page.records, ∃ j, j < maxOfferPages options ∧
          ∃ page', offersPageAt H horizonUrl options accountId body s j = some page' ∧ o ∈ page'.records := by
  have hcovers := covers_iff [] h
  simp only [List.nil_append, List.not_mem_nil, false_or] at hcovers
  rw [hid]
  exact hcovers

/-- A complete snapshot has what a plan must not call ready. -/
theorem mergeSound_of_complete (hopen : account.openOffers = account.offers.length)
    (h : Complete H horizonUrl options body s account) : MergeSound H horizonUrl options body s account := by
  obtain ⟨-, htrustlines, hoffers⟩ := h
  intro numbers destination plan hplan hready
  obtain ⟨-, -, hiff⟩ := plan_counts hplan
  obtain ⟨hissued, hzero, -⟩ := cleanupOps_eq_zero_iff.mp (hiff.mp hready)
  refine ⟨fun k page hpage b hb => ?_, fun k page hpage => ?_⟩
  · have hmem := htrustlines k page hpage b hb
    have hfilter := List.filter_eq_nil_iff.mp hissued b hmem
    exact Bool.eq_false_iff.mpr hfilter
  · have hnil : account.offers = [] := List.length_eq_zero_iff.mp (hopen.symm.trans hzero)
    rw [List.eq_nil_iff_forall_not_mem]
    intro o ho
    have hmem := hoffers k page hpage o ho
    rw [hnil] at hmem
    exact absurd hmem List.not_mem_nil

variable (H horizonUrl options) in
/-- **A snapshot is complete, or refused**, exactly when the caps cut off nothing new.  And `getAccount` ends. -/
theorem snapshot_iff (accountId : String) (s : ℕ) :
    (∀ account s', Returns (getAccount H horizonUrl options accountId) s (some account) s' →
      ∃ body s₁, Returns (fetchAccount H horizonUrl options accountId) s (some body) s₁ ∧
        ((Complete H horizonUrl options body s₁ account ∨ account.paginationIncomplete = true) ∧
            MergeSound H horizonUrl options body s₁ account ↔
          CapsSuffice H horizonUrl options accountId body s₁)) ∧
    (getAccount H horizonUrl options accountId).after s ≤ s + (maxAttempts options +
      ((maxTrustlinePages options - 1) * maxAttempts options + maxOfferPages options * maxAttempts options)) := by
  refine ⟨fun account s' h => ?_, within_getAccount accountId s⟩
  obtain ⟨body, s₁, hbody, hbalances, hoffers, hid, hopen, hflag⟩ := getAccount_returns h
  refine ⟨body, s₁, hbody, ?_⟩
  have hcomplete : Complete H horizonUrl options body s₁ account ↔ CapsSuffice H horizonUrl options accountId body s₁ := by
    unfold Complete CapsSuffice
    rw [← and_assoc, trustlines_complete_iff hbalances, offers_complete_iff hid hoffers]
  rw [← hcomplete]
  constructor
  · rintro ⟨h | h, -⟩
    · exact h
    · rw [hflag] at h
      cases h
  · exact fun h => ⟨.inl h, mergeSound_of_complete hopen h⟩

end Snapshots

/-! ## A trustline on the page after the last -/

section Example

def nativeRecord : Json := .obj [("asset_type", .str "native"), ("balance", .str "50.0000000")]

def usdcRecord : Json :=
  .obj [("asset_type", .str "credit_alphanum4"), ("asset_code", .str "USDC"), ("asset_issuer", .str "GISSUER"),
    ("balance", .str "10.0000000")]

/-- An account whose second page has a trustline, without offers. -/
def twoPages : Horizon where
  respond n url :=
    if n = 0 then
      .answered 200 (.ok (.obj [("sequence", .str "100"), ("balances", .arr [nativeRecord]),
        ("_links", .obj [("next", .obj [("href", .str "https://horizon.test/balances?cursor=1")])])]))
    else if url = "https://horizon.test/balances?cursor=1" then
      .answered 200 (.ok (.obj [("balances", .arr [usdcRecord])]))
    else .answered 200 (.ok (.obj [("_embedded", .obj [("records", .arr [])])]))
  encodeURIComponent s := s
  numberText _ := ""
  issues _ := ""
  sequenceOf _ := 100
  countOf _ := 0

def onePageOptions : HorizonReaderOptions := ⟨none, some 1, none⟩

/-- The snapshot under a cap of one page. -/
def onePageAccount : HorizonAccount where
  accountId := "GACCOUNT"
  sequence := 100
  subentryCount := none
  balances := [⟨"native", none, none, "50.0000000"⟩]
  dataKeys := []
  offers := []
  openOffers := 0
  paginationIncomplete := false

theorem onePageAccount_returns :
    Returns (getAccount twoPages "https://horizon.test" onePageOptions "GACCOUNT") 0 (some onePageAccount) 2 := rfl

theorem snapshot_one_page : ∃ body s₁,
    Returns (fetchAccount twoPages "https://horizon.test" onePageOptions "GACCOUNT") 0 (some body) s₁ ∧
      ((Complete twoPages "https://horizon.test" onePageOptions body s₁ onePageAccount ∨
            onePageAccount.paginationIncomplete = true) ∧
          MergeSound twoPages "https://horizon.test" onePageOptions body s₁ onePageAccount ↔
        CapsSuffice twoPages "https://horizon.test" onePageOptions "GACCOUNT" body s₁) :=
  (snapshot_iff twoPages "https://horizon.test" onePageOptions "GACCOUNT" 0).1 onePageAccount 2 onePageAccount_returns

/-- **A snapshot that is cut off** says nothing of it. -/
theorem cut_off_unmarked : ¬ ∀ (H : Horizon) (horizonUrl : String) (options : HorizonReaderOptions) (accountId : String) (s : ℕ),
    ∀ account s', Returns (getAccount H horizonUrl options accountId) s (some account) s' →
      ∀ body s₁, Returns (fetchAccount H horizonUrl options accountId) s (some body) s₁ →
        (Complete H horizonUrl options body s₁ account ∨ account.paginationIncomplete = true) ∧
          MergeSound H horizonUrl options body s₁ account := by
  intro h
  obtain ⟨hsnapshot, -⟩ := h twoPages "https://horizon.test" onePageOptions "GACCOUNT" 0 onePageAccount 2 onePageAccount_returns
    ⟨"100", none, [⟨"native", none, none, "50.0000000"⟩], [], some ⟨some "https://horizon.test/balances?cursor=1", none, none⟩⟩ 1 rfl
  rcases hsnapshot with ⟨-, htrustlines, -⟩ | hflag
  · have hmem := htrustlines 0 ⟨[⟨"credit_alphanum4", some "USDC", some "GISSUER", "10.0000000"⟩], none⟩ rfl _
      (List.mem_singleton_self _)
    have hbalance := List.mem_singleton.mp hmem
    exact absurd (congrArg HorizonBalance.assetType hbalance) (by decide)
  · cases hflag

end Example

end Vellar.Cleanup
