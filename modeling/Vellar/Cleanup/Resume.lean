import Vellar.Cleanup.Emptied

/-!
# Vellar.Cleanup.Resume — going on with a cleanup that stopped

`createPlanTracking`, `recordStepConfirmation` and `resumeCleanupPlan` of `services/lifecycle-service/src/builder.ts`.  The steps
are built anew of the account as it is, and `emptyingOps_run` makes them the steps that were left; but a trustline that was paid
out and not yet removed is taken for a change (`resume_iff`).
-/

set_option autoImplicit false

namespace Vellar.Cleanup

open Partial

/-! ## Tracking -/

structure StepConfirmation where
  stepIndex : ℕ
  hash : String
  confirmed : Bool
  confirmedAt : Option String

structure ExpectedState where
  sequence : ℤ
  balances : List HorizonBalance
  dataKeys : List String
  openOffers : ℕ

structure MultiStepPlanTracking where
  planId : String
  accountId : String
  destination : String
  totalSteps : ℕ
  steps : List StepConfirmation
  originalSteps : List CleanupStep
  expectedState : ExpectedState

/-- A number or a hash that a step is confirmed by. -/
inductive ConfirmedBy where
  | index (i : ℕ)
  | hash (h : String)

section Tracking

-- The hash of a transaction on the network.
variable (hash : Transaction → String)

def createPlanTracking (now : ℕ) (account : HorizonAccount) (destination : String) (steps : List CleanupStep) :
    MultiStepPlanTracking where
  planId := "plan_" ++ account.accountId ++ "_" ++ toString now
  accountId := account.accountId
  destination := destination
  totalSteps := steps.length
  steps := steps.zipIdx.map fun s => ⟨s.2, hash s.1.tx, false, none⟩
  originalSteps := steps
  expectedState := ⟨account.sequence, account.balances, account.dataKeys, account.openOffers⟩

def ConfirmedBy.hits (stepIndex : ℕ) (stepHash : String) : ConfirmedBy → Bool
  | .index i => stepIndex = i
  | .hash h => stepHash = h

def recordStepConfirmation (tracking : MultiStepPlanTracking) (confirmed : ConfirmedBy) (now : String) : MultiStepPlanTracking :=
  { tracking with
    steps := tracking.steps.map fun s =>
      if confirmed.hits s.stepIndex s.hash then { s with confirmed := true, confirmedAt := some (s.confirmedAt.getD now) } else s }

end Tracking

/-! ## Resuming -/

inductive ResumePlanResult where
  | resumed (resumedFromStep : ℕ) (remainingSteps : List CleanupStep) (completedStepCount totalSteps : ℕ)
  | completed (message : String)
  | freshPlanRequired (reason : String) (details : List (String × String))

def confirmedIndices (tracking : MultiStepPlanTracking) : List ℕ :=
  ((tracking.steps.filter (·.confirmed)).map (·.stepIndex)).mergeSort fun a b => decide (a ≤ b)

/-- `${assetCode}:${assetIssuer}` -/
def HorizonBalance.key (b : HorizonBalance) : String := b.assetCode.getD "undefined" ++ ":" ++ b.assetIssuer.getD "undefined"

/-- A map from keys to balances. -/
abbrev BalanceMap := Table fun e : String × String => e.1

/-- The balances that are not native, of two with one key the last. -/
def balanceMap (balances : List HorizonBalance) : BalanceMap :=
  (balances.filter (·.isIssued)).foldl (fun map b => map.put (b.key, b.balance)) Table.empty

/-- An entry that is not of the plan. -/
def isNew (original : BalanceMap) (e : String × String) : Bool := (original.find e.1).isNone

/-- An entry whose balance is neither as it was nor `"0"`. -/
def isChanged (original : BalanceMap) (e : String × String) : Bool :=
  (original.find e.1).any fun o => e.2 ≠ o.2 && e.2 ≠ "0"

section Resume

variable (sdk : ClassicSdk) (numbers : JsNumbers) (currentAccount : HorizonAccount) (destination : String)
  (tracking : MultiStepPlanTracking)

/-- None when rebuilding throws. -/
def resumeCleanupPlan : Option ResumePlanResult :=
  if currentAccount.accountId ≠ tracking.accountId then
    some (.freshPlanRequired
      ("Account mismatch: expected " ++ tracking.accountId ++ " but received " ++ currentAccount.accountId) [])
  else
    let confirmed := confirmedIndices tracking
    if confirmed.length = tracking.totalSteps then
      some (.completed "All steps in the cleanup plan have already been confirmed.")
    else
      match confirmed.zipIdx.find? fun c => c.1 ≠ c.2 with
      | some (step, i) =>
        some (.freshPlanRequired
          ("Non-contiguous step confirmation: step " ++ toString i ++ " is unconfirmed but subsequent step " ++ toString step ++
            " is confirmed") [])
      | none =>
        let original := balanceMap tracking.expectedState.balances
        let current := balanceMap currentAccount.balances
        match current.rows.find? (isNew original) with
        | some (key, balance) =>
          some (.freshPlanRequired
            ("On-chain state changed: unexpected new asset trustline balance for " ++ key ++ " (" ++ balance ++ ")")
            [("asset", key), ("currentBalance", balance)])
        | none =>
          match current.rows.find? (isChanged original) with
          | some (key, balance) =>
            let previous := ((original.find key).map Prod.snd).getD ""
            some (.freshPlanRequired
              ("On-chain state changed: trustline balance for " ++ key ++ " changed from " ++ previous ++ " to " ++ balance)
              [("asset", key), ("previousBalance", previous), ("currentBalance", balance)])
          | none =>
            if currentAccount.openOffers > tracking.expectedState.openOffers then
              some (.freshPlanRequired
                ("On-chain state changed: open offers increased from " ++ toString tracking.expectedState.openOffers ++ " to " ++
                  toString currentAccount.openOffers) [])
            else
              (buildCleanupSteps sdk numbers currentAccount destination).map fun remainingSteps =>
                .resumed confirmed.length remainingSteps confirmed.length tracking.totalSteps

end Resume

/-! ## What was confirmed -/

section Confirmed

variable {hash : Transaction → String} {account : HorizonAccount} {destination : String} {steps : List CleanupStep} {k : ℕ}

/-- Confirmations as they come in, with the times of the calls. -/
def recordAll (tracking : MultiStepPlanTracking) (confirmations : List (ConfirmedBy × String)) : MultiStepPlanTracking :=
  confirmations.foldl (fun tracking c => recordStepConfirmation tracking c.1 c.2) tracking

/-- The confirmations are of the first `k` steps, by their numbers or their hashes. -/
def Confirms (hash : Transaction → String) (steps : List CleanupStep) (confirmations : List (ConfirmedBy × String)) (k : ℕ) : Prop :=
  ∀ i s, steps[i]? = some s → ((∃ c ∈ confirmations, c.1 = .index i ∨ c.1 = .hash (hash s.tx)) ↔ i < k)

/-- What a confirmation keeps of a step, and what it makes of it. -/
def StepConfirmation.seen (s : StepConfirmation) : (ℕ × String) × Bool := ((s.stepIndex, s.hash), s.confirmed)

theorem recordAll_spec (tracking : MultiStepPlanTracking) (confirmations : List (ConfirmedBy × String)) :
    (recordAll tracking confirmations).accountId = tracking.accountId ∧
      (recordAll tracking confirmations).totalSteps = tracking.totalSteps ∧
      (recordAll tracking confirmations).expectedState = tracking.expectedState ∧
      (recordAll tracking confirmations).steps.map (·.seen) =
        (tracking.steps.map (·.seen)).map fun s => (s.1, s.2 || confirmations.any fun c => c.1.hits s.1.1 s.1.2) := by
  induction confirmations generalizing tracking with
  | nil => simp [recordAll]
  | cons c confirmations ih =>
    obtain ⟨haccount, htotal, hexpected, hsteps⟩ := ih (recordStepConfirmation tracking c.1 c.2)
    refine ⟨haccount, htotal, hexpected, hsteps.trans ?_⟩
    have hstep : ∀ s : StepConfirmation,
        (if c.1.hits s.stepIndex s.hash then { s with confirmed := true, confirmedAt := some (s.confirmedAt.getD c.2) }
          else s).seen = (s.seen.1, s.seen.2 || c.1.hits s.seen.1.1 s.seen.1.2) := by
      intro s
      unfold StepConfirmation.seen
      cases c.1.hits s.stepIndex s.hash with
      | true => simp
      | false => simp
    unfold recordStepConfirmation
    simp only [List.map_map]
    refine List.map_congr_left fun s _ => ?_
    simp only [Function.comp_apply]
    rw [hstep, List.any_cons, Bool.or_assoc]

variable (account destination) in
/-- **The confirmed steps** are the first. -/
theorem confirmedIndices_recordAll (now : ℕ) {confirmations : List (ConfirmedBy × String)} (hk : k ≤ steps.length)
    (h : Confirms hash steps confirmations k) :
    confirmedIndices (recordAll (createPlanTracking hash now account destination steps) confirmations) = List.range k := by
  obtain ⟨-, -, -, hsteps⟩ := recordAll_spec (createPlanTracking hash now account destination steps) confirmations
  have hseen : (recordAll (createPlanTracking hash now account destination steps) confirmations).steps.map (·.seen) =
      steps.zipIdx.map fun s => ((s.2, hash s.1.tx), decide (s.2 < k)) := by
    rw [hsteps]
    simp only [createPlanTracking, List.map_map]
    refine List.map_congr_left fun s hs => ?_
    obtain ⟨step, i⟩ := s
    have hget : steps[i]? = some step := List.mem_zipIdx_iff_getElem?.mp hs
    have hany : (confirmations.any fun c => c.1.hits i (hash step.tx)) = decide (i < k) := by
      rw [Bool.eq_iff_iff, List.any_eq_true, decide_eq_true_iff, ← h i step hget]
      refine exists_congr fun c => and_congr_right fun _ => ?_
      unfold ConfirmedBy.hits
      cases c.1 with
      | index j => simp [eq_comm]
      | hash h => simp [eq_comm]
    simp only [Function.comp_apply, StepConfirmation.seen, Bool.false_or]
    rw [hany]
  have hindices : ((recordAll (createPlanTracking hash now account destination steps) confirmations).steps.filter (·.confirmed)).map
      (·.stepIndex) = List.range k := by
    have hmap : ∀ l : List StepConfirmation,
        (l.filter (·.confirmed)).map (·.stepIndex) = ((l.map (·.seen)).filter (·.2)).map (·.1.1) := by
      intro l
      rw [List.filter_map, List.map_map]
      rfl
    rw [hmap, hseen, List.filter_map, List.map_map]
    have hsnd : (steps.zipIdx.filter fun s => decide (s.2 < k)).map Prod.snd =
        (steps.zipIdx.map Prod.snd).filter fun i => decide (i < k) := by
      rw [List.filter_map]
      rfl
    refine hsnd.trans ?_
    rw [List.zipIdx_map_snd, ← List.range_eq_range']
    have hsplit : List.range steps.length = List.range k ++ (List.range (steps.length - k)).map (k + ·) := by
      rw [← List.range_add, Nat.add_sub_cancel' hk]
    rw [hsplit, List.filter_append, List.filter_eq_self.mpr fun i hi => decide_eq_true (List.mem_range.mp hi),
      List.filter_eq_nil_iff.mpr, List.append_nil]
    intro i hi
    obtain ⟨j, -, rfl⟩ := List.mem_map.mp hi
    simp
  unfold confirmedIndices
  rw [hindices]
  exact List.mergeSort_of_pairwise (List.pairwise_le_range.imp fun h => decide_eq_true h)

end Confirmed

/-! ## Balances by their keys -/

section Balances

variable {sdk : ClassicSdk} {account : HorizonAccount} {l : Ledger} {b b' : HorizonBalance} {balances : List HorizonBalance}

theorem mem_balanceMap {e : String × String} (h : e ∈ (balanceMap balances).rows) :
    ∃ b ∈ balances.filter (·.isIssued), e = (b.key, b.balance) := by
  have hfold : ∀ (bs : List HorizonBalance) (map : BalanceMap),
      e ∈ (bs.foldl (fun map b => map.put (b.key, b.balance)) map).rows →
        e ∈ map.rows ∨ ∃ b ∈ bs, e = (b.key, b.balance) := by
    intro bs
    induction bs with
    | nil => exact fun map h => .inl h
    | cons b bs ih =>
      intro map h
      rcases ih _ h with h | ⟨b', hb', heq⟩
      · rcases Table.mem_put h with h | h
        · exact .inl h
        · exact .inr ⟨b, List.mem_cons_self, h⟩
      · exact .inr ⟨b', List.mem_cons_of_mem _ hb', heq⟩
  exact (hfold _ _ h).resolve_left List.not_mem_nil

theorem find_balanceMap_isSome (hb : b ∈ balances.filter (·.isIssued)) : ((balanceMap balances).find b.key).isSome = true := by
  have hfold : ∀ (bs : List HorizonBalance) (map : BalanceMap), (map.find b.key).isSome = true ∨ b ∈ bs →
      ((bs.foldl (fun map b => map.put (b.key, b.balance)) map).find b.key).isSome = true := by
    intro bs
    induction bs with
    | nil => exact fun map h => h.resolve_right List.not_mem_nil
    | cons b' bs ih =>
      intro map h
      refine ih _ ?_
      rcases h with h | h
      · left
        rw [Table.find_put]
        split
        · rfl
        · exact h
      · rcases List.mem_cons.mp h with rfl | h
        · left
          rw [Table.find_put, if_pos rfl]
          rfl
        · exact .inr h
  exact hfold _ _ (.inr hb)

theorem colon_not_mem_code {asset : Credit} (h : asset.Valid sdk) : ':' ∉ asset.code.toList := by
  intro hmem
  exact absurd (List.all_eq_true.mp h.1.2.2 ':' hmem) (by decide)

theorem split_first {α : Type*} {a : α} {p p' r r' : List α} (hp : a ∉ p) (hp' : a ∉ p') (h : p ++ a :: r = p' ++ a :: r') :
    p = p' ∧ r = r' := by
  induction p generalizing p' with
  | nil =>
    cases p' with
    | nil => exact ⟨rfl, (List.cons.inj h).2⟩
    | cons b p' => exact absurd ((List.cons.inj h).1 ▸ List.mem_cons_self) hp'
  | cons b p ih =>
    cases p' with
    | nil => exact absurd ((List.cons.inj h).1 ▸ List.mem_cons_self) hp
    | cons b' p' =>
      obtain ⟨rfl, htail⟩ := List.cons.inj h
      obtain ⟨rfl, hr⟩ := ih (fun hmem => hp (List.mem_cons_of_mem _ hmem)) (fun hmem => hp' (List.mem_cons_of_mem _ hmem)) htail
      exact ⟨rfl, hr⟩

/-- The key of a balance tells its trustline. -/
theorem line_of_key {t t' : Trustline} {asset asset' : Credit} (hb : ReadsTrustline b t) (hb' : ReadsTrustline b' t')
    (ht : t.line = .credit asset) (ht' : t'.line = .credit asset') (hvalid : asset.Valid sdk) (hvalid' : asset'.Valid sdk) :
    b.key = b'.key ↔ t.line = t'.line := by
  have hkey : b.key = asset.code ++ ":" ++ asset.issuer := by
    have hline := hb.line
    rw [ht] at hline
    unfold HorizonBalance.key
    rw [hline.2.1, hline.2.2]
    rfl
  have hkey' : b'.key = asset'.code ++ ":" ++ asset'.issuer := by
    have hline := hb'.line
    rw [ht'] at hline
    unfold HorizonBalance.key
    rw [hline.2.1, hline.2.2]
    rfl
  rw [hkey, hkey', ht, ht', Line.credit.injEq]
  constructor
  · intro heq
    have hlists := congrArg String.toList heq
    simp only [String.toList_append, List.append_assoc] at hlists
    obtain ⟨hcode, hissuer⟩ := split_first (colon_not_mem_code hvalid) (colon_not_mem_code hvalid') hlists
    obtain ⟨code, issuer⟩ := asset
    obtain ⟨code', issuer'⟩ := asset'
    exact congrArg₂ Credit.mk (String.toList_inj.mp hcode) (String.toList_inj.mp hissuer)
  · rintro rfl
    rfl

/-- **The map has every balance** of an account of issued assets. -/
theorem find_balanceMap (hreads : List.Forall₂ ReadsTrustline account.issued l.trustlines.rows) (hvalid : l.Valid sdk)
    (hcredit : ∀ t ∈ l.trustlines.rows, ∃ asset, t.line = .credit asset) (hb : b ∈ account.issued) :
    (balanceMap account.balances).find b.key = some (b.key, b.balance) := by
  have hsome : ((balanceMap account.balances).find b.key).isSome = true := find_balanceMap_isSome hb
  obtain ⟨e, he⟩ := Option.isSome_iff_exists.mp hsome
  obtain ⟨hmem, hkey⟩ := Table.mem_of_find he
  obtain ⟨b', hb', rfl⟩ := mem_balanceMap hmem
  obtain ⟨t, ht, hread⟩ := exists_right hreads b hb
  obtain ⟨t', ht', hread'⟩ := exists_right hreads b' hb'
  obtain ⟨asset, hasset⟩ := hcredit t ht
  obtain ⟨asset', hasset'⟩ := hcredit t' ht'
  have hline := (line_of_key hread' hread hasset' hasset ((hvalid.lines t' ht').2 asset' hasset')
    ((hvalid.lines t ht).2 asset hasset)).mp hkey
  obtain rfl : t' = t := List.inj_on_of_nodup_map l.trustlines.nodup ht' ht hline
  have hbalance : b'.balance = b.balance := hread'.balance.trans hread.balance.symm
  rw [he, show b'.key = b.key from hkey, hbalance]

end Balances

/-! ## When it resumes -/

section Resumes

variable {sdk : ClassicSdk} {numbers : JsNumbers} {account current : HorizonAccount} {destination : String}
  {tracking : MultiStepPlanTracking} {k : ℕ}

/-- What a plan notices of an account: another id, a trustline it does not have, a balance that is neither what it was nor the
text `"0"`, more offers. -/
def Noticed (account current : HorizonAccount) : Prop :=
  current.accountId ≠ account.accountId ∨
    (∃ e ∈ (balanceMap current.balances).rows,
      isNew (balanceMap account.balances) e = true ∨ isChanged (balanceMap account.balances) e = true) ∨
    account.openOffers < current.openOffers

variable (sdk numbers account current destination) in
/-- **What is noticed, and only that, refuses** a plan whose first steps are confirmed. -/
theorem resume_eq (haccount : tracking.accountId = account.accountId) (hbalances : tracking.expectedState.balances = account.balances)
    (hoffers : tracking.expectedState.openOffers = account.openOffers) (hconfirmed : confirmedIndices tracking = List.range k)
    (hk : k < tracking.totalSteps) :
    (¬ Noticed account current → resumeCleanupPlan sdk numbers current destination tracking =
      (buildCleanupSteps sdk numbers current destination).map fun remaining => .resumed k remaining k tracking.totalSteps) ∧
    (Noticed account current → ∀ first remaining completed total,
      resumeCleanupPlan sdk numbers current destination tracking ≠ some (.resumed first remaining completed total)) := by
  have hgap : (List.range k).zipIdx.find? (fun c => decide (c.1 ≠ c.2)) = none := by
    refine List.find?_eq_none.mpr fun c hc => ?_
    obtain ⟨i, j⟩ := c
    have hget : (List.range k)[j]? = some i := List.mem_zipIdx_iff_getElem?.mp hc
    obtain ⟨hj, hget⟩ := List.getElem?_eq_some_iff.mp hget
    rw [List.getElem_range] at hget
    simp [hget]
  have hopen : ¬ k = tracking.totalSteps := by omega
  unfold resumeCleanupPlan
  simp only [hconfirmed, haccount, hbalances, hoffers, hgap, List.length_range, if_neg hopen]
  by_cases hid : current.accountId = account.accountId
  · rw [if_neg (not_not.mpr hid)]
    cases hnew : (balanceMap current.balances).rows.find? (isNew (balanceMap account.balances)) with
    | some e =>
      have hnoticed : Noticed account current := .inr (.inl ⟨e, List.mem_of_find?_eq_some hnew, .inl (List.find?_some hnew)⟩)
      exact ⟨fun h => absurd hnoticed h, fun _ first remaining completed total heq => by cases heq⟩
    | none =>
      cases hchanged : (balanceMap current.balances).rows.find? (isChanged (balanceMap account.balances)) with
      | some e =>
        have hnoticed : Noticed account current := .inr (.inl ⟨e, List.mem_of_find?_eq_some hchanged, .inr (List.find?_some hchanged)⟩)
        exact ⟨fun h => absurd hnoticed h, fun _ first remaining completed total heq => by cases heq⟩
      | none =>
        by_cases hmore : current.openOffers > account.openOffers
        · simp only [if_pos hmore]
          exact ⟨fun h => absurd (.inr (.inr hmore)) h, fun _ first remaining completed total heq => by cases heq⟩
        · simp only [if_neg hmore]
          refine ⟨fun _ => trivial, fun hnoticed => ?_⟩
          rcases hnoticed with h | ⟨e, he, h | h⟩ | h
          · exact absurd hid h
          · exact absurd h (List.find?_eq_none.mp hnew e he)
          · exact absurd h (List.find?_eq_none.mp hchanged e he)
          · exact absurd h hmore
  · rw [if_pos hid]
    exact ⟨fun h => absurd (.inl hid) h, fun _ first remaining completed total heq => by cases heq⟩

end Resumes

/-! ## After the confirmed steps -/

section Stops

variable {sdk : ClassicSdk} {numbers : JsNumbers} {account current : HorizonAccount} {destination : String} {l l' : Ledger}
  {last : Option ClassicOp}

theorem Stopped.valid (h : Stopped destination l l' last) (hvalid : l.Valid sdk) : l'.Valid sdk := by
  refine ⟨fun t ht => ?_, fun o ho => hvalid.offers o (h.offers o ho), fun n hn => hvalid.data n (h.data n hn)⟩
  rcases h.lines with ⟨-, hmem⟩ | ⟨asset, n, rows, -, -, -, hrows, hhead, hmem⟩
  · exact hvalid.lines t (hmem t ht)
  · rw [hrows] at ht
    rcases List.mem_cons.mp ht with rfl | ht
    · exact ⟨by norm_num, (hvalid.lines _ hhead).2⟩
    · exact hvalid.lines t (hmem t ht)

theorem amountText_inj {m n : ℕ} (h : amountText m = amountText n) : m = n := by
  have hunits := congrArg Decimal.units h
  rwa [amountText, amountText, Decimal.units_text, Decimal.units_text] at hunits

/-- A trustline read twice. -/
theorem same_entry {b b' : HorizonBalance} {t t' : Trustline} (hb : ReadsTrustline b t) (hb' : ReadsTrustline b' t')
    {asset : Credit} (ht : t.line = .credit asset) (ht' : t'.line = .credit asset) : b.key = b'.key := by
  have hline := hb.line
  have hline' := hb'.line
  rw [ht] at hline
  rw [ht'] at hline'
  unfold HorizonBalance.key
  rw [hline.2.1, hline.2.2, hline'.2.1, hline'.2.2]

/-- **A cleanup that stopped is noticed exactly after a payment.** -/
theorem noticed_iff_of_stopped (hreads : Reads account l) (hvalid : l.Valid sdk)
    (hcredit : ∀ t ∈ l.trustlines.rows, ∃ asset, t.line = .credit asset) (h : Stopped destination l l' last)
    (hcurrent : Reads current l') : Noticed account current ↔ ∃ d a n, last = some (.payment d a n) := by
  rcases h.lines with ⟨hlast, hmem⟩ | ⟨asset, n, rows, hlast, hpos, -, hrows, hhead, -⟩
  · refine iff_of_false ?_ fun ⟨d, a, n, heq⟩ => hlast d a n heq
    rintro (hid | ⟨e, he, hnoticed⟩ | hmore)
    · exact hid (hcurrent.accountId.trans (h.account.trans hreads.accountId.symm))
    · obtain ⟨b, hb, rfl⟩ := mem_balanceMap he
      obtain ⟨t, ht, hread⟩ := exists_right hcurrent.balances b hb
      obtain ⟨b₀, hb₀, hread₀⟩ := exists_left hreads.balances t (hmem t ht)
      obtain ⟨asset, hasset⟩ := hcredit t (hmem t ht)
      have hfind := find_balanceMap hreads.balances hvalid hcredit hb₀
      rw [same_entry hread₀ hread hasset hasset, hread₀.balance, ← hread.balance] at hfind
      rcases hnoticed with hnew | hchanged
      · unfold isNew at hnew
        rw [hfind] at hnew
        cases hnew
      · unfold isChanged at hchanged
        rw [hfind] at hchanged
        simp at hchanged
    · rw [hcurrent.openOffers, hreads.openOffers, hcurrent.offers.length_eq, hreads.offers.length_eq] at hmore
      exact absurd h.fewer (by omega)
  · refine iff_of_true ?_ ⟨destination, asset, n, hlast⟩
    have hline : (⟨.credit asset, 0⟩ : Trustline) ∈ l'.trustlines.rows := by
      rw [hrows]
      exact List.mem_cons_self
    obtain ⟨b, hb, hread⟩ := exists_left hcurrent.balances _ hline
    obtain ⟨b₀, hb₀, hread₀⟩ := exists_left hreads.balances _ hhead
    have hentry := find_balanceMap hcurrent.balances (h.valid hvalid) (h.credit hcredit) hb
    have hfind := find_balanceMap hreads.balances hvalid hcredit hb₀
    rw [same_entry hread₀ hread rfl rfl] at hfind
    refine .inr (.inl ⟨(b.key, b.balance), (Table.mem_of_find hentry).1, .inr ?_⟩)
    unfold isChanged
    rw [hfind, Option.any_some, Bool.and_eq_true, decide_eq_true_iff, decide_eq_true_iff, hread.balance, hread₀.balance]
    have hzero : amountText 0 ≠ "0" := by decide
    refine ⟨fun heq => ?_, hzero⟩
    have := amountText_inj heq
    dsimp only at this
    omega

end Stops

/-! ## The steps that are left -/

section Left

variable {account : HorizonAccount} {ops : List CleanupOp} {k : ℕ}

/-- Operations in transactions of a hundred. -/
def chunks (ops : List ClassicOp) : List (List ClassicOp) :=
  (List.range (transactionCount ops.length)).map fun k => (ops.drop (k * OPS_PER_TX)).take OPS_PER_TX

theorem stepsOf_chunks : (stepsOf account ops).map (·.tx.operations) = chunks (ops.map (·.op)) := by
  unfold stepsOf chunks
  rw [List.map_map, List.length_map]
  refine List.map_congr_left fun j _ => ?_
  show ((ops.drop (j * OPS_PER_TX)).take OPS_PER_TX).map (·.op) = _
  rw [List.map_take, List.map_drop]

/-- The chunks of what is left are the chunks that are left. -/
theorem chunks_drop (ops : List ClassicOp) (k : ℕ) : chunks (ops.drop (k * OPS_PER_TX)) = (chunks ops).drop k := by
  have hcount : transactionCount (ops.drop (k * OPS_PER_TX)).length = transactionCount ops.length - k := by
    rw [List.length_drop]
    unfold transactionCount OPS_PER_TX
    omega
  unfold chunks
  refine List.ext_getElem ?_ fun j h h' => ?_
  · rw [List.length_map, List.length_range, hcount, List.length_drop, List.length_map, List.length_range]
  · rw [List.getElem_map, List.getElem_range, List.getElem_drop, List.getElem_map, List.getElem_range, List.drop_drop, Nat.add_mul]

theorem chunks_take (ops : List ClassicOp) {k : ℕ} (hk : k ≤ (chunks ops).length) :
    ((chunks ops).take k).flatten = ops.take (k * OPS_PER_TX) := by
  unfold chunks at hk ⊢
  rw [List.length_map, List.length_range] at hk
  rw [← List.map_take, List.take_range, Nat.min_eq_left hk, ← List.flatMap_def]
  exact flatMap_slices OPS_PER_TX ops k

theorem stepsOf_take (hk : k ≤ (stepsOf account ops).length) :
    ((stepsOf account ops).take k).flatMap (·.tx.operations) = (ops.map (·.op)).take (k * OPS_PER_TX) := by
  have hchunks : (stepsOf account ops).map (·.tx.operations) = chunks (ops.map (·.op)) := stepsOf_chunks
  have hle : k ≤ (chunks (ops.map (·.op))).length := by
    rw [← hchunks, List.length_map]
    exact hk
  rw [List.flatMap_def, List.map_take, hchunks, chunks_take _ hle]

end Left

/-! ## Going on exactly -/

section Exactly

variable (sdk : ClassicSdk) (numbers : JsNumbers) (trusts : String → Credit → Bool) (hash : Transaction → String)

def HorizonAccount.native (account : HorizonAccount) : List HorizonBalance := account.balances.filter fun b => !b.isIssued

/-- The snapshot shows what the steps left: the native balance as it then is, and trustlines, offers and data entries in any
order. -/
structure AsLeft (native : List HorizonBalance) (current : HorizonAccount) (l' : Ledger) : Prop where
  native : current.native = native
  trustlines : ∃ rows, rows.Perm l'.trustlines.rows ∧ List.Forall₂ ReadsTrustline current.issued rows
  offers : ∃ rows, rows.Perm l'.offers.rows ∧ List.Forall₂ ReadsOffer current.offers rows
  openOffers : current.openOffers = current.offers.length
  dataKeys : current.dataKeys.Perm l'.data.rows

/-- The plan goes on with the steps that are left of an account that is read after the confirmed ones, and goes on with no
other account. -/
structure ResumesExactly (result : Option ResumePlanResult) (steps : List CleanupStep) (k : ℕ) (native : List HorizonBalance)
    (current : HorizonAccount) (l' : Ledger) : Prop where
  continues : Reads current l' → current.native = native → ∃ remaining,
    result = some (.resumed k remaining k steps.length) ∧ remaining.map (·.tx.operations) = (steps.drop k).map (·.tx.operations)
  unchanged : ∀ first remaining completed total, result = some (.resumed first remaining completed total) →
    AsLeft native current l'

/-- The last operation is a payment: the removal of the trustline is in the next step. -/
def EndsInPayment (steps : List CleanupStep) : Prop :=
  ∃ d a n, (steps.flatMap (·.tx.operations)).getLast? = some (.payment d a n)

variable {sdk numbers trusts hash} {account current : HorizonAccount} {destination : String} {l l' : Ledger} {steps : List CleanupStep}
  {k : ℕ}

variable (current) in
/-- The steps that ran, and those that are built of what they left. -/
theorem after_steps (hreads : Reads account l) (hvalid : l.Valid sdk) (hdestination : sdk.isAccountId destination = true)
    (hother : destination ≠ l.account) (hsteps : buildCleanupSteps sdk numbers account destination = some steps)
    (hk : k < steps.length) (hrun : applyTxs trusts l ((steps.take k).map (·.tx)) = some l') :
    (∀ t ∈ l.trustlines.rows, ∃ asset, t.line = .credit asset) ∧
      Stopped destination l l' ((steps.take k).flatMap (·.tx.operations)).getLast? ∧
      (Reads current l' → ∃ remaining, buildCleanupSteps sdk numbers current destination = some remaining ∧
        remaining.map (·.tx.operations) = (steps.drop k).map (·.tx.operations)) := by
  obtain ⟨ops, hops, rfl⟩ := Option.map_eq_some_iff.mp hsteps
  obtain ⟨hcredit, hprices, heq⟩ := collectCleanupOps_ops hreads hvalid hdestination hops
  have hdone : ((stepsOf account ops).take k).flatMap (·.tx.operations) = (emptyingOps destination l).take (k * OPS_PER_TX) := by
    rw [stepsOf_take hk.le, heq]
  obtain ⟨final, hfinal, rfl⟩ := applyOps_of_applyTxs hrun
  rw [List.flatMap_map] at hfinal
  have hfinal' : applyOps trusts l ((emptyingOps destination l).take (k * OPS_PER_TX)) = some final := hdone ▸ hfinal
  obtain ⟨hleft, hstopped⟩ := emptyingOps_run hcredit hother (List.take_append_drop (k * OPS_PER_TX) _).symm hfinal'
  have hstopped' : Stopped destination l (final.withSequence (l.sequence + ((stepsOf account ops).take k |>.map (·.tx)).length))
      (((stepsOf account ops).take k).flatMap (·.tx.operations)).getLast? := by
    rw [hdone]
    exact ⟨hstopped.account, hstopped.offers, hstopped.fewer, hstopped.data, hstopped.lines⟩
  refine ⟨hcredit, hstopped', fun hcurrent => ?_⟩
  obtain ⟨ops', hops', heq'⟩ := collectCleanupOps_valid numbers hcurrent (hstopped'.valid hvalid) hdestination
    (hstopped'.credit hcredit) fun o ho => hprices o (hstopped'.offers o ho)
  refine ⟨stepsOf current ops', ?_, ?_⟩
  · unfold buildCleanupSteps
    rw [hops']
    rfl
  · have hleft' : ops'.map (·.op) = (emptyingOps destination l).drop (k * OPS_PER_TX) := heq'.trans hleft
    rw [stepsOf_chunks, hleft', chunks_drop, List.map_drop, stepsOf_chunks, heq]

/-- **A plan goes on exactly where it stopped** unless it stopped between the payment of an asset and the removal of its
trustline, and with other accounts when they differ in what it does not notice. -/
theorem resume_iff (native : List HorizonBalance) (now : ℕ) (confirmations : List (ConfirmedBy × String)) (hreads : Reads account l)
    (hvalid : l.Valid sdk) (hdestination : sdk.isAccountId destination = true) (hother : destination ≠ l.account)
    (hsteps : buildCleanupSteps sdk numbers account destination = some steps) (hk : k < steps.length)
    (hconfirmed : Confirms hash steps confirmations k) (hrun : applyTxs trusts l ((steps.take k).map (·.tx)) = some l') :
    ResumesExactly (resumeCleanupPlan sdk numbers current destination
        (recordAll (createPlanTracking hash now account destination steps) confirmations)) steps k native current l' ↔
      (Reads current l' → current.native = native → ¬ EndsInPayment (steps.take k)) ∧
        (AsLeft native current l' ∨ Noticed account current ∨ buildCleanupSteps sdk numbers current destination = none) := by
  obtain ⟨hcredit, hstopped, hrebuilt⟩ := after_steps current hreads hvalid hdestination hother hsteps hk hrun
  obtain ⟨haccount, htotal, hexpected, -⟩ := recordAll_spec (createPlanTracking hash now account destination steps) confirmations
  have hindices := confirmedIndices_recordAll account destination now hk.le hconfirmed
  obtain ⟨hresumes, hrefuses⟩ := resume_eq sdk numbers account current destination haccount (by rw [hexpected]; rfl)
    (by rw [hexpected]; rfl) hindices (by rw [htotal]; exact hk)
  constructor
  · rintro ⟨hcontinues, hunchanged⟩
    refine ⟨fun hcurrent hnative hends => ?_, ?_⟩
    · obtain ⟨remaining, hresult, -⟩ := hcontinues hcurrent hnative
      have hnoticed := (noticed_iff_of_stopped hreads hvalid hcredit hstopped hcurrent).mpr hends
      exact hrefuses hnoticed _ _ _ _ hresult
    · by_cases hnoticed : Noticed account current
      · exact .inr (.inl hnoticed)
      · cases hbuild : buildCleanupSteps sdk numbers current destination with
        | none => exact .inr (.inr rfl)
        | some remaining =>
          have hresult := hresumes hnoticed
          rw [hbuild] at hresult
          exact .inl (hunchanged _ _ _ _ hresult)
  · rintro ⟨hpayment, hleft⟩
    refine ⟨fun hcurrent hnative => ?_, fun first remaining completed total hresult => ?_⟩
    · have hnoticed : ¬ Noticed account current :=
        mt (noticed_iff_of_stopped hreads hvalid hcredit hstopped hcurrent).mp (hpayment hcurrent hnative)
      obtain ⟨remaining, hbuild, hoperations⟩ := hrebuilt hcurrent
      refine ⟨remaining, ?_, hoperations⟩
      rw [hresumes hnoticed, hbuild, htotal]
      rfl
    · by_cases hnoticed : Noticed account current
      · exact absurd hresult (hrefuses hnoticed _ _ _ _)
      · rcases hleft with hsame | hnoticed' | hnone
        · exact hsame
        · exact absurd hnoticed' hnoticed
        · rw [hresumes hnoticed, hnone] at hresult
          cases hresult

end Exactly

/-! ## A payment at the end of a transaction -/

section Example

def offerOf (i : ℕ) : Offer := ⟨toString i, .native, .credit sampleCredit, 1, 0, 0⟩

def horizonOfferOf (i : ℕ) : HorizonOffer :=
  ⟨toString i, "native", none, none, "credit_alphanum4", some sampleCredit.code, some sampleCredit.issuer, "1.0000000"⟩

/-- Ninety-nine offers, and twelve and a half of an asset. -/
def busyLedger : Ledger where
  account := sampleAccountId
  sequence := 100
  trustlines := sampleLines
  offers := ⟨(List.range 99).map offerOf, by
    rw [List.map_map]
    exact List.nodup_range.map fun m n heq => Nat.repr_injective heq⟩
  data := Table.empty

def busyAccount : HorizonAccount where
  accountId := sampleAccountId
  sequence := 100
  subentryCount := some 100
  balances := [⟨"credit_alphanum4", some sampleCredit.code, some sampleCredit.issuer, "12.5000000"⟩,
    ⟨"native", none, none, "100.0000000"⟩]
  dataKeys := []
  offers := (List.range 99).map horizonOfferOf
  openOffers := 99
  paginationIncomplete := false

/-- The account after the first hundred operations. -/
def paidAccount : HorizonAccount where
  accountId := sampleAccountId
  sequence := 101
  subentryCount := some 1
  balances := [⟨"credit_alphanum4", some sampleCredit.code, some sampleCredit.issuer, "0.0000000"⟩,
    ⟨"native", none, none, "99.9900000"⟩]
  dataKeys := []
  offers := []
  openOffers := 0
  paginationIncomplete := false

theorem priceUnits_one : priceUnits 1 = 10000000 := by
  unfold priceUnits
  norm_num

theorem busyAccount_reads : Reads busyAccount busyLedger where
  accountId := rfl
  sequence := rfl
  balances := .cons ⟨⟨by decide, rfl, rfl⟩, by decide⟩ .nil
  offers := by
    refine List.forall₂_map_left_iff.mpr (List.forall₂_map_right_iff.mpr (List.forall₂_same.mpr fun i _ => ?_))
    have htype : "credit_alphanum4" = assetTypeOf sampleCredit := by decide
    refine ⟨rfl, rfl, ⟨htype, rfl, rfl⟩, ?_⟩
    show "1.0000000" = amountText (priceUnits 1)
    rw [priceUnits_one]
    decide
  openOffers := rfl
  dataKeys := rfl

theorem busyLedger_valid : busyLedger.Valid plainSdk where
  lines t ht := by
    obtain rfl := List.mem_singleton.mp ht
    exact ⟨by norm_num, fun asset hasset => Line.credit.inj hasset ▸ sampleCredit_valid⟩
  offers o ho := by
    obtain ⟨i, hi, rfl⟩ := List.mem_map.mp ho
    have hlt : i < 2 ^ 63 := (List.mem_range.mp hi).trans (by norm_num)
    exact ⟨⟨i, hlt, rfl⟩, one_pos, by norm_num [offerOf], trivial, sampleCredit_valid⟩
  data name hname := absurd hname List.not_mem_nil

/-- The first hundred operations cancel the offers and pay the asset out. -/
theorem busyLedger_paid : ∃ l' : Ledger, applyOps (fun _ _ => true) busyLedger
      ((emptyingOps sampleDestination busyLedger).take (1 * OPS_PER_TX)) = some l' ∧
    l'.account = sampleAccountId ∧ l'.offers.rows = [] ∧ l'.trustlines.rows = [⟨.credit sampleCredit, 0⟩] ∧ l'.data.rows = [] := by
  have hops : (emptyingOps sampleDestination busyLedger).take (1 * OPS_PER_TX) =
      (busyLedger.offers.rows.map fun o => .manageSellOffer o.selling o.buying o.id) ++
        [.payment sampleDestination sampleCredit 125000000] := by
    have hlength : (busyLedger.offers.rows.map fun o => ClassicOp.manageSellOffer o.selling o.buying o.id).length = 99 := by
      rw [List.length_map]
      rfl
    unfold emptyingOps
    rw [List.append_assoc, List.take_append, hlength, List.take_of_length_le (by rw [hlength]; decide)]
    rfl
  have hpay : ∃ trustlines : Table Trustline.line, trustlines.rows = [⟨.credit sampleCredit, 0⟩] ∧
      applyOp (fun _ _ => true) { busyLedger with offers := Table.empty } (.payment sampleDestination sampleCredit 125000000) =
        some { busyLedger with offers := Table.empty, trustlines := trustlines } :=
    applyOp_payment rfl (by decide) (by norm_num) rfl rfl
  obtain ⟨trustlines, hrows, hpays⟩ := hpay
  refine ⟨{ busyLedger with offers := Table.empty, trustlines := trustlines }, ?_, rfl, rfl, hrows, rfl⟩
  rw [hops]
  refine foldlM_append_some.mpr ⟨_, applyOps_cancel rfl, foldlM_cons_some.mpr ⟨_, hpays, rfl⟩⟩

/-- The first of the two steps has run, and is confirmed. -/
theorem busyAccount_paid : ∃ (ops : List CleanupOp) (l' : Ledger),
    buildCleanupSteps plainSdk plainNumbers busyAccount sampleDestination = some (stepsOf busyAccount ops) ∧
    (stepsOf busyAccount ops).length = 2 ∧ Confirms (fun _ => "none") (stepsOf busyAccount ops) [(.index 0, "")] 1 ∧
    applyTxs (fun _ _ => true) busyLedger (((stepsOf busyAccount ops).take 1).map (·.tx)) = some l' ∧ Reads paidAccount l' := by
  obtain ⟨ops, hops, heq⟩ := collectCleanupOps_valid plainNumbers busyAccount_reads busyLedger_valid
    (show plainSdk.isAccountId sampleDestination = true by decide +kernel)
    (fun t ht => ⟨sampleCredit, by rw [List.mem_singleton.mp ht]⟩)
    (fun o ho => by
      obtain ⟨i, -, rfl⟩ := List.mem_map.mp ho
      show 0 < priceUnits 1
      rw [priceUnits_one]
      norm_num)
  have hsteps : buildCleanupSteps plainSdk plainNumbers busyAccount sampleDestination = some (stepsOf busyAccount ops) := by
    unfold buildCleanupSteps
    rw [hops]
    rfl
  have hlength : (stepsOf busyAccount ops).length = 2 := by
    rw [length_stepsOf, ← List.length_map fun o : CleanupOp => o.op, heq]
    rfl
  obtain ⟨final, hpaid, haccount, hoffers, hrows, hdata⟩ := busyLedger_paid
  have htake : (((stepsOf busyAccount ops).take 1).map (·.tx)).flatMap (·.operations) =
      (emptyingOps sampleDestination busyLedger).take (1 * OPS_PER_TX) := by
    rw [List.flatMap_map, stepsOf_take (by omega), heq]
  have hnext : ∀ (k : ℕ) tx, (((stepsOf busyAccount ops).take 1).map (·.tx))[k]? = some tx →
      tx.source = busyLedger.account ∧ tx.sequence = busyLedger.sequence + k + 1 := by
    intro k tx hk
    rw [List.getElem?_map] at hk
    obtain ⟨s, hs, rfl⟩ := Option.map_eq_some_iff.mp hk
    have hget : (stepsOf busyAccount ops)[k]? = some s := by
      rw [List.getElem?_take] at hs
      split at hs
      · exact hs
      · cases hs
    obtain ⟨hsequence, hsource⟩ := stepsOf_sequence hget
    exact ⟨hsource, hsequence⟩
  have hlength' : (((stepsOf busyAccount ops).take 1).map (·.tx)).length = 1 := by
    rw [List.length_map, List.length_take, hlength]
    rfl
  refine ⟨ops, _, hsteps, hlength, fun i s _ => by simp [eq_comm], applyTxs_of_applyOps hnext (htake ▸ hpaid), ?_⟩
  rw [hlength']
  refine ⟨haccount.symm, rfl, ?_, ?_, rfl, hdata.symm⟩
  · show List.Forall₂ ReadsTrustline _ final.trustlines.rows
    rw [hrows]
    exact .cons ⟨⟨by decide, rfl, rfl⟩, by decide⟩ .nil
  · show List.Forall₂ ReadsOffer [] final.offers.rows
    rw [hoffers]
    exact .nil

theorem resume_confirmed : ∃ (steps : List CleanupStep) (l' : Ledger),
    buildCleanupSteps plainSdk plainNumbers busyAccount sampleDestination = some steps ∧
    (ResumesExactly (resumeCleanupPlan plainSdk plainNumbers paidAccount sampleDestination
        (recordAll (createPlanTracking (fun _ => "none") 0 busyAccount sampleDestination steps) [(.index 0, "")])) steps 1
        paidAccount.native paidAccount l' ↔
      (Reads paidAccount l' → paidAccount.native = paidAccount.native → ¬ EndsInPayment (steps.take 1)) ∧
        (AsLeft paidAccount.native paidAccount l' ∨ Noticed busyAccount paidAccount ∨
          buildCleanupSteps plainSdk plainNumbers paidAccount sampleDestination = none)) := by
  obtain ⟨ops, l', hsteps, hlength, hconfirmed, hrun, -⟩ := busyAccount_paid
  exact ⟨_, l', hsteps, resume_iff paidAccount.native 0 [(.index 0, "")] busyAccount_reads busyLedger_valid (by decide +kernel)
    (by decide) hsteps (by omega) hconfirmed hrun⟩

/-- **A trustline that was paid out is taken for a change**: `"0.0000000"` is not `"0"`. -/
theorem paid_out_refused : ¬ ∀ (sdk : ClassicSdk) (numbers : JsNumbers) (trusts : String → Credit → Bool) (hash : Transaction → String)
    (account current : HorizonAccount) (destination : String) (l l' : Ledger) (steps : List CleanupStep) (k : ℕ)
    (native : List HorizonBalance) (now : ℕ) (confirmations : List (ConfirmedBy × String)),
    Reads account l → l.Valid sdk → sdk.isAccountId destination = true → destination ≠ l.account →
    buildCleanupSteps sdk numbers account destination = some steps → k < steps.length → Confirms hash steps confirmations k →
    applyTxs trusts l ((steps.take k).map (·.tx)) = some l' →
    ResumesExactly (resumeCleanupPlan sdk numbers current destination
      (recordAll (createPlanTracking hash now account destination steps) confirmations)) steps k native current l' := by
  intro h
  obtain ⟨ops, l', hsteps, hlength, hconfirmed, hrun, hpaidReads⟩ := busyAccount_paid
  have hexact := h plainSdk plainNumbers _ (fun _ => "none") busyAccount paidAccount sampleDestination busyLedger _ _ 1
    paidAccount.native 0 [(.index 0, "")] busyAccount_reads busyLedger_valid (by decide +kernel) (by decide) hsteps (by omega)
    hconfirmed hrun
  obtain ⟨remaining, hresult, -⟩ := hexact.continues hpaidReads rfl
  have hindices := confirmedIndices_recordAll busyAccount sampleDestination 0 (by omega) hconfirmed
  have hrefuses := (resume_eq plainSdk plainNumbers busyAccount paidAccount sampleDestination rfl rfl rfl hindices
    (show 1 < (stepsOf busyAccount ops).length by omega)).2
  have hentry : (sampleCredit.code ++ ":" ++ sampleCredit.issuer, "0.0000000") ∈ (balanceMap paidAccount.balances).rows := by
    decide
  have hchanged : isChanged (balanceMap busyAccount.balances) (sampleCredit.code ++ ":" ++ sampleCredit.issuer, "0.0000000") = true := by
    decide
  exact hrefuses (.inr (.inl ⟨_, hentry, .inr hchanged⟩)) _ _ _ _ hresult

end Example

end Vellar.Cleanup
