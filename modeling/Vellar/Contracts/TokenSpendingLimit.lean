import Vellar.Contracts.SpendingLimit

/-!
# Vellar.Contracts.TokenSpendingLimit — the token-scoped spending-limit policy

`contracts/policy-templates/token-spending-limit/src/lib.rs`: the budget of one bound token.  The contract
says it keeps every security invariant of `spending-limit` and changes the token scope only, so the second
half reads an instance as a `spending-limit` instance (`asSpendingLimit`) and says when the two agree.

* `addContext_of_spendingLimit`: what the older parser and rules let through, this one adds alike.
* `policy_preserves_iff`: a success here is the same success there exactly for the context lists whose every
  context is a three-argument `transfer` out of the wallet, at least one and at most `MAX_CONTEXTS` of them.
-/

set_option autoImplicit false

namespace Vellar.TokenSpendingLimit

open Checked Soroban

inductive PolicyError where
  | notAllowed
  | notInstalled
  | stillInstalled
  | invalidConfig
  | wrongWallet
deriving DecidableEq, Repr

def MIN_ALLOWANCE : ℤ := 1
def MIN_WINDOW_SECONDS : ℕ := 1
def MAX_WINDOW_SECONDS : ℕ := 60 * 60 * 24 * 365

structure Config where
  wallet : Address
  token : Address
  dailyLimit : I128
  windowSeconds : ℕ
deriving DecidableEq

structure Allowance where
  windowStart : ℕ
  spent : I128
deriving DecidableEq, Repr

structure Storage where
  config : Option Config
  installed : Address → Bool
  spend : Address → Option Allowance

/-- The storage before the constructor ran. -/
def Storage.fresh : Storage := ⟨none, fun _ => false, fun _ => none⟩

/-! ## The contract -/

/-- `__constructor`. -/
def constructor (wallet token : Address) (dailyLimit : I128) (windowSeconds : ℕ) :
    Except (Trap PolicyError) Storage := do
  require (¬ dailyLimit.val < MIN_ALLOWANCE) .invalidConfig
  require (¬ (windowSeconds < MIN_WINDOW_SECONDS ∨ windowSeconds > MAX_WINDOW_SECONDS)) .invalidConfig
  pure { Storage.fresh with config := some ⟨wallet, token, dailyLimit, windowSeconds⟩ }

/-- `load_config`. -/
def loadConfig (s : Storage) : Except (Trap PolicyError) Config := orPanic s.config .notInstalled

def install (env : Env) (s : Storage) (wallet : Address) : Except (Trap PolicyError) Storage := do
  env.requireAuth wallet
  let config ← loadConfig s
  require (wallet = config.wallet) .wrongWallet
  pure { s with installed := Function.update s.installed wallet true }

/-- `uninstall`; `getSigner` is the wallet's answer, `none` when the cross-contract call traps. -/
def uninstall (s : Storage) (wallet : Address) (getSigner : Option Bool) :
    Except (Trap PolicyError) Storage := do
  let stillSigner ← orStop getSigner .host
  require (¬ stillSigner) .stillInstalled
  pure { s with
    installed := Function.update s.installed wallet false
    spend := Function.update s.spend wallet none }

/-- The body of the loop over the contexts: of the arguments, only the third is read. -/
def addContext (source token : Address) (total : I128) : Context → Except (Trap PolicyError) I128
  | .contract c => do
    require (c.contract ≠ source) .notAllowed
    require (c.contract = token) .notAllowed
    require (c.fnName = "transfer") .notAllowed
    let amount ← orPanic (c.args[2]?.bind Val.toI128) .notAllowed
    require (¬ amount.val ≤ 0) .notAllowed
    orPanic (total.checkedAdd amount) .notAllowed
  | _ => .error (.error .notAllowed)

/-- The stored allowance as the check at `now` sees it; the subtraction saturates. -/
def currentAllowance (windowSeconds now : ℕ) (stored : Option Allowance) : Allowance :=
  let allowance := stored.getD ⟨now, .zero⟩
  if now - allowance.windowStart ≥ windowSeconds then ⟨now, .zero⟩ else allowance

/-- `policy__`. -/
def policy (env : Env) (s : Storage) (source : Address) (_signer : SignerKey) (contexts : List Context) :
    Except (Trap PolicyError) Storage := do
  env.requireAuth source
  let config ← loadConfig s
  require (source = config.wallet) .wrongWallet
  require (s.installed source = true) .notInstalled
  let total ← contexts.foldlM (addContext source config.token) .zero
  let allowance := currentAllowance config.windowSeconds env.timestamp (s.spend source)
  let newSpent ← orPanic (allowance.spent.checkedAdd total) .notAllowed
  require (¬ newSpent.val > config.dailyLimit.val) .notAllowed
  pure { s with spend := Function.update s.spend source (some ⟨allowance.windowStart, newSpent⟩) }

theorem addContext_ok {source token : Address} {total total' : I128} {context : Context} :
    addContext source token total context = .ok total' ↔
      ∃ args amount, context = .contract ⟨token, "transfer", args⟩ ∧ token ≠ source ∧
        args[2]? = some (.i128 amount) ∧ 0 < amount.val ∧ total'.val = total.val + amount.val := by
  cases context with
  | contract c =>
    obtain ⟨contract, fnName, args⟩ := c
    simp only [addContext, bind_ok, require_ok, orPanic_ok, exists_const, I128.checkedAdd_some,
      Option.bind_eq_some_iff, Val.toI128_some, not_le, Context.contract.injEq, ContractContext.mk.injEq]
    constructor
    · rintro ⟨h1, rfl, rfl, n, ⟨_, h2, rfl⟩, h3, h4⟩
      exact ⟨args, n, ⟨rfl, rfl, rfl⟩, h1, h2, h3, h4⟩
    · rintro ⟨_, n, ⟨rfl, rfl, rfl⟩, h1, h2, h3, h4⟩
      exact ⟨h1, rfl, rfl, n, ⟨_, h2, rfl⟩, h3, h4⟩
  | createContractHostFn => simp [addContext]
  | createContractWithCtorHostFn => simp [addContext]

theorem constructor_ok {wallet token : Address} {dailyLimit : I128} {windowSeconds : ℕ} {s : Storage} :
    constructor wallet token dailyLimit windowSeconds = .ok s ↔
      MIN_ALLOWANCE ≤ dailyLimit.val ∧ (MIN_WINDOW_SECONDS ≤ windowSeconds ∧ windowSeconds ≤ MAX_WINDOW_SECONDS) ∧
      s = { Storage.fresh with config := some ⟨wallet, token, dailyLimit, windowSeconds⟩ } := by
  unfold constructor
  simp only [check_bind_ok, require_ok, pure_ok, not_lt, not_or, @eq_comm _ _ s]

theorem policy_ok {env : Env} {s s' : Storage} {source : Address} {signer : SignerKey}
    {contexts : List Context} :
    policy env s source signer contexts = .ok s' ↔
      source ∈ env.auths ∧ ∃ config, s.config = some config ∧ source = config.wallet ∧
        s.installed source = true ∧
        ∃ total, contexts.foldlM (addContext source config.token) .zero = .ok total ∧
        ∃ newSpent : I128,
          newSpent.val = (currentAllowance config.windowSeconds env.timestamp (s.spend source)).spent.val +
            total.val ∧
          newSpent.val ≤ config.dailyLimit.val ∧
          s' = { s with spend := Function.update s.spend source (some
            ⟨(currentAllowance config.windowSeconds env.timestamp (s.spend source)).windowStart, newSpent⟩) } := by
  unfold policy loadConfig
  simp only [bind_ok, requireAuth_ok, require_ok, orPanic_ok, pure_ok, exists_const, not_lt,
    I128.checkedAdd_some, @eq_comm _ _ s']

/-! ## Against `spending-limit` -/

/-- The rules that name the bound token and cap nothing. -/
def tokenRules (token : Address) : SpendingLimit.SafetyRules := ⟨SpendingLimit.CapMap.empty, some [token]⟩

def Config.asSpendingLimit (c : Config) : SpendingLimit.Config :=
  ⟨c.wallet, c.dailyLimit, c.windowSeconds, tokenRules c.token⟩

def Allowance.asSpendingLimit (a : Allowance) : SpendingLimit.Allowance := ⟨a.windowStart, a.spent⟩

/-- The `spending-limit` instance with the same wallet, limit, window and state, allowed the bound token. -/
def Storage.asSpendingLimit (s : Storage) : SpendingLimit.Storage :=
  ⟨s.config.map Config.asSpendingLimit, s.installed, fun w => (s.spend w).map Allowance.asSpendingLimit⟩

/-- The arguments of a transfer out of the wallet to somebody else. -/
def FromWallet (wallet : Address) : Context → Prop
  | .contract c => ∃ toAddr amount, c.args = [.address wallet, .address toAddr, amount] ∧ toAddr ≠ wallet
  | _ => True

/-- The context lists on which the token policy asks for all that `spending-limit` asks for. -/
def Covered (wallet : Address) (contexts : List Context) : Prop :=
  contexts ≠ [] ∧ contexts.length ≤ SpendingLimit.MAX_CONTEXTS ∧ ∀ c ∈ contexts, FromWallet wallet c

section Agreement

variable {source token : Address} {total total' : I128} {context : Context}

theorem rulesAllow_tokenRules {t : SpendingLimit.ParsedTransfer} :
    SpendingLimit.RulesAllow (tokenRules token) t ↔ t.token = token := by
  simp [SpendingLimit.RulesAllow, tokenRules]

theorem addContext_of_spendingLimit
    (h : SpendingLimit.addContext source (tokenRules token) total context = .ok total') :
    addContext source token total context = .ok total' ∧ FromWallet source context := by
  obtain ⟨⟨_, amount⟩, ⟨toAddr, rfl, h1, h2, h3⟩, hrules, hsum⟩ := SpendingLimit.addContext_ok.mp h
  obtain rfl := rulesAllow_tokenRules.mp hrules
  exact ⟨addContext_ok.mpr ⟨_, amount, rfl, h1, rfl, h3, hsum⟩, toAddr, _, rfl, h2⟩

theorem spendingLimit_addContext (h : addContext source token total context = .ok total')
    (hfrom : FromWallet source context) :
    SpendingLimit.addContext source (tokenRules token) total context = .ok total' := by
  obtain ⟨args, amount, rfl, h1, h2, h3, hsum⟩ := addContext_ok.mp h
  obtain ⟨toAddr, v, rfl, h4⟩ := hfrom
  obtain rfl : v = .i128 amount := by simpa using h2
  exact SpendingLimit.addContext_ok.mpr
    ⟨⟨token, amount⟩, ⟨toAddr, rfl, h1, h4, h3⟩, rulesAllow_tokenRules.mpr rfl, hsum⟩

theorem currentAllowance_asSpendingLimit (windowSeconds now : ℕ) (stored : Option Allowance) :
    SpendingLimit.currentAllowance windowSeconds now (stored.map Allowance.asSpendingLimit) =
      (currentAllowance windowSeconds now stored).asSpendingLimit := by
  have hget : (stored.map Allowance.asSpendingLimit).getD ⟨now, .zero⟩ =
      (stored.getD ⟨now, .zero⟩).asSpendingLimit := by cases stored <;> rfl
  unfold SpendingLimit.currentAllowance currentAllowance
  simp only [hget]
  by_cases h : now - (stored.getD ⟨now, .zero⟩).windowStart ≥ windowSeconds
  · rw [if_pos h]
    exact if_pos h
  · rw [if_neg h]
    exact if_neg h

theorem asSpendingLimit_spend_update (s : Storage) (a : Allowance) :
    Storage.asSpendingLimit { s with spend := Function.update s.spend source (some a) } =
      { s.asSpendingLimit with
        spend := Function.update s.asSpendingLimit.spend source (some a.asSpendingLimit) } := by
  simp only [Storage.asSpendingLimit, SpendingLimit.Storage.mk.injEq, true_and]
  funext w
  by_cases hw : w = source
  · subst hw
    simp
  · simp [Function.update_of_ne hw]

end Agreement

/-- What `spending-limit` accepts is covered. -/
theorem covered_of_spendingLimit {env : Env} {s : Storage} {t : SpendingLimit.Storage} {source : Address}
    {signer : SignerKey} {contexts : List Context}
    (h : SpendingLimit.policy env s.asSpendingLimit source signer contexts = .ok t) :
    Covered source contexts := by
  obtain ⟨-, c, hc, -, -, hne, hlen, total, hfold, -⟩ := SpendingLimit.policy_ok.mp h
  obtain ⟨config, -, rfl⟩ := Option.map_eq_some_iff.mp hc
  refine ⟨hne, hlen, fun context hmem => ?_⟩
  obtain ⟨b₁, b₂, hb⟩ := foldlM_ok_mem hfold context hmem
  exact (addContext_of_spendingLimit hb).2

/-- **Exact agreement**: a success of the token policy is a success of `spending-limit` with the same
wallet, limit, window and state, its only allowed token the bound one, and writes the same allowances,
exactly when the contexts are `Covered`. -/
theorem policy_preserves_iff {env : Env} {s s' : Storage} {source : Address} {signer : SignerKey}
    {contexts : List Context} (h : policy env s source signer contexts = .ok s') :
    (∃ t, SpendingLimit.policy env s.asSpendingLimit source signer contexts = .ok t ∧
      t.spend = s'.asSpendingLimit.spend) ↔ Covered source contexts := by
  constructor
  · rintro ⟨t, ht, -⟩
    exact covered_of_spendingLimit ht
  · rintro ⟨hne, hlen, hcov⟩
    obtain ⟨hauth, config, hcfg, hsrc, hinst, total, hfold, newSpent, hnew, hle, rfl⟩ := policy_ok.mp h
    have hcfg' : s.asSpendingLimit.config = some config.asSpendingLimit := by
      simp [Storage.asSpendingLimit, hcfg]
    have hfold' : contexts.foldlM (SpendingLimit.addContext source (tokenRules config.token)) .zero =
        .ok total :=
      foldlM_mono (fun c hc _ _ hb => spendingLimit_addContext hb (hcov c hc)) hfold
    have hcur : SpendingLimit.currentAllowance config.windowSeconds env.timestamp
        (s.asSpendingLimit.spend source) =
          (currentAllowance config.windowSeconds env.timestamp (s.spend source)).asSpendingLimit :=
      currentAllowance_asSpendingLimit _ _ _
    refine ⟨_, SpendingLimit.policy_ok.mpr ⟨hauth, _, hcfg', hsrc, hinst, hne, hlen, total, hfold', newSpent,
      ?_, hle, rfl⟩, ?_⟩
    · exact hnew.trans (congrArg (fun a => a.spent.val + total.val) hcur.symm)
    · rw [asSpendingLimit_spend_update]
      simp only [Config.asSpendingLimit, hcur]
      rfl

/-! ### One transfer out of the wallet, one out of another account -/

def demoWallet : Address := ⟨"CWALLET"⟩

def demoToken : Address := ⟨"CUSDC"⟩

def demoEnv : Env := ⟨100, 7, ⟨"CPOLICY"⟩, [demoWallet]⟩

theorem ten_fits : 10 < 2 ^ 127 := by decide

def demoStorage : Storage :=
  ⟨some ⟨demoWallet, demoToken, .ofNat 10 ten_fits, 60⟩, fun w => w == demoWallet, fun _ => none⟩

def demoTransfer (fromAddr : Address) : Context :=
  .contract ⟨demoToken, "transfer", [.address fromAddr, .address ⟨"GPAYEE"⟩, .i128 (.ofNat 5 (by decide))]⟩

theorem policy_preserves_own_transfer :
    ∃ t, SpendingLimit.policy demoEnv demoStorage.asSpendingLimit demoWallet (.policy ⟨"CPOLICY"⟩)
      [demoTransfer demoWallet] = .ok t ∧
      t.spend = (Storage.asSpendingLimit { demoStorage with
        spend := Function.update demoStorage.spend demoWallet (some ⟨100, .ofNat 5 (by decide)⟩) }).spend := by
  refine (policy_preserves_iff ?_).mpr ⟨by simp, by decide, ?_⟩
  · rfl
  · simp [demoTransfer, FromWallet, demoWallet]

/-- The token policy authorizes a transfer out of an account that is not the wallet. -/
theorem policy_authorizes_foreign_transfer :
    ¬ ∀ (env : Env) (s s' : Storage) (source : Address) (signer : SignerKey) (contexts : List Context),
      policy env s source signer contexts = .ok s' →
      ∃ t, SpendingLimit.policy env s.asSpendingLimit source signer contexts = .ok t ∧
        t.spend = s'.asSpendingLimit.spend := by
  intro hall
  obtain ⟨t, ht, -⟩ := hall demoEnv demoStorage
    { demoStorage with
      spend := Function.update demoStorage.spend demoWallet (some ⟨100, .ofNat 5 (by decide)⟩) }
    demoWallet (.policy ⟨"CPOLICY"⟩) [demoTransfer ⟨"GOTHER"⟩] rfl
  obtain ⟨-, -, hfrom⟩ := covered_of_spendingLimit ht
  simpa [demoTransfer, FromWallet, demoWallet] using hfrom _ (List.mem_singleton.mpr rfl)

end Vellar.TokenSpendingLimit
