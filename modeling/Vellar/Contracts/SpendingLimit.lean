import Vellar.Soroban.Host

/-!
# Vellar.Contracts.SpendingLimit — the configurable spending-limit policy

`contracts/policy-templates/spending-limit/src/lib.rs`, function by function: the constructor and its rule
checks, `install`, `uninstall`, `policy__` with the per-context parser and the safety rules.
`policy_ok` says once when `policy__` succeeds and what it writes.
-/

set_option autoImplicit false

namespace Vellar.SpendingLimit

open Checked Soroban

inductive PolicyError where
  | notAllowed
  | notInstalled
  | stillInstalled
  | invalidConfig
  | wrongWallet
  | tokenNotAllowed
  | singleTransferExceeded
  | contextMismatch
  | tooManyContexts
deriving DecidableEq, Repr

def MIN_ALLOWANCE : ℤ := 1
def MIN_WINDOW_SECONDS : ℕ := 1
def MAX_WINDOW_SECONDS : ℕ := 60 * 60 * 24 * 365
def MAX_RULE_ENTRIES : ℕ := 8
def MAX_CONTEXTS : ℕ := 16

/-- `Map<Address, i128>`: the entries, no key twice. -/
structure CapMap where
  entries : List (Address × I128)
  nodup : (entries.map Prod.fst).Nodup
deriving DecidableEq

def CapMap.empty : CapMap := ⟨[], List.nodup_nil⟩

def CapMap.get (m : CapMap) (token : Address) : Option I128 := m.entries.lookup token

@[simp] theorem CapMap.get_empty (token : Address) : CapMap.empty.get token = none := rfl

structure SafetyRules where
  maxSingleTransfer : CapMap
  allowedTokens : Option (List Address)
deriving DecidableEq

structure Config where
  wallet : Address
  dailyLimit : I128
  windowSeconds : ℕ
  rules : SafetyRules
deriving DecidableEq

structure Allowance where
  windowStart : ℕ
  spent : I128
deriving DecidableEq, Repr

structure ParsedTransfer where
  token : Address
  amount : I128
deriving DecidableEq, Repr

/-- The instance's storage: `Config` in instance storage, `Installed` and `Spend` per wallet. -/
structure Storage where
  config : Option Config
  installed : Address → Bool
  spend : Address → Option Allowance

/-- The storage before the constructor ran. -/
def Storage.fresh : Storage := ⟨none, fun _ => false, fun _ => none⟩

/-! ## The contract -/

/-- `validate_rules`. -/
def validateRules (wallet : Address) (rules : SafetyRules) : Except (Trap PolicyError) Unit := do
  require (rules.maxSingleTransfer.entries.length ≤ MAX_RULE_ENTRIES) .invalidConfig
  forM rules.maxSingleTransfer.entries fun e =>
    require (¬ (e.2.val < MIN_ALLOWANCE ∨ e.1 = wallet)) .invalidConfig
  whenSome rules.allowedTokens fun tokens => do
    require (¬ (tokens = [] ∨ tokens.length > MAX_RULE_ENTRIES)) .invalidConfig
    forM tokens fun token => require (token ≠ wallet) .invalidConfig

/-- `__constructor`. -/
def constructor (wallet : Address) (dailyLimit : I128) (windowSeconds : ℕ) (rules : SafetyRules) :
    Except (Trap PolicyError) Storage := do
  require (¬ dailyLimit.val < MIN_ALLOWANCE) .invalidConfig
  require (¬ (windowSeconds < MIN_WINDOW_SECONDS ∨ windowSeconds > MAX_WINDOW_SECONDS)) .invalidConfig
  validateRules wallet rules
  pure { Storage.fresh with config := some ⟨wallet, dailyLimit, windowSeconds, rules⟩ }

/-- `load_config`. -/
def loadConfig (s : Storage) : Except (Trap PolicyError) Config := orPanic s.config .notInstalled

def install (env : Env) (s : Storage) (wallet : Address) : Except (Trap PolicyError) Storage := do
  env.requireAuth wallet
  let config ← loadConfig s
  require (wallet = config.wallet) .wrongWallet
  pure { s with installed := Function.update s.installed wallet true }

/-- `uninstall`; `getSigner` is the wallet's answer to `get_signer(Policy(this contract))`, `none` when the
cross-contract call traps. -/
def uninstall (s : Storage) (wallet : Address) (getSigner : Option Bool) :
    Except (Trap PolicyError) Storage := do
  let stillSigner ← orStop getSigner .host
  require (¬ stillSigner) .stillInstalled
  pure { s with
    installed := Function.update s.installed wallet false
    spend := Function.update s.spend wallet none }

/-- `parse_transfer`. -/
def parseTransfer (source : Address) : Context → Except (Trap PolicyError) ParsedTransfer
  | .contract c => do
    require (c.contract ≠ source) .notAllowed
    require (c.fnName = "transfer") .notAllowed
    require (c.args.length = 3) .notAllowed
    let fromAddr ← orPanic (c.args[0]?.bind Val.toAddress) .notAllowed
    require (fromAddr = source) .contextMismatch
    let toAddr ← orPanic (c.args[1]?.bind Val.toAddress) .notAllowed
    require (toAddr ≠ source) .notAllowed
    let amount ← orPanic (c.args[2]?.bind Val.toI128) .notAllowed
    require (¬ amount.val ≤ 0) .notAllowed
    pure ⟨c.contract, amount⟩
  | _ => .error (.error .notAllowed)

/-- `apply_rules`. -/
def applyRules (rules : SafetyRules) (transfer : ParsedTransfer) : Except (Trap PolicyError) Unit := do
  whenSome rules.allowedTokens fun tokens => require (transfer.token ∈ tokens) .tokenNotAllowed
  whenSome (rules.maxSingleTransfer.get transfer.token) fun cap =>
    require (¬ transfer.amount.val > cap.val) .singleTransferExceeded

/-- The body of the loop over the contexts. -/
def addContext (source : Address) (rules : SafetyRules) (total : I128) (context : Context) :
    Except (Trap PolicyError) I128 := do
  let transfer ← parseTransfer source context
  applyRules rules transfer
  orPanic (total.checkedAdd transfer.amount) .notAllowed

/-- The stored allowance as the check at `now` sees it: a missing one starts now, a window that is over is
reset.  The subtraction saturates. -/
def currentAllowance (windowSeconds now : ℕ) (stored : Option Allowance) : Allowance :=
  let allowance := stored.getD ⟨now, .zero⟩
  if now - allowance.windowStart ≥ windowSeconds then ⟨now, .zero⟩ else allowance

/-- `policy__`. -/
def policy (env : Env) (s : Storage) (source : Address) (_signer : SignerKey) (contexts : List Context) :
    Except (Trap PolicyError) Storage := do
  env.requireAuth source
  let config ← loadConfig s
  require (source = config.wallet) .wrongWallet
  require (s.installed source = true) .notInstalled
  require (contexts ≠ []) .notAllowed
  require (¬ contexts.length > MAX_CONTEXTS) .tooManyContexts
  let total ← contexts.foldlM (addContext source config.rules) .zero
  let allowance := currentAllowance config.windowSeconds env.timestamp (s.spend source)
  let newSpent ← orPanic (allowance.spent.checkedAdd total) .notAllowed
  require (¬ newSpent.val > config.dailyLimit.val) .notAllowed
  pure { s with spend := Function.update s.spend source (some ⟨allowance.windowStart, newSpent⟩) }

/-! ## One spec for each function -/

theorem validateRules_ok {wallet : Address} {rules : SafetyRules} {u : Unit} :
    validateRules wallet rules = .ok u ↔
      rules.maxSingleTransfer.entries.length ≤ MAX_RULE_ENTRIES ∧
      (∀ e ∈ rules.maxSingleTransfer.entries, MIN_ALLOWANCE ≤ e.2.val ∧ e.1 ≠ wallet) ∧
      ∀ tokens, rules.allowedTokens = some tokens →
        tokens ≠ [] ∧ tokens.length ≤ MAX_RULE_ENTRIES ∧ ∀ token ∈ tokens, token ≠ wallet := by
  unfold validateRules
  simp only [check_bind_ok, require_ok, forM_ok, whenSome_ok, not_or, not_lt, and_assoc, ne_eq]

theorem constructor_ok {wallet : Address} {dailyLimit : I128} {windowSeconds : ℕ} {rules : SafetyRules}
    {s : Storage} :
    constructor wallet dailyLimit windowSeconds rules = .ok s ↔
      MIN_ALLOWANCE ≤ dailyLimit.val ∧
      (MIN_WINDOW_SECONDS ≤ windowSeconds ∧ windowSeconds ≤ MAX_WINDOW_SECONDS) ∧
      validateRules wallet rules = .ok () ∧
      s = { Storage.fresh with config := some ⟨wallet, dailyLimit, windowSeconds, rules⟩ } := by
  unfold constructor
  simp only [check_bind_ok, require_ok, pure_ok, not_lt, not_or, @eq_comm _ _ s]

theorem install_ok {env : Env} {s s' : Storage} {wallet : Address} :
    install env s wallet = .ok s' ↔
      wallet ∈ env.auths ∧ (∃ config, s.config = some config ∧ wallet = config.wallet) ∧
      s' = { s with installed := Function.update s.installed wallet true } := by
  unfold install loadConfig
  simp only [bind_ok, requireAuth_ok, require_ok, orPanic_ok, pure_ok, exists_const, @eq_comm _ _ s']
  constructor
  · rintro ⟨h1, c, h2, h3, h4⟩
    exact ⟨h1, ⟨c, h2, h3⟩, h4⟩
  · rintro ⟨h1, ⟨c, h2, h3⟩, h4⟩
    exact ⟨h1, c, h2, h3, h4⟩

/-- The one shape of context the policy authorizes. -/
def IsTransfer (source : Address) (context : Context) (t : ParsedTransfer) : Prop :=
  ∃ toAddr, context = .contract ⟨t.token, "transfer", [.address source, .address toAddr, .i128 t.amount]⟩ ∧
    t.token ≠ source ∧ toAddr ≠ source ∧ 0 < t.amount.val

theorem parseTransfer_ok {source : Address} {context : Context} {t : ParsedTransfer} :
    parseTransfer source context = .ok t ↔ IsTransfer source context t := by
  constructor
  · intro h
    cases context with
    | contract c =>
      obtain ⟨contract, fnName, args⟩ := c
      simp only [parseTransfer, bind_ok, require_ok, orPanic_ok, pure_ok, exists_const] at h
      obtain ⟨h1, h2, h3, fromAddr, hfrom, rfl, toAddr, hto, h4, n, hn, h5, rfl⟩ := h
      obtain ⟨a, b, c, rfl⟩ := List.length_eq_three.mp h3
      simp only [List.getElem?_cons_zero, List.getElem?_cons_succ, Option.bind_some, Val.toAddress_some,
        Val.toI128_some] at hfrom hto hn
      subst hfrom hto hn h2
      exact ⟨toAddr, rfl, h1, h4, not_le.mp h5⟩
    | createContractHostFn => simp [parseTransfer] at h
    | createContractWithCtorHostFn => simp [parseTransfer] at h
  · rintro ⟨toAddr, rfl, h1, h2, h3⟩
    simp only [parseTransfer, bind_ok, require_ok, orPanic_ok, pure_ok, exists_const]
    exact ⟨h1, trivial, rfl, source, rfl, rfl, toAddr, rfl, h2, t.amount, rfl, not_le.mpr h3, rfl⟩

/-- A transfer the safety rules let through. -/
def RulesAllow (rules : SafetyRules) (t : ParsedTransfer) : Prop :=
  (∀ tokens, rules.allowedTokens = some tokens → t.token ∈ tokens) ∧
  (∀ cap, rules.maxSingleTransfer.get t.token = some cap → t.amount.val ≤ cap.val)

theorem applyRules_ok {rules : SafetyRules} {t : ParsedTransfer} {u : Unit} :
    applyRules rules t = .ok u ↔ RulesAllow rules t := by
  unfold applyRules RulesAllow
  simp only [check_bind_ok, whenSome_ok, require_ok, not_lt]

theorem addContext_ok {source : Address} {rules : SafetyRules} {total total' : I128} {context : Context} :
    addContext source rules total context = .ok total' ↔
      ∃ t, IsTransfer source context t ∧ RulesAllow rules t ∧ total'.val = total.val + t.amount.val := by
  unfold addContext
  simp only [bind_ok, parseTransfer_ok, applyRules_ok, orPanic_ok, exists_const, I128.checkedAdd_some]

/-- **`policy__`**: when it succeeds, and what it writes. -/
theorem policy_ok {env : Env} {s s' : Storage} {source : Address} {signer : SignerKey}
    {contexts : List Context} :
    policy env s source signer contexts = .ok s' ↔
      source ∈ env.auths ∧ ∃ config, s.config = some config ∧ source = config.wallet ∧
        s.installed source = true ∧ contexts ≠ [] ∧ contexts.length ≤ MAX_CONTEXTS ∧
        ∃ total, contexts.foldlM (addContext source config.rules) .zero = .ok total ∧
        ∃ newSpent : I128,
          newSpent.val = (currentAllowance config.windowSeconds env.timestamp (s.spend source)).spent.val +
            total.val ∧
          newSpent.val ≤ config.dailyLimit.val ∧
          s' = { s with spend := Function.update s.spend source (some
            ⟨(currentAllowance config.windowSeconds env.timestamp (s.spend source)).windowStart, newSpent⟩) } := by
  unfold policy loadConfig
  simp only [bind_ok, requireAuth_ok, require_ok, orPanic_ok, pure_ok, exists_const, not_lt,
    I128.checkedAdd_some, @eq_comm _ _ s']

end Vellar.SpendingLimit
