import Vellar.Contracts.SpendingLimit
import Vellar.Lib.Tumbling

/-!
# Vellar.Contracts.SpendingLimitRuns — whole runs of a spending-limit instance

Calls of the instance by anyone, in any order, failed ones rolled back.  The stored allowance of the bound
wallet is a `Tumbling.Meter`, and a successful `policy__` is one `Tumbling.charge` of it (`policy_charges`).
`Good` ties the storage to the history of authorized transfers; `step_good` and `run_good` carry it along a
run whose clock does not run back and in which no `uninstall` succeeds.
-/

set_option autoImplicit false

namespace Vellar.SpendingLimit

open Checked Soroban Machine Tumbling

/-- A call of the instance. -/
inductive Call where
  | install (env : Env) (wallet : Address)
  | uninstall (env : Env) (wallet : Address) (getSigner : Option Bool)
  | policy (env : Env) (source : Address) (signer : SignerKey) (contexts : List Context)

def Call.env : Call → Env
  | .install env _ => env
  | .uninstall env _ _ => env
  | .policy env _ _ _ => env

def Call.time (c : Call) : ℕ := c.env.timestamp

def exec (s : Storage) : Call → Except (Trap PolicyError) Storage
  | .install env wallet => Vellar.SpendingLimit.install env s wallet
  | .uninstall _ wallet getSigner => Vellar.SpendingLimit.uninstall s wallet getSigner
  | .policy env source signer contexts => Vellar.SpendingLimit.policy env s source signer contexts

/-- One call: a failed one leaves the storage alone. -/
def step (s : Storage) (c : Call) : Storage := commit s (exec s c)

/-- The call is not an `uninstall` that succeeds. -/
def NotUninstalled (s : Storage) : Call → Prop
  | .uninstall env wallet getSigner => ∀ s', exec s (.uninstall env wallet getSigner) ≠ .ok s'
  | _ => True

/-- The amount a context asks to move. -/
def amountOf : Context → ℤ
  | .contract c => ((c.args[2]?.bind Val.toI128).map I128.val).getD 0
  | _ => 0

/-- What a call authorizes: for a successful `policy__`, the sum over its contexts, at its time, in the
window it leaves stored. -/
def authorized (s : Storage) (c : Call) : List (Charge ℕ ℤ) :=
  match c, exec s c with
  | .policy env source _ contexts, .ok s' =>
    ((s'.spend source).map fun a => ⟨env.timestamp, a.windowStart, (contexts.map amountOf).sum⟩).toList
  | _, _ => []

/-- The allowance stored for a wallet, as a meter. -/
def meter (s : Storage) (wallet : Address) : Option (Meter ℕ ℤ) :=
  (s.spend wallet).map fun a => ⟨a.windowStart, a.spent.val⟩

/-! ## `policy__` is a charge of the meter -/

theorem amountOf_transfer {source : Address} {context : Context} {t : ParsedTransfer}
    (h : IsTransfer source context t) : amountOf context = t.amount.val := by
  obtain ⟨toAddr, rfl, -⟩ := h
  rfl

/-- The loop adds up the contexts' amounts, all of them positive. -/
theorem total_eq {source : Address} {rules : SafetyRules} {contexts : List Context} {total : I128}
    (h : contexts.foldlM (addContext source rules) .zero = .ok total) :
    total.val = (contexts.map amountOf).sum ∧ 0 ≤ total.val := by
  have := foldlM_inv (fun (rest : List Context) (acc : I128) =>
    acc.val + (rest.map amountOf).sum = (contexts.map amountOf).sum ∧ 0 ≤ acc.val) ?_ (by simp) h
  · simpa using this
  · rintro context rest acc acc' ⟨hsum, hpos⟩ hadd
    obtain ⟨t, ht, -, hacc⟩ := addContext_ok.mp hadd
    have hamt := amountOf_transfer ht
    obtain ⟨-, -, -, -, h0⟩ := ht
    rw [List.map_cons, List.sum_cons] at hsum
    constructor <;> omega

/-- The allowance the check starts from is the meter's open window. -/
theorem currentAllowance_eq {W : ℕ} (now : ℕ) (hW : 1 ≤ W) (stored : Option Allowance) :
    (⟨(currentAllowance W now stored).windowStart, (currentAllowance W now stored).spent.val⟩ : Meter ℕ ℤ) =
      openAt W now (stored.map fun a => ⟨a.windowStart, a.spent.val⟩) := by
  cases stored with
  | none =>
    simp only [currentAllowance, Option.getD_none, Option.map_none, openAt]
    split_ifs <;> rfl
  | some a =>
    simp only [currentAllowance, Option.getD_some, Option.map_some, openAt]
    by_cases h : a.windowStart + W ≤ now
    · rw [if_pos h, if_pos (by omega)]
      rfl
    · rw [if_neg h, if_neg (by omega)]

/-- **Refinement**: a successful `policy__` charges the sum of its amounts, and changes nothing else. -/
theorem policy_charges {env : Env} {s s' : Storage} {source : Address} {signer : SignerKey}
    {contexts : List Context} {config : Config} (hcfg : s.config = some config)
    (hW : 1 ≤ config.windowSeconds) (h : policy env s source signer contexts = .ok s') :
    source = config.wallet ∧ 0 ≤ (contexts.map amountOf).sum ∧ s'.config = s.config ∧
      (∀ w, w ≠ source → s'.spend w = s.spend w) ∧
      ∃ m', meter s' source = some m' ∧
        charge config.dailyLimit.val config.windowSeconds env.timestamp (contexts.map amountOf).sum
          (meter s source) = some m' := by
  obtain ⟨-, config', hcfg', hsrc, -, -, -, total, hfold, newSpent, hnew, hle, rfl⟩ := policy_ok.mp h
  obtain rfl := Option.some.inj (hcfg.symm.trans hcfg')
  obtain ⟨hsum, hpos⟩ := total_eq hfold
  have hopen := currentAllowance_eq env.timestamp hW (s.spend source)
  refine ⟨hsrc, hsum ▸ hpos, rfl, fun w hw => Function.update_of_ne hw _ _,
    ⟨(currentAllowance config.windowSeconds env.timestamp (s.spend source)).windowStart, newSpent.val⟩, ?_, ?_⟩
  · simp [meter]
  · unfold charge meter
    rw [← hopen, ← hsum]
    simp only
    rw [if_pos (hnew ▸ hle), hnew]

/-! ## The invariant of a run -/

/-- The storage of the instance with `config`, after the charges `h`. -/
structure Good (config : Config) (s : Storage) (h : List (Charge ℕ ℤ)) : Prop where
  cfg : s.config = some config
  others : ∀ w, w ≠ config.wallet → s.spend w = none
  inv : Inv config.dailyLimit.val config.windowSeconds (meter s config.wallet) h

theorem constructor_good {wallet : Address} {dailyLimit : I128} {windowSeconds : ℕ} {rules : SafetyRules}
    {s : Storage} (h : constructor wallet dailyLimit windowSeconds rules = .ok s) :
    Good ⟨wallet, dailyLimit, windowSeconds, rules⟩ s [] ∧ 1 ≤ windowSeconds := by
  obtain ⟨hlim, ⟨hwin, -⟩, -, rfl⟩ := constructor_ok.mp h
  unfold MIN_ALLOWANCE at hlim
  exact ⟨⟨rfl, fun _ _ => rfl, inv_none (by simp only; omega)⟩, hwin⟩

section Step

variable {config : Config} {s : Storage} {h : List (Charge ℕ ℤ)}

theorem step_error {c : Call} {e : Trap PolicyError} (he : exec s c = .error e) :
    step s c = s ∧ authorized s c = [] := by
  constructor
  · simp [step, he]
  · cases c <;> simp [authorized, he]

/-- **Step**: a call keeps the invariant, the history growing by what the call authorizes; the window it
leaves is the one before or opened by its own time. -/
theorem step_good (hg : Good config s h) (hW : 1 ≤ config.windowSeconds) {c : Call}
    (hnow : ∀ m, meter s config.wallet = some m → m.start ≤ c.time) (hc : NotUninstalled s c) :
    Good config (step s c) (h ++ authorized s c) ∧
      ∀ m, meter (step s c) config.wallet = some m → m.start ≤ c.time := by
  cases hex : exec s c with
  | error e =>
    obtain ⟨h1, h2⟩ := step_error hex
    rw [h1, h2, List.append_nil]
    exact ⟨hg, hnow⟩
  | ok s' =>
    have hs : step s c = s' := by simp [step, hex]
    rw [hs]
    cases c with
    | install env wallet =>
      have ha : authorized s (.install env wallet) = [] := by simp [authorized]
      obtain ⟨-, -, rfl⟩ := install_ok.mp hex
      rw [ha, List.append_nil]
      exact ⟨⟨hg.cfg, hg.others, hg.inv⟩, hnow⟩
    | uninstall env wallet getSigner => exact absurd hex (hc s')
    | policy env source signer contexts =>
      have hpol : policy env s source signer contexts = .ok s' := hex
      obtain ⟨rfl, hpos, hcfg, hframe, m', hm', hch⟩ := policy_charges hg.cfg hW hpol
      have ha : authorized s (.policy env config.wallet signer contexts) =
          [⟨env.timestamp, m'.start, (contexts.map amountOf).sum⟩] := by
        simp only [authorized, hex]
        obtain ⟨a, ha, rfl⟩ := Option.map_eq_some_iff.mp hm'
        rw [ha]
        rfl
      obtain ⟨hinv, hle⟩ := inv_charge (by omega) hg.inv hnow hpos hch
      rw [ha]
      refine ⟨⟨hcfg.trans hg.cfg, fun w hw => (hframe w hw).trans (hg.others w hw), hm' ▸ hinv⟩, ?_⟩
      intro m hm
      obtain rfl := Option.some.inj (hm'.symm.trans hm)
      exact hle

/-- **Run**: the invariant holds after every run whose clock does not run back. -/
theorem run_good (hW : 1 ≤ config.windowSeconds) :
    ∀ {calls : List Call} {s : Storage} {h : List (Charge ℕ ℤ)}, Good config s h →
      (∀ c ∈ calls, ∀ m, meter s config.wallet = some m → m.start ≤ c.time) →
      calls.Pairwise (fun c c' => c.time ≤ c'.time) → Along step NotUninstalled s calls →
      Good config (run step s calls) (h ++ logOf step authorized s calls)
  | [], s, h, hg, _, _, _ => by simpa [logOf] using hg
  | c :: calls, s, h, hg, hnow, hclock, hkeep => by
    obtain ⟨hfirst, hclock'⟩ := List.pairwise_cons.mp hclock
    obtain ⟨hg', hnow'⟩ := step_good hg hW (hnow c (by simp)) hkeep.1
    have := run_good hW hg' (fun c' hc' m hm => (hnow' m hm).trans (hfirst c' hc')) hclock' hkeep.2
    simpa [logOf, List.append_assoc] using this

end Step

/-- **Whole runs**: for an instance with limit `L` and window `W`, in every run without a successful
`uninstall`, the stored spend stays in `[0, L]`, the transfers authorized in any half-open interval of
length `W` add up to at most `2 * L`, and those of one stored window to at most `L`. -/
theorem runs_within_limit {wallet : Address} {dailyLimit : I128} {windowSeconds : ℕ} {rules : SafetyRules}
    {s : Storage} {calls : List Call}
    (hctor : constructor wallet dailyLimit windowSeconds rules = .ok s)
    (hclock : calls.Pairwise (fun c c' => c.time ≤ c'.time))
    (hkeep : Along step NotUninstalled s calls) :
    (∀ pre, pre <+: calls → ∀ w a, (run step s pre).spend w = some a →
      0 ≤ a.spent.val ∧ a.spent.val ≤ dailyLimit.val) ∧
    (∀ t : ℤ, sumOf (fun e : Charge ℕ ℤ => t ≤ (e.time : ℤ) ∧ (e.time : ℤ) < t + windowSeconds)
      (logOf step authorized s calls) ≤ 2 * dailyLimit.val) ∧
    (∀ w, windowSum w (logOf step authorized s calls) ≤ dailyLimit.val) := by
  obtain ⟨hg, hW⟩ := constructor_good hctor
  have hnone : meter s wallet = none := by
    obtain ⟨-, -, -, rfl⟩ := constructor_ok.mp hctor
    rfl
  have hrun : ∀ pre, pre <+: calls →
      Good ⟨wallet, dailyLimit, windowSeconds, rules⟩ (run step s pre) (logOf step authorized s pre) := by
    rintro pre ⟨post, rfl⟩
    exact run_good hW hg (by simp [hnone]) (List.pairwise_append.mp hclock).1 (along_append.mp hkeep).1
  have hall := (hrun calls (List.prefix_refl _)).inv
  refine ⟨fun pre hpre w a ha => ?_, fun t => ?_, hall.windowSum_le⟩
  · have hp := hrun pre hpre
    by_cases hw : w = wallet
    · subst hw
      exact hp.inv.spent_le (c := ⟨a.windowStart, a.spent.val⟩) (by simp [meter, ha])
    · rw [hp.others w hw] at ha
      exact absurd ha (by simp)
  · rw [two_mul]
    exact hall.sum_near_le (fun x : ℕ => t ≤ (x : ℤ) ∧ (x : ℤ) < t + windowSeconds)
      (fun x y hx hy => by simp only at hx hy ⊢; omega)

/-! ### The boundary run: the whole limit before a reset, the whole limit after it -/

def boundaryWallet : Address := ⟨"CWALLET"⟩

def boundaryRules : SafetyRules := ⟨CapMap.empty, none⟩

/-- A `policy__` call at `t` on one transfer of `n`. -/
def boundaryCall (t : ℕ) (n : I128) : Call :=
  .policy ⟨t, 0, ⟨"CPOLICY"⟩, [boundaryWallet]⟩ boundaryWallet (.policy ⟨"CPOLICY"⟩)
    [.contract ⟨⟨"CTOKEN"⟩, "transfer", [.address boundaryWallet, .address ⟨"GPAYEE"⟩, .i128 n]⟩]

def boundaryCalls : List Call :=
  [.install ⟨0, 0, ⟨"CPOLICY"⟩, [boundaryWallet]⟩ boundaryWallet, boundaryCall 0 (.ofNat 1 (by decide)),
    boundaryCall 4 (.ofNat 9 (by decide)), boundaryCall 5 (.ofNat 10 (by decide))]

def boundaryStorage : Storage :=
  { Storage.fresh with config := some ⟨boundaryWallet, .ofNat 10 (by decide), 5, boundaryRules⟩ }

theorem runs_within_limit_boundary :
    (logOf step authorized boundaryStorage boundaryCalls).map Charge.amount = [1, 9, 10] ∧
    (∀ w a, (run step boundaryStorage boundaryCalls).spend w = some a →
      0 ≤ a.spent.val ∧ a.spent.val ≤ 10) ∧
    sumOf (fun e : Charge ℕ ℤ => 4 ≤ (e.time : ℤ) ∧ (e.time : ℤ) < 4 + (5 : ℕ))
      (logOf step authorized boundaryStorage boundaryCalls) ≤ 2 * 10 ∧
    windowSum 0 (logOf step authorized boundaryStorage boundaryCalls) ≤ 10 := by
  obtain ⟨h1, h2, h3⟩ := @runs_within_limit boundaryWallet (.ofNat 10 (by decide)) 5 boundaryRules
    boundaryStorage boundaryCalls rfl (by decide) ⟨trivial, trivial, trivial, trivial, trivial⟩
  exact ⟨by decide, h1 _ (List.prefix_refl _), h2 4, h3 0⟩

end Vellar.SpendingLimit
