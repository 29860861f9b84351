import Vellar.Contracts.SpendingLimitRuns
import Vellar.Contracts.TokenSpendingLimit

/-!
# Vellar.Contracts.TokenSpendingLimitRuns — whole runs of a token-scoped instance

Calls of the instance by anyone, in any order, failed ones rolled back.  `run_inv`: what the instance authorizes for its wallet
is metered by its window, until an `uninstall` succeeds.
-/

set_option autoImplicit false

namespace Vellar.TokenSpendingLimit

open Checked Soroban Machine Tumbling
open SpendingLimit (amountOf)

inductive Call where
  | install (env : Env) (wallet : Address)
  | uninstall (env : Env) (wallet : Address) (getSigner : Option Bool)
  | policy (env : Env) (source : Address) (signer : SignerKey) (contexts : List Context)
deriving DecidableEq

def Call.env : Call → Env
  | .install env _ => env
  | .uninstall env _ _ => env
  | .policy env _ _ _ => env

def Call.time (c : Call) : ℕ := c.env.timestamp

def exec (s : Storage) : Call → Except (Trap PolicyError) Storage
  | .install env wallet => Vellar.TokenSpendingLimit.install env s wallet
  | .uninstall _ wallet getSigner => Vellar.TokenSpendingLimit.uninstall s wallet getSigner
  | .policy env source signer contexts => Vellar.TokenSpendingLimit.policy env s source signer contexts

def step (s : Storage) (c : Call) : Storage := commit s (exec s c)

/-- The call is not an `uninstall` that succeeds. -/
def NotUninstalled (s : Storage) : Call → Prop
  | .uninstall env wallet getSigner => ∀ s', exec s (.uninstall env wallet getSigner) ≠ .ok s'
  | _ => True

/-- What a call authorizes: for a successful `policy__`, the sum over its contexts, in the window it leaves stored. -/
def authorized (s : Storage) (c : Call) : List (Charge ℕ ℤ) :=
  match c, exec s c with
  | .policy env source _ contexts, .ok s' =>
    ((s'.spend source).map fun a => ⟨env.timestamp, a.windowStart, (contexts.map amountOf).sum⟩).toList
  | _, _ => []

/-- The allowance stored for a wallet, as a meter. -/
def meter (wallet : Address) (s : Storage) : Option (Meter ℕ ℤ) := (s.spend wallet).map fun a => ⟨a.windowStart, a.spent.val⟩

/-! ## `policy__` is a charge of the meter -/

/-- A positive amount of the bound token is moved. -/
def Moves (source token : Address) (context : Context) : Prop :=
  ∃ args amount, context = .contract ⟨token, "transfer", args⟩ ∧ token ≠ source ∧ args[2]? = some (.i128 amount) ∧ 0 < amount.val

theorem amountOf_moves {contract : Address} {args : List Val} {amount : I128} (h : args[2]? = some (.i128 amount)) :
    amountOf (.contract ⟨contract, "transfer", args⟩) = amount.val := by
  show ((args[2]?.bind Val.toI128).map I128.val).getD 0 = amount.val
  rw [h]
  rfl

theorem Moves.amount_pos {source token : Address} {context : Context} (h : Moves source token context) : 0 < amountOf context := by
  obtain ⟨args, amount, rfl, -, hamount, hpos⟩ := h
  rw [amountOf_moves hamount]
  exact hpos

/-- The loop adds up what its contexts move. -/
theorem total_eq {source token : Address} {contexts : List Context} {total : I128}
    (h : contexts.foldlM (addContext source token) .zero = .ok total) :
    total.val = (contexts.map amountOf).sum ∧ ∀ context ∈ contexts, Moves source token context := by
  have hmoves : ∀ context ∈ contexts, Moves source token context := by
    intro context hcontext
    obtain ⟨b₁, b₂, hb⟩ := foldlM_ok_mem h context hcontext
    obtain ⟨args, amount, hc, hne, hamount, hpos, -⟩ := addContext_ok.mp hb
    exact ⟨args, amount, hc, hne, hamount, hpos⟩
  have hsum := foldlM_inv (fun (rest : List Context) (acc : I128) =>
    acc.val + (rest.map amountOf).sum = (contexts.map amountOf).sum) ?_ (by simp) h
  · exact ⟨by simpa using hsum, hmoves⟩
  · intro context rest acc acc' hacc hadd
    obtain ⟨args, amount, rfl, -, hamount, -, hnext⟩ := addContext_ok.mp hadd
    rw [List.map_cons, List.sum_cons, amountOf_moves hamount] at hacc
    omega

theorem currentAllowance_eq {W : ℕ} (now : ℕ) (hW : 1 ≤ W) (stored : Option Allowance) :
    (⟨(currentAllowance W now stored).windowStart, (currentAllowance W now stored).spent.val⟩ : Meter ℕ ℤ) =
      openAt W now (stored.map fun a => ⟨a.windowStart, a.spent.val⟩) := by
  have hshared := SpendingLimit.currentAllowance_eq now hW (stored.map Allowance.asSpendingLimit)
  rw [currentAllowance_asSpendingLimit, Option.map_map] at hshared
  exact hshared

/-- **Refinement**: a successful `policy__` charges the sum of its amounts. -/
theorem policy_charges {env : Env} {s s' : Storage} {source : Address} {signer : SignerKey} {contexts : List Context} {config : Config}
    (hcfg : s.config = some config) (hW : 1 ≤ config.windowSeconds) (h : policy env s source signer contexts = .ok s') :
    source = config.wallet ∧ (∀ context ∈ contexts, Moves source config.token context) ∧ s'.config = s.config ∧
      ∃ m', meter source s' = some m' ∧
        charge config.dailyLimit.val config.windowSeconds env.timestamp (contexts.map amountOf).sum (meter source s) = some m' := by
  obtain ⟨-, config', hcfg', hsrc, -, total, hfold, newSpent, hnew, hle, rfl⟩ := policy_ok.mp h
  obtain rfl := Option.some.inj (hcfg.symm.trans hcfg')
  obtain ⟨hsum, hmoves⟩ := total_eq hfold
  have hopen := currentAllowance_eq env.timestamp hW (s.spend source)
  refine ⟨hsrc, hmoves, rfl,
    ⟨(currentAllowance config.windowSeconds env.timestamp (s.spend source)).windowStart, newSpent.val⟩, ?_, ?_⟩
  · simp [meter]
  · unfold charge meter
    rw [← hopen, ← hsum]
    simp only
    rw [if_pos (hnew ▸ hle), hnew]

theorem sum_nonneg {source token : Address} {contexts : List Context} (h : ∀ context ∈ contexts, Moves source token context) :
    0 ≤ (contexts.map amountOf).sum := by
  refine List.sum_nonneg ?_
  intro amount hamount
  obtain ⟨context, hcontext, rfl⟩ := List.mem_map.mp hamount
  exact (h context hcontext).amount_pos.le

/-! ## Runs -/

section Runs

variable {config : Config} {s : Storage} {c : Call}

/-- What a successful `policy__` emits. -/
theorem authorized_policy {env : Env} {source : Address} {signer : SignerKey} {contexts : List Context} {s' : Storage} {m' : Meter ℕ ℤ}
    (h : exec s (.policy env source signer contexts) = .ok s') (hm : meter source s' = some m') :
    authorized s (.policy env source signer contexts) = [⟨env.timestamp, m'.start, (contexts.map amountOf).sum⟩] := by
  simp only [authorized, h]
  obtain ⟨a, ha, rfl⟩ := Option.map_eq_some_iff.mp hm
  rw [ha]
  rfl

/-- **Step**: a call keeps the configuration and charges the meter, or leaves it. -/
theorem step_metered (hcfg : s.config = some config) (hW : 1 ≤ config.windowSeconds) (hc : NotUninstalled s c) :
    (step s c).config = some config ∧
      Metered config.dailyLimit.val config.windowSeconds step (meter config.wallet) Call.time authorized s c := by
  cases hex : exec s c with
  | error e =>
    have hstay : step s c = s := by simp [step, hex]
    refine ⟨by rw [hstay, hcfg], .inl ⟨?_, by rw [hstay]⟩⟩
    cases c <;> simp [authorized, hex]
  | ok s' =>
    have hs : step s c = s' := by simp [step, hex]
    rw [hs]
    cases c with
    | install env wallet =>
      simp only [exec, install, loadConfig, bind_ok, orPanic_ok, require_ok, pure_ok] at hex
      obtain ⟨-, -, -, -, -, -, rfl⟩ := hex
      refine ⟨hcfg, .inl ⟨?_, by rw [hs]; rfl⟩⟩
      simp [authorized]
    | uninstall env wallet getSigner => exact absurd hex (hc s')
    | policy env source signer contexts =>
      have hok : policy env s source signer contexts = .ok s' := hex
      obtain ⟨rfl, hmoves, hcfg', m', hm', hcharge⟩ := policy_charges hcfg hW hok
      exact ⟨hcfg'.trans hcfg, .inr ⟨_, m', sum_nonneg hmoves, hcharge, hs ▸ hm', authorized_policy hex hm'⟩⟩

/-- **Run**: what a deployed instance authorizes is metered. -/
theorem run_inv {wallet token : Address} {dailyLimit : I128} {windowSeconds : ℕ} {calls : List Call}
    (hctor : constructor wallet token dailyLimit windowSeconds = .ok s) (hclock : calls.Pairwise fun c c' => c.time ≤ c'.time)
    (hkeep : Along step NotUninstalled s calls) :
    Inv dailyLimit.val windowSeconds (meter wallet (run step s calls)) (logOf step authorized s calls) := by
  obtain ⟨hlimit, ⟨hwindow, -⟩, rfl⟩ := constructor_ok.mp hctor
  unfold MIN_ALLOWANCE at hlimit
  unfold MIN_WINDOW_SECONDS at hwindow
  have hstart : meter wallet { Storage.fresh with config := some ⟨wallet, token, dailyLimit, windowSeconds⟩ } = none := rfl
  refine inv_metered (h := []) (P := fun s => s.config = some ⟨wallet, token, dailyLimit, windowSeconds⟩) hwindow
    (fun s c hs hc => step_metered hs hwindow hc) rfl ?_ ?_ hclock hkeep
  · rw [hstart]
    exact inv_none (by omega)
  · rw [hstart]
    intro c _ m hm
    cases hm

end Runs

end Vellar.TokenSpendingLimit
