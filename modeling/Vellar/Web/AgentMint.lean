import Vellar.Extension.TxSummary
import Vellar.Lib.Machine

/-!
# Vellar.Web.AgentMint — minting an agent key, step by step

The reducer of `apps/web/lib/agent-mint.ts`.  An event comes from an effect of some run, which the reducer is not told;
here it is kept beside the event.  `flow_kept`: what late events leave as it is, if they come where nothing waits for
them.
-/

set_option autoImplicit false

namespace Vellar.Web.AgentMint

open Machine
open Extension (Network bigInt bigInt_natCast)

/-! ## States and events -/

inductive MintStage where
  | creatingKey
  | policyCreation
  | awaitingConfirmation
  | attachingPolicy
  | addingSigner
  | confirming
deriving DecidableEq

structure MintConfig where
  token : String
  tokenSymbol : String
  tokenDecimals : Option ℤ
  amountBaseUnits : String
  windowSeconds : ℕ
  expiresAtSeconds : Option ℤ
  network : Network
deriving DecidableEq

structure MintSummary where
  tokenLabel : String
  tokenId : String
  budgetLabel : String
  budgetBaseUnits : String
  expiryLabel : String
  windowLabel : String
deriving DecidableEq

structure AgentKeyMaterial where
  publicKey : String
  secret : String
deriving DecidableEq

inductive Prompt where
  | attachPolicy
  | addSigner
deriving DecidableEq

inductive MintState where
  | idle
  | creatingKey (config : MintConfig)
  | policyCreation (config : MintConfig) (key : AgentKeyMaterial) (detail : String)
  | awaitingConfirmation (config : MintConfig) (key : AgentKeyMaterial) (policyContractId : String)
      (summary : MintSummary)
  | awaitingPasskeyApproval (prompt : Prompt) (config : MintConfig) (key : AgentKeyMaterial) (policyContractId : String)
  | attachingPolicy (config : MintConfig) (key : AgentKeyMaterial) (policyContractId : String)
  | addingSigner (config : MintConfig) (key : AgentKeyMaterial) (policyContractId attachTxHash : String)
  | confirming (config : MintConfig) (key : AgentKeyMaterial) (policyContractId attachTxHash addSignerTxHash : String)
  | success (config : MintConfig) (publicKey : String) (secret : Option String)
      (policyContractId attachTxHash addSignerTxHash : String)
  | error (stage : MintStage) (message : String) (signerMayExist : Bool) (policyContractId : Option String)
deriving DecidableEq

inductive MintEvent where
  | start (config : MintConfig)
  | keyCreated (key : AgentKeyMaterial)
  | policyProgress (detail : String)
  | policyDeployed (policyContractId : String)
  | detailsConfirmed
  | passkeyApproved (prompt : Prompt)
  | policyAttached (hash : String)
  | signerAdded (hash : String)
  | confirmed
  | fail (stage : MintStage) (message : String)
  | dismissSecret
  | reset
deriving DecidableEq

/-! ## The summary -/

/-- `formatAmountWithDecimals`; none where it throws. -/
def formatAmountWithDecimals (rawAmount decimals : ℤ) : Option String :=
  if decimals < 0 ∨ decimals > 36 then none
  else if rawAmount = 0 then some "0"
  else
    let sign := if rawAmount < 0 then "-" else ""
    let integerPart := toString (rawAmount.natAbs / 10 ^ decimals.toNat)
    let fractionPart := rawAmount.natAbs % 10 ^ decimals.toNat
    if fractionPart = 0 then some (sign ++ integerPart)
    else some (sign ++ integerPart ++ "." ++ String.ofList
      (Decimal.stripZeros (Decimal.padStart decimals.toNat (toString fractionPart).toList)))

def windowLabel (windowSeconds : ℕ) : String :=
  if windowSeconds % 604800 = 0 then "per " ++ toString (windowSeconds / 604800) ++ " week(s)"
  else if windowSeconds % 86400 = 0 then "per " ++ toString (windowSeconds / 86400) ++ " day(s)"
  else if windowSeconds % 3600 = 0 then "per " ++ toString (windowSeconds / 3600) ++ " hour(s)"
  else "per " ++ toString windowSeconds ++ "s"

section Reducer

/- How a time in milliseconds is shown to the user. -/
variable (toLocaleString : ℤ → String)

/-- `summarizeMintConfig`; none where it throws. -/
def summarizeMintConfig (config : MintConfig) : Option MintSummary :=
  (bigInt config.amountBaseUnits).bind fun amount =>
    (formatAmountWithDecimals amount (config.tokenDecimals.getD 7)).map fun budget =>
      { tokenLabel := config.tokenSymbol
        tokenId := config.token
        budgetLabel := budget ++ " " ++ config.tokenSymbol
        budgetBaseUnits := config.amountBaseUnits
        expiryLabel :=
          match config.expiresAtSeconds.filter (· ≠ 0) with
          | some seconds => toLocaleString (seconds * 1000)
          | none => "No expiry (not recommended)"
        windowLabel := windowLabel config.windowSeconds }

/-! ## The reducer -/

/-- `state.policyContractId`, where the state has one. -/
def policyContractIdOf : MintState → Option String
  | .awaitingConfirmation _ _ id _ | .awaitingPasskeyApproval _ _ _ id | .attachingPolicy _ _ id
  | .addingSigner _ _ id _ | .confirming _ _ id _ _ | .success _ _ _ id _ _ => some id
  | .error _ _ _ id => id
  | .idle | .creatingKey _ | .policyCreation _ _ _ => none

def isConfirming : MintState → Bool
  | .confirming _ _ _ _ _ => true
  | _ => false

/-- The error that a state ends in. -/
def failed (state : MintState) (stage : MintStage) (message : String) : MintState :=
  .error stage message (isConfirming state) ((policyContractIdOf state).filter (· ≠ ""))

/-- The transitions by step. -/
def advance : MintState → MintEvent → Option MintState
  | .idle, .start config => some (.creatingKey config)
  | .creatingKey config, .keyCreated key => some (.policyCreation config key "Generating policy…")
  | .policyCreation config key _, .policyProgress detail => some (.policyCreation config key detail)
  | .policyCreation config key _, .policyDeployed policyContractId =>
    (summarizeMintConfig toLocaleString config).map fun summary =>
      .awaitingConfirmation config key policyContractId summary
  | .awaitingConfirmation config key policyContractId _, .detailsConfirmed =>
    some (.awaitingPasskeyApproval .attachPolicy config key policyContractId)
  | .awaitingPasskeyApproval .attachPolicy config key policyContractId, .passkeyApproved .attachPolicy =>
    some (.attachingPolicy config key policyContractId)
  -- a state of this prompt has no `attachTxHash`
  | .awaitingPasskeyApproval .addSigner config key policyContractId, .signerAdded hash =>
    some (.confirming config key policyContractId "" hash)
  | .attachingPolicy config key policyContractId, .policyAttached hash =>
    some (.addingSigner config key policyContractId hash)
  | .addingSigner config key policyContractId attachTxHash, .signerAdded hash =>
    some (.confirming config key policyContractId attachTxHash hash)
  | .confirming config key policyContractId attachTxHash addSignerTxHash, .confirmed =>
    some (.success config key.publicKey (some key.secret) policyContractId attachTxHash addSignerTxHash)
  | .success config publicKey _ policyContractId attachTxHash addSignerTxHash, .dismissSecret =>
    some (.success config publicKey none policyContractId attachTxHash addSignerTxHash)
  | state, _ => some state

/-- `mintReducer`; none where it throws. -/
def mintReducer (state : MintState) (event : MintEvent) : Option MintState :=
  match event with
  | .reset => some .idle
  | .fail stage message => some (failed state stage message)
  | event => advance toLocaleString state event

end Reducer

def isMintBusy : MintState → Bool
  | .idle | .success _ _ _ _ _ _ | .error _ _ _ _ => false
  | _ => true

/-! ## Late events -/

/-- The kinds of event that a state waits for. -/
def WaitsFor : MintState → MintEvent → Prop
  | .idle, .start _ | .creatingKey _, .keyCreated _ | .policyCreation _ _ _, .policyProgress _
  | .policyCreation _ _ _, .policyDeployed _ | .awaitingConfirmation _ _ _ _, .detailsConfirmed
  | .awaitingPasskeyApproval .attachPolicy _ _ _, .passkeyApproved .attachPolicy
  | .awaitingPasskeyApproval .addSigner _ _ _, .signerAdded _
  | .attachingPolicy _ _ _, .policyAttached _ | .addingSigner _ _ _ _, .signerAdded _
  | .confirming _ _ _ _ _, .confirmed | .success _ _ _ _ _ _, .dismissSecret => True
  | state, .fail _ _ => isMintBusy state = true
  | _, .reset => True
  | _, _ => False

/-- What is not sent by a run that has been started. -/
def MintEvent.IsUsers : MintEvent → Prop
  | .start _ | .dismissSecret | .reset => True
  | _ => False

/-- The machine, and the run that was started last. -/
structure World where
  state : MintState
  run : ℕ
deriving DecidableEq

/-- An event, with the run that sends it. -/
abbrev Sent := ℕ × MintEvent

def initial : World := ⟨.idle, 0⟩

def runAfter : MintState → Sent → ℕ → ℕ
  | .idle, (run, .start _), _ => run
  | _, _, run => run

section Flow

variable (toLocaleString : ℤ → String)

/-- An event at which the reducer throws leaves the machine as it is. -/
def step (w : World) (e : Sent) : World :=
  ⟨(mintReducer toLocaleString w.state e.2).getD w.state, runAfter w.state e w.run⟩

def after (events : List Sent) : World := run (step toLocaleString) initial events

/-- An event that the machine waits for, of the run that it is in. -/
def Expected (w : World) (e : Sent) : Prop := WaitsFor w.state e.2 ∧ (e.2.IsUsers ∨ e.1 = w.run)

/-- An event of another run comes where its kind is not waited for, and a run fails while the machine is in it. -/
def Timely (w : World) : Sent → Prop
  | (run, .fail _ _) => isMintBusy w.state = true ∧ run = w.run
  | (run, e) => e.IsUsers ∨ ¬ WaitsFor w.state e ∨ run = w.run

/-- The secret that a state has. -/
def secretOf : MintState → Option String
  | .policyCreation _ key _ | .awaitingConfirmation _ key _ _ | .awaitingPasskeyApproval _ _ key _
  | .attachingPolicy _ key _ | .addingSigner _ key _ _ | .confirming _ key _ _ _ => some key.secret
  | .success _ _ secret _ _ _ => secret
  | .idle | .creatingKey _ | .error _ _ _ _ => none

def IsSuccess : MintState → Prop
  | .success _ _ _ _ _ _ => True
  | _ => False

def IsError : MintState → Prop
  | .error _ _ _ _ => True
  | _ => False

/-- The events of a run that has minted a key. -/
def course (config : MintConfig) (key : AgentKeyMaterial) (policyContractId attachTxHash addSignerTxHash : String) :
    List MintEvent :=
  [.start config, .keyCreated key, .policyDeployed policyContractId, .detailsConfirmed, .passkeyApproved .attachPolicy,
    .policyAttached attachTxHash, .signerAdded addSignerTxHash, .confirmed]

/-- The run sent the events in this order. -/
def Sends (run : ℕ) (events : List MintEvent) (log : List Sent) : Prop := (events.map fun e => (run, e)).Sublist log

/-- The flow is not corrupted. -/
structure FlowKept (events : List Sent) : Prop where
  oneRun : ∀ pre, pre <+: events → ∀ config publicKey secret policyContractId attachTxHash addSignerTxHash,
    (after toLocaleString pre).state =
        .success config publicKey secret policyContractId attachTxHash addSignerTxHash →
      ∃ run key, key.publicKey = publicKey ∧
        Sends run (course config key policyContractId attachTxHash addSignerTxHash) pre
  ignored : ∀ pre e post, events = pre ++ e :: post → ¬ Expected (after toLocaleString pre) e →
    (after toLocaleString (pre ++ [e])).state = (after toLocaleString pre).state
  noSecret : ∀ pre, pre <+: events → IsError (after toLocaleString pre).state →
    secretOf (after toLocaleString pre).state = none
  dismissed : ∀ pre run later post, events = pre ++ (run, .dismissSecret) :: (later ++ post) →
    IsSuccess (after toLocaleString pre).state → (∀ e ∈ later, ∀ key, e.2 ≠ .keyCreated key) →
      secretOf (after toLocaleString (pre ++ (run, .dismissSecret) :: later)).state = none

variable {toLocaleString}

/-! ### What an event that is not waited for does -/

theorem waitsFor_reset (state : MintState) : WaitsFor state .reset := by
  cases state with
  | awaitingPasskeyApproval prompt config key id => cases prompt <;> trivial
  | _ => trivial

/-- Nothing, unless a run fails. -/
theorem mintReducer_of_not_waitsFor {state : MintState} {event : MintEvent} (hw : ¬ WaitsFor state event)
    (hf : ∀ stage message, event ≠ .fail stage message) : mintReducer toLocaleString state event = some state := by
  cases event with
  | reset => exact absurd (waitsFor_reset state) hw
  | fail stage message => exact absurd rfl (hf stage message)
  | passkeyApproved prompt =>
    cases state with
    | awaitingPasskeyApproval waits config key id =>
      cases waits
      · cases prompt
        · exact absurd trivial hw
        · rfl
      · rfl
    | _ => rfl
  | signerAdded hash =>
    cases state with
    | awaitingPasskeyApproval waits config key id =>
      cases waits
      · rfl
      · exact absurd trivial hw
    | addingSigner config key id attachTxHash => exact absurd trivial hw
    | _ => rfl
  | _ =>
    cases state
    case awaitingPasskeyApproval prompt config key id => cases prompt <;> rfl
    all_goals first | rfl | exact absurd trivial hw

theorem runAfter_of_not_waitsFor {state : MintState} {e : Sent} {run : ℕ} (hw : ¬ WaitsFor state e.2) :
    runAfter state e run = run := by
  obtain ⟨sender, event⟩ := e
  cases state with
  | idle =>
    cases event with
    | start config => exact absurd trivial hw
    | _ => rfl
  | _ => rfl

theorem runAfter_of_not_start {state : MintState} {sender run : ℕ} {event : MintEvent}
    (hs : ∀ config, event ≠ .start config) : runAfter state (sender, event) run = run := by
  cases event with
  | start config => exact absurd rfl (hs config)
  | _ => cases state <;> rfl

/-- A start never throws. -/
theorem mintReducer_start (state : MintState) (config : MintConfig) :
    mintReducer toLocaleString state (.start config) ≠ none := by
  cases state with
  | awaitingPasskeyApproval prompt config' key id => cases prompt <;> exact Option.some_ne_none _
  | _ => exact Option.some_ne_none _

/-- A run fails only where that is waited for. -/
theorem waitsFor_fail {w : World} {sender : ℕ} {stage : MintStage} {message : String}
    (ht : Timely w (sender, .fail stage message)) : WaitsFor w.state (.fail stage message) := by
  have hbusy := ht.1
  cases hs : w.state with
  | idle => rw [hs] at hbusy; exact absurd hbusy (by decide)
  | success config publicKey secret id attachTxHash addSignerTxHash =>
    rw [hs] at hbusy
    exact absurd hbusy (by simp [isMintBusy])
  | error failedAt text exists' id =>
    rw [hs] at hbusy
    exact absurd hbusy (by simp [isMintBusy])
  | awaitingPasskeyApproval prompt config key id => cases prompt <;> rfl
  | _ => rfl

/-- A timely event that is waited for is of the run that the machine is in. -/
theorem sender_of_waitsFor {w : World} {e : Sent} (ht : Timely w e) (hw : WaitsFor w.state e.2) :
    e.2.IsUsers ∨ e.1 = w.run := by
  obtain ⟨sender, event⟩ := e
  cases event with
  | fail stage message => exact Or.inr ht.2
  | _ =>
    rcases ht with hu | hn | hr
    · exact Or.inl hu
    · exact absurd hw hn
    · exact Or.inr hr

/-- **A late event leaves the world as it is.** -/
theorem step_of_not_waitsFor {w : World} {e : Sent} (ht : Timely w e) (hw : ¬ WaitsFor w.state e.2) :
    step toLocaleString w e = w := by
  have hf : ∀ stage message, e.2 ≠ .fail stage message := by
    intro stage message he
    obtain ⟨sender, event⟩ := e
    obtain rfl : event = .fail stage message := he
    exact hw (waitsFor_fail ht)
  have hr : mintReducer toLocaleString w.state e.2 = some w.state := mintReducer_of_not_waitsFor hw hf
  rw [step, hr, runAfter_of_not_waitsFor hw]
  rfl

/-! ### What a run has sent -/

section Sends

variable {sender : ℕ} {events : List MintEvent} {log : List Sent}

theorem Sends.mono (h : Sends sender events log) (e : Sent) : Sends sender events (log ++ [e]) :=
  List.Sublist.trans h (List.sublist_append_left log [e])

theorem Sends.snoc (h : Sends sender events log) (event : MintEvent) :
    Sends sender (events ++ [event]) (log ++ [(sender, event)]) := by
  rw [Sends, List.map_append]
  exact List.Sublist.append h (List.Sublist.refl _)

end Sends

/-- Where the machine is, the run has sent the events that lead there. -/
def Follows (sender : ℕ) (log : List Sent) : MintState → Prop
  | .idle | .error _ _ _ _ => True
  | .creatingKey config => Sends sender [.start config] log
  | .policyCreation config key _ => Sends sender [.start config, .keyCreated key] log
  | .awaitingConfirmation config key id _ => Sends sender ((course config key id "" "").take 3) log
  | .awaitingPasskeyApproval prompt config key id =>
    prompt = .attachPolicy ∧ Sends sender ((course config key id "" "").take 4) log
  | .attachingPolicy config key id => Sends sender ((course config key id "" "").take 5) log
  | .addingSigner config key id attachTxHash => Sends sender ((course config key id attachTxHash "").take 6) log
  | .confirming config key id attachTxHash addSignerTxHash =>
    Sends sender ((course config key id attachTxHash addSignerTxHash).take 7) log
  | .success config publicKey _ id attachTxHash addSignerTxHash =>
    ∃ key, key.publicKey = publicKey ∧ Sends sender (course config key id attachTxHash addSignerTxHash) log

theorem Follows.mono {sender : ℕ} {log : List Sent} {state : MintState} (h : Follows sender log state) (e : Sent) :
    Follows sender (log ++ [e]) state := by
  cases state with
  | idle => trivial
  | error stage message signerMayExist id => trivial
  | awaitingPasskeyApproval prompt config key id => exact ⟨h.1, h.2.mono e⟩
  | success config publicKey secret id attachTxHash addSignerTxHash =>
    obtain ⟨key, hk, hs⟩ := h
    exact ⟨key, hk, hs.mono e⟩
  | _ => exact Sends.mono h e

/-- An event of the run that is waited for takes the run one further. -/
theorem Follows.advance {sender : ℕ} {log : List Sent} {state state' : MintState} {event : MintEvent}
    (h : Follows sender log state) (hw : WaitsFor state event)
    (hr : mintReducer toLocaleString state event = some state') (hu : ¬ event.IsUsers) :
    Follows sender (log ++ [(sender, event)]) state' := by
  cases event with
  | start config => exact absurd trivial hu
  | dismissSecret => exact absurd trivial hu
  | reset => exact absurd trivial hu
  | fail stage message => obtain rfl := Option.some.inj hr; trivial
  | keyCreated key =>
    cases state with
    | creatingKey config => obtain rfl := Option.some.inj hr; exact Sends.snoc h _
    | awaitingPasskeyApproval prompt config key id => cases prompt <;> exact hw.elim
    | _ => exact hw.elim
  | policyProgress detail =>
    cases state with
    | policyCreation config key shown => obtain rfl := Option.some.inj hr; exact Sends.mono h _
    | awaitingPasskeyApproval prompt config key id => cases prompt <;> exact hw.elim
    | _ => exact hw.elim
  | policyDeployed id =>
    cases state with
    | policyCreation config key shown =>
      obtain ⟨summary, -, rfl⟩ := Option.map_eq_some_iff.mp hr
      exact Sends.snoc h _
    | awaitingPasskeyApproval prompt config key id => cases prompt <;> exact hw.elim
    | _ => exact hw.elim
  | detailsConfirmed =>
    cases state with
    | awaitingConfirmation config key id summary =>
      obtain rfl := Option.some.inj hr
      exact ⟨rfl, Sends.snoc h _⟩
    | awaitingPasskeyApproval prompt config key id => cases prompt <;> exact hw.elim
    | _ => exact hw.elim
  | passkeyApproved prompt =>
    cases state with
    | awaitingPasskeyApproval waits config key id =>
      obtain ⟨rfl, hsent⟩ := h
      cases prompt with
      | attachPolicy => obtain rfl := Option.some.inj hr; exact hsent.snoc _
      | addSigner => exact hw.elim
    | _ => exact hw.elim
  | policyAttached hash =>
    cases state with
    | attachingPolicy config key id => obtain rfl := Option.some.inj hr; exact Sends.snoc h _
    | awaitingPasskeyApproval prompt config key id => cases prompt <;> exact hw.elim
    | _ => exact hw.elim
  | signerAdded hash =>
    cases state with
    | awaitingPasskeyApproval waits config key id =>
      -- no run waits for the second prompt
      obtain ⟨rfl, -⟩ := h
      exact hw.elim
    | addingSigner config key id attachTxHash => obtain rfl := Option.some.inj hr; exact Sends.snoc h _
    | _ => exact hw.elim
  | confirmed =>
    cases state with
    | confirming config key id attachTxHash addSignerTxHash =>
      obtain rfl := Option.some.inj hr
      exact ⟨key, rfl, Sends.snoc h _⟩
    | awaitingPasskeyApproval prompt config key id => cases prompt <;> exact hw.elim
    | _ => exact hw.elim

/-- What the user does keeps what the runs have sent. -/
theorem Follows.users {sender run : ℕ} {log : List Sent} {state state' : MintState} {event : MintEvent}
    (h : Follows run log state) (hw : WaitsFor state event)
    (hr : mintReducer toLocaleString state event = some state') (hu : event.IsUsers) :
    Follows (runAfter state (sender, event) run) (log ++ [(sender, event)]) state' := by
  cases event with
  | start config =>
    cases state with
    | idle =>
      obtain rfl := Option.some.inj hr
      exact List.sublist_append_right log [(sender, .start config)]
    | awaitingPasskeyApproval prompt config' key id => cases prompt <;> exact hw.elim
    | _ => exact hw.elim
  | reset => obtain rfl := Option.some.inj hr; trivial
  | dismissSecret =>
    cases state with
    | success config publicKey secret id attachTxHash addSignerTxHash =>
      obtain rfl := Option.some.inj hr
      have hd : Follows _ _ (.success config publicKey none id attachTxHash addSignerTxHash) := h
      exact hd.mono _
    | awaitingPasskeyApproval prompt config key id => cases prompt <;> exact hw.elim
    | _ => exact hw.elim
  | _ => exact hu.elim

/-- **A timely event keeps what the run has sent.** -/
theorem follows_step {w : World} {log : List Sent} {e : Sent} (h : Follows w.run log w.state) (ht : Timely w e) :
    Follows (step toLocaleString w e).run (log ++ [e]) (step toLocaleString w e).state := by
  by_cases hw : WaitsFor w.state e.2
  · obtain ⟨sender, event⟩ := e
    have hsender := sender_of_waitsFor ht hw
    cases hr : mintReducer toLocaleString w.state event with
    | none =>
      have hstart : ∀ config, event ≠ .start config := by
        rintro config rfl
        exact absurd hr (mintReducer_start _ _)
      have hstep : step toLocaleString w (sender, event) = w := by
        rw [step, hr, runAfter_of_not_start hstart]
        rfl
      rw [hstep]
      exact h.mono _
    | some state' =>
      have hstep : step toLocaleString w (sender, event) = ⟨state', runAfter w.state (sender, event) w.run⟩ := by
        rw [step, hr]
        rfl
      rw [hstep]
      by_cases hu : event.IsUsers
      · exact h.users hw hr hu
      · obtain rfl : sender = w.run := hsender.resolve_left hu
        have hstart : ∀ config, event ≠ .start config := by
          rintro config rfl
          exact hu trivial
        rw [runAfter_of_not_start hstart]
        exact h.advance hw hr hu
  · rw [step_of_not_waitsFor ht hw]
    exact h.mono e

/-- **What the runs have sent, after any events.** -/
theorem follows_after {events : List Sent} (ht : Along (step toLocaleString) Timely initial events) :
    Follows (after toLocaleString events).run events (after toLocaleString events).state := by
  induction events using List.reverseRecOn with
  | nil => trivial
  | append_singleton events e ih =>
    obtain ⟨hbefore, hlast, -⟩ := along_append.mp ht
    rw [after, run_snoc]
    exact follows_step (ih hbefore) hlast

/-! ### The secret -/

theorem secretOf_of_isError {state : MintState} (h : IsError state) : secretOf state = none := by
  cases state with
  | error stage message signerMayExist id => rfl
  | _ => exact h.elim

/-- Only a new key brings a secret. -/
theorem secretOf_step {w : World} {e : Sent} (h : secretOf w.state = none) (hk : ∀ key, e.2 ≠ .keyCreated key) :
    secretOf (step toLocaleString w e).state = none := by
  obtain ⟨sender, event⟩ := e
  obtain ⟨state, run⟩ := w
  cases event with
  | keyCreated key => exact absurd rfl (hk key)
  | reset => rfl
  | fail stage message => rfl
  | _ =>
    cases state
    case awaitingPasskeyApproval prompt config key id => exact absurd h (by simp [secretOf])
    case success config publicKey secret id attachTxHash addSignerTxHash =>
      first | rfl | exact h
    all_goals first | rfl | exact absurd h (by simp [secretOf])

theorem secretOf_dismissed {w : World} {sender : ℕ} (h : IsSuccess w.state) :
    secretOf (step toLocaleString w (sender, .dismissSecret)).state = none := by
  obtain ⟨state, run⟩ := w
  cases state with
  | success config publicKey secret id attachTxHash addSignerTxHash => rfl
  | _ => exact h.elim

/-! ### The flow -/

/-- **A late event never corrupts the flow** while the events are timely. -/
theorem flow_kept (events : List Sent) (ht : Along (step toLocaleString) Timely initial events) :
    FlowKept toLocaleString events where
  oneRun := by
    rintro pre ⟨post, rfl⟩ config publicKey secret id attachTxHash addSignerTxHash hs
    have hf := follows_after (along_append.mp ht).1
    rw [hs] at hf
    obtain ⟨key, hk, hsent⟩ := hf
    exact ⟨_, key, hk, hsent⟩
  ignored := by
    intro pre e post he hunexpected
    have hlast : Timely (after toLocaleString pre) e := along_iff.mp ht pre e post he
    have hw : ¬ WaitsFor (after toLocaleString pre).state e.2 :=
      fun hw => hunexpected ⟨hw, sender_of_waitsFor hlast hw⟩
    have hstep : step toLocaleString (after toLocaleString pre) e = after toLocaleString pre :=
      step_of_not_waitsFor hlast hw
    rw [after, run_snoc, ← after, hstep]
  noSecret := fun pre _ he => secretOf_of_isError he
  dismissed := by
    intro pre sender later post he hs hk
    have hrun : after toLocaleString (pre ++ (sender, .dismissSecret) :: later) =
        run (step toLocaleString) (step toLocaleString (after toLocaleString pre) (sender, .dismissSecret)) later := by
      rw [after, run_append]
      rfl
    rw [hrun]
    have hnone : secretOf (step toLocaleString (after toLocaleString pre) (sender, .dismissSecret)).state = none :=
      secretOf_dismissed hs
    have halong : Along (step toLocaleString) (fun _ e => ∀ key, e.2 ≠ .keyCreated key)
        (step toLocaleString (after toLocaleString pre) (sender, .dismissSecret)) later :=
      along_iff.mpr fun before e rest hl => hk e (by rw [hl]; simp)
    exact inv_run (P := fun w => secretOf w.state = none) (fun w e => secretOf_step) hnone halong

end Flow

/-! ### Two runs -/

def weekly : MintConfig where
  token := "CTOKEN"
  tokenSymbol := "USDC"
  tokenDecimals := some 7
  amountBaseUnits := "5000000"
  windowSeconds := 604800
  expiresAtSeconds := none
  network := .testnet

theorem summarize_weekly (toLocaleString : ℤ → String) :
    summarizeMintConfig toLocaleString weekly = some
      { tokenLabel := "USDC"
        tokenId := "CTOKEN"
        budgetLabel := "0.5 USDC"
        budgetBaseUnits := "5000000"
        expiryLabel := "No expiry (not recommended)"
        windowLabel := "per 1 week(s)" } := by
  have htext : weekly.amountBaseUnits = toString ((5000000 : ℕ) : ℤ) := by decide
  have hamount : bigInt weekly.amountBaseUnits = some 5000000 := by rw [htext, bigInt_natCast]; norm_num
  have hbudget : formatAmountWithDecimals 5000000 (weekly.tokenDecimals.getD 7) = some "0.5" := by decide
  have hwindow : windowLabel weekly.windowSeconds = "per 1 week(s)" := by decide
  simp only [summarizeMintConfig, hamount, hbudget, hwindow, Option.bind_some, Option.map_some]
  rfl

def firstKey : AgentKeyMaterial := ⟨"GFIRST", "SFIRST"⟩

def secondKey : AgentKeyMaterial := ⟨"GSECOND", "SSECOND"⟩

/-- The first run is given up before its key is there; the second one goes through. -/
def givenUp (config : MintConfig) : List Sent :=
  [(1, .start config), (0, .reset), (1, .keyCreated firstKey)] ++
    (course config secondKey "CPOLICY" "attach" "add").map (fun e => (2, e)) ++ [(0, .dismissSecret)]

theorem timely_givenUp {toLocaleString : ℤ → String} {config : MintConfig} {summary : MintSummary}
    (h : summarizeMintConfig toLocaleString config = some summary) :
    Along (step toLocaleString) Timely initial (givenUp config) := by
  simp [givenUp, course, Along, step, initial, mintReducer, advance, runAfter, h, Timely, WaitsFor, MintEvent.IsUsers]

theorem flow_kept_givenUp : FlowKept (fun _ => "") (givenUp weekly) :=
  flow_kept (givenUp weekly) (timely_givenUp (summarize_weekly _))

/-- The key of the first run comes after the second one has been started. -/
def lateKey (config : MintConfig) : List Sent :=
  [(1, .start config), (0, .reset), (2, .start config), (1, .keyCreated firstKey), (2, .keyCreated secondKey)] ++
    ((course config secondKey "CPOLICY" "attach" "add").drop 2).map fun e => (2, e)

theorem after_lateKey {toLocaleString : ℤ → String} {config : MintConfig} {summary : MintSummary}
    (h : summarizeMintConfig toLocaleString config = some summary) :
    (after toLocaleString (lateKey config)).state =
      .success config "GFIRST" (some "SFIRST") "CPOLICY" "attach" "add" := by
  simp [after, lateKey, course, step, initial, mintReducer, advance, h, firstKey]

/-- The second run ends with the first run's key. -/
theorem late_key : (after (fun _ => "") (lateKey weekly)).state =
      .success weekly "GFIRST" (some "SFIRST") "CPOLICY" "attach" "add" ∧
    ¬ FlowKept (fun _ => "") (lateKey weekly) := by
  have hsuccess := after_lateKey (summarize_weekly fun _ => "")
  refine ⟨hsuccess, fun hkept => ?_⟩
  obtain ⟨sender, key, hk, hsent⟩ := hkept.oneRun (lateKey weekly) (List.prefix_refl _) _ _ _ _ _ _ hsuccess
  have hkey : (sender, MintEvent.keyCreated key) ∈ lateKey weekly := List.Sublist.subset hsent (by simp [course])
  have hdeployed : (sender, MintEvent.policyDeployed "CPOLICY") ∈ lateKey weekly :=
    List.Sublist.subset hsent (by simp [course])
  have hsecond : sender = 2 := by simpa [lateKey, course] using hdeployed
  subst hsecond
  have hcreated : key = secondKey := by simpa [lateKey, course] using hkey
  subst hcreated
  exact absurd hk (by decide)

end Vellar.Web.AgentMint
