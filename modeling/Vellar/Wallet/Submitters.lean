import Vellar.Lib.Machine
import Vellar.ServiceKit.SpendBudget
import Vellar.Wallet.Replay

/-!
# Vellar.Wallet.Submitters — the hybrid submitter

`services/wallet-service/src/sponsor.ts`, `relayer.ts` and `relayer-passkey.ts`.  A call of `submit` goes from one await to the next,
by the sponsor or by the fallback; calls share the circuit breaker of the relayer.  `released_iff` compares the codes calls reject with
to `RELEASABLE_SUBMISSION_CODES`: a call that is rejected unsent has one of them unless the balance floor refuses it (or the relayer's
loop runs no attempt at all), and a call that has sent something never does.
-/

set_option autoImplicit false

namespace Vellar.Wallet.Submitters

open Machine ServiceKit

/-! ## Signed transactions -/

section Envelopes

variable {F I : Type}

/-- An entry of a host function's auth; `I` is what no check here reads of it. -/
structure AuthEntry (I : Type) where
  credentials : Credentials
  rootInvocation : I

inductive SignedOperation (F I : Type) where
  | invokeHostFunction (func : F) (auth : Option (List (AuthEntry I)))
  | other

inductive SignedTransaction (F I : Type) where
  | transaction (operations : List (SignedOperation F I))
  | feeBump

/-- The sponsor's own transaction. -/
structure Rebuilt (F I : Type) where
  operations : List (SignedOperation F I)
  fee : ℕ

/-- What `scope.ts` and `replay.ts` read of an operation. -/
def SignedOperation.scope : SignedOperation F I → Operation
  | .invokeHostFunction _ auth => .invokeHostFunction (auth.map fun entries => entries.map AuthEntry.credentials)
  | .other => .other

def SignedTransaction.scope : SignedTransaction F I → Transaction
  | .transaction operations => .transaction (operations.map SignedOperation.scope)
  | .feeBump => .feeBump

/-- `credentials().switch().name !== "sorobanCredentialsSourceAccount"` -/
def AuthEntry.boundToAddress (entry : AuthEntry I) : Bool :=
  match entry.credentials with
  | .sourceAccount => false
  | _ => true

/-- `needsSponsorRebuild`, of what `fromXDR` gives; none where it throws. -/
def needsSponsorRebuild : Option (SignedTransaction F I) → Bool
  | some (.transaction [.invokeHostFunction _ (some auth)]) => !auth.isEmpty && auth.all AuthEntry.boundToAddress
  | _ => false

theorem needsSponsorRebuild_iff {tx : Option (SignedTransaction F I)} :
    needsSponsorRebuild tx = true ↔ ∃ func auth, tx = some (.transaction [.invokeHostFunction func (some auth)]) ∧ auth ≠ [] ∧
      ∀ entry ∈ auth, entry.boundToAddress = true := by
  constructor
  · intro h
    unfold needsSponsorRebuild at h
    split at h
    · next func auth =>
      rw [Bool.and_eq_true, List.all_eq_true] at h
      refine ⟨func, auth, rfl, ?_, h.2⟩
      rintro rfl
      exact Bool.false_ne_true h.1
    · cases h
  · rintro ⟨func, auth, rfl, hne, hall⟩
    unfold needsSponsorRebuild
    rw [Bool.and_eq_true, List.all_eq_true]
    refine ⟨?_, hall⟩
    cases auth with
    | nil => exact absurd rfl hne
    | cons entry auth => rfl

end Envelopes

/-! ## Configuration -/

def SPONSOR_DEFAULT_MAX_FEE_STROOPS : ℕ := 1000000

structure SponsorConfig where
  networkPassphrase : String
  maxFeeStroops : Option ℕ
  /-- Whether there is a `budget`. -/
  budget : Bool
  budgetNetwork : Option BudgetNetwork
  balanceFloorStroops : Option ℤ
  /-- Whether `onFloorReached` returns, as the warning in its place does. -/
  onFloorReached : ℤ → ℤ → Bool
  /-- Whether the balance is looked up rather than read off the account. -/
  getBalanceStroops : Bool

structure RelayerOptions where
  maxRetries : Option ℤ
  failureThreshold : Option ℤ
  resetTimeoutMs : Option ℤ

/-- `createUnconfiguredSubmitter`, `createRelayerSubmitter`, or `createPasskeyServerSubmitter` around the latter with no options. -/
inductive Fallback where
  | unconfigured
  | relayer (options : RelayerOptions)
  | passkeyServer (networkPassphrase : String)

def Fallback.options : Fallback → RelayerOptions
  | .relayer options => options
  | _ => ⟨none, none, none⟩

/-- The arguments of `createHybridSubmitter` and of the two submitters it is given. -/
structure Hybrid (F I : Type) where
  /-- `TransactionBuilder.fromXDR`; none where it throws. -/
  fromXDR : String → String → Option (SignedTransaction F I)
  networkPassphrase : String
  sponsor : SponsorConfig
  fallback : Fallback

def SponsorConfig.maxFee (config : SponsorConfig) : ℕ := config.maxFeeStroops.getD SPONSOR_DEFAULT_MAX_FEE_STROOPS

def RelayerOptions.retries (options : RelayerOptions) : ℤ := options.maxRetries.getD 3

/-! ## The circuit breaker of the relayer -/

inductive BreakerState where
  | closed
  | opened
  | halfOpen
deriving DecidableEq

structure CircuitBreaker where
  failureCount : ℕ
  state : BreakerState
  nextAttemptTime : ℤ

/-- A new `CircuitBreaker`. -/
def CircuitBreaker.init : CircuitBreaker := ⟨0, .closed, 0⟩

def canExecute (now : ℤ) (breaker : CircuitBreaker) : Bool × CircuitBreaker :=
  if breaker.state = .opened then
    if breaker.nextAttemptTime ≤ now then (true, { breaker with state := .halfOpen }) else (false, breaker)
  else (true, breaker)

def recordSuccess (breaker : CircuitBreaker) : CircuitBreaker := { breaker with failureCount := 0, state := .closed }

def recordFailure (options : RelayerOptions) (now : ℤ) (breaker : CircuitBreaker) : CircuitBreaker :=
  let failureCount := breaker.failureCount + 1
  if options.failureThreshold.getD 5 ≤ failureCount then
    ⟨failureCount, .opened, now + options.resetTimeoutMs.getD 30000⟩
  else { breaker with failureCount }

/-! ## Calls -/

inductive Thrown where
  | submission (code message : String)
  /-- Another `Error`. -/
  | error
  /-- A value that is no `Error`, or none at all. -/
  | value
deriving DecidableEq

inductive TransactionStatus where
  | success
  | failed
  | pending

/-- How an await of a call ends. -/
inductive Reply where
  /-- `submit` is called. -/
  | submit (signedXdr : String)
  /-- The account, with the native balance its `balances` list. -/
  | account (balance : Option ℤ)
  | balance (stroops : Option ℤ)
  | prepared (minResourceFee : ℕ)
  | consumed (answer : SpendBudget.Answer)
  | sent (hash : String)
  /-- Status `ERROR`. -/
  | sendFailed (errorResult : Option String)
  | found (status : TransactionStatus)
  | woke
  | relayed (hash : String)
  /-- The relayer's error, its context within the message. -/
  | relayFailed (code message : String)
  | simulated (error : Option String)
  | throws (message : String) (isError : Bool)

/-- A reply, with the clock and whether the signal of the poll has fired. -/
structure Input where
  reply : Reply
  now : ℤ
  aborted : Bool

section Calls

variable {F I : Type}

inductive Event (F I : Type) where
  | called (call : ℕ) (signedXdr : String)
  /-- `prepareTransaction` returned. -/
  | simulated (call minResourceFee : ℕ)
  | consumed (call : ℕ) (req : ConsumeRequest) (answer : SpendBudget.Answer)
  | signed (call : ℕ) (tx : Rebuilt F I)
  /-- `sendTransaction` was called. -/
  | sent (call : ℕ) (tx : Rebuilt F I)
  /-- `send` of the relayer was called. -/
  | relayed (call : ℕ) (signedXdr : String)
  | resolved (call : ℕ) (hash : String)
  | rejected (call : ℕ) (thrown : Thrown)

def Event.call : Event F I → ℕ
  | .called c _ | .simulated c _ | .consumed c _ _ | .signed c _ | .sent c _ | .relayed c _ | .resolved c _ | .rejected c _ => c

/-- Where a call is: before its next await ends. -/
inductive Pc (F I : Type) where
  | idle
  | gettingAccount (func : F) (auth : Option (List (AuthEntry I)))
  | gettingBalance (func : F) (auth : Option (List (AuthEntry I)))
  | preparing (rebuilt : Rebuilt F I)
  | consuming (prepared : Rebuilt F I) (network : BudgetNetwork)
  | sending (prepared : Rebuilt F I)
  | polling (hash : String) (attempt : ℕ)
  | sleeping (hash : String) (attempt : ℕ)
  | relaying (signedXdr : String) (attempt : ℕ)
  | backingOff (signedXdr : String) (attempt : ℕ)
  | diagnosing (code message : String)
  | ended

def reject (c : ℕ) (e : Thrown) : Pc F I × List (Event F I) := (.ended, [.rejected c e])

/-! ## The sponsor -/

def enforceBalanceFloor (config : SponsorConfig) (currentBalanceStroops floorStroops : ℤ) : Option Thrown :=
  if currentBalanceStroops ≤ floorStroops then
    if config.onFloorReached currentBalanceStroops floorStroops then
      some (.submission "sponsor_balance_below_floor" ("Sponsor account balance " ++ toString currentBalanceStroops ++
        " stroops is at or below the " ++ toString floorStroops ++ "-stroop reserve floor; refusing to sponsor."))
    else some .error
  else none

def enforceFeeCap (feeStroops maxStroops : ℕ) : Option Thrown :=
  if maxStroops < feeStroops then
    some (.submission "sponsor_fee_too_high" ("Sponsor fee " ++ toString feeStroops ++ " stroops exceeds the " ++ toString maxStroops ++
      "-stroop cap; refusing to sponsor."))
  else none

variable (h : Hybrid F I)

/-- The operation around the submitted host function and auth, with the cap as its bid. -/
def rebuild (func : F) (auth : Option (List (AuthEntry I))) : Rebuilt F I :=
  ⟨[.invokeHostFunction func auth], h.sponsor.maxFee⟩

/-- From the account, or the balance, to `prepareTransaction`. -/
def checkBalance (c : ℕ) (func : F) (auth : Option (List (AuthEntry I))) (balance : Option ℤ) : Pc F I × List (Event F I) :=
  match h.sponsor.balanceFloorStroops, balance with
  | some floorStroops, some currentBalanceStroops =>
    match enforceBalanceFloor h.sponsor currentBalanceStroops floorStroops with
    | some e => reject c e
    | none => (.preparing (rebuild h func auth), [])
  | _, _ => (.preparing (rebuild h func auth), [])

def signAndSend (c : ℕ) (prepared : Rebuilt F I) : Pc F I × List (Event F I) :=
  (.sending prepared, [.signed c prepared, .sent c prepared])

/-- `consumeSponsorBudget` up to its await. -/
def consumeSponsorBudget (c : ℕ) (prepared : Rebuilt F I) : Pc F I × List (Event F I) :=
  match h.sponsor.budget, h.sponsor.budgetNetwork with
  | true, some network => (.consuming prepared network, [])
  | _, _ => signAndSend c prepared

/-- From `prepareTransaction` to the budget. -/
def afterPrepare (c : ℕ) (prepared : Rebuilt F I) : Pc F I × List (Event F I) :=
  match enforceFeeCap prepared.fee h.sponsor.maxFee with
  | some e => reject c e
  | none => consumeSponsorBudget h c prepared

/-- `submit` of the sponsor, up to `getAccount`. -/
def submitSponsored (c : ℕ) (signedXdr : String) : Pc F I × List (Event F I) :=
  match h.fromXDR signedXdr h.sponsor.networkPassphrase with
  | none | some .feeBump => reject c .error
  | some (.transaction (.invokeHostFunction func auth :: _)) => (.gettingAccount func auth, [])
  | some (.transaction _) => reject c (.submission "sponsor_bad_tx" "Sponsor path requires an invokeHostFunction tx")

def timeout (c : ℕ) (hash : String) : Pc F I × List (Event F I) :=
  reject c (.submission "tx_timeout" ("Transaction still pending: " ++ hash))

/-- The rest of an attempt of `retryWithBackoff` that may be retried. -/
def repoll (c : ℕ) (hash : String) (attempt : ℕ) (aborted : Bool) : Pc F I × List (Event F I) :=
  if attempt = 19 ∨ aborted = true then timeout c hash else (.sleeping hash (attempt + 1), [])

/-! ## The relayer -/

/-- What the fallback throws goes through the diagnosis of `createPasskeyServerSubmitter`. -/
def raise (c : ℕ) (signedXdr : String) (e : Thrown) : Pc F I × List (Event F I) :=
  match h.fallback, e with
  | .passkeyServer networkPassphrase, .submission code message =>
    if (h.fromXDR signedXdr networkPassphrase).isSome then (.diagnosing code message, []) else reject c e
  | _, _ => reject c e

/-- `lastError` after the loop. -/
def Thrown.last : Thrown → Thrown
  | .value => .submission "submission_failed" "Transaction submission failed after retries"
  | e => e

/-- `submit` of the fallback, up to its first await. -/
def submitFallback (breaker : CircuitBreaker) (c : ℕ) (signedXdr : String) (now : ℤ) :
    (Pc F I × List (Event F I)) × CircuitBreaker :=
  match h.fallback with
  | .unconfigured =>
    (reject c (.submission "relayer_not_configured"
      "Relayer is not configured. Set RELAYER_BASE_URL and RELAYER_API_KEY (see .env.example)."), breaker)
  | _ =>
    let executed := canExecute now breaker
    if executed.1 then
      if 0 ≤ h.fallback.options.retries then ((.relaying signedXdr 0, [.relayed c signedXdr]), executed.2)
      else (raise h c signedXdr (Thrown.last .value), executed.2)
    else (raise h c signedXdr (.submission "circuit_breaker_open" "Circuit breaker open: RPC outage detected"), executed.2)

/-- The rest of a failed attempt of the relayer's loop. -/
def relayAgain (breaker : CircuitBreaker) (c : ℕ) (signedXdr : String) (attempt : ℕ) (lastError : Thrown) (now : ℤ) :
    (Pc F I × List (Event F I)) × CircuitBreaker :=
  let breaker := recordFailure h.fallback.options now breaker
  if (attempt : ℤ) < h.fallback.options.retries then
    let executed := canExecute now breaker
    if executed.1 then ((.backingOff signedXdr (attempt + 1), []), executed.2) else (raise h c signedXdr lastError.last, executed.2)
  else (raise h c signedXdr lastError.last, breaker)

/-! ## Steps -/

/-- `submit` of the hybrid submitter, up to its first await. -/
def submit (breaker : CircuitBreaker) (c : ℕ) (signedXdr : String) (now : ℤ) : (Pc F I × List (Event F I)) × CircuitBreaker :=
  let started :=
    if needsSponsorRebuild (h.fromXDR signedXdr h.networkPassphrase) then (submitSponsored h c signedXdr, breaker)
    else submitFallback h breaker c signedXdr now
  ((started.1.1, .called c signedXdr :: started.1.2), started.2)

/-- One await of a call. -/
def advance (breaker : CircuitBreaker) (c : ℕ) (pc : Pc F I) (x : Input) : (Pc F I × List (Event F I)) × CircuitBreaker :=
  match pc with
  | .idle =>
    match x.reply with
    | .submit signedXdr => submit h breaker c signedXdr x.now
    | _ => ((pc, []), breaker)
  | .gettingAccount func auth =>
    match x.reply with
    | .account balance =>
      if h.sponsor.balanceFloorStroops.isSome ∧ h.sponsor.getBalanceStroops = true then ((.gettingBalance func auth, []), breaker)
      else (checkBalance h c func auth balance, breaker)
    | .throws _ _ => (reject c .error, breaker)
    | _ => ((pc, []), breaker)
  | .gettingBalance func auth =>
    match x.reply with
    | .balance stroops => (checkBalance h c func auth stroops, breaker)
    | .throws _ _ => (reject c .error, breaker)
    | _ => ((pc, []), breaker)
  | .preparing rebuilt =>
    match x.reply with
    | .prepared minResourceFee =>
      let moved := afterPrepare h c { rebuilt with fee := rebuilt.fee + minResourceFee }
      ((moved.1, .simulated c minResourceFee :: moved.2), breaker)
    | .throws message _ =>
      (reject c (.submission "sponsor_simulation_failed" ("Sponsor simulation failed: " ++ message)), breaker)
    | _ => ((pc, []), breaker)
  | .consuming prepared network =>
    let req : ConsumeRequest := ⟨.sponsor, network, prepared.fee, none⟩
    match x.reply with
    | .consumed .ok =>
      let moved := signAndSend c prepared
      ((moved.1, .consumed c req .ok :: moved.2), breaker)
    | .consumed answer =>
      ((.ended, [.consumed c req answer,
        .rejected c (.submission "sponsor_budget_exceeded" "Sponsor spend budget reached; try again later.")]), breaker)
    | _ => ((pc, []), breaker)
  | .sending _ =>
    match x.reply with
    | .sent hash => ((.polling hash 0, []), breaker)
    | .sendFailed errorResult =>
      (reject c (.submission "sponsor_submit_failed" ("Sponsor submission failed: " ++ errorResult.getD "unknown")), breaker)
    | .throws _ _ => (reject c .error, breaker)
    | _ => ((pc, []), breaker)
  | .polling hash attempt =>
    match x.reply with
    | .found .success => ((.ended, [.resolved c hash]), breaker)
    | .found .failed => (reject c (.submission "tx_failed" ("Transaction failed on-chain: " ++ hash)), breaker)
    | .found .pending | .throws _ _ => (repoll c hash attempt x.aborted, breaker)
    | _ => ((pc, []), breaker)
  | .sleeping hash attempt =>
    match x.reply with
    | .woke => (if x.aborted then timeout c hash else (.polling hash attempt, []), breaker)
    | _ => ((pc, []), breaker)
  | .relaying signedXdr attempt =>
    match x.reply with
    | .relayed hash => ((.ended, [.resolved c hash]), recordSuccess breaker)
    | .relayFailed code message => relayAgain h breaker c signedXdr attempt (.submission code message) x.now
    | .throws _ isError => relayAgain h breaker c signedXdr attempt (if isError then .error else .value) x.now
    | _ => ((pc, []), breaker)
  | .backingOff signedXdr attempt =>
    match x.reply with
    | .woke => ((.relaying signedXdr attempt, [.relayed c signedXdr]), breaker)
    | _ => ((pc, []), breaker)
  | .diagnosing code message =>
    match x.reply with
    | .simulated (some error) => (reject c (.submission code (message ++ " || local simulation: " ++ error)), breaker)
    | .simulated none | .throws _ _ => (reject c (.submission code message), breaker)
    | _ => ((pc, []), breaker)
  | .ended => ((.ended, []), breaker)

structure State (F I : Type) where
  breaker : CircuitBreaker
  pc : ℕ → Pc F I
  log : List (Event F I)

/-- No call yet. -/
def start (breaker : CircuitBreaker) : State F I := ⟨breaker, fun _ => .idle, []⟩

def step (s : State F I) (a : ℕ × Input) : State F I :=
  let moved := advance h s.breaker a.1 (s.pc a.1) a.2
  ⟨moved.2, Function.update s.pc a.1 moved.1.1, s.log ++ moved.1.2⟩

end Calls

/-! ## What is promised -/

section Promise

variable {F I : Type} (h : Hybrid F I)

/-- Something was handed to the network or to the relayer. -/
def Handed (log : List (Event F I)) (c : ℕ) : Prop := (∃ tx, .sent c tx ∈ log) ∨ ∃ signedXdr, .relayed c signedXdr ∈ log

/-- A rejection is releasable exactly where nothing was handed over. -/
def Released (log : List (Event F I)) : Prop := ∀ c code message, .rejected c (.submission code message) ∈ log →
  (code ∈ RELEASABLE_SUBMISSION_CODES ↔ ¬ Handed log c)

/-- The codes of this repository's submission errors. -/
def submissionCodes : List String :=
  RELEASABLE_SUBMISSION_CODES ++
    ["submission_failed", "sponsor_balance_below_floor", "sponsor_submit_failed", "tx_failed", "tx_timeout"]

/-- A code of the relayer is none of them. -/
def Reply.Own : Reply → Prop
  | .relayFailed code _ => code ∉ submissionCodes
  | _ => True

/-- A balance at which the sponsor is refused by its floor. -/
def LowBalance (config : SponsorConfig) (balance : Option ℤ) : Prop :=
  ∃ floorStroops ∈ config.balanceFloorStroops, ∃ current ∈ balance, current ≤ floorStroops ∧ config.onFloorReached current floorStroops = true

/-- The step neither reads such a balance nor enters a loop of no attempts. -/
def Clear (s : State F I) (a : ℕ × Input) : Prop :=
  match s.pc a.1, a.2.reply with
  | .gettingAccount _ _, .account balance =>
    h.sponsor.getBalanceStroops = true ∨ ¬ LowBalance h.sponsor balance
  | .gettingBalance _ _, .balance stroops => ¬ LowBalance h.sponsor stroops
  | .idle, .submit signedXdr =>
    ∀ options, h.fallback = .relayer options → 0 ≤ options.retries ∨ (canExecute a.2.now s.breaker).1 = false ∨
      needsSponsorRebuild (h.fromXDR signedXdr h.networkPassphrase) = true
  | _, _ => True

end Promise

/-! ## What an await can do -/

section Moves

variable {F I : Type} {h : Hybrid F I} {breaker : CircuitBreaker} {c : ℕ} {pc pc' : Pc F I} {x : Input} {e : Thrown}

def Pc.Unsent : Pc F I → Prop
  | .gettingAccount _ _ | .gettingBalance _ _ | .preparing _ | .consuming _ _ => True
  | _ => False

/-- After `sendTransaction`. -/
def Pc.Sponsored : Pc F I → Prop
  | .sending _ | .polling _ _ | .sleeping _ _ => True
  | _ => False

/-- Within the relayer's loop. -/
def Pc.Relays : Pc F I → Prop
  | .relaying _ _ | .backingOff _ _ => True
  | _ => False

/-- A releasable error other than that of the fee cap, or no submission error. -/
def Thrown.Early (e : Thrown) : Prop := ∀ code message, e = .submission code message →
  code ∈ RELEASABLE_SUBMISSION_CODES ∧ code ≠ "sponsor_fee_too_high"

def Thrown.Late (e : Thrown) : Prop := ∀ code message, e = .submission code message →
  code ∉ RELEASABLE_SUBMISSION_CODES ∧ code ≠ "sponsor_fee_too_high"

/-- A balance that stops the call where it is. -/
def StopsAtFloor (config : SponsorConfig) (pc : Pc F I) (reply : Reply) : Prop :=
  (∃ func auth balance, pc = .gettingAccount func auth ∧ reply = .account balance ∧ config.getBalanceStroops ≠ true ∧
      LowBalance config balance) ∨
    ∃ func auth stroops, pc = .gettingBalance func auth ∧ reply = .balance stroops ∧ LowBalance config stroops

def overFee (h : Hybrid F I) (fee : ℕ) : Thrown :=
  .submission "sponsor_fee_too_high" ("Sponsor fee " ++ toString fee ++ " stroops exceeds the " ++ toString h.sponsor.maxFee ++
    "-stroop cap; refusing to sponsor.")

/-- What one await can do. -/
inductive Move (h : Hybrid F I) (breaker : CircuitBreaker) (c : ℕ) : Pc F I → Input → Pc F I → List (Event F I) → Prop where
  | stay (pc : Pc F I) (x : Input) : Move h breaker c pc x pc []
  | bounce (x : Input) (signedXdr : String) (e : Thrown) (hx : x.reply = .submit signedXdr) (he : e.Early) :
      Move h breaker c .idle x .ended [.called c signedXdr, .rejected c e]
  | empty (x : Input) (signedXdr message : String) (options : RelayerOptions) (hx : x.reply = .submit signedXdr)
      (hfallback : h.fallback = .relayer options) (hnone : options.retries < 0) (hexecute : (canExecute x.now breaker).1 = true)
      (hroute : needsSponsorRebuild (h.fromXDR signedXdr h.networkPassphrase) = false) :
      Move h breaker c .idle x .ended [.called c signedXdr, .rejected c (.submission "submission_failed" message)]
  | bounceDiagnosed (x : Input) (signedXdr code message : String) (hx : x.reply = .submit signedXdr)
      (he : (Thrown.submission code message).Early) :
      Move h breaker c .idle x (.diagnosing code message) [.called c signedXdr]
  | begin (x : Input) (signedXdr : String) (func : F) (auth : Option (List (AuthEntry I))) (rest : List (SignedOperation F I))
      (hx : x.reply = .submit signedXdr)
      (hroute : needsSponsorRebuild (h.fromXDR signedXdr h.networkPassphrase) = true)
      (hinner : h.fromXDR signedXdr h.sponsor.networkPassphrase = some (.transaction (.invokeHostFunction func auth :: rest))) :
      Move h breaker c .idle x (.gettingAccount func auth) [.called c signedXdr]
  | relay (x : Input) (signedXdr : String) (hx : x.reply = .submit signedXdr) :
      Move h breaker c .idle x (.relaying signedXdr 0) [.called c signedXdr, .relayed c signedXdr]
  | balance (x : Input) (func : F) (auth : Option (List (AuthEntry I))) :
      Move h breaker c (.gettingAccount func auth) x (.gettingBalance func auth) []
  | rebuild (pc : Pc F I) (x : Input) (func : F) (auth : Option (List (AuthEntry I)))
      (hpc : pc = .gettingAccount func auth ∨ pc = .gettingBalance func auth) :
      Move h breaker c pc x (.preparing (rebuild h func auth)) []
  | low (pc : Pc F I) (x : Input) (message : String) (hstops : StopsAtFloor h.sponsor pc x.reply) :
      Move h breaker c pc x .ended [.rejected c (.submission "sponsor_balance_below_floor" message)]
  | refuse (pc : Pc F I) (x : Input) (e : Thrown) (hpc : pc.Unsent) (he : e.Early) :
      Move h breaker c pc x .ended [.rejected c e]
  | tooHigh (rebuilt : Rebuilt F I) (x : Input) (minResourceFee : ℕ) (hx : x.reply = .prepared minResourceFee)
      (hfee : h.sponsor.maxFee < rebuilt.fee + minResourceFee) :
      Move h breaker c (.preparing rebuilt) x .ended
        [.simulated c minResourceFee, .rejected c (overFee h (rebuilt.fee + minResourceFee))]
  | meter (rebuilt : Rebuilt F I) (x : Input) (minResourceFee : ℕ) (network : BudgetNetwork)
      (hfee : rebuilt.fee + minResourceFee ≤ h.sponsor.maxFee) (hnetwork : h.sponsor.budgetNetwork = some network) :
      Move h breaker c (.preparing rebuilt) x (.consuming { rebuilt with fee := rebuilt.fee + minResourceFee } network)
        [.simulated c minResourceFee]
  | unmetered (rebuilt : Rebuilt F I) (x : Input) (minResourceFee : ℕ) (hfee : rebuilt.fee + minResourceFee ≤ h.sponsor.maxFee)
      (hoff : h.sponsor.budget = false ∨ h.sponsor.budgetNetwork = none) :
      Move h breaker c (.preparing rebuilt) x (.sending { rebuilt with fee := rebuilt.fee + minResourceFee })
        [.simulated c minResourceFee, .signed c { rebuilt with fee := rebuilt.fee + minResourceFee },
          .sent c { rebuilt with fee := rebuilt.fee + minResourceFee }]
  | consume (prepared : Rebuilt F I) (network : BudgetNetwork) (x : Input) :
      Move h breaker c (.consuming prepared network) x (.sending prepared)
        [.consumed c ⟨.sponsor, network, prepared.fee, none⟩ .ok, .signed c prepared, .sent c prepared]
  | exceed (prepared : Rebuilt F I) (network : BudgetNetwork) (x : Input) (answer : SpendBudget.Answer) (e : Thrown) (he : e.Early) :
      Move h breaker c (.consuming prepared network) x .ended
        [.consumed c ⟨.sponsor, network, prepared.fee, none⟩ answer, .rejected c e]
  | poll (pc : Pc F I) (x : Input) (pc' : Pc F I) (hpc : pc.Sponsored) (hpc' : pc'.Sponsored) : Move h breaker c pc x pc' []
  | fail (pc : Pc F I) (x : Input) (e : Thrown) (hpc : pc.Sponsored) (he : e.Late) : Move h breaker c pc x .ended [.rejected c e]
  | resolve (pc : Pc F I) (x : Input) (hash : String) (hpc : pc.Sponsored ∨ pc.Relays) :
      Move h breaker c pc x .ended [.resolved c hash]
  | backOff (x : Input) (signedXdr : String) (attempt : ℕ) :
      Move h breaker c (.relaying signedXdr attempt) x (.backingOff signedXdr (attempt + 1)) []
  | again (x : Input) (signedXdr : String) (attempt : ℕ) :
      Move h breaker c (.backingOff signedXdr attempt) x (.relaying signedXdr attempt) [.relayed c signedXdr]
  | giveUp (x : Input) (signedXdr : String) (attempt : ℕ) (e : Thrown) (he : x.reply.Own → e.Late) :
      Move h breaker c (.relaying signedXdr attempt) x .ended [.rejected c e]
  | diagnose (x : Input) (signedXdr : String) (attempt : ℕ) (code message : String)
      (he : x.reply.Own → (Thrown.submission code message).Late) :
      Move h breaker c (.relaying signedXdr attempt) x (.diagnosing code message) []
  | diagnosed (x : Input) (code message message' : String) :
      Move h breaker c (.diagnosing code message) x .ended [.rejected c (.submission code message')]

theorem early_error : Thrown.error.Early := fun _ _ h => nomatch h

theorem late_error : Thrown.error.Late := fun _ _ h => nomatch h

theorem early_submission {code message : String} (h : code ∈ RELEASABLE_SUBMISSION_CODES ∧ code ≠ "sponsor_fee_too_high") :
    (Thrown.submission code message).Early := fun _ _ he => (Thrown.submission.inj he).1 ▸ h

theorem late_submission {code message : String} (h : code ∉ RELEASABLE_SUBMISSION_CODES ∧ code ≠ "sponsor_fee_too_high") :
    (Thrown.submission code message).Late := fun _ _ he => (Thrown.submission.inj he).1 ▸ h

theorem submission_inj {code message code' message' : String} (he : Thrown.submission code message = .submission code' message') :
    code = code' := (Thrown.submission.inj he).1

/-- Where a balance refuses the call, it is low. -/
theorem checkBalance_move {func : F} {auth : Option (List (AuthEntry I))} {balance : Option ℤ}
    (hpc : pc = .gettingAccount func auth ∨ pc = .gettingBalance func auth)
    (hlow : LowBalance h.sponsor balance → StopsAtFloor h.sponsor pc x.reply) :
    Move h breaker c pc x (checkBalance h c func auth balance).1 (checkBalance h c func auth balance).2 := by
  have hunsent : pc.Unsent := by
    rcases hpc with rfl | rfl <;> trivial
  unfold checkBalance
  split
  · next floorStroops current hfloor =>
    unfold enforceBalanceFloor
    by_cases hle : current ≤ floorStroops
    · by_cases hreturns : h.sponsor.onFloorReached current floorStroops = true
      · rw [if_pos hle, if_pos hreturns]
        exact .low _ _ _ (hlow ⟨floorStroops, hfloor, current, rfl, hle, hreturns⟩)
      · rw [if_pos hle, if_neg hreturns]
        exact .refuse _ _ _ hunsent early_error
    · rw [if_neg hle]
      exact .rebuild _ _ _ _ hpc
  · exact .rebuild _ _ _ _ hpc

theorem afterPrepare_move {rebuilt : Rebuilt F I} {minResourceFee : ℕ} (hx : x.reply = .prepared minResourceFee) :
    let moved := afterPrepare h c { rebuilt with fee := rebuilt.fee + minResourceFee }
    Move h breaker c (.preparing rebuilt) x moved.1 (.simulated c minResourceFee :: moved.2) := by
  dsimp only
  unfold afterPrepare enforceFeeCap
  by_cases hfee : h.sponsor.maxFee < rebuilt.fee + minResourceFee
  · rw [if_pos hfee]
    exact .tooHigh _ _ _ hx hfee
  · rw [if_neg hfee]
    dsimp only
    unfold consumeSponsorBudget
    split
    · next network _ hnetwork => exact .meter _ _ _ network (not_lt.mp hfee) hnetwork
    · next hoff =>
      refine .unmetered _ _ _ (not_lt.mp hfee) ?_
      cases hbudget : h.sponsor.budget with
      | false => exact .inl rfl
      | true =>
        cases hnetwork : h.sponsor.budgetNetwork with
        | none => exact .inr rfl
        | some network => exact absurd hnetwork (hoff network hbudget)

theorem own_late {code message : String} (hcode : code ∉ submissionCodes) : (Thrown.submission code message).Late := by
  refine late_submission ⟨fun hmem => hcode (List.mem_append_left _ hmem), ?_⟩
  rintro rfl
  exact hcode (by decide)

theorem relayAgain_move {signedXdr : String} {attempt : ℕ} (he : x.reply.Own → e.Late) :
    let moved := relayAgain h breaker c signedXdr attempt e x.now
    Move h breaker c (.relaying signedXdr attempt) x moved.1.1 moved.1.2 := by
  have hlast : x.reply.Own → e.last.Late := fun hx => by
    cases e with
    | submission | error => exact he hx
    | value => exact late_submission (by decide)
  have hraise : Move h breaker c (.relaying signedXdr attempt) x (raise h c signedXdr e.last).1 (raise h c signedXdr e.last).2 := by
    unfold raise
    split
    · next hcode =>
      split
      · exact .diagnose _ _ _ _ _ fun hx => hcode ▸ hlast hx
      · exact .giveUp _ _ _ _ hlast
    · exact .giveUp _ _ _ _ hlast
  dsimp only
  unfold relayAgain
  dsimp only
  split
  · split
    · exact .backOff _ _ _
    · exact hraise
  · exact hraise

theorem submitSponsored_move {signedXdr : String} (hx : x.reply = .submit signedXdr)
    (hroute : needsSponsorRebuild (h.fromXDR signedXdr h.networkPassphrase) = true) :
    Move h breaker c .idle x (submitSponsored h c signedXdr).1 (.called c signedXdr :: (submitSponsored h c signedXdr).2) := by
  unfold submitSponsored
  split
  · exact .bounce _ _ _ hx early_error
  · exact .bounce _ _ _ hx early_error
  · next func auth rest hinner => exact .begin _ _ func auth rest hx hroute hinner
  · exact .bounce _ _ _ hx (early_submission (by decide))

theorem submitFallback_move {signedXdr : String} (hx : x.reply = .submit signedXdr)
    (hroute : needsSponsorRebuild (h.fromXDR signedXdr h.networkPassphrase) = false) :
    let moved := submitFallback h breaker c signedXdr x.now
    Move h breaker c .idle x moved.1.1 (.called c signedXdr :: moved.1.2) := by
  have hopen : (Thrown.submission "circuit_breaker_open" "Circuit breaker open: RPC outage detected").Early :=
    early_submission (by decide)
  dsimp only
  unfold submitFallback
  cases hfallback : h.fallback with
  | unconfigured => exact .bounce _ _ _ hx (early_submission (by decide))
  | relayer options =>
    dsimp only
    split
    · next hexecute =>
      split
      · exact .relay _ _ hx
      · next hnone =>
        unfold raise
        rw [hfallback]
        exact .empty _ _ _ options hx hfallback (not_le.mp hnone) hexecute hroute
    · unfold raise
      rw [hfallback]
      exact .bounce _ _ _ hx hopen
  | passkeyServer networkPassphrase =>
    dsimp only
    split
    · exact .relay _ _ hx
    · unfold raise
      rw [hfallback]
      dsimp only
      split
      · exact .bounceDiagnosed _ _ _ _ hx hopen
      · exact .bounce _ _ _ hx hopen

theorem repoll_move {hash : String} {attempt : ℕ} {aborted : Bool} :
    Move h breaker c (.polling hash attempt) x (repoll c hash attempt aborted).1 (repoll c hash attempt aborted).2 := by
  unfold repoll
  split
  · exact .fail _ _ _ trivial (late_submission (by decide))
  · exact .poll _ _ _ trivial trivial

/-- **Every await is one of these.** -/
theorem advance_move : Move h breaker c pc x (advance h breaker c pc x).1.1 (advance h breaker c pc x).1.2 := by
  cases pc with
  | idle =>
    unfold advance
    dsimp only
    split
    · next signedXdr hx =>
      unfold submit
      cases hroute : needsSponsorRebuild (h.fromXDR signedXdr h.networkPassphrase) with
      | true => exact submitSponsored_move hx hroute
      | false => exact submitFallback_move hx hroute
    · exact .stay _ _
  | gettingAccount func auth =>
    unfold advance
    dsimp only
    split
    · next balance hx =>
      split
      · exact .balance _ _ _
      · next hread =>
        refine checkBalance_move (.inl rfl) fun hlow => .inl ⟨func, auth, balance, rfl, hx, fun hget => hread ⟨?_, hget⟩, hlow⟩
        obtain ⟨floorStroops, hfloor, -⟩ := hlow
        rw [hfloor]
        rfl
    · exact .refuse _ _ _ trivial early_error
    · exact .stay _ _
  | gettingBalance func auth =>
    unfold advance
    dsimp only
    split
    · next stroops hx => exact checkBalance_move (.inr rfl) fun hlow => .inr ⟨func, auth, stroops, rfl, hx, hlow⟩
    · exact .refuse _ _ _ trivial early_error
    · exact .stay _ _
  | preparing rebuilt =>
    unfold advance
    dsimp only
    split
    · next minResourceFee hx => exact afterPrepare_move hx
    · exact .refuse _ _ _ trivial (early_submission (by decide))
    · exact .stay _ _
  | consuming prepared network =>
    unfold advance
    dsimp only
    split
    · exact .consume _ _ _
    · exact .exceed _ _ _ _ _ (early_submission (by decide))
    · exact .stay _ _
  | sending prepared =>
    unfold advance
    dsimp only
    split
    · exact .poll _ _ _ trivial trivial
    · exact .fail _ _ _ trivial (late_submission (by decide))
    · exact .fail _ _ _ trivial late_error
    · exact .stay _ _
  | polling hash attempt =>
    unfold advance
    dsimp only
    split
    · exact .resolve _ _ _ (.inl trivial)
    · exact .fail _ _ _ trivial (late_submission (by decide))
    · exact repoll_move
    · exact repoll_move
    · exact .stay _ _
  | sleeping hash attempt =>
    unfold advance
    dsimp only
    split
    · split
      · exact .fail _ _ _ trivial (late_submission (by decide))
      · exact .poll _ _ _ trivial trivial
    · exact .stay _ _
  | relaying signedXdr attempt =>
    unfold advance
    dsimp only
    split
    · exact .resolve _ _ _ (.inr trivial)
    · next code message hx =>
      refine relayAgain_move fun hown => ?_
      rw [hx] at hown
      exact own_late hown
    · refine relayAgain_move fun _ => ?_
      split
      · exact late_error
      · exact fun _ _ he => nomatch he
    · exact .stay _ _
  | backingOff signedXdr attempt =>
    unfold advance
    dsimp only
    split
    · exact .again _ _ _
    · exact .stay _ _
  | diagnosing code message =>
    unfold advance
    dsimp only
    split
    · exact .diagnosed _ _ _ _
    · exact .diagnosed _ _ _ _
    · exact .diagnosed _ _ _ _
    · exact .stay _ _
  | ended => exact .stay _ _

end Moves

/-! ## Every run -/

section Runs

variable {F I : Type} {h : Hybrid F I} {breaker : CircuitBreaker} {log events : List (Event F I)} {c : ℕ} {pc pc' : Pc F I} {x : Input}
  {s : State F I} {a : ℕ × Input}

def Unrejected (log : List (Event F I)) (c : ℕ) : Prop := ∀ e, .rejected c e ∉ log

/-- What holds of a call. -/
def Own (log : List (Event F I)) (c : ℕ) : Pc F I → Prop
  | .idle => ∀ e ∈ log, e.call ≠ c
  | .gettingAccount _ _ | .gettingBalance _ _ | .preparing _ | .consuming _ _ => ¬ Handed log c ∧ Unrejected log c
  | .sending _ | .polling _ _ | .sleeping _ _ | .relaying _ _ | .backingOff _ _ => Handed log c ∧ Unrejected log c
  | .diagnosing _ _ => Unrejected log c
  | .ended => True

theorem Handed.call (hc : Handed log c) : ∃ e ∈ log, e.call = c := by
  rcases hc with ⟨tx, hmem⟩ | ⟨signedXdr, hmem⟩
  · exact ⟨_, hmem, rfl⟩
  · exact ⟨_, hmem, rfl⟩

theorem handed_append : Handed (log ++ events) c ↔ Handed log c ∨ Handed events c := by
  unfold Handed
  simp only [List.mem_append, exists_or]
  exact or_or_or_comm

theorem unhanded_of_silent (hsilent : ∀ e ∈ log, e.call ≠ c) : ¬ Handed log c := fun hc => by
  obtain ⟨e, hmem, hcall⟩ := hc.call
  exact hsilent e hmem hcall

theorem unrejected_of_silent (hsilent : ∀ e ∈ log, e.call ≠ c) : Unrejected log c := fun _ hmem => hsilent _ hmem rfl

theorem Unrejected.append (hlog : Unrejected log c) (hevents : Unrejected events c) : Unrejected (log ++ events) c :=
  fun e hmem => (List.mem_append.mp hmem).elim (hlog e) (hevents e)

/-- The events of other calls leave a call alone. -/
theorem handed_others (hevents : ∀ e ∈ events, e.call ≠ c) : Handed (log ++ events) c ↔ Handed log c := by
  rw [handed_append, or_iff_left (unhanded_of_silent hevents)]

theorem Own.others (hown : Own log c pc) (hevents : ∀ e ∈ events, e.call ≠ c) : Own (log ++ events) c pc := by
  have hrejected : Unrejected log c → Unrejected (log ++ events) c := fun hlog => hlog.append (unrejected_of_silent hevents)
  cases pc with
  | idle => exact fun e hmem => (List.mem_append.mp hmem).elim (hown e) (hevents e)
  | gettingAccount | gettingBalance | preparing | consuming => exact ⟨mt (handed_others hevents).mp hown.1, hrejected hown.2⟩
  | sending | polling | sleeping | relaying | backingOff => exact ⟨(handed_others hevents).mpr hown.1, hrejected hown.2⟩
  | diagnosing => exact hrejected hown
  | ended => trivial

theorem Own.unsent (hown : Own log c pc) (hpc : pc.Unsent) : ¬ Handed log c ∧ Unrejected log c := by
  cases pc with
  | gettingAccount | gettingBalance | preparing | consuming => exact hown
  | idle | sending | polling | sleeping | relaying | backingOff | diagnosing | ended => cases hpc

theorem Own.sent (hown : Own log c pc) (hpc : pc.Sponsored ∨ pc.Relays) : Handed log c ∧ Unrejected log c := by
  cases pc with
  | sending | polling | sleeping | relaying | backingOff => exact hown
  | idle | gettingAccount | gettingBalance | preparing | consuming | diagnosing | ended => rcases hpc with hpc | hpc <;> cases hpc

theorem own_sent (hpc : pc.Sponsored ∨ pc.Relays) (hown : Handed log c ∧ Unrejected log c) : Own log c pc := by
  cases pc with
  | sending | polling | sleeping | relaying | backingOff => exact hown
  | idle | gettingAccount | gettingBalance | preparing | consuming | diagnosing | ended => rcases hpc with hpc | hpc <;> cases hpc

theorem StopsAtFloor.unsent {config : SponsorConfig} {reply : Reply} (hstops : StopsAtFloor config pc reply) : pc.Unsent := by
  rcases hstops with ⟨func, auth, balance, rfl, -⟩ | ⟨func, auth, stroops, rfl, -⟩ <;> trivial

/-- The events of an await are its call's. -/
theorem Move.call (hmove : Move h breaker c pc x pc' events) : ∀ e ∈ events, e.call = c := by
  cases hmove <;> simp [Event.call]

/-- **An await** keeps what holds of its call. -/
theorem Move.own (hmove : Move h breaker c pc x pc' events) (hown : Own log c pc) : Own (log ++ events) c pc' := by
  have hquiet : ¬ Handed log c ∧ Unrejected log c → ¬ Handed events c → Unrejected events c →
      ¬ Handed (log ++ events) c ∧ Unrejected (log ++ events) c := fun hlog hunsent hunrejected =>
    ⟨fun hc => (handed_append.mp hc).elim hlog.1 hunsent, hlog.2.append hunrejected⟩
  have hsent : Unrejected log c → Handed events c → Unrejected events c →
      Handed (log ++ events) c ∧ Unrejected (log ++ events) c := fun hlog hhanded hunrejected =>
    ⟨handed_append.mpr (.inr hhanded), hlog.append hunrejected⟩
  cases hmove with
  | stay pc x => rwa [List.append_nil]
  | bounce | empty | low | refuse | tooHigh | exceed | fail | resolve | giveUp | diagnosed => trivial
  | bounceDiagnosed x signedXdr code message => exact (unrejected_of_silent hown).append (by simp [Unrejected])
  | begin x signedXdr func auth rest =>
    exact hquiet ⟨unhanded_of_silent hown, unrejected_of_silent hown⟩ (by simp [Handed]) (by simp [Unrejected])
  | relay x signedXdr => exact hsent (unrejected_of_silent hown) (by simp [Handed]) (by simp [Unrejected])
  | balance x func auth => exact hquiet hown (by simp [Handed]) (by simp [Unrejected])
  | rebuild pc x func auth hpc =>
    have hunsent : pc.Unsent := by
      rcases hpc with rfl | rfl <;> trivial
    exact hquiet (hown.unsent hunsent) (by simp [Handed]) (by simp [Unrejected])
  | meter rebuilt x minResourceFee network => exact hquiet hown (by simp [Handed]) (by simp [Unrejected])
  | unmetered rebuilt x minResourceFee => exact hsent hown.2 (by simp [Handed]) (by simp [Unrejected])
  | consume prepared network x => exact hsent hown.2 (by simp [Handed]) (by simp [Unrejected])
  | poll pc x pc' hpc hpc' =>
    rw [List.append_nil]
    exact own_sent (.inl hpc') (hown.sent (.inl hpc))
  | backOff x signedXdr attempt => rwa [List.append_nil]
  | again x signedXdr attempt => exact hsent hown.2 (by simp [Handed]) (by simp [Unrejected])
  | diagnose x signedXdr attempt code message =>
    rw [List.append_nil]
    exact hown.2

/-- A call that has been rejected adds nothing. -/
theorem Move.nil_of_rejected (hmove : Move h breaker c pc x pc' events) (hown : Own log c pc) {e : Thrown}
    (he : .rejected c e ∈ log) : events = [] := by
  have hended : pc = .ended := by
    cases pc with
    | ended => rfl
    | idle => exact absurd rfl (hown _ he)
    | diagnosing => exact absurd he (hown e)
    | gettingAccount | gettingBalance | preparing | consuming | sending | polling | sleeping | relaying | backingOff =>
      exact absurd he (hown.2 e)
  subst hended
  cases hmove with
  | stay => rfl
  | rebuild _ _ func auth hpc => rcases hpc with hpc | hpc <;> cases hpc
  | low _ _ message hstops => exact hstops.unsent.elim
  | refuse _ _ e hpc => exact hpc.elim
  | poll _ _ _ hpc => exact hpc.elim
  | fail _ _ e hpc => exact hpc.elim
  | resolve _ _ hash hpc => exact (hpc.elim id id).elim

/-- The code is releasable exactly where nothing was handed over. -/
def Settled (log : List (Event F I)) (c : ℕ) (code : String) : Prop := code ∈ RELEASABLE_SUBMISSION_CODES ↔ ¬ Handed log c

theorem settled_unsent {code : String} (hcode : code ∈ RELEASABLE_SUBMISSION_CODES) (hunsent : ¬ Handed log c) : Settled log c code :=
  iff_of_true hcode hunsent

theorem settled_sent {code : String} (hcode : code ∉ RELEASABLE_SUBMISSION_CODES) (hsent : Handed log c) : Settled log c code :=
  iff_of_false hcode (not_not.mpr hsent)

structure Base (s : State F I) : Prop where
  own : ∀ c, Own s.log c (s.pc c)

structure Right (s : State F I) : Prop where
  released : Released s.log
  diagnosing : ∀ c code message, s.pc c = .diagnosing code message → Settled s.log c code

theorem clear_not_stops (hclear : Clear h s a) : ¬ StopsAtFloor h.sponsor (s.pc a.1) a.2.reply := by
  unfold Clear at hclear
  rintro (⟨func, auth, balance, hpc, hreply, hget, hlow⟩ | ⟨func, auth, stroops, hpc, hreply, hlow⟩)
  · rw [hpc, hreply] at hclear
    exact hclear.elim hget fun hnot => hnot hlow
  · rw [hpc, hreply] at hclear
    exact hclear hlow

/-- **A rejection in a clear step** has the code it should have. -/
theorem Move.released (hmove : Move h s.breaker a.1 (s.pc a.1) a.2 pc' events) (hown : Own s.log a.1 (s.pc a.1)) (hright : Right s)
    (hx : a.2.reply.Own) (hclear : Clear h s a) {code message : String}
    (he : .rejected a.1 (.submission code message) ∈ events) : Settled (s.log ++ events) a.1 code := by
  have hpending := hright.diagnosing a.1
  have hstops := clear_not_stops hclear
  unfold Clear at hclear
  generalize hpc : s.pc a.1 = pc at hmove hown hpending hstops hclear
  have hunsent : ¬ Handed s.log a.1 → ¬ Handed events a.1 → ¬ Handed (s.log ++ events) a.1 := fun hlog hevents hc =>
    (handed_append.mp hc).elim hlog hevents
  have hsent : Handed s.log a.1 → Handed (s.log ++ events) a.1 := fun hlog => handed_append.mpr (.inl hlog)
  cases hmove with
  | bounce _ signedXdr e hsubmit hearly =>
    have hsame : Thrown.submission code message = e := by simpa using he
    exact settled_unsent (hearly _ _ hsame.symm).1 (hunsent (unhanded_of_silent hown) (by simp [Handed]))
  | empty _ signedXdr message' options hsubmit hfallback hnone hexecute hroute =>
    rw [hsubmit] at hclear
    rcases hclear options hfallback with hle | hclosed | hrouted
    · exact absurd hle (not_le.mpr hnone)
    · rw [hexecute] at hclosed
      cases hclosed
    · rw [hroute] at hrouted
      cases hrouted
  | low _ _ message' hlow => exact absurd hlow hstops
  | refuse _ _ e hpc hearly =>
    have hsame : Thrown.submission code message = e := by simpa using he
    exact settled_unsent (hearly _ _ hsame.symm).1 (hunsent (hown.unsent hpc).1 (by simp [Handed]))
  | tooHigh rebuilt _ minResourceFee =>
    have hsame : Thrown.submission code message = overFee h (rebuilt.fee + minResourceFee) := by simpa using he
    rw [submission_inj hsame]
    exact settled_unsent (by decide) (hunsent hown.1 (by simp [Handed]))
  | exceed prepared network _ answer e hearly =>
    have hsame : Thrown.submission code message = e := by simpa using he
    exact settled_unsent (hearly _ _ hsame.symm).1 (hunsent hown.1 (by simp [Handed]))
  | fail _ _ e hpc hlate =>
    have hsame : Thrown.submission code message = e := by simpa using he
    exact settled_sent (hlate _ _ hsame.symm).1 (hsent (hown.sent (.inl hpc)).1)
  | giveUp _ signedXdr attempt e hlate =>
    have hsame : Thrown.submission code message = e := by simpa using he
    exact settled_sent (hlate hx _ _ hsame.symm).1 (hsent hown.1)
  | diagnosed _ code' message' message'' =>
    have hsame : Thrown.submission code message = .submission code' message'' := by simpa using he
    rw [submission_inj hsame]
    have hsettled := hpending code' message' rfl
    unfold Settled at hsettled ⊢
    rw [hsettled, handed_append, or_iff_left (by simp [Handed])]
  | _ => simp at he

theorem step_pc_self : (step h s a).pc a.1 = (advance h s.breaker a.1 (s.pc a.1) a.2).1.1 := Function.update_self ..

theorem step_pc_other {c : ℕ} (hc : c ≠ a.1) : (step h s a).pc c = s.pc c := Function.update_of_ne hc ..

theorem step_move : Move h s.breaker a.1 (s.pc a.1) a.2 ((step h s a).pc a.1) (advance h s.breaker a.1 (s.pc a.1) a.2).1.2 := by
  rw [step_pc_self]
  exact advance_move

/-- **Step lemma**, of any step. -/
theorem base_step (hbase : Base s) : Base (step h s a) := by
  have hmove : Move h s.breaker a.1 (s.pc a.1) a.2 _ _ := step_move
  refine ⟨fun c => ?_⟩
  by_cases hc : c = a.1
  · rw [hc]
    exact hmove.own (hbase.own a.1)
  · rw [step_pc_other hc]
    exact (hbase.own c).others fun e he heq => hc (heq.symm.trans (hmove.call e he))

/-- **Step lemma**, of a clear step. -/
theorem right_step (hbase : Base s) (hright : Right s) (hx : a.2.reply.Own) (hclear : Clear h s a) : Right (step h s a) := by
  have hmove : Move h s.breaker a.1 (s.pc a.1) a.2 _ _ := step_move
  have hothers : ∀ {c}, c ≠ a.1 → ∀ e ∈ (advance h s.breaker a.1 (s.pc a.1) a.2).1.2, e.call ≠ c := fun hc e he heq =>
    hc (heq.symm.trans (hmove.call e he))
  refine ⟨fun c code message he => ?_, fun c code message hpc => ?_⟩
  · rcases List.mem_append.mp he with hold | hnew
    · by_cases hc : c = a.1
      · have hnil := hmove.nil_of_rejected (hbase.own a.1) (hc ▸ hold)
        show Settled (s.log ++ _) c code
        rw [hnil, List.append_nil]
        exact hright.released c code message hold
      · have hsettled := hright.released c code message hold
        show _ ↔ ¬ Handed (s.log ++ _) c
        rwa [handed_others (hothers hc)]
    · have hc : c = a.1 := hmove.call _ hnew
      subst hc
      exact hmove.released (hbase.own a.1) hright hx hclear hnew
  · by_cases hc : c = a.1
    · subst hc
      have hown := hbase.own a.1
      have hpending := hright.diagnosing a.1
      show Settled (s.log ++ _) a.1 code
      generalize (advance h s.breaker a.1 (s.pc a.1) a.2).1.2 = events at hmove ⊢
      rw [hpc] at hmove
      generalize s.pc a.1 = pc at hmove hown hpending
      cases hmove with
      | stay _ _ =>
        rw [List.append_nil]
        exact hpending code message rfl
      | bounceDiagnosed _ signedXdr _ _ hsubmit hearly =>
        refine settled_unsent (hearly _ _ rfl).1 fun hc => ?_
        exact (handed_append.mp hc).elim (unhanded_of_silent hown) (by simp [Handed])
      | poll _ _ _ _ hpc' => exact hpc'.elim
      | diagnose _ signedXdr attempt _ _ hlate =>
        rw [List.append_nil]
        exact settled_sent (hlate hx _ _ rfl).1 hown.1
    · rw [step_pc_other hc] at hpc
      have hsettled := hright.diagnosing c code message hpc
      show _ ↔ ¬ Handed (s.log ++ _) c
      rwa [handed_others (hothers hc)]

/-- A step that rejects its call unsent with a code that is not releasable. -/
theorem not_released_step {events : List (Event F I)} (heq : (advance h s.breaker a.1 (s.pc a.1) a.2).1.2 = events) {code message : String}
    (he : .rejected a.1 (.submission code message) ∈ events) (hcode : code ∉ RELEASABLE_SUBMISSION_CODES)
    (hlog : ¬ Handed s.log a.1) (hevents : ¬ Handed events a.1) : ¬ Released (step h s a).log := fun hreleased => by
  have hmem : .rejected a.1 (.submission code message) ∈ (step h s a).log := List.mem_append_right _ (heq ▸ he)
  refine hcode ((hreleased a.1 code message hmem).mpr fun hc => ?_)
  change Handed (s.log ++ _) a.1 at hc
  rw [heq] at hc
  exact (handed_append.mp hc).elim hlog hevents

theorem not_released_low (func : F) (auth : Option (List (AuthEntry I))) {balance : Option ℤ} (hlow : LowBalance h.sponsor balance)
    (heq : (advance h s.breaker a.1 (s.pc a.1) a.2).1 = checkBalance h a.1 func auth balance) (hlog : ¬ Handed s.log a.1) :
    ¬ Released (step h s a).log := by
  obtain ⟨floorStroops, hfloor, current, rfl, hle, hreturns⟩ := hlow
  have hevents : (advance h s.breaker a.1 (s.pc a.1) a.2).1.2 = [.rejected a.1 (.submission "sponsor_balance_below_floor"
      ("Sponsor account balance " ++ toString current ++ " stroops is at or below the " ++ toString floorStroops ++
        "-stroop reserve floor; refusing to sponsor."))] := by
    rw [heq]
    unfold checkBalance
    rw [hfloor]
    simp only [enforceBalanceFloor, if_pos hle, if_pos hreturns, reject]
  exact not_released_step hevents (List.mem_singleton_self _) (by decide) hlog (by simp [Handed])

theorem not_released_empty {signedXdr : String} {options : RelayerOptions} (hpc : s.pc a.1 = .idle) (hreply : a.2.reply = .submit signedXdr)
    (hfallback : h.fallback = .relayer options) (hnone : options.retries < 0) (hexecute : (canExecute a.2.now s.breaker).1 = true)
    (hroute : needsSponsorRebuild (h.fromXDR signedXdr h.networkPassphrase) ≠ true) (hlog : ¬ Handed s.log a.1) :
    ¬ Released (step h s a).log := by
  have hevents : (advance h s.breaker a.1 (s.pc a.1) a.2).1.2 = [.called a.1 signedXdr,
      .rejected a.1 (.submission "submission_failed" "Transaction submission failed after retries")] := by
    rw [hpc]
    unfold advance
    dsimp only
    rw [hreply]
    simp only [submit, if_neg hroute, submitFallback, hfallback, hexecute, if_true, Fallback.options, if_neg (not_le.mpr hnone), raise,
      Thrown.last, reject]
  exact not_released_step hevents (List.mem_cons_of_mem _ (List.mem_singleton_self _)) (by decide) hlog (by simp [Handed])

/-- **A step whose rejections are released is clear**. -/
theorem clear_of_released (hbase : Base s) (hreleased : Released (step h s a).log) : Clear h s a := by
  have hown := hbase.own a.1
  unfold Clear
  split
  · next func auth balance hpc hreply =>
    rw [or_iff_not_imp_left]
    intro hget hlow
    rw [hpc] at hown
    refine not_released_low func auth hlow ?_ hown.1 hreleased
    rw [hpc]
    unfold advance
    dsimp only
    rw [hreply]
    exact congrArg Prod.fst (if_neg fun hread => hget hread.2)
  · next func auth stroops hpc hreply =>
    intro hlow
    rw [hpc] at hown
    refine not_released_low func auth hlow ?_ hown.1 hreleased
    rw [hpc]
    unfold advance
    dsimp only
    rw [hreply]
  · next signedXdr hpc hreply =>
    intro options hfallback
    by_contra hnot
    push Not at hnot
    obtain ⟨hnone, hexecute, hroute⟩ := hnot
    rw [hpc] at hown
    exact not_released_empty hpc hreply hfallback hnone (Bool.eq_true_of_not_eq_false hexecute) hroute (unhanded_of_silent hown) hreleased
  · trivial

theorem base_start : Base (start breaker : State F I) := ⟨fun _ _ hmem => nomatch hmem⟩

theorem right_start : Right (start breaker : State F I) := ⟨fun _ _ _ hmem => (nomatch hmem), fun _ _ _ hpc => nomatch hpc⟩

theorem base_run (actions : List (ℕ × Input)) : Base (run (step h) (start breaker) actions) :=
  inv_run (P := Base) (G := fun _ _ => True) (fun _ _ hbase _ => base_step hbase) base_start along_true

/-- **Reservations are released exactly when nothing was sent**, in exactly the clear runs: whatever the RPC, the relayer and the
budget answer, for any number of calls. -/
theorem released_iff (h : Hybrid F I) (breaker : CircuitBreaker) (actions : List (ℕ × Input)) (hown : ∀ a ∈ actions, a.2.reply.Own) :
    (∀ pre, pre <+: actions → Released (run (step h) (start breaker) pre).log) ↔
      Along (step h) (Clear h) (start breaker) actions := by
  constructor
  · intro hreleased
    refine along_iff.mpr fun pre a post hsplit => ?_
    have hnext : Released (run (step h) (start breaker) (pre ++ [a])).log := hreleased _ ⟨post, by rw [hsplit]; simp⟩
    rw [run_snoc] at hnext
    exact clear_of_released (base_run pre) hnext
  · intro hclear pre hpre
    have hall : Along (step h) (fun s a => Clear h s a ∧ a.2.reply.Own) (start breaker) actions := by
      rw [along_iff] at hclear ⊢
      exact fun pre a post hsplit => ⟨hclear pre a post hsplit, hown a (hsplit ▸ by simp)⟩
    obtain ⟨-, hright⟩ := inv_prefix (P := fun s : State F I => Base s ∧ Right s)
      (fun s a hs ha => ⟨base_step hs.1, right_step hs.1 hs.2 ha.2 ha.1⟩) ⟨base_start, right_start⟩ hall pre hpre
    exact hright.released

end Runs

/-! ## One call of the sponsor -/

/-- One envelope, with an authorization of one wallet. -/
def testnetXDR (signedXdr _networkPassphrase : String) : Option (SignedTransaction Unit Unit) :=
  if signedXdr = "AAAA" then
    some (.transaction [.invokeHostFunction () (some
      [⟨.addressV2 ⟨⟨"CDLZFC3SYJYDZT7K67VZ75HPJVIEUVNIXF47ZG2FB2RMQQVU2HHGCYSC"⟩, 7, 100⟩, ()⟩])])
  else none

/-- A sponsor with a floor of 1 XLM. -/
def flooredHybrid : Hybrid Unit Unit where
  fromXDR := testnetXDR
  networkPassphrase := "Test SDF Network ; September 2015"
  sponsor := ⟨"Test SDF Network ; September 2015", none, true, some .testnet, some 10000000, fun _ _ => true, false⟩
  fallback := .unconfigured

/-- The call up to the account, with the balance given. -/
def upToAccount (balance : ℤ) : List (ℕ × Input) :=
  [(0, ⟨.submit "AAAA", 0, false⟩), (0, ⟨.account (some balance), 0, false⟩)]

theorem released_above_floor :
    Released (run (step flooredHybrid) (start .init) (upToAccount 20000000 ++ [(0, ⟨.throws "" true, 0, false⟩)])).log := by
  have hown : ∀ a ∈ upToAccount 20000000 ++ [(0, ⟨.throws "" true, 0, false⟩)], a.2.reply.Own := by
    simp [upToAccount, Reply.Own]
  refine (released_iff flooredHybrid .init _ hown).mpr ⟨fun options hfallback => (nomatch hfallback), .inr ?_, trivial, trivial⟩ _
    List.prefix_rfl
  rintro ⟨floorStroops, hfloor, current, hcurrent, hle, -⟩
  cases hfloor
  cases hcurrent
  omega

/-- A balance below the floor refuses the call before anything is sent, and the reservation stays. -/
theorem kept_below_floor : ¬ ∀ (h : Hybrid Unit Unit) (breaker : CircuitBreaker) (actions : List (ℕ × Input)),
    (∀ a ∈ actions, a.2.reply.Own) → Released (run (step h) (start breaker) actions).log := by
  intro hall
  have hreleased := hall flooredHybrid .init (upToAccount 9000000) (by simp [upToAccount, Reply.Own])
  have hlog : (run (step flooredHybrid) (start .init) (upToAccount 9000000)).log =
      [.called 0 "AAAA", .rejected 0 (.submission "sponsor_balance_below_floor"
        "Sponsor account balance 9000000 stroops is at or below the 10000000-stroop reserve floor; refusing to sponsor.")] := rfl
  rw [hlog] at hreleased
  have hcode := (hreleased 0 _ _ (List.mem_cons_of_mem _ (List.mem_singleton_self _))).mpr (by simp [Handed])
  exact absurd hcode (by decide)

end Vellar.Wallet.Submitters
