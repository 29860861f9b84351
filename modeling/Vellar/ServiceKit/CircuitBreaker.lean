import Vellar.Lib.Machine

/-!
# Vellar.ServiceKit.CircuitBreaker — the circuit breaker and its trial calls

`createCircuitBreaker` of `packages/service-kit/src/circuit-breaker.ts`.  A run is a list of events of any number of
overlapping calls; an `execute` is a `beforeCall` and, once its function has settled, the `recordOutcome` of the
same call.  `TrialLaw` says what the header promises: nothing is admitted during the cooldown, then one trial
call until its own outcome is recorded.  `trialLaw_of_orderly`: the law holds in every run in which no late
outcome meets an open or half-open breaker and no call meets a half-open one.
-/

set_option autoImplicit false

namespace Vellar.ServiceKit.CircuitBreaker

open Machine

inductive CircuitState where
  | closed
  | opened
  | halfOpen
deriving DecidableEq, Repr

inductive Outcome where
  | success
  | failure
deriving DecidableEq, Repr

structure CircuitBreakerOptions where
  failureThreshold : ℤ
  cooldownMs : ℤ

structure CircuitOpenError where
  retryAfterMs : ℤ
deriving DecidableEq, Repr

structure Breaker where
  state : CircuitState
  consecutiveFailures : ℕ
  openedAt : ℤ
  /-- What `onStateChange` was told. -/
  stateChanges : List (CircuitState × CircuitState)
deriving DecidableEq, Repr

def createCircuitBreaker : Breaker := ⟨.closed, 0, 0, []⟩

def transition (target : CircuitState) (b : Breaker) : Breaker :=
  if target = b.state then b
  else { b with state := target, stateChanges := b.stateChanges ++ [(b.state, target)] }

section Breaker

variable (options : CircuitBreakerOptions)

def beforeCall (now : ℤ) (b : Breaker) : Except CircuitOpenError Breaker :=
  if b.state = .opened then
    let elapsed := now - b.openedAt
    if elapsed < options.cooldownMs then .error ⟨options.cooldownMs - elapsed⟩ else .ok (transition .halfOpen b)
  else .ok b

def recordOutcome (now : ℤ) (outcome : Outcome) (b : Breaker) : Breaker :=
  match outcome with
  | .success => transition .closed { b with consecutiveFailures := 0 }
  | .failure =>
    if b.state = .halfOpen then transition .opened { b with openedAt := now }
    else
      let b := { b with consecutiveFailures := b.consecutiveFailures + 1 }
      if options.failureThreshold ≤ b.consecutiveFailures then transition .opened { b with openedAt := now } else b

/-! ## Runs -/

/-- What the call `id` does to the breaker. -/
inductive Op where
  | beforeCall (id : ℕ)
  | recordOutcome (id : ℕ) (outcome : Outcome)
deriving DecidableEq, Repr

structure Event where
  now : ℤ
  op : Op
deriving DecidableEq, Repr

/-- The breaker, and the last call it admitted as a trial. -/
structure State where
  breaker : Breaker
  trial : Option ℕ
deriving DecidableEq, Repr

def start : State := ⟨createCircuitBreaker, none⟩

def step (s : State) (e : Event) : State :=
  match e.op with
  | .beforeCall id =>
    match beforeCall options e.now s.breaker with
    | .error _ => s
    | .ok b => ⟨b, if s.breaker.state = .opened then some id else s.trial⟩
  | .recordOutcome _ outcome => { s with breaker := recordOutcome options e.now outcome s.breaker }

/-- The state the events lead to. -/
def after (events : List Event) : State := run (step options) start events

def Event.IsCall (e : Event) : Prop := ∃ id, e.op = .beforeCall id

def Event.IsOutcomeOf (id : ℕ) (e : Event) : Prop := ∃ outcome, e.op = .recordOutcome id outcome

def Admitted (s : State) (e : Event) : Prop := ∃ b, beforeCall options e.now s.breaker = .ok b

def Refused (s : State) (e : Event) : Prop := ∃ error, beforeCall options e.now s.breaker = .error error

/-- The event opens the breaker. -/
def Opens (s : State) (e : Event) : Prop := s.breaker.state ≠ .opened ∧ (step options s e).breaker.state = .opened

/-- The event admits the call `id` to a breaker that is open, as its trial. -/
def IsTrial (id : ℕ) (s : State) (e : Event) : Prop :=
  e.op = .beforeCall id ∧ s.breaker.state = .opened ∧ Admitted options s e

/-- The promise of the header, over a run. -/
structure TrialLaw (events : List Event) : Prop where
  /-- After an opening nothing is admitted before the cooldown is over. -/
  cooldown : ∀ pre e mid c post, events = pre ++ e :: (mid ++ c :: post) → Opens options (after options pre) e →
    c.IsCall → c.now < e.now + options.cooldownMs → Refused options (after options (pre ++ e :: mid)) c
  /-- The first call after the cooldown is admitted. -/
  oneTrial : ∀ pre e mid c post, events = pre ++ e :: (mid ++ c :: post) → Opens options (after options pre) e →
    (∀ mid₁ x mid₂, mid = mid₁ ++ x :: mid₂ → x.IsCall → Refused options (after options (pre ++ e :: mid₁)) x) →
    c.IsCall → e.now + options.cooldownMs ≤ c.now → Admitted options (after options (pre ++ e :: mid)) c
  /-- No other call is admitted until the outcome of the trial is recorded. -/
  noSecond : ∀ pre e mid c post id, events = pre ++ e :: (mid ++ c :: post) → IsTrial options id (after options pre) e →
    (∀ x ∈ mid, ¬ x.IsOutcomeOf id) → c.IsCall → Refused options (after options (pre ++ e :: mid)) c
  closes : ∀ pre e mid r post id, events = pre ++ e :: (mid ++ r :: post) → IsTrial options id (after options pre) e →
    (∀ x ∈ mid, ¬ x.IsOutcomeOf id) → r.op = .recordOutcome id .success →
    (step options (after options (pre ++ e :: mid)) r).breaker.state = .closed
  reopens : ∀ pre e mid r post id, events = pre ++ e :: (mid ++ r :: post) → IsTrial options id (after options pre) e →
    (∀ x ∈ mid, ¬ x.IsOutcomeOf id) → r.op = .recordOutcome id .failure →
    Opens options (after options (pre ++ e :: mid)) r

/-- No outcome of an earlier call meets an open or half-open breaker, no call meets a half-open one. -/
def Orderly (s : State) (e : Event) : Prop :=
  match s.breaker.state, e.op with
  | .closed, _ => True
  | .opened, .beforeCall _ => True
  | .opened, .recordOutcome _ _ => False
  | .halfOpen, .beforeCall _ => False
  | .halfOpen, .recordOutcome id _ => s.trial = some id

instance {s : State} {e : Event} : Decidable (Orderly s e) := by
  unfold Orderly
  cases s.breaker.state <;> cases e.op <;> exact inferInstance

end Breaker

/-! ## The law -/

section Law

variable {options : CircuitBreakerOptions} {s : State} {e : Event} {events : List Event}

theorem transition_state (target : CircuitState) (b : Breaker) : (transition target b).state = target := by
  unfold transition
  split_ifs with h
  · exact h.symm
  · rfl

theorem transition_openedAt (target : CircuitState) (b : Breaker) : (transition target b).openedAt = b.openedAt := by
  unfold transition
  split_ifs
  · rfl
  · rfl

theorem after_append (pre post : List Event) :
    after options (pre ++ post) = run (step options) (after options pre) post := run_append ..

/-- Calls find out by the breaker's state and clock. -/
theorem refused_iff : Refused options s e ↔
    s.breaker.state = .opened ∧ e.now < s.breaker.openedAt + options.cooldownMs := by
  unfold Refused beforeCall
  by_cases hopen : s.breaker.state = .opened
  · by_cases hearly : e.now - s.breaker.openedAt < options.cooldownMs
    · simp only [hopen, if_true, if_pos hearly]
      exact ⟨fun _ => ⟨trivial, by omega⟩, fun _ => ⟨_, rfl⟩⟩
    · simp only [hopen, if_true, if_neg hearly]
      exact ⟨fun h => by simp at h, fun h => absurd (show e.now - s.breaker.openedAt < _ by omega) hearly⟩
  · simp [hopen]

theorem admitted_iff : Admitted options s e ↔ ¬ Refused options s e := by
  unfold Admitted Refused
  cases beforeCall options e.now s.breaker with
  | ok b => simp
  | error x => simp

/-- A refused call leaves the state alone. -/
theorem step_refused (hcall : e.IsCall) (h : Refused options s e) : step options s e = s := by
  obtain ⟨id, hid⟩ := hcall
  obtain ⟨error, herr⟩ := h
  unfold step
  rw [hid]
  simp only [herr]

/-- An opening starts its cooldown at its own time. -/
theorem Opens.openedAt (h : Opens options s e) : (step options s e).breaker.openedAt = e.now := by
  obtain ⟨hnot, hopen⟩ := h
  unfold step at hopen ⊢
  cases hop : e.op with
  | beforeCall id =>
    simp only [hop, beforeCall, if_neg hnot] at hopen
    exact absurd hopen hnot
  | recordOutcome id outcome =>
    simp only [hop] at hopen ⊢
    cases outcome with
    | success =>
      simp only [recordOutcome, transition_state] at hopen
      cases hopen
    | failure =>
      simp only [recordOutcome] at hopen ⊢
      by_cases hhalf : s.breaker.state = .halfOpen
      · rw [if_pos hhalf, transition_openedAt]
      · rw [if_neg hhalf] at hopen ⊢
        by_cases htrip : options.failureThreshold ≤ ((s.breaker.consecutiveFailures + 1 : ℕ) : ℤ)
        · rw [if_pos htrip, transition_openedAt]
        · rw [if_neg htrip] at hopen
          exact absurd hopen hnot

/-- A trial leaves the breaker half-open, with its own id. -/
theorem IsTrial.step_eq {id : ℕ} (h : IsTrial options id s e) :
    (step options s e).breaker.state = .halfOpen ∧ (step options s e).trial = some id := by
  obtain ⟨hop, hopen, b, hb⟩ := h
  unfold step
  simp only [hop, hb, if_pos hopen, and_true]
  unfold beforeCall at hb
  rw [if_pos hopen] at hb
  by_cases hearly : e.now - s.breaker.openedAt < options.cooldownMs
  · simp only [if_pos hearly] at hb
    cases hb
  · simp only [if_neg hearly] at hb
    cases hb
    exact transition_state _ _

theorem step_success {id : ℕ} (hop : e.op = .recordOutcome id .success) :
    (step options s e).breaker.state = .closed := by
  unfold step
  simp only [hop, recordOutcome, transition_state]

/-- A failure reopens a half-open breaker. -/
theorem opens_of_failure {id : ℕ} (hhalf : s.breaker.state = .halfOpen) (hop : e.op = .recordOutcome id .failure) :
    Opens options s e := by
  refine ⟨by rw [hhalf]; decide, ?_⟩
  unfold step
  simp only [hop, recordOutcome, if_pos hhalf, transition_state]

/-- In an orderly run only calls meet an open breaker. -/
theorem Orderly.isCall (h : Orderly s e) (hopen : s.breaker.state = .opened) : e.IsCall := by
  unfold Orderly at h
  rw [hopen] at h
  cases hop : e.op with
  | beforeCall id => exact ⟨id, hop⟩
  | recordOutcome id outcome => simp [hop] at h

/-- While calls are refused, the breaker stays as it is. -/
theorem run_refused {mid : List Event} (horderly : Along (step options) Orderly s mid) (hopen : s.breaker.state = .opened)
    (hrefused : ∀ mid₁ x mid₂, mid = mid₁ ++ x :: mid₂ → x.IsCall → Refused options (run (step options) s mid₁) x) :
    run (step options) s mid = s := by
  induction mid with
  | nil => rfl
  | cons x mid ih =>
    have hcall : x.IsCall := horderly.1.isCall hopen
    have hsame : step options s x = s := step_refused hcall (hrefused [] x mid rfl hcall)
    rw [run_cons, hsame]
    refine ih (hsame ▸ horderly.2) fun mid₁ y mid₂ heq hy => ?_
    have hnext := hrefused (x :: mid₁) y mid₂ (by rw [heq]; rfl) hy
    rwa [run_cons, hsame] at hnext

/-- Before the cooldown is over every call is refused. -/
theorem run_early {mid : List Event} (horderly : Along (step options) Orderly s mid) (hopen : s.breaker.state = .opened)
    (hearly : ∀ x ∈ mid, x.now < s.breaker.openedAt + options.cooldownMs) : run (step options) s mid = s := by
  induction mid with
  | nil => rfl
  | cons x mid ih =>
    have hx : Refused options s x := refused_iff.mpr ⟨hopen, hearly x List.mem_cons_self⟩
    have hsame : step options s x = s := step_refused (horderly.1.isCall hopen) hx
    rw [run_cons, hsame]
    exact ih (hsame ▸ horderly.2) fun y hy => hearly y (List.mem_cons_of_mem _ hy)

/-- In an orderly run the event after a trial is its outcome. -/
theorem trial_then_outcome {id : ℕ} {mid post : List Event} {x : Event} (hhalf : s.breaker.state = .halfOpen)
    (htrial : s.trial = some id) (horderly : Along (step options) Orderly s (mid ++ x :: post))
    (hmid : ∀ y ∈ mid, ¬ y.IsOutcomeOf id) : mid = [] ∧ x.IsOutcomeOf id := by
  have hfirst : ∀ y rest, mid ++ x :: post = y :: rest → y.IsOutcomeOf id := by
    intro y rest heq
    rw [heq] at horderly
    have hy := horderly.1
    unfold Orderly at hy
    rw [hhalf, htrial] at hy
    cases hop : y.op with
    | beforeCall id' => simp [hop] at hy
    | recordOutcome id' outcome =>
      simp only [hop, Option.some.injEq] at hy
      exact ⟨outcome, by rw [hop, hy]⟩
  cases mid with
  | nil => exact ⟨rfl, hfirst x post rfl⟩
  | cons y mid => exact absurd (hfirst y _ rfl) (hmid y List.mem_cons_self)

/-- **One trial after the cooldown**, in every orderly run under a clock that does not run backwards. -/
theorem trialLaw_of_orderly (hclock : events.Pairwise (·.now ≤ ·.now))
    (horderly : Along (step options) Orderly start events) : TrialLaw options events := by
  -- What comes after an event is orderly, from the state the event leaves.
  have hrest : ∀ pre e rest, events = pre ++ e :: rest →
      Along (step options) Orderly (step options (after options pre) e) rest := by
    intro pre e rest heq
    rw [heq, along_append] at horderly
    exact horderly.2.2
  have hsplit : ∀ pre e mid,
      after options (pre ++ e :: mid) = run (step options) (step options (after options pre) e) mid := by
    intro pre e mid
    rw [after_append, run_cons]
  refine ⟨?_, ?_, ?_, ?_, ?_⟩
  · intro pre e mid c post heq hopens hcall hearly
    have horder := hrest pre e _ heq
    have htimes : ∀ x ∈ mid, x.now ≤ c.now := by
      rw [heq, List.pairwise_append] at hclock
      have htail := (List.pairwise_cons.mp hclock.2.1).2
      rw [List.pairwise_append] at htail
      exact fun x hx => htail.2.2 x hx c List.mem_cons_self
    have hstays := run_early (along_append.mp horder).1 hopens.2 fun x hx => by
      rw [hopens.openedAt]
      exact (htimes x hx).trans_lt hearly
    rw [hsplit, hstays, refused_iff, hopens.openedAt]
    exact ⟨hopens.2, hearly⟩
  · intro pre e mid c post heq hopens hrefused hcall hlate
    have horder := hrest pre e _ heq
    have hstays := run_refused (along_append.mp horder).1 hopens.2 fun mid₁ x mid₂ hmid hx => by
      rw [← hsplit]
      exact hrefused mid₁ x mid₂ hmid hx
    rw [hsplit, hstays, admitted_iff, refused_iff, hopens.openedAt]
    exact fun h => absurd h.2 (not_lt.mpr hlate)
  · intro pre e mid c post id heq htrial hmid hcall
    obtain ⟨hhalf, hid⟩ := htrial.step_eq
    obtain ⟨-, outcome, hop⟩ := trial_then_outcome hhalf hid (hrest pre e _ heq) hmid
    obtain ⟨id', hop'⟩ := hcall
    rw [hop] at hop'
    cases hop'
  · intro pre e mid r post id heq htrial hmid hop
    exact step_success hop
  · intro pre e mid r post id heq htrial hmid hop
    obtain ⟨hhalf, hid⟩ := htrial.step_eq
    obtain ⟨rfl, -⟩ := trial_then_outcome hhalf hid (hrest pre e _ heq) hmid
    rw [hsplit, run_nil]
    exact opens_of_failure hhalf hop

end Law

/-! Three overlapping calls over a breaker that opens at the first failure, for 30 ms. -/

def firstFailure : CircuitBreakerOptions := ⟨1, 30⟩

/-- One call fails, the next comes too early, the trial succeeds. -/
def oneByOne : List Event :=
  [⟨0, .beforeCall 1⟩, ⟨1, .recordOutcome 1 .failure⟩, ⟨5, .beforeCall 2⟩, ⟨31, .beforeCall 3⟩,
    ⟨40, .recordOutcome 3 .success⟩, ⟨41, .beforeCall 4⟩]

theorem trialLaw_of_orderly_oneByOne :
    (after firstFailure oneByOne).breaker = ⟨.closed, 0, 1, [(.closed, .opened), (.opened, .halfOpen), (.halfOpen, .closed)]⟩ ∧
      TrialLaw firstFailure oneByOne :=
  ⟨by decide, trialLaw_of_orderly (by decide) (by decide)⟩

/-- A success of a call admitted before the opening. -/
def lateSuccess : List Event :=
  [⟨0, .beforeCall 1⟩, ⟨0, .beforeCall 2⟩, ⟨1, .recordOutcome 1 .failure⟩, ⟨2, .recordOutcome 2 .success⟩,
    ⟨3, .beforeCall 3⟩]

/-- Two calls after the cooldown. -/
def twoTrials : List Event :=
  [⟨0, .beforeCall 1⟩, ⟨1, .recordOutcome 1 .failure⟩, ⟨31, .beforeCall 2⟩, ⟨32, .beforeCall 3⟩]

/-- The late success ends the cooldown after 1 ms; and a half-open breaker admits whoever calls. -/
theorem overlapping_calls_break_the_law : ¬ TrialLaw firstFailure lateSuccess ∧ ¬ TrialLaw firstFailure twoTrials := by
  refine ⟨fun h => ?_, fun h => ?_⟩
  · have hrefused := h.cooldown [⟨0, .beforeCall 1⟩, ⟨0, .beforeCall 2⟩] ⟨1, .recordOutcome 1 .failure⟩
      [⟨2, .recordOutcome 2 .success⟩] ⟨3, .beforeCall 3⟩ [] rfl ⟨by decide, by decide⟩ ⟨3, rfl⟩ (by decide)
    rw [refused_iff] at hrefused
    revert hrefused
    decide
  · have hrefused := h.noSecond [⟨0, .beforeCall 1⟩, ⟨1, .recordOutcome 1 .failure⟩] ⟨31, .beforeCall 2⟩ []
      ⟨32, .beforeCall 3⟩ [] 2 rfl ⟨rfl, by decide, _, rfl⟩ (by simp) ⟨3, rfl⟩
    rw [refused_iff] at hrefused
    revert hrefused
    decide

end Vellar.ServiceKit.CircuitBreaker
