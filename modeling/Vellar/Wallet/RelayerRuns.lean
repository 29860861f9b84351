import Vellar.Wallet.Submitters

/-!
# Vellar.Wallet.RelayerRuns — the relayer's retries and its breaker

`createRelayerSubmitter` of `services/wallet-service/src/relayer.ts`: any number of `submit` calls over one breaker, each
sending, sleeping and sending again.  The breaker is asked before a sleep and not after it, and a result changes it whoever
sent; `relayer_law` has the runs in which it holds back what it should.  How long a call sleeps is left open.
-/

set_option autoImplicit false

namespace Vellar.Wallet.RelayerRuns

open Machine
open Submitters (RelayerOptions BreakerState CircuitBreaker canExecute recordSuccess recordFailure Thrown)

/-- How a `server.send` fails: with an error, its context as JSON, or by throwing. -/
inductive SendError where
  | failure (code message : String) (context : Option String)
  | threw (isError : Bool)
deriving DecidableEq

/-- `lastError` -/
def SendError.lastError : SendError → Thrown
  | .failure code message context => .submission code (message ++ (context.map (" " ++ ·)).getD "")
  | .threw isError => if isError then .error else .value

inductive SendResult where
  | success (hash : String)
  | fails (error : SendError)
deriving DecidableEq

/-- Where a call is. -/
inductive Pc where
  | idle
  | sending (signedXdr : String) (attempt : ℕ)
  | sleeping (signedXdr : String) (attempt : ℕ)
  | returned (hash : String)
  | rejected (thrown : Thrown)
deriving DecidableEq

inductive Op where
  | submit (signedXdr : String)
  | result (r : SendResult)
  | woke
deriving DecidableEq

structure Event where
  now : ℤ
  call : ℕ
  op : Op
deriving DecidableEq

/-- The breaker, and the call that last found its timeout over. -/
structure Guard where
  breaker : CircuitBreaker
  trial : Option ℕ

structure State where
  guard : Guard
  pc : ℕ → Pc

/-- No call yet, over a breaker of any state. -/
def start (breaker : CircuitBreaker) : State := ⟨⟨breaker, none⟩, fun _ => .idle⟩

section Submitter

variable (options : RelayerOptions) (breaker : CircuitBreaker)

/-- `canExecute` of a call. -/
def ask (now : ℤ) (call : ℕ) (g : Guard) : Bool × Guard :=
  let executed := canExecute now g.breaker
  (executed.1, ⟨executed.2, if g.breaker.state = .opened ∧ executed.1 = true then some call else g.trial⟩)

/-- The rest of an attempt that failed. -/
def failed (now : ℤ) (call : ℕ) (signedXdr : String) (attempt : ℕ) (lastError : Thrown) (g : Guard) : Pc × Guard :=
  let g := { g with breaker := recordFailure options now g.breaker }
  if (attempt : ℤ) < options.retries then
    let asked := ask now call g
    if asked.1 then (.sleeping signedXdr (attempt + 1), asked.2) else (.rejected lastError.last, asked.2)
  else (.rejected lastError.last, g)

/-- One step of a call. -/
def advance (e : Event) (pc : Pc) (g : Guard) : Pc × Guard :=
  match pc, e.op with
  | .idle, .submit signedXdr =>
    let asked := ask e.now e.call g
    if asked.1 then
      (if 0 ≤ options.retries then .sending signedXdr 0 else .rejected (Thrown.last .value), asked.2)
    else (.rejected (.submission "circuit_breaker_open" "Circuit breaker open: RPC outage detected"), asked.2)
  | .sending _ _, .result (.success hash) => (.returned hash, { g with breaker := recordSuccess g.breaker })
  | .sending signedXdr attempt, .result (.fails error) => failed options e.now e.call signedXdr attempt error.lastError g
  | .sleeping signedXdr attempt, .woke => (.sending signedXdr attempt, g)
  | pc, _ => (pc, g)

def step (s : State) (e : Event) : State :=
  ⟨(advance options e (s.pc e.call) s.guard).2, Function.update s.pc e.call (advance options e (s.pc e.call) s.guard).1⟩

/-- The state the events lead to. -/
def after (events : List Event) : State := run (step options) (start breaker) events

/-! ## What is promised -/

def Pc.isSending : Pc → Bool
  | .sending _ _ => true
  | _ => false

/-- What the call has returned. -/
def Pc.hash : Pc → Option String
  | .returned hash => some hash
  | _ => none

/-- The event is what the call awaits. -/
def Answers (pc : Pc) (op : Op) : Bool :=
  match pc, op with
  | .idle, .submit _ | .sending _ _, .result _ | .sleeping _ _, .woke => true
  | _, _ => false

/-- The event starts a send. -/
def Sends (s : State) (e : Event) : Prop :=
  (s.pc e.call).isSending = false ∧ ((step options s e).pc e.call).isSending = true

/-- A failed send opens the breaker. -/
def Opens (s : State) (e : Event) : Prop :=
  (s.pc e.call).isSending = true ∧ (∃ error, e.op = .result (.fails error)) ∧
    s.guard.breaker.state ≠ .opened ∧ (recordFailure options e.now s.guard.breaker).state = .opened

def Event.IsResultOf (call : ℕ) (e : Event) : Prop := e.call = call ∧ ∃ r, e.op = .result r

/-- What happened to a call. -/
inductive Note where
  | answered (call : ℕ)
  | sent (call : ℕ)
  | reported (call : ℕ) (hash : String)
deriving DecidableEq

def Note.call : Note → ℕ
  | .answered call | .sent call | .reported call _ => call

instance (s : State) (e : Event) : Decidable (Sends options s e) := inferInstanceAs (Decidable (_ ∧ _))

def notesOf (s : State) (e : Event) : List Note :=
  (if Answers (s.pc e.call) e.op = true then [.answered e.call] else []) ++
    (if Sends options s e then [.sent e.call] else []) ++
    match s.pc e.call, e.op with
    | .sending _ _, .result (.success hash) => [.reported e.call hash]
    | _, _ => []

def history (events : List Event) : List Note := logOf (step options) (notesOf options) (start breaker) events

def resetTimeout : ℤ := options.resetTimeoutMs.getD 30000

/-- What the retries owe the breaker, over a run. -/
structure RelayerLaw (events : List Event) : Prop where
  /-- After an opening no send starts before the timeout is over. -/
  cooldown : ∀ pre a mid b post, events = pre ++ a :: (mid ++ b :: post) → Opens options (after options breaker pre) a →
    b.now < a.now + resetTimeout options → ¬ Sends options (after options breaker (pre ++ a :: mid)) b
  /-- From the first send after an opening to its result, no other is outstanding. -/
  single : ∀ pre a mid b mid' post, events = pre ++ a :: (mid ++ b :: (mid' ++ post)) → Opens options (after options breaker pre) a →
    (∀ m x m', mid = m ++ x :: m' → ¬ Sends options (after options breaker (pre ++ a :: m)) x) →
    Sends options (after options breaker (pre ++ a :: mid)) b → (∀ x ∈ mid', ¬ x.IsResultOf b.call) →
      ∀ i, i ≠ b.call → ((after options breaker (pre ++ a :: (mid ++ b :: mid'))).pc i).isSending = false
  sends : ∀ call, ((history options breaker events).count (.sent call) : ℤ) ≤ max 0 (options.retries + 1)
  /-- A call is over after so many answers. -/
  ends : ∀ call, ((history options breaker events).count (.answered call) : ℤ) ≤ 2 * max 0 (options.retries + 1) + 1
  /-- A call returns a hash exactly when a send of its own reported it. -/
  hash : ∀ call hash, (after options breaker events).pc call = .returned hash ↔ .reported call hash ∈ history options breaker events

/-- Nothing but the trial meets a breaker that is not closed, and it is alone. -/
def Orderly (s : State) (e : Event) : Prop :=
  match s.pc e.call, e.op with
  | .idle, .submit _ => s.guard.breaker.state ≠ .halfOpen ∧
      (s.guard.breaker.state = .opened → s.guard.breaker.nextAttemptTime ≤ e.now → ∀ i, (s.pc i).isSending = false)
  | .sending _ _, .result r => s.guard.breaker.state = .closed ∨
      s.guard.breaker.state = .opened ∧ (∃ error, r = .fails error) ∨
      s.guard.breaker.state = .halfOpen ∧ s.guard.trial = some e.call
  | .sleeping _ _, .woke => s.guard.breaker.state = .closed ∨
      s.guard.breaker.state = .halfOpen ∧ s.guard.trial = some e.call ∧ ∀ i, (s.pc i).isSending = false
  | _, _ => True

end Submitter

/-! ## What a step does -/

section Steps

variable {options : RelayerOptions} {breaker : CircuitBreaker} {s : State} {e : Event} {g : Guard} {now : ℤ} {call : ℕ}
  {pre mid : List Event}

theorem step_self : (step options s e).pc e.call = (advance options e (s.pc e.call) s.guard).1 := Function.update_self ..

theorem step_other (h : call ≠ e.call) : (step options s e).pc call = s.pc call := Function.update_of_ne h ..

theorem after_append : after options breaker (pre ++ mid) = run (step options) (after options breaker pre) mid :=
  run_append ..

theorem after_snoc : after options breaker (pre ++ [e]) = step options (after options breaker pre) e := run_snoc ..

/-- An open breaker whose timeout is not over. -/
theorem ask_early (hopen : g.breaker.state = .opened) (hearly : now < g.breaker.nextAttemptTime) : ask now call g = (false, g) := by
  unfold ask canExecute
  rw [if_pos hopen, if_neg (not_le.mpr hearly)]
  simp

theorem ask_late (hopen : g.breaker.state = .opened) (hlate : g.breaker.nextAttemptTime ≤ now) :
    ask now call g = (true, ⟨{ g.breaker with state := .halfOpen }, some call⟩) := by
  unfold ask canExecute
  simp [hopen, hlate]

/-- What a step can do: nothing, a refusal, or what the call awaits. -/
inductive Moved (options : RelayerOptions) (s : State) (e : Event) (pc : Pc) (g : Guard) : Prop where
  | none (hanswers : Answers (s.pc e.call) e.op = false) (hpc : pc = s.pc e.call) (hg : g = s.guard)
  | called (signedXdr : String) (hidle : s.pc e.call = .idle) (hop : e.op = .submit signedXdr)
      (hg : g = (ask e.now e.call s.guard).2)
      (hpc : pc = .sending signedXdr 0 ∧ 0 ≤ options.retries ∧ (ask e.now e.call s.guard).1 = true ∨
        ∃ thrown, pc = .rejected thrown ∧ (0 ≤ options.retries → (ask e.now e.call s.guard).1 = false))
  | succeeded (signedXdr : String) (attempt : ℕ) (hash : String) (hpc : s.pc e.call = .sending signedXdr attempt)
      (hop : e.op = .result (.success hash)) (hpc' : pc = .returned hash)
      (hg : g = { s.guard with breaker := recordSuccess s.guard.breaker })
  | failed (signedXdr : String) (attempt : ℕ) (error : SendError) (hpc : s.pc e.call = .sending signedXdr attempt)
      (hop : e.op = .result (.fails error))
      (hmoved : (pc, g) = failed options e.now e.call signedXdr attempt error.lastError s.guard)
  | woke (signedXdr : String) (attempt : ℕ) (hpc : s.pc e.call = .sleeping signedXdr attempt) (hop : e.op = .woke)
      (hpc' : pc = .sending signedXdr attempt) (hg : g = s.guard)

theorem moved (options : RelayerOptions) (s : State) (e : Event) :
    Moved options s e ((step options s e).pc e.call) (step options s e).guard := by
  rw [step_self]
  show Moved options s e _ (advance options e (s.pc e.call) s.guard).2
  cases hpc : s.pc e.call with
  | idle =>
    cases hop : e.op with
    | submit signedXdr =>
      simp only [advance, hop]
      cases hasked : (ask e.now e.call s.guard).1 with
      | true =>
        rw [if_pos rfl]
        by_cases hretries : 0 ≤ options.retries
        · exact .called signedXdr hpc hop rfl (.inl ⟨if_pos hretries, hretries, hasked⟩)
        · exact .called signedXdr hpc hop rfl (.inr ⟨_, if_neg hretries, fun h => absurd h hretries⟩)
      | false =>
        rw [if_neg Bool.false_ne_true]
        exact .called signedXdr hpc hop rfl (.inr ⟨_, rfl, fun _ => hasked⟩)
    | result | woke =>
      simp only [advance, hop]
      exact .none (by rw [hpc, hop]; rfl) hpc.symm rfl
  | sending signedXdr attempt =>
    cases hop : e.op with
    | result r =>
      cases r with
      | success hash =>
        simp only [advance, hop]
        exact .succeeded signedXdr attempt hash hpc hop rfl rfl
      | fails error =>
        simp only [advance, hop]
        exact .failed signedXdr attempt error hpc hop rfl
    | submit | woke =>
      simp only [advance, hop]
      exact .none (by rw [hpc, hop]; rfl) hpc.symm rfl
  | sleeping signedXdr attempt =>
    cases hop : e.op with
    | woke =>
      simp only [advance, hop]
      exact .woke signedXdr attempt hpc hop rfl rfl
    | submit | result =>
      simp only [advance, hop]
      exact .none (by rw [hpc, hop]; rfl) hpc.symm rfl
  | returned | rejected =>
    simp only [advance]
    exact .none (by rw [hpc]; rfl) hpc.symm rfl

/-- A failed attempt sleeps when it is to be tried again and the breaker lets it, and is over otherwise. -/
theorem failed_cases (options : RelayerOptions) (now : ℤ) (call : ℕ) (signedXdr : String) (attempt : ℕ)
    (lastError : Thrown) (g : Guard) :
    (∃ thrown, (failed options now call signedXdr attempt lastError g).1 = .rejected thrown) ∨
      (failed options now call signedXdr attempt lastError g).1 = .sleeping signedXdr (attempt + 1) ∧
        (attempt : ℤ) < options.retries := by
  unfold failed
  by_cases hretry : (attempt : ℤ) < options.retries
  · simp only [if_pos hretry]
    split_ifs
    · exact .inr ⟨rfl, hretry⟩
    · exact .inl ⟨_, rfl⟩
  · simp only [if_neg hretry]
    exact .inl ⟨_, rfl⟩

/-- A failed attempt leaves the breaker as its failure does, unless it has found the timeout over. -/
theorem failed_guard (options : RelayerOptions) (now : ℤ) (call : ℕ) (signedXdr : String) (attempt : ℕ)
    (lastError : Thrown) (g : Guard) :
    (failed options now call signedXdr attempt lastError g).2 = { g with breaker := recordFailure options now g.breaker } ∨
      (recordFailure options now g.breaker).state = .opened ∧
        (recordFailure options now g.breaker).nextAttemptTime ≤ now ∧
        (failed options now call signedXdr attempt lastError g).1 = .sleeping signedXdr (attempt + 1) ∧
        (failed options now call signedXdr attempt lastError g).2 =
          ⟨{ recordFailure options now g.breaker with state := .halfOpen }, some call⟩ := by
  unfold failed
  by_cases hretry : (attempt : ℤ) < options.retries
  · simp only [if_pos hretry]
    by_cases hopen : (recordFailure options now g.breaker).state = .opened
    · by_cases hlate : (recordFailure options now g.breaker).nextAttemptTime ≤ now
      · rw [ask_late hopen hlate]
        exact .inr ⟨hopen, hlate, rfl, rfl⟩
      · rw [ask_early hopen (not_le.mp hlate)]
        exact .inl rfl
    · refine .inl ?_
      have hask : ask now call { g with breaker := recordFailure options now g.breaker } =
          (true, { g with breaker := recordFailure options now g.breaker }) := by
        unfold ask canExecute
        simp [hopen]
      rw [hask]
      rfl
  · simp only [if_neg hretry]
    exact .inl trivial

/-- A breaker that is open stays open when a failure is recorded. -/
theorem recordFailure_opened {b : CircuitBreaker} (h : b.state = .opened) : (recordFailure options now b).state = .opened := by
  unfold recordFailure
  dsimp only
  split_ifs
  · rfl
  · exact h

end Steps

/-! ## What a call makes of its sends -/

section Calls

variable {options : RelayerOptions} {breaker : CircuitBreaker} {s : State} {e : Event} {notes new : List Note} {call : ℕ}
  {events : List Event} {pc : Pc}

/-- The sends, the answers and the reports of a call, by where it is. -/
structure Spent (retries : ℤ) (notes : List Note) (call sent answered : ℕ) (hash : Option String) : Prop where
  sent_eq : notes.count (.sent call) = sent
  answered_eq : notes.count (.answered call) = answered
  reported : ∀ h, .reported call h ∈ notes ↔ hash = some h
  bound : (sent : ℤ) ≤ max 0 (retries + 1) ∧ (answered : ℤ) ≤ 2 * max 0 (retries + 1) + 1

def Told (retries : ℤ) (notes : List Note) (call : ℕ) : Pc → Prop
  | .idle => Spent retries notes call 0 0 none
  | .sending _ attempt => (attempt : ℤ) ≤ retries ∧ Spent retries notes call (attempt + 1) (2 * attempt + 1) none
  | .sleeping _ attempt => (attempt : ℤ) ≤ retries ∧ Spent retries notes call attempt (2 * attempt) none
  | .returned hash => ∃ sent answered, Spent retries notes call sent answered (some hash)
  | .rejected _ => ∃ sent answered, Spent retries notes call sent answered none

/-- Notes of other calls do not matter. -/
theorem Told.other {retries : ℤ} (h : Told retries notes call pc) (hnew : ∀ n ∈ new, n.call ≠ call) :
    Told retries (notes ++ new) call pc := by
  have hcount : ∀ n : Note, n.call = call → (notes ++ new).count n = notes.count n := by
    intro n hn
    rw [List.count_append, List.count_eq_zero.mpr fun hmem => hnew n hmem hn, Nat.add_zero]
  have hspent : ∀ sent answered hash, Spent retries notes call sent answered hash →
      Spent retries (notes ++ new) call sent answered hash := by
    intro sent answered hash hs
    refine ⟨(hcount _ rfl).trans hs.sent_eq, (hcount _ rfl).trans hs.answered_eq, fun h => ?_, hs.bound⟩
    rw [List.mem_append, ← hs.reported h]
    exact or_iff_left fun hmem => hnew _ hmem rfl
  cases pc with
  | idle => exact hspent _ _ _ h
  | sending | sleeping => exact ⟨h.1, hspent _ _ _ h.2⟩
  | returned | rejected =>
    obtain ⟨sent, answered, hs⟩ := h
    exact ⟨sent, answered, hspent _ _ _ hs⟩

theorem call_notesOf : ∀ n ∈ notesOf options s e, n.call = e.call := by
  intro n hn
  unfold notesOf at hn
  rcases List.mem_append.mp hn with hn | hn
  · rcases List.mem_append.mp hn with hn | hn
    all_goals
      split_ifs at hn
      · rw [List.mem_singleton.mp hn]
        rfl
      · cases hn
  · split at hn
    · rw [List.mem_singleton.mp hn]
      rfl
    · cases hn

/-- One more answer, and perhaps one more send or a report. -/
theorem Spent.snoc {retries : ℤ} {sent answered : ℕ} (h : Spent retries notes call sent answered none) (starts : Bool)
    (hash : Option String) (hbound : ((if starts then sent + 1 else sent : ℕ) : ℤ) ≤ max 0 (retries + 1) ∧
      ((answered + 1 : ℕ) : ℤ) ≤ 2 * max 0 (retries + 1) + 1) :
    Spent retries (notes ++ ([.answered call] ++ (if starts then [.sent call] else []) ++
      (hash.map (Note.reported call)).toList)) call (if starts then sent + 1 else sent) (answered + 1) hash := by
  have hnone : ∀ h', .reported call h' ∉ notes := fun h' hmem => by cases (h.reported h').mp hmem
  obtain ⟨hsent, hanswered, _, _⟩ := h
  cases starts with
  | true => cases hash <;> exact ⟨by simp [hsent], by simp [hanswered], by simp [hnone, eq_comm], hbound⟩
  | false => cases hash <;> exact ⟨by simp [hsent], by simp [hanswered], by simp [hnone, eq_comm], hbound⟩

/-- **Step**: every call has told what it did. -/
theorem Told.next (h : Told options.retries notes e.call (s.pc e.call)) :
    Told options.retries (notes ++ notesOf options s e) e.call ((step options s e).pc e.call) := by
  cases moved options s e with
  | none hanswers hpc _ =>
    have hsends : ¬ Sends options s e := by
      rintro ⟨hbefore, hafter⟩
      rw [hpc, hbefore] at hafter
      cases hafter
    have hnotes : notesOf options s e = [] := by
      unfold notesOf
      rw [if_neg (by simp [hanswers]), if_neg hsends]
      split
      · next hsending hop => simp [Answers, hsending, hop] at hanswers
      · rfl
    rw [hnotes, List.append_nil, hpc]
    exact h
  | called signedXdr hidle hop _ hpc =>
    rw [hidle] at h
    rcases hpc with ⟨hpc, hretries, _⟩ | ⟨thrown, hpc, _⟩
    · have hspent := Spent.snoc h true none (by constructor <;> push_cast <;> omega)
      have hnotes : notesOf options s e = [.answered e.call] ++ [.sent e.call] ++ [] := by
        simp [notesOf, Sends, hidle, hop, hpc, Answers, Pc.isSending]
      rw [hnotes, hpc]
      exact ⟨hretries, hspent⟩
    · have hspent := Spent.snoc h false none (by constructor <;> push_cast <;> omega)
      have hnotes : notesOf options s e = [.answered e.call] ++ [] ++ [] := by
        simp [notesOf, Sends, hidle, hop, hpc, Answers, Pc.isSending]
      rw [hnotes, hpc]
      exact ⟨_, _, hspent⟩
  | succeeded signedXdr attempt hash hpc hop hpc' _ =>
    rw [hpc] at h
    have hspent := Spent.snoc h.2 false (some hash) (by have := h.1; constructor <;> push_cast <;> omega)
    have hnotes : notesOf options s e = [.answered e.call] ++ [] ++ [.reported e.call hash] := by
      simp [notesOf, Sends, hpc, hop, hpc', Answers, Pc.isSending]
    rw [hnotes, hpc']
    exact ⟨_, _, hspent⟩
  | failed signedXdr attempt error hpc hop hmoved =>
    rw [hpc] at h
    have hpc' := congrArg Prod.fst hmoved
    dsimp only at hpc'
    have hspent := Spent.snoc h.2 false none (by have := h.1; constructor <;> push_cast <;> omega)
    have hnotes : notesOf options s e = [.answered e.call] ++ [] ++ [] := by
      simp [notesOf, Sends, hpc, hop, Answers, Pc.isSending]
    rcases failed_cases options e.now e.call signedXdr attempt error.lastError s.guard with
      ⟨thrown, hrejected⟩ | ⟨hsleeping, hretry⟩
    · rw [hrejected] at hpc'
      rw [hnotes, hpc']
      exact ⟨_, _, hspent⟩
    · rw [hsleeping] at hpc'
      rw [hnotes, hpc']
      exact ⟨by push_cast; omega, hspent⟩
  | woke signedXdr attempt hpc hop hpc' _ =>
    rw [hpc] at h
    have hspent := Spent.snoc h.2 true none (by have := h.1; constructor <;> push_cast <;> omega)
    have hnotes : notesOf options s e = [.answered e.call] ++ [.sent e.call] ++ [] := by
      simp [notesOf, Sends, hpc, hop, hpc', Answers, Pc.isSending]
    rw [hnotes, hpc']
    exact ⟨h.1, hspent⟩

/-- **Run**: every call has told what it did, in every run. -/
theorem told (options : RelayerOptions) (breaker : CircuitBreaker) (events : List Event) (call : ℕ) :
    Told options.retries (history options breaker events) call ((after options breaker events).pc call) := by
  induction events using List.reverseRecOn with
  | nil => exact ⟨rfl, rfl, by simp [history, logOf], by constructor <;> push_cast <;> omega⟩
  | append_singleton events e ih =>
    have hhistory : history options breaker (events ++ [e]) =
        history options breaker events ++ notesOf options (after options breaker events) e := by
      rw [history, logOf_append]
      simp only [logOf, List.append_nil]
      rfl
    rw [hhistory, after_snoc]
    by_cases hcall : call = e.call
    · subst hcall
      exact ih.next
    · rw [step_other hcall]
      exact ih.other fun n hn heq => hcall (heq.symm.trans (call_notesOf n hn))

theorem Told.spent {retries : ℤ} (h : Told retries notes call pc) :
    ∃ sent answered, Spent retries notes call sent answered pc.hash := by
  cases pc with
  | idle => exact ⟨_, _, h⟩
  | sending | sleeping => exact ⟨_, _, h.2⟩
  | returned | rejected => exact h

end Calls

/-! ## What the breaker holds back -/

section Breaker

variable {options : RelayerOptions} {breaker : CircuitBreaker} {s : State} {e : Event} {id : ℕ} {until' : ℤ} {l events : List Event}

/-- An orderly wake meets a closed breaker or is the trial's, with no send outstanding. -/
theorem Orderly.woke (h : Orderly s e) {signedXdr : String} {attempt : ℕ} (hpc : s.pc e.call = .sleeping signedXdr attempt)
    (hop : e.op = .woke) : s.guard.breaker.state = .closed ∨
      s.guard.breaker.state = .halfOpen ∧ s.guard.trial = some e.call ∧ ∀ i, (s.pc i).isSending = false := by
  unfold Orderly at h
  rwa [hpc, hop] at h

theorem Orderly.called (h : Orderly s e) {signedXdr : String} (hpc : s.pc e.call = .idle) (hop : e.op = .submit signedXdr) :
    s.guard.breaker.state ≠ .halfOpen ∧
      (s.guard.breaker.state = .opened → s.guard.breaker.nextAttemptTime ≤ e.now → ∀ i, (s.pc i).isSending = false) := by
  unfold Orderly at h
  rwa [hpc, hop] at h

theorem Orderly.result (h : Orderly s e) {signedXdr : String} {attempt : ℕ} {r : SendResult}
    (hpc : s.pc e.call = .sending signedXdr attempt) (hop : e.op = .result r) : s.guard.breaker.state = .closed ∨
      s.guard.breaker.state = .opened ∧ (∃ error, r = .fails error) ∨
      s.guard.breaker.state = .halfOpen ∧ s.guard.trial = some e.call := by
  unfold Orderly at h
  rwa [hpc, hop] at h

/-- A step that leaves the process and the breaker alone sends nothing. -/
theorem not_sends_of_answers (h : Answers (s.pc e.call) e.op = false) : ¬ Sends options s e := by
  rintro ⟨hbefore, hafter⟩
  cases moved options s e with
  | none _ hpc _ =>
    rw [hpc, hbefore] at hafter
    cases hafter
  | called _ hidle hop | succeeded _ _ _ hidle hop | failed _ _ _ hidle hop | woke _ _ hidle hop =>
    rw [hidle, hop] at h
    cases h

/-- Open, with its timeout not over before `until'`. -/
def Holds (until' : ℤ) (s : State) : Prop := s.guard.breaker.state = .opened ∧ until' ≤ s.guard.breaker.nextAttemptTime

/-- A failure opens the breaker for a timeout, or leaves it as it was. -/
theorem nextAttemptTime_recordFailure (options : RelayerOptions) (now : ℤ) (b : CircuitBreaker) :
    (recordFailure options now b).nextAttemptTime = now + resetTimeout options ∨
      (recordFailure options now b).nextAttemptTime = b.nextAttemptTime ∧ (recordFailure options now b).state = b.state := by
  unfold recordFailure
  dsimp only
  split_ifs
  · exact .inl rfl
  · exact .inr ⟨rfl, rfl⟩

/-- A failed attempt whose failure leaves the breaker open for some time finds it so. -/
theorem holds_failed {now : ℤ} {call attempt : ℕ} {signedXdr : String} {lastError : Thrown} {g : Guard}
    (huntil : until' ≤ (recordFailure options now g.breaker).nextAttemptTime) (hnow : now < until') :
    (failed options now call signedXdr attempt lastError g).2 = { g with breaker := recordFailure options now g.breaker } := by
  rcases failed_guard options now call signedXdr attempt lastError g with h | ⟨_, hlate, _⟩
  · exact h
  · omega

/-- **Step**: while its timeout is not over, an orderly step leaves the breaker open and sends nothing. -/
theorem Holds.next (h : Holds until' s) (horderly : Orderly s e) (hnow : e.now < until')
    (hlong : until' ≤ e.now + resetTimeout options) : Holds until' (step options s e) ∧ ¬ Sends options s e := by
  obtain ⟨hopen, huntil⟩ := h
  have hrefused : ask e.now e.call s.guard = (false, s.guard) := ask_early hopen (by omega)
  cases moved options s e with
  | none hanswers hpc hg => exact ⟨by rw [Holds, hg]; exact ⟨hopen, huntil⟩, not_sends_of_answers hanswers⟩
  | called signedXdr hidle hop hg hpc =>
    rw [hrefused] at hg hpc
    refine ⟨by rw [Holds, hg]; exact ⟨hopen, huntil⟩, ?_⟩
    rintro ⟨_, hafter⟩
    rcases hpc with ⟨_, _, hasked⟩ | ⟨thrown, hpc, _⟩
    · cases hasked
    · rw [hpc] at hafter
      cases hafter
  | succeeded signedXdr attempt hash hpc hop hpc' hg =>
    rcases horderly.result hpc hop with hclosed | ⟨_, error, herror⟩ | ⟨hhalf, _⟩
    · rw [hopen] at hclosed
      cases hclosed
    · cases herror
    · rw [hopen] at hhalf
      cases hhalf
  | failed signedXdr attempt error hpc hop hmoved =>
    have hstill : (recordFailure options e.now s.guard.breaker).state = .opened := recordFailure_opened hopen
    have hlonger : until' ≤ (recordFailure options e.now s.guard.breaker).nextAttemptTime := by
      rcases nextAttemptTime_recordFailure options e.now s.guard.breaker with h | ⟨h, _⟩
      · rw [h]
        exact hlong
      · rw [h]
        exact huntil
    have hg := congrArg Prod.snd hmoved
    rw [holds_failed hlonger hnow] at hg
    refine ⟨?_, ?_⟩
    · show (step options s e).guard.breaker.state = _ ∧ _ ≤ (step options s e).guard.breaker.nextAttemptTime
      rw [show (step options s e).guard = _ from hg]
      exact ⟨hstill, hlonger⟩
    · rintro ⟨hbefore, _⟩
      rw [hpc] at hbefore
      cases hbefore
  | woke signedXdr attempt hpc hop hpc' hg =>
    rcases horderly.woke hpc hop with hclosed | ⟨hhalf, _⟩
    · rw [hopen] at hclosed
      cases hclosed
    · rw [hopen] at hhalf
      cases hhalf

/-- **Run**: so it is through an orderly run until the timeout is over. -/
theorem Holds.through (h : Holds until' s) (horderly : Along (step options) Orderly s l)
    (htimes : ∀ x ∈ l, x.now < until' ∧ until' ≤ x.now + resetTimeout options) :
    Holds until' (run (step options) s l) := by
  induction l generalizing s with
  | nil => exact h
  | cons x l ih =>
    obtain ⟨hx, hl⟩ := List.forall_mem_cons.mp htimes
    exact ih (h.next horderly.1 hx.1 hx.2).1 horderly.2 hl

/-- An opening whose timeout lasts leaves the breaker open for it. -/
theorem Opens.holds (h : Opens options s e) (hpositive : 0 < resetTimeout options) :
    Holds (e.now + resetTimeout options) (step options s e) := by
  obtain ⟨hsending, ⟨error, hop⟩, hclosed, hopened⟩ := h
  have huntil : (recordFailure options e.now s.guard.breaker).nextAttemptTime = e.now + resetTimeout options := by
    rcases nextAttemptTime_recordFailure options e.now s.guard.breaker with h | ⟨_, hstate⟩
    · exact h
    · exact absurd (hstate.symm.trans hopened) hclosed
  cases moved options s e with
  | none hanswers =>
    cases hpc : s.pc e.call with
    | sending =>
      rw [hpc, hop] at hanswers
      cases hanswers
    | idle | sleeping | returned | rejected =>
      rw [hpc] at hsending
      cases hsending
  | called _ _ hop' | woke _ _ _ hop' | succeeded _ _ _ _ hop' =>
    rw [hop] at hop'
    cases hop'
  | failed signedXdr attempt error' hpc hop' hmoved =>
    have hg := congrArg Prod.snd hmoved
    rw [holds_failed huntil.ge (by omega)] at hg
    show (step options s e).guard.breaker.state = _ ∧ _ ≤ (step options s e).guard.breaker.nextAttemptTime
    rw [show (step options s e).guard = _ from hg]
    exact ⟨hopened, huntil.ge⟩

/-! ## The trial -/

/-- Open, or half-open for a call that sleeps. -/
def Waiting (s : State) : Prop := s.guard.breaker.state = .opened ∨
  s.guard.breaker.state = .halfOpen ∧ ∃ t, s.guard.trial = some t ∧ ∃ signedXdr attempt, s.pc t = .sleeping signedXdr attempt

/-- Half-open for a call whose send is the one that is outstanding. -/
structure Trial (id : ℕ) (s : State) : Prop where
  halfOpen : s.guard.breaker.state = .halfOpen
  trial : s.guard.trial = some id
  sending : (s.pc id).isSending = true
  alone : ∀ i, i ≠ id → (s.pc i).isSending = false

/-- A failure that leaves the breaker open leaves the call over, or asleep as the trial. -/
theorem waiting_failed {signedXdr : String} {attempt : ℕ} {lastError : Thrown}
    (hopen : (recordFailure options e.now s.guard.breaker).state = .opened)
    (hmoved : ((step options s e).pc e.call, (step options s e).guard) =
      failed options e.now e.call signedXdr attempt lastError s.guard) : Waiting (step options s e) := by
  have hpc := congrArg Prod.fst hmoved
  have hg := congrArg Prod.snd hmoved
  dsimp only at hpc hg
  rcases failed_guard options e.now e.call signedXdr attempt lastError s.guard with
    h | ⟨_, _, hsleeping, h⟩
  · rw [h] at hg
    exact .inl (by rw [hg]; exact hopen)
  · rw [h] at hg
    rw [hsleeping] at hpc
    exact .inr ⟨by rw [hg], e.call, by rw [hg], signedXdr, attempt + 1, hpc⟩

theorem Opens.waiting (h : Opens options s e) : Waiting (step options s e) := by
  obtain ⟨hsending, ⟨error, hop⟩, _, hopened⟩ := h
  cases moved options s e with
  | none hanswers =>
    cases hpc : s.pc e.call with
    | sending =>
      rw [hpc, hop] at hanswers
      cases hanswers
    | idle | sleeping | returned | rejected =>
      rw [hpc] at hsending
      cases hsending
  | called _ _ hop' | woke _ _ _ hop' | succeeded _ _ _ _ hop' =>
    rw [hop] at hop'
    cases hop'
  | failed signedXdr attempt error' hpc hop' hmoved => exact waiting_failed hopened hmoved

/-- A step of another call that leaves the breaker alone. -/
theorem Waiting.keep (h : Waiting s) (hg : (step options s e).guard = s.guard)
    (hpc : ∀ signedXdr attempt, s.pc e.call = .sleeping signedXdr attempt → (step options s e).pc e.call = s.pc e.call) :
    Waiting (step options s e) := by
  rcases h with hopen | ⟨hhalf, t, htrial, signedXdr, attempt, hsleeping⟩
  · exact .inl (by rw [hg]; exact hopen)
  · refine .inr ⟨by rw [hg]; exact hhalf, t, by rw [hg]; exact htrial, signedXdr, attempt, ?_⟩
    by_cases ht : t = e.call
    · subst ht
      rw [hpc _ _ hsleeping, hsleeping]
    · rw [step_other ht, hsleeping]

/-- **Step**: an orderly step that sends nothing leaves the breaker waiting for its trial. -/
theorem Waiting.next (h : Waiting s) (horderly : Orderly s e) (hretries : 0 ≤ options.retries) (hquiet : ¬ Sends options s e) :
    Waiting (step options s e) := by
  cases moved options s e with
  | none _ hpc hg => exact h.keep hg fun _ _ _ => hpc
  | called signedXdr hidle hop hg hpc =>
    have hopen : s.guard.breaker.state = .opened := h.resolve_right fun hhalf => (horderly.called hidle hop).1 hhalf.1
    rcases hpc with ⟨hpc, _, _⟩ | ⟨thrown, hpc, hrefused⟩
    · exact absurd ⟨by rw [hidle]; rfl, by rw [hpc]; rfl⟩ hquiet
    · have hearly : e.now < s.guard.breaker.nextAttemptTime := by
        by_contra hlate
        have hasked := hrefused hretries
        rw [ask_late hopen (not_lt.mp hlate)] at hasked
        cases hasked
      rw [ask_early hopen hearly] at hg
      refine h.keep hg fun _ _ hsleeping => ?_
      rw [hidle] at hsleeping
      cases hsleeping
  | succeeded signedXdr attempt hash hpc hop hpc' hg =>
    rcases horderly.result hpc hop with hclosed | ⟨_, error, herror⟩ | ⟨hhalf, htrial⟩
    · rcases h with hopen | ⟨hhalf, _⟩
      · rw [hopen] at hclosed
        cases hclosed
      · rw [hhalf] at hclosed
        cases hclosed
    · cases herror
    · rcases h with hopen | ⟨_, t, ht, _, _, hsleeping⟩
      · rw [hopen] at hhalf
        cases hhalf
      · obtain rfl : t = e.call := Option.some.inj (ht.symm.trans htrial)
        rw [hpc] at hsleeping
        cases hsleeping
  | failed signedXdr attempt error hpc hop hmoved =>
    rcases h with hopen | ⟨hhalf, t, ht, _, _, hsleeping⟩
    · exact waiting_failed (recordFailure_opened hopen) hmoved
    · rcases horderly.result hpc hop with hclosed | ⟨hopen, _⟩ | ⟨_, htrial⟩
      · rw [hhalf] at hclosed
        cases hclosed
      · rw [hhalf] at hopen
        cases hopen
      · obtain rfl : t = e.call := Option.some.inj (ht.symm.trans htrial)
        rw [hpc] at hsleeping
        cases hsleeping
  | woke signedXdr attempt hpc hop hpc' hg => exact absurd ⟨by rw [hpc]; rfl, by rw [hpc']; rfl⟩ hquiet

theorem Waiting.through (h : Waiting s) (horderly : Along (step options) Orderly s l) (hretries : 0 ≤ options.retries)
    (hquiet : ∀ m x m', l = m ++ x :: m' → ¬ Sends options (run (step options) s m) x) : Waiting (run (step options) s l) := by
  induction l generalizing s with
  | nil => exact h
  | cons x l ih =>
    refine ih (h.next horderly.1 hretries (hquiet [] x l rfl)) horderly.2 fun m y m' hl => ?_
    exact hquiet (x :: m) y m' (by rw [hl]; rfl)

/-- **Step**: the first send is the trial, and it is alone. -/
theorem Waiting.sends (h : Waiting s) (horderly : Orderly s e) (hsends : Sends options s e) :
    Trial e.call (step options s e) := by
  have halone : (∀ i, (s.pc i).isSending = false) → ∀ i, i ≠ e.call → ((step options s e).pc i).isSending = false := by
    intro hnone i hi
    rw [step_other hi]
    exact hnone i
  cases moved options s e with
  | none hanswers => exact absurd hsends (not_sends_of_answers hanswers)
  | called signedXdr hidle hop hg hpc =>
    obtain ⟨hnothalf, hnone⟩ := horderly.called hidle hop
    have hopen : s.guard.breaker.state = .opened := h.resolve_right fun hhalf => hnothalf hhalf.1
    rcases hpc with ⟨hpc, _, hasked⟩ | ⟨thrown, hpc, _⟩
    · have hlate : s.guard.breaker.nextAttemptTime ≤ e.now := by
        by_contra hearly
        rw [ask_early hopen (not_le.mp hearly)] at hasked
        cases hasked
      rw [ask_late hopen hlate] at hg
      exact ⟨by rw [hg], by rw [hg], hsends.2, halone (hnone hopen hlate)⟩
    · have hafter := hsends.2
      rw [hpc] at hafter
      cases hafter
  | succeeded _ _ _ hpc | failed _ _ _ hpc =>
    have hbefore := hsends.1
    rw [hpc] at hbefore
    cases hbefore
  | woke signedXdr attempt hpc hop hpc' hg =>
    rcases horderly.woke hpc hop with hclosed | ⟨hhalf, htrial, hnone⟩
    · rcases h with hopen | ⟨hhalf, _⟩
      · rw [hopen] at hclosed
        cases hclosed
      · rw [hhalf] at hclosed
        cases hclosed
    · exact ⟨by rw [hg]; exact hhalf, by rw [hg]; exact htrial, hsends.2, halone hnone⟩

/-- **Step**: until its result the trial stays alone. -/
theorem Trial.next (h : Trial id s) (horderly : Orderly s e) (hresult : ¬ e.IsResultOf id) : Trial id (step options s e) := by
  have hnotclosed : s.guard.breaker.state ≠ .closed := by
    rw [h.halfOpen]
    decide
  have hnotopened : s.guard.breaker.state ≠ .opened := by
    rw [h.halfOpen]
    decide
  cases moved options s e with
  | none _ hpc hg =>
    have hsame : ∀ i, (step options s e).pc i = s.pc i := by
      intro i
      by_cases hi : i = e.call
      · rw [hi, hpc]
      · exact step_other hi
    exact ⟨by rw [hg]; exact h.halfOpen, by rw [hg]; exact h.trial, by rw [hsame]; exact h.sending,
      fun i hi => by rw [hsame]; exact h.alone i hi⟩
  | called signedXdr hidle hop => exact absurd h.halfOpen (horderly.called hidle hop).1
  | succeeded _ _ _ hpc hop | failed _ _ _ hpc hop =>
    rcases horderly.result hpc hop with hclosed | ⟨hopen, _⟩ | ⟨_, htrial⟩
    · exact absurd hclosed hnotclosed
    · exact absurd hopen hnotopened
    · exact absurd ⟨Option.some.inj (htrial.symm.trans h.trial), _, hop⟩ hresult
  | woke signedXdr attempt hpc hop =>
    rcases horderly.woke hpc hop with hclosed | ⟨_, _, hnone⟩
    · exact absurd hclosed hnotclosed
    · have hquiet := hnone id
      rw [h.sending] at hquiet
      cases hquiet

theorem Trial.through (h : Trial id s) (horderly : Along (step options) Orderly s l) (hresult : ∀ x ∈ l, ¬ x.IsResultOf id) :
    Trial id (run (step options) s l) := by
  induction l generalizing s with
  | nil => exact h
  | cons x l ih =>
    obtain ⟨hx, hl⟩ := List.forall_mem_cons.mp hresult
    exact ih (h.next horderly.1 hx) horderly.2 hl

end Breaker

/-! ## The law -/

section Law

variable {options : RelayerOptions} {breaker : CircuitBreaker} {events : List Event}

/-- **What the retries owe the breaker** they keep in every orderly run, under a clock that does not run backwards. -/
theorem relayer_law (options : RelayerOptions) (breaker : CircuitBreaker) (hclock : events.Pairwise (·.now ≤ ·.now))
    (horderly : Along (step options) Orderly (start breaker) events) : RelayerLaw options breaker events := by
  have hrest : ∀ pre e rest, events = pre ++ e :: rest →
      Along (step options) Orderly (step options (after options breaker pre) e) rest := by
    rintro pre e rest rfl
    rw [along_append] at horderly
    exact horderly.2.2
  have hsplit : ∀ pre e rest, after options breaker (pre ++ e :: rest) =
      run (step options) (step options (after options breaker pre) e) rest := by
    intro pre e rest
    rw [after_append, run_cons]
  refine ⟨?_, ?_, fun call => ?_, fun call => ?_, fun call hash => ?_⟩
  · intro pre a mid b post heq hopens hearly
    have horder := along_append.mp (hrest pre a _ heq)
    have htimes : ∀ x ∈ mid ++ b :: post, a.now ≤ x.now := by
      rw [heq, List.pairwise_append] at hclock
      exact (List.pairwise_cons.mp hclock.2.1).1
    have hbefore : ∀ x ∈ mid, x.now ≤ b.now := by
      rw [heq, List.pairwise_append] at hclock
      have htail := (List.pairwise_append.mp (List.pairwise_cons.mp hclock.2.1).2).2.2
      exact fun x hx => htail x hx b List.mem_cons_self
    have hb := htimes b (by simp)
    have hholds := (hopens.holds (by omega)).through horder.1 fun x hx => by
      have hlow := htimes x (List.mem_append_left _ hx)
      have hhigh := hbefore x hx
      omega
    rw [hsplit]
    exact (hholds.next horder.2.1 hearly (by omega)).2
  · intro pre a mid b mid' post heq hopens hquiet hsends hresult i hi
    have hretries : 0 ≤ options.retries := by
      have htold := told options breaker pre a.call
      cases hpc : (after options breaker pre).pc a.call with
      | sending =>
        rw [hpc] at htold
        exact le_trans (Int.natCast_nonneg _) htold.1
      | idle | sleeping | returned | rejected =>
        have hsending := hopens.1
        rw [hpc] at hsending
        cases hsending
    have horder := along_append.mp (hrest pre a _ heq)
    have hwaiting := hopens.waiting.through horder.1 hretries fun m x m' hm => by
      rw [← hsplit]
      exact hquiet m x m' hm
    have htrial : Trial b.call (after options breaker (pre ++ a :: (mid ++ [b]))) := by
      rw [hsplit, run_snoc]
      exact hwaiting.sends horder.2.1 (hsplit pre a mid ▸ hsends)
    have hafter := (along_append.mp horder.2.2).1
    have hend : after options breaker (pre ++ a :: (mid ++ b :: mid')) =
        run (step options) (after options breaker (pre ++ a :: (mid ++ [b]))) mid' := by
      rw [hsplit, hsplit, ← run_append]
      simp
    rw [hend]
    refine (htrial.through ?_ hresult).alone i hi
    rw [hsplit, run_snoc]
    exact hafter
  · obtain ⟨sent, answered, hspent⟩ := (told options breaker events call).spent
    rw [hspent.sent_eq]
    exact hspent.bound.1
  · obtain ⟨sent, answered, hspent⟩ := (told options breaker events call).spent
    rw [hspent.answered_eq]
    exact hspent.bound.2
  · obtain ⟨sent, answered, hspent⟩ := (told options breaker events call).spent
    rw [hspent.reported]
    cases (after options breaker events).pc call <;> simp [Pc.hash]

end Law

/-! Calls over a breaker that opens at the second failure in a row, for half a minute. -/

def secondFailure : RelayerOptions := ⟨some 3, some 2, some 30000⟩

/-- Both sends fail, the next call comes too early, the last one is the trial. -/
def oneTrial : List Event :=
  [⟨0, 0, .submit "A"⟩, ⟨1, 0, .result (.fails (.threw true))⟩, ⟨100, 0, .woke⟩, ⟨101, 0, .result (.fails (.threw true))⟩,
    ⟨200, 1, .submit "B"⟩, ⟨30101, 2, .submit "C"⟩, ⟨30200, 2, .result (.success "h")⟩]

theorem relayer_law_oneTrial : RelayerLaw secondFailure .init oneTrial := by
  refine relayer_law secondFailure .init (by decide) ⟨⟨by decide, fun h => absurd h (by decide)⟩, .inl rfl, .inl rfl, .inl rfl,
    ⟨by decide, fun _ h => absurd h (by decide)⟩, ⟨by decide, fun _ _ i => ?_⟩, .inr (.inr ⟨rfl, rfl⟩), trivial⟩
  match i with
  | 0 | 1 | _ + 2 => rfl

/-- The first call sleeps while the second opens the breaker. -/
def wokenEarly : List Event :=
  [⟨0, 0, .submit "A"⟩, ⟨0, 1, .submit "B"⟩, ⟨1, 0, .result (.fails (.threw true))⟩, ⟨2, 1, .result (.fails (.threw true))⟩,
    ⟨100, 0, .woke⟩]

/-- It wakes and sends long before the timeout is over. -/
theorem sent_while_open : ¬ RelayerLaw secondFailure .init wokenEarly := by
  intro hlaw
  have hquiet := hlaw.cooldown (wokenEarly.take 3) ⟨2, 1, .result (.fails (.threw true))⟩ [] ⟨100, 0, .woke⟩ [] rfl
    ⟨rfl, ⟨_, rfl⟩, by decide, by decide⟩ (by decide)
  exact hquiet ⟨rfl, rfl⟩

end Vellar.Wallet.RelayerRuns
