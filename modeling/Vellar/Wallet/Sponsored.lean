import Vellar.Wallet.ReplayFree
import Vellar.Wallet.Submitters

/-!
# Vellar.Wallet.Sponsored — what the sponsor signs

`POST /wallet/submit` with the hybrid submitter as `index.ts` wires it: the requests of `Vellar.Wallet.SubmitRoute` and the calls of
`Vellar.Wallet.Submitters`, a request at its submission waiting for its call.  What is signed is scoped, capped and metered in every
run.  But the transaction is built with the cap as its bid and `prepareTransaction` adds the resource fee, so `sponsored_iff` says an
affordable operation is refused exactly when its resource fee is not zero.
-/

set_option autoImplicit false

namespace Vellar.Wallet.Sponsored

open Machine ServiceKit Submitters

/-! ## The service -/

section Service

variable {γ F I : Type}

/-- The submitter of `index.ts`: one passphrase, the budget on, no balance floor. -/
def hybridSubmitter (fromXDR : String → String → Option (SignedTransaction F I)) (networkPassphrase : String)
    (maxFeeStroops : Option ℕ) (budgetNetwork : BudgetNetwork) (fallback : Fallback) : Hybrid F I where
  fromXDR := fromXDR
  networkPassphrase := networkPassphrase
  sponsor := ⟨networkPassphrase, maxFeeStroops, true, some budgetNetwork, none, fun _ _ => true, false⟩
  fallback := fallback

/-- The route's dependencies beside it. -/
def submitDeps (h : Hybrid F I) : SubmitDeps where
  networkPassphrase := some h.networkPassphrase
  fromXDR signedXdr networkPassphrase := (h.fromXDR signedXdr networkPassphrase).map SignedTransaction.scope

structure Service (γ F I : Type) where
  route : Processes.Config (World γ) Phase
  calls : State F I

/-- What a request awaits, or the call it waits for. -/
inductive Answer where
  | route (x : Wallet.Reply) (now : ℤ)
  | call (x : Input)

/-- `existsByContractId` answers by the wallet table. -/
def answered (wallets : String → String → Bool) (p : Phase) (x : Wallet.Reply) : Wallet.Reply :=
  match p, x with
  | .scoping s subject _, .known _ => .known (wallets subject s.network)
  | _, x => x

/-- How the call ends, if it does. -/
def ending (events : List (Submitters.Event F I)) : Option Wallet.Reply :=
  events.findSome? fun e =>
    match e with
    | .resolved _ hash => some (.submitted hash)
    | .rejected _ (.submission code message) => some (.threw (some (code, message)))
    | .rejected _ _ => some (.threw none)
    | _ => none

variable (guard : ReplayGuard γ) (h : Hybrid F I) (wallets : String → String → Bool)

/-- A step of the request's call; the request goes on when it ends. -/
def Service.callStep (w : Service γ F I) (i : ℕ) (x : Input) : Service γ F I :=
  let calls := Submitters.step h w.calls (i, x)
  match ending (advance h w.calls.breaker i (w.calls.pc i) x).1.2 with
  | some reply => ⟨Processes.step (handle guard (submitDeps h)) w.route (i, reply), calls⟩
  | none => ⟨w.route, calls⟩

def serve (w : Service γ F I) (a : ℕ × Answer) : Service γ F I :=
  match w.route.procs a.1, a.2 with
  | .submitting _, .call x => w.callStep guard h a.1 x
  | .submitting _, .route _ _ => w
  | _, .call _ => w
  | p, .route x now =>
    let w : Service γ F I := ⟨Processes.step (handle guard (submitDeps h)) w.route (a.1, answered wallets p x), w.calls⟩
    match w.route.procs a.1 with
    | .submitting s => w.callStep guard h a.1 ⟨.submit s.signedXdr, now, false⟩
    | _ => w

end Service

/-! ## What is promised -/

section Promise

variable {γ F I : Type}

/-- What `tryConsume` was asked for the call, and what it answered. -/
def consumedBy (log : List (Submitters.Event F I)) (c : ℕ) : List (ConsumeRequest × SpendBudget.Answer) :=
  log.filterMap fun e =>
    match e with
    | .consumed c' req answer => if c' = c then some (req, answer) else none
    | _ => none

variable (h : Hybrid F I) (wallets : String → String → Bool) (bodies : ℕ → Json)

/-- The submitted transaction is one host function, bound to known wallets. -/
structure ScopedTo (i : ℕ) (func : F) (auth : List (AuthEntry I)) : Prop where
  submitted : ∃ s, submitBody ⟨i, bodies i⟩ = some s ∧
    h.fromXDR s.signedXdr h.networkPassphrase = some (.transaction [.invokeHostFunction func (some auth)]) ∧
    ∀ entry ∈ auth, ∀ c, addressCredentials entry.credentials = some c → wallets c.address.strkey s.network = true
  bound : ∀ entry ∈ auth, entry.credentials ≠ .sourceAccount
  some : ∃ entry ∈ auth, (addressCredentials entry.credentials).isSome = true

/-- What the sponsor signs is the scoped operation, within the cap, and paid for by one acceptance of its own; it signs once. -/
def Paid (network : BudgetNetwork) (pre : List (Submitters.Event F I)) : Submitters.Event F I → Prop
  | .signed i tx =>
    (∃ func auth, ScopedTo h wallets bodies i func auth ∧ tx.operations = [.invokeHostFunction func (some auth)]) ∧
      tx.fee ≤ h.sponsor.maxFee ∧ consumedBy pre i = [(⟨.sponsor, network, tx.fee, none⟩, .ok)] ∧ ∀ tx', .signed i tx' ∉ pre
  | _ => True

/-- No operation within the cap is refused for its fee. -/
def Affordable (baseFee : ℕ) (log : List (Submitters.Event F I)) : Prop := ∀ i minResourceFee, .simulated i minResourceFee ∈ log →
  minResourceFee + baseFee ≤ h.sponsor.maxFee → ∀ message, .rejected i (.submission "sponsor_fee_too_high" message) ∉ log

/-- Scoped, capped and metered, and nothing affordable refused. -/
structure SponsorHeld (network : BudgetNetwork) (baseFee : ℕ) (log : List (Submitters.Event F I)) : Prop where
  paid : Each (Paid h wallets bodies network) log
  affordable : Affordable h baseFee log

/-- No simulation answers with a resource fee that is affordable, unless with 0. -/
def Fits (baseFee : ℕ) (w : Service γ F I) (a : ℕ × Answer) : Prop :=
  ∀ s, w.route.procs a.1 = .submitting s → ∀ rebuilt, w.calls.pc a.1 = .preparing rebuilt →
    ∀ x minResourceFee, a.2 = .call x → x.reply = .prepared minResourceFee →
      minResourceFee = 0 ∨ h.sponsor.maxFee < minResourceFee + baseFee

end Promise

/-! ## Every call -/

section Calls

variable {F I : Type} {h : Hybrid F I} {network : BudgetNetwork} {breaker : CircuitBreaker} {log events : List (Submitters.Event F I)}
  {c baseFee : ℕ} {pc pc' : Pc F I} {x : Input} {func : F} {auth : List (AuthEntry I)}

/-- The call is for one host function, bound to addresses. -/
structure Routed (h : Hybrid F I) (log : List (Submitters.Event F I)) (c : ℕ) (func : F) (auth : List (AuthEntry I)) : Prop where
  called : ∃ signedXdr, .called c signedXdr ∈ log ∧
    h.fromXDR signedXdr h.networkPassphrase = some (.transaction [.invokeHostFunction func (some auth)])
  ne_nil : auth ≠ []
  bound : ∀ entry ∈ auth, entry.boundToAddress = true

/-- The events of the call are `P`. -/
def Only (P : Submitters.Event F I → Prop) (log : List (Submitters.Event F I)) (c : ℕ) : Prop := ∀ e ∈ log, e.call = c → P e

def IsCalled : Submitters.Event F I → Prop
  | .called _ _ => True
  | _ => False

def IsSimulated : Submitters.Event F I → Prop
  | .simulated _ _ => True
  | _ => False

/-- A refusal by the fee cap. -/
def IsOverFee : Submitters.Event F I → Prop
  | .rejected _ (.submission code _) => code = "sponsor_fee_too_high"
  | _ => False

/-- What holds of a call. -/
def Holds (h : Hybrid F I) (network : BudgetNetwork) (log : List (Submitters.Event F I)) (c : ℕ) : Pc F I → Prop
  | .idle => Only (fun _ => False) log c
  | .gettingAccount func auth | .gettingBalance func auth =>
    Only IsCalled log c ∧ ∃ entries, auth = some entries ∧ Routed h log c func entries
  | .preparing rebuilt =>
    Only IsCalled log c ∧ ∃ func entries, rebuilt = rebuild h func (some entries) ∧ Routed h log c func entries
  | .consuming prepared line =>
    Only (fun e => IsCalled e ∨ IsSimulated e) log c ∧ line = network ∧ prepared.fee ≤ h.sponsor.maxFee ∧
      ∃ func entries, prepared.operations = [.invokeHostFunction func (some entries)] ∧ Routed h log c func entries
  | .sending _ | .polling _ _ | .sleeping _ _ => Only (fun e => ¬ IsOverFee e) log c
  | .relaying _ _ | .backingOff _ _ | .diagnosing _ _ => Only (fun e => ¬ IsSimulated e) log c
  | .ended => True

/-- What the sponsor signs for a call is its operation, within the cap, and paid for by one acceptance of its own. -/
def Metered (h : Hybrid F I) (network : BudgetNetwork) (pre : List (Submitters.Event F I)) : Submitters.Event F I → Prop
  | .signed c tx =>
    (∃ func auth, Routed h pre c func auth ∧ tx.operations = [.invokeHostFunction func (some auth)]) ∧
      tx.fee ≤ h.sponsor.maxFee ∧ consumedBy pre c = [(⟨.sponsor, network, tx.fee, none⟩, .ok)] ∧ ∀ tx', .signed c tx' ∉ pre
  | _ => True

variable {P Q : Submitters.Event F I → Prop}

theorem Only.mono (hlog : Only P log c) (hPQ : ∀ e, P e → Q e) : Only Q log c := fun e he hc => hPQ e (hlog e he hc)

theorem Only.append (hlog : Only P log c) (hevents : Only P events c) : Only P (log ++ events) c := fun e he =>
  (List.mem_append.mp he).elim (hlog e) (hevents e)

theorem Only.others (hlog : Only P log c) (hevents : ∀ e ∈ events, e.call ≠ c) : Only P (log ++ events) c :=
  hlog.append fun e he hc => absurd hc (hevents e he)

theorem Routed.append (hrouted : Routed h log c func auth) : Routed h (log ++ events) c func auth := by
  obtain ⟨⟨signedXdr, hcalled, hparsed⟩, hne, hbound⟩ := hrouted
  exact ⟨⟨signedXdr, List.mem_append_left _ hcalled, hparsed⟩, hne, hbound⟩

theorem Holds.others (hholds : Holds h network log c pc) (hevents : ∀ e ∈ events, e.call ≠ c) :
    Holds h network (log ++ events) c pc := by
  cases pc with
  | idle => exact Only.others hholds hevents
  | gettingAccount | gettingBalance =>
    obtain ⟨honly, entries, hauth, hrouted⟩ := hholds
    exact ⟨honly.others hevents, entries, hauth, hrouted.append⟩
  | preparing =>
    obtain ⟨honly, func, entries, hrebuilt, hrouted⟩ := hholds
    exact ⟨honly.others hevents, func, entries, hrebuilt, hrouted.append⟩
  | consuming =>
    obtain ⟨honly, hline, hfee, func, entries, hoperations, hrouted⟩ := hholds
    exact ⟨honly.others hevents, hline, hfee, func, entries, hoperations, hrouted.append⟩
  | sending | polling | sleeping | relaying | backingOff | diagnosing => exact Only.others hholds hevents
  | ended => trivial

theorem consumedBy_append : consumedBy (log ++ events) c = consumedBy log c ++ consumedBy events c := List.filterMap_append ..

theorem consumedBy_eq_nil (honly : Only (fun e => IsCalled e ∨ IsSimulated e) log c) : consumedBy log c = [] := by
  unfold consumedBy
  rw [List.filterMap_eq_nil_iff]
  intro e he
  cases e with
  | consumed c' req answer =>
    refine if_neg fun hc => ?_
    exact (honly _ he hc).elim id id
  | _ => rfl

/-- What `index.ts` sees to. -/
structure Wired (h : Hybrid F I) (network : BudgetNetwork) : Prop where
  networkPassphrase : h.sponsor.networkPassphrase = h.networkPassphrase
  budget : h.sponsor.budget = true
  budgetNetwork : h.sponsor.budgetNetwork = some network

theorem only_sponsored (hpc : pc.Sponsored) : Holds h network log c pc ↔ Only (fun e => ¬ IsOverFee e) log c := by
  cases pc with
  | sending | polling | sleeping => exact Iff.rfl
  | _ => cases hpc

theorem not_overFee {e : Submitters.Event F I} (he : IsCalled e ∨ IsSimulated e) : ¬ IsOverFee e := by
  cases e with
  | called | simulated => exact id
  | _ => exact (he.elim id id).elim

/-- **An await** keeps what holds of its call. -/
theorem move_holds (hwired : Wired h network) (hmove : Submitters.Move h breaker c pc x pc' events) (hholds : Holds h network log c pc) :
    Holds h network (log ++ events) c pc' := by
  cases hmove with
  | stay pc x => rwa [List.append_nil]
  | bounce | empty | low | refuse | tooHigh | exceed | fail | resolve | giveUp | diagnosed => trivial
  | bounceDiagnosed x signedXdr code message =>
    refine Only.append (Only.mono hholds fun _ => False.elim) fun e he _ => ?_
    rw [List.mem_singleton.mp he]
    exact id
  | begin x signedXdr func auth rest hx hroute hinner =>
    obtain ⟨func', entries, hparsed, hne, hbound⟩ := needsSponsorRebuild_iff.mp hroute
    rw [hwired.networkPassphrase, hparsed] at hinner
    injection Option.some.inj hinner with hoperations
    obtain ⟨hoperation, -⟩ := List.cons_eq_cons.mp hoperations
    injection hoperation with hfunc hauth
    subst hfunc
    refine ⟨Only.append (Only.mono hholds fun _ => False.elim) fun e he _ => ?_, entries, hauth.symm,
      ⟨signedXdr, List.mem_append_right _ (List.mem_singleton_self _), hparsed⟩, hne, hbound⟩
    rw [List.mem_singleton.mp he]
    trivial
  | relay x signedXdr =>
    refine Only.append (Only.mono hholds fun _ => False.elim) fun e he _ => ?_
    rcases List.mem_cons.mp he with rfl | he
    · exact id
    · rw [List.mem_singleton.mp he]
      exact id
  | balance x func auth => rwa [List.append_nil]
  | rebuild pc x func auth hpc =>
    rw [List.append_nil]
    rcases hpc with rfl | rfl
    all_goals
      obtain ⟨honly, entries, rfl, hrouted⟩ := hholds
      exact ⟨honly, func, entries, rfl, hrouted⟩
  | meter rebuilt x minResourceFee line hfee hline =>
    obtain ⟨honly, func, entries, rfl, hrouted⟩ := hholds
    refine ⟨(honly.mono fun _ he => Or.inl he).append fun e he _ => ?_, Option.some.inj (hline.symm.trans hwired.budgetNetwork), hfee,
      func, entries, rfl, hrouted.append⟩
    rw [List.mem_singleton.mp he]
    exact .inr trivial
  | unmetered rebuilt x minResourceFee hfee hoff =>
    rw [hwired.budget, hwired.budgetNetwork] at hoff
    rcases hoff with hoff | hoff <;> cases hoff
  | consume prepared line x =>
    refine (hholds.1.mono fun _ => not_overFee).append fun e he _ => ?_
    simp only [List.mem_cons, List.not_mem_nil, or_false] at he
    rcases he with rfl | rfl | rfl <;> exact id
  | poll pc x pc' hpc hpc' =>
    rw [List.append_nil, only_sponsored hpc']
    exact (only_sponsored hpc).mp hholds
  | backOff x signedXdr attempt => rwa [List.append_nil]
  | again x signedXdr attempt =>
    refine Only.append hholds fun e he _ => ?_
    rw [List.mem_singleton.mp he]
    exact id
  | diagnose x signedXdr attempt code message => rwa [List.append_nil]

/-- **An await** signs what it has metered. -/
theorem move_metered (hwired : Wired h network) (hmove : Submitters.Move h breaker c pc x pc' events) (hholds : Holds h network log c pc)
    (hlog : Each (Metered h network) log) : Each (Metered h network) (log ++ events) := by
  have hunsigned : (∀ e ∈ events, ∀ i tx, e ≠ .signed i tx) → Each (Metered h network) (log ++ events) := fun hevents =>
    each_append hlog fun pre e he => by
      cases e with
      | signed i tx => exact absurd rfl (hevents _ he i tx)
      | _ => trivial
  cases hmove with
  | consume prepared line x =>
    obtain ⟨honly, rfl, hfee, func, entries, hoperations, hrouted⟩ := hholds
    have hsplit : log ++ [.consumed c ⟨.sponsor, line, prepared.fee, none⟩ .ok, .signed c prepared, .sent c prepared] =
        log ++ [.consumed c ⟨.sponsor, line, prepared.fee, none⟩ .ok] ++ [.signed c prepared] ++ [.sent c prepared] := by simp
    rw [hsplit]
    refine each_snoc.mpr ⟨each_snoc.mpr ⟨each_snoc.mpr ⟨hlog, trivial⟩, ?_⟩, trivial⟩
    refine ⟨⟨func, entries, hrouted.append, hoperations⟩, hfee, ?_, fun tx' he => ?_⟩
    · rw [consumedBy_append, consumedBy_eq_nil honly]
      simp [consumedBy]
    · rcases List.mem_append.mp he with he | he
      · exact (honly _ he rfl).elim id id
      · cases List.mem_singleton.mp he
  | unmetered rebuilt x minResourceFee hfee hoff =>
    rw [hwired.budget, hwired.budgetNetwork] at hoff
    rcases hoff with hoff | hoff <;> cases hoff
  | _ => exact hunsigned (by simp)

/-- What is affordable of a call is not refused for its fee. -/
def AffordableTo (h : Hybrid F I) (baseFee : ℕ) (log : List (Submitters.Event F I)) (c : ℕ) : Prop :=
  ∀ minResourceFee, .simulated c minResourceFee ∈ log → minResourceFee + baseFee ≤ h.sponsor.maxFee →
    ∀ message, .rejected c (.submission "sponsor_fee_too_high" message) ∉ log

theorem affordable_unsimulated (honly : Only (fun e => ¬ IsSimulated e) log c) : AffordableTo h baseFee log c :=
  fun _ he => absurd trivial (honly _ he rfl)

theorem affordable_unrefused (honly : Only (fun e => ¬ IsOverFee e) log c) : AffordableTo h baseFee log c :=
  fun _ _ _ _ he => honly _ he rfl rfl

theorem only_of_forall (hall : ∀ e ∈ events, P e) : Only P events c := fun e he _ => hall e he

theorem not_overFee_of_code {e : Thrown} (he : ∀ code message, e = .submission code message → code ≠ "sponsor_fee_too_high") :
    ¬ IsOverFee (.rejected c e : Submitters.Event F I) := by
  cases e with
  | submission code message => exact he code message rfl
  | error | value => exact id

theorem holds_unsent (hpc : pc.Unsent) (hholds : Holds h network log c pc) : Only (fun e => IsCalled e ∨ IsSimulated e) log c := by
  cases pc with
  | gettingAccount | gettingBalance | preparing => exact hholds.1.mono fun _ he => .inl he
  | consuming => exact hholds.1
  | _ => cases hpc

theorem unsimulated_of_called {e : Submitters.Event F I} (he : IsCalled e) : ¬ IsSimulated e := by
  cases e with
  | called => exact id
  | _ => exact he.elim

/-- **An await** refuses nothing affordable for its fee, where its simulation answers nothing affordable but 0. -/
theorem move_affordable (hmove : Submitters.Move h breaker c pc x pc' events) (hholds : Holds h network log c pc)
    (hlog : AffordableTo h baseFee log c)
    (hfits : ∀ rebuilt, pc = .preparing rebuilt → ∀ minResourceFee, x.reply = .prepared minResourceFee →
      minResourceFee = 0 ∨ h.sponsor.maxFee < minResourceFee + baseFee) : AffordableTo h baseFee (log ++ events) c := by
  have hsilent : Only (fun _ => False) log c → (∀ e ∈ events, ¬ IsSimulated e) → AffordableTo h baseFee (log ++ events) c :=
    fun hnone hevents => affordable_unsimulated ((hnone.mono fun _ => False.elim).append (only_of_forall hevents))
  have hunrefused : Only (fun e => IsCalled e ∨ IsSimulated e) log c → (∀ e ∈ events, ¬ IsOverFee e) →
      AffordableTo h baseFee (log ++ events) c := fun honly hevents =>
    affordable_unrefused ((honly.mono fun _ => not_overFee).append (only_of_forall hevents))
  cases hmove with
  | stay | balance | rebuild | poll | backOff | diagnose => rwa [List.append_nil]
  | bounce | empty | bounceDiagnosed | begin | relay => exact hsilent hholds (by simp [IsSimulated])
  | low pc x message hstops =>
    have honly : Only IsCalled log c := by
      rcases hstops with ⟨func, auth, balance, rfl, -⟩ | ⟨func, auth, stroops, rfl, -⟩ <;> exact hholds.1
    exact affordable_unsimulated ((honly.mono fun _ => unsimulated_of_called).append (only_of_forall (by simp [IsSimulated])))
  | refuse pc x e hpc he =>
    refine hunrefused (holds_unsent hpc hholds) fun e' he' => ?_
    rw [List.mem_singleton.mp he']
    exact not_overFee_of_code fun code message hcode => (he code message hcode).2
  | tooHigh rebuilt x minResourceFee hx hfee =>
    obtain ⟨honly, func, entries, rfl, -⟩ := hholds
    have hover : h.sponsor.maxFee < minResourceFee + baseFee := by
      rcases hfits _ rfl minResourceFee hx with rfl | hover
      · exact absurd hfee (lt_irrefl _)
      · exact hover
    -- The call has simulated nothing else.
    intro minResourceFee' he hle
    rcases List.mem_append.mp he with hold | hnew
    · exact (honly _ hold rfl).elim
    · have hsame : minResourceFee' = minResourceFee := by simpa using hnew
      omega
  | meter rebuilt x minResourceFee line => exact hunrefused (hholds.1.mono fun _ => .inl) (by simp [IsOverFee])
  | unmetered rebuilt x minResourceFee => exact hunrefused (hholds.1.mono fun _ => .inl) (by simp [IsOverFee])
  | consume prepared line x => exact hunrefused hholds.1 (by simp [IsOverFee])
  | exceed prepared line x answer e he =>
    refine hunrefused hholds.1 fun e' he' => ?_
    rcases List.mem_cons.mp he' with rfl | he'
    · exact id
    · rw [List.mem_singleton.mp he']
      exact not_overFee_of_code fun code message hcode => (he code message hcode).2
  | fail pc x e hpc he =>
    refine affordable_unrefused (((only_sponsored hpc).mp hholds).append fun e' he' _ => ?_)
    rw [List.mem_singleton.mp he']
    exact not_overFee_of_code fun code message hcode => (he code message hcode).2
  | resolve pc x hash hpc =>
    rcases hpc with hpc | hpc
    · exact affordable_unrefused (((only_sponsored hpc).mp hholds).append (only_of_forall (by simp [IsOverFee])))
    · have honly : Only (fun e => ¬ IsSimulated e) log c := by
        cases pc with
        | relaying | backingOff => exact hholds
        | _ => cases hpc
      exact affordable_unsimulated (honly.append (only_of_forall (by simp [IsSimulated])))
  | again | giveUp | diagnosed => exact affordable_unsimulated (Only.append hholds (only_of_forall (by simp [IsSimulated])))

end Calls

/-! ## Every state of the calls -/

section States

variable {F I : Type} {h : Hybrid F I} {network : BudgetNetwork} {s : State F I} {a : ℕ × Input} {baseFee : ℕ}

structure Sound (h : Hybrid F I) (network : BudgetNetwork) (s : State F I) : Prop where
  holds : ∀ c, Holds h network s.log c (s.pc c)
  metered : Each (Metered h network) s.log

theorem sound_start (breaker : CircuitBreaker) : Sound h network (Submitters.start breaker) :=
  ⟨fun _ _ he => (nomatch he), each_nil⟩

/-- **Step lemma**, of any step of a call. -/
theorem sound_step (hwired : Wired h network) (hsound : Sound h network s) : Sound h network (Submitters.step h s a) := by
  have hmove : Submitters.Move h s.breaker a.1 (s.pc a.1) a.2 _ _ := step_move
  refine ⟨fun c => ?_, move_metered hwired hmove (hsound.holds a.1) hsound.metered⟩
  by_cases hc : c = a.1
  · rw [hc]
    exact move_holds hwired hmove (hsound.holds a.1)
  · rw [step_pc_other hc]
    exact (hsound.holds c).others fun e he heq => hc (heq.symm.trans (hmove.call e he))

/-- The simulation answers nothing affordable, unless 0. -/
def CallFits (h : Hybrid F I) (baseFee : ℕ) (s : State F I) (a : ℕ × Input) : Prop :=
  ∀ rebuilt, s.pc a.1 = .preparing rebuilt → ∀ minResourceFee, a.2.reply = .prepared minResourceFee →
    minResourceFee = 0 ∨ h.sponsor.maxFee < minResourceFee + baseFee

/-- **Step lemma**, of a step that fits. -/
theorem affordable_step (hsound : Sound h network s) (hlog : Affordable h baseFee s.log) (hfits : CallFits h baseFee s a) :
    Affordable h baseFee (Submitters.step h s a).log := by
  have hmove : Submitters.Move h s.breaker a.1 (s.pc a.1) a.2 _ _ := step_move
  intro c
  by_cases hc : c = a.1
  · rw [hc]
    exact move_affordable hmove (hsound.holds a.1) (hlog a.1) hfits
  · have hold : ∀ e, e ∈ (Submitters.step h s a).log → e.call = c → e ∈ s.log := fun e he hcall =>
      (List.mem_append.mp he).resolve_right fun hnew => hc (hcall.symm.trans (hmove.call e hnew))
    intro minResourceFee he hle message hrejected
    exact hlog c minResourceFee (hold _ he rfl) hle message (hold _ hrejected rfl)

/-- **A step after which nothing affordable is refused fits**. -/
theorem fits_of_affordable (hsound : Sound h network s) (hlog : Affordable h baseFee (Submitters.step h s a).log) :
    CallFits h baseFee s a := by
  intro rebuilt hpc minResourceFee hx
  by_contra hnot
  rw [not_or, not_lt] at hnot
  obtain ⟨hpos, hle⟩ := hnot
  have hholds := hsound.holds a.1
  rw [hpc] at hholds
  obtain ⟨-, func, entries, rfl, -⟩ := hholds
  have hfee : h.sponsor.maxFee < h.sponsor.maxFee + minResourceFee := Nat.lt_add_of_pos_right (Nat.pos_of_ne_zero hpos)
  have hevents : (advance h s.breaker a.1 (s.pc a.1) a.2).1.2 =
      [.simulated a.1 minResourceFee, .rejected a.1 (overFee h (h.sponsor.maxFee + minResourceFee))] := by
    rw [hpc]
    unfold advance
    dsimp only
    rw [hx]
    show _ :: (afterPrepare h a.1 ⟨_, h.sponsor.maxFee + minResourceFee⟩).2 = _
    unfold afterPrepare enforceFeeCap
    rw [if_pos hfee]
    rfl
  have hin : ∀ e ∈ [.simulated a.1 minResourceFee, .rejected a.1 (overFee h (h.sponsor.maxFee + minResourceFee))],
      e ∈ (Submitters.step h s a).log := fun e he => List.mem_append_right _ (hevents ▸ he)
  exact hlog a.1 minResourceFee (hin _ List.mem_cons_self) hle _ (hin _ (List.mem_cons_of_mem _ (List.mem_singleton_self _)))

end States

/-! ## Every request -/

section Requests

variable {γ F I : Type} {guard : ReplayGuard γ} {h : Hybrid F I} {wallets : String → String → Bool} {bodies : ℕ → Json} {w : World γ}
  {p : Phase} {x : Wallet.Reply} {route : Processes.Config (World γ) Phase} {i : ℕ}

/-- All subjects of the request are known wallets, up to where the check has come. -/
def ScopedPhase (deps : SubmitDeps) (wallets : String → String → Bool) : Phase → Prop
  | .scoping s subject rest => ∃ before, s.subjects deps = before ++ subject :: rest ∧ ∀ b ∈ before, wallets b s.network = true
  | .reserving s | .reserved s _ | .submitting s => ∀ subject ∈ s.subjects deps, wallets subject s.network = true
  | _ => True

/-- The answer of the lookup is that of the table. -/
def ByTable (wallets : String → String → Bool) (p : Phase) (x : Wallet.Reply) : Prop :=
  ∀ s subject rest, p = .scoping s subject rest → x = .known true → wallets subject s.network = true

theorem byTable_answered : ByTable wallets p (answered wallets p x) := by
  rintro s subject rest rfl hx
  unfold answered at hx
  split at hx
  · next s' subject' rest' known' heq =>
    cases heq
    exact Reply.known.inj hx
  · next hnot => exact absurd hx (hnot s subject rest true rfl)

/-- **A step of a request** checks its subjects one by one. -/
theorem scopedPhase_handle {deps : SubmitDeps} (hdeps : deps.networkPassphrase.isSome = true) (hx : ByTable wallets p x)
    (hp : ScopedPhase deps wallets p) : ScopedPhase deps wallets (handle guard deps x p w).1 := by
  cases p with
  | received r =>
    unfold handle
    dsimp only
    split <;> trivial
  | lookingUp s =>
    cases x with
    | succeeds =>
      unfold handle
      dsimp only
      split
      · trivial
      · unfold Submission.scope
        dsimp only
        rw [if_pos hdeps]
        split
        · trivial
        · next subject rest hsubjects => exact ⟨[], hsubjects, fun _ hb => absurd hb List.not_mem_nil⟩
    | _ => trivial
  | scoping s subject rest =>
    obtain ⟨before, hsubjects, hbefore⟩ := hp
    cases x with
    | known isKnown =>
      cases isKnown with
      | true =>
        have hknown := hx s subject rest rfl rfl
        have hall : ∀ b ∈ before ++ [subject], wallets b s.network = true := fun b hb => by
          rcases List.mem_append.mp hb with hb | hb
          · exact hbefore b hb
          · rw [List.mem_singleton.mp hb]
            exact hknown
        cases rest with
        | nil =>
          intro b hb
          rw [hsubjects] at hb
          exact hall b hb
        | cons next rest =>
          refine ⟨before ++ [subject], ?_, hall⟩
          rw [hsubjects, List.append_assoc]
          rfl
      | false =>
        unfold handle
        dsimp only
        split
        · exact ⟨before, hsubjects, hbefore⟩
        · trivial
    | fails => trivial
    | succeeds | lost | submitted | threw => exact ⟨before, hsubjects, hbefore⟩
  | rejecting s message subject rest =>
    cases x with
    | succeeds => cases rest <;> trivial
    | _ => trivial
  | reserving s =>
    cases x with
    | succeeds =>
      unfold handle
      dsimp only
      split <;> exact hp
    | _ => exact hp
  | reserved s outcome =>
    cases outcome with
    | ok => exact hp
    | _ => trivial
  | auditingReplay s => cases x <;> trivial
  | submitting s =>
    cases x with
    | submitted hash => trivial
    | threw error => trivial
    | _ => exact hp
  | settling s hash todo rest =>
    cases x with
    | succeeds => cases rest <;> trivial
    | _ => trivial
  | failing s error subject rest =>
    cases x with
    | succeeds =>
      cases rest with
      | nil =>
        show ScopedPhase deps wallets (s.afterAudits deps error _).1
        unfold Submission.afterAudits
        split
        · split <;> trivial
        · trivial
      | cons => trivial
    | _ => trivial
  | releasing s code message keys =>
    cases x with
    | succeeds =>
      unfold handle
      dsimp only
      split <;> trivial
    | _ => trivial
  | done => trivial

/-- What holds of the requests. -/
structure RouteInv (h : Hybrid F I) (wallets : String → String → Bool) (bodies : ℕ → Json) (route : Processes.Config (World γ) Phase) :
    Prop where
  id_eq : ∀ i, (route.procs i).id = i
  of : ∀ i, (route.procs i).Of bodies
  checked : ∀ i, ScopedPhase (submitDeps h) wallets (route.procs i)

theorem routeInv_step (hroute : RouteInv h wallets bodies route) (hx : ByTable wallets (route.procs i) x) :
    RouteInv h wallets bodies (Processes.step (handle guard (submitDeps h)) route (i, x)) := by
  have hmove : Wallet.Move guard (submitDeps h) route.shared (route.procs i) _ _ := handle_move rfl x (route.procs i) route.shared
  refine ⟨fun j => ?_, fun j => ?_, fun j => ?_⟩
  all_goals by_cases hj : j = i
  · rw [hj, Processes.procs_step_self]
    exact hmove.id_eq.trans (hroute.id_eq i)
  · rw [Processes.procs_step_other hj]
    exact hroute.id_eq j
  · rw [hj, Processes.procs_step_self]
    exact hmove.of (hroute.of i)
  · rw [Processes.procs_step_other hj]
    exact hroute.of j
  · rw [hj, Processes.procs_step_self]
    exact scopedPhase_handle rfl hx (hroute.checked i)
  · rw [Processes.procs_step_other hj]
    exact hroute.checked j

end Requests

/-! ## Every run of the service -/

section Runs

variable {γ F I : Type} {guard : ReplayGuard γ} {h : Hybrid F I} {wallets : String → String → Bool} {bodies : ℕ → Json}
  {network : BudgetNetwork} {baseFee i : ℕ} {w : Service γ F I} {x : Input} {a : ℕ × Answer}

/-- The envelope was submitted by the request, all its subjects known. -/
def Submitted (h : Hybrid F I) (wallets : String → String → Bool) (bodies : ℕ → Json) (i : ℕ) (signedXdr : String) : Prop :=
  ∃ s, submitBody ⟨i, bodies i⟩ = some s ∧ s.signedXdr = signedXdr ∧
    ∀ subject ∈ s.subjects (submitDeps h), wallets subject s.network = true

structure ServiceInv (h : Hybrid F I) (wallets : String → String → Bool) (bodies : ℕ → Json) (network : BudgetNetwork)
    (w : Service γ F I) : Prop where
  route : RouteInv h wallets bodies w.route
  calls : Sound h network w.calls
  called : ∀ i signedXdr, .called i signedXdr ∈ w.calls.log → Submitted h wallets bodies i signedXdr
  /-- A request at its submission has called. -/
  begun : ∀ i s, w.route.procs i = .submitting s → w.calls.pc i ≠ .idle

theorem called_of_move {breaker : CircuitBreaker} {pc pc' : Pc F I} {events : List (Submitters.Event F I)}
    (hmove : Submitters.Move h breaker i pc x pc' events) {j : ℕ} {signedXdr : String} (he : .called j signedXdr ∈ events) :
    pc = .idle ∧ j = i ∧ x.reply = .submit signedXdr := by
  cases hmove with
  | bounce _ sent _ hx | empty _ sent _ _ hx | bounceDiagnosed _ sent _ _ hx | begin _ sent _ _ _ hx | relay _ sent hx =>
    have hsame : j = i ∧ signedXdr = sent := by simpa using he
    exact ⟨rfl, hsame.1, hsame.2 ▸ hx⟩
  | _ => simp at he

/-- Only a step with no event leaves a call idle. -/
theorem nil_of_idle {breaker : CircuitBreaker} {pc : Pc F I} {events : List (Submitters.Event F I)}
    (hmove : Submitters.Move h breaker i pc x .idle events) : pc = .idle ∧ events = [] := by
  cases hmove with
  | stay => exact ⟨rfl, rfl⟩
  | poll _ _ _ _ hpc' => exact hpc'.elim

theorem begun_step {s : State F I} (hbegun : s.pc i ≠ .idle ∨ ∃ signedXdr, x.reply = .submit signedXdr) :
    (Submitters.step h s (i, x)).pc i ≠ .idle := by
  intro hidle
  have hmove : Submitters.Move h s.breaker i (s.pc i) x ((Submitters.step h s (i, x)).pc i) _ := step_move (a := (i, x))
  rw [hidle] at hmove
  obtain ⟨hpc, hnil⟩ := nil_of_idle hmove
  rcases hbegun with hbegun | ⟨signedXdr, hx⟩
  · exact hbegun hpc
  · rw [hpc] at hnil
    unfold advance at hnil
    dsimp only at hnil
    rw [hx] at hnil
    cases hnil

/-- **A step of a call** within its request. -/
theorem callStep_inv (hwired : Wired h network) (hroute : RouteInv h wallets bodies w.route) (hcalls : Sound h network w.calls)
    (hcalled : ∀ i signedXdr, .called i signedXdr ∈ w.calls.log → Submitted h wallets bodies i signedXdr)
    (hbegun : ∀ j s, j ≠ i → w.route.procs j = .submitting s → w.calls.pc j ≠ .idle)
    (hgoing : w.calls.pc i ≠ .idle ∨ ∃ signedXdr, x.reply = .submit signedXdr)
    (hsubmitted : ∀ signedXdr, w.calls.pc i = .idle → x.reply = .submit signedXdr → Submitted h wallets bodies i signedXdr) :
    ServiceInv h wallets bodies network (w.callStep guard h i x) := by
  have hmove : Submitters.Move h w.calls.breaker i (w.calls.pc i) x _ _ := step_move (a := (i, x))
  have hcalled' : ∀ j signedXdr, .called j signedXdr ∈ (Submitters.step h w.calls (i, x)).log → Submitted h wallets bodies j signedXdr := by
    intro j signedXdr he
    rcases List.mem_append.mp he with hold | hnew
    · exact hcalled j signedXdr hold
    · obtain ⟨hpc, rfl, hx⟩ := called_of_move hmove hnew
      exact hsubmitted signedXdr hpc hx
  have hbegun' : ∀ j s, (j ≠ i → w.route.procs j = .submitting s) → (Submitters.step h w.calls (i, x)).pc j ≠ .idle := by
    intro j s hproc
    by_cases hj : j = i
    · rw [hj]
      exact begun_step hgoing
    · rw [step_pc_other hj]
      exact hbegun j s hj (hproc hj)
  unfold Service.callStep
  dsimp only
  split
  · next reply hending =>
    have hreply : ByTable wallets (w.route.procs i) reply := by
      rintro s subject rest - rfl
      obtain ⟨e, -, he⟩ := List.exists_of_findSome?_eq_some hending
      split at he <;> cases he
    refine ⟨routeInv_step hroute hreply, sound_step hwired hcalls, hcalled', fun j s hproc => hbegun' j s fun hj => ?_⟩
    rwa [Processes.procs_step_other hj] at hproc
  · exact ⟨hroute, sound_step hwired hcalls, hcalled', fun j s hproc => hbegun' j s fun _ => hproc⟩

/-- A submission scoped and of its request. -/
theorem submitted_of_phase {route : Processes.Config (World γ) Phase} (hroute : RouteInv h wallets bodies route) {s : Submission}
    (hproc : route.procs i = .submitting s) : Submitted h wallets bodies i s.signedXdr := by
  have hid := hroute.id_eq i
  have hof := hroute.of i
  have hchecked := hroute.checked i
  rw [hproc] at hid hof hchecked
  obtain rfl : s.id = i := hid
  exact ⟨s, hof, rfl, hchecked⟩

/-- **Step lemma**, of any step. -/
theorem serve_inv (hwired : Wired h network) (hinv : ServiceInv h wallets bodies network w) :
    ServiceInv h wallets bodies network (serve guard h wallets w a) := by
  obtain ⟨i, answer⟩ := a
  unfold serve
  dsimp only
  split
  · next s x hproc =>
    have hpc := hinv.begun i s hproc
    exact callStep_inv hwired hinv.route hinv.calls hinv.called (fun j s' _ => hinv.begun j s') (.inl hpc) fun _ hidle => absurd hidle hpc
  · exact hinv
  · exact hinv
  · next x now hnot =>
    have hroute : RouteInv h wallets bodies (Processes.step (handle guard (submitDeps h)) w.route (i, answered wallets (w.route.procs i) x)) :=
      routeInv_step hinv.route byTable_answered
    have hbegun : ∀ j s, j ≠ i → (Processes.step (handle guard (submitDeps h)) w.route (i, answered wallets (w.route.procs i) x)).procs j =
        .submitting s → w.calls.pc j ≠ .idle := fun j s hj hproc => by
      rw [Processes.procs_step_other hj] at hproc
      exact hinv.begun j s hproc
    split
    · next s hproc =>
      refine callStep_inv hwired hroute hinv.calls hinv.called hbegun (.inr ⟨_, rfl⟩) fun signedXdr _ hx => ?_
      obtain rfl : s.signedXdr = signedXdr := Submitters.Reply.submit.inj hx
      exact submitted_of_phase hroute hproc
    · next hother =>
      refine ⟨hroute, hinv.calls, hinv.called, fun j s hproc => ?_⟩
      by_cases hj : j = i
      · exact absurd (hj ▸ hproc) (hother s)
      · exact hbegun j s hj hproc

/-- The calls move by steps of the submitter: for a request at its submission, or when one gets there. -/
theorem serve_calls : (serve guard h wallets w a).calls = w.calls ∨
    ∃ x, (serve guard h wallets w a).calls = Submitters.step h w.calls (a.1, x) ∧
      (((∃ s, w.route.procs a.1 = .submitting s) ∧ a.2 = .call x) ∨ ∃ signedXdr, x.reply = .submit signedXdr) := by
  have hcallStep : ∀ (w : Service γ F I) (x : Input), (w.callStep guard h a.1 x).calls = Submitters.step h w.calls (a.1, x) := by
    intro w x
    unfold Service.callStep
    dsimp only
    split <;> rfl
  unfold serve
  split
  · next s x hproc hanswer => exact .inr ⟨x, hcallStep w x, .inl ⟨⟨s, hproc⟩, hanswer⟩⟩
  · exact .inl rfl
  · exact .inl rfl
  · dsimp only
    split
    · exact .inr ⟨_, hcallStep _ _, .inr ⟨_, rfl⟩⟩
    · exact .inl rfl

theorem serve_call {s : Submission} (hproc : w.route.procs a.1 = .submitting s) (hx : a.2 = .call x) :
    (serve guard h wallets w a).calls = Submitters.step h w.calls (a.1, x) := by
  unfold serve
  rw [hproc, hx]
  show (w.callStep guard h a.1 x).calls = _
  unfold Service.callStep
  dsimp only
  split <;> rfl

/-- **Step lemma**, of a step that fits. -/
theorem serve_affordable (hinv : ServiceInv h wallets bodies network w) (hlog : Affordable h baseFee w.calls.log)
    (hfits : Fits h baseFee w a) : Affordable h baseFee (serve guard h wallets w a).calls.log := by
  have hcalls : (serve guard h wallets w a).calls = w.calls ∨ _ := serve_calls
  rcases hcalls with hsame | ⟨x, hstep, hx⟩
  · rwa [hsame]
  · rw [hstep]
    refine affordable_step hinv.calls hlog fun rebuilt hpc minResourceFee hreply => ?_
    rcases hx with ⟨⟨s, hproc⟩, hanswer⟩ | ⟨signedXdr, hsubmit⟩
    · exact hfits s hproc rebuilt hpc x minResourceFee hanswer hreply
    · rw [hsubmit] at hreply
      cases hreply

theorem fits_of_serve (hinv : ServiceInv h wallets bodies network w)
    (hlog : Affordable h baseFee (serve guard h wallets w a).calls.log) : Fits h baseFee w a := by
  intro s hproc rebuilt hpc x minResourceFee hanswer hreply
  rw [serve_call hproc hanswer] at hlog
  exact fits_of_affordable hinv.calls hlog rebuilt hpc minResourceFee hreply

/-! ### What a metered signature means for the request -/

/-- The address of a credential of the operation is a subject. -/
theorem mem_subjects {s : Submission} {func : F} {auth : List (AuthEntry I)} {entry : AuthEntry I} {c : AddressCredentials}
    (hparsed : h.fromXDR s.signedXdr h.networkPassphrase = some (.transaction [.invokeHostFunction func (some auth)]))
    (hentry : entry ∈ auth) (hc : addressCredentials entry.credentials = some c) : c.address.strkey ∈ s.subjects (submitDeps h) := by
  have htx : (submitDeps h).parsed s.signedXdr = some (.transaction [.invokeHostFunction (some (auth.map AuthEntry.credentials))]) := by
    show (h.fromXDR s.signedXdr h.networkPassphrase).map SignedTransaction.scope = _
    rw [hparsed]
    rfl
  unfold Submission.subjects extractAddressAuthSubjects
  rw [htx]
  refine List.mem_map_of_mem ?_
  unfold credentialsOf
  refine List.mem_filterMap.mpr ⟨entry.credentials, ?_, hc⟩
  rw [List.flatMap_singleton]
  exact List.mem_map_of_mem hentry

theorem addressCredentials_bound {entry : AuthEntry I} (hbound : entry.boundToAddress = true) :
    entry.credentials ≠ .sourceAccount ∧ (addressCredentials entry.credentials).isSome = true := by
  unfold AuthEntry.boundToAddress at hbound
  cases hcredentials : entry.credentials with
  | sourceAccount =>
    rw [hcredentials] at hbound
    cases hbound
  | address | addressV2 | addressWithDelegates => exact ⟨by simp, rfl⟩

theorem scopedTo_of_routed {pre : List (Submitters.Event F I)} {func : F} {auth : List (AuthEntry I)} (hrouted : Routed h pre i func auth)
    (hcalled : ∀ signedXdr, .called i signedXdr ∈ pre → Submitted h wallets bodies i signedXdr) :
    ScopedTo h wallets bodies i func auth := by
  obtain ⟨⟨signedXdr, hcall, hparsed⟩, hne, hbound⟩ := hrouted
  obtain ⟨s, hbody, rfl, hknown⟩ := hcalled signedXdr hcall
  refine ⟨⟨s, hbody, hparsed, fun entry hentry c hc => hknown _ (mem_subjects hparsed hentry hc)⟩,
    fun entry hentry => (addressCredentials_bound (hbound entry hentry)).1, ?_⟩
  obtain ⟨entry, hentry⟩ := List.exists_mem_of_ne_nil auth hne
  exact ⟨entry, hentry, (addressCredentials_bound (hbound entry hentry)).2⟩

theorem paid_of_inv (hinv : ServiceInv h wallets bodies network w) : Each (Paid h wallets bodies network) w.calls.log := by
  intro pre e post hlog
  have hmetered := hinv.calls.metered pre e post hlog
  cases e with
  | signed i tx =>
    obtain ⟨⟨func, auth, hrouted, hoperations⟩, hrest⟩ := hmetered
    refine ⟨⟨func, auth, scopedTo_of_routed hrouted fun signedXdr he => hinv.called i signedXdr ?_, hoperations⟩, hrest⟩
    rw [hlog]
    exact List.mem_append_left _ he
  | _ => trivial

/-! ### Runs -/

/-- All requests received, no call made. -/
def opened (bodies : ℕ → Json) (g : γ) (dedup : String → Option String) (inFlight : String → ℕ) (breaker : CircuitBreaker) :
    Service γ F I :=
  ⟨begin bodies g dedup inFlight, Submitters.start breaker⟩

variable {g : γ} {dedup : String → Option String} {inFlight : String → ℕ} {breaker : CircuitBreaker}

theorem serviceInv_opened : ServiceInv h wallets bodies network (opened bodies g dedup inFlight breaker : Service γ F I) where
  route := ⟨fun _ => rfl, fun _ => rfl, fun _ => trivial⟩
  calls := sound_start breaker
  called _ _ he := nomatch he
  begun _ _ hproc := nomatch hproc

theorem serviceInv_run (hwired : Wired h network) (schedule : List (ℕ × Answer)) :
    ServiceInv h wallets bodies network (run (serve guard h wallets) (opened bodies g dedup inFlight breaker) schedule) :=
  inv_run (P := ServiceInv h wallets bodies network) (G := fun _ _ => True) (fun _ _ hinv _ => serve_inv hwired hinv) serviceInv_opened
    along_true

theorem wired_hybridSubmitter (fromXDR : String → String → Option (SignedTransaction F I)) (networkPassphrase : String)
    (maxFeeStroops : Option ℕ) (network : BudgetNetwork) (fallback : Fallback) :
    Wired (hybridSubmitter fromXDR networkPassphrase maxFeeStroops network fallback) network := ⟨rfl, rfl, rfl⟩

/-- **The sponsor pays only for scoped, capped, metered operations and refuses no affordable one** in exactly the runs where no simulation
answers an affordable resource fee other than 0. -/
theorem sponsored_iff (guard : ReplayGuard γ) (fromXDR : String → String → Option (SignedTransaction F I)) (networkPassphrase : String)
    (maxFeeStroops : Option ℕ) (network : BudgetNetwork) (fallback : Fallback) (wallets : String → String → Bool) (bodies : ℕ → Json)
    (g : γ) (dedup : String → Option String) (inFlight : String → ℕ) (breaker : CircuitBreaker) (baseFee : ℕ)
    (schedule : List (ℕ × Answer)) :
    let h := hybridSubmitter fromXDR networkPassphrase maxFeeStroops network fallback
    (∀ pre, pre <+: schedule → SponsorHeld h wallets bodies network baseFee
        (run (serve guard h wallets) (opened bodies g dedup inFlight breaker) pre).calls.log) ↔
      Along (serve guard h wallets) (Fits h baseFee) (opened bodies g dedup inFlight breaker) schedule := by
  intro h
  have hwired : Wired h network := wired_hybridSubmitter fromXDR networkPassphrase maxFeeStroops network fallback
  constructor
  · intro hheld
    refine along_iff.mpr fun pre a post hsplit => ?_
    have hnext := (hheld (pre ++ [a]) ⟨post, by rw [hsplit]; simp⟩).affordable
    rw [run_snoc] at hnext
    exact fits_of_serve (serviceInv_run hwired pre) hnext
  · intro hfits pre hpre
    obtain ⟨hinv, hlog⟩ := inv_prefix (P := fun w => ServiceInv h wallets bodies network w ∧ Affordable h baseFee w.calls.log)
      (fun w a hw ha => ⟨serve_inv hwired hw.1, serve_affordable hw.1 hw.2 ha⟩)
      ⟨serviceInv_opened, fun _ _ he => (nomatch he)⟩ hfits pre hpre
    exact ⟨paid_of_inv hinv, hlog⟩

end Runs

/-! ## An affordable operation -/

def submitBodies (_ : ℕ) : Json := .obj [("signedXdr", .str "AAAA"), ("network", .str "testnet")]

def testnetHybrid : Hybrid Unit Unit :=
  hybridSubmitter testnetXDR "Test SDF Network ; September 2015" none .testnet .unconfigured

/-- One request up to the simulation, which answers 50000 stroops. -/
def affordableRun : List (ℕ × Answer) :=
  [(0, .route .succeeds 0), (0, .route .succeeds 0), (0, .route (.known true) 0), (0, .route .succeeds 0), (0, .route .succeeds 0),
    (0, .call ⟨.account none, 0, false⟩), (0, .call ⟨.prepared 50000, 0, false⟩)]

/-- 50000 stroops and the base fee of 100 are within the cap of 1000000, but the fee is 1050000. -/
theorem affordable_refused : ¬ ∀ (guard : ReplayGuard (List String)) (fromXDR : String → String → Option (SignedTransaction Unit Unit))
    (networkPassphrase : String) (maxFeeStroops : Option ℕ) (network : BudgetNetwork) (fallback : Fallback)
    (wallets : String → String → Bool) (bodies : ℕ → Json) (baseFee : ℕ) (schedule : List (ℕ × Answer)),
    let h := hybridSubmitter fromXDR networkPassphrase maxFeeStroops network fallback
    SponsorHeld h wallets bodies network baseFee
      (run (serve guard h wallets) (opened bodies [] (fun _ => none) (fun _ => 0) .init) schedule).calls.log := by
  intro hall
  have hheld := hall createMemoryReplayGuard testnetXDR "Test SDF Network ; September 2015" none .testnet .unconfigured
    (fun _ _ => true) submitBodies 100 affordableRun
  have hlog : (run (serve createMemoryReplayGuard testnetHybrid fun _ _ => true)
      (opened submitBodies [] (fun _ => none) (fun _ => 0) .init) affordableRun).calls.log =
      [.called 0 "AAAA", .simulated 0 50000, .rejected 0 (overFee testnetHybrid 1050000)] := by rfl
  have haffordable := hheld.affordable
  rw [show hybridSubmitter testnetXDR _ _ _ _ = testnetHybrid from rfl, hlog] at haffordable
  exact haffordable 0 50000 (by simp) (by decide) _ (List.mem_cons_of_mem _ (List.mem_cons_of_mem _ (List.mem_singleton_self _)))

end Vellar.Wallet.Sponsored
