import Vellar.Lib.Processes
import Vellar.Wallet.SubmitRoute

/-!
# Vellar.Wallet.ReplayFree — no authorization is submitted twice

Any number of `POST /wallet/submit` requests, interleaved at their awaits.  What a request holds is reserved, and is
neither another request's nor a submission's that may have reached the network; so `replay_free`: a pair is submitted
once, unless the earlier submissions failed before anything was sent, and a request whose reservation is refused
reserves and submits nothing.
-/

set_option autoImplicit false

namespace Vellar.Wallet

open Machine Processes

/-! ## What is promised -/

/-- The envelope of a request's body. -/
def envelopeOf (deps : SubmitDeps) (bodies : ℕ → Json) (i : ℕ) : Option Transaction :=
  (submitBody ⟨i, bodies i⟩).bind fun s => deps.parsed s.signedXdr

section Runs

variable {γ : Type} (guard : ReplayGuard γ) (deps : SubmitDeps) (bodies : ℕ → Json)

/-- All requests received, over any guard state, dedup map and counts. -/
def begin (g : γ) (dedup : String → Option String) (inFlight : String → ℕ) : Config (World γ) Phase where
  shared := ⟨g, dedup, inFlight, []⟩
  procs i := .received ⟨i, bodies i⟩

def reached (c : Config (World γ) Phase) (schedule : List (ℕ × Reply)) : Config (World γ) Phase :=
  run (step (handle guard deps)) c schedule

/-- A call of the submitter for a pair comes after the failure of every earlier one for it, by a releasable code. -/
def SubmittedOnce (log : List Event) : Prop :=
  ∀ pair before j after, log = before ++ .submit j :: after → Carries (envelopeOf deps bodies j) pair →
    .submit j ∉ before ∧ ∀ i, .submit i ∈ before → Carries (envelopeOf deps bodies i) pair →
      ∃ code ∈ RELEASABLE_SUBMISSION_CODES, .threw i (some code) ∈ before

/-- What the replay guard is there for, in one run. -/
structure ReplayFree (c : Config (World γ) Phase) (schedule : List (ℕ × Reply)) : Prop where
  once : SubmittedOnce deps bodies (reached guard deps c schedule).shared.log
  /-- A request whose `reserve` refused or threw calls no submitter. -/
  refused : ∀ i, .reserve i false ∈ (reached guard deps c schedule).shared.log →
    .submit i ∉ (reached guard deps c schedule).shared.log
  /-- And the step has reserved nothing. -/
  nothing : ∀ earlier a i, earlier ++ [a] <+: schedule →
    (reached guard deps c (earlier ++ [a])).shared.log = (reached guard deps c earlier).shared.log ++ [.reserve i false] →
      (reached guard deps c (earlier ++ [a])).shared.guard = (reached guard deps c earlier).shared.guard

end Runs

/-! ## Phases -/

def Phase.id : Phase → ℕ
  | .received r => r.id
  | .lookingUp s | .scoping s _ _ | .rejecting s _ _ _ | .reserving s | .reserved s _ | .auditingReplay s
  | .submitting s | .settling s _ _ _ | .failing s _ _ _ | .releasing s _ _ _ => s.id
  | .done id _ => id

/-- The request the phase is of. -/
def Phase.Of (bodies : ℕ → Json) : Phase → Prop
  | .received r => r.body = bodies r.id
  | .lookingUp s | .scoping s _ _ | .rejecting s _ _ _ | .reserving s | .reserved s _ | .auditingReplay s
  | .submitting s | .settling s _ _ _ | .failing s _ _ _ | .releasing s _ _ _ => submitBody ⟨s.id, bodies s.id⟩ = some s
  | .done _ _ => True

/-- Neither refused nor submitted yet. -/
def Phase.early : Phase → Bool
  | .received _ | .lookingUp _ | .scoping _ _ _ | .rejecting _ _ _ _ | .reserving _ | .reserved _ .ok => true
  | _ => false

/-- The reserved keys the request may still release. -/
def Phase.held (deps : SubmitDeps) : Phase → List ReplayKey
  | .reserved s .ok | .submitting s | .settling s _ _ _ | .failing s _ _ _ => s.keys deps
  | .releasing _ _ _ keys => keys
  | _ => []

/-- The code of the failure a release is due for. -/
def Phase.due : Phase → Option String
  | .failing _ (some (code, _)) _ _ => if code ∈ RELEASABLE_SUBMISSION_CODES then some code else none
  | .releasing _ code _ _ => some code
  | _ => none

def Phase.Holds (deps : SubmitDeps) (p : Phase) (pair : AuthNonce) : Prop := ∃ k ∈ p.held deps, k.toAuthNonce = pair

/-- Events that neither reserve, submit nor fail. -/
def Event.Quiet : Event → Prop
  | .reserve _ _ | .submit _ | .threw _ _ => False
  | _ => True

/-! ## What a step can do -/

section Steps

variable {γ : Type} {guard : ReplayGuard γ} {deps : SubmitDeps} {bodies : ℕ → Json} {w w' : World γ} {p p' : Phase}

/-- A phase after another of the same request that has taken nothing on. -/
structure Follows (deps : SubmitDeps) (p p' : Phase) : Prop where
  id : p'.id = p.id
  of : ∀ bodies, p.Of bodies → p'.Of bodies
  early : p'.early = true → p.early = true
  due : p'.due = none ∨ p'.due = p.due

theorem Follows.refl (p : Phase) : Follows deps p p := ⟨rfl, fun _ h => h, fun h => h, Or.inr rfl⟩

/-- The end of a request follows any of its phases. -/
theorem Follows.done {s : Submission} (response : Response) (h : p.id = s.id) :
    Follows deps p (.done s.id response) := ⟨h.symm, fun _ _ => trivial, fun h => (by cases h), Or.inl rfl⟩

inductive Move (guard : ReplayGuard γ) (deps : SubmitDeps) (w : World γ) : Phase → Phase → World γ → Prop where
  | quiet (p p' : Phase) (w' : World γ) (events : List Event) (hguard : w'.guard = w.guard)
      (hlog : w'.log = w.log ++ events) (hevents : ∀ e ∈ events, e.Quiet) (hfollows : Follows deps p p')
      (hheld : p'.held deps = [] ∨ p'.held deps = p.held deps) : Move guard deps w p p' w'
  | reserve (s : Submission) (g : γ) (hg : guard.reserve (s.keys deps) w.guard = some g) :
      Move guard deps w (.reserving s) (.reserved s .ok) (World.add { w with guard := g } [.reserve s.id true])
  | refuse (s : Submission) (outcome : Outcome) (houtcome : outcome ≠ .ok) :
      Move guard deps w (.reserving s) (.reserved s outcome) (w.add [.reserve s.id false])
  | submit (s : Submission) : Move guard deps w (.reserved s .ok) (.submitting s) (w.add [.submit s.id])
  | threw (s : Submission) (error : Option (String × String)) (subject : Option String) (rest : List (Option String)) :
      Move guard deps w (.submitting s) (.failing s error subject rest) (w.add [.threw s.id (error.map Prod.fst)])
  | release (s : Submission) (code message : String) (keys : List ReplayKey) (p' : Phase) (w' : World γ)
      (events : List Event) (hguard : w'.guard = (guard.releaseNext keys w.guard).2) (hlog : w'.log = w.log ++ events)
      (hevents : ∀ e ∈ events, e.Quiet) (hfollows : Follows deps (.releasing s code message keys) p')
      (hheld : p'.held deps = [] ∨ p'.held deps = (guard.releaseNext keys w.guard).1) :
      Move guard deps w (.releasing s code message keys) p' w'

theorem Move.stay (p : Phase) : Move guard deps w p p w :=
  .quiet p p w [] rfl (List.append_nil _).symm (fun e he => by cases he) (.refl p) (Or.inr rfl)

/-- A request may end at any step that has only logged quiet events. -/
theorem Move.finish {s : Submission} (hid : p.id = s.id) (response : Response) (events : List Event)
    (hguard : w'.guard = w.guard) (hlog : w'.log = w.log ++ events) (hevents : ∀ e ∈ events, e.Quiet) :
    Move guard deps w p (s.finish deps response w').1 (s.finish deps response w').2 := by
  refine .quiet p _ _ (events ++ [.answered s.id response]) hguard ?_ ?_ (.done response hid) (Or.inl rfl)
  · show w'.log ++ [_] = w.log ++ (events ++ [_])
    rw [hlog, List.append_assoc]
  · intro e he
    rcases List.mem_append.mp he with he | he
    · exact hevents e he
    · rw [List.mem_singleton.mp he]
      trivial

theorem quiet_audit (i : ℕ) (type : String) (subject : Option String) :
    ∀ e ∈ [Event.audit i type subject], e.Quiet := by
  intro e he
  rw [List.mem_singleton.mp he]
  trivial

theorem quiet_nil : ∀ e ∈ ([] : List Event), e.Quiet := fun e he => by cases he

theorem lookup_move (hscoped : deps.networkPassphrase.isSome = true) (s : Submission) :
    Move guard deps w (.lookingUp s) (s.scope deps w).1 (s.scope deps w).2 := by
  cases hsubjects : s.subjects deps with
  | nil =>
    simp only [Submission.scope, hscoped, if_true, hsubjects]
    exact Move.finish rfl _ [] rfl (List.append_nil _).symm quiet_nil
  | cons subject rest =>
    simp only [Submission.scope, hscoped, if_true, hsubjects]
    exact .quiet _ _ _ [] rfl (List.append_nil _).symm quiet_nil
      ⟨rfl, fun _ h => h, fun _ => rfl, Or.inl rfl⟩ (Or.inl rfl)

theorem settle_eq (s : Submission) (hash : String) (todo : Settle) :
    (settle s hash w todo).guard = w.guard ∧
      ∃ events, (settle s hash w todo).log = w.log ++ events ∧ ∀ e ∈ events, e.Quiet := by
  cases todo with
  | remember | invalidate => exact ⟨rfl, [], (List.append_nil _).symm, quiet_nil⟩
  | audit subject => exact ⟨rfl, _, rfl, quiet_audit _ _ _⟩

theorem afterAudits_move {s : Submission} {error : Option (String × String)} {subject : Option String}
    {rest : List (Option String)} {type : String} :
    Move guard deps w (.failing s error subject rest)
      (s.afterAudits deps error (w.add [.audit s.id type subject])).1
      (s.afterAudits deps error (w.add [.audit s.id type subject])).2 := by
  cases error with
  | none => exact Move.finish rfl _ _ rfl rfl (quiet_audit _ _ _)
  | some failure =>
    obtain ⟨code, message⟩ := failure
    by_cases hdue : s.keys deps ≠ [] ∧ code ∈ RELEASABLE_SUBMISSION_CODES
    · simp only [Submission.afterAudits, if_pos hdue]
      refine .quiet _ _ _ _ rfl rfl (quiet_audit _ _ _) ⟨rfl, fun _ h => h, fun h => h, Or.inr ?_⟩ (Or.inr rfl)
      exact (if_pos hdue.2).symm
    · simp only [Submission.afterAudits, if_neg hdue]
      exact Move.finish rfl _ _ rfl rfl (quiet_audit _ _ _)

theorem handle_move (hscoped : deps.networkPassphrase.isSome = true) (x : Reply) (p : Phase) (w : World γ) :
    Move guard deps w p (handle guard deps x p w).1 (handle guard deps x p w).2 := by
  cases p with
  | received r =>
    cases hbody : submitBody r with
    | some s =>
      have hid : s.id = r.id := by
        simp only [submitBody, Option.bind_eq_bind, Option.bind_eq_some_iff] at hbody
        obtain ⟨_, -, _, -, hs⟩ := hbody
        rw [← Option.some.inj hs]
      simp only [handle, hbody]
      refine .quiet _ _ _ [] rfl (List.append_nil _).symm quiet_nil ⟨hid, fun bodies h => ?_, fun _ => rfl, Or.inl rfl⟩
        (Or.inl rfl)
      show submitBody ⟨s.id, bodies s.id⟩ = some s
      rw [hid, ← hbody, ← show r.body = bodies r.id from h]
    | none =>
      simp only [handle, hbody]
      exact .quiet _ _ _ _ rfl rfl (by simp [Event.Quiet]) (.done (s := ⟨r.id, "", ""⟩) _ rfl) (Or.inl rfl)
  | lookingUp s =>
    cases x with
    | succeeds =>
      cases hcached : w.dedup (envelopeHash s.signedXdr) with
      | some hash =>
        simp only [handle, hcached]
        exact .quiet _ _ _ _ rfl rfl (by simp [Event.Quiet]) (.done _ rfl) (Or.inl rfl)
      | none =>
        simp only [handle, hcached]
        exact lookup_move hscoped s
    | fails => exact .quiet _ _ _ _ rfl rfl (by simp [Event.Quiet]) (.done _ rfl) (Or.inl rfl)
    | lost | known | submitted | threw => exact .stay _
  | scoping s subject rest =>
    cases x with
    | known isKnown =>
      cases isKnown with
      | true =>
        cases rest <;> exact .quiet _ _ _ [] rfl (List.append_nil _).symm quiet_nil
          ⟨rfl, fun _ h => h, fun _ => rfl, Or.inl rfl⟩ (Or.inl rfl)
      | false =>
        cases hsubjects : s.subjects deps with
        | nil =>
          simp only [handle, hsubjects]
          exact .stay _
        | cons first others =>
          simp only [handle, hsubjects]
          exact .quiet _ _ _ [] rfl (List.append_nil _).symm quiet_nil
            ⟨rfl, fun _ h => h, fun _ => rfl, Or.inl rfl⟩ (Or.inl rfl)
    | fails => exact Move.finish rfl _ [] rfl (List.append_nil _).symm quiet_nil
    | succeeds | lost | submitted | threw => exact .stay _
  | rejecting s message subject rest =>
    cases x with
    | succeeds =>
      cases rest with
      | nil => exact Move.finish rfl _ _ rfl rfl (quiet_audit _ _ _)
      | cons next rest =>
        exact .quiet _ _ _ _ rfl rfl (quiet_audit _ _ _) ⟨rfl, fun _ h => h, fun _ => rfl, Or.inl rfl⟩ (Or.inl rfl)
    | fails => exact Move.finish rfl _ [] rfl (List.append_nil _).symm quiet_nil
    | lost => exact Move.finish rfl _ _ rfl rfl (quiet_audit _ _ _)
    | known | submitted | threw => exact .stay _
  | reserving s =>
    cases x with
    | succeeds =>
      cases hg : guard.reserve (s.keys deps) w.guard with
      | some g =>
        simp only [handle, hg]
        exact .reserve s g hg
      | none =>
        simp only [handle, hg]
        exact .refuse s .refused (by decide)
    | fails => exact .refuse s .threw (by decide)
    | lost | known | submitted | threw => exact .stay _
  | reserved s outcome =>
    cases outcome with
    | ok => exact .submit s
    | refused =>
      exact .quiet _ _ _ [] rfl (List.append_nil _).symm quiet_nil
        ⟨rfl, fun _ h => h, fun h => (by cases h), Or.inl rfl⟩ (Or.inl rfl)
    | threw => exact Move.finish rfl _ [] rfl (List.append_nil _).symm quiet_nil
  | auditingReplay s =>
    cases x with
    | succeeds | lost => exact Move.finish rfl _ _ rfl rfl (quiet_audit _ _ _)
    | fails => exact Move.finish rfl _ [] rfl (List.append_nil _).symm quiet_nil
    | known | submitted | threw => exact .stay _
  | submitting s =>
    cases x with
    | submitted hash =>
      exact .quiet _ _ _ _ rfl rfl (by simp [Event.Quiet]) ⟨rfl, fun _ h => h, fun h => (by cases h), Or.inl rfl⟩
        (Or.inr rfl)
    | threw error => exact .threw s error _ _
    | succeeds | fails | lost | known => exact .stay _
  | settling s hash todo rest =>
    obtain ⟨hguard, events, hlog, hevents⟩ := settle_eq (w := w) s hash todo
    cases x with
    | succeeds =>
      cases rest with
      | nil => exact Move.finish rfl _ _ hguard hlog hevents
      | cons next rest =>
        exact .quiet _ _ _ _ hguard hlog hevents ⟨rfl, fun _ h => h, fun h => (by cases h), Or.inl rfl⟩ (Or.inr rfl)
    | fails =>
      exact .quiet _ _ _ [] rfl (List.append_nil _).symm quiet_nil
        ⟨rfl, fun _ h => h, fun h => (by cases h), Or.inl rfl⟩ (Or.inr rfl)
    | lost =>
      exact .quiet _ _ _ _ hguard hlog hevents ⟨rfl, fun _ h => h, fun h => (by cases h), Or.inl rfl⟩ (Or.inr rfl)
    | known | submitted | threw => exact .stay _
  | failing s error subject rest =>
    cases x with
    | succeeds =>
      cases rest with
      | nil => exact afterAudits_move
      | cons next rest =>
        exact .quiet _ _ _ _ rfl rfl (quiet_audit _ _ _)
          ⟨rfl, fun _ h => h, fun h => (by cases h), Or.inr (by cases error <;> rfl)⟩ (Or.inr rfl)
    | fails => exact Move.finish rfl _ [] rfl (List.append_nil _).symm quiet_nil
    | lost => exact Move.finish rfl _ _ rfl rfl (quiet_audit _ _ _)
    | known | submitted | threw => exact .stay _
  | releasing s code message keys =>
    cases x with
    | succeeds =>
      cases hrest : (guard.releaseNext keys w.guard).1 with
      | nil =>
        simp only [handle, hrest]
        exact .release s code message keys _ _ _ rfl rfl (by simp [Event.Quiet]) (.done _ rfl) (Or.inl rfl)
      | cons next rest =>
        simp only [handle, hrest]
        exact .release s code message keys _ _ [] rfl (List.append_nil _).symm quiet_nil
          ⟨rfl, fun _ h => h, fun h => (by cases h), Or.inr rfl⟩ (Or.inr hrest.symm)
    | fails => exact Move.finish rfl _ [] rfl (List.append_nil _).symm quiet_nil
    | lost => exact .release s code message keys _ _ _ rfl rfl (by simp [Event.Quiet]) (.done _ rfl) (Or.inl rfl)
    | known | submitted | threw => exact .stay _
  | done => exact .stay _

/-! ## The invariant -/

/-- Submitted, and not failed by a releasable code. -/
def Live (log : List Event) (i : ℕ) : Prop :=
  .submit i ∈ log ∧ ∀ code ∈ RELEASABLE_SUBMISSION_CODES, .threw i (some code) ∉ log

/-- What holds of the shared state. -/
structure Sound (guard : ReplayGuard γ) (deps : SubmitDeps) (bodies : ℕ → Json) (w : World γ) : Prop where
  live : ∀ i, Live w.log i → ∀ pair, Carries (envelopeOf deps bodies i) pair → guard.IsReserved w.guard pair
  once : SubmittedOnce deps bodies w.log
  refused : ∀ i, .reserve i false ∈ w.log → .submit i ∉ w.log

/-- What holds of a request: what it holds is reserved, is its own, and is no live submission's. -/
structure Keeps (guard : ReplayGuard γ) (deps : SubmitDeps) (bodies : ℕ → Json) (w : World γ) (p : Phase) : Prop where
  of : p.Of bodies
  nodup : ((p.held deps).map ReplayKey.toAuthNonce).Nodup
  reserved : ∀ pair, p.Holds deps pair → guard.IsReserved w.guard pair
  apart : ∀ i, i ≠ p.id → Live w.log i → ∀ pair, p.Holds deps pair → ¬ Carries (envelopeOf deps bodies i) pair
  early : p.early = true → .submit p.id ∉ w.log ∧ .reserve p.id false ∉ w.log
  due : ∀ code, p.due = some code → code ∈ RELEASABLE_SUBMISSION_CODES ∧ .threw p.id (some code) ∈ w.log

/-- Requests are told apart, and hold different pairs. -/
def Apart (deps : SubmitDeps) (p q : Phase) : Prop := p.id ≠ q.id ∧ ∀ pair, p.Holds deps pair → ¬ q.Holds deps pair

/-- Quiet events change nothing the invariant reads. -/
theorem mem_quiet {log events : List Event} (hevents : ∀ e ∈ events, e.Quiet) {e : Event} (he : ¬ e.Quiet) :
    e ∈ log ++ events ↔ e ∈ log := by
  rw [List.mem_append]
  exact ⟨fun h => h.resolve_right fun h' => he (hevents e h'), Or.inl⟩

theorem live_quiet {log events : List Event} (hevents : ∀ e ∈ events, e.Quiet) {i : ℕ} :
    Live (log ++ events) i ↔ Live log i := by
  unfold Live
  rw [mem_quiet hevents (e := .submit i) (fun h => h)]
  refine and_congr_right fun _ => forall₂_congr fun code _ => ?_
  rw [mem_quiet hevents (e := .threw i (some code)) (fun h => h)]

theorem refused_quiet {log events : List Event} (hevents : ∀ e ∈ events, e.Quiet)
    (h : ∀ i, .reserve i false ∈ log → .submit i ∉ log) :
    ∀ i, .reserve i false ∈ log ++ events → .submit i ∉ log ++ events := by
  intro i hi
  rw [mem_quiet hevents (e := .reserve i false) (fun h => h)] at hi
  rw [mem_quiet hevents (e := .submit i) (fun h => h)]
  exact h i hi

theorem SubmittedOnce.snoc {log : List Event} (h : SubmittedOnce deps bodies log) {e : Event}
    (he : ∀ j, e = .submit j → .submit j ∉ log ∧ ∀ pair, Carries (envelopeOf deps bodies j) pair →
      ∀ i, .submit i ∈ log → Carries (envelopeOf deps bodies i) pair →
        ∃ code ∈ RELEASABLE_SUBMISSION_CODES, .threw i (some code) ∈ log) :
    SubmittedOnce deps bodies (log ++ [e]) := by
  intro pair before j after heq hpair
  rcases List.eq_nil_or_concat after with rfl | ⟨rest, last, rfl⟩
  · obtain ⟨rfl, hlast⟩ := List.append_inj' heq rfl
    obtain ⟨hnew, hearlier⟩ := he j (List.cons.inj hlast).1
    exact ⟨hnew, hearlier pair hpair⟩
  · have hsplit : log ++ [e] = (before ++ .submit j :: rest) ++ [last] := by
      rw [heq]
      simp
    exact h pair before j rest (List.append_inj' hsplit rfl).1 hpair

theorem SubmittedOnce.append {log events : List Event} (h : SubmittedOnce deps bodies log)
    (hevents : ∀ i, .submit i ∉ events) : SubmittedOnce deps bodies (log ++ events) := by
  induction events generalizing log with
  | nil => rwa [List.append_nil]
  | cons e events ih =>
    rw [List.append_cons]
    refine ih (h.snoc fun i hi => ?_) fun i hi => hevents i (List.mem_cons_of_mem _ hi)
    exact absurd (hi ▸ List.mem_cons_self) (hevents i)

/-- The keys of a request are the pairs of its envelope. -/
theorem exists_key_iff {s : Submission} (hs : submitBody ⟨s.id, bodies s.id⟩ = some s) {pair : AuthNonce} :
    (∃ k ∈ s.keys deps, k.toAuthNonce = pair) ↔ Carries (envelopeOf deps bodies s.id) pair := by
  have henvelope : envelopeOf deps bodies s.id = deps.parsed s.signedXdr := by
    rw [envelopeOf, hs, Option.bind_some]
  rw [henvelope]
  exact mem_extractReplayKeys

theorem Live.mono {log : List Event} {i : ℕ} (events : List Event) (h : Live (log ++ events) i) (hi : .submit i ∉ events) :
    Live log i :=
  ⟨(List.mem_append.mp h.1).resolve_right hi, fun code hcode hmem => h.2 code hcode (List.mem_append_left _ hmem)⟩

/-- A request past a releasable failure is not live. -/
theorem Keeps.not_live (h : Keeps guard deps bodies w p) {code : String} (hdue : p.due = some code) :
    ¬ Live w.log p.id := by
  obtain ⟨hcode, hthrew⟩ := h.due code hdue
  exact fun hlive => hlive.2 code hcode hthrew

/-- What a request holds after a step it held before, or the step has reserved it. -/
theorem Move.holds_cases (h : Move guard deps w p p' w') {pair : AuthNonce} (hpair : p'.Holds deps pair) :
    p.Holds deps pair ∨ (¬ guard.IsReserved w.guard pair ∧ guard.IsReserved w'.guard pair) := by
  obtain ⟨k, hk, rfl⟩ := hpair
  cases h with
  | quiet _ _ _ events hguard hlog hevents hfollows hheld =>
    rcases hheld with hheld | hheld <;> rw [hheld] at hk
    · cases hk
    · exact Or.inl ⟨k, hk, rfl⟩
  | reserve s g hg =>
    exact Or.inr ⟨guard.fresh_of_reserve hg k hk, (guard.isReserved_reserve hg _).mpr (Or.inr ⟨k, hk, rfl⟩)⟩
  | refuse s outcome houtcome =>
    cases outcome with
    | ok => exact absurd rfl houtcome
    | refused | threw => cases hk
  | submit | threw => exact Or.inl ⟨k, hk, rfl⟩
  | release s code message keys _ _ events hguard hlog hevents hfollows hheld =>
    rcases hheld with hheld | hheld <;> rw [hheld] at hk
    · cases hk
    · exact Or.inl ⟨k, (guard.rest_suffix keys w.guard).subset hk, rfl⟩

/-- A step unreserves only what the request holds, and only where a release is due. -/
theorem Move.isReserved (h : Move guard deps w p p' w') (hp : Keeps guard deps bodies w p) {pair : AuthNonce}
    (hpair : guard.IsReserved w.guard pair) :
    guard.IsReserved w'.guard pair ∨ (p.Holds deps pair ∧ ¬ p'.Holds deps pair ∧ ¬ Live w.log p.id) := by
  cases h with
  | quiet _ _ _ events hguard =>
    rw [hguard]
    exact Or.inl hpair
  | reserve s g hg => exact Or.inl ((guard.isReserved_reserve hg pair).mpr (Or.inl hpair))
  | refuse | submit | threw => exact Or.inl hpair
  | release s code message keys _ _ events hguard hlog hevents hfollows hheld =>
    by_cases hgone : ∃ k ∈ keys, k ∉ (guard.releaseNext keys w.guard).1 ∧ k.toAuthNonce = pair
    · obtain ⟨k, hk, hrest, rfl⟩ := hgone
      refine Or.inr ⟨⟨k, hk, rfl⟩, ?_, hp.not_live rfl⟩
      rintro ⟨k', hk', heq⟩
      rcases hheld with hheld | hheld <;> rw [hheld] at hk'
      · cases hk'
      · have hmem := (guard.rest_suffix keys w.guard).subset hk'
        rw [List.inj_on_of_nodup_map hp.nodup hmem hk heq] at hk'
        exact hrest hk'
    · push Not at hgone
      rw [hguard]
      exact Or.inl (guard.isReserved_release hp.nodup pair hpair hgone)

def Event.request : Event → ℕ
  | .reserve i _ | .submit i | .submitted i _ | .threw i _ | .audit i _ _ | .answered i _ => i

/-- The events of a step that are not quiet are the request's own. -/
theorem Move.log_eq (h : Move guard deps w p p' w') :
    ∃ events, w'.log = w.log ++ events ∧ ∀ e ∈ events, e.Quiet ∨ e.request = p.id := by
  cases h with
  | quiet _ _ _ events hguard hlog hevents => exact ⟨events, hlog, fun e he => Or.inl (hevents e he)⟩
  | release s code message keys _ _ events hguard hlog hevents => exact ⟨events, hlog, fun e he => Or.inl (hevents e he)⟩
  | reserve | refuse | submit | threw =>
    refine ⟨_, rfl, fun e he => Or.inr ?_⟩
    rw [List.mem_singleton.mp he]
    rfl

/-- Only the call of the submitter makes a request live. -/
theorem Move.live (h : Move guard deps w p p' w') {i : ℕ} (hlive : Live w'.log i) :
    Live w.log i ∨ ∃ s, p = .reserved s .ok ∧ i = s.id := by
  cases h with
  | quiet _ _ _ events hguard hlog hevents =>
    rw [hlog] at hlive
    exact Or.inl ((live_quiet hevents).mp hlive)
  | release s code message keys _ _ events hguard hlog hevents =>
    rw [hlog] at hlive
    exact Or.inl ((live_quiet hevents).mp hlive)
  | reserve | refuse | threw => exact Or.inl (Live.mono [_] hlive (by simp))
  | submit s =>
    by_cases hi : i = s.id
    · exact Or.inr ⟨s, rfl, hi⟩
    · exact Or.inl (Live.mono [_] hlive (by simpa using hi))

theorem Move.id_eq (h : Move guard deps w p p' w') : p'.id = p.id := by
  cases h with
  | quiet _ _ _ events hguard hlog hevents hfollows => exact hfollows.id
  | release s code message keys _ _ events hguard hlog hevents hfollows => exact hfollows.id
  | reserve | refuse | submit | threw => rfl

theorem Move.sound (h : Move guard deps w p p' w') (hw : Sound guard deps bodies w)
    (hp : Keeps guard deps bodies w p) : Sound guard deps bodies w' := by
  have hlive : ∀ i, Live w'.log i → ∀ pair, Carries (envelopeOf deps bodies i) pair →
      guard.IsReserved w'.guard pair := by
    intro i hi pair hpair
    have hreserved : guard.IsReserved w.guard pair := by
      rcases h.live hi with hi | ⟨s, rfl, rfl⟩
      · exact hw.live i hi pair hpair
      · exact hp.reserved pair ((exists_key_iff hp.of).mpr hpair)
    rcases h.isReserved hp hreserved with hkept | ⟨hholds, -, hnot⟩
    · exact hkept
    · rcases h.live hi with hi | ⟨s, rfl, rfl⟩
      · have hne : i ≠ p.id := by
          rintro rfl
          exact hnot hi
        exact absurd hpair (hp.apart i hne hi pair hholds)
      · cases h with
        | quiet _ _ _ events hguard =>
          rw [hguard]
          exact hreserved
        | submit => exact hreserved
  cases h with
  | quiet _ _ _ events hguard hlog hevents hfollows hheld =>
    refine ⟨hlive, ?_, ?_⟩
    · rw [hlog]
      exact hw.once.append fun i hi => hevents _ hi
    · rw [hlog]
      exact refused_quiet hevents hw.refused
  | release s code message keys _ _ events hguard hlog hevents hfollows hheld =>
    refine ⟨hlive, ?_, ?_⟩
    · rw [hlog]
      exact hw.once.append fun i hi => hevents _ hi
    · rw [hlog]
      exact refused_quiet hevents hw.refused
  | reserve s g hg =>
    refine ⟨hlive, hw.once.append (by simp), fun i hi => ?_⟩
    have hi : .reserve i false ∈ w.log := by simpa [World.add] using hi
    simpa [World.add] using hw.refused i hi
  | refuse s outcome houtcome =>
    refine ⟨hlive, hw.once.append (by simp), fun i hi => ?_⟩
    have hi : .reserve i false ∈ w.log ∨ i = s.id := by simpa [World.add] using hi
    have hnot : .submit i ∉ w.log := by
      rcases hi with hi | rfl
      · exact hw.refused i hi
      · exact (hp.early rfl).1
    simpa [World.add] using hnot
  | threw s error subject rest =>
    refine ⟨hlive, hw.once.append (by simp), fun i hi => ?_⟩
    have hi : .reserve i false ∈ w.log := by simpa [World.add] using hi
    simpa [World.add] using hw.refused i hi
  | submit s =>
    obtain ⟨hnew, hunrefused⟩ := hp.early rfl
    refine ⟨hlive, hw.once.snoc fun j hj => ?_, fun i hi => ?_⟩
    · obtain rfl := Event.submit.inj hj
      refine ⟨hnew, fun pair hpair i hi hcarries => ?_⟩
      by_contra hno
      push Not at hno
      have hne : i ≠ s.id := by
        rintro rfl
        exact hnew hi
      exact hp.apart i hne ⟨hi, hno⟩ pair ((exists_key_iff hp.of).mpr hpair) hcarries
    · have hi : .reserve i false ∈ w.log := by simpa [World.add] using hi
      have hne : i ≠ s.id := by
        rintro rfl
        exact hunrefused hi
      simpa [World.add, hne] using hw.refused i hi

theorem Move.of (h : Move guard deps w p p' w') (hp : p.Of bodies) : p'.Of bodies := by
  cases h with
  | quiet _ _ _ events hguard hlog hevents hfollows => exact hfollows.of bodies hp
  | release s code message keys _ _ events hguard hlog hevents hfollows => exact hfollows.of bodies hp
  | reserve | refuse | submit | threw => exact hp

theorem Move.nodup (h : Move guard deps w p p' w') (hp : ((p.held deps).map ReplayKey.toAuthNonce).Nodup) :
    ((p'.held deps).map ReplayKey.toAuthNonce).Nodup := by
  cases h with
  | quiet _ _ _ events hguard hlog hevents hfollows hheld =>
    rcases hheld with hheld | hheld <;> rw [hheld]
    · exact List.nodup_nil
    · exact hp
  | reserve s g hg => exact nodup_extractReplayKeys _
  | refuse s outcome houtcome =>
    cases outcome with
    | ok => exact absurd rfl houtcome
    | refused | threw => exact List.nodup_nil
  | submit | threw => exact hp
  | release s code message keys _ _ events hguard hlog hevents hfollows hheld =>
    rcases hheld with hheld | hheld <;> rw [hheld]
    · exact List.nodup_nil
    · exact hp.sublist ((guard.rest_suffix keys w.guard).sublist.map _)

theorem Move.early (h : Move guard deps w p p' w')
    (hp : p.early = true → .submit p.id ∉ w.log ∧ .reserve p.id false ∉ w.log) :
    p'.early = true → .submit p'.id ∉ w'.log ∧ .reserve p'.id false ∉ w'.log := by
  intro hearly
  cases h with
  | quiet _ _ _ events hguard hlog hevents hfollows hheld =>
    obtain ⟨hsubmit, hreserve⟩ := hp (hfollows.early hearly)
    rw [hlog, hfollows.id, mem_quiet hevents (e := .submit _) (fun h => h),
      mem_quiet hevents (e := .reserve _ _) (fun h => h)]
    exact ⟨hsubmit, hreserve⟩
  | reserve s g hg => simpa [World.add, Phase.id] using hp rfl
  | refuse s outcome houtcome =>
    cases outcome with
    | ok => exact absurd rfl houtcome
    | refused | threw => cases hearly
  | submit | threw => cases hearly
  | release s code message keys _ _ events hguard hlog hevents hfollows hheld => 
    cases hfollows.early hearly

theorem Move.due (h : Move guard deps w p p' w')
    (hp : ∀ code, p.due = some code → code ∈ RELEASABLE_SUBMISSION_CODES ∧ .threw p.id (some code) ∈ w.log) :
    ∀ code, p'.due = some code → code ∈ RELEASABLE_SUBMISSION_CODES ∧ .threw p'.id (some code) ∈ w'.log := by
  have hfollow : ∀ events, w'.log = w.log ++ events → Follows deps p p' → ∀ code, p'.due = some code →
      code ∈ RELEASABLE_SUBMISSION_CODES ∧ .threw p'.id (some code) ∈ w'.log := by
    intro events hlog hfollows code hdue
    rcases hfollows.due with hnone | hsame
    · rw [hnone] at hdue
      cases hdue
    · obtain ⟨hcode, hthrew⟩ := hp code (hsame ▸ hdue)
      rw [hlog, hfollows.id]
      exact ⟨hcode, List.mem_append_left _ hthrew⟩
  cases h with
  | quiet _ _ _ events hguard hlog hevents hfollows => exact hfollow events hlog hfollows
  | release s code message keys _ _ events hguard hlog hevents hfollows => exact hfollow events hlog hfollows
  | reserve | refuse | submit => exact fun code hdue => by cases hdue
  | threw s error subject rest =>
    intro code hdue
    cases error with
    | none => cases hdue
    | some failure =>
      obtain ⟨hcode, hsame⟩ := Option.ite_none_right_eq_some.mp
        (show (if failure.1 ∈ RELEASABLE_SUBMISSION_CODES then some failure.1 else none) = some code from hdue)
      obtain rfl := Option.some.inj hsame
      exact ⟨hcode, by simp [World.add, Phase.id]⟩

theorem Move.keeps (h : Move guard deps w p p' w') (hw : Sound guard deps bodies w)
    (hp : Keeps guard deps bodies w p) : Keeps guard deps bodies w' p' where
  of := h.of hp.of
  nodup := h.nodup hp.nodup
  reserved pair hpair := by
    rcases h.holds_cases hpair with hbefore | ⟨-, hafter⟩
    · exact (h.isReserved hp (hp.reserved pair hbefore)).resolve_right fun hgone => hgone.2.1 hpair
    · exact hafter
  apart i hi hlive pair hpair hcarries := by
    rw [h.id_eq] at hi
    rcases h.live hlive with hlive | ⟨s, rfl, rfl⟩
    · rcases h.holds_cases hpair with hbefore | ⟨hfree, -⟩
      · exact hp.apart i hi hlive pair hbefore hcarries
      · exact hfree (hw.live i hlive pair hcarries)
    · exact hi rfl
  early := h.early hp.early
  due := h.due hp.due

/-- Another request notices nothing of a step: its pairs stay reserved and apart, and the events are not its own. -/
theorem Move.keeps_other {q : Phase} (h : Move guard deps w p p' w') (hp : Keeps guard deps bodies w p)
    (hq : Keeps guard deps bodies w q) (hapart : Apart deps p q) : Keeps guard deps bodies w' q where
  of := hq.of
  nodup := hq.nodup
  reserved pair hpair :=
    (h.isReserved hp (hq.reserved pair hpair)).resolve_right fun hgone => hapart.2 pair hgone.1 hpair
  apart i hi hlive pair hpair hcarries := by
    rcases h.live hlive with hlive | ⟨s, rfl, rfl⟩
    · exact hq.apart i hi hlive pair hpair hcarries
    · exact hapart.2 pair ((exists_key_iff hp.of).mpr hcarries) hpair
  early hearly := by
    obtain ⟨events, hlog, hevents⟩ := h.log_eq
    obtain ⟨hsubmit, hreserve⟩ := hq.early hearly
    rw [hlog]
    refine ⟨fun hmem => ?_, fun hmem => ?_⟩
    · rcases List.mem_append.mp hmem with hmem | hmem
      · exact hsubmit hmem
      · exact hapart.1 ((hevents _ hmem).resolve_left (fun h => h)).symm
    · rcases List.mem_append.mp hmem with hmem | hmem
      · exact hreserve hmem
      · exact hapart.1 ((hevents _ hmem).resolve_left (fun h => h)).symm
  due code hdue := by
    obtain ⟨events, hlog, -⟩ := h.log_eq
    obtain ⟨hcode, hthrew⟩ := hq.due code hdue
    exact ⟨hcode, by rw [hlog]; exact List.mem_append_left _ hthrew⟩

theorem Move.apart {q : Phase} (h : Move guard deps w p p' w') (hq : Keeps guard deps bodies w q)
    (hapart : Apart deps p q) : Apart deps p' q := by
  refine ⟨by rw [h.id_eq]; exact hapart.1, fun pair hpair hholds => ?_⟩
  rcases h.holds_cases hpair with hbefore | ⟨hfree, -⟩
  · exact hapart.2 pair hbefore hholds
  · exact hfree (hq.reserved pair hholds)

variable (guard bodies) in
theorem handle_stable (hscoped : deps.networkPassphrase.isSome = true) :
    Stable (handle guard deps) (fun _ _ _ => True) (Sound guard deps bodies) (Keeps guard deps bodies) (Apart deps) where
  symm _ _ h := ⟨h.1.symm, fun pair hq hp => h.2 pair hp hq⟩
  shared x p w _ hw hp := (handle_move hscoped x p w).sound hw hp
  own x p w _ hw hp := (handle_move hscoped x p w).keeps hw hp
  other x p w _ _ _ hp hq hapart := (handle_move hscoped x p w).keeps_other hp hq hapart
  apart x p w _ _ _ _ hq hapart := (handle_move hscoped x p w).apart hq hapart

/-- A step that logs a refusal leaves the guard. -/
theorem Move.guard_eq_of_refused (h : Move guard deps w p p' w') {i : ℕ}
    (hlog : w'.log = w.log ++ [.reserve i false]) : w'.guard = w.guard := by
  cases h with
  | quiet _ _ _ events hguard => exact hguard
  | reserve s g hg =>
    have heq := List.append_cancel_left (show w.log ++ [Event.reserve s.id true] = w.log ++ [.reserve i false] from hlog)
    cases heq
  | refuse | submit | threw => rfl
  | release s code message keys _ _ events hguard hlog' hevents =>
    rw [hlog'] at hlog
    have hmem : Event.reserve i false ∈ events := by
      rw [List.append_cancel_left hlog]
      exact List.mem_singleton_self _
    exact absurd (hevents _ hmem) (fun h => h)

end Steps

/-! ## Runs -/

section Free

variable {γ : Type} {guard : ReplayGuard γ} {deps : SubmitDeps} {bodies : ℕ → Json} {g : γ}
  {dedup : String → Option String} {inFlight : String → ℕ}

variable (guard deps bodies g dedup inFlight) in
theorem inv_begin : Processes.Inv (Sound guard deps bodies) (Keeps guard deps bodies) (Apart deps)
    (begin bodies g dedup inFlight) where
  shared := by
    refine ⟨fun i hi => ?_, fun pair before j after h => ?_, fun i hi => ?_⟩
    · cases hi.1
    · simp [begin] at h
    · cases hi
  own i := by
    refine ⟨rfl, List.nodup_nil, ?_, ?_, fun _ => ⟨List.not_mem_nil, List.not_mem_nil⟩, fun code h => by cases h⟩
    · rintro pair ⟨k, hk, -⟩
      cases hk
    · intro j _ hlive
      cases hlive.1
  apart i j hij := by
    refine ⟨hij, ?_⟩
    rintro pair ⟨k, hk, -⟩
    cases hk

/-- **Sponsored submissions are replay-free under any interleaving**: whatever the requests, the answers and the
schedule, over either guard. -/
theorem replay_free (hscoped : deps.networkPassphrase.isSome = true) (schedule : List (ℕ × Reply)) :
    ReplayFree guard deps bodies (begin bodies g dedup inFlight) schedule := by
  have hinv := (handle_stable guard bodies hscoped).inv_upto (inv_begin guard deps bodies g dedup inFlight)
    (along_true (l := schedule))
  have hend := (hinv schedule (List.prefix_refl _)).shared
  refine ⟨hend.once, hend.refused, fun earlier a i _ hlog => ?_⟩
  unfold reached at hlog ⊢
  rw [run_snoc] at hlog ⊢
  exact (handle_move hscoped a.2 _ _).guard_eq_of_refused hlog

end Free

/-! Two envelopes around one authorization. -/

def walletAddress : Soroban.Address := ⟨"CDLZFC3SYJYDZT7K67VZ75HPJVIEUVNIXF47ZG2FB2RMQQVU2HHGCYSC"⟩

def rewrapped : SubmitDeps where
  networkPassphrase := some "Test SDF Network ; September 2015"
  fromXDR signedXdr _ :=
    if signedXdr = "AAAA" then some (.transaction [.invokeHostFunction (some [.addressV2 ⟨walletAddress, 7, 100⟩])])
    else if signedXdr = "BBBB" then
      some (.transaction [.invokeHostFunction (some [.sourceAccount, .addressV2 ⟨walletAddress, 7, 100⟩])])
    else none

def signedBodies (i : ℕ) : Json :=
  .obj [("signedXdr", .str (if i = 0 then "AAAA" else "BBBB")), ("network", .str "testnet")]

/-- Both reserve before either is submitted. -/
def raceForPair : List (ℕ × Reply) :=
  [(0, .succeeds), (1, .succeeds), (0, .succeeds), (1, .succeeds), (0, .known true), (1, .known true), (0, .succeeds),
    (1, .succeeds), (0, .succeeds), (1, .succeeds)]

example :
    (reached createMemoryReplayGuard rewrapped (begin signedBodies [] (fun _ => none) fun _ => 0)
      raceForPair).shared.log = [.reserve 0 true, .reserve 1 false, .submit 0] := by decide

theorem replay_free_rewrapped :
    ReplayFree createMemoryReplayGuard rewrapped signedBodies (begin signedBodies [] (fun _ => none) fun _ => 0)
      raceForPair ∧
    ReplayFree (createPgReplayGuard "testnet") rewrapped signedBodies
      (begin signedBodies Table.empty (fun _ => none) fun _ => 0) raceForPair :=
  ⟨replay_free rfl raceForPair, replay_free rfl raceForPair⟩

end Vellar.Wallet
