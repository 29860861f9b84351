import Vellar.Lib.Processes
import Vellar.Wallet.ReplayFree
import Vellar.Wallet.Sessions

/-!
# Vellar.Wallet.Rotation — key rotation beside submissions

`POST /wallet/key/rotate` of `services/wallet-service/src/server.ts` and the in-flight tracker of `in-flight.ts`, beside any
number of `POST /wallet/submit` requests.  The tracker is asked before the audit event is handed over and not again, so a
submission may start while it is written; `rotation_safe_iff` has the runs in which none does.
-/

set_option autoImplicit false

namespace Vellar.Wallet.Rotation

open Machine Processes
open Sessions (SessionRecord)

/-- `hasInFlight` -/
def hasInFlight (inFlight : String → ℕ) (walletId : String) : Bool := 0 < inFlight walletId

/-- The audit logs: `createMemoryAuditLog` has the event when `record` is called, `createPgAuditLog` sends an insert. -/
inductive AuditLog where
  | memory
  | postgres
deriving DecidableEq

/-- The data of a `key.rotated` event; its actor is the wallet. -/
structure KeyRotated where
  contractId : String
  oldKeyId : String
  newKeyId : String
  network : String
deriving DecidableEq

inductive Response where
  | rotated (newKeyId : String)
  | refused (code : ℕ) (error message : String)
  /-- The handler threw. -/
  | thrown
deriving DecidableEq

/-- What a rotation awaits. -/
inductive RotatePhase where
  /-- `resolveSessionCapability` -/
  | authorizing (body : Json)
  /-- The insert of the event is on its way. -/
  | writing (event : KeyRotated)
  /-- The event is written, `record` has not returned. -/
  | written (event : KeyRotated)
  | done (response : Response)

inductive Proc where
  | submit (p : Phase)
  | rotate (p : RotatePhase)

inductive Input where
  | reply (x : Reply)
  /-- What `resolveSessionCapability` finds. -/
  | session (found : Option SessionRecord)
  /-- The insert takes effect. -/
  | lands
  | returns
  | throws

structure Shared (γ : Type) where
  world : World γ
  /-- The `key.rotated` events of the audit log. -/
  rotated : List KeyRotated

/-- The body of a rotation: both ids, neither empty. -/
def rotateBody (body : Json) : Option (String × String) := do
  let oldKeyId ← ((body.get? "oldKeyId").bind Json.str?).filter (· ≠ "")
  let newKeyId ← ((body.get? "newKeyId").bind Json.str?).filter (· ≠ "")
  some (oldKeyId, newKeyId)

section Handler

variable {γ : Type} (audit : AuditLog) (guard : ReplayGuard γ) (deps : SubmitDeps)

/-- From the session to the call of `audit.record`. -/
def afterSession (session : SessionRecord) (body : Json) (s : Shared γ) : RotatePhase × Shared γ :=
  if hasInFlight s.world.inFlight session.contractId then
    (.done (.refused 409 "in_flight_submission_conflict"
      "Cannot rotate key while a transaction submission is in flight for this wallet."), s)
  else
    match rotateBody body with
    | none => (.done (.refused 400 "invalid_body" ""), s)
    | some (oldKeyId, newKeyId) =>
      let event : KeyRotated := ⟨session.contractId, oldKeyId, newKeyId, session.network⟩
      match audit with
      | .memory => (.written event, { s with rotated := s.rotated ++ [event] })
      | .postgres => (.writing event, s)

/-- One step of a rotation. -/
def rotate (x : Input) (p : RotatePhase) (s : Shared γ) : RotatePhase × Shared γ :=
  match p, x with
  | .authorizing _, .session none => (.done (.refused 401 "unauthorized" ""), s)
  | .authorizing body, .session (some session) => afterSession audit session body s
  | .writing event, .lands => (.written event, { s with rotated := s.rotated ++ [event] })
  | .written event, .returns => (.done (.rotated event.newKeyId), s)
  | .authorizing _, .throws | .writing _, .throws | .written _, .throws => (.done .thrown, s)
  | _, _ => (p, s)

/-- One step of a request. -/
def exec (x : Input) (p : Proc) (s : Shared γ) : Proc × Shared γ :=
  match p with
  | .submit p =>
    match x with
    | .reply x => (.submit (handle guard deps x p s.world).1, { s with world := (handle guard deps x p s.world).2 })
    | _ => (.submit p, s)
  | .rotate p => (.rotate (rotate audit x p s).1, (rotate audit x p s).2)

/-- The wallets a submission is in flight for. -/
def inFlightOf : Phase → List String
  | .received _ | .lookingUp _ | .done _ _ => []
  | .scoping s _ _ | .rejecting s _ _ _ | .reserving s | .reserved s _ | .auditingReplay s | .submitting s
  | .settling s _ _ _ | .failing s _ _ _ | .releasing s _ _ _ => s.subjects deps

def Proc.inFlight : Proc → List String
  | .submit p => inFlightOf deps p
  | .rotate _ => []

/-- A rotation that was let through and whose event is not in the log. -/
def Proc.Pending (walletId : String) (p : Proc) : Prop :=
  ∃ event : KeyRotated, p = .rotate (.writing event) ∧ event.contractId = walletId

end Handler

/-! ## What is promised -/

/-- A request before its first step, with its body. -/
inductive Arrival where
  | submit (body : Json)
  | rotate (body : Json)

def Arrival.proc (i : ℕ) : Arrival → Proc
  | .submit body => .submit (.received ⟨i, body⟩)
  | .rotate body => .rotate (.authorizing body)

section Runs

variable {γ : Type} (audit : AuditLog) (guard : ReplayGuard γ) (deps : SubmitDeps)

/-- A fresh service: nothing in flight. -/
def opened (arrivals : ℕ → Arrival) (g : γ) (dedup : String → Option String) : Config (Shared γ) Proc where
  shared := ⟨⟨g, dedup, fun _ => 0, []⟩, []⟩
  procs i := (arrivals i).proc i

def after (c : Config (Shared γ) Proc) (schedule : List (ℕ × Input)) : Config (Shared γ) Proc :=
  run (step (exec audit guard deps)) c schedule

/-- What the tracker is there for, in one run. -/
structure RotationSafe (c : Config (Shared γ) Proc) (schedule : List (ℕ × Input)) : Prop where
  /-- No event of a wallet is written while a submission is in flight for it. -/
  written : ∀ earlier a event, earlier ++ [a] <+: schedule →
    (after audit guard deps c (earlier ++ [a])).shared.rotated = (after audit guard deps c earlier).shared.rotated ++ [event] →
      ∀ i, event.contractId ∉ ((after audit guard deps c earlier).procs i).inFlight deps
  /-- None starts between a rotation's check and its event. -/
  starts : ∀ earlier a walletId, earlier ++ [a] <+: schedule →
    walletId ∉ ((after audit guard deps c earlier).procs a.1).inFlight deps →
    walletId ∈ ((after audit guard deps c (earlier ++ [a])).procs a.1).inFlight deps →
      ∀ j, ¬ ((after audit guard deps c earlier).procs j).Pending walletId
  /-- When every submission has ended, nothing is in flight. -/
  clear : ∀ earlier, earlier <+: schedule → (∀ i, ((after audit guard deps c earlier).procs i).inFlight deps = []) →
    ∀ walletId, hasInFlight (after audit guard deps c earlier).shared.world.inFlight walletId = false

/-- The lookup of a submission for the wallet is answered, with no result remembered. -/
def Starts (x : Input) (p : Proc) (w : World γ) (walletId : String) : Prop :=
  ∃ s, p = .submit (.lookingUp s) ∧ x = .reply .succeeds ∧ w.dedup (envelopeHash s.signedXdr) = none ∧
    walletId ∈ s.subjects deps

/-- No submission starts for a wallet whose rotation is being written. -/
def Undisturbed (c : Config (Shared γ) Proc) (a : ℕ × Input) : Prop :=
  ∀ walletId, Starts deps a.2 (c.procs a.1) c.shared.world walletId → ∀ j, ¬ (c.procs j).Pending walletId

end Runs

/-! ## What a submission does to the tracker -/

section Tracker

variable {γ : Type} {guard : ReplayGuard γ} {deps : SubmitDeps} {w : World γ} {p : Phase} {s : Submission}
  {x : Reply}

theorem foldl_start (l : List String) (inFlight : String → ℕ) (walletId : String) :
    l.foldl start inFlight walletId = inFlight walletId + l.count walletId := by
  induction l generalizing inFlight with
  | nil => rfl
  | cons subject l ih =>
    rw [List.foldl_cons, ih, start, List.count_cons]
    by_cases h : subject = walletId
    · rw [h, Function.update_self, beq_self_eq_true, if_pos rfl]
      omega
    · rw [Function.update_of_ne (Ne.symm h), beq_eq_false_iff_ne.mpr h, if_neg Bool.false_ne_true, Nat.add_zero]

theorem foldl_release (l : List String) (inFlight : String → ℕ) (walletId : String) :
    l.foldl release inFlight walletId = inFlight walletId - l.count walletId := by
  induction l generalizing inFlight with
  | nil => rfl
  | cons subject l ih =>
    rw [List.foldl_cons, ih, release, List.count_cons]
    by_cases h : subject = walletId
    · rw [h, Function.update_self, beq_self_eq_true, if_pos rfl]
      omega
    · rw [Function.update_of_ne (Ne.symm h), beq_eq_false_iff_ne.mpr h, if_neg Bool.false_ne_true, Nat.add_zero]

/-- What a step of a submission does to the tracker. -/
inductive Tracked (deps : SubmitDeps) (x : Reply) (w : World γ) (p p' : Phase) (w' : World γ) : Prop where
  | keeps (hp : inFlightOf deps p' = inFlightOf deps p) (hw : w'.inFlight = w.inFlight)
  | starts (s : Submission) (hp : p = .lookingUp s) (hx : x = .succeeds) (hdedup : w.dedup (envelopeHash s.signedXdr) = none)
      (hp' : inFlightOf deps p' = s.subjects deps) (hw : w'.inFlight = (s.subjects deps).foldl start w.inFlight)
  | finishes (hp' : inFlightOf deps p' = []) (hw : w'.inFlight = (inFlightOf deps p).foldl release w.inFlight)

theorem Tracked.stay : Tracked deps x w p p w := .keeps rfl rfl

/-- Every answer after the start goes through the `finally`. -/
theorem tracked_finish {w' : World γ} (hp : inFlightOf deps p = s.subjects deps) (hw : w'.inFlight = w.inFlight)
    (response : Wallet.Response) : Tracked deps x w p (s.finish deps response w').1 (s.finish deps response w').2 := by
  refine .finishes rfl ?_
  show (s.subjects deps).foldl release w'.inFlight = _
  rw [hw, hp]

theorem inFlight_settle (hash : String) (todo : Settle) : (settle s hash w todo).inFlight = w.inFlight := by
  cases todo <;> rfl

theorem tracked_afterAudits (error : Option (String × String)) (subject : Option String) (rest : List (Option String))
    {w' : World γ} (hw : w'.inFlight = w.inFlight) : Tracked deps x w (.failing s error subject rest)
      (s.afterAudits deps error w').1 (s.afterAudits deps error w').2 := by
  cases error with
  | none => exact tracked_finish rfl hw _
  | some failure =>
    obtain ⟨code, message⟩ := failure
    simp only [Submission.afterAudits]
    split_ifs with hdue
    · exact .keeps rfl hw
    · exact tracked_finish rfl hw _

/-- The start of a submission; one without a subject has ended at once. -/
theorem tracked_scope (hscoped : deps.networkPassphrase.isSome = true) (hdedup : w.dedup (envelopeHash s.signedXdr) = none) :
    Tracked deps .succeeds w (.lookingUp s) (s.scope deps w).1 (s.scope deps w).2 := by
  cases hsubjects : s.subjects deps with
  | nil =>
    simp only [Submission.scope, hscoped, if_true, hsubjects]
    refine .keeps rfl ?_
    show (s.subjects deps).foldl release _ = _
    rw [hsubjects]
    rfl
  | cons subject rest =>
    simp only [Submission.scope, hscoped, if_true, hsubjects]
    refine .starts s rfl rfl hdedup rfl ?_
    rw [hsubjects]

theorem handle_tracked (guard : ReplayGuard γ) (hscoped : deps.networkPassphrase.isSome = true) (x : Reply) (p : Phase)
    (w : World γ) :
    Tracked deps x w p (handle guard deps x p w).1 (handle guard deps x p w).2 := by
  cases p with
  | received r =>
    cases hbody : submitBody r with
    | some s =>
      simp only [handle, hbody]
      exact .keeps rfl rfl
    | none =>
      simp only [handle, hbody]
      exact .keeps rfl rfl
  | lookingUp s =>
    cases x with
    | succeeds =>
      cases hdedup : w.dedup (envelopeHash s.signedXdr) with
      | some hash =>
        simp only [handle, hdedup]
        exact .keeps rfl rfl
      | none =>
        simp only [handle, hdedup]
        exact tracked_scope hscoped hdedup
    | fails => exact .keeps rfl rfl
    | lost | known | submitted | threw => exact .stay
  | scoping s subject rest =>
    cases x with
    | known isKnown =>
      cases isKnown with
      | true => cases rest <;> exact .keeps rfl rfl
      | false =>
        simp only [handle]
        cases s.subjects deps <;> exact .keeps rfl rfl
    | fails => apply tracked_finish <;> rfl
    | succeeds | lost | submitted | threw => exact .stay
  | rejecting s message subject rest =>
    cases x with
    | succeeds =>
      cases rest with
      | nil => apply tracked_finish <;> rfl
      | cons next rest => exact .keeps rfl rfl
    | fails | lost => apply tracked_finish <;> rfl
    | known | submitted | threw => exact .stay
  | reserving s =>
    cases x with
    | succeeds =>
      cases hreserve : guard.reserve (s.keys deps) w.guard with
      | some g =>
        simp only [handle, hreserve]
        exact .keeps rfl rfl
      | none =>
        simp only [handle, hreserve]
        exact .keeps rfl rfl
    | fails => exact .keeps rfl rfl
    | lost | known | submitted | threw => exact .stay
  | reserved s outcome =>
    cases outcome with
    | ok | refused => exact .keeps rfl rfl
    | threw => apply tracked_finish <;> rfl
  | auditingReplay s =>
    cases x with
    | succeeds | lost | fails => apply tracked_finish <;> rfl
    | known | submitted | threw => exact .stay
  | submitting s =>
    cases x with
    | submitted hash => exact .keeps rfl rfl
    | threw error => exact .keeps rfl rfl
    | succeeds | fails | lost | known => exact .stay
  | settling s hash todo rest =>
    cases x with
    | succeeds =>
      cases rest with
      | nil => exact tracked_finish rfl (inFlight_settle hash todo) _
      | cons next rest => exact .keeps rfl (inFlight_settle hash todo)
    | fails => exact .keeps rfl rfl
    | lost => exact .keeps rfl (inFlight_settle hash todo)
    | known | submitted | threw => exact .stay
  | failing s error subject rest =>
    cases x with
    | succeeds =>
      cases rest with
      | nil => exact tracked_afterAudits error subject [] rfl
      | cons next rest => exact .keeps rfl rfl
    | fails | lost => apply tracked_finish <;> rfl
    | known | submitted | threw => exact .stay
  | releasing s code message keys =>
    cases x with
    | succeeds =>
      simp only [handle]
      cases (guard.releaseNext keys w.guard).1 with
      | nil => apply tracked_finish <;> rfl
      | cons next rest => exact .keeps rfl rfl
    | fails | lost => apply tracked_finish <;> rfl
    | known | submitted | threw => exact .stay
  | done id response => exact .stay

/-- **The tracker moves with the submissions**: by what a step adds to them or takes from them. -/
theorem Tracked.count {p' : Phase} {w' : World γ} (h : Tracked deps x w p p' w') (walletId : String)
    (hle : (inFlightOf deps p).count walletId ≤ w.inFlight walletId) :
    w'.inFlight walletId + (inFlightOf deps p).count walletId =
      w.inFlight walletId + (inFlightOf deps p').count walletId := by
  cases h with
  | keeps hp hw => rw [hp, hw]
  | starts s hp _ _ hp' hw =>
    subst hp
    rw [hw, foldl_start, hp', inFlightOf, List.count_nil, Nat.add_zero]
  | finishes hp' hw =>
    rw [hw, foldl_release, hp', List.count_nil]
    omega

end Tracker

/-! ## What a step can do -/

section Steps

variable {γ : Type} {audit : AuditLog} {guard : ReplayGuard γ} {deps : SubmitDeps} {x : Input} {p : Proc} {s : Shared γ}
  {c : Config (Shared γ) Proc}

/-- What a step of a rotation does. -/
inductive Rotated (audit : AuditLog) (s : Shared γ) (p p' : RotatePhase) (s' : Shared γ) : Prop where
  | quiet (hp' : ∀ event, p' = .writing event → p = .writing event) (hs : s' = s)
  | checked (event : KeyRotated) (haudit : audit = .postgres) (hp' : p' = .writing event) (hs : s' = s)
      (hclear : s.world.inFlight event.contractId = 0)
  | writes (event : KeyRotated) (hp' : p' = .written event) (hs : s' = { s with rotated := s.rotated ++ [event] })
      (hwhen : p = .writing event ∨ s.world.inFlight event.contractId = 0)

theorem Rotated.stay {p : RotatePhase} : Rotated audit s p p s := .quiet (fun _ h => h) rfl

theorem rotate_rotated (audit : AuditLog) (x : Input) (p : RotatePhase) (s : Shared γ) :
    Rotated audit s p (rotate audit x p s).1 (rotate audit x p s).2 := by
  have hdone : ∀ response, Rotated audit s p (.done response) s := by
    intro response
    refine .quiet (fun event hevent => ?_) rfl
    cases hevent
  cases p with
  | authorizing body =>
    cases x with
    | session found =>
      cases found with
      | none => exact hdone _
      | some session =>
        simp only [rotate, afterSession]
        by_cases hbusy : hasInFlight s.world.inFlight session.contractId = true
        · rw [if_pos hbusy]
          exact hdone _
        · have hclear : s.world.inFlight session.contractId = 0 := by simpa [hasInFlight] using hbusy
          rw [if_neg hbusy]
          cases rotateBody body with
          | none => exact hdone _
          | some ids =>
            cases audit with
            | memory => exact .writes _ rfl rfl (.inr hclear)
            | postgres => exact .checked _ rfl rfl rfl hclear
    | throws => exact hdone _
    | reply | lands | returns => exact .stay
  | writing event =>
    cases x with
    | lands => exact .writes event rfl rfl (.inl rfl)
    | throws => exact hdone _
    | reply | session | returns => exact .stay
  | written event =>
    cases x with
    | returns | throws => exact hdone _
    | reply | session | lands => exact .stay
  | done response => cases x <;> exact .stay

theorem Rotated.world {p p' : RotatePhase} {s' : Shared γ} (h : Rotated audit s p p' s') : s'.world = s.world := by
  cases h with
  | quiet _ hs | checked _ _ _ hs | writes _ _ hs => rw [hs]

/-- A rotation is in flight for nothing. -/
theorem Proc.Pending.inFlight {walletId : String} (h : p.Pending walletId) : p.inFlight deps = [] := by
  obtain ⟨event, rfl, _⟩ := h
  rfl

/-- A process moves the count of a wallet with its own share. -/
theorem exec_count (hscoped : deps.networkPassphrase.isSome = true) (x : Input) (p : Proc) (s : Shared γ) (walletId : String)
    (hle : (p.inFlight deps).count walletId ≤ s.world.inFlight walletId) :
    (exec audit guard deps x p s).2.world.inFlight walletId + (p.inFlight deps).count walletId =
      s.world.inFlight walletId + ((exec audit guard deps x p s).1.inFlight deps).count walletId := by
  cases p with
  | submit p =>
    cases x with
    | reply x => exact (handle_tracked guard hscoped x p s.world).count walletId hle
    | session | lands | returns | throws => rfl
  | rotate p =>
    have hworld := (rotate_rotated audit x p s).world
    show (rotate audit x p s).2.world.inFlight walletId + _ = _
    rw [hworld]
    rfl

/-- What a wallet is in flight for after a step: what it was before, or a submission that has started. -/
theorem inFlight_exec (hscoped : deps.networkPassphrase.isSome = true) {walletId : String}
    (h : walletId ∈ (exec audit guard deps x p s).1.inFlight deps) :
    walletId ∈ p.inFlight deps ∨ Starts deps x p s.world walletId := by
  cases p with
  | submit p =>
    cases x with
    | reply x =>
      change walletId ∈ inFlightOf deps (handle guard deps x p s.world).1 at h
      cases handle_tracked guard hscoped x p s.world with
      | keeps hp =>
        rw [hp] at h
        exact .inl h
      | starts submission hp hx hdedup hp' =>
        subst hp hx
        exact .inr ⟨submission, rfl, rfl, hdedup, hp' ▸ h⟩
      | finishes hp' =>
        rw [hp'] at h
        exact absurd h List.not_mem_nil
    | session | lands | returns | throws => exact .inl h
  | rotate p => exact absurd h List.not_mem_nil

theorem Starts.inFlight (audit : AuditLog) (guard : ReplayGuard γ) (hscoped : deps.networkPassphrase.isSome = true)
    {walletId : String} (h : Starts deps x p s.world walletId) :
    walletId ∉ p.inFlight deps ∧ walletId ∈ (exec audit guard deps x p s).1.inFlight deps := by
  obtain ⟨submission, rfl, rfl, hdedup, hmem⟩ := h
  refine ⟨List.not_mem_nil, ?_⟩
  show walletId ∈ inFlightOf deps (handle guard deps .succeeds (.lookingUp submission) s.world).1
  simp only [handle, hdedup, Submission.scope, hscoped, if_true]
  cases hsubjects : submission.subjects deps with
  | nil =>
    rw [hsubjects] at hmem
    exact absurd hmem List.not_mem_nil
  | cons subject rest =>
    show walletId ∈ submission.subjects deps
    exact hmem

/-- A rotation is pending after a step: it was before, or the tracker has just been asked. -/
theorem pending_exec {walletId : String} (h : (exec audit guard deps x p s).1.Pending walletId) :
    p.Pending walletId ∨ audit = .postgres ∧ s.world.inFlight walletId = 0 := by
  obtain ⟨event, hevent, rfl⟩ := h
  cases p with
  | submit p => cases x <;> cases hevent
  | rotate p =>
    have hphase : (rotate audit x p s).1 = .writing event := Proc.rotate.inj hevent
    cases rotate_rotated audit x p s with
    | quiet hp' => exact .inl ⟨event, congrArg Proc.rotate (hp' event hphase), rfl⟩
    | checked event' haudit hp' _ hclear =>
      obtain rfl : event' = event := RotatePhase.writing.inj (hp'.symm.trans hphase)
      exact .inr ⟨haudit, hclear⟩
    | writes event' hp' =>
      rw [hphase] at hp'
      cases hp'

/-- An event is written for a pending rotation, or as the tracker is asked. -/
theorem rotated_exec {event : KeyRotated} (h : (exec audit guard deps x p s).2.rotated = s.rotated ++ [event]) :
    p.Pending event.contractId ∨ s.world.inFlight event.contractId = 0 := by
  have hnothing : s.rotated ≠ s.rotated ++ [event] := by simp
  cases p with
  | submit p => cases x <;> exact absurd h hnothing
  | rotate p =>
    change (rotate audit x p s).2.rotated = _ at h
    cases rotate_rotated audit x p s with
    | quiet _ hs | checked _ _ _ hs =>
      rw [hs] at h
      exact absurd h hnothing
    | writes event' hp' hs hwhen =>
      rw [hs] at h
      obtain rfl : event' = event := List.singleton_inj.mp (List.append_cancel_left h)
      exact hwhen.imp_left fun hp => ⟨event', congrArg Proc.rotate hp, rfl⟩

end Steps

/-! ## Runs -/

section Run

variable {γ : Type} {audit : AuditLog} {guard : ReplayGuard γ} {deps : SubmitDeps} {c : Config (Shared γ) Proc}
  {schedule : List (ℕ × Input)} {a : ℕ × Input}

/-- The tracker counts what is in flight. -/
def Counted (deps : SubmitDeps) (c : Config (Shared γ) Proc) : Prop :=
  ∀ walletId, Tallied (fun p => (p.inFlight deps).count walletId) (fun s => s.world.inFlight walletId) c

/-- No submission is in flight for a wallet with a pending rotation. -/
def Apart (deps : SubmitDeps) (c : Config (Shared γ) Proc) : Prop :=
  ∀ i j walletId, (c.procs j).Pending walletId → walletId ∉ (c.procs i).inFlight deps

theorem counted_opened (arrivals : ℕ → Arrival) (g : γ) (dedup : String → Option String) :
    Counted deps (opened arrivals g dedup) := by
  intro walletId
  refine tallied_of_zero (fun i => ?_) rfl
  show ((((arrivals i).proc i).inFlight deps).count walletId) = 0
  cases arrivals i <;> rfl

/-- **Step**: the tracker goes on counting, whatever moves. -/
theorem Counted.step (hscoped : deps.networkPassphrase.isSome = true) (h : Counted deps c) (a : ℕ × Input) :
    Counted deps (step (exec audit guard deps) c a) := fun walletId =>
  (h walletId).step a (exec_count hscoped a.2 _ _ walletId)

theorem Counted.after (audit : AuditLog) (guard : ReplayGuard γ) (hscoped : deps.networkPassphrase.isSome = true)
    (h : Counted deps c) (l : List (ℕ × Input)) :
    Counted deps (after audit guard deps c l) :=
  inv_run (P := Counted deps) (fun _ a hc _ => hc.step hscoped a) h (G := fun _ _ => True) along_true

theorem Counted.none (h : Counted deps c) {walletId : String} (hzero : c.shared.world.inFlight walletId = 0) (i : ℕ) :
    walletId ∉ (c.procs i).inFlight deps :=
  List.count_eq_zero.mp ((h walletId).eq_zero_iff.mp hzero i)

/-- **Step**: an undisturbed step keeps submissions and rotations apart. -/
theorem Apart.step (hscoped : deps.networkPassphrase.isSome = true) (hcounted : Counted deps c) (h : Apart deps c)
    (hquiet : Undisturbed deps c a) : Apart deps (step (exec audit guard deps) c a) := by
  intro i j walletId hpending
  have hbefore : (c.procs j).Pending walletId ∨ c.shared.world.inFlight walletId = 0 := by
    by_cases hj : j = a.1
    · rw [hj, procs_step_self] at hpending
      rw [hj]
      exact (pending_exec hpending).imp_right And.right
    · rw [procs_step_other hj] at hpending
      exact .inl hpending
  have hold : walletId ∉ (c.procs i).inFlight deps := by
    rcases hbefore with hpending | hzero
    · exact h i j walletId hpending
    · exact hcounted.none hzero i
  by_cases hi : i = a.1
  · subst hi
    by_cases hj : j = a.1
    · subst hj
      rw [hpending.inFlight]
      exact List.not_mem_nil
    · rw [procs_step_other hj] at hpending
      rw [procs_step_self]
      intro hmem
      rcases inFlight_exec hscoped hmem with hmem | hstarts
      · exact hold hmem
      · exact hquiet walletId hstarts j hpending
  · rw [procs_step_other hi]
    exact hold

theorem after_snoc (l : List (ℕ × Input)) :
    after audit guard deps c (l ++ [a]) = step (exec audit guard deps) (after audit guard deps c l) a := run_snoc ..

/-- **Run**: in an undisturbed run they stay apart. -/
theorem Apart.after (hscoped : deps.networkPassphrase.isSome = true) (hcounted : Counted deps c) (h : Apart deps c)
    (hquiet : Along (Processes.step (exec audit guard deps)) (Undisturbed deps) c schedule) :
    ∀ earlier, earlier <+: schedule → Apart deps (after audit guard deps c earlier) := by
  rintro earlier ⟨later, rfl⟩
  have hboth := inv_run (P := fun c => Counted deps c ∧ Apart deps c)
    (G := Undisturbed deps) (fun _ a hc hquiet => ⟨hc.1.step hscoped a, hc.2.step hscoped hc.1 hquiet⟩) ⟨hcounted, h⟩
    (along_append.mp hquiet).1
  exact hboth.2

theorem apart_opened (arrivals : ℕ → Arrival) (g : γ) (dedup : String → Option String) :
    Apart deps (opened arrivals g dedup) := by
  rintro i j walletId ⟨event, hevent, _⟩
  have hproc : (arrivals j).proc j = .rotate (.writing event) := hevent
  cases harrival : arrivals j with
  | submit | rotate =>
    rw [harrival] at hproc
    cases hproc

/-- **The tracker is clear** when nothing is in flight, in every run. -/
theorem tracker_clear (hscoped : deps.networkPassphrase.isSome = true) (hcounted : Counted deps c)
    (hidle : ∀ i, ((after audit guard deps c schedule).procs i).inFlight deps = []) (walletId : String) :
    hasInFlight (after audit guard deps c schedule).shared.world.inFlight walletId = false := by
  have hzero := ((hcounted.after audit guard hscoped schedule) walletId).eq_zero_iff.mpr fun i => by
    show (((_ : Proc)).inFlight deps).count walletId = 0
    rw [hidle i, List.count_nil]
  unfold hasInFlight
  rw [hzero]
  rfl

/-- **Rotations and submissions keep apart** in the runs in which no submission starts while a rotation of its wallet is
being written, and in no other. -/
theorem rotation_safe_iff (audit : AuditLog) (guard : ReplayGuard γ) (deps : SubmitDeps)
    (hscoped : deps.networkPassphrase.isSome = true) (arrivals : ℕ → Arrival) (g : γ) (dedup : String → Option String)
    (schedule : List (ℕ × Input)) : RotationSafe audit guard deps (opened arrivals g dedup) schedule ↔
      Along (step (exec audit guard deps)) (Undisturbed deps) (opened arrivals g dedup) schedule := by
  have hcounted : Counted deps (opened arrivals g dedup) := counted_opened arrivals g dedup
  constructor
  · intro hsafe
    rw [along_iff]
    rintro earlier a later rfl walletId hstarts
    have hprefix : earlier ++ [a] <+: earlier ++ a :: later := ⟨later, by simp⟩
    obtain ⟨hout, hin⟩ := hstarts.inFlight audit guard hscoped
    refine hsafe.starts earlier a walletId hprefix hout ?_
    rw [after_snoc, procs_step_self]
    exact hin
  · intro hquiet
    have hapart := (apart_opened arrivals g dedup).after hscoped hcounted hquiet
    refine ⟨?_, ?_, fun earlier _ hidle => tracker_clear hscoped hcounted hidle⟩
    · intro earlier a event hprefix hevent i
      rw [after_snoc] at hevent
      rcases rotated_exec hevent with hpending | hzero
      · exact hapart earlier ((List.prefix_append _ _).trans hprefix) i a.1 _ hpending
      · exact (hcounted.after audit guard hscoped earlier).none hzero i
    · intro earlier a walletId hprefix hout hin
      rw [after_snoc, procs_step_self] at hin
      rcases inFlight_exec hscoped hin with hmem | hstarts
      · exact absurd hmem hout
      · obtain ⟨later, rfl⟩ := hprefix
        rw [List.append_assoc] at hquiet
        exact along_iff.mp hquiet earlier a later rfl walletId hstarts

/-- With the audit log in memory no rotation is ever pending. -/
theorem pending_memory (arrivals : ℕ → Arrival) (g : γ) (dedup : String → Option String) (l : List (ℕ × Input)) (j : ℕ)
    (walletId : String) :
    ¬ ((after .memory guard deps (opened arrivals g dedup) l).procs j).Pending walletId := by
  induction l using List.reverseRecOn generalizing j with
  | nil =>
    rintro ⟨event, hevent, _⟩
    have hproc : (arrivals j).proc j = .rotate (.writing event) := hevent
    cases harrival : arrivals j with
    | submit | rotate =>
      rw [harrival] at hproc
      cases hproc
  | append_singleton l a ih =>
    rw [after_snoc]
    by_cases hj : j = a.1
    · rw [hj, procs_step_self]
      intro hpending
      rcases pending_exec hpending with hpending | ⟨haudit, _⟩
      · exact ih a.1 hpending
      · cases haudit
    · rw [procs_step_other hj]
      exact ih j

/-- **With the audit log in memory every run is safe**: the event is in the log when the tracker has been asked. -/
theorem rotation_safe_memory (guard : ReplayGuard γ) (deps : SubmitDeps) (hscoped : deps.networkPassphrase.isSome = true)
    (arrivals : ℕ → Arrival) (g : γ) (dedup : String → Option String) (schedule : List (ℕ × Input)) :
    RotationSafe .memory guard deps (opened arrivals g dedup) schedule := by
  rw [rotation_safe_iff .memory guard deps hscoped, along_iff]
  intro earlier a later _ walletId _ j
  exact pending_memory arrivals g dedup earlier j walletId

end Run

/-! A rotation beside a submission for the same wallet. -/

def walletSession : SessionRecord := ⟨"session", walletAddress.strkey, "testnet", 0, 0, 1⟩

/-- Request 0 rotates a key of the wallet, the others submit for it. -/
def rotationBeside : ℕ → Arrival
  | 0 => .rotate (.obj [("oldKeyId", .str "k1"), ("newKeyId", .str "k2")])
  | _ + 1 => .submit (signedBodies 0)

/-- The submission starts when the rotation is over. -/
def inTurn : List (ℕ × Input) :=
  [(0, .session (some walletSession)), (0, .lands), (0, .returns), (1, .reply .succeeds), (1, .reply .succeeds)]

theorem rotation_safe_inTurn : RotationSafe .postgres createMemoryReplayGuard rewrapped
    (opened rotationBeside [] fun _ => none) inTurn := by
  refine (rotation_safe_iff .postgres createMemoryReplayGuard rewrapped rfl rotationBeside [] _ inTurn).mpr
    ⟨?_, ?_, ?_, ?_, ?_, trivial⟩
  · rintro _ ⟨_, hphase, _⟩
    cases hphase
  · rintro _ ⟨_, hphase, _⟩
    cases hphase
  · rintro _ ⟨_, hphase, _⟩
    cases hphase
  · rintro _ ⟨_, hphase, _⟩
    cases hphase
  · rintro _ - j ⟨_, hphase, _⟩
    match j with
    | 0 | 1 | _ + 2 => cases hphase

/-- The submission starts between the check and the insert. -/
def overtaken : List (ℕ × Input) :=
  [(1, .reply .succeeds), (0, .session (some walletSession)), (1, .reply .succeeds), (0, .lands)]

/-- The event is written while the submission is in flight. -/
theorem rotated_in_flight : ¬ RotationSafe .postgres createMemoryReplayGuard rewrapped
    (opened rotationBeside [] fun _ => none) overtaken := by
  intro hsafe
  have hwritten := hsafe.written (overtaken.take 3) (0, .lands) ⟨walletAddress.strkey, "k1", "k2", "testnet"⟩
    (List.prefix_refl _) rfl 1
  refine hwritten ?_
  decide

end Vellar.Wallet.Rotation
