import Vellar.Wallet.ReplayFree

/-!
# Vellar.Wallet.Bookkeeping — what a submission leaves behind

One `try` covers the call of the submitter and everything recorded after it, so that a failing await of the
bookkeeping turns a submission into a failure, and a failing audit keeps the reservations.  `bookkeeping_agrees` has
the runs in which the answer, the audit log and the guard say what happened.
-/

set_option autoImplicit false

namespace Vellar.Wallet

open Machine Processes

/-! ## Guards that release -/

/-- A guard whose release frees what it gives up. -/
structure ReleasingGuard (γ : Type) extends ReplayGuard γ where
  free_release : ∀ {keys g}, ∀ k ∈ keys, k ∉ (releaseNext keys g).1 →
    ¬ IsReserved (releaseNext keys g).2 k.toAuthNonce

def releasingMemoryGuard : ReleasingGuard (List String) where
  toReplayGuard := createMemoryReplayGuard
  free_release := by
    intro keys reserved k hk _ hmem
    have hkept := (List.mem_filter.mp hmem).2
    rw [Bool.not_eq_true', ← Bool.not_eq_true, List.contains_iff_mem] at hkept
    exact hkept (List.mem_map_of_mem hk)

def releasingPgGuard (network : String) : ReleasingGuard ReplayTable where
  toReplayGuard := createPgReplayGuard network
  free_release := by
    intro keys table k hk hrest hsome
    cases keys with
    | nil => cases hk
    | cons first rest =>
      obtain rfl : k = first := (List.mem_cons.mp hk).resolve_right hrest
      obtain ⟨row, hrow⟩ := Option.isSome_iff_exists.mp hsome
      have hfind := Table.find_removeWhere (t := table) (k := (network, k.address, k.nonce))
        (p := ReplayRow.matches network k)
      obtain ⟨hfound, hkept⟩ := Option.filter_eq_some_iff.mp (hfind.symm.trans hrow)
      obtain ⟨-, hkey⟩ := Table.mem_of_find hfound
      have hmatch : ReplayRow.matches network k row = true := by
        have hparts : row.network = network ∧ row.address = k.address ∧ row.nonce = k.nonce := by
          simpa [ReplayRow.key] using hkey
        simp [ReplayRow.matches, hparts]
      rw [hmatch] at hkept
      cases hkept

section Runs

variable {γ : Type} (guard : ReleasingGuard γ) (deps : SubmitDeps) (bodies : ℕ → Json)

/-! ## What is promised -/

/-- The reservations a request asks for. -/
def keysOf (i : ℕ) : List ReplayKey := extractReplayKeys (envelopeOf deps bodies i)

/-- A step of the request's release leaves the pair free. -/
def Freed (c : Config (World γ) Phase) (schedule : List (ℕ × Reply)) (i : ℕ) (pair : AuthNonce) : Prop :=
  ∃ earlier a, earlier ++ [a] <+: schedule ∧ a.1 = i ∧
    (∃ s code message keys, (reached guard.toReplayGuard deps c earlier).procs i = .releasing s code message keys) ∧
    ¬ guard.IsReserved (reached guard.toReplayGuard deps c (earlier ++ [a])).shared.guard pair

/-- What was answered and recorded is what happened. -/
structure Agrees (c : Config (World γ) Phase) (schedule : List (ℕ × Reply)) : Prop where
  /-- A request whose call returned a hash is answered with it, and no failure is on record. -/
  sent : ∀ i hash, .submitted i hash ∈ (reached guard.toReplayGuard deps c schedule).shared.log →
    (∀ response, .answered i response ∈ (reached guard.toReplayGuard deps c schedule).shared.log → response = .sent hash) ∧
      ∀ subject, .audit i "tx.failed" subject ∉ (reached guard.toReplayGuard deps c schedule).shared.log ∧
        .audit i "tx.policy_rejected" subject ∉ (reached guard.toReplayGuard deps c schedule).shared.log
  /-- One that failed before anything was sent has released its reservations when it is answered. -/
  released : ∀ i, ∀ code ∈ RELEASABLE_SUBMISSION_CODES,
    .threw i (some code) ∈ (reached guard.toReplayGuard deps c schedule).shared.log →
      ∀ response, .answered i response ∈ (reached guard.toReplayGuard deps c schedule).shared.log →
        ∀ k ∈ keysOf deps bodies i, Freed guard deps c schedule i k.toAuthNonce

/-- The await does not throw. -/
def Reply.Fine : Reply → Prop
  | .fails | .lost => False
  | _ => True

/-- Nothing recorded after a hash fails; where a release is due no audit before it fails, nor the release. -/
def Recorded (x : Reply) (p : Phase) (w : World γ) : Prop :=
  match p with
  | .settling _ _ _ _ => x.Fine
  | .failing s error _ _ => x.Fine ∨ s.keys deps = [] ∨ ∀ e ∈ error, e.1 ∉ RELEASABLE_SUBMISSION_CODES
  | .releasing _ _ _ keys => x.Fine ∨ x = .lost ∧ (guard.releaseNext keys w.guard).1 = []
  | _ => True

end Runs

/-! ## What a request has told -/

section Told

variable {log events : List Event} {freed freed' : ReplayKey → Prop} {i : ℕ} {hash : String}
  {error : Option (String × String)} {e : Event}

/-- Neither answered nor sent. -/
structure Unsent (log : List Event) (i : ℕ) : Prop where
  answered : ∀ response, .answered i response ∉ log
  submitted : ∀ hash, .submitted i hash ∉ log
  threw : ∀ code, .threw i code ∉ log

def NoFailure (log : List Event) (i : ℕ) : Prop :=
  ∀ subject, .audit i "tx.failed" subject ∉ log ∧ .audit i "tx.policy_rejected" subject ∉ log

structure Landed (log : List Event) (i : ℕ) (hash : String) : Prop where
  answered : ∀ response, .answered i response ∉ log
  submitted : ∀ hash', .submitted i hash' ∈ log → hash' = hash
  threw : ∀ code, .threw i code ∉ log
  noFailure : NoFailure log i

structure Failed (log : List Event) (i : ℕ) (code : Option String) : Prop where
  answered : ∀ response, .answered i response ∉ log
  submitted : ∀ hash, .submitted i hash ∉ log
  threw : ∀ code', .threw i code' ∈ log → code' = code

structure Over (log : List Event) (i : ℕ) (keys : List ReplayKey) (freed : ReplayKey → Prop) : Prop where
  sent : ∀ hash, .submitted i hash ∈ log → (∀ response, .answered i response ∈ log → response = .sent hash) ∧ NoFailure log i
  released : ∀ code ∈ RELEASABLE_SUBMISSION_CODES, .threw i (some code) ∈ log → ∀ k ∈ keys, freed k

/-- What the log has of request `i` in a phase. -/
def Phase.Told (deps : SubmitDeps) (bodies : ℕ → Json) (log : List Event) (freed : ReplayKey → Prop) (i : ℕ) : Phase → Prop
  | .received _ | .lookingUp _ | .scoping _ _ _ | .reserving _ | .reserved _ _ | .auditingReplay _ | .submitting _ =>
    Unsent log i ∧ NoFailure log i
  | .rejecting _ _ _ _ => Unsent log i
  | .settling _ hash _ _ => Landed log i hash
  | .failing _ error _ _ => Failed log i (error.map Prod.fst)
  | .releasing _ code _ keys => Failed log i (some code) ∧ ∀ k ∈ keysOf deps bodies i, k ∈ keys ∨ freed k
  | .done _ _ => Over log i (keysOf deps bodies i) freed

/-- Events that tell nothing of an answer or a call. -/
def Event.Plain : Event → Prop
  | .submitted _ _ | .threw _ _ | .answered _ _ => False
  | _ => True

/-- And record no failure. -/
def Event.Silent : Event → Prop
  | .audit _ type _ => type ≠ "tx.failed" ∧ type ≠ "tx.policy_rejected"
  | e => e.Plain

theorem not_mem_append {l l' : List Event} (h : e ∉ l) (h' : e ∉ l') : e ∉ l ++ l' := fun hmem =>
  (List.mem_append.mp hmem).elim h h'

theorem not_mem_plain (h : ∀ e ∈ events, e.Plain) (he : ¬ e.Plain) : e ∉ events := fun hmem => he (h e hmem)

theorem Unsent.append (h : Unsent log i) (hevents : ∀ e ∈ events, e.Plain) : Unsent (log ++ events) i :=
  ⟨fun response => not_mem_append (h.answered response) (not_mem_plain hevents id),
    fun hash => not_mem_append (h.submitted hash) (not_mem_plain hevents id),
    fun code => not_mem_append (h.threw code) (not_mem_plain hevents id)⟩

theorem NoFailure.append (h : NoFailure log i) (hevents : ∀ e ∈ events, e.Silent) : NoFailure (log ++ events) i :=
  fun subject => ⟨not_mem_append (h subject).1 fun hmem => (hevents _ hmem).1 rfl,
    not_mem_append (h subject).2 fun hmem => (hevents _ hmem).2 rfl⟩

theorem Event.Silent.plain (h : e.Silent) : e.Plain := by
  cases e with
  | audit => trivial
  | reserve | submit | submitted | threw | answered => exact h

theorem Landed.append (h : Landed log i hash) (hevents : ∀ e ∈ events, e.Silent) : Landed (log ++ events) i hash := by
  have hplain : ∀ e ∈ events, e.Plain := fun e he => (hevents e he).plain
  refine ⟨fun response => not_mem_append (h.answered response) (not_mem_plain hplain id), fun hash' hmem => ?_,
    fun code => not_mem_append (h.threw code) (not_mem_plain hplain id), h.noFailure.append hevents⟩
  exact h.submitted hash' ((List.mem_append.mp hmem).resolve_right (not_mem_plain hplain id))

theorem Failed.append {code : Option String} (h : Failed log i code) (hevents : ∀ e ∈ events, e.Plain) :
    Failed (log ++ events) i code := by
  refine ⟨fun response => not_mem_append (h.answered response) (not_mem_plain hevents id),
    fun hash => not_mem_append (h.submitted hash) (not_mem_plain hevents id), fun code' hmem => ?_⟩
  exact h.threw code' ((List.mem_append.mp hmem).resolve_right (not_mem_plain hevents id))

/-! The end of a request, for each way to it. -/

variable {keys : List ReplayKey} {response : Response}

theorem Unsent.over (h : Unsent log i) : Over (log ++ [.answered i response]) i keys freed :=
  ⟨fun hash hmem => absurd hmem (not_mem_append (h.submitted hash) (by simp)),
    fun code _ hmem => absurd hmem (not_mem_append (h.threw _) (by simp))⟩

theorem Landed.over (h : Landed log i hash) : Over (log ++ [.answered i (.sent hash)]) i keys freed := by
  refine ⟨fun hash' hmem => ?_, fun code _ hmem => absurd hmem (not_mem_append (h.threw _) (by simp))⟩
  obtain rfl := h.submitted hash' ((List.mem_append.mp hmem).resolve_right (by simp))
  refine ⟨fun response hanswer => ?_, fun subject =>
    ⟨not_mem_append (h.noFailure subject).1 (by simp), not_mem_append (h.noFailure subject).2 (by simp)⟩⟩
  have hlast := List.mem_singleton.mp ((List.mem_append.mp hanswer).resolve_left (h.answered response))
  injection hlast

theorem Failed.over {code : Option String} (h : Failed log i code)
    (hfreed : ∀ c ∈ code, c ∈ RELEASABLE_SUBMISSION_CODES → ∀ k ∈ keys, freed k) :
    Over (log ++ [.answered i response]) i keys freed := by
  refine ⟨fun hash hmem => absurd hmem (not_mem_append (h.submitted hash) (by simp)), fun c hc hmem => ?_⟩
  exact hfreed c (h.threw (some c) ((List.mem_append.mp hmem).resolve_right (by simp))).symm hc

/-- What was told stays told as more keys are freed. -/
theorem Phase.Told.mono {deps : SubmitDeps} {bodies : ℕ → Json} {p : Phase} (h : p.Told deps bodies log freed i)
    (hfreed : ∀ k, freed k → freed' k) : p.Told deps bodies log freed' i := by
  cases p with
  | releasing => exact ⟨h.1, fun k hk => (h.2 k hk).imp_right (hfreed k)⟩
  | done => exact ⟨h.sent, fun code hcode hmem k hk => hfreed k (h.released code hcode hmem k hk)⟩
  | received | lookingUp | scoping | rejecting | reserving | reserved | auditingReplay | submitting | settling | failing =>
    exact h

/-- Another request's events. -/
theorem Phase.Told.other {deps : SubmitDeps} {bodies : ℕ → Json} {p : Phase} (h : p.Told deps bodies log freed i)
    (hevents : ∀ e ∈ events, e.request ≠ i) : p.Told deps bodies (log ++ events) freed i := by
  have hmem : ∀ e : Event, e.request = i → (e ∈ log ++ events ↔ e ∈ log) := fun e he =>
    ⟨fun hm => (List.mem_append.mp hm).resolve_right fun hm => hevents e hm he, List.mem_append_left _⟩
  have hanswered : ∀ r, .answered i r ∈ log ++ events ↔ .answered i r ∈ log := fun r => hmem _ rfl
  have hsubmitted : ∀ r, .submitted i r ∈ log ++ events ↔ .submitted i r ∈ log := fun r => hmem _ rfl
  have hthrew : ∀ r, .threw i r ∈ log ++ events ↔ .threw i r ∈ log := fun r => hmem _ rfl
  have haudit : ∀ t r, .audit i t r ∈ log ++ events ↔ .audit i t r ∈ log := fun t r => hmem _ rfl
  have hunsent : Unsent log i → Unsent (log ++ events) i := fun hu =>
    ⟨fun r => (hanswered r).not.mpr (hu.answered r), fun r => (hsubmitted r).not.mpr (hu.submitted r),
      fun r => (hthrew r).not.mpr (hu.threw r)⟩
  have hno : NoFailure log i → NoFailure (log ++ events) i := fun hn r =>
    ⟨(haudit _ r).not.mpr (hn r).1, (haudit _ r).not.mpr (hn r).2⟩
  have hfailed : ∀ code, Failed log i code → Failed (log ++ events) i code := fun code hf =>
    ⟨fun r => (hanswered r).not.mpr (hf.answered r), fun r => (hsubmitted r).not.mpr (hf.submitted r),
      fun r hr => hf.threw r ((hthrew r).mp hr)⟩
  cases p with
  | received | lookingUp | scoping | reserving | reserved | auditingReplay | submitting => exact ⟨hunsent h.1, hno h.2⟩
  | rejecting => exact hunsent h
  | settling =>
    exact ⟨fun r => (hanswered r).not.mpr (h.answered r), fun r hr => h.submitted r ((hsubmitted r).mp hr),
      fun r => (hthrew r).not.mpr (h.threw r), hno h.noFailure⟩
  | failing => exact hfailed _ h
  | releasing => exact ⟨hfailed _ h.1, h.2⟩
  | done =>
    refine ⟨fun r hr => ?_, fun code hcode hr => h.released code hcode ((hthrew _).mp hr)⟩
    obtain ⟨hsent, hfailure⟩ := h.sent r ((hsubmitted r).mp hr)
    exact ⟨fun response hresponse => hsent response ((hanswered response).mp hresponse), hno hfailure⟩

end Told

/-! ## One step -/

section Step

variable {γ : Type} {guard : ReleasingGuard γ} {deps : SubmitDeps} {bodies : ℕ → Json} {w w' : World γ} {p p' : Phase}
  {freed freed' : ReplayKey → Prop} {i : ℕ} {s : Submission}

/-- What a step of request `i` leaves: its own events, a phase of its own, and what is told. -/
def Next (deps : SubmitDeps) (bodies : ℕ → Json) (freed : ReplayKey → Prop) (i : ℕ) (w : World γ) (r : Phase × World γ) :
    Prop :=
  ∃ events, r.2.log = w.log ++ events ∧ (∀ e ∈ events, e.request = i) ∧ r.1.id = i ∧ r.1.Of bodies ∧
    r.1.Told deps bodies r.2.log freed i

theorem next_stay (hof : p.Of bodies) (htold : p.Told deps bodies w.log freed p.id) :
    Next deps bodies freed p.id w (p, w) :=
  ⟨[], (List.append_nil _).symm, fun _ he => absurd he List.not_mem_nil, rfl, hof, htold⟩

theorem next_to {events : List Event} (hlog : w'.log = w.log ++ events) (hown : ∀ e ∈ events, e.request = i) (hid : p'.id = i)
    (hof : p'.Of bodies) (htold : p'.Told deps bodies (w.log ++ events) freed i) : Next deps bodies freed i w (p', w') :=
  ⟨events, hlog, hown, hid, hof, by rw [hlog]; exact htold⟩

theorem next_finish {events : List Event} {response : Response} (hlog : w'.log = w.log ++ events)
    (hown : ∀ e ∈ events, e.request = s.id)
    (hover : Over (w.log ++ events ++ [.answered s.id response]) s.id (keysOf deps bodies s.id) freed) :
    Next deps bodies freed s.id w (s.finish deps response w') := by
  have hlog' : (s.finish deps response w').2.log = w.log ++ (events ++ [Event.answered s.id response]) := by
    show w'.log ++ [Event.answered s.id response] = _
    rw [hlog, List.append_assoc]
  refine ⟨events ++ [Event.answered s.id response], hlog', fun e he => ?_, rfl, trivial, ?_⟩
  · rcases List.mem_append.mp he with he | he
    · exact hown e he
    · rw [List.mem_singleton.mp he]
      rfl
  · rw [hlog', ← List.append_assoc]
    exact hover

theorem keysOf_eq (hs : submitBody ⟨s.id, bodies s.id⟩ = some s) : keysOf deps bodies s.id = s.keys deps := by
  unfold keysOf envelopeOf
  rw [hs]
  rfl

theorem own_nil : ∀ e ∈ ([] : List Event), e.request = i := fun _ he => absurd he List.not_mem_nil

theorem own_audit (i : ℕ) (type : String) (subject : Option String) : ∀ e ∈ [Event.audit i type subject], e.request = i := by
  intro e he
  rw [List.mem_singleton.mp he]
  rfl

theorem plain_audit (i : ℕ) (type : String) (subject : Option String) : ∀ e ∈ [Event.audit i type subject], e.Plain := by
  intro e he
  rw [List.mem_singleton.mp he]
  trivial

theorem plain_nil : ∀ e ∈ ([] : List Event), e.Plain := fun _ he => absurd he List.not_mem_nil

/-- Ending before the submitter is called, after plain events. -/
theorem next_refuse {events : List Event} {response : Response} (h : Unsent w.log s.id) (hlog : w'.log = w.log ++ events)
    (hown : ∀ e ∈ events, e.request = s.id) (hplain : ∀ e ∈ events, e.Plain) :
    Next deps bodies freed s.id w (s.finish deps response w') :=
  next_finish hlog hown (h.append hplain).over

theorem next_submit (hs : submitBody ⟨s.id, bodies s.id⟩ = some s) (h : Unsent w.log s.id ∧ NoFailure w.log s.id)
    (hlog : w'.log = w.log) : Next deps bodies freed s.id w (s.submit w') := by
  have hlog' : (w'.add [.submit s.id]).log = w.log ++ [.submit s.id] := by
    show w'.log ++ _ = _
    rw [hlog]
  have hsilent : ∀ e ∈ [Event.submit s.id], e.Silent := by
    intro e he
    rw [List.mem_singleton.mp he]
    trivial
  refine next_to hlog' (fun e he => by rw [List.mem_singleton.mp he]; rfl) rfl hs ?_
  exact ⟨h.1.append fun e he => (hsilent e he).plain, h.2.append hsilent⟩

theorem next_scope (hs : submitBody ⟨s.id, bodies s.id⟩ = some s) (h : Unsent w.log s.id ∧ NoFailure w.log s.id) :
    Next deps bodies freed s.id w (s.scope deps w) := by
  unfold Submission.scope
  dsimp only
  split
  · split
    · exact next_refuse h.1 (List.append_nil _).symm own_nil plain_nil
    · exact next_to (List.append_nil _).symm own_nil rfl hs (by rwa [List.append_nil])
  · exact next_submit hs h rfl

theorem settle_silent (s : Submission) (hash : String) (todo : Settle) :
    ∃ events, (settle s hash w todo).log = w.log ++ events ∧ (∀ e ∈ events, e.request = s.id) ∧ ∀ e ∈ events, e.Silent := by
  cases todo with
  | remember | invalidate => exact ⟨[], (List.append_nil _).symm, own_nil, fun _ he => absurd he List.not_mem_nil⟩
  | audit subject =>
    refine ⟨_, rfl, own_audit _ _ _, fun e he => ?_⟩
    rw [List.mem_singleton.mp he]
    exact ⟨by decide, by decide⟩

/-- After the audits of a failure. -/
theorem next_afterAudits {error : Option (String × String)} {events : List Event}
    (hs : submitBody ⟨s.id, bodies s.id⟩ = some s) (h : Failed w.log s.id (error.map Prod.fst))
    (hlog : w'.log = w.log ++ events) (hown : ∀ e ∈ events, e.request = s.id) (hplain : ∀ e ∈ events, e.Plain) :
    Next deps bodies freed s.id w (s.afterAudits deps error w') := by
  have hafter := h.append hplain
  unfold Submission.afterAudits
  cases error with
  | none => exact next_finish hlog hown (hafter.over fun c hc => absurd hc (by simp))
  | some failed =>
    obtain ⟨code, message⟩ := failed
    dsimp only
    split
    · refine next_to hlog hown rfl hs ⟨hafter, fun k hk => .inl ?_⟩
      rwa [keysOf_eq hs] at hk
    · next hdue =>
      refine next_finish hlog hown (hafter.over fun c hc hreleasable k hk => ?_)
      obtain rfl := Option.some.inj hc
      rw [keysOf_eq hs] at hk
      exact absurd ⟨List.ne_nil_of_mem hk, hreleasable⟩ hdue

/-- **One step** of a request that meets the condition. -/
theorem handle_told (x : Reply) (hid : p.id = i) (hof : p.Of bodies) (htold : p.Told deps bodies w.log freed i)
    (hrecorded : Recorded guard deps x p w) (hfreed : ∀ k, freed k → freed' k)
    (hnew : ∀ s code message keys, p = .releasing s code message keys → ∀ k ∈ keys, k ∉ (guard.releaseNext keys w.guard).1 →
      (handle guard.toReplayGuard deps x p w).2.guard = (guard.releaseNext keys w.guard).2 → freed' k) :
    Next deps bodies freed' i w (handle guard.toReplayGuard deps x p w) := by
  subst hid
  have hstay : Next deps bodies freed' p.id w (p, w) := next_stay hof (htold.mono hfreed)
  cases p with
  | received r =>
    cases hbody : submitBody r with
    | some s =>
      have hid : s.id = r.id := by
        simp only [submitBody, Option.bind_eq_bind, Option.bind_eq_some_iff] at hbody
        obtain ⟨_, -, _, -, hs⟩ := hbody
        rw [← Option.some.inj hs]
      have hs : submitBody ⟨s.id, bodies s.id⟩ = some s := by
        rw [hid, ← hbody, ← show r.body = bodies r.id from hof]
      simp only [handle, hbody]
      exact next_to (List.append_nil _).symm own_nil hid hs (by rw [List.append_nil]; exact htold)
    | none =>
      simp only [handle, hbody]
      refine next_to rfl (fun e he => ?_) rfl trivial htold.1.over
      rw [List.mem_singleton.mp he]
      rfl
  | lookingUp s =>
    have hanswer : ∀ response, Next deps bodies freed' s.id w
        (.done s.id response, w.add [.answered s.id response]) := fun response =>
      next_to rfl (fun e he => by rw [List.mem_singleton.mp he]; rfl) rfl trivial htold.1.over
    cases x with
    | succeeds =>
      unfold handle
      dsimp only
      split
      · exact hanswer _
      · exact next_scope hof htold
    | fails => exact hanswer .thrown
    | lost | known | submitted | threw => exact hstay
  | scoping s subject rest =>
    cases x with
    | known isKnown =>
      cases isKnown with
      | true =>
        cases rest with
        | nil => exact next_to (List.append_nil _).symm own_nil rfl hof (by rwa [List.append_nil])
        | cons next rest => exact next_to (List.append_nil _).symm own_nil rfl hof (by rwa [List.append_nil])
      | false =>
        unfold handle
        dsimp only
        split
        · exact hstay
        · exact next_to (List.append_nil _).symm own_nil rfl hof (by rw [List.append_nil]; exact htold.1)
    | fails => exact next_refuse htold.1 (List.append_nil _).symm own_nil plain_nil
    | succeeds | lost | submitted | threw => exact hstay
  | rejecting s message subject rest =>
    have haudit := plain_audit s.id "tx.policy_rejected" (some subject)
    cases x with
    | succeeds =>
      cases rest with
      | nil => exact next_refuse htold rfl (own_audit _ _ _) haudit
      | cons next rest => exact next_to rfl (own_audit _ _ _) rfl hof (Unsent.append htold haudit)
    | fails => exact next_refuse htold (List.append_nil _).symm own_nil plain_nil
    | lost => exact next_refuse htold rfl (own_audit _ _ _) haudit
    | known | submitted | threw => exact hstay
  | reserving s =>
    have hreserve : ∀ b, ∀ e ∈ [Event.reserve s.id b], e.request = s.id ∧ e.Silent := by
      intro b e he
      rw [List.mem_singleton.mp he]
      exact ⟨rfl, trivial⟩
    have hnext : ∀ b, Unsent (w.log ++ [.reserve s.id b]) s.id ∧ NoFailure (w.log ++ [.reserve s.id b]) s.id := fun b =>
      ⟨htold.1.append fun e he => (hreserve b e he).2.plain, htold.2.append fun e he => (hreserve b e he).2⟩
    cases x with
    | succeeds =>
      unfold handle
      dsimp only
      split
      · exact next_to rfl (fun e he => (hreserve true e he).1) rfl hof (hnext true)
      · exact next_to rfl (fun e he => (hreserve false e he).1) rfl hof (hnext false)
    | fails => exact next_to rfl (fun e he => (hreserve false e he).1) rfl hof (hnext false)
    | lost | known | submitted | threw => exact hstay
  | reserved s outcome =>
    cases outcome with
    | ok => exact next_submit hof htold rfl
    | refused => exact next_to (List.append_nil _).symm own_nil rfl hof (by rwa [List.append_nil])
    | threw => exact next_refuse htold.1 (List.append_nil _).symm own_nil plain_nil
  | auditingReplay s =>
    cases x with
    | succeeds | lost => exact next_refuse htold.1 rfl (own_audit _ _ _) (plain_audit _ _ _)
    | fails => exact next_refuse htold.1 (List.append_nil _).symm own_nil plain_nil
    | known | submitted | threw => exact hstay
  | submitting s =>
    obtain ⟨hunsent, hno⟩ := htold
    cases x with
    | submitted hash =>
      refine next_to rfl (fun e he => by rw [List.mem_singleton.mp he]; rfl) rfl hof ?_
      refine ⟨fun r => not_mem_append (hunsent.answered r) (by simp), fun hash' hmem => ?_,
        fun r => not_mem_append (hunsent.threw r) (by simp),
        fun r => ⟨not_mem_append (hno r).1 (by simp), not_mem_append (hno r).2 (by simp)⟩⟩
      have hlast := List.mem_singleton.mp ((List.mem_append.mp hmem).resolve_left (hunsent.submitted hash'))
      injection hlast
    | threw error =>
      refine next_to rfl (fun e he => by rw [List.mem_singleton.mp he]; rfl) rfl hof ?_
      refine ⟨fun r => not_mem_append (hunsent.answered r) (by simp), fun r => not_mem_append (hunsent.submitted r) (by simp),
        fun code hmem => ?_⟩
      have hlast := List.mem_singleton.mp ((List.mem_append.mp hmem).resolve_left (hunsent.threw code))
      injection hlast
    | succeeds | fails | lost | known => exact hstay
  | settling s hash todo rest =>
    obtain ⟨events, hlog, hown, hsilent⟩ := settle_silent (w := w) s hash todo
    cases x with
    | succeeds =>
      cases rest with
      | nil => exact next_finish hlog hown (htold.append hsilent).over
      | cons next rest => exact next_to hlog hown rfl hof (htold.append hsilent)
    | fails | lost => exact absurd hrecorded id
    | known | submitted | threw => exact hstay
  | failing s error subject rest =>
    have haudit := plain_audit s.id (failureType error) subject
    have hthrow : ¬ Reply.Fine x → ∀ {events : List Event} {w' : World γ}, w'.log = w.log ++ events →
        (∀ e ∈ events, e.request = s.id) → (∀ e ∈ events, e.Plain) →
          Next deps bodies freed' s.id w (s.finish deps .thrown w') := by
      intro hfine events w' hlog hown hplain
      refine next_finish hlog hown ((htold.append hplain).over fun c hc hreleasable k hk => ?_)
      rw [keysOf_eq hof] at hk
      rcases hrecorded.resolve_left hfine with hkeys | hcode
      · rw [hkeys] at hk
        cases hk
      · obtain ⟨failed, hfailed, rfl⟩ := Option.map_eq_some_iff.mp hc
        exact absurd hreleasable (hcode failed hfailed)
    cases x with
    | succeeds =>
      cases rest with
      | nil => exact next_afterAudits hof htold rfl (own_audit _ _ _) haudit
      | cons next rest => exact next_to rfl (own_audit _ _ _) rfl hof (Failed.append htold haudit)
    | fails => exact hthrow id (List.append_nil _).symm own_nil plain_nil
    | lost => exact hthrow id rfl (own_audit _ _ _) haudit
    | known | submitted | threw => exact hstay
  | releasing s code message keys =>
    obtain ⟨hfailed, hkeys⟩ := htold
    have hgone : (handle guard.toReplayGuard deps x (.releasing s code message keys) w).2.guard =
        (guard.releaseNext keys w.guard).2 → ∀ k ∈ keysOf deps bodies s.id, k ∈ (guard.releaseNext keys w.guard).1 ∨ freed' k := by
      intro hguard k hk
      rcases hkeys k hk with hk | hk
      · by_cases hrest : k ∈ (guard.releaseNext keys w.guard).1
        · exact .inl hrest
        · exact .inr (hnew s code message keys rfl k hk hrest hguard)
      · exact .inr (hfreed k hk)
    cases x with
    | succeeds =>
      cases hrest : (guard.releaseNext keys w.guard).1 with
      | nil =>
        simp only [handle, hrest] at hgone ⊢
        refine next_finish (List.append_nil _).symm own_nil ?_
        rw [List.append_nil]
        exact hfailed.over fun c _ _ k hk => (hgone rfl k hk).resolve_left List.not_mem_nil
      | cons next rest =>
        simp only [handle, hrest] at hgone ⊢
        exact next_to (List.append_nil _).symm own_nil rfl hof (by rw [List.append_nil]; exact ⟨hfailed, hgone trivial⟩)
    | fails => exact absurd (hrecorded.resolve_left id).1 (by simp)
    | lost =>
      have hrest := (hrecorded.resolve_left id).2
      rw [hrest] at hgone
      refine next_finish (List.append_nil _).symm own_nil ?_
      rw [List.append_nil]
      exact hfailed.over fun c _ _ k hk => (hgone rfl k hk).resolve_left List.not_mem_nil
    | known | submitted | threw => exact hstay
  | done id response => exact hstay

end Step

/-! ## Runs -/

section Run

variable {γ : Type} {guard : ReleasingGuard γ} {deps : SubmitDeps} {bodies : ℕ → Json} {c : Config (World γ) Phase}
  {schedule : List (ℕ × Reply)}

/-- What every request has told, after a schedule. -/
def AllTold (guard : ReleasingGuard γ) (deps : SubmitDeps) (bodies : ℕ → Json) (c : Config (World γ) Phase)
    (schedule : List (ℕ × Reply)) : Prop :=
  ∀ i, ((reached guard.toReplayGuard deps c schedule).procs i).id = i ∧
    ((reached guard.toReplayGuard deps c schedule).procs i).Of bodies ∧
    ((reached guard.toReplayGuard deps c schedule).procs i).Told deps bodies
      (reached guard.toReplayGuard deps c schedule).shared.log
      (fun k => Freed guard deps c schedule i k.toAuthNonce) i

theorem Freed.mono {schedule' : List (ℕ × Reply)} {i : ℕ} {pair : AuthNonce} (h : Freed guard deps c schedule i pair)
    (hpre : schedule <+: schedule') : Freed guard deps c schedule' i pair := by
  obtain ⟨earlier, a, hearlier, hrest⟩ := h
  exact ⟨earlier, a, hearlier.trans hpre, hrest⟩

theorem allTold_step {a : ℕ × Reply} (h : AllTold guard deps bodies c schedule)
    (hrecorded : Recorded guard deps a.2 ((reached guard.toReplayGuard deps c schedule).procs a.1)
      (reached guard.toReplayGuard deps c schedule).shared) : AllTold guard deps bodies c (schedule ++ [a]) := by
  have hstep : reached guard.toReplayGuard deps c (schedule ++ [a]) =
      step (handle guard.toReplayGuard deps) (reached guard.toReplayGuard deps c schedule) a := run_snoc ..
  have hgrow : ∀ i k, Freed guard deps c schedule i k → Freed guard deps c (schedule ++ [a]) i k := fun i k hk =>
    hk.mono (List.prefix_append _ _)
  obtain ⟨hid, hof, htold⟩ := h a.1
  -- The keys a release step gives up are free after it.
  have hnew : ∀ s code message keys, (reached guard.toReplayGuard deps c schedule).procs a.1 = .releasing s code message keys →
      ∀ k ∈ keys, k ∉ (guard.releaseNext keys (reached guard.toReplayGuard deps c schedule).shared.guard).1 →
        (handle guard.toReplayGuard deps a.2 ((reached guard.toReplayGuard deps c schedule).procs a.1)
          (reached guard.toReplayGuard deps c schedule).shared).2.guard =
            (guard.releaseNext keys (reached guard.toReplayGuard deps c schedule).shared.guard).2 →
          Freed guard deps c (schedule ++ [a]) a.1 k.toAuthNonce := by
    intro s code message keys hphase k hk hrest hguard
    refine ⟨schedule, a, List.prefix_refl _, rfl, ⟨s, code, message, keys, hphase⟩, ?_⟩
    rw [hstep]
    show ¬ guard.IsReserved (handle guard.toReplayGuard deps a.2 _ _).2.guard _
    rw [hguard]
    exact guard.free_release k hk hrest
  obtain ⟨events, hlog, hown, hid', hof', htold'⟩ := handle_told a.2 hid hof htold hrecorded
    (fun k => hgrow a.1 k.toAuthNonce) hnew
  intro i
  rw [hstep]
  by_cases hi : i = a.1
  · rw [hi, procs_step_self]
    exact ⟨hid', hof', htold'⟩
  · rw [procs_step_other hi]
    obtain ⟨hidi, hofi, htoldi⟩ := h i
    refine ⟨hidi, hofi, ?_⟩
    show Phase.Told deps bodies (handle guard.toReplayGuard deps a.2 _ _).2.log _ i _
    rw [hlog]
    exact (htoldi.other fun e he heq => hi (heq.symm.trans (hown e he))).mono fun k => hgrow i k.toAuthNonce

theorem allTold_begin (g : γ) (dedup : String → Option String) (inFlight : String → ℕ) :
    AllTold guard deps bodies (begin bodies g dedup inFlight) [] := fun _ =>
  ⟨rfl, rfl, ⟨fun _ => List.not_mem_nil, fun _ => List.not_mem_nil, fun _ => List.not_mem_nil⟩,
    fun _ => ⟨List.not_mem_nil, List.not_mem_nil⟩⟩

theorem allTold_run (h0 : AllTold guard deps bodies c [])
    (h : Along (step (handle guard.toReplayGuard deps))
      (fun c a => Recorded guard deps a.2 (c.procs a.1) c.shared) c schedule) : AllTold guard deps bodies c schedule := by
  induction schedule using List.reverseRecOn with
  | nil => exact h0
  | append_singleton schedule a ih =>
    obtain ⟨hbefore, hlast, -⟩ := along_append.mp h
    exact allTold_step (ih hbefore) hlast

/-- What was told is what is promised. -/
theorem AllTold.agrees (h : AllTold guard deps bodies c schedule) : Agrees guard deps bodies c schedule := by
  refine ⟨fun i hash hmem => ?_, fun i code hcode hmem response hanswered => ?_⟩
  · obtain ⟨-, -, htold⟩ := h i
    cases hphase : (reached guard.toReplayGuard deps c schedule).procs i with
    | received | lookingUp | scoping | reserving | reserved | auditingReplay | submitting =>
      rw [hphase] at htold
      exact absurd hmem (htold.1.submitted hash)
    | rejecting =>
      rw [hphase] at htold
      exact absurd hmem (Unsent.submitted htold hash)
    | settling s hash' =>
      rw [hphase] at htold
      exact ⟨fun response hanswered => absurd hanswered (Landed.answered htold response), Landed.noFailure htold⟩
    | failing =>
      rw [hphase] at htold
      exact absurd hmem (Failed.submitted htold hash)
    | releasing =>
      rw [hphase] at htold
      exact absurd hmem (htold.1.submitted hash)
    | done =>
      rw [hphase] at htold
      exact Over.sent htold hash hmem
  · obtain ⟨-, -, htold⟩ := h i
    cases hphase : (reached guard.toReplayGuard deps c schedule).procs i with
    | received | lookingUp | scoping | reserving | reserved | auditingReplay | submitting =>
      rw [hphase] at htold
      exact absurd hanswered (htold.1.answered response)
    | rejecting =>
      rw [hphase] at htold
      exact absurd hanswered (Unsent.answered htold response)
    | settling =>
      rw [hphase] at htold
      exact absurd hanswered (Landed.answered htold response)
    | failing =>
      rw [hphase] at htold
      exact absurd hanswered (Failed.answered htold response)
    | releasing =>
      rw [hphase] at htold
      exact absurd hanswered (htold.1.answered response)
    | done =>
      rw [hphase] at htold
      exact Over.released htold code hcode hmem

/-- **The bookkeeping agrees with what happened** in every run whose awaits after a hash succeed, and whose audits before a
due release and the release itself succeed; whatever else fails, in any interleaving, over either guard. -/
theorem bookkeeping_agrees (guard : ReleasingGuard γ) (deps : SubmitDeps) (bodies : ℕ → Json) (g : γ)
    (dedup : String → Option String) (inFlight : String → ℕ) (schedule : List (ℕ × Reply))
    (h : Along (step (handle guard.toReplayGuard deps))
      (fun c a => Recorded guard deps a.2 (c.procs a.1) c.shared) (begin bodies g dedup inFlight) schedule) :
    Agrees guard deps bodies (begin bodies g dedup inFlight) schedule :=
  (allTold_run (allTold_begin g dedup inFlight) h).agrees

end Run

/-! A submission whose dedup entry cannot be written, and one that is released. -/

/-- The simulation fails; the audit and the release succeed. -/
def releasedRun : List (ℕ × Reply) :=
  [(0, .succeeds), (0, .succeeds), (0, .known true), (0, .succeeds), (0, .succeeds),
    (0, .threw (some ("sponsor_simulation_failed", "busy"))), (0, .succeeds), (0, .succeeds)]

theorem bookkeeping_released :
    Agrees releasingMemoryGuard rewrapped signedBodies (begin signedBodies [] (fun _ => none) fun _ => 0) releasedRun :=
  bookkeeping_agrees releasingMemoryGuard rewrapped signedBodies [] (fun _ => none) (fun _ => 0) releasedRun
    ⟨trivial, trivial, trivial, trivial, trivial, trivial, .inl trivial, .inl trivial, trivial⟩

/-- The network has the transaction, the dedup store does not take the hash. -/
def forgottenRun : List (ℕ × Reply) :=
  [(0, .succeeds), (0, .succeeds), (0, .known true), (0, .succeeds), (0, .succeeds), (0, .submitted "h"), (0, .fails),
    (0, .succeeds)]

/-- A transaction that was sent is answered as failed. -/
theorem sent_answered_failed :
    ¬ ∀ schedule, Agrees releasingMemoryGuard rewrapped signedBodies (begin signedBodies [] (fun _ => none) fun _ => 0)
      schedule := by
  intro hall
  have hlog : (reached releasingMemoryGuard.toReplayGuard rewrapped (begin signedBodies [] (fun _ => none) fun _ => 0)
      forgottenRun).shared.log =
        [.reserve 0 true, .submit 0, .submitted 0 "h", .audit 0 "tx.failed" (some walletAddress.strkey),
          .answered 0 (.refused 502 "submission_failed" "Transaction submission failed")] := by decide
  have hsent := ((hall forgottenRun).sent 0 "h" (by rw [hlog]; simp)).1
  have hanswer := hsent (.refused 502 "submission_failed" "Transaction submission failed") (by rw [hlog]; simp)
  cases hanswer

end Vellar.Wallet
