import Vellar.Extension.Moves

/-!
# Vellar.Extension.Approvals — what the user approves is what is done

Any run of the background worker.  `approvals_held`: the user approves what was shown, the device key signs with authority,
and a page that has disconnected has no capability, when ids are fresh, stored writes neither overlap nor take authority away
under a request that waits, and pages that disconnect are spelt as they are stored.
-/

set_option autoImplicit false

namespace Vellar.Extension

open Machine Processes

/-! ## What is promised -/

section Promise

variable (urls : Urls) (pairOrigins : PairOriginPolicy) (storage : Stored) (jobs : ℕ → Job)

/-- Approvals authorize exactly what was listed. -/
structure ApprovalsHeld (schedule : List (ℕ × Reply)) : Prop where
  /-- An id that waits is not bound to something else before it is answered. -/
  bound : ∀ pre a, pre ++ [a] <+: schedule → ∀ id e e',
    (workerAt urls pairOrigins .bound storage jobs pre).shared.manager.pending.find id = some e →
    (workerAt urls pairOrigins .bound storage jobs (pre ++ [a])).shared.manager.pending.find id = some e' →
    (e'.origin = e.origin ∧ e'.request = e.request) ∨
      ∃ s, .settled s ∈ (workerAt urls pairOrigins .bound storage jobs (pre ++ [a])).shared.log ∧ s.promise = e.promise
  /-- What is approved under an id is what was shown under it. -/
  shown : ∀ pre, pre <+: schedule → ∀ l₁ shown l₂ i e l₃,
    (workerAt urls pairOrigins .bound storage jobs pre).shared.log = l₁ ++ .listed shown :: l₂ ++ .approved i e :: l₃ →
    ∀ origin request, (e.id, origin, request) ∈ shown → origin = e.origin ∧ request = e.request
  /-- The device key signs with authority at that moment. -/
  signed : ∀ pre a, pre ++ [a] <+: schedule → ∀ added,
    (workerAt urls pairOrigins .bound storage jobs (pre ++ [a])).shared.log =
      (workerAt urls pairOrigins .bound storage jobs pre).shared.log ++ added →
    ∀ e, .signed e ∈ added →
      Authorizes (loadState (workerAt urls pairOrigins .bound storage jobs pre).shared.storage) e.origin e.request
  /-- A page whose disconnect has been answered has no capability until a connect is approved later. -/
  closed : ∀ pre, pre <+: schedule → ∀ l₁ origin network l₂,
    (workerAt urls pairOrigins .bound storage jobs pre).shared.log = l₁ ++ .disconnected origin network :: l₂ →
    (∀ i e, .approved i e ∈ l₂ → e.request.method = .connect → e.origin ≠ origin) →
    ∀ capability, hasCapability (loadState (workerAt urls pairOrigins .bound storage jobs pre).shared.storage).grants
      origin network capability = false

/-- No connect of the page is being approved. -/
def NoConnect (b : Background) (origin : String) : Prop :=
  ∀ i e, Resolves b.log i e → e.request.method = .connect → e.origin ≠ origin

def Caller.Unhindered (b : Background) : Caller → Prop
  | .disconnect origin _ => NoConnect b origin
  | _ => True

/-- The entry waits, or is being approved. -/
def Open (b : Background) (e : Entry) : Prop := e ∈ b.manager.pending.rows ∨ ∃ i, Resolves b.log i e

/-- No request to sign that waits or is being approved loses its authority by the write. -/
def KeepsAuthority (b : Background) (raw : Stored) : Prop :=
  ∀ e, Open b e → e.request.method.Signs →
    Authorizes (loadState b.storage) e.origin e.request → Authorizes (loadState raw) e.origin e.request

/-- The ids of requests are fresh, pages that disconnect are spelt as they are stored, reads of the stored state succeed,
and no write lands over another, under a request that relies on it, or while the page that disconnects is being connected. -/
def Orderly (x : Reply) (t : Task) (b : Background) : Prop :=
  match t with
  | .begun _ (.providerRequest id request sender) =>
    (∀ origin, RoutedTo urls pairOrigins request sender origin x b → ∀ e ∈ queuedEntries b.log, e.id ≠ id) ∧
      (request = .disconnect → ∀ raw, pageOrigin urls sender = some raw →
        ∀ origin, normalizeOrigin urls raw = some origin → origin = raw)
  | .calling _ caller _ => (∃ text, x = .succeeds text) ∧ caller.Unhindered b
  | .writing _ caller _ raw seen => ∀ text, x = .succeeds text → seen = b.writes ∧ KeepsAuthority b raw ∧ caller.Unhindered b
  | _ => True

end Promise

/-! ## The invariant -/

section Invariant

/-- Nothing is granted to a page that has disconnected, unless a connect of it was approved later. -/
def Closed (log : List Event) (state : ExtensionState) : Prop :=
  ∀ l₁ origin network l₂, log = l₁ ++ .disconnected origin network :: l₂ →
    (∀ i e, .approved i e ∈ l₂ → e.request.method = .connect → e.origin ≠ origin) →
    ∀ g ∈ state.grants, ¬ g.IsFor origin network.text

/-- After every disconnect of the page a connect of it has been approved. -/
def Reopened (log : List Event) (origin : String) : Prop :=
  ∀ l₁ network l₂, log = l₁ ++ .disconnected origin network :: l₂ →
    ∃ i e, .approved i e ∈ l₂ ∧ e.request.method = .connect ∧ e.origin = origin

structure Sound (b : Background) : Prop where
  ids : ((queuedEntries b.log).map Entry.id).Nodup
  pending : ∀ e ∈ b.manager.pending.rows, e ∈ queuedEntries b.log
  shown : ∀ shown, .listed shown ∈ b.log → ∀ q ∈ shown, ∃ e ∈ queuedEntries b.log, q = (e.id, e.origin, e.request)
  approved : ∀ i e, .approved i e ∈ b.log → e ∈ queuedEntries b.log
  authorized : ∀ e, Open b e → e.request.method.Signs → Authorizes (loadState b.storage) e.origin e.request
  closed : Closed b.log (loadState b.storage)

/-- What a call of the stored state does for its caller. -/
def Makes (b : Background) (i : ℕ) (call : StateCall) : Caller → Prop
  | .disconnect origin network => call = .revokeGrant origin network.text
  | .revocation => ∃ origin network, call = .revokeGrant origin network
  | .pair entry => Resolves b.log i entry ∧ entry.request.method = .pair ∧ ∃ wallet, call = .setPairedWallet wallet
  | .connect entry _ => Resolves b.log i entry ∧ Reopened b.log entry.origin ∧ entry.request.method = .connect ∧
      ∃ grant, call = .addGrant grant ∧ grant.origin = entry.origin

def Stage.ForSigning : Stage → Prop
  | .keying _ | .hexing _ | .signing _ => True
  | .loading | .ensuring | .exporting => False

/-- What holds of a task. -/
def Holds (b : Background) : Task → Prop
  | .begun i _ => (∀ e, .approved i e ∉ b.log) ∧ .finished i ∉ b.log
  | .opening _ _ | .done _ => True
  | .calling i caller call => Makes b i call caller
  | .writing i caller call raw seen => Makes b i call caller ∧ seen ≤ b.writes ∧
      (seen = b.writes → call.effect (loadState b.storage) = .writes raw)
  | .resolving i entry stage => Resolves b.log i entry ∧
      (entry.request.method = .connect → Reopened b.log entry.origin) ∧ (stage.ForSigning → entry.request.method.Signs)

def Task.Apart (t u : Task) : Prop := t.id ≠ u.id

/-- An event of a longer log is one of the log, or one of those added. -/
theorem split_append {log added l₁ l₂ : List Event} {ev : Event} (h : log ++ added = l₁ ++ ev :: l₂) :
    (∃ l₂', log = l₁ ++ ev :: l₂' ∧ l₂ = l₂' ++ added) ∨ ev ∈ added := by
  rcases List.append_eq_append_iff.mp h with ⟨mid, rfl, hadded⟩ | ⟨mid, hlog, hmid⟩
  · right
    rw [hadded]
    exact List.mem_append_right _ List.mem_cons_self
  · cases mid with
    | nil =>
      right
      rw [List.nil_append] at hmid
      rw [← hmid]
      exact List.mem_cons_self
    | cons ev' mid =>
      obtain ⟨rfl, rfl⟩ := List.cons_eq_cons.mp hmid
      exact .inl ⟨mid, hlog, rfl⟩

theorem Closed.append {log added : List Event} {state : ExtensionState} (h : Closed log state)
    (hadded : ∀ origin network, .disconnected origin network ∈ added → ∀ g ∈ state.grants, ¬ g.IsFor origin network.text) :
    Closed (log ++ added) state := by
  intro l₁ origin network l₂ hlog hnone
  rcases split_append hlog with ⟨l₂', hlog', rfl⟩ | hmem
  · exact h l₁ origin network l₂' hlog' fun i e he => hnone i e (List.mem_append_left _ he)
  · exact hadded origin network hmem

theorem Reopened.append {log added : List Event} {origin : String} (h : Reopened log origin)
    (hadded : ∀ network, .disconnected origin network ∉ added) : Reopened (log ++ added) origin := by
  intro l₁ network l₂ hlog
  rcases split_append hlog with ⟨l₂', hlog', rfl⟩ | hmem
  · obtain ⟨i, e, he, hconnect⟩ := h l₁ network l₂' hlog'
    exact ⟨i, e, List.mem_append_left _ he, hconnect⟩
  · exact absurd hmem (hadded network)

theorem Resolves.append {log added : List Event} {i : ℕ} {e : Entry} (h : Resolves log i e)
    (hadded : .finished i ∉ added) : Resolves (log ++ added) i e :=
  ⟨List.mem_append_left _ h.1, fun hmem => (List.mem_append.mp hmem).elim h.2 hadded⟩

theorem Resolves.of_append {log added : List Event} {i : ℕ} {e : Entry} (h : Resolves (log ++ added) i e) :
    Resolves log i e ∨ .approved i e ∈ added := by
  rcases List.mem_append.mp h.1 with hmem | hmem
  · exact .inl ⟨hmem, fun hfinished => h.2 (List.mem_append_left _ hfinished)⟩
  · exact .inr hmem

end Invariant

/-! ## One step -/

section Steps

variable {urls : Urls} {pairOrigins : PairOriginPolicy} {names : Names} {b b' : Background} {x : Reply} {t t' u : Task}
  {added : List Event} {e e' : Entry}

theorem Sound.unique (hb : Sound b) (he : e ∈ queuedEntries b.log) (he' : e' ∈ queuedEntries b.log) (h : e.id = e'.id) :
    e = e' :=
  List.inj_on_of_nodup_map hb.ids he he' h

theorem authorizes_of_emits (h : Emits urls pairOrigins b x t b' (.queued e)) (hsigns : e.request.method.Signs) :
    Authorizes (loadState b.storage) e.origin e.request := by
  obtain ⟨i, sender, -, -, raw, -, hroute⟩ := h
  exact authorizes_of_read (route_authorizes hroute hsigns)

/-- What is open was open, or is queued. -/
theorem Move.opens (h : Move urls pairOrigins names b x t t' b') (hlog : b'.log = b.log ++ added)
    (hemits : ∀ ev ∈ added, Emits urls pairOrigins b x t b' ev) (he : Open b' e) :
    Open b e ∨ Emits urls pairOrigins b x t b' (.queued e) := by
  rcases he with hpending | ⟨i, hresolves⟩
  · rcases h.pending e hpending with hold | ⟨-, hqueued⟩
    · exact .inl (.inl hold)
    · exact .inr hqueued
  · rw [hlog] at hresolves
    rcases hresolves.of_append with hold | hnew
    · exact .inl (.inr ⟨i, hold⟩)
    · exact .inl (.inl (hemits _ hnew).2)

/-- A read of the stored state that an orderly run makes succeeds. -/
theorem Orderly.reads {i : ℕ} {caller : Caller} {call : StateCall}
    (hG : Orderly urls pairOrigins x (.calling i caller call) b) : b.readStorage x = b.storage := by
  obtain ⟨⟨text, rfl⟩, -⟩ := hG
  rfl

/-- A disconnect is answered when nothing is granted to the page. -/
theorem disconnected_closed {origin : String} {network : Network} (hG : Orderly urls pairOrigins x t b) (ht : Holds b t)
    (h : Emits urls pairOrigins b x t b' (.disconnected origin network)) :
    ∀ g ∈ (loadState b'.storage).grants, ¬ g.IsFor origin network.text := by
  rcases h with ⟨i, call, rfl, heffect, hstorage⟩ | ⟨i, call, raw, seen, rfl, hstorage, text, rfl⟩
  · obtain rfl : call = .revokeGrant origin network.text := ht
    rw [hG.reads] at heffect
    rw [hstorage]
    exact revokeGrant_keeps heffect
  · obtain ⟨hcall, -, heffect⟩ := ht
    obtain rfl : call = .revokeGrant origin network.text := hcall
    rw [hstorage]
    exact revokeGrant_writes (heffect (hG text rfl).1)

/-- **Step**: the shared state. -/
theorem Move.sound (h : Move urls pairOrigins names b x t t' b') (hG : Orderly urls pairOrigins x t b) (hb : Sound b)
    (ht : Holds b t) : Sound b' := by
  obtain ⟨added, hlog, hemits, hone⟩ := h.log
  have hqueued : ∀ e ∈ queuedEntries added, Emits urls pairOrigins b x t b' (.queued e) := fun e he =>
    hemits _ (mem_queuedEntries.mp he)
  have hold : ∀ e ∈ queuedEntries b.log, e ∈ queuedEntries b'.log := fun e he => by
    rw [hlog, queuedEntries_append]
    exact List.mem_append_left _ he
  refine ⟨?_, fun e he => ?_, fun shown hshown q hq => ?_, fun i e he => ?_, fun e he hsigns => ?_, ?_⟩
  · -- The id that is queued is fresh.
    rw [hlog, queuedEntries_append, List.map_append, List.nodup_append]
    refine ⟨hb.ids, ?_, ?_⟩
    · refine List.nodup_iff_sublist.mpr fun id hsub => ?_
      have hlength := hsub.length_le
      rw [List.length_map] at hlength
      exact absurd (hlength.trans hone) (by simp)
    · rintro id hid id' hid' rfl
      obtain ⟨e, he, rfl⟩ := List.mem_map.mp hid
      obtain ⟨e', he', hsame⟩ := List.mem_map.mp hid'
      obtain ⟨i, sender, rfl, -, hroute⟩ := hqueued e' he'
      exact hG.1 _ hroute e he hsame.symm
  · rcases h.pending e he with hmem | ⟨hmem, -⟩
    · exact hold e (hb.pending e hmem)
    · exact mem_queuedEntries.mpr hmem
  · rw [hlog] at hshown
    rcases List.mem_append.mp hshown with hmem | hmem
    · obtain ⟨e, he, heq⟩ := hb.shown shown hmem q hq
      exact ⟨e, hold e he, heq⟩
    · obtain rfl : shown = b.manager.listPending := hemits _ hmem
      obtain ⟨e, he, rfl⟩ := List.mem_map.mp hq
      exact ⟨e, hold e (hb.pending e he), rfl⟩
  · rw [hlog] at he
    rcases List.mem_append.mp he with hmem | hmem
    · exact hold e (hb.approved i e hmem)
    · exact hold e (hb.pending e (hemits _ hmem).2)
  · -- Authority is checked as the request is queued, and kept by every write.
    have hbefore : Authorizes (loadState b.storage) e.origin e.request := by
      rcases h.opens hlog hemits he with hopen | hnew
      · exact hb.authorized e hopen hsigns
      · exact authorizes_of_emits hnew hsigns
    rcases h.storage with ⟨hstorage, -⟩ | ⟨text, i, caller, call, raw, seen, rfl, rfl, hstorage, -⟩
    · rw [hstorage]
      exact hbefore
    · rw [hstorage]
      rcases h.opens hlog hemits he with hopen | hnew
      · exact (hG text rfl).2.1 e hopen hsigns hbefore
      · obtain ⟨i', sender, hbegun, -⟩ := hnew
        cases hbegun
  · rw [hlog]
    refine Closed.append ?_ fun origin network hmem => disconnected_closed hG ht (hemits _ hmem)
    rcases h.storage with ⟨hstorage, -⟩ | ⟨text, i, caller, call, raw, seen, rfl, rfl, hstorage, -⟩
    · rw [hstorage]
      exact hb.closed
    · -- What is written was there, or is the grant of a connect approved after every disconnect of its page.
      intro l₁ origin network l₂ hsplit hnone g hg hfor
      obtain ⟨hmakes, -, heffect⟩ := ht
      rw [hstorage] at hg
      rcases effect_grants (heffect (hG text rfl).1) g hg with hmem | hadd
      · exact hb.closed l₁ origin network l₂ hsplit hnone g hmem hfor
      · cases caller with
        | disconnect o n =>
          rw [show call = _ from hmakes] at hadd
          cases hadd
        | revocation =>
          obtain ⟨o, n, rfl⟩ := hmakes
          cases hadd
        | pair entry =>
          obtain ⟨-, -, wallet, rfl⟩ := hmakes
          cases hadd
        | connect entry wallet =>
          obtain ⟨-, hreopened, -, grant, rfl, horigin⟩ := hmakes
          obtain rfl := StateCall.addGrant.inj hadd
          rw [← horigin, hfor.1] at hreopened
          obtain ⟨j, e, he, hconnect, heorigin⟩ := hreopened l₁ network l₂ hsplit
          exact hnone j e he hconnect heorigin

theorem noConnect_of_emits {origin : String} {network : Network} (hG : Orderly urls pairOrigins x t b)
    (h : Emits urls pairOrigins b x t b' (.disconnected origin network)) : NoConnect b origin := by
  rcases h with ⟨i, call, rfl, -⟩ | ⟨i, call, raw, seen, rfl, -, text, rfl⟩
  · exact hG.2
  · exact (hG text rfl).2.2

/-- What another task's call is for does not change. -/
theorem Makes.other {call : StateCall} {caller : Caller} (h : Makes b u.id call caller)
    (hresolves : ∀ e, Resolves b.log u.id e → Resolves b'.log u.id e)
    (hreopened : ∀ e, Resolves b.log u.id e → e.request.method = .connect → Reopened b.log e.origin →
      Reopened b'.log e.origin) : Makes b' u.id call caller := by
  cases caller with
  | disconnect | revocation => exact h
  | pair entry => exact ⟨hresolves _ h.1, h.2⟩
  | connect entry wallet => exact ⟨hresolves _ h.1, hreopened _ h.1 h.2.2.1 h.2.1, h.2.2⟩

/-- **Step**: the other tasks. -/
theorem Move.other (h : Move urls pairOrigins names b x t t' b') (hG : Orderly urls pairOrigins x t b) (hu : Holds b u)
    (hapart : t.Apart u) : Holds b' u := by
  obtain ⟨added, hlog, hemits, -⟩ := h.log
  have hresolves : ∀ e, Resolves b.log u.id e → Resolves b'.log u.id e := fun e he => by
    rw [hlog]
    exact he.append fun hmem => hapart (hemits _ hmem).symm
  have hreopened : ∀ e, Resolves b.log u.id e → e.request.method = .connect → Reopened b.log e.origin →
      Reopened b'.log e.origin := fun e he hconnect hreopened => by
    rw [hlog]
    exact hreopened.append fun network hmem => noConnect_of_emits hG (hemits _ hmem) u.id e he hconnect rfl
  cases u with
  | begun j job =>
    refine ⟨fun e hmem => ?_, fun hmem => ?_⟩
    · rw [hlog] at hmem
      rcases List.mem_append.mp hmem with hmem | hmem
      · exact hu.1 e hmem
      · obtain ⟨⟨id, rfl⟩, -⟩ := hemits _ hmem
        exact hapart rfl
    · rw [hlog] at hmem
      rcases List.mem_append.mp hmem with hmem | hmem
      · exact hu.2 hmem
      · exact hapart (hemits _ hmem).symm
  | opening | done => trivial
  | calling j caller call => exact hu.other (u := .calling j caller call) hresolves hreopened
  | writing j caller call raw seen =>
    obtain ⟨hmakes, hle, heffect⟩ := hu
    refine ⟨hmakes.other (u := .writing j caller call raw seen) hresolves hreopened, ?_, fun hseen => ?_⟩
    · rcases h.storage with ⟨-, hwrites⟩ | ⟨text, i, caller', call', raw', seen', -, -, -, hwrites⟩
      · exact hwrites ▸ hle
      · exact hwrites ▸ Nat.le_succ_of_le hle
    · rcases h.storage with ⟨hstorage, hwrites⟩ | ⟨text, i, caller', call', raw', seen', -, -, -, hwrites⟩
      · rw [hstorage]
        exact heffect (hseen.trans hwrites)
      · omega
  | resolving j entry stage =>
    exact ⟨hresolves _ hu.1, fun hconnect => hreopened _ hu.1 hconnect (hu.2.1 hconnect), hu.2.2⟩

/-- An approval that begins is after every disconnect of its page. -/
theorem reopened_approved {log : List Event} {i : ℕ} (hconnect : e.request.method = .connect) :
    Reopened (log ++ [.approved i e]) e.origin := by
  intro l₁ network l₂ hsplit
  rcases split_append hsplit with ⟨l₂', -, rfl⟩ | hmem
  · exact ⟨i, e, List.mem_append_right _ List.mem_cons_self, hconnect, rfl⟩
  · cases List.mem_singleton.mp hmem

theorem resolves_approved {log : List Event} {i : ℕ} (h : .finished i ∉ log) : Resolves (log ++ [.approved i e]) i e := by
  refine ⟨List.mem_append_right _ List.mem_cons_self, fun hmem => ?_⟩
  rcases List.mem_append.mp hmem with hmem | hmem
  · exact h hmem
  · cases List.mem_singleton.mp hmem

/-- What a call leaves to be done. -/
theorem Makes.after {i : ℕ} {call : StateCall} {caller : Caller} (h : Makes b i call caller) (hlog : b'.log = b.log) :
    Holds (afterCall i caller b').2 (afterCall i caller b').1 := by
  cases caller with
  | disconnect | revocation | connect => trivial
  | pair entry =>
    obtain ⟨hresolves, hpair, -⟩ := h
    refine ⟨?_, fun hconnect => ?_, fun hsigning => hsigning.elim⟩
    · show Resolves b'.log i entry
      rw [hlog]
      exact hresolves
    · rw [hpair] at hconnect
      cases hconnect

/-- **Step**: the task itself. -/
theorem Move.own (h : Move urls pairOrigins names b x t t' b') (hG : Orderly urls pairOrigins x t b) (ht : Holds b t) :
    Holds b' t' := by
  cases h with
  | stay | answer | unqueued | queue | list | tab | reject | refocus | opened | window | closed | finish | exported | signed
  | connectEnd => trivial
  | disconnect _ i id sender raw network hpage =>
    show StateCall.revokeGrant raw network.text = .revokeGrant ((normalizeOrigin urls raw).getD raw) network.text
    cases hnormalized : normalizeOrigin urls raw with
    | none => rfl
    | some origin =>
      obtain rfl := hG.2 rfl raw hpage origin hnormalized
      rfl
  | revoke _ i origin network => exact ⟨origin, network, rfl⟩
  | approve _ i id entry manager hstart =>
    exact ⟨resolves_approved ht.2, reopened_approved, fun hsigning => hsigning.elim⟩
  | approvePair _ i id entry manager params hstart hrequest =>
    exact ⟨resolves_approved ht.2, by rw [hrequest]; rfl, _, rfl⟩
  | next _ i entry stage stage' hnext =>
    refine ⟨ht.1, ht.2.1, fun hsigning => ?_⟩
    cases hnext with
    | exporting => exact hsigning.elim
    | keying wallet hsigns => exact hsigns
    | hexing | signing | hexed => exact ht.2.2 trivial
  | sign _ i entry wallet =>
    refine ⟨ht.1.append fun hmem => ?_, fun hconnect => (ht.2.1 hconnect).append fun network hmem => ?_, ht.2.2⟩
    · cases List.mem_singleton.mp hmem
    · cases List.mem_singleton.mp hmem
  | connect _ i entry wallet now hmethod hwallet => exact ⟨ht.1, ht.2.1 hmethod, hmethod, _, rfl, rfl⟩
  | read _ i caller call raw heffect =>
    rw [hG.reads] at heffect
    exact ⟨ht, le_rfl, fun _ => heffect⟩
  | keep _ i caller call heffect => exact Makes.after ht rfl
  | write text i caller call raw seen => exact ht.1.after rfl

theorem Move.id_eq (h : Move urls pairOrigins names b x t t' b') : t'.id = t.id := by
  cases h with
  | answer _ i t events ht => exact ht.id_eq.symm
  | finish _ i entry t payload ht => exact ht.id_eq.symm
  | connectEnd _ i entry t wallet events ht => rcases ht with ⟨call, rfl⟩ | ⟨call, raw, seen, rfl⟩ <;> rfl
  | keep _ i caller => cases caller <;> rfl
  | write _ i caller => cases caller <;> rfl
  | stay | unqueued | queue | list | disconnect | revoke | tab | reject | approve | approvePair | refocus | opened | window
  | closed | next | exported | sign | signed | connect | read => rfl

theorem stable : Stable (runTask urls pairOrigins names) (Orderly urls pairOrigins) Sound Holds Task.Apart where
  symm _ _ h := Ne.symm h
  shared _ _ _ hG hb ht := runTask_move.sound hG hb ht
  own _ _ _ hG _ ht := runTask_move.own hG ht
  other _ _ _ _ hG _ _ hu hapart := runTask_move.other hG hu hapart
  apart x t b u _ _ _ _ hapart := by
    have hmove : Move urls pairOrigins names b x t _ _ := runTask_move
    unfold Task.Apart at hapart ⊢
    rw [hmove.id_eq]
    exact hapart

end Steps

/-! ## Runs -/

section Runs

variable {urls : Urls} {pairOrigins : PairOriginPolicy} {storage : Stored} {jobs : ℕ → Job} {schedule : List (ℕ × Reply)}

/-- Every step of the run is orderly. -/
def OrderlyRun (urls : Urls) (pairOrigins : PairOriginPolicy) (storage : Stored) (jobs : ℕ → Job)
    (schedule : List (ℕ × Reply)) : Prop :=
  Along (step (runTask urls pairOrigins .bound)) (fun c a => Orderly urls pairOrigins a.2 (c.procs a.1) c.shared)
    (startWorker storage jobs) schedule

theorem inv_startWorker : Inv Sound Holds Task.Apart (startWorker storage jobs) := by
  refine ⟨⟨List.nodup_nil, fun e he => absurd he List.not_mem_nil, fun shown h => absurd h List.not_mem_nil,
    fun i e h => absurd h List.not_mem_nil, fun e he => ?_, fun l₁ origin network l₂ h => ?_⟩,
    fun i => ⟨fun e => List.not_mem_nil, List.not_mem_nil⟩, fun i j hij => hij⟩
  · rcases he with hmem | ⟨i, hmem, -⟩ <;> exact absurd hmem List.not_mem_nil
  · exact absurd h (by simp [startWorker])

variable (urls pairOrigins storage jobs) in
theorem workerAt_snoc (pre : List (ℕ × Reply)) (a : ℕ × Reply) :
    Move urls pairOrigins .bound (workerAt urls pairOrigins .bound storage jobs pre).shared a.2
      ((workerAt urls pairOrigins .bound storage jobs pre).procs a.1)
      ((workerAt urls pairOrigins .bound storage jobs (pre ++ [a])).procs a.1)
      (workerAt urls pairOrigins .bound storage jobs (pre ++ [a])).shared := by
  have hsnoc : workerAt urls pairOrigins .bound storage jobs (pre ++ [a]) =
      step (runTask urls pairOrigins .bound) (workerAt urls pairOrigins .bound storage jobs pre) a := run_snoc ..
  rw [hsnoc, procs_step_self]
  exact runTask_move

theorem hasCapability_false {grants : List PermissionGrant} {origin : String} {network : Network} {capability : Capability}
    (h : ∀ g ∈ grants, ¬ g.IsFor origin network.text) : hasCapability grants origin network capability = false := by
  unfold hasCapability
  rw [List.any_eq_false]
  intro g hg hcap
  rw [Bool.and_eq_true, Bool.and_eq_true, decide_eq_true_iff, decide_eq_true_iff] at hcap
  exact h g hg ⟨hcap.1.1, congrArg Network.text hcap.1.2⟩

/-- **Approvals authorize exactly what was listed**, with authority checked when signing, in an orderly run. -/
theorem approvals_held (h : OrderlyRun urls pairOrigins storage jobs schedule) :
    ApprovalsHeld urls pairOrigins storage jobs schedule := by
  have hinv := stable.inv_upto inv_startWorker h
  refine ⟨fun pre a hpre id e e' he he' => ?_, fun pre hpre l₁ shown l₂ i e l₃ hlog origin request hmem => ?_,
    fun pre a hpre added hlog e he => ?_, fun pre hpre l₁ origin network l₂ hlog hnone capability => ?_⟩
  · have hpre₀ : pre <+: schedule := List.IsPrefix.trans ⟨[a], rfl⟩ hpre
    obtain ⟨added, hlog, -⟩ := (workerAt_snoc urls pairOrigins storage jobs pre a).log
    obtain ⟨hmem, hid⟩ := Table.mem_of_find he
    obtain ⟨hmem', hid'⟩ := Table.mem_of_find he'
    have hqueued : e ∈ queuedEntries (workerAt urls pairOrigins .bound storage jobs (pre ++ [a])).shared.log := by
      rw [hlog, queuedEntries_append]
      exact List.mem_append_left _ ((hinv pre hpre₀).shared.pending e hmem)
    obtain rfl := (hinv _ hpre).shared.unique hqueued ((hinv _ hpre).shared.pending e' hmem') (hid.trans hid'.symm)
    exact .inl ⟨rfl, rfl⟩
  · have hsound := (hinv pre hpre).shared
    obtain ⟨e', he', heq⟩ := hsound.shown shown (by
      show _ ∈ (workerAt urls pairOrigins .bound storage jobs pre).shared.log
      rw [hlog]
      simp) _ hmem
    have he := hsound.approved i e (by
      show _ ∈ (workerAt urls pairOrigins .bound storage jobs pre).shared.log
      rw [hlog]
      simp)
    obtain ⟨hid, heq⟩ := Prod.mk.inj heq
    obtain rfl := hsound.unique he he' hid
    exact Prod.mk.inj heq
  · have hpre₀ : pre <+: schedule := List.IsPrefix.trans ⟨[a], rfl⟩ hpre
    have hmove := workerAt_snoc urls pairOrigins storage jobs pre a
    obtain ⟨added', hlog', hemits, -⟩ := hmove.log
    obtain rfl : added = added' := List.append_cancel_left (hlog.symm.trans hlog')
    obtain ⟨i, wallet, htask⟩ := hemits _ he
    have hown := (hinv pre hpre₀).own a.1
    change Holds _ ((workerAt urls pairOrigins .bound storage jobs pre).procs a.1) at hown
    rw [htask] at hown
    exact (hinv pre hpre₀).shared.authorized e (.inr ⟨i, hown.1⟩) (hown.2.2 trivial)
  · exact hasCapability_false ((hinv pre hpre).shared.closed l₁ origin network l₂ hlog hnone)

end Runs

/-! ## Two runs -/

def plainUrls : Urls where
  parse s := if s.startsWith "https://" then some ⟨"https:", s, (s.drop 8).toString⟩ else none
  setHostname url hostname := { url with origin := "https://" ++ hostname, hostname := hostname }
  toLowerCase s := s

def page (origin : String) : Sender := ⟨some origin, none, some (some 1)⟩

/-- A page asks for a signature, which the user is shown and approves. -/
def signingJobs : ℕ → Job
  | 0 => .providerRequest "1" (.sign_message "hello" .testnet) (page "https://dapp.example")
  | 1 => .listPending
  | _ => .resolvePending "1" true

def signingSchedule : List (ℕ × Reply) :=
  [(0, .succeeds ""), (1, .succeeds ""), (2, .succeeds ""), (2, .succeeds ""), (2, .succeeds ""), (2, .succeeds "")]

def Task.Relies : Task → Bool
  | .begun _ (.providerRequest _ _ _) | .calling _ _ _ | .writing _ _ _ _ _ => true
  | _ => false

theorem orderly_of_not_relies {urls : Urls} {pairOrigins : PairOriginPolicy} {x : Reply} {t : Task} {b : Background}
    (h : t.Relies = false) : Orderly urls pairOrigins x t b := by
  cases t with
  | begun i job =>
    cases job with
    | providerRequest => cases h
    | listPending | resolvePending | revoke | tabRemoved | windowRemoved => trivial
  | opening | resolving | done => trivial
  | calling | writing => cases h

theorem approvals_held_signing : ApprovalsHeld plainUrls .any (some sampleState) signingJobs signingSchedule :=
  approvals_held ⟨⟨fun _ _ e he => absurd he List.not_mem_nil, fun h => by cases h⟩, orderly_of_not_relies (by decide),
    orderly_of_not_relies (by decide), orderly_of_not_relies (by decide +kernel),
    orderly_of_not_relies (by decide +kernel), orderly_of_not_relies (by decide +kernel), trivial⟩

/-- Two pages ask to connect under one id. -/
def rebindingJobs : ℕ → Job
  | 0 => .providerRequest "1" (.connect .testnet) (page "https://dapp.example")
  | _ => .providerRequest "1" (.connect .testnet) (page "https://evil.example")

def rebindingWorker (steps : ℕ) : Background :=
  (workerAt plainUrls .any .bound (some ⟨some sampleWallet, []⟩) rebindingJobs
    ([(0, .succeeds ""), (1, .succeeds "")].take steps)).shared

/-- **A page takes over the id under which another waits.** -/
theorem approvals_not_held : ¬ ApprovalsHeld plainUrls .any (some ⟨some sampleWallet, []⟩) rebindingJobs
    [(0, .succeeds ""), (1, .succeeds "")] := by
  intro h
  have hfirst : (rebindingWorker 1).manager.pending.find "1" =
      some ⟨"1", "https://dapp.example", .connect .testnet, some 1, 0⟩ := by decide +kernel
  have hsecond : (rebindingWorker 2).manager.pending.find "1" =
      some ⟨"1", "https://evil.example", .connect .testnet, some 1, 1⟩ := by decide +kernel
  have hunsettled : (rebindingWorker 2).log.all (fun
      | .settled _ => false
      | _ => true) = true := by decide +kernel
  rcases h.bound [(0, .succeeds "")] (1, .succeeds "") List.prefix_rfl "1" _ _ hfirst hsecond with ⟨horigin, -⟩ | ⟨s, hs, -⟩
  · exact absurd horigin (by decide)
  · cases List.all_eq_true.mp hunsettled _ hs

end Vellar.Extension
