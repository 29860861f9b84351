import Vellar.Lib.Machine

/-!
# Vellar.Policy.EventQueue — the policy event queue

`services/policy-service/src/event-queue.ts`.  A run is a list of `enqueue` and `processNext` calls and of the moments when
handlers settle, in any order; `processAll` takes one message after the other.  `conserved_run` follows every message through a
run, `processAll_finals` says what draining the queue comes to.
-/

set_option autoImplicit false

namespace Vellar.Policy.EventQueue

open Machine

variable {T : Type}

structure PolicyEventMessage (T : Type) where
  id : String
  eventType : String
  /-- None for `undefined`. -/
  payload : Option T
  attempts : ℕ
  maxAttempts : Option ℤ
  enqueuedAt : String
  correlationId : Option String

structure QuarantinedMessage (T : Type) where
  message : PolicyEventMessage T
  quarantinedAt : String
  attempts : ℕ
  reason : String
  stack : Option String

inductive ProcessOutcome where
  | success
  | retry
  | quarantined
deriving DecidableEq, Repr

structure ProcessResult where
  messageId : String
  outcome : ProcessOutcome
  attempts : ℕ
  reason : Option String

/-- The message of what was thrown, and its stack. -/
structure Thrown where
  reason : String
  stack : Option String

/-- The argument of `enqueue`. -/
structure NewEvent (T : Type) where
  eventType : String
  payload : Option T
  id : Option String
  maxAttempts : Option ℤ
  correlationId : Option String

structure PolicyEventQueue (T : Type) where
  queue : List (PolicyEventMessage T)
  /-- The map of the memory quarantine, by the id of the message. -/
  quarantineQueue : List (QuarantinedMessage T)
  maxAttempts : ℤ
  /-- Calls of `processNext` whose handler has not settled. -/
  handling : List (ℕ × PolicyEventMessage T)
  calls : ℕ
  succeeded : List (PolicyEventMessage T)
  results : List ProcessResult
  /-- The ids of the messages that a handler was given, and of those whose processing failed. -/
  delivered : List String
  failed : List String

def malformed : Thrown := ⟨"Malformed message: missing eventType or payload", none⟩

def PolicyEventMessage.Malformed (m : PolicyEventMessage T) : Prop := m.eventType = "" ∨ m.payload.isNone

instance (m : PolicyEventMessage T) : Decidable m.Malformed := inferInstanceAs (Decidable (_ ∨ _))

namespace PolicyEventQueue

/-- A new queue; `maxAttempts` is that of the options, or of the environment. -/
def create (maxAttempts : ℤ) : PolicyEventQueue T := ⟨[], [], maxAttempts, [], 0, [], [], [], []⟩

def limit (s : PolicyEventQueue T) (m : PolicyEventMessage T) : ℤ := m.maxAttempts.getD s.maxAttempts

/-- `uuid` is what `randomUUID()` gives. -/
def enqueue (s : PolicyEventQueue T) (event : NewEvent T) (uuid now : String) : PolicyEventQueue T :=
  { s with queue := s.queue ++ [⟨event.id.getD uuid, event.eventType, event.payload, 0, some (event.maxAttempts.getD s.maxAttempts), now,
      event.correlationId⟩] }

/-- `quarantine` of the memory queue. -/
def quarantine (records : List (QuarantinedMessage T)) (m : PolicyEventMessage T) (err : Thrown) (now : String) :
    List (QuarantinedMessage T) :=
  records.filter (·.message.id ≠ m.id) ++ [⟨m, now, m.attempts, err.reason, err.stack⟩]

/-- The `catch` of `processNext`. -/
def fail (s : PolicyEventQueue T) (m : PolicyEventMessage T) (err : Thrown) (now : String) : PolicyEventQueue T :=
  if s.limit m ≤ m.attempts then
    { s with
      quarantineQueue := quarantine s.quarantineQueue m err now
      results := s.results ++ [⟨m.id, .quarantined, m.attempts, some err.reason⟩]
      failed := s.failed ++ [m.id] }
  else
    { s with
      queue := s.queue ++ [m]
      results := s.results ++ [⟨m.id, .retry, m.attempts, some err.reason⟩]
      failed := s.failed ++ [m.id] }

/-- A call of `processNext`, up to its handler: the handler's number and message, when there is one to wait for. -/
def processNext (s : PolicyEventQueue T) (now : String) : PolicyEventQueue T × Option (ℕ × PolicyEventMessage T) :=
  match s.queue with
  | [] => (s, none)
  | msg :: rest =>
    let m := { msg with attempts := msg.attempts + 1 }
    let s := { s with queue := rest, calls := s.calls + 1 }
    if m.Malformed then (s.fail m malformed now, none)
    else ({ s with handling := (s.calls, m) :: s.handling, delivered := s.delivered ++ [m.id] }, some (s.calls, m))

/-- What `processNext` does once the handler has settled. -/
def finish (s : PolicyEventQueue T) (m : PolicyEventMessage T) (outcome : Except Thrown Unit) (now : String) : PolicyEventQueue T :=
  match outcome with
  | .ok _ => { s with succeeded := s.succeeded ++ [m], results := s.results ++ [⟨m.id, .success, m.attempts, none⟩] }
  | .error err => s.fail m err now

/-- The handler of a call settles. -/
def settle (s : PolicyEventQueue T) (call : ℕ) (outcome : Except Thrown Unit) (now : String) : PolicyEventQueue T :=
  match s.handling.find? (·.1 = call) with
  | none => s
  | some (_, m) => ({ s with handling := s.handling.eraseP (·.1 = call) } : PolicyEventQueue T).finish m outcome now

inductive Event (T : Type) where
  | enqueue (event : NewEvent T) (uuid now : String)
  | processNext (now : String)
  | settle (call : ℕ) (outcome : Except Thrown Unit) (now : String)

def step (s : PolicyEventQueue T) : Event T → PolicyEventQueue T
  | .enqueue event uuid now => s.enqueue event uuid now
  | .processNext now => (s.processNext now).1
  | .settle call outcome now => s.settle call outcome now

/-! ## Draining the queue -/

/-- What a handler does with the message of a call. -/
abbrev Handler (T : Type) := ℕ → PolicyEventMessage T → Except Thrown Unit

/-- An awaited call of `processNext`: its handler settles with no other call in between. -/
def processOne (handler : Handler T) (now : String) (s : PolicyEventQueue T) : PolicyEventQueue T :=
  match s.processNext now with
  | (s', none) => s'
  | (s', some (call, m)) => s'.settle call (handler call m) now

/-- What is left of the attempts of the messages that wait. -/
def weight (s : PolicyEventQueue T) : ℕ := (s.queue.map fun m => (s.limit m - m.attempts).toNat + 1).sum

/-- What becomes of a message whose processing ends in a state. -/
def Ends (s s' : PolicyEventQueue T) (m : PolicyEventMessage T) : Prop :=
  s'.maxAttempts = s.maxAttempts ∧
    ((∃ outcome reason, outcome ≠ .retry ∧ s'.queue = s.queue ∧ s'.results = s.results ++ [⟨m.id, outcome, m.attempts, reason⟩]) ∨
      (m.attempts < s.limit m ∧ ∃ reason, s'.queue = s.queue ++ [m] ∧ s'.results = s.results ++ [⟨m.id, .retry, m.attempts, reason⟩]))

theorem ends_fail (s : PolicyEventQueue T) (m : PolicyEventMessage T) (err : Thrown) (now : String) : Ends s (s.fail m err now) m := by
  unfold Ends fail
  split
  · exact ⟨rfl, .inl ⟨.quarantined, _, by decide, rfl, rfl⟩⟩
  · rename_i h
    exact ⟨rfl, .inr ⟨not_le.mp h, _, rfl, rfl⟩⟩

theorem ends_finish (s : PolicyEventQueue T) (m : PolicyEventMessage T) (outcome : Except Thrown Unit) (now : String) :
    Ends s (s.finish m outcome now) m := by
  cases outcome with
  | ok => exact ⟨rfl, .inl ⟨.success, _, by decide, rfl, rfl⟩⟩
  | error err => exact ends_fail s m err now

theorem settle_newest (s : PolicyEventQueue T) (call : ℕ) (m : PolicyEventMessage T) (outcome : Except Thrown Unit) (now : String) :
    ({ s with handling := (call, m) :: s.handling } : PolicyEventQueue T).settle call outcome now = s.finish m outcome now := by
  unfold settle
  rw [List.find?_cons_of_pos (by simp)]
  dsimp only
  rw [List.eraseP_cons_of_pos (by simp)]

/-- A call deals with the first message, and leaves the rest of the queue. -/
theorem ends_processOne (handler : Handler T) (now : String) {s : PolicyEventQueue T} {msg : PolicyEventMessage T}
    {rest : List (PolicyEventMessage T)} (h : s.queue = msg :: rest) :
    Ends { s with queue := rest } (s.processOne handler now) { msg with attempts := msg.attempts + 1 } := by
  unfold processOne processNext
  rw [h]
  dsimp only
  by_cases hmalformed : ({ msg with attempts := msg.attempts + 1 } : PolicyEventMessage T).Malformed
  · rw [if_pos hmalformed]
    exact ends_fail { s with queue := rest, calls := s.calls + 1 } _ _ _
  · -- the call is the newest one, so it is the one that settles
    rw [if_neg hmalformed]
    have hsettled := settle_newest { s with queue := rest, calls := s.calls + 1, delivered := s.delivered ++ [msg.id] } (s.calls + 1)
      { msg with attempts := msg.attempts + 1 } (handler (s.calls + 1) { msg with attempts := msg.attempts + 1 }) now
    refine (congrArg (Ends _ · _) hsettled).mpr (ends_finish _ _ _ _)

theorem weight_processOne (handler : Handler T) (now : String) {s : PolicyEventQueue T} (h : s.queue ≠ []) :
    (s.processOne handler now).weight < s.weight := by
  obtain ⟨msg, rest, hqueue⟩ := List.exists_cons_of_ne_nil h
  have hlimit : ∀ {s' : PolicyEventQueue T}, s'.maxAttempts = s.maxAttempts → s'.limit = s.limit := by
    intro s' hmax
    funext m
    rw [limit, limit, hmax]
  obtain ⟨hmax, ⟨outcome, reason, -, hrest, -⟩ | ⟨hlt, reason, hrest, -⟩⟩ := ends_processOne handler now hqueue
  · unfold weight
    rw [show (s.processOne handler now).queue = rest from hrest, hqueue, hlimit hmax, List.map_cons, List.sum_cons]
    omega
  · have hlt : (msg.attempts : ℤ) + 1 < s.limit msg := by exact_mod_cast hlt
    have hsame : s.limit { msg with attempts := msg.attempts + 1 } = s.limit msg := rfl
    unfold weight
    rw [show (s.processOne handler now).queue = rest ++ [_] from hrest, hqueue, hlimit hmax, List.map_cons, List.sum_cons, List.map_append,
      List.sum_append, List.map_singleton, List.sum_singleton, hsame]
    push_cast
    omega

/-- `processAll`: the queue when it is empty, and the results of the calls. -/
def processAll (handler : Handler T) (now : String) (s : PolicyEventQueue T) : PolicyEventQueue T × List ProcessResult :=
  if _h : s.queue = [] then (s, [])
  else
    ((processAll handler now (s.processOne handler now)).1,
      (s.processOne handler now).results.getLast?.toList ++ (processAll handler now (s.processOne handler now)).2)
termination_by s.weight
decreasing_by all_goals exact weight_processOne handler now _h

/-- **Draining ends**, and every message that waited has one result that is final. -/
theorem processAll_finals (handler : Handler T) (now : String) (s : PolicyEventQueue T) :
    (s.processAll handler now).1.queue = [] ∧
      (((s.processAll handler now).2.filter (·.outcome ≠ .retry)).map ProcessResult.messageId).Perm (s.queue.map PolicyEventMessage.id) := by
  induction s using processAll.induct handler now with
  | case1 s h =>
    rw [processAll, dif_pos h]
    exact ⟨h, h ▸ List.Perm.refl _⟩
  | case2 s h ih =>
    obtain ⟨msg, rest, hqueue⟩ := List.exists_cons_of_ne_nil h
    rw [processAll, dif_neg h]
    refine ⟨ih.1, ?_⟩
    obtain ⟨-, ⟨outcome, reason, hfinal, hrest, hresults⟩ | ⟨-, reason, hrest, hresults⟩⟩ :=
      ends_processOne handler now hqueue
    · have hlast : (s.processOne handler now).results.getLast?.toList = [⟨msg.id, outcome, msg.attempts + 1, reason⟩] := by
        rw [show (s.processOne handler now).results = _ from hresults, List.getLast?_concat]
        rfl
      have hwaiting : (s.processOne handler now).queue = rest := hrest
      dsimp only
      rw [hlast, hqueue, List.filter_append, List.map_append, List.map_cons]
      simpa [hfinal, hwaiting] using ih.2
    · have hlast : (s.processOne handler now).results.getLast?.toList = [⟨msg.id, .retry, msg.attempts + 1, reason⟩] := by
        rw [show (s.processOne handler now).results = _ from hresults, List.getLast?_concat]
        rfl
      have hwaiting : (s.processOne handler now).queue = rest ++ [{ msg with attempts := msg.attempts + 1 }] := hrest
      have hperm : ((s.processOne handler now).queue.map PolicyEventMessage.id).Perm (s.queue.map PolicyEventMessage.id) := by
        rw [hwaiting, hqueue, List.map_append, List.map_cons]
        exact List.perm_append_singleton _ _
      dsimp only
      rw [hlast, List.filter_append, List.map_append]
      exact ih.2.trans hperm

end PolicyEventQueue

open PolicyEventQueue

/-! ## Where every message is -/

inductive Place where
  | pending
  | handling
  | succeeded
  | quarantined
deriving DecidableEq, Repr

/-- Every message, with where it is. -/
def located (s : PolicyEventQueue T) : List (Place × PolicyEventMessage T) :=
  s.queue.map (.pending, ·) ++ s.handling.map (fun c => (.handling, c.2)) ++ s.succeeded.map (.succeeded, ·) ++
    s.quarantineQueue.map (fun r => (.quarantined, r.message))

/-- The ids that were enqueued, each with how often the message may be tried. -/
def enqueued (maxAttempts : ℤ) (l : List (Event T)) : List (String × ℤ) :=
  l.filterMap fun e => match e with
    | .enqueue event uuid _ => some (event.id.getD uuid, event.maxAttempts.getD maxAttempts)
    | _ => none

/-- The message and the limit on its attempts. -/
def key (s : PolicyEventQueue T) (m : PolicyEventMessage T) : String × ℤ := (m.id, s.limit m)

/-- What has happened to a message in a place. -/
def Fits (s : PolicyEventQueue T) (place : Place) (m : PolicyEventMessage T) : Prop :=
  s.delivered.count m.id ≤ m.attempts ∧
    match place with
    | .pending => s.failed.count m.id = m.attempts ∧ (m.attempts : ℤ) < max 1 (s.limit m)
    | .handling => s.failed.count m.id + 1 = m.attempts ∧ (m.attempts : ℤ) ≤ max 1 (s.limit m)
    | .succeeded => s.failed.count m.id + 1 = m.attempts ∧ (m.attempts : ℤ) ≤ max 1 (s.limit m)
    | .quarantined => s.failed.count m.id = m.attempts ∧ (m.attempts : ℤ) = max 1 (s.limit m)

structure Inv (maxAttempts : ℤ) (entries : List (String × ℤ)) (s : PolicyEventQueue T) : Prop where
  maxAttempts_eq : s.maxAttempts = maxAttempts
  places : ((located s).map fun x => key s x.2).Perm entries
  fits : ∀ x ∈ located s, Fits s x.1 x.2
  known : ∀ id, id ∈ s.delivered ∨ id ∈ s.failed → id ∈ entries.map Prod.fst

section Keeps

variable {maxAttempts : ℤ} {entries : List (String × ℤ)} {s s' : PolicyEventQueue T} {m m' : PolicyEventMessage T} {p p' : Place}
  {others : List (Place × PolicyEventMessage T)}

theorem key_congr (h : s'.maxAttempts = s.maxAttempts) : key s' = key (T := T) s := by
  funext m
  rw [key, key, limit, limit, h]

/-- Ids are apart from those of the other messages. -/
theorem Inv.others_ne (h : Inv maxAttempts entries s) (hids : (entries.map Prod.fst).Nodup) (hs : (located s).Perm ((p, m) :: others)) :
    ∀ x ∈ others, x.2.id ≠ m.id := by
  have hperm : (((p, m) :: others).map fun x => x.2.id).Perm (entries.map Prod.fst) := by
    have hfst := (hs.map fun x => key s x.2).symm.trans h.places |>.map Prod.fst
    rwa [List.map_map] at hfst
  have hnodup := hperm.nodup_iff.mpr hids
  rw [List.map_cons, List.nodup_cons] at hnodup
  exact fun x hx heq => hnodup.1 (List.mem_map.mpr ⟨x, hx, heq⟩)

/-- **One message moves**; what is counted of the others stays. -/
theorem Inv.move (h : Inv maxAttempts entries s) (hids : (entries.map Prod.fst).Nodup) (hs : (located s).Perm ((p, m) :: others))
    (hs' : (located s').Perm ((p', m') :: others)) (hmax : s'.maxAttempts = s.maxAttempts) (hkey : key s m' = key s m)
    (hdelivered : ∀ id, id ≠ m.id → s'.delivered.count id = s.delivered.count id)
    (hfailed : ∀ id, id ≠ m.id → s'.failed.count id = s.failed.count id) (hfits : Fits s' p' m') : Inv maxAttempts entries s' := by
  have hmem : m.id ∈ entries.map Prod.fst := by
    have hin : key s m ∈ (located s).map fun x => key s x.2 :=
      List.mem_map.mpr ⟨(p, m), hs.mem_iff.mpr List.mem_cons_self, rfl⟩
    exact List.mem_map.mpr ⟨key s m, h.places.mem_iff.mp hin, rfl⟩
  refine ⟨hmax.trans h.maxAttempts_eq, ?_, fun x hx => ?_, fun id hid => ?_⟩
  · have hleft := (hs'.map fun x => key s' x.2)
    have hright := (hs.map fun x => key s x.2).symm.trans h.places
    rw [key_congr hmax] at hleft ⊢
    rw [List.map_cons, hkey] at hleft
    exact hleft.trans hright
  · rcases List.mem_cons.mp (hs'.mem_iff.mp hx) with rfl | hx
    · exact hfits
    · have hne := h.others_ne hids hs x hx
      have hfit := h.fits x (hs.mem_iff.mpr (List.mem_cons_of_mem _ hx))
      unfold Fits limit at hfit ⊢
      rwa [hdelivered _ hne, hfailed _ hne, hmax]
  · by_cases hid' : id = m.id
    · exact hid' ▸ hmem
    · refine h.known id (hid.imp (fun hd => ?_) (fun hf => ?_))
      · rw [← List.count_pos_iff, ← hdelivered id hid']
        exact List.count_pos_iff.mpr hd
      · rw [← List.count_pos_iff, ← hfailed id hid']
        exact List.count_pos_iff.mpr hf

/-! ## Every step moves one message -/

/-- A message that is in no place, with what was counted of it, after a failure that is not counted yet or a success. -/
structure Held (maxAttempts : ℤ) (entries : List (String × ℤ)) (s : PolicyEventQueue T) (m : PolicyEventMessage T) : Prop where
  from_inv : ∃ s₀ p m₀, Inv maxAttempts entries s₀ ∧ (located s₀).Perm ((p, m₀) :: located s) ∧ s.maxAttempts = s₀.maxAttempts ∧
    key s₀ m = key s₀ m₀ ∧ s.delivered = s₀.delivered ∧ s.failed = s₀.failed
  delivered : s.delivered.count m.id ≤ m.attempts
  failed : s.failed.count m.id + 1 = m.attempts
  attempts : (m.attempts : ℤ) ≤ max 1 (s.limit m)

theorem count_append_other {l : List String} {id id' : String} (h : id ≠ id') : (l ++ [id']).count id = l.count id := by
  rw [List.count_append, List.count_singleton]
  simp [Ne.symm h]

theorem count_append_self (l : List String) (id : String) : (l ++ [id]).count id = l.count id + 1 := by
  rw [List.count_append, List.count_singleton_self]

theorem perm_insert {α : Type} (a b c d : List α) (x : α) : (a ++ (b ++ x :: c) ++ d).Perm (x :: (a ++ (b ++ c) ++ d)) := by
  have hleft : a ++ (b ++ x :: c) ++ d = a ++ b ++ x :: (c ++ d) := by simp
  have hright : a ++ (b ++ c) ++ d = a ++ b ++ (c ++ d) := by simp
  rw [hleft, hright]
  exact List.perm_middle

theorem perm_concat {α : Type} (a b d : List α) (x : α) : (a ++ (b ++ [x]) ++ d).Perm (x :: (a ++ b ++ d)) := by
  have h := perm_insert a b [] d x
  rwa [List.append_nil] at h

theorem located_handling (call : ℕ) :
    (located { s with handling := (call, m) :: s.handling }).Perm ((.handling, m) :: located s) := by
  unfold located
  exact (perm_insert _ [] _ _ _).append_right _

theorem located_pending (Q : List (PolicyEventMessage T)) (h : s.queue = Q ++ [m]) :
    (located s).Perm ((.pending, m) :: located { s with queue := Q }) := by
  unfold located
  rw [h, List.map_append]
  exact (((perm_concat [] _ _ _).append_right _).append_right _)

theorem located_quarantined {err : Thrown} {now : String} (hfresh : ∀ x ∈ located s, x.2.id ≠ m.id) :
    (located { s with quarantineQueue := quarantine s.quarantineQueue m err now }).Perm ((.quarantined, m) :: located s) := by
  have hkeep : s.quarantineQueue.filter (·.message.id ≠ m.id) = s.quarantineQueue := by
    refine List.filter_eq_self.mpr fun r hr => decide_eq_true (hfresh (.quarantined, r.message) ?_)
    exact List.mem_append_right _ (List.mem_map.mpr ⟨r, hr, rfl⟩)
  unfold located quarantine
  rw [hkeep, List.map_append, ← List.append_assoc]
  exact List.perm_append_singleton _ _

theorem located_succeeded : (located { s with succeeded := s.succeeded ++ [m] }).Perm ((.succeeded, m) :: located s) := by
  unfold located
  rw [List.map_append]
  exact perm_concat _ _ _ _

theorem inv_fail (h : Held maxAttempts entries s m) (hids : (entries.map Prod.fst).Nodup) (err : Thrown) (now : String) :
    Inv maxAttempts entries (s.fail m err now) := by
  obtain ⟨⟨s₀, p, m₀, hinv, hperm, hmax, hkey, hdelivered, hfailed⟩, hcount, hfails, hattempts⟩ := h
  have hid : m.id = m₀.id := congrArg Prod.fst hkey
  have hfresh : ∀ x ∈ located s, x.2.id ≠ m.id := hid ▸ hinv.others_ne hids hperm
  have hother : ∀ id, id ≠ m₀.id → (s.failed ++ [m.id]).count id = s₀.failed.count id := fun id hne => by
    rw [count_append_other (hid ▸ hne), hfailed]
  have hself := count_append_self s.failed m.id
  unfold fail
  split
  · rename_i hlimit
    refine hinv.move hids hperm (located_quarantined hfresh) hmax hkey (fun id _ => by rw [hdelivered]) hother ⟨hcount, ?_, ?_⟩
    · exact hself.trans hfails
    · have hpos : (1 : ℤ) ≤ m.attempts := by exact_mod_cast hfails ▸ Nat.le_add_left 1 _
      exact le_antisymm hattempts (max_le hpos hlimit)
  · rename_i hlimit
    refine hinv.move hids hperm (located_pending s.queue rfl) hmax hkey (fun id _ => by rw [hdelivered]) hother ⟨hcount, ?_, ?_⟩
    · exact hself.trans hfails
    · exact lt_max_of_lt_right (not_le.mp hlimit)

theorem inv_finish (h : Held maxAttempts entries s m) (hids : (entries.map Prod.fst).Nodup) (outcome : Except Thrown Unit) (now : String) :
    Inv maxAttempts entries (s.finish m outcome now) := by
  cases outcome with
  | error err => exact inv_fail h hids err now
  | ok =>
    obtain ⟨⟨s₀, p, m₀, hinv, hperm, hmax, hkey, hdelivered, hfailed⟩, hcount, hfails, hattempts⟩ := h
    exact hinv.move hids hperm located_succeeded hmax hkey (fun id _ => by rw [← hdelivered]; rfl) (fun id _ => by rw [← hfailed]; rfl)
      ⟨hcount, hfails, hattempts⟩

theorem inv_processNext (h : Inv maxAttempts entries s) (hids : (entries.map Prod.fst).Nodup) (now : String) :
    Inv maxAttempts entries (s.processNext now).1 := by
  unfold processNext
  split
  · exact h
  · rename_i msg rest hqueue
    have hperm : located s = (.pending, msg) :: located { s with queue := rest, calls := s.calls + 1 } := by
      unfold located
      rw [hqueue]
      rfl
    obtain ⟨hcount, hfailed, hlimit⟩ := h.fits (.pending, msg) (hperm ▸ List.mem_cons_self)
    have hattempts : ((msg.attempts + 1 : ℕ) : ℤ) ≤ max 1 (s.limit msg) := by
      push_cast
      exact hlimit
    have hperm := List.Perm.of_eq hperm
    dsimp only at hcount hfailed ⊢
    split
    · exact inv_fail (m := { msg with attempts := msg.attempts + 1 }) ⟨⟨s, .pending, msg, h, hperm, rfl, rfl, rfl, rfl⟩,
        hcount.trans (Nat.le_succ _), congrArg (· + 1) hfailed, hattempts⟩ hids _ _
    · have hlocated := located_handling (m := { msg with attempts := msg.attempts + 1 })
        (s := { s with queue := rest, calls := s.calls + 1 }) (s.calls + 1)
      refine h.move hids hperm hlocated rfl rfl (fun id hne => count_append_other hne) (fun id _ => rfl) ⟨?_, ?_, hattempts⟩
      · rw [count_append_self]
        exact Nat.succ_le_succ hcount
      · exact congrArg (· + 1) hfailed

theorem find_erase {α : Type} {l : List α} {q : α → Bool} {a : α} (h : l.find? q = some a) :
    ∃ before behind, l = before ++ a :: behind ∧ l.eraseP q = before ++ behind := by
  obtain ⟨hq, before, behind, rfl, hbefore⟩ := List.find?_eq_some_iff_append.mp h
  refine ⟨before, behind, rfl, ?_⟩
  have hnot : ∀ b ∈ before, ¬ q b = true := fun b hb hqb => by
    have := hbefore b hb
    rw [hqb] at this
    cases this
  rw [List.eraseP_append_right _ hnot, List.eraseP_cons_of_pos hq]

theorem inv_settle (h : Inv maxAttempts entries s) (hids : (entries.map Prod.fst).Nodup) (call : ℕ) (outcome : Except Thrown Unit)
    (now : String) : Inv maxAttempts entries (s.settle call outcome now) := by
  unfold settle
  split
  · exact h
  · rename_i c m hfind
    obtain ⟨before, behind, hhandling, herase⟩ := find_erase hfind
    have hperm : (located s).Perm ((.handling, m) :: located { s with handling := s.handling.eraseP (·.1 = call) }) := by
      unfold located
      rw [herase, hhandling, List.map_append, List.map_append, List.map_cons]
      exact ((perm_insert _ _ _ _ _).append_right _)
    obtain ⟨hcount, hfailed, hattempts⟩ := h.fits (.handling, m) (hperm.mem_iff.mpr List.mem_cons_self)
    exact inv_finish ⟨⟨s, .handling, m, h, hperm, rfl, rfl, rfl, rfl⟩, hcount, hfailed, hattempts⟩ hids outcome now

theorem inv_enqueue (h : Inv maxAttempts entries s) (event : NewEvent T) (uuid now : String)
    (hnew : event.id.getD uuid ∉ entries.map Prod.fst) :
    Inv maxAttempts (entries ++ [(event.id.getD uuid, event.maxAttempts.getD maxAttempts)]) (s.enqueue event uuid now) := by
  have hperm := located_pending (s := s.enqueue event uuid now) s.queue rfl
  refine ⟨h.maxAttempts_eq, ?_, fun x hx => ?_, fun id hid => ?_⟩
  · have hkeys := hperm.map fun x => key s x.2
    rw [← h.maxAttempts_eq]
    exact hkeys.trans ((List.Perm.cons _ h.places).trans (List.perm_append_singleton _ _).symm)
  · rcases List.mem_cons.mp (hperm.mem_iff.mp hx) with rfl | hx
    · have hzero : ∀ l : List String, (∀ id ∈ l, id ∈ entries.map Prod.fst) → l.count (event.id.getD uuid) = 0 := fun l hl =>
        List.count_eq_zero.mpr fun hmem => hnew (hl _ hmem)
      refine ⟨(hzero s.delivered fun id hid => h.known id (.inl hid)).le, hzero s.failed fun id hid => h.known id (.inr hid), ?_⟩
      exact lt_max_of_lt_left (by simp)
    · exact h.fits x hx
  · rw [List.map_append]
    exact List.mem_append_left _ (h.known id hid)

end Keeps

section Runs

variable (maxAttempts : ℤ) {l : List (Event T)} {s : PolicyEventQueue T}

theorem inv_create : Inv (T := T) maxAttempts [] (create maxAttempts) :=
  ⟨rfl, List.Perm.refl _, fun _ hx => absurd hx List.not_mem_nil, fun _ hid => hid.elim (absurd · List.not_mem_nil) (absurd · List.not_mem_nil)⟩

theorem enqueued_append (l l' : List (Event T)) : enqueued maxAttempts (l ++ l') = enqueued maxAttempts l ++ enqueued maxAttempts l' :=
  List.filterMap_append

/-- **Run**: every message that was enqueued is followed. -/
theorem inv_events (hids : ((enqueued maxAttempts l).map Prod.fst).Nodup) :
    Inv maxAttempts (enqueued maxAttempts l) (run PolicyEventQueue.step (create maxAttempts) l) := by
  induction l using List.reverseRecOn with
  | nil => exact inv_create maxAttempts
  | append_singleton l e ih =>
    rw [enqueued_append, List.map_append] at hids
    have h := ih hids.of_append_left
    rw [run_snoc, enqueued_append]
    cases e with
    | enqueue event uuid now =>
      have hnew : event.id.getD uuid ∉ (enqueued maxAttempts l).map Prod.fst := fun hmem =>
        List.disjoint_of_nodup_append hids hmem (List.mem_singleton_self _)
      exact inv_enqueue h event uuid now hnew
    | processNext now =>
      rw [show enqueued maxAttempts [Event.processNext now] = ([] : List (String × ℤ)) from rfl, List.append_nil]
      exact inv_processNext h hids.of_append_left now
    | settle call outcome now =>
      rw [show enqueued maxAttempts [Event.settle call outcome now] = ([] : List (String × ℤ)) from rfl, List.append_nil]
      exact inv_settle h hids.of_append_left call outcome now

/-! ## Draining is a run -/

/-- An awaited call is the call and the end of its handler. -/
theorem processOne_run (s : PolicyEventQueue T) (handler : Handler T) (now : String) :
    ∃ more, enqueued maxAttempts more = [] ∧ s.processOne handler now = run PolicyEventQueue.step s more := by
  unfold processOne
  split
  · rename_i s' hnext
    exact ⟨[.processNext now], rfl, (congrArg Prod.fst hnext).symm⟩
  · rename_i s' call m hnext
    refine ⟨[.processNext now, .settle call (handler call m) now], rfl, ?_⟩
    show _ = (s.processNext now).1.settle call (handler call m) now
    rw [hnext]

theorem processAll_run (s : PolicyEventQueue T) (handler : Handler T) (now : String) :
    ∃ more, enqueued maxAttempts more = [] ∧ (s.processAll handler now).1 = run PolicyEventQueue.step s more := by
  induction s using processAll.induct handler now with
  | case1 s hempty =>
    refine ⟨[], rfl, ?_⟩
    rw [processAll, dif_pos hempty]
    rfl
  | case2 s hne ih =>
    obtain ⟨first, hfirst, hone⟩ := processOne_run maxAttempts s handler now
    obtain ⟨more, hmore, hall⟩ := ih
    refine ⟨first ++ more, ?_, ?_⟩
    · rw [enqueued_append, hfirst, hmore, List.append_nil]
    · rw [processAll, dif_neg hne, run_append, ← hone]
      exact hall

/-! ## Conservation -/

/-- Every message that was enqueued is in exactly one place, and has been tried as often as it may be. -/
structure Conserves (s : PolicyEventQueue T) (entries : List (String × ℤ)) : Prop where
  /-- The ids of the entries are distinct, so one place each. -/
  places : ((located s).map fun x => key s x.2).Perm entries
  delivered : ∀ x ∈ located s, (s.delivered.count x.2.id : ℤ) ≤ max 1 (s.limit x.2)
  quarantined : ∀ r ∈ s.quarantineQueue, (s.failed.count r.message.id : ℤ) = max 1 (s.limit r.message)

variable {maxAttempts} in
theorem Inv.conserves {entries : List (String × ℤ)} (h : Inv maxAttempts entries s) : Conserves s entries := by
  refine ⟨h.places, fun x hx => ?_, fun r hr => ?_⟩
  · obtain ⟨place, m⟩ := x
    obtain ⟨hdelivered, hplace⟩ := h.fits _ hx
    have hattempts : (m.attempts : ℤ) ≤ max 1 (s.limit m) := by
      cases place with
      | pending => exact hplace.2.le
      | handling => exact hplace.2
      | succeeded => exact hplace.2
      | quarantined => exact hplace.2.le
    exact (Nat.cast_le.mpr hdelivered).trans hattempts
  · obtain ⟨-, hfailed, hattempts⟩ := h.fits (.quarantined, r.message) (List.mem_append_right _ (List.mem_map.mpr ⟨r, hr, rfl⟩))
    rw [hfailed, hattempts]

/-- **Messages are conserved** in every run, and draining the queue then gives each that waits one final result. -/
theorem conserved_run (hids : ((enqueued maxAttempts l).map Prod.fst).Nodup) :
    Conserves (run PolicyEventQueue.step (create maxAttempts) l) (enqueued maxAttempts l) ∧
      ∀ handler now, ∃ s results, (run PolicyEventQueue.step (create maxAttempts) l).processAll handler now = (s, results) ∧
        Conserves s (enqueued maxAttempts l) ∧ s.queue = [] ∧
        ((results.filter (·.outcome ≠ .retry)).map ProcessResult.messageId).Perm
          ((run PolicyEventQueue.step (create maxAttempts) l).queue.map PolicyEventMessage.id) := by
  refine ⟨(inv_events maxAttempts hids).conserves, fun handler now => ⟨_, _, rfl, ?_, processAll_finals handler now _⟩⟩
  obtain ⟨more, hmore, hall⟩ := processAll_run maxAttempts (run PolicyEventQueue.step (create maxAttempts) l) handler now
  have henqueued : enqueued maxAttempts (l ++ more) = enqueued maxAttempts l := by
    rw [enqueued_append, hmore, List.append_nil]
  have hinv := inv_events maxAttempts (l := l ++ more) (henqueued.symm ▸ hids)
  rw [henqueued, run_append, ← hall] at hinv
  exact hinv.conserves

theorem conserved_two : Conserves (T := Unit) (run PolicyEventQueue.step (create 3)
    [.enqueue ⟨"created", some (), some "a", none, none⟩ "" "t", .processNext "t", .enqueue ⟨"", none, some "b", some 0, none⟩ "" "t"])
    [("a", 3), ("b", 0)] :=
  (conserved_run 3 (l := [.enqueue ⟨"created", some (), some "a", none, none⟩ "" "t", .processNext "t",
    .enqueue ⟨"", none, some "b", some 0, none⟩ "" "t"]) (by decide)).1

end Runs

end Vellar.Policy.EventQueue
