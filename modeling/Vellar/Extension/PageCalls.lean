import Vellar.Extension.Wire
import Vellar.Lib.Machine

/-!
# Vellar.Extension.PageCalls — the calls of a page, across the window and the bridge

`page-provider.ts` and `sep43.ts` of `packages/provider-sdk` (`call`, the listener, `unwrap`) and `lib/bridge-handler.ts` of the
extension.  Both providers of a page and the bridge hear every message of its window, in any order, among those of other scripts;
the background answers, fails or is gone.  `calls_settled`: a call is settled at most once and its timer runs until it is, so the timer
settles it at the latest; where no other script speaks under the id of a call, it succeeds only with what the extension answered to
its own request.
-/

set_option autoImplicit false

namespace Vellar.Extension.PageCalls

open Machine Wire

/-! ## The page -/

/-- The provider a call is made with. -/
inductive Side where
  | page
  | sep43
deriving DecidableEq

structure Call where
  side : Side
  id : String
  request : ProviderRequest
deriving DecidableEq

/-- What becomes of a message to the background: the promise resolves or rejects, or `sendMessage` throws. -/
inductive Answer where
  | replied (payload : Option Json)
  | failed
  | invalidated

def errorPayload (code : ProviderErrorCode) (message : String) : Payload := .error code message

/-- What the bridge posts of it. -/
def Answer.payload : Answer → Option Json
  | .replied payload => payload
  | .failed => some (payloadJson (errorPayload .internal "The Vellar extension is unavailable"))
  | .invalidated =>
    some (payloadJson (errorPayload .internal "The Vellar extension was updated — reload this page and try again"))

/-- A message of the window; `source` is the page's own window or another. -/
structure MessageEvent where
  sameWindow : Bool
  data : Json

structure World where
  calls : List Call
  /-- Of each provider, the call an id stands for. -/
  pending : Side → String → Option ℕ
  timers : Finset ℕ
  /-- What calls were resolved with, in order. -/
  settled : List (ℕ × Payload)
  /-- Messages posted and not heard yet. -/
  window : List MessageEvent
  /-- Messages the background has yet to answer. -/
  waiting : List RequestEnvelope
  answered : List (RequestEnvelope × Answer)

def start : World := ⟨[], fun _ _ => none, ∅, [], [], [], []⟩

namespace World

variable (w : World)

def delete (side : Side) (id : String) : World :=
  { w with pending := fun side' id' => if side' = side ∧ id' = id then none else w.pending side' id' }

def clearTimeout (n : ℕ) : World := { w with timers := w.timers.erase n }

def resolve (n : ℕ) (payload : Payload) : World := { w with settled := w.settled ++ [(n, payload)] }

def post (data : Json) : World := { w with window := w.window ++ [⟨true, data⟩] }

end World

/-! ## What happens -/

inductive Event where
  | call (side : Side) (request : ProviderRequest)
  | timeout (n : ℕ)
  /-- The listeners hear the `k`-th message; `up` unless `sendMessage` throws. -/
  | hear (k : ℕ) (up : Bool)
  | reply (k : ℕ) (payload : Option Json)
  | fail (k : ℕ)
  /-- Another script posts a message. -/
  | other (message : MessageEvent)

section Steps

variable (U : UrlSchema) (newId : ℕ → String) (timeoutMs : Side → ℕ)

/-- `call` -/
def call (w : World) (side : Side) (request : ProviderRequest) : World :=
  let n := w.calls.length
  let id := newId n
  let called : World :=
    { w with
      calls := w.calls ++ [⟨side, id, request⟩]
      timers := insert n w.timers
      pending := fun side' id' => if side' = side ∧ id' = id then some n else w.pending side' id' }
  called.post (requestEnvelope id request)

def timedOut (side : Side) : Payload := errorPayload .rejected s!"Request timed out after {timeoutMs side}ms"

def timeout (w : World) (n : ℕ) : World :=
  match w.calls[n]? with
  | none => w
  | some c =>
    if n ∈ w.timers then
      if (w.pending c.side c.id).isSome then ((w.clearTimeout n).delete c.side c.id).resolve n (timedOut timeoutMs c.side)
      else w.clearTimeout n
    else w

/-- The listener of a provider. -/
def listen (w : World) (side : Side) (data : Json) : World :=
  match parseResponseEnvelope data with
  | none => w
  | some envelope =>
    match w.pending side envelope.id with
    | none => w
    | some n => ((w.delete side envelope.id).clearTimeout n).resolve n envelope.payload

def handleBridgeMessageEvent (w : World) (up : Bool) (event : MessageEvent) : World :=
  if event.sameWindow then
    match parseRequestEnvelope U event.data with
    | none => w
    | some envelope =>
      if up then { w with waiting := w.waiting ++ [envelope] }
      else
        World.post { w with answered := w.answered ++ [(envelope, .invalidated)] }
          (responseEnvelope envelope.id Answer.invalidated.payload)
  else w

/-- The promise of a message to the background is settled. -/
def answer (w : World) (k : ℕ) (a : Answer) : World :=
  match w.waiting[k]? with
  | none => w
  | some envelope =>
    World.post { w with waiting := w.waiting.eraseIdx k, answered := w.answered ++ [(envelope, a)] }
      (responseEnvelope envelope.id a.payload)

/-- The bridge and both providers hear a message. -/
def hear (w : World) (up : Bool) (event : MessageEvent) : World :=
  listen (listen (handleBridgeMessageEvent U w up event) .page event.data) .sep43 event.data

def step (w : World) : Event → World
  | .call side request => call newId w side request
  | .timeout n => timeout timeoutMs w n
  | .hear k up =>
    match w.window[k]? with
    | none => w
    | some event => hear U { w with window := w.window.eraseIdx k } up event
  | .reply k payload => answer w k (.replied payload)
  | .fail k => answer w k .failed
  | .other message => { w with window := w.window ++ [message] }

end Steps

/-- `unwrap` -/
def unwrap (payload : Payload) (method : ProviderMethod) : Except (ProviderErrorCode × String) ProviderResult :=
  match payload with
  | .error code message => .error (code, message)
  | .result result =>
    if result.method ≠ method then .error (.internal, "Mismatched response method: " ++ result.method.text) else .ok result

/-! ## What holds -/

section Statement

variable (U : UrlSchema) (newId : ℕ → String) (timeoutMs : Side → ℕ)

/-- The background was asked with the request of call `n`, and `payload` is what it answered. -/
def Answered (w : World) (n : ℕ) (payload : Payload) : Prop :=
  ∃ c e a, w.calls[n]? = some c ∧ parseRequestEnvelope U (requestEnvelope c.id c.request) = some e ∧ (e, a) ∈ w.answered ∧
    payloadSchema a.payload = some payload

/-- Calls are settled once, at the latest by their timers. -/
structure Settling (w : World) : Prop where
  once : (w.settled.map Prod.fst).Nodup
  live : ∀ n, n ∈ w.timers ↔ n < w.calls.length ∧ n ∉ w.settled.map Prod.fst
  ends : ∀ n ∈ w.timers, ∃ c, w.calls[n]? = some c ∧ (n, timedOut timeoutMs c.side) ∈ (step U newId timeoutMs w (.timeout n)).settled
  heard : ∀ k up event e n, w.window[k]? = some event → parseResponseEnvelope event.data = some e → e.id = newId n →
    n ∈ w.timers → (n, e.payload) ∈ (step U newId timeoutMs w (.hear k up)).settled

/-- How often the request of call `n` was taken to the background. -/
def timesAsked (w : World) (n : ℕ) : ℕ :=
  w.waiting.countP (fun e => e.id = newId n) + w.answered.countP (fun x => x.1.id = newId n)

/-- Calls are answered by the extension alone, each for what it asked. -/
structure Answering (w : World) : Prop where
  settled : ∀ n payload, (n, payload) ∈ w.settled →
    (∃ c, w.calls[n]? = some c ∧ payload = timedOut timeoutMs c.side) ∨ Answered U w n payload
  succeeds : ∀ n payload c result, (n, payload) ∈ w.settled → w.calls[n]? = some c →
    unwrap payload c.request.method = .ok result → result.method = c.request.method ∧ Answered U w n (.result result)
  asked : ∀ n, timesAsked newId w n ≤ 1

/-- No other script speaks under the id of a call. -/
def Event.Apart : Event → Prop
  | .other message => ∀ n, (∀ e, parseRequestEnvelope U message.data = some e → e.id ≠ newId n) ∧
      ∀ e, parseResponseEnvelope message.data = some e → e.id ≠ newId n
  | _ => True

end Statement

/-! ## Once, and at the latest by the timer -/

section Waits

variable {U : UrlSchema} {newId : ℕ → String} {timeoutMs : Side → ℕ} {w : World} {n : ℕ} {c : Call}

/-- The providers wait for just the calls whose timers run, and those are the ones not settled. -/
structure Waits (newId : ℕ → String) (w : World) : Prop where
  ids : ∀ n c, w.calls[n]? = some c → c.id = newId n
  pending : ∀ side id n, w.pending side id = some n ↔ n ∈ w.timers ∧ ∃ c, w.calls[n]? = some c ∧ c.side = side ∧ c.id = id
  live : ∀ n, n ∈ w.timers ↔ n < w.calls.length ∧ n ∉ w.settled.map Prod.fst
  settled_lt : ∀ {n}, n ∈ w.settled.map Prod.fst → n < w.calls.length
  once : (w.settled.map Prod.fst).Nodup

theorem waits_start : Waits newId start :=
  ⟨fun n c hc => absurd hc (by simp [start]), fun side id n => by simp [start], fun n => by simp [start],
    fun hn => absurd hn List.not_mem_nil, List.nodup_nil⟩

/-- What the providers keep is as it was. -/
structure SamePage (w w' : World) : Prop where
  calls : w'.calls = w.calls
  pending : w'.pending = w.pending
  timers : w'.timers = w.timers
  settled : w'.settled = w.settled

theorem SamePage.waits {w' : World} (h : SamePage w w') (hw : Waits newId w) : Waits newId w' := by
  obtain ⟨hcalls, hpending, htimers, hsettled⟩ := h
  constructor
  · rw [hcalls]
    exact hw.ids
  · rw [hpending, htimers, hcalls]
    exact hw.pending
  · rw [htimers, hcalls, hsettled]
    exact hw.live
  · rw [hsettled, hcalls]
    exact hw.settled_lt
  · rw [hsettled]
    exact hw.once

theorem window_samePage (messages : List MessageEvent) : SamePage w { w with window := messages } := ⟨rfl, rfl, rfl, rfl⟩

theorem bridge_samePage (up : Bool) (event : MessageEvent) : SamePage w (handleBridgeMessageEvent U w up event) := by
  unfold handleBridgeMessageEvent
  split
  · split
    · exact ⟨rfl, rfl, rfl, rfl⟩
    · split <;> exact ⟨rfl, rfl, rfl, rfl⟩
  · exact ⟨rfl, rfl, rfl, rfl⟩

theorem answer_samePage (k : ℕ) (a : Answer) : SamePage w (answer w k a) := by
  unfold answer
  split <;> exact ⟨rfl, rfl, rfl, rfl⟩

/-- A call is settled: it waits no longer. -/
def settle (w : World) (side : Side) (id : String) (n : ℕ) (payload : Payload) : World :=
  ((w.delete side id).clearTimeout n).resolve n payload

theorem Waits.lt (hw : Waits newId w) (hn : n ∈ w.timers) : ∃ c, w.calls[n]? = some c :=
  ⟨_, List.getElem?_eq_getElem ((hw.live n).mp hn).1⟩

theorem waits_settle (hinj : newId.Injective) (hw : Waits newId w) (hn : n ∈ w.timers) (hc : w.calls[n]? = some c)
    (payload : Payload) : Waits newId (settle w c.side c.id n payload) where
  ids := hw.ids
  pending side id m := by
    show (if side = c.side ∧ id = c.id then none else w.pending side id) = some m ↔ m ∈ w.timers.erase n ∧ _
    rw [Finset.mem_erase]
    by_cases hsame : side = c.side ∧ id = c.id
    · rw [if_pos hsame]
      obtain ⟨rfl, rfl⟩ := hsame
      simp only [reduceCtorEq, false_iff]
      rintro ⟨⟨hne, -⟩, d, hd, -, hid⟩
      have hids : newId m = newId n := (hw.ids m d hd).symm.trans (hid.trans (hw.ids n c hc))
      exact hne (hinj hids)
    · rw [if_neg hsame, hw.pending]
      constructor
      · rintro ⟨hm, d, hd, rfl, rfl⟩
        refine ⟨⟨?_, hm⟩, d, hd, rfl, rfl⟩
        rintro rfl
        obtain rfl := Option.some.inj (hc.symm.trans hd)
        exact hsame ⟨rfl, rfl⟩
      · rintro ⟨⟨-, hm⟩, hd⟩
        exact ⟨hm, hd⟩
  live m := by
    show m ∈ w.timers.erase n ↔ m < w.calls.length ∧ m ∉ (w.settled ++ [(n, payload)]).map Prod.fst
    rw [Finset.mem_erase, hw.live]
    simp only [List.map_append, List.map_cons, List.map_nil, List.mem_append, List.mem_singleton, not_or]
    tauto
  settled_lt hm := by
    have hlog : (settle w c.side c.id n payload).settled.map Prod.fst = w.settled.map Prod.fst ++ [n] := List.map_append
    rw [hlog] at hm
    rcases List.mem_append.mp hm with hm | hm
    · exact hw.settled_lt hm
    · obtain rfl := List.mem_singleton.mp hm
      exact ((hw.live _).mp hn).1
  once := by
    show ((w.settled ++ [(n, payload)]).map Prod.fst).Nodup
    rw [List.map_append]
    refine hw.once.append (List.nodup_singleton n) ?_
    intro m hm hm'
    obtain rfl := List.mem_singleton.mp hm'
    exact ((hw.live m).mp hn).2 hm

theorem listen_cases (hw : Waits newId w) (side : Side) (data : Json) : listen w side data = w ∨
    ∃ e n c, parseResponseEnvelope data = some e ∧ n ∈ w.timers ∧ w.calls[n]? = some c ∧ c.side = side ∧ c.id = e.id ∧
      listen w side data = settle w c.side c.id n e.payload := by
  unfold listen
  split
  · exact .inl rfl
  · next e he =>
    split
    · exact .inl rfl
    · next n hn =>
      obtain ⟨htimer, c, hc, rfl, hid⟩ := (hw.pending _ _ _).mp hn
      exact .inr ⟨e, n, c, he, htimer, hc, rfl, hid, by rw [hid]; rfl⟩

theorem timeout_cases (timeoutMs : Side → ℕ) (hw : Waits newId w) (n : ℕ) : (n ∉ w.timers ∧ timeout timeoutMs w n = w) ∨
    ∃ c, n ∈ w.timers ∧ w.calls[n]? = some c ∧ timeout timeoutMs w n = settle w c.side c.id n (timedOut timeoutMs c.side) := by
  by_cases hn : n ∈ w.timers
  · obtain ⟨c, hc⟩ := hw.lt hn
    have hpending : w.pending c.side c.id = some n := (hw.pending _ _ _).mpr ⟨hn, c, hc, rfl, rfl⟩
    refine .inr ⟨c, hn, hc, ?_⟩
    simp only [timeout, hc, if_pos hn, hpending, Option.isSome_some, if_true]
    rfl
  · refine .inl ⟨hn, ?_⟩
    unfold timeout
    split
    · rfl
    · rw [if_neg hn]

theorem waits_listen (hinj : newId.Injective) (hw : Waits newId w) (side : Side) (data : Json) :
    Waits newId (listen w side data) := by
  rcases listen_cases hw side data with h | ⟨e, n, c, -, hn, hc, -, -, h⟩ <;> rw [h]
  · exact hw
  · exact waits_settle hinj hw hn hc e.payload

theorem getElem?_snoc {α : Type} {l : List α} {a b : α} {n : ℕ} :
    (l ++ [a])[n]? = some b ↔ l[n]? = some b ∨ n = l.length ∧ a = b := by
  rcases Nat.lt_trichotomy n l.length with hlt | rfl | hgt
  · rw [List.getElem?_append_left hlt]
    simp [Nat.ne_of_lt hlt]
  · simp
  · rw [List.getElem?_append_right (Nat.le_of_lt hgt), List.getElem?_eq_none (Nat.le_of_lt hgt)]
    simp [Nat.ne_of_gt hgt, Nat.sub_ne_zero_of_lt hgt]

theorem waits_call (hinj : newId.Injective) (hw : Waits newId w) (side : Side) (request : ProviderRequest) :
    Waits newId (call newId w side request) where
  ids n c hc := by
    rcases getElem?_snoc.mp hc with h | ⟨rfl, rfl⟩
    · exact hw.ids n c h
    · rfl
  pending side' id' n := by
    have hfresh : w.calls.length ∉ w.timers := fun h => absurd ((hw.live _).mp h).1 (lt_irrefl _)
    show (if side' = side ∧ id' = newId w.calls.length then some w.calls.length else w.pending side' id') = some n ↔
      n ∈ insert w.calls.length w.timers ∧ ∃ c, (w.calls ++ [⟨side, newId w.calls.length, request⟩])[n]? = some c ∧ _
    simp only [getElem?_snoc, Finset.mem_insert]
    by_cases hsame : side' = side ∧ id' = newId w.calls.length
    · rw [if_pos hsame]
      obtain ⟨rfl, rfl⟩ := hsame
      constructor
      · intro h
        obtain rfl := Option.some.inj h
        exact ⟨.inl rfl, _, .inr ⟨rfl, rfl⟩, rfl, rfl⟩
      · rintro ⟨-, c, hc | ⟨rfl, -⟩, -, hid⟩
        · rw [hinj ((hw.ids n c hc).symm.trans hid)]
        · rfl
    · rw [if_neg hsame, hw.pending]
      constructor
      · rintro ⟨hn, c, hc, hrest⟩
        exact ⟨.inr hn, c, .inl hc, hrest⟩
      · rintro ⟨hn, c, hc | ⟨rfl, rfl⟩, hside, hid⟩
        · rcases hn with rfl | hn
          · exact absurd (List.getElem?_eq_some_iff.mp hc).1 (lt_irrefl _)
          · exact ⟨hn, c, hc, hside, hid⟩
        · exact absurd ⟨hside.symm, hid.symm⟩ hsame
  live n := by
    show n ∈ insert w.calls.length w.timers ↔ n < (w.calls ++ [_]).length ∧ n ∉ w.settled.map Prod.fst
    rw [Finset.mem_insert, hw.live, List.length_append, List.length_singleton]
    constructor
    · rintro (rfl | ⟨hlt, hn⟩)
      · exact ⟨Nat.lt_succ_self _, fun h => absurd (hw.settled_lt h) (lt_irrefl _)⟩
      · exact ⟨Nat.lt_succ_of_lt hlt, hn⟩
    · rintro ⟨hlt, hn⟩
      rcases Nat.lt_succ_iff_lt_or_eq.mp hlt with h | h
      · exact .inr ⟨h, hn⟩
      · exact .inl h
  settled_lt hn := (hw.settled_lt hn).trans (by simp [call, World.post])
  once := hw.once

theorem waits_step (hinj : newId.Injective) (hw : Waits newId w) (a : Event) : Waits newId (step U newId timeoutMs w a) := by
  cases a with
  | call side request => exact waits_call hinj hw side request
  | timeout n =>
    rcases timeout_cases timeoutMs hw n with ⟨-, h⟩ | ⟨c, hn, hc, h⟩ <;>
      rw [show step U newId timeoutMs w (.timeout n) = timeout timeoutMs w n from rfl, h]
    · exact hw
    · exact waits_settle hinj hw hn hc _
  | hear k up =>
    simp only [step]
    split
    · exact hw
    · next event hevent =>
      have hheard : Waits newId { w with window := w.window.eraseIdx k } := (window_samePage _).waits hw
      exact waits_listen hinj (waits_listen hinj ((bridge_samePage up event).waits hheard) .page event.data) .sep43 event.data
  | reply k payload => exact (answer_samePage k (.replied payload)).waits hw
  | fail k => exact (answer_samePage k .failed).waits hw
  | other message => exact (window_samePage _).waits hw

theorem settled_listen {x : ℕ × Payload} (side : Side) (data : Json) (h : x ∈ w.settled) : x ∈ (listen w side data).settled := by
  unfold listen
  split
  · exact h
  · split
    · exact h
    · exact List.mem_append_left _ h

/-- The provider of a call settles it with a response under its id. -/
theorem listen_own (hw : Waits newId w) {data : Json} {e : ResponseEnvelope} (he : parseResponseEnvelope data = some e)
    (hid : e.id = newId n) (hn : n ∈ w.timers) (hc : w.calls[n]? = some c) : (n, e.payload) ∈ (listen w c.side data).settled := by
  have hpending : w.pending c.side e.id = some n := (hw.pending _ _ _).mpr ⟨hn, c, hc, rfl, (hw.ids n c hc).trans hid.symm⟩
  simp only [listen, he, hpending]
  exact List.mem_append_right _ (List.mem_singleton_self _)

/-- A response under the id of another provider's call is left alone. -/
theorem listen_other (hinj : newId.Injective) (hw : Waits newId w) (side : Side) {data : Json} {e : ResponseEnvelope}
    (he : parseResponseEnvelope data = some e) (hid : e.id = newId n) (hc : w.calls[n]? = some c) (hside : c.side ≠ side) :
    listen w side data = w := by
  rcases listen_cases hw side data with h | ⟨e', m, d, he', -, hd, rfl, hdid, -⟩
  · exact h
  · obtain rfl := Option.some.inj (he.symm.trans he')
    obtain rfl : m = n := hinj ((hw.ids m d hd).symm.trans (hdid.trans hid))
    obtain rfl := Option.some.inj (hc.symm.trans hd)
    exact absurd rfl hside

theorem Waits.settling (hinj : newId.Injective) (hw : Waits newId w) : Settling U newId timeoutMs w where
  once := hw.once
  live := hw.live
  ends n hn := by
    rcases timeout_cases timeoutMs hw n with ⟨hnot, -⟩ | ⟨c, -, hc, h⟩
    · exact absurd hn hnot
    · refine ⟨c, hc, ?_⟩
      rw [show step U newId timeoutMs w (.timeout n) = timeout timeoutMs w n from rfl, h]
      exact List.mem_append_right _ (List.mem_singleton_self _)
  heard k up event e n hevent he hid hn := by
    obtain ⟨c, hc⟩ := hw.lt hn
    have hsame : SamePage w (handleBridgeMessageEvent U { w with window := w.window.eraseIdx k } up event) := by
      obtain ⟨hcalls, hpending, htimers, hsettled⟩ := bridge_samePage up event
      exact ⟨hcalls, hpending, htimers, hsettled⟩
    have hbridge := hsame.waits hw
    have hn' := hsame.timers ▸ hn
    have hc' : (handleBridgeMessageEvent U { w with window := w.window.eraseIdx k } up event).calls[n]? = some c := by
      rw [hsame.calls]
      exact hc
    simp only [step, hevent, hear]
    cases hside : c.side with
    | page =>
      have hown := listen_own hbridge he hid hn' hc'
      rw [hside] at hown
      exact settled_listen .sep43 event.data hown
    | sep43 =>
      rw [listen_other hinj hbridge .page he hid hc' (by rw [hside]; decide)]
      have hown := listen_own hbridge he hid hn' hc'
      rwa [hside] at hown

end Waits

/-! ## What the answers come from -/

section Traced

variable {U : UrlSchema} {newId : ℕ → String} {timeoutMs : Side → ℕ} {w w' : World} {n k : ℕ} {m : MessageEvent}

/-- The request as it is read is that of call `n`. -/
def Asks (U : UrlSchema) (w : World) (n : ℕ) (e : RequestEnvelope) : Prop :=
  ∃ c, w.calls[n]? = some c ∧ parseRequestEnvelope U (requestEnvelope c.id c.request) = some e

/-- A message under the id of a call is its request or an answer to it. -/
structure Genuine (U : UrlSchema) (newId : ℕ → String) (w : World) (m : MessageEvent) : Prop where
  request : ∀ e, m.sameWindow = true → parseRequestEnvelope U m.data = some e → ∀ n, e.id = newId n → Asks U w n e
  response : ∀ e, parseResponseEnvelope m.data = some e → ∀ n, e.id = newId n → Answered U w n e.payload

/-- What a later world knows. -/
structure Later (w w' : World) : Prop where
  calls : ∀ (n : ℕ) c, w.calls[n]? = some c → w'.calls[n]? = some c
  answered : ∀ x ∈ w.answered, x ∈ w'.answered

theorem Later.refl : Later w w := ⟨fun _ _ => id, fun _ => id⟩

theorem Asks.later {e : RequestEnvelope} (h : Asks U w n e) (hl : Later w w') : Asks U w' n e := by
  obtain ⟨c, hc, he⟩ := h
  exact ⟨c, hl.calls n c hc, he⟩

theorem Answered.later {payload : Payload} (h : Answered U w n payload) (hl : Later w w') : Answered U w' n payload := by
  obtain ⟨c, e, a, hc, he, ha, hpayload⟩ := h
  exact ⟨c, e, a, hl.calls n c hc, he, hl.answered _ ha, hpayload⟩

theorem Genuine.later (h : Genuine U newId w m) (hl : Later w w') : Genuine U newId w' m :=
  ⟨fun e hsame he n hid => (h.request e hsame he n hid).later hl, fun e he n hid => (h.response e he n hid).later hl⟩

/-- The bridge takes the message for a request with the id of call `n`. -/
def isRequest (U : UrlSchema) (newId : ℕ → String) (n : ℕ) (m : MessageEvent) : Bool :=
  m.sameWindow && (parseRequestEnvelope U m.data).any fun e => e.id = newId n

/-- How often the request of call `n` is on its way or was taken. -/
def asking (U : UrlSchema) (newId : ℕ → String) (w : World) (n : ℕ) : ℕ :=
  w.window.countP (isRequest U newId n) + timesAsked newId w n

structure Traced (U : UrlSchema) (newId : ℕ → String) (timeoutMs : Side → ℕ) (w : World) : Prop where
  window : ∀ m ∈ w.window, Genuine U newId w m
  waiting : ∀ e ∈ w.waiting, ∀ n, e.id = newId n → Asks U w n e
  answered : ∀ x ∈ w.answered, ∀ n, x.1.id = newId n → Asks U w n x.1
  settled : ∀ x ∈ w.settled,
    (∃ c, w.calls[x.1]? = some c ∧ x.2 = timedOut timeoutMs c.side) ∨ Answered U w x.1 x.2
  few : ∀ n, asking U newId w n ≤ 1

theorem traced_start : Traced U newId timeoutMs start :=
  ⟨fun _ hm => absurd hm List.not_mem_nil, fun _ he => absurd he List.not_mem_nil, fun _ hx => absurd hx List.not_mem_nil,
    fun _ hx => absurd hx List.not_mem_nil, fun _ => Nat.zero_le 1⟩

theorem isRequest_eq_true : isRequest U newId n m = true ↔
    m.sameWindow = true ∧ ∃ e, parseRequestEnvelope U m.data = some e ∧ e.id = newId n := by
  simp [isRequest, Option.any_eq_true]

/-- Only a call that was made is asked for. -/
theorem Traced.asking_late (h : Traced U newId timeoutMs w) (hn : w.calls.length ≤ n) : asking U newId w n = 0 := by
  have hnone : ∀ e, ¬ Asks U w n e := by
    rintro e ⟨c, hc, -⟩
    exact absurd (List.getElem?_eq_some_iff.mp hc).1 (Nat.not_lt.mpr hn)
  have hwindow : w.window.countP (isRequest U newId n) = 0 := by
    rw [List.countP_eq_zero]
    intro m hm hrequest
    obtain ⟨hsame, e, he, hid⟩ := isRequest_eq_true.mp hrequest
    exact hnone e ((h.window m hm).request e hsame he n hid)
  have hwaiting : w.waiting.countP (fun e => e.id = newId n) = 0 := by
    rw [List.countP_eq_zero]
    intro e he hid
    exact hnone e (h.waiting e he n (of_decide_eq_true hid))
  have hanswered : w.answered.countP (fun x => x.1.id = newId n) = 0 := by
    rw [List.countP_eq_zero]
    intro x hx hid
    exact hnone x.1 (h.answered x hx n (of_decide_eq_true hid))
  rw [asking, timesAsked, hwindow, hwaiting, hanswered]

theorem parseResponseEnvelope_requestEnvelope (id : String) (request : ProviderRequest) :
    parseResponseEnvelope (requestEnvelope id request) = none := by
  simp [parseResponseEnvelope, requestEnvelope, List.lookup]

theorem parseRequestEnvelope_responseEnvelope (id : String) (payload : Option Json) :
    parseRequestEnvelope U (responseEnvelope id payload) = none := by
  simp [parseRequestEnvelope, responseEnvelope, List.lookup]

theorem requestEnvelope_id {id : String} {request : ProviderRequest} {e : RequestEnvelope}
    (h : parseRequestEnvelope U (requestEnvelope id request) = some e) : e.id = id := by
  rw [parseRequestEnvelope_requestEnvelope] at h
  split at h
  · cases h
  · obtain ⟨_, -, rfl⟩ := Option.map_eq_some_iff.mp h
    rfl

theorem responseEnvelope_eq_some {id : String} {payload : Option Json} {e : ResponseEnvelope}
    (h : parseResponseEnvelope (responseEnvelope id payload) = some e) : e.id = id ∧ payloadSchema payload = some e.payload := by
  rw [parseResponseEnvelope_responseEnvelope] at h
  split at h
  · cases h
  · obtain ⟨p, hp, rfl⟩ := Option.map_eq_some_iff.mp h
    exact ⟨rfl, hp⟩

theorem traced_call (hinj : newId.Injective) (h : Traced U newId timeoutMs w) (side : Side) (request : ProviderRequest) :
    Traced U newId timeoutMs (call newId w side request) := by
  have hl : Later w (call newId w side request) := ⟨fun n c hc => getElem?_snoc.mpr (.inl hc), fun x hx => hx⟩
  have hnew : ∀ n, isRequest U newId n ⟨true, requestEnvelope (newId w.calls.length) request⟩ = true → n = w.calls.length := by
    intro n hrequest
    obtain ⟨-, e, he, hid⟩ := isRequest_eq_true.mp hrequest
    exact hinj (hid.symm.trans (requestEnvelope_id he))
  refine
    { window := fun m hm => ?_
      waiting := fun e he n hid => (h.waiting e he n hid).later hl
      answered := fun x hx n hid => (h.answered x hx n hid).later hl
      settled := fun x hx => (h.settled x hx).imp (fun ⟨c, hc, hx⟩ => ⟨c, hl.calls _ c hc, hx⟩) fun hx => hx.later hl
      few := fun n => ?_ }
  · rcases List.mem_append.mp hm with hm | hm
    · exact (h.window m hm).later hl
    · obtain rfl := List.mem_singleton.mp hm
      constructor
      · intro e _ he n hid
        obtain rfl := hinj (hid.symm.trans (requestEnvelope_id he))
        exact ⟨_, getElem?_snoc.mpr (.inr ⟨rfl, rfl⟩), he⟩
      · intro e he
        rw [parseResponseEnvelope_requestEnvelope] at he
        cases he
  · have hasking : asking U newId (call newId w side request) n =
        asking U newId w n + if isRequest U newId n ⟨true, requestEnvelope (newId w.calls.length) request⟩ then 1 else 0 := by
      show (w.window ++ [_]).countP _ + timesAsked newId w n = _
      rw [List.countP_append, List.countP_singleton, asking]
      omega
    rw [hasking]
    split
    · next hrequest => rw [h.asking_late (hnew n hrequest ▸ le_refl _)]
    · exact h.few n

/-- An answer is recorded and posted. -/
theorem traced_answered {e : RequestEnvelope} {a : Answer} {u : World} (h : Traced U newId timeoutMs w)
    (he : ∀ n, e.id = newId n → Asks U w n e) (hcalls : u.calls = w.calls) (hwaiting : ∀ e ∈ u.waiting, e ∈ w.waiting)
    (hanswered : u.answered = w.answered ++ [(e, a)]) (hsettled : u.settled = w.settled)
    (hwindow : u.window = w.window ++ [⟨true, responseEnvelope e.id a.payload⟩])
    (hfew : ∀ n, w.window.countP (isRequest U newId n) + timesAsked newId u n ≤ 1) : Traced U newId timeoutMs u := by
  have hl : Later w u := ⟨fun n c hc => by rwa [hcalls], fun x hx => by
    rw [hanswered]
    exact List.mem_append_left _ hx⟩
  refine
    { window := fun m hm => ?_
      waiting := fun e he n hid => (h.waiting e (hwaiting e he) n hid).later hl
      answered := fun x hx n hid => ?_
      settled := fun x hx => ?_
      few := fun n => ?_ }
  · rw [hwindow] at hm
    rcases List.mem_append.mp hm with hm | hm
    · exact (h.window m hm).later hl
    · obtain rfl := List.mem_singleton.mp hm
      constructor
      · intro e' _ he'
        rw [parseRequestEnvelope_responseEnvelope] at he'
        cases he'
      · intro r hr n hid
        obtain ⟨hrid, hpayload⟩ := responseEnvelope_eq_some hr
        obtain ⟨c, hc, hparse⟩ := (he n (hrid.symm.trans hid)).later hl
        refine ⟨c, e, a, hc, hparse, ?_, hpayload⟩
        rw [hanswered]
        exact List.mem_append_right _ (List.mem_singleton_self _)
  · rw [hanswered] at hx
    rcases List.mem_append.mp hx with hx | hx
    · exact (h.answered x hx n hid).later hl
    · obtain rfl := List.mem_singleton.mp hx
      exact (he n hid).later hl
  · rw [hsettled] at hx
    exact (h.settled x hx).imp (fun ⟨c, hc, hx⟩ => ⟨c, hl.calls _ c hc, hx⟩) fun hx => hx.later hl
  · have hnot : isRequest U newId n ⟨true, responseEnvelope e.id a.payload⟩ = false := by
      simp [isRequest, parseRequestEnvelope_responseEnvelope]
    rw [asking, hwindow, List.countP_append, List.countP_singleton, hnot]
    simpa using hfew n

theorem traced_settle (h : Traced U newId timeoutMs w) (side : Side) (id : String) {payload : Payload}
    (hpayload : (∃ c, w.calls[n]? = some c ∧ payload = timedOut timeoutMs c.side) ∨ Answered U w n payload) :
    Traced U newId timeoutMs (settle w side id n payload) := by
  have hl : Later w (settle w side id n payload) := ⟨fun _ _ hc => hc, fun _ hx => hx⟩
  refine ⟨fun m hm => (h.window m hm).later hl, h.waiting, h.answered, fun x hx => ?_, h.few⟩
  rcases List.mem_append.mp hx with hx | hx
  · exact h.settled x hx
  · obtain rfl := List.mem_singleton.mp hx
    exact hpayload

theorem traced_listen (hw : Waits newId w) (h : Traced U newId timeoutMs w) (hm : Genuine U newId w m) (side : Side) :
    Traced U newId timeoutMs (listen w side m.data) ∧ Later w (listen w side m.data) := by
  rcases listen_cases hw side m.data with hsame | ⟨e, n, c, he, -, hc, -, hid, hsame⟩ <;> rw [hsame]
  · exact ⟨h, .refl⟩
  · have hanswered := hm.response e he n (hid.symm.trans (hw.ids n c hc))
    exact ⟨traced_settle h _ _ (.inr hanswered), fun _ _ hc => hc, fun _ hx => hx⟩

theorem perm_eraseIdx {α : Type} {l : List α} {a : α} (h : l[k]? = some a) : l.Perm (a :: l.eraseIdx k) := by
  obtain ⟨hk, rfl⟩ := List.getElem?_eq_some_iff.mp h
  exact (List.getElem_cons_eraseIdx_perm hk).symm

/-- A message is heard by the bridge. -/
theorem traced_bridge (h : Traced U newId timeoutMs w) (hm : Genuine U newId w m) (up : Bool)
    (hroom : ∀ n, asking U newId w n + (if isRequest U newId n m then 1 else 0) ≤ 1) :
    Traced U newId timeoutMs (handleBridgeMessageEvent U w up m) ∧ Later w (handleBridgeMessageEvent U w up m) := by
  unfold handleBridgeMessageEvent
  by_cases hsame : m.sameWindow = true
  · rw [if_pos hsame]
    cases he : parseRequestEnvelope U m.data with
    | none => exact ⟨h, .refl⟩
    | some e =>
      have hasks := hm.request e hsame he
      have hrequest : ∀ n, isRequest U newId n m = decide (e.id = newId n) := by
        intro n
        simp [isRequest, hsame, he]
      simp only [hrequest, decide_eq_true_eq] at hroom
      cases up with
      | true =>
        simp only [reduceIte]
        refine ⟨⟨fun m' hm' => (h.window m' hm').later ⟨fun _ _ hc => hc, fun _ hx => hx⟩, fun e' he' n hid => ?_, h.answered,
          h.settled, fun n => ?_⟩, fun _ _ hc => hc, fun _ hx => hx⟩
        · rcases List.mem_append.mp he' with he' | he'
          · exact h.waiting e' he' n hid
          · obtain rfl := List.mem_singleton.mp he'
            exact hasks n hid
        · have hmore := hroom n
          simp only [asking, timesAsked, List.countP_append, List.countP_singleton, decide_eq_true_eq] at hmore ⊢
          omega
      | false =>
        simp only [Bool.false_eq_true, reduceIte]
        refine ⟨traced_answered (a := .invalidated) h hasks rfl (fun _ he' => he') rfl rfl rfl fun n => ?_, fun _ _ hc => hc,
          fun _ hx => List.mem_append_left _ hx⟩
        have hmore := hroom n
        simp only [asking, timesAsked, World.post, List.countP_append, List.countP_singleton, decide_eq_true_eq] at hmore ⊢
        omega
  · rw [if_neg hsame]
    exact ⟨h, .refl⟩

theorem traced_hear (hinj : newId.Injective) (hw : Waits newId w) (h : Traced U newId timeoutMs w) (hk : w.window[k]? = some m)
    (up : Bool) : Traced U newId timeoutMs (hear U { w with window := w.window.eraseIdx k } up m) := by
  have hl : Later w { w with window := w.window.eraseIdx k } := ⟨fun _ _ hc => hc, fun _ hx => hx⟩
  have hroom : ∀ n, asking U newId { w with window := w.window.eraseIdx k } n + (if isRequest U newId n m then 1 else 0) ≤ 1 := by
    intro n
    have hfew := h.few n
    rw [asking, (perm_eraseIdx hk).countP_eq, List.countP_cons] at hfew
    show (w.window.eraseIdx k).countP _ + timesAsked newId w n + _ ≤ 1
    omega
  have hrest : Traced U newId timeoutMs { w with window := w.window.eraseIdx k } :=
    ⟨fun m' hm' => (h.window m' (List.mem_of_mem_eraseIdx hm')).later hl, h.waiting, h.answered, h.settled,
      fun n => (Nat.le_add_right _ _).trans (hroom n)⟩
  have hm := (h.window m (List.mem_of_getElem? hk)).later hl
  obtain ⟨hbridge, hlbridge⟩ := traced_bridge hrest hm up hroom
  have hwbridge := (bridge_samePage (U := U) up m).waits ((window_samePage (w.window.eraseIdx k)).waits hw)
  obtain ⟨hpage, hlpage⟩ := traced_listen hwbridge hbridge (hm.later hlbridge) .page
  exact (traced_listen (waits_listen hinj hwbridge .page m.data) hpage ((hm.later hlbridge).later hlpage) .sep43).1

theorem traced_answer (h : Traced U newId timeoutMs w) (k : ℕ) (a : Answer) : Traced U newId timeoutMs (answer w k a) := by
  unfold answer
  split
  · exact h
  · next e he =>
    refine traced_answered h (h.waiting e (List.mem_of_getElem? he)) rfl (fun e' he' => List.mem_of_mem_eraseIdx he') rfl rfl rfl
      fun n => ?_
    have hfew := h.few n
    rw [asking, timesAsked, (perm_eraseIdx he).countP_eq, List.countP_cons] at hfew
    simp only [timesAsked, World.post, List.countP_append, List.countP_singleton] at hfew ⊢
    omega

theorem traced_step (hinj : newId.Injective) (hw : Waits newId w) (h : Traced U newId timeoutMs w) {a : Event}
    (ha : a.Apart U newId) : Traced U newId timeoutMs (step U newId timeoutMs w a) := by
  cases a with
  | call side request => exact traced_call hinj h side request
  | timeout n =>
    rcases timeout_cases timeoutMs hw n with ⟨-, hsame⟩ | ⟨c, -, hc, hsame⟩ <;>
      rw [show step U newId timeoutMs w (.timeout n) = timeout timeoutMs w n from rfl, hsame]
    · exact h
    · exact traced_settle h _ _ (.inl ⟨c, hc, rfl⟩)
  | hear k up =>
    simp only [step]
    split
    · exact h
    · next m hm => exact traced_hear hinj hw h hm up
  | reply k payload => exact traced_answer h k (.replied payload)
  | fail k => exact traced_answer h k .failed
  | other m =>
    have hl : Later w { w with window := w.window ++ [m] } := ⟨fun _ _ hc => hc, fun _ hx => hx⟩
    refine ⟨fun m' hm' => ?_, h.waiting, h.answered, h.settled, fun n => ?_⟩
    · rcases List.mem_append.mp hm' with hm' | hm'
      · exact (h.window m' hm').later hl
      · obtain rfl := List.mem_singleton.mp hm'
        exact ⟨fun e _ he n hid => absurd hid ((ha n).1 e he), fun e he n hid => absurd hid ((ha n).2 e he)⟩
    · have hnot : isRequest U newId n m = false := by
        rw [Bool.eq_false_iff]
        intro hrequest
        obtain ⟨-, e, he, hid⟩ := isRequest_eq_true.mp hrequest
        exact (ha n).1 e he hid
      show (w.window ++ [m]).countP _ + timesAsked newId w n ≤ 1
      rw [List.countP_append, List.countP_singleton, hnot]
      exact h.few n

theorem unwrap_eq_ok {payload : Payload} {method : ProviderMethod} {result : ProviderResult} (h : unwrap payload method = .ok result) :
    payload = .result result ∧ result.method = method := by
  unfold unwrap at h
  split at h
  · cases h
  · split at h
    · cases h
    · next hmethod =>
      obtain rfl := Except.ok.inj h
      exact ⟨rfl, not_not.mp hmethod⟩

theorem Traced.answering (h : Traced U newId timeoutMs w) : Answering U newId timeoutMs w where
  settled n payload hsettled := h.settled (n, payload) hsettled
  succeeds n payload c result hsettled _ hunwrap := by
    obtain ⟨rfl, hmethod⟩ := unwrap_eq_ok hunwrap
    refine ⟨hmethod, ?_⟩
    rcases h.settled _ hsettled with ⟨d, -, htimeout⟩ | hanswered
    · cases htimeout
    · exact hanswered
  asked n := (Nat.le_add_left _ _).trans (h.few n)

/-- **The calls of a page**: each is settled once, at the latest by its timer, and by what the extension answered to its own request
unless another script speaks under its id. -/
theorem calls_settled (U : UrlSchema) (newId : ℕ → String) (timeoutMs : Side → ℕ) (hinj : newId.Injective) (events : List Event) :
    (∀ pre, pre <+: events → Settling U newId timeoutMs (run (step U newId timeoutMs) start pre)) ∧
    ((∀ a ∈ events, a.Apart U newId) →
      ∀ pre, pre <+: events → Answering U newId timeoutMs (run (step U newId timeoutMs) start pre)) := by
  constructor
  · intro pre hpre
    have hwaits : Waits newId (run (step U newId timeoutMs) start pre) :=
      inv_prefix (P := Waits newId) (fun w a hw _ => waits_step hinj hw a) waits_start along_true pre hpre
    exact hwaits.settling hinj
  · intro hapart pre hpre
    have hguard : Along (step U newId timeoutMs) (fun _ a => a.Apart U newId) start events := by
      rw [along_iff]
      rintro p a q rfl
      exact hapart a (by simp)
    have hboth := inv_prefix (P := fun w => Waits newId w ∧ Traced U newId timeoutMs w)
      (fun w a hw ha => ⟨waits_step hinj hw.1 a, traced_step hinj hw.1 hw.2 ha⟩) ⟨waits_start, traced_start⟩ hguard pre hpre
    exact hboth.2.answering

/-- Both providers call; a script of the page makes noise, the bridge hears the calls in the other order, and the second is
answered first. -/
def sampleEvents : List Event :=
  [.call .page (.get_address .testnet), .call .sep43 .get_network,
    .other ⟨false, responseEnvelope "b" (some (payloadJson (.result .disconnect)))⟩, .hear 1 true, .hear 0 true, .hear 0 true,
    .reply 0 (some (payloadJson (.result (.get_network "testnet" "Test SDF Network ; September 2015")))), .hear 0 true, .fail 0,
    .hear 0 true]

theorem some_some (s t : String) (_ : some s = some t) : some t = some t := rfl

def sampleUrls : UrlSchema := ⟨some, some_some⟩

def sampleId (n : ℕ) : String := String.ofList (List.replicate (n + 1) 'a')

theorem calls_settled_sample : (Settling sampleUrls sampleId (fun _ => 300000)
      (run (step sampleUrls sampleId fun _ => 300000) start sampleEvents) ∧
    Answering sampleUrls sampleId (fun _ => 300000) (run (step sampleUrls sampleId fun _ => 300000) start sampleEvents)) ∧
    (run (step sampleUrls sampleId fun _ => 300000) start sampleEvents).settled =
      [(1, .result (.get_network "testnet" "Test SDF Network ; September 2015")),
        (0, .error .internal "The Vellar extension is unavailable")] := by
  have hinj : sampleId.Injective := by
    intro m n h
    have hlength := congrArg (fun s => s.toList.length) h
    simpa [sampleId] using hlength
  have hnoise : ∀ n, "b" ≠ sampleId n := by
    intro n h
    have hfirst := congrArg (fun s => s.toList.head?) h
    simp [sampleId, List.replicate_succ] at hfirst
  have hapart : ∀ a ∈ sampleEvents, a.Apart sampleUrls sampleId := by
    intro a ha
    fin_cases ha <;> try trivial
    intro n
    constructor
    · intro e he
      rw [parseRequestEnvelope_responseEnvelope] at he
      cases he
    · intro e he
      rw [(responseEnvelope_eq_some he).1]
      exact hnoise n
  have h := calls_settled sampleUrls sampleId (fun _ => 300000) hinj sampleEvents
  exact ⟨⟨h.1 _ List.prefix_rfl, h.2 hapart _ List.prefix_rfl⟩, by decide⟩

end Traced

end Vellar.Extension.PageCalls