import Vellar.Lib.Machine
import Vellar.Lib.Table

/-!
# Vellar.Wallet.Sessions — session capabilities

`services/wallet-service`: the two session repositories (`repository.ts`, `db/pg-repository.ts`), `openSession` and
`resolveSessionCapability` of `server.ts`, and the routes behind them.  A request moves from one await to the next, and any
number of requests are under way.  What the runs keep is in `Vellar.Wallet.SessionRuns`.
-/

set_option autoImplicit false

namespace Vellar.Wallet.Sessions

def SESSION_TTL_MS : ℤ := 7 * 24 * 60 * 60 * 1000

/-! ## The repositories -/

/-- The dates are times in milliseconds. -/
structure SessionRecord where
  id : String
  contractId : String
  network : String
  createdAt : ℤ
  lastActiveAt : ℤ
  expiresAt : ℤ
deriving DecidableEq

abbrev Store := Table SessionRecord.id

inductive Backend where
  | memory
  | postgres
deriving DecidableEq

def isLive (asOf : ℤ) (s : SessionRecord) : Bool := decide (asOf < s.expiresAt)

/-- The record with `lastActiveAt` and `expiresAt` set. -/
def slide (asOf newExpiresAt : ℤ) (s : SessionRecord) : SessionRecord := { s with lastActiveAt := asOf, expiresAt := newExpiresAt }

@[simp] theorem slide_id (asOf newExpiresAt : ℤ) (s : SessionRecord) : (slide asOf newExpiresAt s).id = s.id := rfl

/-- A `Map` overwrites, a table with the id as its key throws. -/
def insert (b : Backend) (t : Store) (record : SessionRecord) : Option Store :=
  match b with
  | .memory => some (t.put record)
  | .postgres => if (t.find record.id).isSome then none else some (t.put record)

def find (b : Backend) (t : Store) (id : String) (asOf : ℤ) : Option SessionRecord :=
  match b with
  | .memory =>
    match t.find id with
    | some s => if isLive asOf s then some s else none
    | none => none
  | .postgres => (t.rows.filter fun s => s.id = id && isLive asOf s).head?

def listByContract (_b : Backend) (t : Store) (contractId network : String) (asOf : ℤ) : List SessionRecord :=
  (t.rows.filter fun s => s.contractId = contractId && s.network = network && isLive asOf s).mergeSort
    fun a b => decide (b.lastActiveAt ≤ a.lastActiveAt)

def touch (b : Backend) (t : Store) (id : String) (asOf newExpiresAt : ℤ) : Store :=
  match b with
  | .memory =>
    match t.find id with
    | some s => if isLive asOf s then t.put (slide asOf newExpiresAt s) else t
    | none => t
  | .postgres => t.updateWhere (fun s => s.id = id && isLive asOf s) (slide asOf newExpiresAt)
      (slide_id asOf newExpiresAt)

def delete (_b : Backend) (t : Store) (id : String) : Store := t.removeWhere fun s => s.id = id

section Specs

variable {b : Backend} {t t' : Store} {id k : String} {asOf newExpiresAt : ℤ} {record : SessionRecord}

theorem insert_spec (h : insert b t record = some t') (k : String) : t'.find k = if record.id = k then some record else t.find k := by
  have hput : t' = t.put record := by
    cases b with
    | memory => exact (Option.some.inj h).symm
    | postgres =>
      unfold insert at h
      dsimp only at h
      split at h
      · cases h
      · exact (Option.some.inj h).symm
  rw [hput, Table.find_put]

theorem find_spec : find b t id asOf = (t.find id).filter (isLive asOf) := by
  cases b with
  | memory =>
    unfold find
    cases t.find id with
    | none => rfl
    | some s => by_cases h : isLive asOf s = true <;> simp [h, Option.filter]
  | postgres =>
    show (t.rows.filter fun s => s.id = id && isLive asOf s).head? = _
    rw [List.head?_filter]
    cases hfind : t.find id with
    | none =>
      rw [Option.filter_none, List.find?_eq_none]
      intro s hs
      simp [Table.find_eq_none.mp hfind s hs]
    | some s =>
      obtain ⟨hs, hid⟩ := Table.mem_of_find hfind
      have hunique : ∀ s' ∈ t.rows, s'.id = id → s' = s := fun s' hs' hid' => by
        have hsame := Table.find_of_mem hs'
        rw [hid', hfind] at hsame
        exact (Option.some.inj hsame).symm
      by_cases hlive : isLive asOf s = true
      · rw [Option.filter_some_pos hlive]
        cases hfirst : t.rows.find? (fun s => s.id = id && isLive asOf s) with
        | none => exact absurd (List.find?_eq_none.mp hfirst s hs) (by simp [hid, hlive])
        | some s' =>
          have hp := List.find?_some hfirst
          rw [Bool.and_eq_true, decide_eq_true_eq] at hp
          rw [hunique s' (List.mem_of_find?_eq_some hfirst) hp.1]
      · rw [Option.filter_some_neg (by simpa using hlive), List.find?_eq_none]
        intro s' hs' hp
        rw [Bool.and_eq_true, decide_eq_true_eq] at hp
        rw [hunique s' hs' hp.1] at hp
        exact hlive hp.2

theorem find_some {s : SessionRecord} : find b t id asOf = some s ↔ t.find id = some s ∧ asOf < s.expiresAt := by
  rw [find_spec, Option.filter_eq_some_iff]
  unfold isLive
  rw [decide_eq_true_eq]

theorem touch_spec (k : String) : (touch b t id asOf newExpiresAt).find k =
    (t.find k).map fun s => if s.id = id ∧ asOf < s.expiresAt then slide asOf newExpiresAt s else s := by
  cases b with
  | memory =>
    unfold touch
    cases hfind : t.find id with
    | none =>
      have hsame : ∀ s, t.find k = some s → s.id ≠ id := fun s hs => Table.find_eq_none.mp hfind s (Table.mem_of_find hs).1
      dsimp only
      cases hk : t.find k with
      | none => rfl
      | some s => rw [Option.map_some, if_neg fun h => hsame s hk h.1]
    | some s =>
      obtain ⟨-, hid⟩ := Table.mem_of_find hfind
      dsimp only
      by_cases hlive : isLive asOf s = true
      · rw [if_pos hlive, Table.find_put]
        by_cases hk : id = k
        · rw [if_pos (show (slide asOf newExpiresAt s).id = k from hid.trans hk), ← hk, hfind, Option.map_some,
            if_pos ⟨hid, of_decide_eq_true hlive⟩]
        · rw [if_neg (show ¬ (slide asOf newExpiresAt s).id = k from fun h => hk (hid.symm.trans h))]
          cases hother : t.find k with
          | none => rfl
          | some s' => rw [Option.map_some, if_neg fun h => hk (h.1.symm.trans (Table.mem_of_find hother).2)]
      · rw [if_neg hlive]
        cases hother : t.find k with
        | none => rfl
        | some s' =>
          rw [Option.map_some, if_neg]
          rintro ⟨hid', hlive'⟩
          have hsame : s' = s := by
            have hs' := Table.find_of_mem (Table.mem_of_find hother).1
            rw [hid', hfind] at hs'
            exact (Option.some.inj hs').symm
          rw [hsame] at hlive'
          exact hlive (decide_eq_true hlive')
  | postgres =>
    unfold touch
    dsimp only
    rw [Table.find_updateWhere]
    refine congrArg (fun f => (t.find k).map f) (funext fun s => ?_)
    by_cases h : s.id = id ∧ asOf < s.expiresAt
    · rw [if_pos h, if_pos (by simp [isLive, h.1, h.2])]
    · rw [if_neg h, if_neg]
      intro hp
      rw [Bool.and_eq_true, decide_eq_true_eq] at hp
      exact h ⟨hp.1, of_decide_eq_true hp.2⟩

theorem delete_spec (k : String) : (delete b t id).find k = if id = k then none else t.find k := by
  unfold delete
  rw [Table.find_removeWhere]
  cases hfind : t.find k with
  | none => rw [Option.filter_none, ite_self]
  | some s =>
    obtain ⟨-, rfl⟩ := Table.mem_of_find hfind
    by_cases hid : id = s.id
    · rw [if_pos hid, Option.filter_some_neg (by simp [hid])]
    · rw [if_neg hid, Option.filter_some_pos (by simpa using Ne.symm hid)]

theorem mem_listByContract {contractId network : String} {s : SessionRecord} (h : s ∈ listByContract b t contractId network asOf) :
    s.contractId = contractId ∧ s.network = network := by
  unfold listByContract at h
  have hmem := List.of_mem_filter ((List.mergeSort_perm _ _).subset h)
  rw [Bool.and_eq_true, Bool.and_eq_true, decide_eq_true_eq, decide_eq_true_eq] at hmem
  exact hmem.1

end Specs

/-! ## Requests -/

/-- The routes behind a bearer. -/
inductive Route where
  /-- `GET /wallet/session` -/
  | session (contractId : Option String)
  /-- `GET /wallet/sessions` -/
  | sessions (contractId network : String)
  /-- `GET /wallet/transactions` -/
  | transactions (contractId network : String)
  /-- `POST /wallet/sessions/revoke`; none where the body does not parse. -/
  | revoke (targetSessionId : Option String)
  /-- Any other. -/
  | guarded

/-- The session is one for what the route names; if not, the answer is `unauthorized`. -/
def Route.accepts : Route → SessionRecord → Bool
  | .session (some contractId), s => contractId = "" || s.contractId = contractId
  | .sessions contractId network, s | .transactions contractId network, s => s.contractId = contractId && s.network = network
  | _, _ => true

/-- Where a request is: before its next await. -/
inductive Pc where
  | idle
  | opening (record : SessionRecord)
  | finding (route : Route) (id : String) (asOf : ℤ)
  | touching (route : Route) (session : SessionRecord) (asOf : ℤ)
  | acting (route : Route) (session : SessionRecord)
  | deleting (session target : SessionRecord)
  | done

/-- What happened. -/
inductive Event where
  | issued (id contractId network : String) (asOf : ℤ)
  /-- The lookup gave the session, and the route accepts it. -/
  | authorized (request : ℕ) (id contractId network : String) (asOf : ℤ)
  /-- The lookup gave nothing; `lapsed` when the id had been issued. -/
  | refused (request : ℕ) (id : String) (asOf : ℤ) (lapsed : Bool)
  | revoked (contractId network : String) (target : SessionRecord)
  | listed (contractId network : String) (sessions : List SessionRecord)
deriving DecidableEq

def Event.issues (id : String) : Event → Bool
  | .issued id' _ _ _ => id' = id
  | _ => false

structure State where
  now : ℤ
  store : Store
  pc : ℕ → Pc
  /-- The ids `crypto.randomUUID()` has given. -/
  drawn : List String
  log : List Event

def State.init : State := ⟨0, Table.empty, fun _ => .idle, [], []⟩

inductive Action where
  | tick (ms : ℕ)
  /-- `openSession`, with the id it draws. -/
  | openSession (request : ℕ) (id contractId network : String)
  | arrive (request : ℕ) (route : Route) (bearer : Option String)
  | resume (request : ℕ)
  /-- An await of the request throws. -/
  | abandon (request : ℕ)

def State.goto (s : State) (request : ℕ) (pc : Pc) : State := { s with pc := Function.update s.pc request pc }

/-- The next await of a request. -/
def resume (b : Backend) (s : State) (request : ℕ) : State :=
  match s.pc request with
  | .opening record =>
    match insert b s.store record with
    | none => s.goto request .done
    | some store =>
      { s.goto request .done with
        store := store
        log := s.log ++ [.issued record.id record.contractId record.network record.createdAt] }
  | .finding route id asOf =>
    match find b s.store id asOf with
    | none => { s.goto request .done with log := s.log ++ [.refused request id asOf (s.log.any (Event.issues id))] }
    | some session =>
      { s.goto request (.touching route session asOf) with
        log := s.log ++
          if route.accepts session then [.authorized request id session.contractId session.network asOf] else [] }
  | .touching route session asOf =>
    { s.goto request (if route.accepts session then .acting route session else .done) with
      store := touch b s.store session.id asOf (asOf + SESSION_TTL_MS) }
  | .acting (.sessions contractId network) session =>
    { s.goto request .done with
      log := s.log ++ [.listed session.contractId session.network (listByContract b s.store contractId network s.now)] }
  | .acting (.revoke (some targetSessionId)) session =>
    match find b s.store targetSessionId s.now with
    | none => s.goto request .done
    | some target =>
      if target.contractId ≠ session.contractId ∨ target.network ≠ session.network then s.goto request .done
      else s.goto request (.deleting session target)
  | .deleting session target =>
    { s.goto request .done with
      store := delete b s.store target.id
      log := s.log ++ [.revoked session.contractId session.network target] }
  | .acting _ _ => s.goto request .done
  | .idle | .done => s

def step (b : Backend) (s : State) : Action → State
  | .tick ms => { s with now := s.now + ms }
  | .openSession request id contractId network =>
    match s.pc request with
    | .idle =>
      if id ∈ s.drawn then s
      else
        { s.goto request (.opening ⟨id, contractId, network, s.now, s.now, s.now + SESSION_TTL_MS⟩) with drawn := id :: s.drawn }
    | _ => s
  | .arrive request route bearer =>
    match s.pc request, bearer with
    | .idle, some id => s.goto request (.finding route id s.now)
    | .idle, none => s.goto request .done
    | _, _ => s
  | .resume request => resume b s request
  | .abandon request => s.goto request .done

end Vellar.Wallet.Sessions
