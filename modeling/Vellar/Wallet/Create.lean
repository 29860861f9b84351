import Vellar.Lib.Table
import Vellar.Lib.Utf16
import Vellar.ServiceKit.SpendBudget

/-!
# Vellar.Wallet.Create — wallet creation

`POST /wallet/create` of `services/wallet-service/src/server.ts`, with the derivation gate of `derivation.ts` and the wallet
repositories.  A request moves from one await to the next: lookup, budget, submission, insert, session, audit.  The gate fixes the
account by the decoded key and the server's passphrase, the lookup goes by the key as spelled and the label of the body, so
`funded_iff` says a run keeps its promise exactly when no submission succeeds for an account that already has a mapping or is about
to get one, and no await after a successful submission throws.
-/

set_option autoImplicit false

namespace Vellar.Wallet.Create

open Machine ServiceKit

/-! ## The derivation gate -/

/-- The six bits of a character of either base64 alphabet. -/
def base64Digit (c : Char) : Option ℕ :=
  if 'A' ≤ c ∧ c ≤ 'Z' then some (c.toNat - 65)
  else if 'a' ≤ c ∧ c ≤ 'z' then some (c.toNat - 71)
  else if '0' ≤ c ∧ c ≤ '9' then some (c.toNat + 4)
  else if c = '+' ∨ c = '-' then some 62
  else if c = '/' ∨ c = '_' then some 63
  else none

def base64Bytes : List ℕ → List UInt8
  | a :: b :: c :: d :: rest =>
    .ofNat (a * 4 + b / 16) :: .ofNat (b % 16 * 16 + c / 4) :: .ofNat (c % 4 * 64 + d) :: base64Bytes rest
  | [a, b, c] => [.ofNat (a * 4 + b / 16), .ofNat (b % 16 * 16 + c / 4)]
  | [a, b] => [.ofNat (a * 4 + b / 16)]
  | _ => []

/-- The low byte of each UTF-16 unit of a character. -/
def lowBytes (c : Char) : List Char := (Utf16.units c.toNat).map fun unit => Char.ofNat (unit.toNat % 256)

/-- `Buffer.from(text, "base64url")`: looks at the low bytes, reads up to an `=` and skips what is in neither alphabet. -/
def bufferFromBase64url (text : String) : List UInt8 :=
  base64Bytes (((text.toList.flatMap lowBytes).takeWhile (· ≠ '=')).filterMap base64Digit)

/-- `passkey-kit` and the deployer of its factory; none where the derivation throws. -/
structure PasskeyKit where
  defaultDeployerPublicKey : String
  deriveContractAddress : List UInt8 → String → String → Option String

def deriveWalletContractId (kit : PasskeyKit) (keyIdBase64 networkPassphrase : String) : Option String :=
  kit.deriveContractAddress (bufferFromBase64url keyIdBase64) kit.defaultDeployerPublicKey networkPassphrase

/-! ## The route -/

structure CreateBody where
  keyId : String
  contractId : String
  network : BudgetNetwork
  signedTx : String
deriving DecidableEq

/-- `createBodySchema.safeParse`, of a body that has the four fields. -/
def safeParse (body : Option CreateBody) : Option CreateBody :=
  body.filter fun b => b.keyId ≠ "" && b.contractId ≠ "" && b.signedTx ≠ ""

structure WalletServiceDeps where
  networkPassphrase : Option String
  /-- Whether there is a `budget`. -/
  budget : Bool
  budgetNetwork : Option BudgetNetwork

structure WalletRecord where
  keyId : String
  contractId : String
  network : BudgetNetwork
  createdAt : String
deriving DecidableEq

def WalletRecord.key (record : WalletRecord) : BudgetNetwork × String := (record.network, record.keyId)

abbrev Wallets := Table WalletRecord.key

/-- `insert` of either repository; none where it throws `DuplicateWalletError`. -/
def insert (wallets : Wallets) (record : WalletRecord) : Option Wallets :=
  if (wallets.find record.key).isSome then none else some (wallets.put record)

inductive Reply where
  | invalidBody
  | contractIdMismatch (message : String)
  | walletExists
  | createBudgetExceeded
  | submissionFailed (error message : String)
  | created (contractId sessionId txHash : String)
  | internalError
deriving DecidableEq

def Reply.status : Reply → ℕ
  | .invalidBody => 400
  | .contractIdMismatch _ => 403
  | .walletExists => 409
  | .createBudgetExceeded => 503
  | .submissionFailed _ _ => 502
  | .created _ _ _ => 201
  | .internalError => 500

/-- `assertDerivedContractId`: the answer where it throws. -/
def gate (kit : PasskeyKit) (deps : WalletServiceDeps) (body : CreateBody) : Option Reply :=
  match deps.networkPassphrase with
  | none => none
  | some passphrase =>
    if passphrase = "" then none
    else
      match deriveWalletContractId kit body.keyId passphrase with
      | none => some .internalError
      | some expected =>
        if expected ≠ body.contractId then
          some (.contractIdMismatch ("contractId " ++ body.contractId ++ " does not match the address derived from keyId (" ++ expected ++
            "); the wallet mapping must equal derive(keyId)."))
        else none

/-- Where a request is: before its next await. -/
inductive Pc where
  | idle
  | finding (body : CreateBody)
  | consuming (body : CreateBody) (network : BudgetNetwork)
  | submitting (body : CreateBody)
  | inserting (body : CreateBody) (hash : String)
  | opening (body : CreateBody) (hash : String)
  | auditing (body : CreateBody) (hash sessionId : String)
  | answered

/-- How an await ends, with what the request draws for the next one. -/
inductive Input where
  | arrive (body : Option CreateBody)
  | found
  | consumed (ok : Bool)
  | submitted (hash : String)
  | inserted (createdAt : String)
  | opened (sessionId : String)
  | recorded
  /-- It throws: whether a write landed nevertheless, and the `SubmissionError` it is. -/
  | throws (landed : Option String) (error : Option (String × String))

inductive Event where
  /-- `tryConsume` accepted. -/
  | consumed (request : ℕ) (accepted : ConsumeRequest)
  /-- `submitter.submit` was called. -/
  | submitting (request : ℕ) (body : CreateBody)
  | submitted (request : ℕ) (body : CreateBody) (hash : String)
  | answered (request : ℕ) (reply : Reply)
deriving DecidableEq

def Event.request : Event → ℕ
  | .consumed r _ | .submitting r _ | .submitted r _ _ | .answered r _ => r

structure State where
  wallets : Wallets
  pc : ℕ → Pc
  log : List Event

def State.init : State := ⟨Table.empty, fun _ => .idle, []⟩

section Route

variable (kit : PasskeyKit) (deps : WalletServiceDeps)

/-- `POST /wallet/create` up to its first await. -/
def arrive (r : ℕ) (body : Option CreateBody) : Pc × List Event :=
  match safeParse body with
  | none => (.answered, [.answered r .invalidBody])
  | some body =>
    match gate kit deps body with
    | some reply => (.answered, [.answered r reply])
    | none => (.finding body, [])

/-- From the lookup to the budget, or to the submission where there is none. -/
def meter (wallets : Wallets) (r : ℕ) (body : CreateBody) : Pc × List Event :=
  if (wallets.find (body.network, body.keyId)).isSome then (.answered, [.answered r .walletExists])
  else if deps.budget then
    match deps.budgetNetwork with
    | none => (.answered, [.answered r .createBudgetExceeded])
    | some network => (.consuming body network, [])
  else (.submitting body, [.submitting r body])

/-- One await of a request: where it is then, what happened, and the wallets. -/
def advance (wallets : Wallets) (r : ℕ) (pc : Pc) (x : Input) : (Pc × List Event) × Wallets :=
  match pc with
  | .idle =>
    match x with
    | .arrive body => (arrive kit deps r body, wallets)
    | _ => ((pc, []), wallets)
  | .finding body =>
    match x with
    | .found => (meter deps wallets r body, wallets)
    | .throws _ _ => ((.answered, [.answered r .internalError]), wallets)
    | _ => ((pc, []), wallets)
  | .consuming body network =>
    match x with
    | .consumed true => ((.submitting body, [.consumed r ⟨.create, network, 0, none⟩, .submitting r body]), wallets)
    | .consumed false | .throws _ _ => ((.answered, [.answered r .createBudgetExceeded]), wallets)
    | _ => ((pc, []), wallets)
  | .submitting body =>
    match x with
    | .submitted hash => ((.inserting body hash, [.submitted r body hash]), wallets)
    | .throws _ error =>
      let sub := error.getD ("submission_failed", "Transaction submission failed")
      ((.answered, [.answered r (.submissionFailed sub.1 sub.2)]), wallets)
    | _ => ((pc, []), wallets)
  | .inserting body hash =>
    match x with
    | .inserted createdAt =>
      match insert wallets ⟨body.keyId, body.contractId, body.network, createdAt⟩ with
      | none => ((.answered, [.answered r .internalError]), wallets)
      | some wallets => ((.opening body hash, []), wallets)
    | .throws landed _ =>
      ((.answered, [.answered r .internalError]),
        (landed.bind fun createdAt => insert wallets ⟨body.keyId, body.contractId, body.network, createdAt⟩).getD wallets)
    | _ => ((pc, []), wallets)
  | .opening body hash =>
    match x with
    | .opened sessionId => ((.auditing body hash sessionId, []), wallets)
    | .throws _ _ => ((.answered, [.answered r .internalError]), wallets)
    | _ => ((pc, []), wallets)
  | .auditing body hash sessionId =>
    match x with
    | .recorded => ((.answered, [.answered r (.created body.contractId sessionId hash)]), wallets)
    | .throws _ _ => ((.answered, [.answered r .internalError]), wallets)
    | _ => ((pc, []), wallets)
  | .answered => ((.answered, []), wallets)

def step (s : State) (a : ℕ × Input) : State :=
  let moved := advance kit deps s.wallets a.1 (s.pc a.1) a.2
  ⟨moved.2, Function.update s.pc a.1 moved.1.1, s.log ++ moved.1.2⟩

/-! ## What is promised -/

structure Configured : Prop where
  networkPassphrase : ∃ passphrase, deps.networkPassphrase = some passphrase ∧ passphrase ≠ ""
  budget : deps.budget = true
  budgetNetwork : ∃ network, deps.budgetNetwork = some network

/-- The account is that of the key. -/
def Derived (keyId contractId : String) : Prop :=
  ∃ passphrase, deps.networkPassphrase = some passphrase ∧ deriveWalletContractId kit keyId passphrase = some contractId

/-- A submission is the only one of its request, which consumed budget for it, and is for the account of the key. -/
def Metered (pre : List Event) : Event → Prop
  | .submitting r body =>
    (∃ network, deps.budgetNetwork = some network ∧ .consumed r ⟨.create, network, 0, none⟩ ∈ pre) ∧
      (∀ body', .submitting r body' ∉ pre) ∧ Derived kit deps body.keyId body.contractId
  | _ => True

/-- No submission for the account succeeded before. -/
def Once (pre : List Event) : Event → Prop
  | .submitted _ body _ => ∀ r' body' hash', .submitted r' body' hash' ∈ pre → body'.contractId ≠ body.contractId
  | _ => True

/-- The key is mapped to the account. -/
def Mapped (wallets : Wallets) (body : CreateBody) : Prop :=
  ∃ row, wallets.find (body.network, body.keyId) = some row ∧ row.contractId = body.contractId

/-- A submission for the mapping has succeeded. -/
def Deployed (log : List Event) (row : WalletRecord) : Prop :=
  ∃ r body hash, .submitted r body hash ∈ log ∧ body.keyId = row.keyId ∧ body.network = row.network ∧ body.contractId = row.contractId

structure Funded (s : State) : Prop where
  metered : Each (Metered kit deps) s.log
  once : Each Once s.log
  answered : ∀ r body hash reply, .submitted r body hash ∈ s.log → .answered r reply ∈ s.log →
    reply.status = 201 ∧ Mapped s.wallets body
  deployed : ∀ row ∈ s.wallets.rows, Deployed s.log row

/-- A submission that succeeds is for an account that has no mapping, under any spelling and label, and gets none; and no await
after it throws. -/
def Orderly (s : State) (a : ℕ × Input) : Prop :=
  match s.pc a.1 with
  | .submitting body => ∀ hash, a.2 = .submitted hash →
    (∀ row ∈ s.wallets.rows, row.contractId ≠ body.contractId) ∧
      ∀ r body' hash', s.pc r = .inserting body' hash' → body'.contractId ≠ body.contractId
  | .inserting _ _ | .opening _ _ | .auditing _ _ _ => ∀ landed error, a.2 ≠ .throws landed error
  | _ => True

end Route

/-! ## What an await can do -/

section Moves

variable {kit : PasskeyKit} {deps : WalletServiceDeps} {wallets wallets' : Wallets} {r : ℕ} {pc : Pc} {x : Input}

theorem Derived.unique {keyId contractId contractId' : String} (h : Derived kit deps keyId contractId)
    (h' : Derived kit deps keyId contractId') : contractId = contractId' := by
  obtain ⟨passphrase, hpass, hderive⟩ := h
  obtain ⟨passphrase', hpass', hderive'⟩ := h'
  obtain rfl := Option.some.inj (hpass.symm.trans hpass')
  exact Option.some.inj (hderive.symm.trans hderive')

theorem insert_some {record : WalletRecord} (h : insert wallets record = some wallets') :
    wallets.find record.key = none ∧ wallets' = wallets.put record := by
  unfold insert at h
  split at h
  · cases h
  · next hfree => exact ⟨Option.not_isSome_iff_eq_none.mp hfree, (Option.some.inj h).symm⟩

theorem insert_none {record : WalletRecord} (h : insert wallets record = none) : ∃ row, wallets.find record.key = some row := by
  unfold insert at h
  split at h
  · next hsome => exact Option.isSome_iff_exists.mp hsome
  · cases h

/-- The gate passes the account of the key only. -/
theorem gate_none (hdeps : Configured deps) {body : CreateBody} (h : gate kit deps body = none) :
    Derived kit deps body.keyId body.contractId := by
  obtain ⟨passphrase, hpass, hne⟩ := hdeps.networkPassphrase
  unfold gate at h
  rw [hpass] at h
  dsimp only at h
  rw [if_neg hne] at h
  split at h
  · cases h
  · next expected hderive =>
    split at h
    · cases h
    · next heq => exact ⟨passphrase, hpass, not_not.mp heq ▸ hderive⟩

/-- Where no submission of the request has succeeded. -/
def Pc.Early : Pc → Prop
  | .idle | .finding _ | .consuming _ _ | .submitting _ => True
  | _ => False

/-- The submission of the request that has. -/
def Pc.late : Pc → Option (CreateBody × String)
  | .inserting body hash | .opening body hash | .auditing body hash _ => some (body, hash)
  | _ => none

/-- What one await can do. -/
inductive Move (kit : PasskeyKit) (deps : WalletServiceDeps) (wallets : Wallets) (r : ℕ) :
    Pc → Input → Pc → List Event → Wallets → Prop where
  | stay (pc : Pc) (x : Input) : Move kit deps wallets r pc x pc [] wallets
  | refuse (pc : Pc) (x : Input) (reply : Reply) (hearly : pc.Early) :
      Move kit deps wallets r pc x .answered [.answered r reply] wallets
  | begin (x : Input) (body : CreateBody) (hderived : Derived kit deps body.keyId body.contractId) :
      Move kit deps wallets r .idle x (.finding body) [] wallets
  | meter (x : Input) (body : CreateBody) (network : BudgetNetwork) (hnetwork : deps.budgetNetwork = some network) :
      Move kit deps wallets r (.finding body) x (.consuming body network) [] wallets
  | submit (x : Input) (body : CreateBody) (network : BudgetNetwork) :
      Move kit deps wallets r (.consuming body network) x (.submitting body)
        [.consumed r ⟨.create, network, 0, none⟩, .submitting r body] wallets
  | succeed (body : CreateBody) (hash : String) :
      Move kit deps wallets r (.submitting body) (.submitted hash) (.inserting body hash) [.submitted r body hash] wallets
  | put (x : Input) (body : CreateBody) (hash createdAt : String)
      (hfree : wallets.find (body.network, body.keyId) = none) :
      Move kit deps wallets r (.inserting body hash) x (.opening body hash) []
        (wallets.put ⟨body.keyId, body.contractId, body.network, createdAt⟩)
  | duplicate (x : Input) (body : CreateBody) (hash : String) (row : WalletRecord)
      (hrow : wallets.find (body.network, body.keyId) = some row) :
      Move kit deps wallets r (.inserting body hash) x .answered [.answered r .internalError] wallets
  | opened (x : Input) (body : CreateBody) (hash sessionId : String) :
      Move kit deps wallets r (.opening body hash) x (.auditing body hash sessionId) [] wallets
  | created (x : Input) (body : CreateBody) (hash sessionId : String) :
      Move kit deps wallets r (.auditing body hash sessionId) x .answered
        [.answered r (.created body.contractId sessionId hash)] wallets
  | crash (pc : Pc) (body : CreateBody) (hash : String) (hlate : pc.late = some (body, hash)) (landed : Option String)
      (error : Option (String × String)) (wallets' : Wallets)
      (hwallets : wallets' = wallets ∨ ∃ createdAt, wallets.find (body.network, body.keyId) = none ∧
        wallets' = wallets.put ⟨body.keyId, body.contractId, body.network, createdAt⟩) :
      Move kit deps wallets r pc (.throws landed error) .answered [.answered r .internalError] wallets'

/-- **Every await is one of these.** -/
theorem advance_move (hdeps : Configured deps) :
    Move kit deps wallets r pc x (advance kit deps wallets r pc x).1.1 (advance kit deps wallets r pc x).1.2
      (advance kit deps wallets r pc x).2 := by
  cases pc with
  | idle =>
    cases x with
    | arrive body =>
      show Move kit deps wallets r .idle _ (arrive kit deps r body).1 (arrive kit deps r body).2 wallets
      unfold arrive
      split
      · exact .refuse _ _ _ trivial
      · split
        · exact .refuse _ _ _ trivial
        · next body' _ _ hgate => exact .begin _ body' (gate_none hdeps hgate)
    | _ => exact .stay _ _
  | finding body =>
    cases x with
    | found =>
      show Move kit deps wallets r (.finding body) _ (meter deps wallets r body).1 (meter deps wallets r body).2 wallets
      obtain ⟨network, hnetwork⟩ := hdeps.budgetNetwork
      unfold meter
      rw [hdeps.budget, hnetwork]
      split
      · exact .refuse _ _ _ trivial
      · exact .meter _ body network hnetwork
    | throws landed error => exact .refuse _ _ _ trivial
    | _ => exact .stay _ _
  | consuming body network =>
    cases x with
    | consumed ok =>
      cases ok with
      | true => exact .submit _ body network
      | false => exact .refuse _ _ _ trivial
    | throws landed error => exact .refuse _ _ _ trivial
    | _ => exact .stay _ _
  | submitting body =>
    cases x with
    | submitted hash => exact .succeed body hash
    | throws landed error => exact .refuse _ _ _ trivial
    | _ => exact .stay _ _
  | inserting body hash =>
    cases x with
    | inserted createdAt =>
      unfold advance
      dsimp only
      split
      · next hnone =>
        obtain ⟨row, hrow⟩ := insert_none hnone
        exact .duplicate _ body hash row hrow
      · next wallets' hsome =>
        obtain ⟨hfree, rfl⟩ := insert_some hsome
        exact .put _ body hash createdAt hfree
    | throws landed error =>
      refine .crash _ body hash rfl landed error _ ?_
      unfold advance
      dsimp only
      cases hinsert : landed.bind fun createdAt => insert wallets ⟨body.keyId, body.contractId, body.network, createdAt⟩ with
      | none => exact .inl rfl
      | some wallets' =>
        obtain ⟨createdAt, -, hsome⟩ := Option.bind_eq_some_iff.mp hinsert
        obtain ⟨hfree, rfl⟩ := insert_some hsome
        exact .inr ⟨createdAt, hfree, rfl⟩
    | _ => exact .stay _ _
  | opening body hash =>
    cases x with
    | opened sessionId => exact .opened _ body hash sessionId
    | throws landed error => exact .crash _ body hash rfl landed error _ (.inl rfl)
    | _ => exact .stay _ _
  | auditing body hash sessionId =>
    cases x with
    | recorded => exact .created _ body hash sessionId
    | throws landed error => exact .crash _ body hash rfl landed error _ (.inl rfl)
    | _ => exact .stay _ _
  | answered => exact .stay _ _

end Moves

/-! ## What every run keeps -/

section Base

variable (kit : PasskeyKit) (deps : WalletServiceDeps)

/-- The request has neither submitted with success nor been answered. -/
def Unsent (log : List Event) (r : ℕ) : Prop := (∀ body hash, .submitted r body hash ∉ log) ∧ ∀ reply, .answered r reply ∉ log

/-- The request has submitted with success, and has not been answered. -/
def Sent (log : List Event) (r : ℕ) (body : CreateBody) (hash : String) : Prop :=
  .submitted r body hash ∈ log ∧ (∀ body' hash', .submitted r body' hash' ∈ log → body' = body) ∧ ∀ reply, .answered r reply ∉ log

/-- What holds of a request. -/
def Own (log : List Event) (r : ℕ) : Pc → Prop
  | .idle => ∀ e ∈ log, e.request ≠ r
  | .finding body => (∀ e ∈ log, e.request ≠ r) ∧ Derived kit deps body.keyId body.contractId
  | .consuming body network => (∀ e ∈ log, e.request ≠ r) ∧ Derived kit deps body.keyId body.contractId ∧
      deps.budgetNetwork = some network
  | .submitting body => Unsent log r ∧ Derived kit deps body.keyId body.contractId
  | .inserting body hash | .opening body hash | .auditing body hash _ => Sent log r body hash ∧
      Derived kit deps body.keyId body.contractId
  | .answered => True

structure Base (s : State) : Prop where
  own : ∀ r, Own kit deps s.log r (s.pc r)
  metered : Each (Metered kit deps) s.log
  deployed : ∀ row ∈ s.wallets.rows, Deployed s.log row
  derived : ∀ row ∈ s.wallets.rows, Derived kit deps row.keyId row.contractId

theorem base_init : Base kit deps State.init where
  own _ := fun _ h => nomatch h
  metered := each_nil
  deployed _ h := nomatch h
  derived _ h := nomatch h

variable {kit deps} {log events : List Event} {r : ℕ} {pc pc' : Pc} {x : Input} {wallets wallets' : Wallets} {s : State}

theorem unsent_of_silent (h : ∀ e ∈ log, e.request ≠ r) : Unsent log r :=
  ⟨fun _ _ hmem => h _ hmem rfl, fun _ hmem => h _ hmem rfl⟩

theorem Own.unsent (h : Own kit deps log r pc) (hearly : pc.Early) : Unsent log r := by
  cases pc with
  | idle => exact unsent_of_silent h
  | finding body => exact unsent_of_silent h.1
  | consuming body network => exact unsent_of_silent h.1
  | submitting body => exact h.1
  | inserting | opening | auditing | answered => cases hearly

theorem Own.sent (h : Own kit deps log r pc) {body : CreateBody} {hash : String} (hlate : pc.late = some (body, hash)) :
    Sent log r body hash ∧ Derived kit deps body.keyId body.contractId := by
  cases pc with
  | inserting body' hash' | opening body' hash' | auditing body' hash' _ =>
    obtain ⟨rfl, rfl⟩ := Prod.mk.inj (Option.some.inj hlate)
    exact h
  | idle | finding | consuming | submitting | answered => cases hlate

/-- The events of others leave a request alone. -/
theorem Own.others (h : Own kit deps log r pc) (hevents : ∀ e ∈ events, e.request ≠ r) : Own kit deps (log ++ events) r pc := by
  have hold : ∀ {e}, e.request = r → e ∈ log ++ events → e ∈ log := fun hr he =>
    (List.mem_append.mp he).resolve_right fun hin => hevents _ hin hr
  have hsilent : (∀ e ∈ log, e.request ≠ r) → ∀ e ∈ log ++ events, e.request ≠ r := fun hlog e he hr => hlog e (hold hr he) hr
  cases pc with
  | idle => exact hsilent h
  | finding body => exact ⟨hsilent h.1, h.2⟩
  | consuming body network => exact ⟨hsilent h.1, h.2⟩
  | submitting body =>
    exact ⟨⟨fun body hash he => h.1.1 body hash (hold rfl he), fun reply he => h.1.2 reply (hold rfl he)⟩, h.2⟩
  | inserting body hash | opening body hash | auditing body hash sessionId =>
    obtain ⟨⟨hin, honly, hopen⟩, hderived⟩ := h
    exact ⟨⟨List.mem_append_left _ hin, fun body' hash' he => honly body' hash' (hold rfl he), fun reply he => hopen reply (hold rfl he)⟩,
      hderived⟩
  | answered => trivial

/-- The events of an await are its request's. -/
theorem Move.request (h : Move kit deps wallets r pc x pc' events wallets') : ∀ e ∈ events, e.request = r := by
  intro e he
  cases h with
  | stay | begin | meter | put | opened => cases he
  | refuse | succeed | duplicate | created | crash =>
    rw [List.mem_singleton.mp he]
    rfl
  | submit =>
    rcases List.mem_cons.mp he with rfl | he
    · rfl
    · rw [List.mem_singleton.mp he]
      rfl

/-- **An await** keeps what holds of its request. -/
theorem Move.own (h : Move kit deps wallets r pc x pc' events wallets') (hown : Own kit deps log r pc) :
    Own kit deps (log ++ events) r pc' := by
  cases h with
  | stay | opened | put => exact (List.append_nil log).symm ▸ hown
  | begin x body hderived => exact ⟨(List.append_nil log).symm ▸ hown, hderived⟩
  | meter x body network hnetwork => exact ⟨(List.append_nil log).symm ▸ hown.1, hown.2, hnetwork⟩
  | submit x body network =>
    obtain ⟨hsilent, hderived, -⟩ := hown
    have hunsent := unsent_of_silent hsilent
    refine ⟨⟨fun body' hash he => ?_, fun reply he => ?_⟩, hderived⟩
    · rcases List.mem_append.mp he with he | he
      · exact hunsent.1 _ _ he
      · simp at he
    · rcases List.mem_append.mp he with he | he
      · exact hunsent.2 _ he
      · simp at he
  | succeed body hash =>
    obtain ⟨hunsent, hderived⟩ := hown
    refine ⟨⟨List.mem_append_right _ (List.mem_singleton_self _), fun body' hash' he => ?_, fun reply he => ?_⟩, hderived⟩
    · rcases List.mem_append.mp he with he | he
      · exact absurd he (hunsent.1 _ _)
      · injection List.mem_singleton.mp he with _ hbody
    · rcases List.mem_append.mp he with he | he
      · exact hunsent.2 _ he
      · cases List.mem_singleton.mp he
  | refuse | duplicate | created | crash => trivial

/-- **An await** meters what it submits. -/
theorem Move.metered (h : Move kit deps wallets r pc x pc' events wallets') (hown : Own kit deps log r pc)
    (hlog : Each (Metered kit deps) log) : Each (Metered kit deps) (log ++ events) := by
  cases h with
  | stay | begin | meter | put | opened => rwa [List.append_nil]
  | refuse | succeed | duplicate | created | crash => exact each_snoc.mpr ⟨hlog, trivial⟩
  | submit x body network =>
    obtain ⟨hsilent, hderived, hnetwork⟩ := hown
    have htwo : log ++ [.consumed r ⟨.create, network, 0, none⟩, .submitting r body] =
        log ++ [.consumed r ⟨.create, network, 0, none⟩] ++ [Event.submitting r body] := by
      rw [List.append_assoc]
      rfl
    rw [htwo]
    refine each_snoc.mpr ⟨each_snoc.mpr ⟨hlog, trivial⟩, ⟨network, hnetwork, ?_⟩, fun body' he => ?_, hderived⟩
    · exact List.mem_append_right _ (List.mem_singleton_self _)
    · rcases List.mem_append.mp he with he | he
      · exact hsilent _ he rfl
      · cases List.mem_singleton.mp he

/-- **An await** adds the mapping of its request, if any. -/
theorem Move.rows (h : Move kit deps wallets r pc x pc' events wallets') :
    wallets' = wallets ∨ ∃ body hash createdAt, pc.late = some (body, hash) ∧ wallets.find (body.network, body.keyId) = none ∧
      wallets' = wallets.put ⟨body.keyId, body.contractId, body.network, createdAt⟩ := by
  cases h with
  | put x body hash createdAt hfree => exact .inr ⟨body, hash, createdAt, rfl, hfree, rfl⟩
  | crash pc body hash hlate landed error wallets' hwallets =>
    rcases hwallets with rfl | ⟨createdAt, hfree, rfl⟩
    · exact .inl rfl
    · exact .inr ⟨body, hash, createdAt, hlate, hfree, rfl⟩
  | stay | refuse | begin | meter | submit | succeed | duplicate | opened | created => exact .inl rfl

theorem Deployed.append {row : WalletRecord} (h : Deployed log row) : Deployed (log ++ events) row := by
  obtain ⟨r, body, hash, he, hrow⟩ := h
  exact ⟨r, body, hash, List.mem_append_left _ he, hrow⟩

/-- **Step lemma**, of any step. -/
theorem base_step (hdeps : Configured deps) (h : Base kit deps s) (a : ℕ × Input) : Base kit deps (step kit deps s a) := by
  have hmove : Move kit deps s.wallets a.1 (s.pc a.1) a.2 _ _ _ := advance_move hdeps
  have hrows := hmove.rows
  refine ⟨fun r => ?_, hmove.metered (h.own a.1) h.metered, fun row hrow => ?_, fun row hrow => ?_⟩
  · show Own kit deps (s.log ++ _) r (Function.update s.pc a.1 _ r)
    by_cases hr : r = a.1
    · rw [hr, Function.update_self]
      exact hmove.own (h.own a.1)
    · rw [Function.update_of_ne hr]
      exact (h.own r).others fun e he heq => hr (heq.symm.trans (hmove.request e he))
  · show Deployed (s.log ++ _) row
    have hmem : row ∈ (advance kit deps s.wallets a.1 (s.pc a.1) a.2).2.rows := hrow
    rcases hrows with heq | ⟨body, hash, createdAt, hlate, -, heq⟩
    · rw [heq] at hmem
      exact (h.deployed row hmem).append
    · rw [heq] at hmem
      rcases Table.mem_put hmem with hold | rfl
      · exact (h.deployed row hold).append
      · exact ⟨a.1, body, hash, List.mem_append_left _ ((h.own a.1).sent hlate).1.1, rfl, rfl, rfl⟩
  · have hmem : row ∈ (advance kit deps s.wallets a.1 (s.pc a.1) a.2).2.rows := hrow
    rcases hrows with heq | ⟨body, hash, createdAt, hlate, -, heq⟩
    · rw [heq] at hmem
      exact h.derived row hmem
    · rw [heq] at hmem
      rcases Table.mem_put hmem with hold | rfl
      · exact h.derived row hold
      · exact ((h.own a.1).sent hlate).2

/-- **Every run** meters its submissions and maps deployed accounts only. -/
theorem base_run (hdeps : Configured deps) (actions : List (ℕ × Input)) : Base kit deps (run (step kit deps) State.init actions) :=
  inv_run (P := Base kit deps) (G := fun _ _ => True) (fun _ a h _ => base_step hdeps h a) (base_init kit deps) along_true

end Base

/-! ## What an orderly run keeps -/

structure Ordered (s : State) : Prop where
  once : Each Once s.log
  answered : ∀ r body hash reply, .submitted r body hash ∈ s.log → .answered r reply ∈ s.log →
    reply.status = 201 ∧ Mapped s.wallets body
  /-- A submission that succeeded is about to be mapped, or is. -/
  mapped : ∀ r body hash, .submitted r body hash ∈ s.log → s.pc r = .inserting body hash ∨ Mapped s.wallets body
  /-- An account about to be mapped has no mapping. -/
  free : ∀ r body hash, s.pc r = .inserting body hash → ∀ row ∈ s.wallets.rows, row.contractId ≠ body.contractId
  apart : ∀ r r' body body' hash hash', s.pc r = .inserting body hash → s.pc r' = .inserting body' hash' →
    body.contractId = body'.contractId → r = r'

theorem ordered_init : Ordered State.init where
  once := each_nil
  answered _ _ _ _ h := nomatch h
  mapped _ _ _ h := nomatch h
  free _ _ _ h := nomatch h
  apart _ _ _ _ _ _ h := nomatch h

section Ordered

variable {kit : PasskeyKit} {deps : WalletServiceDeps} {s : State} {r : ℕ} {pc : Pc} {events : List Event} {body : CreateBody}
  {hash : String}

theorem update_inserting (hpc : ∀ body hash, pc ≠ .inserting body hash) {r' : ℕ}
    (h : Function.update s.pc r pc r' = .inserting body hash) : s.pc r' = .inserting body hash := by
  by_cases hr : r' = r
  · rw [hr, Function.update_self] at h
    exact absurd h (hpc body hash)
  · rwa [Function.update_of_ne hr] at h

/-- A request that moves on, having nothing to insert before or after. -/
theorem Ordered.moved (h : Ordered s) (hbefore : ∀ body hash, s.pc r ≠ .inserting body hash)
    (hafter : ∀ body hash, pc ≠ .inserting body hash) (honce : Each Once (s.log ++ events))
    (hquiet : ∀ r' body hash, .submitted r' body hash ∉ events)
    (hanswered : ∀ r' body hash reply, .submitted r' body hash ∈ s.log → .answered r' reply ∈ events →
      reply.status = 201 ∧ Mapped s.wallets body) :
    Ordered ⟨s.wallets, Function.update s.pc r pc, s.log ++ events⟩ := by
  have hold : ∀ {r' body hash}, .submitted r' body hash ∈ s.log ++ events → .submitted r' body hash ∈ s.log := fun he =>
    (List.mem_append.mp he).resolve_right (hquiet _ _ _)
  exact
    { once := honce
      answered := fun r' body hash reply hsub hans => by
        rcases List.mem_append.mp hans with hans | hans
        · exact h.answered r' body hash reply (hold hsub) hans
        · exact hanswered r' body hash reply (hold hsub) hans
      mapped := fun r' body hash hsub => by
        rcases h.mapped r' body hash (hold hsub) with hins | hmap
        · refine .inl ?_
          show Function.update s.pc r pc r' = _
          have hr : r' ≠ r := by
            rintro rfl
            exact hbefore body hash hins
          rw [Function.update_of_ne hr]
          exact hins
        · exact .inr hmap
      free := fun r' body hash hins => h.free r' body hash (update_inserting hafter hins)
      apart := fun r₁ r₂ body body' hash hash' h₁ h₂ =>
        h.apart r₁ r₂ body body' hash hash' (update_inserting hafter h₁) (update_inserting hafter h₂) }

theorem Mapped.put {wallets : Wallets} {row : WalletRecord} (h : Mapped wallets body) (hfree : wallets.find row.key = none) :
    Mapped (wallets.put row) body := by
  obtain ⟨row', hrow', hsame⟩ := h
  refine ⟨row', ?_, hsame⟩
  rw [Table.find_put, if_neg]
  · exact hrow'
  · rintro heq
    rw [heq, hrow'] at hfree
    cases hfree

/-- **A submission that succeeds** for an account with no mapping and none to come. -/
theorem ordered_succeed (h : Ordered s) (hpc : s.pc r = .submitting body) (hunsent : Unsent s.log r)
    (hrows : ∀ row ∈ s.wallets.rows, row.contractId ≠ body.contractId)
    (hothers : ∀ r' body' hash', s.pc r' = .inserting body' hash' → body'.contractId ≠ body.contractId) :
    Ordered ⟨s.wallets, Function.update s.pc r (.inserting body hash), s.log ++ [.submitted r body hash]⟩ := by
  have hold : ∀ {r' body' hash'}, r' ≠ r → .submitted r' body' hash' ∈ s.log ++ [Event.submitted r body hash] →
      .submitted r' body' hash' ∈ s.log := by
    intro r' body' hash' hr he
    rcases List.mem_append.mp he with he | he
    · exact he
    · injection List.mem_singleton.mp he with heq
      exact absurd heq hr
  -- What is about to be inserted is the new one, or was before.
  have hins : ∀ {r' body' hash'}, Function.update s.pc r (.inserting body hash) r' = .inserting body' hash' →
      (r' = r ∧ body' = body) ∨ (r' ≠ r ∧ s.pc r' = .inserting body' hash') := by
    intro r' body' hash' he
    by_cases hr : r' = r
    · rw [hr, Function.update_self] at he
      injection he with hbody
      exact .inl ⟨hr, hbody.symm⟩
    · rw [Function.update_of_ne hr] at he
      exact .inr ⟨hr, he⟩
  exact
    { once := by
        refine each_snoc.mpr ⟨h.once, fun r' body' hash' hsub heq => ?_⟩
        rcases h.mapped r' body' hash' hsub with hinserting | ⟨row, hrow, hsame⟩
        · exact hothers r' body' hash' hinserting heq
        · exact hrows row (Table.mem_of_find hrow).1 (hsame.trans heq)
      answered := fun r' body' hash' reply hsub hans => by
        have hans' : .answered r' reply ∈ s.log := by
          rcases List.mem_append.mp hans with hans | hans
          · exact hans
          · cases List.mem_singleton.mp hans
        by_cases hr : r' = r
        · exact absurd (hr ▸ hans') (hunsent.2 reply)
        · exact h.answered r' body' hash' reply (hold hr hsub) hans'
      mapped := fun r' body' hash' hsub => by
        by_cases hr : r' = r
        · rcases List.mem_append.mp hsub with hsub | hsub
          · exact absurd (hr ▸ hsub) (hunsent.1 body' hash')
          · injection List.mem_singleton.mp hsub with _ hbody hhash
            refine .inl ?_
            show Function.update s.pc r _ r' = _
            rw [hr, Function.update_self, hbody, hhash]
        · rcases h.mapped r' body' hash' (hold hr hsub) with hinserting | hmap
          · refine .inl ?_
            show Function.update s.pc r _ r' = _
            rw [Function.update_of_ne hr]
            exact hinserting
          · exact .inr hmap
      free := fun r' body' hash' he row hrow => by
        rcases hins he with ⟨-, rfl⟩ | ⟨-, hold'⟩
        · exact hrows row hrow
        · exact h.free r' body' hash' hold' row hrow
      apart := fun r₁ r₂ body₁ body₂ hash₁ hash₂ h₁ h₂ heq => by
        rcases hins h₁ with ⟨hr₁, hb₁⟩ | ⟨-, hold₁⟩
        · rcases hins h₂ with ⟨hr₂, -⟩ | ⟨-, hold₂⟩
          · exact hr₁.trans hr₂.symm
          · exact absurd (heq.symm.trans (congrArg CreateBody.contractId hb₁)) (hothers _ _ _ hold₂)
        · rcases hins h₂ with ⟨-, hb₂⟩ | ⟨-, hold₂⟩
          · exact absurd (heq.trans (congrArg CreateBody.contractId hb₂)) (hothers _ _ _ hold₁)
          · exact h.apart _ _ _ _ _ _ hold₁ hold₂ heq }

/-- **The insert** of the mapping. -/
theorem ordered_put (h : Ordered s) (hpc : s.pc r = .inserting body hash) {createdAt : String}
    (hfree : s.wallets.find (body.network, body.keyId) = none) (hsent : Sent s.log r body hash) :
    Ordered ⟨s.wallets.put ⟨body.keyId, body.contractId, body.network, createdAt⟩, Function.update s.pc r (.opening body hash),
      s.log ++ []⟩ := by
  rw [List.append_nil]
  have hkeep : ∀ {body'}, Mapped s.wallets body' → Mapped (s.wallets.put ⟨body.keyId, body.contractId, body.network, createdAt⟩) body' :=
    fun hmap => hmap.put hfree
  have hins : ∀ {r' body' hash'}, Function.update s.pc r (.opening body hash) r' = .inserting body' hash' →
      r' ≠ r ∧ s.pc r' = .inserting body' hash' := by
    intro r' body' hash' he
    by_cases hr : r' = r
    · rw [hr, Function.update_self] at he
      cases he
    · rw [Function.update_of_ne hr] at he
      exact ⟨hr, he⟩
  exact
    { once := h.once
      answered := fun r' body' hash' reply hsub hans => by
        obtain ⟨hstatus, hmap⟩ := h.answered r' body' hash' reply hsub hans
        exact ⟨hstatus, hkeep hmap⟩
      mapped := fun r' body' hash' hsub => by
        rcases h.mapped r' body' hash' hsub with hinserting | hmap
        · by_cases hr : r' = r
          · obtain rfl := hsent.2.1 body' hash' (hr ▸ hsub)
            refine .inr ⟨⟨body'.keyId, body'.contractId, body'.network, createdAt⟩, ?_, rfl⟩
            rw [Table.find_put]
            exact if_pos rfl
          · refine .inl ?_
            show Function.update s.pc r _ r' = _
            rw [Function.update_of_ne hr]
            exact hinserting
        · exact .inr (hkeep hmap)
      free := fun r' body' hash' he row hrow => by
        obtain ⟨hr, hold⟩ := hins he
        rcases Table.mem_put hrow with hrow | rfl
        · exact h.free r' body' hash' hold row hrow
        · exact fun heq => hr (h.apart _ _ _ _ _ _ hold hpc heq.symm)
      apart := fun r₁ r₂ body₁ body₂ hash₁ hash₂ h₁ h₂ heq => h.apart _ _ _ _ _ _ (hins h₁).2 (hins h₂).2 heq }

/-- **Step lemma**, of an orderly step. -/
theorem ordered_step (hdeps : Configured deps) (hbase : Base kit deps s) (h : Ordered s) {a : ℕ × Input} (horderly : Orderly s a) :
    Ordered (step kit deps s a) := by
  have hmove : Move kit deps s.wallets a.1 (s.pc a.1) a.2 _ _ _ := advance_move hdeps
  have hown := hbase.own a.1
  unfold Orderly at horderly
  unfold step
  dsimp only
  obtain ⟨r, x⟩ := a
  generalize hto : advance kit deps s.wallets r (s.pc r) x = moved at hmove ⊢
  obtain ⟨⟨pc', events⟩, wallets'⟩ := moved
  dsimp only at hmove hown horderly ⊢
  generalize hpc : s.pc r = pc at hmove hown horderly
  cases hmove with
  | stay pc x =>
    rw [List.append_nil, ← hpc, Function.update_eq_self]
    exact h
  | refuse pc x reply hearly =>
    have hunsent := hown.unsent hearly
    refine h.moved ?_ (fun _ _ he => nomatch he) (each_snoc.mpr ⟨h.once, trivial⟩) (fun _ _ _ he => nomatch List.mem_singleton.mp he) ?_
    · intro body hash hins
      rw [← hpc, hins] at hearly
      exact hearly
    · intro r' body hash reply' hsub hans
      injection List.mem_singleton.mp hans with hr
      exact absurd (hr ▸ hsub) (hunsent.1 body hash)
  | begin x body hderived =>
    exact h.moved (fun _ _ he => nomatch hpc.symm.trans he) (fun _ _ he => nomatch he) ((List.append_nil _).symm ▸ h.once)
      (fun _ _ _ he => nomatch he) fun _ _ _ _ _ he => nomatch he
  | meter x body network hnetwork =>
    exact h.moved (fun _ _ he => nomatch hpc.symm.trans he) (fun _ _ he => nomatch he) ((List.append_nil _).symm ▸ h.once)
      (fun _ _ _ he => nomatch he) fun _ _ _ _ _ he => nomatch he
  | submit x body network =>
    have honce : Each Once (s.log ++ [.consumed r ⟨.create, network, 0, none⟩] ++ [.submitting r body]) :=
      each_snoc.mpr ⟨each_snoc.mpr ⟨h.once, trivial⟩, trivial⟩
    rw [List.append_assoc] at honce
    refine h.moved (fun _ _ he => nomatch hpc.symm.trans he) (fun _ _ he => nomatch he) honce ?_ ?_
    · intro r' body' hash he
      simp at he
    · intro r' body' hash reply hsub he
      simp at he
  | succeed body hash =>
    obtain ⟨hrows, hothers⟩ := horderly hash rfl
    exact ordered_succeed h hpc hown.1 hrows hothers
  | put x body hash createdAt hfree => exact ordered_put h hpc hfree hown.1
  | duplicate x body hash row hrow =>
    -- The mapping under the key is one of the account, which was free.
    obtain ⟨hmem, hkey⟩ := Table.mem_of_find hrow
    have hderived := hbase.derived row hmem
    rw [(Prod.mk.inj hkey).2] at hderived
    exact absurd (hderived.unique hown.2) (h.free r body hash hpc row hmem)
  | opened x body hash sessionId =>
    exact h.moved (fun _ _ he => nomatch hpc.symm.trans he) (fun _ _ he => nomatch he) ((List.append_nil _).symm ▸ h.once)
      (fun _ _ _ he => nomatch he) fun _ _ _ _ _ he => nomatch he
  | created x body hash sessionId =>
    refine h.moved (fun _ _ he => nomatch hpc.symm.trans he) (fun _ _ he => nomatch he) (each_snoc.mpr ⟨h.once, trivial⟩)
      (fun _ _ _ he => nomatch List.mem_singleton.mp he) ?_
    intro r' body' hash' reply hsub hans
    injection List.mem_singleton.mp hans with hr hreply
    rw [hr] at hsub
    refine ⟨hreply ▸ rfl, (h.mapped r body' hash' hsub).resolve_left fun hins => ?_⟩
    cases hpc.symm.trans hins
  | crash pc body hash hlate landed error wallets' hwallets =>
    exfalso
    cases pc with
    | inserting | opening | auditing => exact horderly landed error rfl
    | idle | finding | consuming | submitting | answered => cases hlate

/-- **A step that breaks no promise is orderly**. -/
theorem orderly_of_funded (hbase : Base kit deps s) {a : ℕ × Input} (h : Funded kit deps (step kit deps s a)) : Orderly s a := by
  obtain ⟨r, x⟩ := a
  have hown := hbase.own r
  -- After a submission that succeeded the answer is 201.
  have hcrash : ∀ landed error body hash, (s.pc r).late = some (body, hash) → x ≠ .throws landed error := by
    rintro landed error body hash hlate rfl
    obtain ⟨hsub, -, -⟩ := (hown.sent hlate).1
    have hans : .answered r .internalError ∈ (advance kit deps s.wallets r (s.pc r) (.throws landed error)).1.2 := by
      generalize s.pc r = pc at hlate
      cases pc with
      | inserting | opening | auditing => exact List.mem_singleton_self _
      | idle | finding | consuming | submitting | answered => cases hlate
    have hstatus := (h.answered r body hash .internalError (List.mem_append_left _ hsub) (List.mem_append_right _ hans)).1
    cases hstatus
  unfold Orderly
  dsimp only
  generalize hpc : s.pc r = pc at hcrash hown
  cases pc with
  | submitting body =>
    rintro hash rfl
    have hlog : (step kit deps s (r, .submitted hash)).log = s.log ++ .submitted r body hash :: [] := by
      show s.log ++ (advance kit deps s.wallets r (s.pc r) (.submitted hash)).1.2 = _
      rw [hpc]
      rfl
    have honce : Once s.log (.submitted r body hash) := h.once _ _ _ hlog
    refine ⟨fun row hrow heq => ?_, fun r' body' hash' hins => ?_⟩
    · obtain ⟨r', body', hash', hsub, -, -, hsame⟩ := hbase.deployed row hrow
      exact honce r' body' hash' hsub (hsame.trans heq)
    · have hown' := hbase.own r'
      rw [hins] at hown'
      exact honce r' body' hash' hown'.1.1
  | inserting body hash => exact fun landed error => hcrash landed error body hash rfl
  | opening body hash => exact fun landed error => hcrash landed error body hash rfl
  | auditing body hash sessionId => exact fun landed error => hcrash landed error body hash rfl
  | idle | finding | consuming | answered => trivial

/-- With no throw, the first submission that succeeds is orderly. -/
theorem orderly_of_unsubmitted (hbase : Base kit deps s) {x : Input}
    (h : ∀ hash, x = .submitted hash → ∀ r body hash, .submitted r body hash ∉ s.log)
    (hx : ∀ landed error, x ≠ .throws landed error) : Orderly s (r, x) := by
  unfold Orderly
  dsimp only
  split
  · refine fun hash hsub => ⟨fun row hrow => ?_, fun r' body' hash' hins => ?_⟩
    · obtain ⟨r', body', hash', hbefore, -⟩ := hbase.deployed row hrow
      exact absurd hbefore (h hash hsub r' body' hash')
    · have hown := hbase.own r'
      rw [hins] at hown
      exact absurd hown.1.1 (h hash hsub r' body' hash')
  · exact hx
  · exact hx
  · exact hx
  · trivial

/-- **Wallet creation is funded once and never stranded** in exactly the orderly runs. -/
theorem funded_iff (kit : PasskeyKit) {deps : WalletServiceDeps} (hdeps : Configured deps) (actions : List (ℕ × Input)) :
    (∀ pre, pre <+: actions → Funded kit deps (run (step kit deps) State.init pre)) ↔
      Along (step kit deps) Orderly State.init actions := by
  constructor
  · intro hfunded
    refine along_iff.mpr fun pre a post hsplit => ?_
    have hnext : Funded kit deps (run (step kit deps) State.init (pre ++ [a])) := hfunded _ ⟨post, by rw [hsplit]; simp⟩
    rw [run_snoc] at hnext
    exact orderly_of_funded (base_run hdeps pre) hnext
  · intro horderly pre hpre
    obtain ⟨hbase, hordered⟩ : Base kit deps (run (step kit deps) State.init pre) ∧ Ordered (run (step kit deps) State.init pre) :=
      inv_prefix (P := fun s => Base kit deps s ∧ Ordered s)
        (fun s a h ha => ⟨base_step hdeps h.1 a, ordered_step hdeps h.1 h.2 ha⟩) ⟨base_init kit deps, ordered_init⟩ horderly pre hpre
    exact ⟨hbase.metered, hordered.once, hordered.answered, hbase.deployed⟩

end Ordered

/-! ## One key under two labels -/

/-- The derivation of one key, on testnet. -/
def testnetKit : PasskeyKit where
  defaultDeployerPublicKey := "GC2C7AWLS2FMFTQAHW3IBUB4ZXVP4E37XNLEF2IK7IVXBB6CMEPCSXFO"
  deriveContractAddress key deployer passphrase :=
    if key = [0, 1, 2, 3, 4, 5, 6, 7, 8, 9, 10, 11, 12, 13, 14, 15] ∧
        deployer = "GC2C7AWLS2FMFTQAHW3IBUB4ZXVP4E37XNLEF2IK7IVXBB6CMEPCSXFO" ∧ passphrase = "Test SDF Network ; September 2015" then
      some "CA3TKZ44U5KVK7WHIIXVZ6WXVPNACXRQGKJL65L3I62QJRQF33BDSABY"
    else none

def testnetDeps : WalletServiceDeps := ⟨some "Test SDF Network ; September 2015", true, some .testnet⟩

theorem testnetDeps_configured : Configured testnetDeps :=
  ⟨⟨"Test SDF Network ; September 2015", rfl, by decide⟩, rfl, .testnet, rfl⟩

def createBody (network : BudgetNetwork) : CreateBody :=
  ⟨"AAECAwQFBgcICQoLDA0ODw", "CA3TKZ44U5KVK7WHIIXVZ6WXVPNACXRQGKJL65L3I62QJRQF33BDSABY", network, "AAAA"⟩

/-- A request whose every await resolves. -/
def createdBy (r : ℕ) (network : BudgetNetwork) : List (ℕ × Input) :=
  [(r, .arrive (some (createBody network))), (r, .found), (r, .consumed true), (r, .submitted "h"),
    (r, .inserted "2026-01-01T00:00:00.000Z"), (r, .opened "s"), (r, .recorded)]

theorem funded_created : Funded testnetKit testnetDeps (run (step testnetKit testnetDeps) State.init (createdBy 0 .testnet)) := by
  have horderly : Along (step testnetKit testnetDeps) Orderly State.init (createdBy 0 .testnet) := by
    have hlog : (run (step testnetKit testnetDeps) State.init ((createdBy 0 .testnet).take 3)).log =
        [.consumed 0 ⟨.create, .testnet, 0, none⟩, .submitting 0 (createBody .testnet)] := by decide
    refine along_iff.mpr fun pre a post hsplit => orderly_of_unsubmitted (base_run testnetDeps_configured pre) (fun hash hsub => ?_) fun landed error hthrow => ?_
    · -- Only the fourth await is the submission.
      have hget : (createdBy 0 .testnet)[pre.length]? = some a := by rw [hsplit]; simp
      have hlength : pre.length < 7 := by
        have hseven := congrArg List.length hsplit
        rw [List.length_append, List.length_cons] at hseven
        change 7 = _ at hseven
        omega
      have hfourth : ∀ i < 7, (createdBy 0 .testnet)[i]? = some a → i = 3 := by
        intro i hi hat
        interval_cases i <;> first | rfl | (obtain rfl := Option.some.inj hat; cases hsub)
      have hpre : pre = (createdBy 0 .testnet).take 3 := by
        rw [hsplit, ← hfourth _ hlength hget, List.take_left]
      rw [hpre, hlog]
      simp
    · have hmem : a ∈ createdBy 0 .testnet := hsplit ▸ by simp
      simp only [createdBy, List.mem_cons, List.not_mem_nil, or_false] at hmem
      rcases hmem with rfl | rfl | rfl | rfl | rfl | rfl | rfl <;> cases hthrow
  exact (funded_iff testnetKit testnetDeps_configured (createdBy 0 .testnet)).mpr horderly _ List.prefix_rfl

/-- The second request has the label `mainnet`, under which the key has no mapping. -/
theorem created_twice : ¬ ∀ (kit : PasskeyKit) (deps : WalletServiceDeps), Configured deps → ∀ actions pre, pre <+: actions →
    Funded kit deps (run (step kit deps) State.init pre) := by
  intro hall
  have hfunded := hall testnetKit testnetDeps testnetDeps_configured _ (createdBy 0 .testnet ++ createdBy 1 .mainnet) (List.prefix_refl _)
  have hlog : (run (step testnetKit testnetDeps) State.init (createdBy 0 .testnet ++ createdBy 1 .mainnet)).log =
      [.consumed 0 ⟨.create, .testnet, 0, none⟩, .submitting 0 (createBody .testnet), .submitted 0 (createBody .testnet) "h",
        .answered 0 (.created (createBody .testnet).contractId "s" "h"), .consumed 1 ⟨.create, .testnet, 0, none⟩,
        .submitting 1 (createBody .mainnet)] ++ .submitted 1 (createBody .mainnet) "h" ::
          [.answered 1 (.created (createBody .mainnet).contractId "s" "h")] := by
    decide
  have honce : Once _ (.submitted 1 (createBody .mainnet) "h") := hfunded.once _ _ _ hlog
  exact honce 0 (createBody .testnet) "h" (by simp) rfl

end Vellar.Wallet.Create
