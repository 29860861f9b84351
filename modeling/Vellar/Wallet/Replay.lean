import Vellar.Lib.Table
import Vellar.Soroban.Host

/-!
# Vellar.Wallet.Replay — replay keys and the replay guard

`services/wallet-service/src/replay.ts` and `db/pg-replay.ts`: the `(address, nonce)` pairs of the address credentials
of a signed envelope, and the guards that reserve them, in memory and in Postgres.  `ReplayGuard` is what the submit
route relies on; both guards are instances.
-/

set_option autoImplicit false

namespace Vellar.Wallet

open Soroban

/-! ## Signed envelopes -/

structure AddressCredentials where
  address : Address
  /-- An `Int64`. -/
  nonce : ℤ
  signatureExpirationLedger : ℕ

/-- The credentials of an authorization entry; delegates are left out. -/
inductive Credentials where
  | sourceAccount
  | address (c : AddressCredentials)
  | addressV2 (c : AddressCredentials)
  | addressWithDelegates (c : AddressCredentials)

inductive Operation where
  | invokeHostFunction (auth : Option (List Credentials))
  | other

inductive Transaction where
  | transaction (operations : List Operation)
  | feeBump

/-- `addressCredentials`. -/
def addressCredentials : Credentials → Option AddressCredentials
  | .sourceAccount => none
  | .address c | .addressV2 c | .addressWithDelegates c => some c

def Operation.auth : Operation → List Credentials
  | .invokeHostFunction auth => auth.getD []
  | .other => []

/-- The address credentials of an envelope, in order; none of a fee bump or of what `fromXDR` throws on. -/
def credentialsOf : Option Transaction → List AddressCredentials
  | some (.transaction operations) => (operations.flatMap Operation.auth).filterMap addressCredentials
  | _ => []

/-- `extractAddressAuthSubjects`. -/
def extractAddressAuthSubjects (tx : Option Transaction) : List String :=
  (credentialsOf tx).map (·.address.strkey)

/-! ## Keys -/

/-- What the host lets through once: an address and a nonce in decimal. -/
structure AuthNonce where
  address : String
  nonce : String
  decimal : ':' ∉ nonce.toList
deriving DecidableEq

/-- `${k.address}:${k.nonce}` -/
def AuthNonce.id (k : AuthNonce) : String := k.address ++ ":" ++ k.nonce

structure ReplayKey extends AuthNonce where
  signatureExpirationLedger : ℕ

theorem decimal_toString (n : ℤ) : ':' ∉ (toString n).toList := by
  have hrepr : ∀ m : ℕ, ':' ∉ m.repr.toList := by
    intro m hm
    rw [Nat.toList_repr] at hm
    exact absurd (Nat.isDigit_of_mem_toDigits (by decide) (by decide) hm) (by decide)
  rw [Int.toString_eq_repr, Int.repr_eq_if]
  split
  · exact hrepr _
  · rw [String.toList_append]
    intro h
    rcases List.mem_append.mp h with h | h
    · exact absurd h (by decide)
    · exact hrepr _ h

/-- An id splits at its last colon. -/
theorem AuthNonce.id_injective : Function.Injective AuthNonce.id := by
  intro a b h
  have hlist : a.address.toList ++ ':' :: a.nonce.toList = b.address.toList ++ ':' :: b.nonce.toList := by
    have := congrArg String.toList h
    simpa [AuthNonce.id] using this
  have hsplit : a.address.toList = b.address.toList ∧ a.nonce.toList = b.nonce.toList := by
    rcases List.append_eq_append_iff.mp hlist with ⟨rest, hb, ha⟩ | ⟨rest, ha, hb⟩
    · cases rest with
      | nil => exact ⟨by simpa using hb.symm, by simpa using ha⟩
      | cons c rest =>
        obtain ⟨rfl, hnonce⟩ := List.cons.inj ha
        exact absurd (by rw [hnonce]; simp) a.decimal
    · cases rest with
      | nil => exact ⟨by simpa using ha, by simpa using hb.symm⟩
      | cons c rest =>
        obtain ⟨rfl, hnonce⟩ := List.cons.inj hb
        exact absurd (by rw [hnonce]; simp) b.decimal
  cases a
  cases b
  cases String.toList_injective hsplit.1
  cases String.toList_injective hsplit.2
  rfl

def AddressCredentials.authNonce (c : AddressCredentials) : AuthNonce :=
  ⟨c.address.strkey, toString c.nonce, decimal_toString c.nonce⟩

def AddressCredentials.replayKey (c : AddressCredentials) : ReplayKey := ⟨c.authNonce, c.signatureExpirationLedger⟩

/-- `keys`, a `Map` from ids. -/
abbrev KeyMap := Table fun k : ReplayKey => k.id

/-- `extractReplayKeys`: of entries with one pair, the last one's ledger at the first one's place. -/
def extractReplayKeys (tx : Option Transaction) : List ReplayKey :=
  ((credentialsOf tx).foldl (fun (keys : KeyMap) c => keys.put c.replayKey) Table.empty).rows

/-- Some address credential of the envelope has the pair. -/
def Carries (tx : Option Transaction) (pair : AuthNonce) : Prop := ∃ c ∈ credentialsOf tx, c.authNonce = pair

theorem find_foldl_put (cs : List AddressCredentials) (keys : KeyMap) (i : String) :
    ((cs.foldl (fun (keys : KeyMap) c => keys.put c.replayKey) keys).find i).isSome = true ↔
      (keys.find i).isSome = true ∨ ∃ c ∈ cs, c.authNonce.id = i := by
  induction cs generalizing keys with
  | nil => simp
  | cons c cs ih =>
    rw [List.foldl_cons, ih, Table.find_put, List.exists_mem_cons_iff]
    by_cases hc : c.replayKey.id = i
    · rw [if_pos hc]
      exact ⟨fun _ => Or.inr (Or.inl hc), fun _ => Or.inl rfl⟩
    · rw [if_neg hc, or_iff_right (show ¬ c.authNonce.id = i from hc)]

/-- The keys of an envelope are its pairs. -/
theorem mem_extractReplayKeys {tx : Option Transaction} {pair : AuthNonce} :
    (∃ k ∈ extractReplayKeys tx, k.toAuthNonce = pair) ↔ Carries tx pair := by
  have hfind := find_foldl_put (credentialsOf tx) Table.empty pair.id
  rw [Table.find_empty] at hfind
  refine ⟨?_, ?_⟩
  · rintro ⟨k, hk, rfl⟩
    have hsome := hfind.mp (by rw [Table.find_of_mem hk]; rfl)
    obtain ⟨c, hc, hid⟩ := hsome.resolve_left (by simp)
    exact ⟨c, hc, AuthNonce.id_injective hid⟩
  · rintro ⟨c, hc, rfl⟩
    obtain ⟨k, hk⟩ := Option.isSome_iff_exists.mp (hfind.mpr (Or.inr ⟨c, hc, rfl⟩))
    obtain ⟨hmem, hid⟩ := Table.mem_of_find hk
    exact ⟨k, hmem, AuthNonce.id_injective hid⟩

/-- No pair twice. -/
theorem nodup_extractReplayKeys (tx : Option Transaction) :
    ((extractReplayKeys tx).map ReplayKey.toAuthNonce).Nodup := by
  have hids : ((extractReplayKeys tx).map fun k => k.id).Nodup := Table.nodup _
  have hmap : ((extractReplayKeys tx).map fun k => k.id) =
      ((extractReplayKeys tx).map ReplayKey.toAuthNonce).map AuthNonce.id := by
    rw [List.map_map]
    rfl
  rw [hmap] at hids
  exact hids.of_map

/-! ## Guards -/

/-- Codes of failures before anything is sent. -/
def RELEASABLE_SUBMISSION_CODES : List String :=
  ["relayer_not_configured", "circuit_breaker_open", "sponsor_bad_tx", "sponsor_simulation_failed",
    "sponsor_fee_too_high", "sponsor_budget_exceeded"]

/-- A guard over states `γ`.  A `reserve` is one step that reserves all keys or, where it refuses, none; a `release`
goes on until no keys are left. -/
structure ReplayGuard (γ : Type) where
  IsReserved : γ → AuthNonce → Prop
  reserve : List ReplayKey → γ → Option γ
  /-- The next step of a release, and the keys it leaves for later. -/
  releaseNext : List ReplayKey → γ → List ReplayKey × γ
  fresh_of_reserve : ∀ {keys g g'}, reserve keys g = some g' → ∀ k ∈ keys, ¬ IsReserved g k.toAuthNonce
  isReserved_reserve : ∀ {keys g g'}, reserve keys g = some g' → ∀ pair,
    IsReserved g' pair ↔ IsReserved g pair ∨ ∃ k ∈ keys, k.toAuthNonce = pair
  rest_suffix : ∀ keys g, (releaseNext keys g).1 <:+ keys
  /-- Only pairs of the keys given up are released. -/
  isReserved_release : ∀ {keys g}, (keys.map ReplayKey.toAuthNonce).Nodup → ∀ pair, IsReserved g pair →
    (∀ k ∈ keys, k ∉ (releaseNext keys g).1 → k.toAuthNonce ≠ pair) → IsReserved (releaseNext keys g).2 pair

/-- `createMemoryReplayGuard`: a set of ids. -/
def createMemoryReplayGuard : ReplayGuard (List String) where
  IsReserved reserved pair := pair.id ∈ reserved
  reserve keys reserved :=
    if keys.any fun k => reserved.contains k.id then none else some (reserved ++ keys.map fun k => k.id)
  releaseNext keys reserved := ([], reserved.filter fun i => !(keys.map fun k => k.id).contains i)
  fresh_of_reserve := by
    intro keys reserved reserved' h k hk hid
    obtain ⟨hany, -⟩ := Option.ite_none_left_eq_some.mp h
    exact hany (List.any_eq_true.mpr ⟨k, hk, List.contains_iff_mem.mpr hid⟩)
  isReserved_reserve := by
    intro keys reserved reserved' h pair
    obtain ⟨-, h⟩ := Option.ite_none_left_eq_some.mp h
    obtain rfl := Option.some.inj h
    rw [List.mem_append, List.mem_map]
    refine or_congr_right ⟨?_, ?_⟩
    · rintro ⟨k, hk, hid⟩
      exact ⟨k, hk, AuthNonce.id_injective hid⟩
    · rintro ⟨k, hk, rfl⟩
      exact ⟨k, hk, rfl⟩
  rest_suffix keys reserved := List.nil_suffix
  isReserved_release := by
    intro keys reserved _ pair hpair hkeys
    refine List.mem_filter.mpr ⟨hpair, ?_⟩
    rw [Bool.not_eq_true', ← Bool.not_eq_true, List.contains_iff_mem, List.mem_map]
    rintro ⟨k, hk, hid⟩
    exact hkeys k hk List.not_mem_nil (AuthNonce.id_injective hid)

/-- A row of `submission_replay`. -/
structure ReplayRow where
  network : String
  address : String
  nonce : String
  expirationLedger : ℕ

def ReplayRow.key (r : ReplayRow) : String × String × String := (r.network, r.address, r.nonce)

abbrev ReplayTable := Table ReplayRow.key

def ReplayKey.row (network : String) (k : ReplayKey) : ReplayRow :=
  ⟨network, k.address, k.nonce, k.signatureExpirationLedger⟩

theorem row_key_eq {network : String} {k : ReplayKey} {pair : AuthNonce} :
    (k.row network).key = (network, pair.address, pair.nonce) ↔ k.toAuthNonce = pair := by
  obtain ⟨⟨address, nonce, _⟩, _⟩ := k
  obtain ⟨address', nonce', _⟩ := pair
  simp [ReplayKey.row, ReplayRow.key]

/-- The rows `release` deletes for a key. -/
def ReplayRow.matches (network : String) (k : ReplayKey) (r : ReplayRow) : Bool :=
  r.network = network && r.address = k.address && r.nonce = k.nonce

/-- `createPgReplayGuard`: the transaction rolls back unless every row was inserted. -/
def createPgReplayGuard (network : String) : ReplayGuard ReplayTable where
  IsReserved table pair := (table.find (network, pair.address, pair.nonce)).isSome = true
  reserve keys table :=
    if (table.insertNew (keys.map (·.row network))).2 = keys.length then
      some (table.insertNew (keys.map (·.row network))).1
    else none
  releaseNext keys table :=
    match keys with
    | [] => ([], table)
    | k :: rest => (rest, table.removeWhere (ReplayRow.matches network k))
  fresh_of_reserve := by
    intro keys table table' h k hk hreserved
    obtain ⟨hall, -⟩ := Option.ite_none_right_eq_some.mp h
    have hfresh := Table.fresh_of_insertNew (hall.trans (List.length_map _).symm) (k.row network)
      (List.mem_map_of_mem hk)
    rw [row_key_eq.mpr rfl] at hfresh
    rw [hfresh] at hreserved
    cases hreserved
  isReserved_reserve := by
    intro keys table table' h pair
    obtain ⟨-, h⟩ := Option.ite_none_right_eq_some.mp h
    obtain rfl := Option.some.inj h
    rw [Table.find_insertNew, Option.isSome_or, Bool.or_eq_true, List.find?_isSome]
    refine or_congr_right ⟨?_, ?_⟩
    · rintro ⟨row, hrow, hkey⟩
      obtain ⟨k, hk, rfl⟩ := List.mem_map.mp hrow
      exact ⟨k, hk, row_key_eq.mp (of_decide_eq_true hkey)⟩
    · rintro ⟨k, hk, hpair⟩
      exact ⟨k.row network, List.mem_map_of_mem hk, decide_eq_true (row_key_eq.mpr hpair)⟩
  rest_suffix keys table := by
    cases keys with
    | nil => exact List.suffix_refl _
    | cons k rest => exact List.suffix_cons k rest
  isReserved_release := by
    intro keys table hnodup pair hpair hkeys
    cases keys with
    | nil => exact hpair
    | cons k rest =>
      have hne : k.toAuthNonce ≠ pair := by
        refine hkeys k List.mem_cons_self fun hmem => ?_
        exact (List.nodup_cons.mp hnodup).1 (List.mem_map_of_mem hmem)
      obtain ⟨row, hrow⟩ := Option.isSome_iff_exists.mp hpair
      obtain ⟨-, hkey⟩ := Table.mem_of_find hrow
      rw [Table.find_removeWhere, hrow, Option.filter_some_pos]
      · rfl
      · rw [Bool.not_eq_true', ← Bool.not_eq_true]
        intro hmatch
        apply hne
        simp only [ReplayRow.matches, Bool.and_eq_true, decide_eq_true_eq] at hmatch
        have hsame : (k.row network).key = (network, pair.address, pair.nonce) := by
          rw [← hkey]
          unfold ReplayKey.row ReplayRow.key
          rw [hmatch.1.1, hmatch.1.2, hmatch.2]
        exact row_key_eq.mp hsame

end Vellar.Wallet
