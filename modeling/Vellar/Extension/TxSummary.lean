import Vellar.Extension.TxSigner
import Vellar.Lib.Decimal

/-!
# Vellar.Extension.TxSummary — what the approval prompt shows of a transaction

`apps/extension/lib/tx-summary.ts`.  The summary reads the host functions of a transaction, `signTransactionXdr` signs
the auth entries: `reveals_iff` says when a transfer that an entry authorizes is flagged, and which amounts are printed exactly.
-/

set_option autoImplicit false

namespace Vellar.Extension

open Effect Soroban Signer
open Worker (trim trim_eq_self isJsSpace)

/-! ## Summaries -/

inductive OperationSummary where
  | transfer (token recipient amount : String)
  | contractCall (contract fn : String)
  | other (label : String)
deriving DecidableEq

structure TransactionSummary where
  operations : List OperationSummary
  movesValue : Bool
  undecoded : Bool

structure InvokeContract where
  contract : String
  fn : String
  args : List Val

def readInvokeContract : HostFunction → Option InvokeContract
  | .invokeContract call => some ⟨call.contractAddress.strkey, call.functionName, call.args⟩
  | .other => none

section Summary

variable {R : Type} (sdk : Sdk R)

def scvalToStringSafe : Val → Option String
  | .address a => some a.strkey
  | .i128 n => some (toString n.val)
  | .other xdr => sdk.nativeText xdr

/-- The recipient and the amount of what is taken for a SEP-41 transfer. -/
def readTransfer (invoke : InvokeContract) : Option (String × String) :=
  if invoke.fn = "transfer" ∧ 3 ≤ invoke.args.length then do
    let recipient ← invoke.args[1]?.bind (scvalToStringSafe sdk)
    let amount ← invoke.args[2]?.bind (scvalToStringSafe sdk)
    pure (recipient, amount)
  else none

def summarizeOperation : Operation → OperationSummary
  | .other type => .other (type.getD "an operation")
  | .invokeHostFunction func _ =>
    match readInvokeContract func with
    | none => .contractCall "a contract" "a function"
    | some invoke =>
      match readTransfer sdk invoke with
      | some (recipient, amount) => .transfer invoke.contract recipient amount
      | none => .contractCall invoke.contract invoke.fn

def OperationSummary.isTransfer : OperationSummary → Bool
  | .transfer _ _ _ => true
  | _ => false

def summarizeTransaction (xdr : String) (network : Network) : TransactionSummary :=
  match sdk.fromXDR xdr (networkPassphrase network) with
  | none => { operations := [.other "a transaction"], movesValue := false, undecoded := true }
  | some tx =>
    match tx.operations with
    | none | some [] => { operations := [.other "a transaction"], movesValue := false, undecoded := false }
    | some operations =>
      let summaries := operations.map (summarizeOperation sdk)
      { operations := summaries, movesValue := summaries.any OperationSummary.isTransfer, undecoded := false }

end Summary

/-! ## Amounts -/

/-- A digit in a radix up to 36. -/
def digitIn (radix : ℕ) (c : Char) : Option ℕ :=
  let d := if '0' ≤ c ∧ c ≤ '9' then c.toNat - 48
    else if 'a' ≤ c ∧ c ≤ 'z' then c.toNat - 87
    else if 'A' ≤ c ∧ c ≤ 'Z' then c.toNat - 55
    else radix
  if d < radix then some d else none

def naturalIn (radix : ℕ) (cs : List Char) : Option ℕ :=
  if cs = [] then none else cs.foldlM (fun n c => (digitIn radix c).map (radix * n + ·)) 0

/-- A literal with a prefix for its radix. -/
def prefixedNatural : List Char → Option ℕ
  | '0' :: c :: cs =>
    if c = 'x' ∨ c = 'X' then naturalIn 16 cs
    else if c = 'o' ∨ c = 'O' then naturalIn 8 cs
    else if c = 'b' ∨ c = 'B' then naturalIn 2 cs
    else none
  | _ => none

/-- `BigInt(s)`; none where it throws. -/
def bigInt (s : String) : Option ℤ :=
  match (trim s).toList with
  | [] => some 0
  | '-' :: cs => (Decimal.natural cs).map fun n : ℕ => -(n : ℤ)
  | '+' :: cs => (Decimal.natural cs).map fun n : ℕ => (n : ℤ)
  | cs => ((Decimal.natural cs).or (prefixedNatural cs)).map fun n : ℕ => (n : ℤ)

/-- Bigint division and its remainder round toward zero. -/
def formatStroops (stroops : String) : String :=
  match bigInt stroops with
  | none => stroops
  | some n =>
    let whole := (toString (n.tdiv 10000000)).toList
    let frac := Decimal.stripZeros (Decimal.padStart 7 (toString (n.tmod 10000000)).toList)
    String.ofList (Decimal.withFraction whole frac)

theorem isJsSpace_of_isDigit {c : Char} (h : c.isDigit = true) : isJsSpace c = false := by
  simp only [Char.isDigit, Bool.and_eq_true, decide_eq_true_eq] at h
  have hlo : 48 ≤ c.toNat := h.1
  have hhi : c.toNat ≤ 57 := h.2
  unfold isJsSpace
  simp only [Bool.or_eq_false_iff, decide_eq_false_iff_not, Bool.and_eq_false_iff, List.mem_cons, List.not_mem_nil, or_false]
  omega

theorem toList_natCast (m : ℕ) : (toString (m : ℤ)).toList = Nat.toDigits 10 m := by
  rw [show toString (m : ℤ) = m.repr from rfl, Nat.toList_repr]

theorem toList_neg {m : ℕ} (h : 0 < m) : (toString (-(m : ℤ))).toList = '-' :: Nat.toDigits 10 m := by
  obtain ⟨m, rfl⟩ := Nat.exists_eq_add_of_lt h
  rw [Int.toString_eq_repr, Int.repr_eq_if, if_neg (by omega), Int.neg_neg, Int.toNat_natCast, String.toList_append, Nat.toList_repr]
  rfl

theorem bigInt_natCast (m : ℕ) : bigInt (toString (m : ℤ)) = some (m : ℤ) := by
  have htrim : trim (toString (m : ℤ)) = toString (m : ℤ) := trim_eq_self fun c hc => by
    rw [toList_natCast] at hc
    exact isJsSpace_of_isDigit (Decimal.isDigit_toDigits hc)
  have hhead : ∀ c cs, Nat.toDigits 10 m = c :: cs → c.isDigit = true := fun c cs h => Decimal.isDigit_toDigits (h ▸ List.mem_cons_self)
  unfold bigInt
  rw [htrim, toList_natCast]
  split
  · next h => exact absurd h Nat.toDigits_ne_nil
  · next cs h => exact absurd (hhead '-' cs h) (by decide)
  · next cs h => exact absurd (hhead '+' cs h) (by decide)
  · rw [Decimal.natural_toDigits]
    rfl

theorem bigInt_neg {m : ℕ} (h : 0 < m) : bigInt (toString (-(m : ℤ))) = some (-(m : ℤ)) := by
  have htrim : trim (toString (-(m : ℤ))) = toString (-(m : ℤ)) := trim_eq_self fun c hc => by
    rw [toList_neg h] at hc
    rcases List.mem_cons.mp hc with rfl | hc
    · decide
    · exact isJsSpace_of_isDigit (Decimal.isDigit_toDigits hc)
  unfold bigInt
  rw [htrim, toList_neg h]
  show (Decimal.natural (Nat.toDigits 10 m)).map _ = _
  rw [Decimal.natural_toDigits]
  rfl

theorem formatStroops_natCast (m : ℕ) : formatStroops (toString (m : ℤ)) =
    String.ofList (Decimal.withFraction (Nat.toDigits 10 (m / 10000000)) (Decimal.fraction 7 (m % 10000000))) := by
  have hdiv : (m : ℤ).tdiv 10000000 = (m / 10000000 : ℕ) := rfl
  have hmod : (m : ℤ).tmod 10000000 = (m % 10000000 : ℕ) := rfl
  unfold formatStroops
  rw [bigInt_natCast]
  simp only [hdiv, hmod, toList_natCast]
  rfl

theorem cast_div_mod (m : ℕ) : ((m / 10000000 : ℕ) : ℚ) + (m % 10000000 : ℕ) / 10 ^ 7 = m / 10 ^ 7 := by
  have hsplit : (10000000 : ℚ) * (m / 10000000 : ℕ) + (m % 10000000 : ℕ) = m := by exact_mod_cast Nat.div_add_mod m 10000000
  rw [← hsplit]
  ring

/-- A natural number of stroops is printed exactly. -/
theorem value_formatStroops_natCast (m : ℕ) : Decimal.value (formatStroops (toString (m : ℤ))) = some ((m : ℚ) / 10 ^ 7) := by
  have hunsigned := @Decimal.unsigned_withFraction (m / 10000000) 7 (m % 10000000) (by decide) (Nat.mod_lt _ (by decide))
  rw [cast_div_mod] at hunsigned
  obtain ⟨d, ds, hds⟩ := List.exists_cons_of_ne_nil (Nat.toDigits_ne_nil (n := m / 10000000) (b := 10))
  have hcons : ∃ rest, Decimal.withFraction (Nat.toDigits 10 (m / 10000000)) (Decimal.fraction 7 (m % 10000000)) = d :: rest := by
    unfold Decimal.withFraction
    rw [hds]
    split
    · exact ⟨ds, rfl⟩
    · exact ⟨_, rfl⟩
  obtain ⟨rest, hrest⟩ := hcons
  rw [formatStroops_natCast, hrest, Decimal.value_digit (Decimal.isDigit_toDigits (hds ▸ List.mem_cons_self)), ← hrest, hunsigned]

theorem formatStroops_neg {m : ℕ} (hm : 0 < m) : formatStroops (toString (-(m : ℤ))) =
    String.ofList (Decimal.withFraction (toString (-((m / 10000000 : ℕ) : ℤ))).toList
      (Decimal.stripZeros (Decimal.padStart 7 (toString (-((m % 10000000 : ℕ) : ℤ))).toList))) := by
  have hdiv : (-(m : ℤ)).tdiv 10000000 = -((m / 10000000 : ℕ) : ℤ) := Int.neg_tdiv _ _
  have hmod : (-(m : ℤ)).tmod 10000000 = -((m % 10000000 : ℕ) : ℤ) := Int.neg_tmod _ _
  unfold formatStroops
  rw [bigInt_neg hm]
  simp only [hdiv, hmod]

/-- A number of whole units is printed exactly. -/
theorem value_formatStroops_neg_of_dvd {m : ℕ} (hm : 0 < m) (h : m % 10000000 = 0) :
    Decimal.value (formatStroops (toString (-(m : ℤ)))) = some (-(m : ℚ) / 10 ^ 7) := by
  have hwhole : 0 < m / 10000000 := by omega
  have hvalue := cast_div_mod m
  have hempty : Decimal.stripZeros (Decimal.padStart 7 (toString (-((0 : ℕ) : ℤ))).toList) = [] := by decide
  rw [formatStroops_neg hm, h, hempty, Decimal.withFraction, if_pos rfl, toList_neg hwhole, Decimal.value_minus, Decimal.unsigned_toDigits,
    Option.map_some, neg_div, ← hvalue, h, Nat.cast_zero, zero_div, add_zero]

/-- Any other negative number is printed with a sign after the point. -/
theorem value_formatStroops_neg_of_not_dvd {m : ℕ} (hm : 0 < m) (h : m % 10000000 ≠ 0) :
    Decimal.value (formatStroops (toString (-(m : ℤ)))) = none := by
  have hminus : '-' ∈ Decimal.stripZeros (Decimal.padStart 7 (toString (-((m % 10000000 : ℕ) : ℤ))).toList) := by
    rw [toList_neg (Nat.pos_of_ne_zero h)]
    exact Decimal.mem_stripZeros (List.mem_append_right _ List.mem_cons_self) (by decide)
  have hnone : ∀ n, Decimal.unsigned (Nat.toDigits 10 n ++ '.' :: Decimal.stripZeros
      (Decimal.padStart 7 (toString (-((m % 10000000 : ℕ) : ℤ))).toList)) = none := by
    intro n
    rw [Decimal.unsigned_point, Decimal.natural_eq_none hminus (by decide), Option.map_none]
  rw [formatStroops_neg hm, Decimal.withFraction, if_neg (List.ne_nil_of_mem hminus)]
  rcases Nat.eq_zero_or_pos (m / 10000000) with hzero | hpos
  · rw [hzero]
    exact (Decimal.value_digit (c := '0') (by decide)).trans (hnone 0)
  · rw [toList_neg hpos, List.cons_append, Decimal.value_minus, hnone, Option.map_none]

/-- **Which amounts are printed exactly.** -/
theorem value_formatStroops_iff (n : ℤ) : Decimal.value (formatStroops (toString n)) = some ((n : ℚ) / 10 ^ 7) ↔ 0 ≤ n ∨ 10 ^ 7 ∣ n := by
  rcases le_or_gt 0 n with hn | hn
  · obtain ⟨m, rfl⟩ := Int.eq_ofNat_of_zero_le hn
    refine iff_of_true ?_ (.inl hn)
    rw [value_formatStroops_natCast, Int.cast_natCast]
  · obtain ⟨m, rfl⟩ : ∃ m : ℕ, n = -(m : ℤ) := ⟨n.natAbs, by omega⟩
    have hm : 0 < m := by omega
    rcases eq_or_ne (m % 10000000) 0 with h | h
    · refine iff_of_true ?_ (.inr (by omega))
      rw [value_formatStroops_neg_of_dvd hm h, Int.cast_neg, Int.cast_natCast]
    · refine iff_of_false ?_ (by omega)
      rw [value_formatStroops_neg_of_not_dvd hm h]
      exact nofun

/-! ## What is signed and what is shown -/

section Reveals

variable {R : Type}

/-- SEP-41 `transfer(from, to, amount)` out of the wallet. -/
def Transfers (wallet : PairedWallet) (call : InvokeContractArgs) : Prop :=
  call.functionName = "transfer" ∧ ∃ (recipient : Val) (amount : I128), call.args = [.address ⟨wallet.address⟩, recipient, .i128 amount]

/-- The entry authorizes a transfer out of the wallet. -/
def MovesValue (wallet : PairedWallet) (entry : AuthEntry) : Prop :=
  ∃ call, Transfers wallet call ∧ Contains call entry.rootInvocation

/-- The operation calls `transfer` itself, with a recipient and an amount that have a text. -/
def CallsTransfer (sdk : Sdk R) (operation : Operation) : Prop :=
  ∃ call auth recipient amount, operation = .invokeHostFunction (.invokeContract call) auth ∧ call.functionName = "transfer" ∧
    3 ≤ call.args.length ∧ call.args[1]?.bind (scvalToStringSafe sdk) = some recipient ∧
    call.args[2]?.bind (scvalToStringSafe sdk) = some amount

/-- The operation as a transfer is listed: by its own contract and arguments. -/
def Shows (sdk : Sdk R) (operation : Operation) (token recipient amount : String) : Prop :=
  ∃ call auth, operation = .invokeHostFunction (.invokeContract call) auth ∧ token = call.contractAddress.strkey ∧
    call.args[1]?.bind (scvalToStringSafe sdk) = some recipient ∧ call.args[2]?.bind (scvalToStringSafe sdk) = some amount

structure Reveals (sdk : Sdk R) (wallet : PairedWallet) (xdr : String) (amount : I128) : Prop where
  moves : ∀ s : Signer R, s.sdk = sdk → ∀ entry expiration payload,
    .auth entry expiration payload ∈ (s.signTransactionXdr wallet xdr).after [] → MovesValue wallet entry →
    (summarizeTransaction sdk xdr wallet.network).movesValue = true ∨ (summarizeTransaction sdk xdr wallet.network).undecoded = true
  shows : ∀ (i : ℕ) (token recipient amount : String),
    (summarizeTransaction sdk xdr wallet.network).operations[i]? = some (OperationSummary.transfer token recipient amount) →
    ∃ tx operations operation, sdk.fromXDR xdr (networkPassphrase wallet.network) = some tx ∧ tx.operations = some operations ∧
      operations[i]? = some operation ∧ Shows sdk operation token recipient amount
  prints : Decimal.value (formatStroops (toString amount.val)) = some ((amount.val : ℚ) / 10 ^ 7)

/-- If an entry of the wallet moves value, some operation is itself a transfer. -/
def TransferUpFront (sdk : Sdk R) (wallet : PairedWallet) (xdr : String) : Prop :=
  ∀ tx operations, sdk.fromXDR xdr (networkPassphrase wallet.network) = some tx → tx.operations = some operations →
    (∃ entry ∈ subjects wallet (operations.flatMap Operation.entries), MovesValue wallet entry) →
    ∃ operation ∈ operations, CallsTransfer sdk operation

variable {sdk : Sdk R} {wallet : PairedWallet} {xdr : String} {network : Network} {tx : Transaction R} {operations : List Operation}
  {operation : Operation} {token recipient amount : String}

theorem readTransfer_iff {invoke : InvokeContract} : readTransfer sdk invoke = some (recipient, amount) ↔
    invoke.fn = "transfer" ∧ 3 ≤ invoke.args.length ∧ invoke.args[1]?.bind (scvalToStringSafe sdk) = some recipient ∧
      invoke.args[2]?.bind (scvalToStringSafe sdk) = some amount := by
  unfold readTransfer
  split_ifs with h
  · simp only [Option.bind_eq_bind, Option.bind_eq_some_iff, Option.pure_def, Option.some.injEq, Prod.mk.injEq]
    constructor
    · rintro ⟨_, hrecipient, _, hamount, rfl, rfl⟩
      exact ⟨h.1, h.2, hrecipient, hamount⟩
    · rintro ⟨-, -, hrecipient, hamount⟩
      exact ⟨_, hrecipient, _, hamount, rfl, rfl⟩
  · refine iff_of_false nofun fun hall => h ⟨hall.1, hall.2.1⟩

theorem summarizeOperation_eq_transfer : summarizeOperation sdk operation = .transfer token recipient amount ↔
    ∃ call auth, operation = .invokeHostFunction (.invokeContract call) auth ∧ token = call.contractAddress.strkey ∧
      readTransfer sdk ⟨call.contractAddress.strkey, call.functionName, call.args⟩ = some (recipient, amount) := by
  rcases operation with ⟨⟨call⟩ | _, auth⟩ | type
  · simp only [summarizeOperation, readInvokeContract]
    constructor
    · intro h
      split at h
      · next hread =>
        obtain ⟨rfl, rfl, rfl⟩ := OperationSummary.transfer.inj h
        exact ⟨call, auth, rfl, rfl, hread⟩
      · cases h
    · rintro ⟨_, _, heq, rfl, hread⟩
      cases heq
      rw [hread]
  · exact iff_of_false nofun (by rintro ⟨_, _, heq, -⟩; cases heq)
  · exact iff_of_false nofun (by rintro ⟨_, _, heq, -⟩; cases heq)

theorem summarizeOperation_shows (h : summarizeOperation sdk operation = .transfer token recipient amount) :
    Shows sdk operation token recipient amount := by
  obtain ⟨call, auth, heq, htoken, hread⟩ := summarizeOperation_eq_transfer.mp h
  obtain ⟨-, -, hrecipient, hamount⟩ := readTransfer_iff.mp hread
  exact ⟨call, auth, heq, htoken, hrecipient, hamount⟩

theorem isTransfer_iff : (summarizeOperation sdk operation).isTransfer = true ↔ CallsTransfer sdk operation := by
  constructor
  · intro h
    cases hsummary : summarizeOperation sdk operation with
    | transfer token recipient amount =>
      obtain ⟨call, auth, heq, -, hread⟩ := summarizeOperation_eq_transfer.mp hsummary
      exact ⟨call, auth, recipient, amount, heq, readTransfer_iff.mp hread⟩
    | contractCall contract fn =>
      rw [hsummary] at h
      cases h
    | other label =>
      rw [hsummary] at h
      cases h
  · rintro ⟨call, auth, recipient, amount, heq, hread⟩
    rw [summarizeOperation_eq_transfer.mpr ⟨call, auth, heq, rfl, readTransfer_iff.mpr hread⟩]
    rfl

/-- **What the summary of a decoded transaction flags.** -/
theorem movesValue_iff (htx : sdk.fromXDR xdr (networkPassphrase network) = some tx) (hops : tx.operations = some operations) :
    (summarizeTransaction sdk xdr network).movesValue = true ↔ ∃ operation ∈ operations, CallsTransfer sdk operation := by
  unfold summarizeTransaction
  rw [htx]
  cases operations with
  | nil => simp [hops]
  | cons operation operations =>
    simp only [hops, List.any_eq_true, List.mem_map]
    constructor
    · rintro ⟨_, ⟨op, hop, rfl⟩, h⟩
      exact ⟨op, hop, isTransfer_iff.mp h⟩
    · rintro ⟨op, hop, h⟩
      exact ⟨_, ⟨op, hop, rfl⟩, isTransfer_iff.mpr h⟩

theorem undecoded_eq_false (htx : sdk.fromXDR xdr (networkPassphrase network) = some tx) :
    (summarizeTransaction sdk xdr network).undecoded = false := by
  unfold summarizeTransaction
  rw [htx]
  rcases hops : tx.operations with _ | _ | _ <;> simp [hops]

theorem listed_shows {i : ℕ} (h : (summarizeTransaction sdk xdr network).operations[i]? = some (.transfer token recipient amount)) :
    ∃ tx operations operation, sdk.fromXDR xdr (networkPassphrase network) = some tx ∧ tx.operations = some operations ∧
      operations[i]? = some operation ∧ Shows sdk operation token recipient amount := by
  have hgeneric : [OperationSummary.other "a transaction"][i]? ≠ some (.transfer token recipient amount) := by
    intro h
    have hmem := List.mem_of_getElem? h
    rw [List.mem_singleton] at hmem
    cases hmem
  unfold summarizeTransaction at h
  split at h
  · exact absurd h hgeneric
  · next tx htx =>
    split at h
    · exact absurd h hgeneric
    · exact absurd h hgeneric
    · next operations hne hops =>
      rw [List.getElem?_map, Option.map_eq_some_iff] at h
      obtain ⟨operation, hoperation, hsummary⟩ := h
      exact ⟨tx, operations, operation, htx, hops, hoperation, summarizeOperation_shows hsummary⟩

/-- What is signed is an entry of the transaction that is the wallet's. -/
theorem signed_subject {s : Signer R} {entry : AuthEntry} {expiration : ℕ} {payload : Wasm.Bytes}
    (h : .auth entry expiration payload ∈ (s.signTransactionXdr wallet xdr).after []) :
    ∃ tx operations, s.sdk.fromXDR xdr (networkPassphrase wallet.network) = some tx ∧ tx.operations = some operations ∧
      entry ∈ subjects wallet (operations.flatMap Operation.entries) := by
  let P : Signature → Prop := fun x => ∀ entry expiration payload, x = .auth entry expiration payload →
    ∃ tx operations, s.sdk.fromXDR xdr (networkPassphrase wallet.network) = some tx ∧ tx.operations = some operations ∧
      entry ∈ subjects wallet (operations.flatMap Operation.entries)
  have hkeeps : Keeps (fun log => ∀ x ∈ log, P x) (s.signTransactionXdr wallet xdr) := by
    refine keeps_signTransactionXdr ?_
    intro expiration tx operations _ htx hops operation hoperation entry hentry hsubject payload _ _ _ _ heq
    cases heq
    exact ⟨tx, operations, htx, hops, List.mem_filter.mpr ⟨List.mem_flatMap.mpr ⟨operation, hoperation, hentry⟩, decide_eq_true hsubject⟩⟩
  exact hkeeps [] (fun _ hx => absurd hx List.not_mem_nil) _ h entry expiration payload rfl

/-- A signer that nothing fails. -/
def willing (sdk : Sdk R) : Signer R where
  sdk := sdk
  kit :=
    { contractId := fun wallet => some (some wallet.address)
      payload := fun _ _ _ => some []
      finish := fun entry _ _ => some entry }
  mainnetRpcUrl := some "https://mainnet.sorobanrpc.com"
  getTrustedLatestLedger := fun _ => some 0
  deviceKey := some
  deviceRawPublicKey := []

theorem attach_willing : (willing sdk).attach wallet = .ok 60 := by
  have hanchor : boundedExpirationLedger 0 = .ok 60 := rfl
  have hledger : (willing sdk).expirationLedger wallet = .ok 60 := by
    unfold expirationLedger
    cases wallet.network with
    | testnet => exact hanchor
    | mainnet =>
      have hurl : resolveTrustedRpcUrl .mainnet (some "https://mainnet.sorobanrpc.com") = .ok "https://mainnet.sorobanrpc.com" := rfl
      rw [show (willing sdk).mainnetRpcUrl = some "https://mainnet.sorobanrpc.com" from rfl, hurl]
      exact hanchor
  unfold attach
  rw [show (willing sdk).kit.contractId wallet = some (some wallet.address) from rfl]
  exact (if_pos rfl).trans hledger

/-- **When the prompt reveals what is signed.** -/
theorem reveals_iff (sdk : Sdk R) (wallet : PairedWallet) (xdr : String) (amount : I128) : Reveals sdk wallet xdr amount ↔
    TransferUpFront sdk wallet xdr ∧ (0 ≤ amount.val ∨ 10 ^ 7 ∣ amount.val) := by
  constructor
  · intro h
    refine ⟨?_, (value_formatStroops_iff _).mp h.prints⟩
    rintro tx operations htx hops ⟨entry, hentry, hmoves⟩
    obtain ⟨payload, hsigned⟩ := signs_all (s := willing sdk) attach_willing htx hops
      (fun entry _ => ⟨entry, _, [], [], rfl, rfl, rfl, rfl⟩) hentry
    rcases h.moves (willing sdk) rfl entry 60 payload hsigned hmoves with hflag | hundecoded
    · exact (movesValue_iff htx hops).mp hflag
    · exact absurd hundecoded (by rw [undecoded_eq_false htx]; exact Bool.false_ne_true)
  · rintro ⟨hfront, hamount⟩
    refine ⟨?_, fun i token recipient amount h => listed_shows h, (value_formatStroops_iff _).mpr hamount⟩
    rintro s rfl entry expiration payload hsigned hmoves
    obtain ⟨tx, operations, htx, hops, hentry⟩ := signed_subject hsigned
    exact .inl ((movesValue_iff htx hops).mpr (hfront tx operations htx hops ⟨entry, hentry, hmoves⟩))

end Reveals

namespace Swap

def wallet : PairedWallet :=
  { address := "CDLZFC3SYJYDZT7K67VZ75HPJVIEUVNIXF47ZG2FB2RMQQVU2HHGCYSC"
    network := .testnet
    rpcUrl := "https://soroban-testnet.stellar.org"
    keyId := "key-1"
    walletWasmHash := "abababababababababababababababababababababababababababababababab"
    webAppOrigin := none }

def router : Address := ⟨"CCW67TSZV3SSS2HXMBQ5JFGCKJNXKZM7UQUWUZPUTHXSTZLEO7SJMI75"⟩

def token : Address := ⟨"CBIELTK6YBZJU5UP2WWQEUCYKLPU6AUNZ2BQ4WWFEIE3USCIHMXQDAMA"⟩

def swapCall : InvokeContractArgs := ⟨router, "swap", [.address ⟨wallet.address⟩]⟩

def transferCall : InvokeContractArgs := ⟨token, "transfer", [.address ⟨wallet.address⟩, .address router, .i128 (.ofNat 50000000 (by decide))]⟩

/-- The wallet lets the router take its tokens. -/
def entry : AuthEntry :=
  { credentials := .addressV2 { address := ⟨wallet.address⟩, nonce := 1, signatureExpirationLedger := 0 }
    rootInvocation := .node (some swapCall) [.node (some transferCall) []] }

def sdk : Sdk Unit where
  fromXDR := fun _ _ => some { operations := some [.invokeHostFunction (.invokeContract swapCall) (some [entry])], rest := () }
  toXDR := fun _ => "AAAAAgAAAAA="
  entryFromXDR := fun _ => none
  entryToXDR := fun _ => ""
  toBase64 := fun _ => ""
  nativeText := fun _ => none

end Swap

/-- The transfer that a swap makes of its own is signed, and listed as a call of `swap`. -/
theorem swap_unrevealed : ¬ Reveals Swap.sdk Swap.wallet "AAAAAgAAAAA=" I128.zero := by
  intro h
  have hlog : ((willing Swap.sdk).signTransactionXdr Swap.wallet "AAAAAgAAAAA=").after [] = [.auth Swap.entry 60 []] := rfl
  have hmoves : MovesValue Swap.wallet Swap.entry := ⟨Swap.transferCall, ⟨rfl, _, _, rfl⟩, .sub List.mem_cons_self .root⟩
  rcases h.moves (willing Swap.sdk) rfl Swap.entry 60 [] (hlog ▸ List.mem_cons_self) hmoves with hflag | hundecoded
  · exact absurd hflag (by decide)
  · exact absurd hundecoded (by decide)

end Vellar.Extension
