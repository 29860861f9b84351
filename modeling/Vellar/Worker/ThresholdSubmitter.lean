import Vellar.Contracts.ThresholdAttestor
import Vellar.Soroban.Xdr

/-!
# Vellar.Worker.ThresholdSubmitter — the submitter of the M-of-N attestor

`services/worker-service/src/threshold-submitter.ts` against `__check_auth` of the threshold attestor.  The signatures, their map and
their number are what the contract reads, but the signed hash is that of the entry's own XDR behind the passphrase, not of the preimage
the host uses, and the nonce is always 0: `agrees_iff` says submitter and contract agree exactly where SHA-256 maps the two strings to
one hash and no two submissions are valid at a time.
-/

set_option autoImplicit false

namespace Vellar.Worker.ThresholdSubmitter

open Soroban Soroban.Xdr ThresholdAttestor Machine

/-! ## Keys -/

/-- Ed25519: `Keypair` of the SDK and `ed25519_verify` of the host. -/
structure Ed25519 where
  Keypair : Type
  fromSecret : String → Option Keypair
  rawPublicKey : Keypair → BytesN 32
  sign : Keypair → BytesN 32 → BytesN 64
  verify : BytesN 32 → List UInt8 → BytesN 64 → Bool

/-- A signature of a hash verifies, and for that hash only. -/
def Ed25519.Sound (ed : Ed25519) : Prop :=
  ∀ (k : ed.Keypair) (m m' : BytesN 32), ed.verify (ed.rawPublicKey k) m.bytes (ed.sign k m') = true ↔ m = m'

section Submitter

variable (ed : Ed25519)

structure AttestorKeyInfo where
  index : ℕ
  keypair : ed.Keypair

/-- The constructor of `ThresholdKeyManager`. -/
def keyManager (secretKeys : List String) : Option (List (AttestorKeyInfo ed)) :=
  if secretKeys = [] then none
  else (secretKeys.mapM ed.fromSecret).map fun keypairs => keypairs.mapIdx fun idx keypair => ⟨idx, keypair⟩

def getRawPublicKeys (signers : List (AttestorKeyInfo ed)) : List (BytesN 32) := signers.map fun s => ed.rawPublicKey s.keypair

structure Collected where
  signerIndex : ℕ
  signature : BytesN 64
deriving DecidableEq

/-- None where it throws. -/
def signPayload (signers : List (AttestorKeyInfo ed)) (payloadHash : BytesN 32) (requiredCount : ℕ) : Option (List Collected) :=
  if requiredCount > signers.length then none
  else
    some (((signers.take requiredCount).mergeSort fun a b => decide (a.index ≤ b.index)).map fun s =>
      ⟨s.index, ed.sign s.keypair payloadHash⟩)

/-! ## The submission -/

structure ThresholdSubmitterOptions where
  networkPassphrase : String
  registryContractId : ScAddress
  thresholdAttestorContractId : ScAddress
  keyManager : List (AttestorKeyInfo ed)
  attestThreshold : ℕ
  revokeThreshold : Option ℕ

inductive Method where
  | upsert
  | upsertWithPublisher
  | revoke
deriving DecidableEq

def Method.text : Method → String
  | .upsert => "upsert"
  | .upsertWithPublisher => "upsert_with_publisher"
  | .revoke => "revoke"

/-- A call of `invokeWithThreshold`, with the latest ledger it reads. -/
structure Call where
  method : Method
  args : List ScVal
  ledger : ℕ

def buildSignatureScVal (s : Collected) : ScVal :=
  .map [(.symbol "signature", .bytes s.signature.bytes), (.symbol "signer_index", .u32 (.ofNat s.signerIndex))]

def buildThresholdSignaturesScVal (signatures : List Collected) : ScVal :=
  .map [(.symbol "signatures", .vec (signatures.map buildSignatureScVal))]

variable {ed} (opts : ThresholdSubmitterOptions ed)

def requiredCount (method : Method) : ℕ :=
  match method with
  | .revoke => opts.revokeThreshold.getD opts.attestThreshold
  | _ => opts.attestThreshold

/-- The entry with the signature given. -/
def entryOf (c : Call) (signature : ScVal) : AuthorizationEntry where
  credentials := ⟨opts.thresholdAttestorContractId, 0, c.ledger + 100, signature⟩
  rootInvocation := ⟨opts.registryContractId, c.method.text, c.args⟩

/-- The bytes `invokeWithThreshold` hashes. -/
def signedBytes (c : Call) : Option (List UInt8) := (entryOf opts c .void).toXdr.map (utf8 opts.networkPassphrase ++ ·)

/-- `invokeWithThreshold`, up to the signed entry; none where it throws. -/
def invokeWithThreshold (c : Call) : Option AuthorizationEntry := do
  let bytes ← signedBytes opts c
  let collected ← signPayload ed opts.keyManager (hash bytes) (requiredCount opts c.method)
  pure (entryOf opts c (buildThresholdSignaturesScVal collected))

end Submitter

/-! ## The host and the contract -/

/-- The `SignerSignature` of a host value. -/
def signerSignatureOf : ScVal → Option SignerSignature
  | .map [(.symbol k, .bytes signature), (.symbol k', .u32 signerIndex)] =>
    if h : (k = "signature" ∧ k' = "signer_index") ∧ signature.length = 64 then some ⟨signerIndex.toNat, ⟨signature, h.2⟩⟩ else none
  | _ => none

/-- The `ThresholdSignatures` of a host value. -/
def thresholdSignaturesOf : ScVal → Option (List SignerSignature)
  | .map [(.symbol k, .vec items)] => if k = "signatures" then items.mapM signerSignatureOf else none
  | _ => none

/-- The context of a root invocation. -/
def contextOf (strkey : ScAddress → String) (inv : InvokeContractArgs) : Context :=
  .contract ⟨⟨strkey inv.contractAddress⟩, inv.functionName, inv.args.map fun v =>
    match v with
    | .address a => .address ⟨strkey a⟩
    | v => .other v.toXdr⟩

/-- `__check_auth` accepts what the host hands to it for the entry. -/
def Accepted (ed : Ed25519) (strkey : ScAddress → String) (s : Storage) (networkPassphrase : String) (e : AuthorizationEntry) : Prop :=
  ∃ signatures, thresholdSignaturesOf e.credentials.signature = some signatures ∧
    checkAuth ed.verify s (e.payload networkPassphrase) signatures [contextOf strkey e.rootInvocation] = .ok ()

/-! ## What is promised -/

section Agreement

variable {ed : Ed25519} (strkey : ScAddress → String) (opts : ThresholdSubmitterOptions ed) (s : Storage)

/-- The submitter is configured as the contract is. -/
structure Matches : Prop where
  keyManager : ∃ secretKeys, keyManager ed secretKeys = some opts.keyManager
  signers : s.signers = some (getRawPublicKeys ed opts.keyManager)
  threshold : s.threshold = some opts.attestThreshold
  revokeThreshold : s.revokeThreshold = some (opts.revokeThreshold.getD opts.attestThreshold)

/-- The two calls' entries are valid at one ledger. -/
def Overlap (c c' : Call) : Prop := c.ledger ≤ c'.ledger + 100 ∧ c'.ledger ≤ c.ledger + 100

instance : DecidableRel Overlap := fun _ _ => inferInstanceAs (Decidable (_ ∧ _))

structure Agrees (calls : List Call) : Prop where
  accepted : ∀ c ∈ calls, ∃ e, invokeWithThreshold opts c = some e ∧ Accepted ed strkey s opts.networkPassphrase e
  /-- The host rejects a nonce it has seen while the entry is valid. -/
  fresh : calls.Pairwise fun c c' => Overlap c c' → ∀ e e', invokeWithThreshold opts c = some e → invokeWithThreshold opts c' = some e' →
    (e.credentials.address, e.credentials.nonce) ≠ (e'.credentials.address, e'.credentials.nonce)

/-- Two strings with one hash. -/
def Collide (m m' : List UInt8) : Prop := m ≠ m' ∧ Xdr.hash m = Xdr.hash m'

end Agreement

/-! ## What the contract reads -/

section Reads

variable {ed : Ed25519}

/-- The signers are numbered by their places. -/
def Numbered (signers : List (AttestorKeyInfo ed)) : Prop := ∀ i (h : i < signers.length), (signers[i]).index = i

theorem keyManager_numbered {secretKeys : List String} {signers : List (AttestorKeyInfo ed)} (h : keyManager ed secretKeys = some signers) :
    Numbered signers := by
  unfold keyManager at h
  split at h
  · cases h
  · obtain ⟨keypairs, -, rfl⟩ := Option.map_eq_some_iff.mp h
    intro i hi
    rw [List.getElem_mapIdx]

theorem Numbered.pairwise {signers : List (AttestorKeyInfo ed)} (h : Numbered signers) :
    signers.Pairwise fun a b => a.index < b.index := by
  refine List.pairwise_iff_getElem.mpr fun i j hi hj hij => ?_
  rw [h i hi, h j hj]
  exact hij

/-- What `signPayload` gives: a signature by each of the first signers, in order. -/
theorem signPayload_some {signers : List (AttestorKeyInfo ed)} (h : Numbered signers) {n : ℕ} (hn : n ≤ signers.length)
    (payload : BytesN 32) :
    signPayload ed signers payload n = some ((signers.take n).map fun s => ⟨s.index, ed.sign s.keypair payload⟩) := by
  unfold signPayload
  rw [if_neg (by omega), List.mergeSort_of_pairwise]
  exact (h.pairwise.sublist (List.take_sublist n signers)).imp fun hlt => decide_eq_true hlt.le

/-- **The contract reads the signatures as they were collected**. -/
theorem thresholdSignaturesOf_build {signatures : List Collected} (h : ∀ c ∈ signatures, c.signerIndex < 2 ^ 32) :
    thresholdSignaturesOf (buildThresholdSignaturesScVal signatures) = some (signatures.map fun c => ⟨c.signerIndex, c.signature⟩) := by
  have hone : ∀ c ∈ signatures, signerSignatureOf (buildSignatureScVal c) = some ⟨c.signerIndex, c.signature⟩ := by
    intro c hc
    unfold signerSignatureOf buildSignatureScVal
    dsimp only
    rw [dif_pos ⟨⟨rfl, rfl⟩, c.signature.size⟩, UInt32.toNat_ofNat_of_lt' (h c hc)]
  unfold thresholdSignaturesOf buildThresholdSignaturesScVal
  dsimp only
  rw [if_pos rfl]
  induction signatures with
  | nil => rfl
  | cons c signatures ih =>
    rw [List.map_cons, List.mapM_cons, hone c List.mem_cons_self,
      ih (fun c' hc' => h c' (List.mem_cons_of_mem _ hc')) fun c' hc' => hone c' (List.mem_cons_of_mem _ hc')]
    rfl

/-- The context of an entry is a revocation's just where the method is `revoke`. -/
theorem isAllRevoke_context (opts : ThresholdSubmitterOptions ed) (strkey : ScAddress → String) (c : Call) (signature : ScVal) :
    isAllRevoke [contextOf strkey (entryOf opts c signature).rootInvocation] = decide (c.method = .revoke) := by
  obtain ⟨method, args, ledger⟩ := c
  cases method <;> rfl

end Reads

/-! ## When they agree -/

section Agreement

variable {ed : Ed25519} {strkey : ScAddress → String} {opts : ThresholdSubmitterOptions ed} {s : Storage}

theorem signedBytes_some {c : Call} {bytes : List UInt8} (h : signedBytes opts c = some bytes) :
    ∃ xdr, (entryOf opts c .void).toXdr = some xdr ∧ bytes = utf8 opts.networkPassphrase ++ xdr := by
  obtain ⟨xdr, hxdr, rfl⟩ := Option.map_eq_some_iff.mp h
  exact ⟨xdr, hxdr, rfl⟩

theorem signedBytes_isSome {c : Call} : (∃ bytes, signedBytes opts c = some bytes) ↔ c.ledger + 100 < 2 ^ 32 := by
  unfold signedBytes AuthorizationEntry.toXdr
  by_cases h : c.ledger + 100 < 2 ^ 32
  · have hentry : (entryOf opts c .void).credentials.signatureExpirationLedger < 2 ^ 32 := h
    rw [if_pos hentry]
    exact ⟨fun _ => h, fun _ => ⟨_, rfl⟩⟩
  · have hentry : ¬ (entryOf opts c .void).credentials.signatureExpirationLedger < 2 ^ 32 := h
    rw [if_neg hentry]
    exact ⟨fun ⟨_, hnone⟩ => (nomatch hnone), fun hlt => absurd hlt h⟩

theorem invokeWithThreshold_some {c : Call} {bytes : List UInt8} {collected : List Collected} (hbytes : signedBytes opts c = some bytes)
    (hsigned : signPayload ed opts.keyManager (Xdr.hash bytes) (requiredCount opts c.method) = some collected) :
    invokeWithThreshold opts c = some (entryOf opts c (buildThresholdSignaturesScVal collected)) := by
  unfold invokeWithThreshold
  rw [hbytes]
  show (signPayload ed opts.keyManager (Xdr.hash bytes) (requiredCount opts c.method)).bind _ = _
  rw [hsigned]
  rfl

/-- The bytes signed are not those of the preimage. -/
theorem signedBytes_ne_preimage {c : Call} {bytes : List UInt8} (h : signedBytes opts c = some bytes) (signature : ScVal) :
    bytes ≠ (entryOf opts c signature).preimage opts.networkPassphrase := by
  obtain ⟨xdr, hxdr, rfl⟩ := signedBytes_some h
  intro heq
  have hshort := preimage_shorter rfl hxdr opts.networkPassphrase
  have hlength := congrArg List.length heq
  have hsame : (entryOf opts c signature).preimage opts.networkPassphrase = (entryOf opts c .void).preimage opts.networkPassphrase := rfl
  rw [hsame, List.length_append] at hlength
  omega

/-- **One entry** is accepted exactly where the two strings have one hash. -/
theorem accepted_iff (strkey : ScAddress → String) (hsound : ed.Sound) {signers : List (BytesN 32)} {t r : ℕ} (hs : WellFormed s signers t r) (hmatch : Matches opts s)
    {c : Call} {bytes : List UInt8} (hbytes : signedBytes opts c = some bytes) :
    ∃ e, invokeWithThreshold opts c = some e ∧ e.credentials.address = opts.thresholdAttestorContractId ∧ e.credentials.nonce = 0 ∧
      (Accepted ed strkey s opts.networkPassphrase e ↔ Xdr.hash bytes = Xdr.hash ((entryOf opts c .void).preimage opts.networkPassphrase)) := by
  obtain ⟨secretKeys, hmanager⟩ := hmatch.keyManager
  have hnumbered := keyManager_numbered hmanager
  obtain rfl : signers = getRawPublicKeys ed opts.keyManager := by
    have hsigners := hmatch.signers
    rw [hs.eq] at hsigners
    exact Option.some.inj hsigners
  obtain rfl : t = opts.attestThreshold := by
    have hthreshold := hmatch.threshold
    rw [hs.eq] at hthreshold
    exact Option.some.inj hthreshold
  obtain rfl : r = opts.revokeThreshold.getD opts.attestThreshold := by
    have hrevoke := hmatch.revokeThreshold
    rw [hs.eq] at hrevoke
    exact Option.some.inj hrevoke
  have hcount : (getRawPublicKeys ed opts.keyManager).length = opts.keyManager.length := List.length_map _
  -- As many signatures are required as the contract demands.
  have hrequired : 1 ≤ requiredCount opts c.method ∧ requiredCount opts c.method ≤ opts.keyManager.length := by
    have ht := hs.threshold
    have hr := hs.revoke
    unfold requiredCount
    split
    · omega
    · omega
  have hload : requiredThreshold s [contextOf strkey (entryOf opts c .void).rootInvocation] = .ok (requiredCount opts c.method) := by
    rw [requiredThreshold_wellFormed hs, isAllRevoke_context]
    obtain ⟨method, args, ledger⟩ := c
    cases method <;> rfl
  have hsmall : ∀ i < opts.keyManager.length, i < 2 ^ 32 := fun i hi => by
    have hsize := hs.size
    omega
  have hsigners : s.signers = some (getRawPublicKeys ed opts.keyManager) := hmatch.signers
  have hsigned := signPayload_some hnumbered hrequired.2 (Xdr.hash bytes)
  refine ⟨_, invokeWithThreshold_some hbytes hsigned, rfl, rfl, ?_⟩
  have hindex : ∀ collected ∈ (opts.keyManager.take (requiredCount opts c.method)).map
      (fun s => (⟨s.index, ed.sign s.keypair (Xdr.hash bytes)⟩ : Collected)), collected.signerIndex < 2 ^ 32 := by
    intro collected hcollected
    obtain ⟨info, hinfo, rfl⟩ := List.mem_map.mp hcollected
    obtain ⟨i, hi, rfl⟩ := List.getElem_of_mem (List.mem_of_mem_take hinfo)
    show (opts.keyManager[i]).index < 2 ^ 32
    rw [hnumbered i hi]
    exact hsmall i hi
  have hread := thresholdSignaturesOf_build hindex
  rw [List.map_map] at hread
  -- A signature verifies for the payload where that is the hash signed.
  have hverifies : ∀ info ∈ opts.keyManager, ∀ payload, Verifies ed.verify (getRawPublicKeys ed opts.keyManager) payload
      ⟨info.index, ed.sign info.keypair (Xdr.hash bytes)⟩ ↔ payload = Xdr.hash bytes := by
    intro info hinfo payload
    obtain ⟨i, hi, rfl⟩ := List.getElem_of_mem hinfo
    have hkey : (getRawPublicKeys ed opts.keyManager)[(opts.keyManager[i]).index]? = some (ed.rawPublicKey (opts.keyManager[i]).keypair) := by
      rw [hnumbered i hi, getRawPublicKeys, List.getElem?_map, List.getElem?_eq_getElem hi]
      rfl
    constructor
    · rintro ⟨pk, hpk, hverify⟩
      obtain rfl := Option.some.inj (hkey.symm.trans hpk)
      exact (hsound _ _ _).mp hverify
    · intro heq
      exact ⟨_, hkey, (hsound _ _ _).mpr heq⟩
  constructor
  · rintro ⟨signatures, hsignatures, hok⟩
    obtain rfl := Option.some.inj (hread.symm.trans hsignatures)
    obtain ⟨-, -, hall⟩ := (checkAuth_ok hload hsigners).mp hok
    obtain ⟨info, hinfo⟩ : ∃ info, info ∈ opts.keyManager.take (requiredCount opts c.method) := by
      refine List.exists_mem_of_length_pos ?_
      rw [List.length_take]
      omega
    exact ((hverifies info (List.mem_of_mem_take hinfo) _).mp (hall _ (List.mem_map_of_mem hinfo))).symm
  · intro heq
    refine ⟨_, hread, (checkAuth_ok hload hsigners).mpr ⟨?_, ?_, fun sig hsig => ?_⟩⟩
    · rw [List.length_map, List.length_take]
      omega
    · exact List.pairwise_map.mpr (hnumbered.pairwise.sublist (List.take_sublist _ _))
    · obtain ⟨info, hinfo, rfl⟩ := List.mem_map.mp hsig
      exact (hverifies info (List.mem_of_mem_take hinfo) _).mpr heq.symm

/-- **Submitter and contract agree** exactly where every entry can be built and hashes as the host's preimage does, and no two are
valid at a time. -/
theorem agrees_iff (hsound : ed.Sound) {threshold : ℕ} {signers₀ : List (BytesN 32)} {revokeThreshold : Option ℕ} {s₀ : Storage}
    (hctor : constructor threshold signers₀ revokeThreshold = .ok s₀) (rotations : List Rotation)
    (hmatch : Matches opts (run step s₀ rotations)) (calls : List Call) :
    Agrees strkey opts (run step s₀ rotations) calls ↔
      (∀ c ∈ calls, c.ledger + 100 < 2 ^ 32 ∧ ∀ bytes, signedBytes opts c = some bytes →
        Collide bytes ((entryOf opts c .void).preimage opts.networkPassphrase)) ∧
      calls.Pairwise fun c c' => ¬ Overlap c c' := by
  obtain ⟨signers, t, r, hs⟩ := run_wellFormed hctor rotations
  constructor
  · intro h
    have hbuilt : ∀ c ∈ calls, c.ledger + 100 < 2 ^ 32 := fun c hc => by
      obtain ⟨e, he, -⟩ := h.accepted c hc
      unfold invokeWithThreshold at he
      obtain ⟨bytes, hbytes, -⟩ := Option.bind_eq_some_iff.mp he
      have hsome : ∃ bytes, signedBytes opts c = some bytes := ⟨bytes, hbytes⟩
      exact signedBytes_isSome.mp hsome
    refine ⟨fun c hc => ⟨hbuilt c hc, fun bytes hbytes => ⟨signedBytes_ne_preimage hbytes .void, ?_⟩⟩, ?_⟩
    · obtain ⟨e, he, hok⟩ := h.accepted c hc
      obtain ⟨e', he', -, -, hiff⟩ := accepted_iff strkey hsound hs hmatch hbytes
      obtain rfl := Option.some.inj (he'.symm.trans he)
      exact hiff.mp hok
    · refine h.fresh.imp_of_mem fun {c c'} hc hc' hfresh hoverlap => ?_
      obtain ⟨bytes, hbytes⟩ := signedBytes_isSome.mpr (hbuilt c hc)
      obtain ⟨bytes', hbytes'⟩ := signedBytes_isSome.mpr (hbuilt c' hc')
      obtain ⟨e, he, haddress, hnonce, -⟩ := accepted_iff strkey hsound hs hmatch hbytes
      obtain ⟨e', he', haddress', hnonce', -⟩ := accepted_iff strkey hsound hs hmatch hbytes'
      exact hfresh hoverlap e e' he he' (by rw [haddress, haddress', hnonce, hnonce'])
  · rintro ⟨hbuilt, hapart⟩
    refine ⟨fun c hc => ?_, hapart.imp fun hnot hoverlap => absurd hoverlap hnot⟩
    obtain ⟨bytes, hbytes⟩ := signedBytes_isSome.mpr (hbuilt c hc).1
    obtain ⟨e, he, -, -, hiff⟩ := accepted_iff strkey hsound hs hmatch hbytes
    exact ⟨e, he, hiff.mpr ((hbuilt c hc).2 bytes hbytes).2⟩

end Agreement

/-! ## One key that revokes -/

/-- The hash that a submitter with `firstKey` signs for `revokeAt 1000`. -/
def signedHash : BytesN 32 :=
  ⟨[196, 149, 227, 225, 186, 176, 227, 205, 189, 39, 196, 65, 223, 219, 166, 178, 223, 187, 144, 13, 252, 242, 178, 205, 62, 155,
    114, 14, 139, 121, 135, 184], rfl⟩

/-- The first key's signature of `signedHash`. -/
def signedHashSignature : BytesN 64 :=
  ⟨[152, 172, 88, 177, 6, 254, 111, 153, 171, 67, 233, 1, 197, 211, 226, 240, 173, 174, 206, 42, 163, 216, 113, 190, 124, 136, 44, 7,
    177, 60, 98, 183, 100, 0, 231, 72, 50, 74, 171, 76, 166, 232, 76, 47, 195, 167, 20, 242, 121, 11, 35, 6, 73, 139, 33, 191, 120, 1,
    160, 133, 121, 114, 56, 9], rfl⟩

/-- Ed25519 on the one key and the one hash; other hashes have stand-ins for their signatures. -/
def signFirst (m : BytesN 32) : BytesN 64 :=
  if m = signedHash then signedHashSignature else ⟨m.bytes ++ List.replicate 32 0, by rw [List.length_append, m.size]; rfl⟩

def firstEd : Ed25519 where
  Keypair := Unit
  fromSecret secret := if secret = "SCOWDMM5576VUYF2QRFPJEXMFTCEISOFNF5TE2IZOA52YAY4VZ7WBQNO" then some () else none
  rawPublicKey _ := firstKey
  sign _ := signFirst
  verify pk message signature := if h : message.length = 32 then pk = firstKey && signature = signFirst ⟨message, h⟩ else false

theorem signFirst_injective {m m' : BytesN 32} (h : signFirst m = signFirst m') : m = m' := by
  have hbytes : ∀ m : BytesN 32, m ≠ signedHash → (signFirst m).bytes = m.bytes ++ List.replicate 32 0 := fun m hm => by
    unfold signFirst
    rw [if_neg hm]
  have hreal : (signFirst signedHash).bytes.drop 32 ≠ List.replicate 32 0 := by
    unfold signFirst
    rw [if_pos rfl]
    decide
  have hdrop : ∀ m : BytesN 32, m ≠ signedHash → (signFirst m).bytes.drop 32 = List.replicate 32 0 := fun m hm => by
    rw [hbytes m hm]
    exact List.drop_left' m.size
  by_cases hm : m = signedHash
  · by_cases hm' : m' = signedHash
    · rw [hm, hm']
    · rw [hm] at h
      exact absurd (h ▸ hdrop m' hm') hreal
  · by_cases hm' : m' = signedHash
    · rw [hm'] at h
      exact absurd (h ▸ hdrop m hm) hreal
    · have heq := congrArg BytesN.bytes h
      rw [hbytes m hm, hbytes m' hm'] at heq
      cases m
      cases m'
      cases List.append_cancel_right heq
      rfl

theorem firstEd_sound : firstEd.Sound := by
  intro k m m'
  show (if h : m.bytes.length = 32 then decide (firstKey = firstKey) && decide (signFirst m' = signFirst ⟨m.bytes, h⟩) else false) = true ↔ _
  rw [dif_pos m.size, decide_eq_true rfl, Bool.true_and, decide_eq_true_eq]
  exact ⟨fun h => (signFirst_injective h).symm, fun h => h ▸ rfl⟩

def address (n : UInt8) : ScAddress := .contract ⟨List.replicate 32 n, List.length_replicate⟩

def soloOptions : ThresholdSubmitterOptions firstEd where
  networkPassphrase := "Test SDF Network ; September 2015"
  registryContractId := address 7
  thresholdAttestorContractId := address 8
  keyManager := [⟨0, ()⟩]
  attestThreshold := 1
  revokeThreshold := none

def revokeAt (ledger : ℕ) : Call := ⟨.revoke, [.address (address 9)], ledger⟩

theorem soloOptions_matches : Matches soloOptions soloStorage :=
  ⟨⟨["SCOWDMM5576VUYF2QRFPJEXMFTCEISOFNF5TE2IZOA52YAY4VZ7WBQNO"], rfl⟩, rfl, rfl, rfl⟩

/-- Two revocations at one time have one nonce. -/
theorem agrees_iff_overlap : ¬ Agrees (fun _ => "C") soloOptions soloStorage [revokeAt 1000, revokeAt 1050] := by
  intro h
  have hapart := ((agrees_iff firstEd_sound (show constructor 1 [firstKey] none = .ok soloStorage by rfl) [] soloOptions_matches
    [revokeAt 1000, revokeAt 1050]).mp h).2
  exact List.rel_of_pairwise_cons hapart List.mem_cons_self (by decide)

/-- One revocation is rejected: its signature is of another hash than the host's. -/
theorem revocation_rejected : ¬ ∀ (ed : Ed25519) (strkey : ScAddress → String) (opts : ThresholdSubmitterOptions ed) (threshold : ℕ)
    (signers : List (BytesN 32)) (revokeThreshold : Option ℕ) (s : Storage) (calls : List Call), ed.Sound →
      constructor threshold signers revokeThreshold = .ok s → Matches opts s → Agrees strkey opts s calls := by
  intro hall
  have hctor : constructor 1 [firstKey] none = .ok soloStorage := rfl
  have hagrees := hall firstEd (fun _ => "C") soloOptions 1 [firstKey] none soloStorage [revokeAt 1000] firstEd_sound hctor
    soloOptions_matches
  have hsigned : ∃ bytes, signedBytes soloOptions (revokeAt 1000) = some bytes ∧
      Xdr.hash bytes ≠ Xdr.hash ((entryOf soloOptions (revokeAt 1000) .void).preimage soloOptions.networkPassphrase) := by
    refine ⟨(signedBytes soloOptions (revokeAt 1000)).getD [], ?_, ?_⟩
    · decide +kernel
    · decide +kernel
  obtain ⟨bytes, hbytes, hne⟩ := hsigned
  obtain ⟨e, he, -, -, hiff⟩ := accepted_iff (fun _ => "C") firstEd_sound (validateAndStoreConfig_wellFormed hctor) soloOptions_matches hbytes
  obtain ⟨e', he', hok⟩ := hagrees.accepted _ List.mem_cons_self
  obtain rfl := Option.some.inj (he.symm.trans he')
  exact hne (hiff.mp hok)

-- The hash that is signed.
example : (signedBytes soloOptions (revokeAt 1000)).map Xdr.hash = some signedHash := by decide +kernel

end Vellar.Worker.ThresholdSubmitter
