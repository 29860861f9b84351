import Vellar.Soroban.Host

/-!
# Vellar.Contracts.ThresholdAttestor — the M-of-N attestor account

`contracts/threshold-attestor/src/lib.rs`: the constructor and `set_signers` with their common validation,
`is_all_revoke`, and `__check_auth` with its loop over the signatures.

* `WellFormed`: what every stored configuration satisfies, from the constructor on (`run_wellFormed`).
* `checkSignatures_ok`: the loop accepts exactly the strictly ascending, in-range, verifying lists.
* `checkAuth_meets_threshold`: over every run of rotations, acceptance means enough distinct keys signed.
* `coversEach_iff`: when a list of contexts needs as many signatures as each of its contexts.
-/

set_option autoImplicit false

namespace Vellar.ThresholdAttestor

open Checked Soroban Machine

inductive ThresholdError where
  | notInitialized
  | invalidThreshold
  | invalidSigners
  | insufficientSignatures
  | invalidSignerIndex
  | duplicateSigner
deriving DecidableEq, Repr

structure SignerSignature where
  signerIndex : ℕ
  signature : BytesN 64
deriving DecidableEq

structure Storage where
  threshold : Option ℕ
  revokeThreshold : Option ℕ
  signers : Option (List (BytesN 32))
deriving DecidableEq

/-! ## Configuration -/

/-- The two nested loops that reject a key given twice. -/
def checkDistinct (signers : List (BytesN 32)) : Except (Trap ThresholdError) Unit :=
  forM (List.range signers.length) fun i => do
    let si ← orStop signers[i]? .host
    forM (List.range' (i + 1) (signers.length - (i + 1))) fun j => do
      let sj ← orStop signers[j]? .host
      require (si ≠ sj) .duplicateSigner

/-- `validate_and_store_config`. -/
def validateAndStoreConfig (threshold : ℕ) (signers : List (BytesN 32)) (revokeThreshold : Option ℕ) :
    Except (Trap ThresholdError) Storage := do
  let n := signers.length
  require (¬ (n = 0 ∨ n > 32)) .invalidSigners
  require (¬ (threshold = 0 ∨ threshold > n)) .invalidThreshold
  checkDistinct signers
  whenSome revokeThreshold fun r => require (¬ (r = 0 ∨ r > n)) .invalidThreshold
  pure ⟨some threshold, some (revokeThreshold.getD threshold), some signers⟩

/-- `__constructor`. -/
def constructor (threshold : ℕ) (signers : List (BytesN 32)) (revokeThreshold : Option ℕ) :
    Except (Trap ThresholdError) Storage :=
  validateAndStoreConfig threshold signers revokeThreshold

/-- `set_signers`. -/
def setSigners (env : Env) (newThreshold : ℕ) (newSigners : List (BytesN 32))
    (newRevokeThreshold : Option ℕ) : Except (Trap ThresholdError) Storage := do
  env.requireAuth env.currentContract
  validateAndStoreConfig newThreshold newSigners newRevokeThreshold

def loadThreshold (s : Storage) : Except (Trap ThresholdError) ℕ := orPanic s.threshold .notInitialized

def loadRevokeThreshold (s : Storage) : Except (Trap ThresholdError) ℕ :=
  orPanic s.revokeThreshold .notInitialized

def loadSigners (s : Storage) : Except (Trap ThresholdError) (List (BytesN 32)) :=
  orPanic s.signers .notInitialized

/-! ## `__check_auth` -/

/-- `is_all_revoke`. -/
def isAllRevoke (authContexts : List Context) : Bool :=
  if authContexts.isEmpty then false
  else authContexts.all fun
    | .contract c => c.fnName == "revoke"
    | _ => false

/-- `required_threshold` of `__check_auth`. -/
def requiredThreshold (s : Storage) (authContexts : List Context) : Except (Trap ThresholdError) ℕ :=
  if isAllRevoke authContexts then loadRevokeThreshold s else loadThreshold s

/-- The two variables of the loop over the signatures. -/
structure LoopState where
  lastIndex : Option ℕ
  validCount : ℕ
deriving DecidableEq, Repr

section Auth

-- `ed25519_verify` on key, message and signature, as a predicate; where it fails, the host traps.
variable (ed25519Verify : BytesN 32 → List UInt8 → BytesN 64 → Bool)

/-- The body of the loop over the signatures. -/
def checkSignature (signers : List (BytesN 32)) (payload : BytesN 32) (st : LoopState)
    (sig : SignerSignature) : Except (Trap ThresholdError) LoopState := do
  whenSome st.lastIndex fun prev => require (¬ sig.signerIndex ≤ prev) .invalidSignerIndex
  require (¬ sig.signerIndex ≥ signers.length) .invalidSignerIndex
  let pk ← orStop signers[sig.signerIndex]? .host
  ensure (ed25519Verify pk payload.bytes sig.signature = true) .host
  pure ⟨some sig.signerIndex, st.validCount + 1⟩

/-- `__check_auth`. -/
def checkAuth (s : Storage) (signaturePayload : BytesN 32) (signatures : List SignerSignature)
    (authContexts : List Context) : Except (Trap ThresholdError) Unit := do
  let required ← requiredThreshold s authContexts
  require (¬ signatures.length < required) .insufficientSignatures
  let signers ← loadSigners s
  let st ← signatures.foldlM (checkSignature ed25519Verify signers signaturePayload) ⟨none, 0⟩
  require (¬ st.validCount < required) .insufficientSignatures

end Auth

/-! ## Every stored configuration is well formed -/

/-- What the validation establishes. -/
structure WellFormed (s : Storage) (signers : List (BytesN 32)) (t r : ℕ) : Prop where
  eq : s = ⟨some t, some r, some signers⟩
  nodup : signers.Nodup
  size : signers.length ≤ 32
  threshold : 1 ≤ t ∧ t ≤ signers.length
  revoke : 1 ≤ r ∧ r ≤ signers.length

theorem checkDistinct_ok {signers : List (BytesN 32)} {u : Unit} :
    checkDistinct signers = .ok u ↔ signers.Nodup := by
  unfold checkDistinct
  simp only [forM_ok, bind_ok, orStop_ok, require_ok, List.mem_range, List.mem_range'_1]
  rw [List.nodup_iff_getElem?_ne_getElem?]
  constructor
  · intro h i j hij hj heq
    obtain ⟨si, hsi, hrest⟩ := h i (by omega)
    obtain ⟨sj, hsj, hne⟩ := hrest j (by omega)
    exact hne (Option.some.inj (hsi.symm.trans (heq.trans hsj)))
  · intro h i hi
    refine ⟨signers[i], List.getElem?_eq_getElem hi, fun j hj => ?_⟩
    have hj' : j < signers.length := by omega
    refine ⟨signers[j], List.getElem?_eq_getElem hj', fun heq => h i j (by omega) hj' ?_⟩
    rw [List.getElem?_eq_getElem hi, List.getElem?_eq_getElem hj', heq]

theorem validateAndStoreConfig_wellFormed {threshold : ℕ} {signers : List (BytesN 32)}
    {revokeThreshold : Option ℕ} {s : Storage}
    (h : validateAndStoreConfig threshold signers revokeThreshold = .ok s) :
    WellFormed s signers threshold (revokeThreshold.getD threshold) := by
  unfold validateAndStoreConfig at h
  simp only [check_bind_ok, require_ok, checkDistinct_ok, whenSome_ok, pure_ok] at h
  obtain ⟨h1, h2, h3, h4, rfl⟩ := h
  refine ⟨rfl, h3, by omega, by omega, ?_⟩
  cases revokeThreshold with
  | none => simp only [Option.getD_none]; omega
  | some r =>
    have := h4 r rfl
    simp only [Option.getD_some]
    omega

/-- A `set_signers` call by anyone. -/
structure Rotation where
  env : Env
  newThreshold : ℕ
  newSigners : List (BytesN 32)
  newRevokeThreshold : Option ℕ

/-- One call: a failed one leaves the storage alone. -/
def step (s : Storage) (c : Rotation) : Storage :=
  commit s (setSigners c.env c.newThreshold c.newSigners c.newRevokeThreshold)

theorem step_wellFormed {s : Storage} (hs : ∃ signers t r, WellFormed s signers t r) (c : Rotation) :
    ∃ signers t r, WellFormed (step s c) signers t r := by
  unfold step
  cases hc : setSigners c.env c.newThreshold c.newSigners c.newRevokeThreshold with
  | error e => exact hs
  | ok s' =>
    obtain ⟨-, hv⟩ := check_bind_ok.mp hc
    exact ⟨_, _, _, validateAndStoreConfig_wellFormed hv⟩

theorem run_wellFormed {threshold : ℕ} {signers : List (BytesN 32)} {revokeThreshold : Option ℕ} {s : Storage}
    (h : constructor threshold signers revokeThreshold = .ok s) (calls : List Rotation) :
    ∃ signers t r, WellFormed (run step s calls) signers t r :=
  inv_run (P := fun s => ∃ signers t r, WellFormed s signers t r) (fun _ c hs _ => step_wellFormed hs c)
    ⟨_, _, _, validateAndStoreConfig_wellFormed h⟩ (along_true (l := calls))

/-! ## What `__check_auth` accepts -/

/-- Every context is a contract call named `revoke`, and there is one. -/
def AllRevoke (contexts : List Context) : Prop :=
  contexts ≠ [] ∧ ∀ context ∈ contexts, ∃ c, context = .contract c ∧ c.fnName = "revoke"

theorem isAllRevoke_iff {contexts : List Context} : isAllRevoke contexts = true ↔ AllRevoke contexts := by
  unfold isAllRevoke AllRevoke
  by_cases hnil : contexts = []
  · simp [hnil]
  · rw [if_neg (by simpa using hnil), List.all_eq_true]
    refine ⟨fun h => ⟨hnil, fun context hmem => ?_⟩, fun h context hmem => ?_⟩
    · have hc := h context hmem
      cases context with
      | contract c => exact ⟨c, rfl, by simpa using hc⟩
      | createContractHostFn => simp at hc
      | createContractWithCtorHostFn => simp at hc
    · obtain ⟨c, rfl, hc⟩ := h.2 context hmem
      simpa using hc

section Accepts

variable {ed25519Verify : BytesN 32 → List UInt8 → BytesN 64 → Bool} {signers : List (BytesN 32)}
  {payload : BytesN 32} {sigs : List SignerSignature}

/-- The signature verifies under the key its index names. -/
def Verifies (ed25519Verify : BytesN 32 → List UInt8 → BytesN 64 → Bool) (signers : List (BytesN 32))
    (payload : BytesN 32) (sig : SignerSignature) : Prop :=
  ∃ pk, signers[sig.signerIndex]? = some pk ∧ ed25519Verify pk payload.bytes sig.signature = true

theorem checkSignature_ok {st st' : LoopState} {sig : SignerSignature} :
    checkSignature ed25519Verify signers payload st sig = .ok st' ↔
      (∀ prev, st.lastIndex = some prev → prev < sig.signerIndex) ∧
      Verifies ed25519Verify signers payload sig ∧ st' = ⟨some sig.signerIndex, st.validCount + 1⟩ := by
  unfold checkSignature Verifies
  simp only [bind_ok, whenSome_ok, require_ok, orStop_ok, ensure_ok, pure_ok, exists_const, not_le,
    @eq_comm _ _ st']
  constructor
  · rintro ⟨h1, -, pk, h3, h4, h5⟩
    exact ⟨h1, ⟨pk, h3, h4⟩, h5⟩
  · rintro ⟨h1, ⟨pk, h3, h4⟩, h5⟩
    exact ⟨h1, (List.getElem?_eq_some_iff.mp h3).1, pk, h3, h4, h5⟩

/-- **Loop**: it ends on the strictly ascending lists whose every entry verifies, having counted them. -/
theorem checkSignatures_ok {st st' : LoopState} :
    sigs.foldlM (checkSignature ed25519Verify signers payload) st = .ok st' →
      (∀ prev, st.lastIndex = some prev → ∀ sig ∈ sigs, prev < sig.signerIndex) ∧
      sigs.Pairwise (fun a b => a.signerIndex < b.signerIndex) ∧
      (∀ sig ∈ sigs, Verifies ed25519Verify signers payload sig) := by
  induction sigs generalizing st with
  | nil => simp
  | cons a sigs ih =>
    intro h
    obtain ⟨_, ha, hrest⟩ := foldlM_cons_ok.mp h
    obtain ⟨hlast, hver, rfl⟩ := checkSignature_ok.mp ha
    obtain ⟨hlt, hpair, hall⟩ := ih hrest
    refine ⟨fun prev hprev => List.forall_mem_cons.mpr ⟨hlast prev hprev, fun sig hsig => ?_⟩,
      List.pairwise_cons.mpr ⟨fun sig hsig => hlt _ rfl sig hsig, hpair⟩, List.forall_mem_cons.mpr ⟨hver, hall⟩⟩
    exact (hlast prev hprev).trans (hlt _ rfl sig hsig)

theorem checkSignatures_accept {st : LoopState}
    (hlast : ∀ prev, st.lastIndex = some prev → ∀ sig ∈ sigs, prev < sig.signerIndex)
    (hpair : sigs.Pairwise (fun a b => a.signerIndex < b.signerIndex))
    (hall : ∀ sig ∈ sigs, Verifies ed25519Verify signers payload sig) :
    ∃ st', sigs.foldlM (checkSignature ed25519Verify signers payload) st = .ok st' ∧
      st'.validCount = st.validCount + sigs.length := by
  induction sigs generalizing st with
  | nil => exact ⟨st, rfl, rfl⟩
  | cons a sigs ih =>
    obtain ⟨hlt, hpair'⟩ := List.pairwise_cons.mp hpair
    have ha : checkSignature ed25519Verify signers payload st a =
        .ok ⟨some a.signerIndex, st.validCount + 1⟩ :=
      checkSignature_ok.mpr ⟨fun prev hp => hlast prev hp a (by simp), hall a (by simp), rfl⟩
    have hlast' : ∀ prev, some a.signerIndex = some prev → ∀ sig ∈ sigs, prev < sig.signerIndex :=
      fun prev hp sig hsig => Option.some.inj hp ▸ hlt sig hsig
    obtain ⟨st', h1, h2⟩ := @ih ⟨some a.signerIndex, st.validCount + 1⟩ hlast' hpair'
      (fun sig hsig => hall sig (by simp [hsig]))
    refine ⟨st', foldlM_cons_ok.mpr ⟨_, ha, h1⟩, ?_⟩
    rw [h2, List.length_cons]
    simp only
    omega

/-- Strictly ascending indices into pairwise distinct keys name distinct keys. -/
theorem distinct_keys (hnodup : signers.Nodup)
    (hpair : sigs.Pairwise (fun a b => a.signerIndex < b.signerIndex))
    (hall : ∀ sig ∈ sigs, Verifies ed25519Verify signers payload sig) :
    ∃ keys : List (BytesN 32), keys.Nodup ∧ keys.length = sigs.length ∧
      ∀ k ∈ keys, ∃ sig ∈ sigs, signers[sig.signerIndex]? = some k ∧
        ed25519Verify k payload.bytes sig.signature = true := by
  induction sigs with
  | nil => exact ⟨[], List.nodup_nil, rfl, by simp⟩
  | cons a sigs ih =>
    obtain ⟨hlt, hpair'⟩ := List.pairwise_cons.mp hpair
    obtain ⟨⟨pk, hpk, hver⟩, hall'⟩ := List.forall_mem_cons.mp hall
    obtain ⟨keys, h1, h2, h3⟩ := ih hpair' hall'
    refine ⟨pk :: keys, List.nodup_cons.mpr ⟨fun hmem => ?_, h1⟩, by simp [h2], ?_⟩
    · obtain ⟨sig, hsig, hk, -⟩ := h3 pk hmem
      obtain ⟨hbound, -⟩ := List.getElem?_eq_some_iff.mp hk
      exact List.nodup_iff_getElem?_ne_getElem?.mp hnodup _ _ (hlt sig hsig) hbound (hpk.trans hk.symm)
    · refine List.forall_mem_cons.mpr ⟨⟨a, by simp, hpk, hver⟩, fun k hk => ?_⟩
      obtain ⟨sig, hsig, h⟩ := h3 k hk
      exact ⟨sig, by simp [hsig], h⟩

/-- **`__check_auth`**, once the threshold and the signers are loaded. -/
theorem checkAuth_ok {s : Storage} {contexts : List Context} {t : ℕ}
    (hload : requiredThreshold s contexts = .ok t)
    (hsigners : s.signers = some signers) :
    checkAuth ed25519Verify s payload sigs contexts = .ok () ↔
      t ≤ sigs.length ∧ sigs.Pairwise (fun a b => a.signerIndex < b.signerIndex) ∧
        ∀ sig ∈ sigs, Verifies ed25519Verify signers payload sig := by
  have hgo : checkAuth ed25519Verify s payload sigs contexts = .ok () ↔ ¬ sigs.length < t ∧
      ∃ st, sigs.foldlM (checkSignature ed25519Verify signers payload) ⟨none, 0⟩ = .ok st ∧
        ¬ st.validCount < t := by
    unfold checkAuth loadSigners
    simp only [hload, hsigners, bind_ok, require_ok, orPanic_ok, Except.ok.injEq, Option.some.injEq,
      exists_eq_left', exists_const]
  rw [hgo]
  constructor
  · rintro ⟨hlen, st, hfold, -⟩
    obtain ⟨-, hpair, hall⟩ := checkSignatures_ok hfold
    exact ⟨not_lt.mp hlen, hpair, hall⟩
  · rintro ⟨hlen, hpair, hall⟩
    obtain ⟨st, hfold, hcount⟩ := @checkSignatures_accept ed25519Verify signers payload sigs ⟨none, 0⟩
      (by simp) hpair hall
    refine ⟨not_lt.mpr hlen, st, hfold, ?_⟩
    rw [hcount]
    simp only
    omega

end Accepts

/-- **Threshold, over runs**: with `t` the stored revoke threshold on all-`revoke` contexts and the stored
threshold on any others, `t` is at least one, an accepted list carries verifying signatures of at least `t`
distinct stored keys, and every strictly ascending list of at least `t` verifying entries is accepted. -/
theorem checkAuth_meets_threshold (ed25519Verify : BytesN 32 → List UInt8 → BytesN 64 → Bool)
    {threshold : ℕ} {signers₀ : List (BytesN 32)} {revokeThreshold : Option ℕ} {s₀ : Storage}
    (hctor : constructor threshold signers₀ revokeThreshold = .ok s₀) (calls : List Rotation)
    (payload : BytesN 32) (sigs : List SignerSignature) (contexts : List Context) :
    ∃ t signers, (run step s₀ calls).signers = some signers ∧ 1 ≤ t ∧
      (AllRevoke contexts → (run step s₀ calls).revokeThreshold = some t) ∧
      (¬ AllRevoke contexts → (run step s₀ calls).threshold = some t) ∧
      (checkAuth ed25519Verify (run step s₀ calls) payload sigs contexts = .ok () →
        ∃ keys : List (BytesN 32), keys.Nodup ∧ t ≤ keys.length ∧ ∀ k ∈ keys, k ∈ signers ∧
          ∃ sig ∈ sigs, ed25519Verify k payload.bytes sig.signature = true) ∧
      (t ≤ sigs.length → sigs.Pairwise (fun a b => a.signerIndex < b.signerIndex) →
        (∀ sig ∈ sigs, Verifies ed25519Verify signers payload sig) →
        checkAuth ed25519Verify (run step s₀ calls) payload sigs contexts = .ok ()) := by
  obtain ⟨signers, t, r, heq, hnodup, -, ⟨ht, -⟩, hr, -⟩ := run_wellFormed hctor calls
  obtain ⟨t', ht', hrev, hthr, hload⟩ : ∃ t', 1 ≤ t' ∧
      (AllRevoke contexts → (run step s₀ calls).revokeThreshold = some t') ∧
      (¬ AllRevoke contexts → (run step s₀ calls).threshold = some t') ∧
      requiredThreshold (run step s₀ calls) contexts = .ok t' := by
    rw [heq]
    unfold requiredThreshold
    by_cases hall : AllRevoke contexts
    · exact ⟨r, hr, fun _ => rfl, fun h => absurd hall h, by rw [if_pos (isAllRevoke_iff.mpr hall)]; rfl⟩
    · refine ⟨t, ht, fun h => absurd h hall, fun _ => rfl, ?_⟩
      rw [if_neg (fun h => hall (isAllRevoke_iff.mp h))]
      rfl
  have hauth : checkAuth ed25519Verify (run step s₀ calls) payload sigs contexts = .ok () ↔
      t' ≤ sigs.length ∧ sigs.Pairwise (fun a b => a.signerIndex < b.signerIndex) ∧
        ∀ sig ∈ sigs, Verifies ed25519Verify signers payload sig := checkAuth_ok hload (by rw [heq])
  refine ⟨t', signers, by rw [heq], ht', hrev, hthr, fun h => ?_, fun h1 h2 h3 => hauth.mpr ⟨h1, h2, h3⟩⟩
  obtain ⟨hlen, hpair, hver⟩ := hauth.mp h
  obtain ⟨keys, h1, h2, h3⟩ := distinct_keys hnodup hpair hver
  refine ⟨keys, h1, by omega, fun k hk => ?_⟩
  obtain ⟨sig, hsig, hget, hk'⟩ := h3 k hk
  exact ⟨List.mem_of_getElem? hget, sig, hsig, hk'⟩

/-! ### One of two signers revokes, after a rotation -/

def firstKey : BytesN 32 :=
  ⟨[215, 90, 152, 1, 130, 177, 10, 183, 213, 75, 254, 211, 201, 100, 7, 58, 14, 225, 114, 243, 218, 166,
    35, 37, 175, 2, 26, 104, 247, 7, 81, 26], rfl⟩

def secondKey : BytesN 32 :=
  ⟨[61, 64, 23, 195, 232, 67, 137, 90, 146, 183, 10, 167, 77, 27, 126, 188, 156, 152, 44, 207, 46, 196,
    150, 140, 192, 205, 85, 241, 42, 244, 102, 12], rfl⟩

def zeroPayload : BytesN 32 := ⟨List.replicate 32 0, List.length_replicate⟩

/-- The second key's signature of `zeroPayload`. -/
def secondSignature : BytesN 64 :=
  ⟨[245, 85, 252, 82, 79, 111, 188, 122, 212, 134, 221, 188, 69, 227, 155, 6, 173, 157, 99, 181, 107,
    73, 95, 66, 116, 37, 6, 90, 142, 31, 5, 154, 110, 123, 151, 170, 66, 186, 164, 159, 73, 249, 230,
    42, 170, 93, 57, 199, 68, 137, 208, 81, 245, 117, 177, 51, 145, 72, 31, 107, 25, 177, 198, 0], rfl⟩

/-- Ed25519 on the one signature used here. -/
def verifySecond (pk : BytesN 32) (message : List UInt8) (signature : BytesN 64) : Bool :=
  pk == secondKey && message == zeroPayload.bytes && signature == secondSignature

def soloStorage : Storage := ⟨some 1, some 1, some [firstKey]⟩

def toTwoOfTwo : Rotation := ⟨⟨0, 0, ⟨"CATTESTOR"⟩, [⟨"CATTESTOR"⟩]⟩, 2, [firstKey, secondKey], some 1⟩

def revokeContext : Context := .contract ⟨⟨"CREGISTRY"⟩, "revoke", []⟩

theorem checkAuth_meets_threshold_revoke :
    checkAuth verifySecond (run step soloStorage [toTwoOfTwo]) zeroPayload [⟨1, secondSignature⟩]
      [revokeContext] = .ok () := by
  obtain ⟨t, signers, hsigners, -, hrevoke, -, -, haccept⟩ := checkAuth_meets_threshold verifySecond
    (show constructor 1 [firstKey] none = .ok soloStorage by rfl) [toTwoOfTwo] zeroPayload
    [⟨1, secondSignature⟩] [revokeContext]
  have hall : AllRevoke [revokeContext] := isAllRevoke_iff.mp (by decide)
  obtain rfl : 1 = t := Option.some.inj ((show _ = some 1 by rfl).symm.trans (hrevoke hall))
  obtain rfl : [firstKey, secondKey] = signers :=
    Option.some.inj ((show _ = some [firstKey, secondKey] by rfl).symm.trans hsigners)
  refine haccept (by decide) (List.pairwise_singleton _ _) fun sig hsig => ?_
  obtain rfl := List.mem_singleton.mp hsig
  exact ⟨secondKey, rfl, by decide⟩

/-! ## Mixed contexts -/

section Mixed

variable {ed25519Verify : BytesN 32 → List UInt8 → BytesN 64 → Bool} {signers : List (BytesN 32)} {payload : BytesN 32}
  {sigs : List SignerSignature} {contexts : List Context} {s : Storage} {t r : ℕ}

/-- The distinct keys whose signatures the list carries. -/
def verifiedSigners (ed25519Verify : BytesN 32 → List UInt8 → BytesN 64 → Bool) (signers : List (BytesN 32))
    (payload : BytesN 32) (sigs : List SignerSignature) : List (BytesN 32) :=
  (sigs.filterMap fun sig =>
    signers[sig.signerIndex]?.filter fun pk => ed25519Verify pk payload.bytes sig.signature).dedup

/-- What is accepted carries the signatures that each of its contexts would need alone. -/
def CoversEach (ed25519Verify : BytesN 32 → List UInt8 → BytesN 64 → Bool) (s : Storage) (contexts : List Context) : Prop :=
  ∀ payload sigs signers, s.signers = some signers → checkAuth ed25519Verify s payload sigs contexts = .ok () →
    ∀ context ∈ contexts, ∀ n, requiredThreshold s [context] = .ok n →
      n ≤ (verifiedSigners ed25519Verify signers payload sigs).length

theorem length_verifiedSigners_le : (verifiedSigners ed25519Verify signers payload sigs).length ≤ sigs.length :=
  (List.dedup_sublist _).length_le.trans (List.length_filterMap_le _ _)

/-- An accepted list counts its signers. -/
theorem length_verifiedSigners (hnodup : signers.Nodup) (hpair : sigs.Pairwise (fun a b => a.signerIndex < b.signerIndex))
    (hall : ∀ sig ∈ sigs, Verifies ed25519Verify signers payload sig) :
    (verifiedSigners ed25519Verify signers payload sigs).length = sigs.length := by
  refine le_antisymm length_verifiedSigners_le ?_
  obtain ⟨keys, hkeys, hlength, hfrom⟩ := distinct_keys hnodup hpair hall
  rw [← hlength]
  refine (List.subperm_of_subset hkeys fun k hk => ?_).length_le
  obtain ⟨sig, hsig, hget, hverify⟩ := hfrom k hk
  refine List.mem_dedup.mpr (List.mem_filterMap.mpr ⟨sig, hsig, ?_⟩)
  rw [hget]
  exact Option.filter_some_pos (p := fun pk => ed25519Verify pk payload.bytes sig.signature) hverify

theorem requiredThreshold_wellFormed (h : WellFormed s signers t r) (contexts : List Context) :
    requiredThreshold s contexts = .ok (if isAllRevoke contexts then r else t) := by
  rw [h.eq]
  unfold requiredThreshold
  split <;> rfl

/-- A signature by each of the first `n` keys. -/
def firstSignatures (n : ℕ) : List SignerSignature :=
  (List.range n).map fun i => ⟨i, ⟨List.replicate 64 0, List.length_replicate⟩⟩

theorem firstSignatures_accept (h : WellFormed s signers t r) (hcontexts : isAllRevoke contexts = false) :
    checkAuth (fun _ _ _ => true) s payload (firstSignatures t) contexts = .ok () := by
  have hload : requiredThreshold s contexts = .ok t := by
    rw [requiredThreshold_wellFormed h, hcontexts]
    rfl
  refine (checkAuth_ok hload (by rw [h.eq])).mpr ⟨?_, ?_, fun sig hsig => ?_⟩
  · rw [firstSignatures, List.length_map, List.length_range]
  · exact List.pairwise_map.mpr List.pairwise_lt_range
  · obtain ⟨i, hi, rfl⟩ := List.mem_map.mp hsig
    have hlt : i < signers.length := (List.mem_range.mp hi).trans_le h.threshold.2
    exact ⟨signers[i], List.getElem?_eq_getElem hlt, rfl⟩

/-- **A list needs what each of its contexts needs** exactly when revoking needs no more than the rest, or the list is not
mixed. -/
theorem coversEach_iff {threshold : ℕ} {revokeThreshold : Option ℕ}
    (h : validateAndStoreConfig threshold signers revokeThreshold = .ok s) (contexts : List Context) :
    (∀ ed25519Verify, CoversEach ed25519Verify s contexts) ↔
      revokeThreshold.getD threshold ≤ threshold ∨ AllRevoke contexts ∨ ∀ context ∈ contexts, ¬ AllRevoke [context] := by
  have hs := validateAndStoreConfig_wellFormed h
  have hsigners : s.signers = some signers := by rw [hs.eq]
  constructor
  · intro hcovers
    by_contra hnot
    obtain ⟨hlt, hmixed, hrevokes⟩ := not_or.mp hnot |>.imp_right not_or.mp
    obtain ⟨context, hmem, hrevoke⟩ : ∃ context ∈ contexts, AllRevoke [context] := by
      by_contra hnone
      exact hrevokes fun context hmem hrevoke => hnone ⟨context, hmem, hrevoke⟩
    have hcontexts : isAllRevoke contexts = false := Bool.eq_false_iff.mpr fun hall => hmixed (isAllRevoke_iff.mp hall)
    have hrequired : requiredThreshold s [context] = .ok (revokeThreshold.getD threshold) := by
      rw [requiredThreshold_wellFormed hs, isAllRevoke_iff.mpr hrevoke]
      rfl
    have hle := hcovers _ ⟨List.replicate 32 0, rfl⟩ _ signers hsigners (firstSignatures_accept hs hcontexts) context hmem _ hrequired
    have hcount := hle.trans length_verifiedSigners_le
    rw [firstSignatures, List.length_map, List.length_range] at hcount
    exact hlt hcount
  · intro hcases verify payload sigs signers' hsigners' hok context hmem n hn
    obtain rfl : signers = signers' := Option.some.inj (hsigners.symm.trans hsigners')
    obtain ⟨hlength, hpair, hall⟩ := (checkAuth_ok (requiredThreshold_wellFormed hs contexts) hsigners).mp hok
    rw [length_verifiedSigners hs.nodup hpair hall]
    refine le_trans ?_ hlength
    rw [requiredThreshold_wellFormed hs] at hn
    obtain rfl := Except.ok.inj hn
    rcases hcases with hle | hrevoke | hnone
    · -- Whatever the list needs is one of the two, and the larger unless it is all revokes.
      by_cases hall' : isAllRevoke contexts = true
      · have hself : isAllRevoke [context] = true :=
          isAllRevoke_iff.mpr ⟨List.cons_ne_nil _ _, fun c hc =>
            List.mem_singleton.mp hc ▸ (isAllRevoke_iff.mp hall').2 context hmem⟩
        rw [if_pos hall', if_pos hself]
      · rw [if_neg hall']
        split
        · exact hle
        · exact le_rfl
    · have hself : isAllRevoke [context] = true :=
        isAllRevoke_iff.mpr ⟨List.cons_ne_nil _ _, fun c hc => List.mem_singleton.mp hc ▸ hrevoke.2 context hmem⟩
      rw [if_pos hself, if_pos (isAllRevoke_iff.mpr hrevoke)]
    · have hself : ¬ isAllRevoke [context] = true := fun hall' => hnone context hmem (isAllRevoke_iff.mp hall')
      have hmixed : ¬ isAllRevoke contexts = true := fun hall' => hself (isAllRevoke_iff.mpr
        ⟨List.cons_ne_nil _ _, fun c hc => List.mem_singleton.mp hc ▸ (isAllRevoke_iff.mp hall').2 context hmem⟩)
      rw [if_neg hself, if_neg hmixed]

/-- Either of two keys attests, and both are needed to revoke. -/
def strictRevocation : Storage := ⟨some 1, some 2, some [firstKey, secondKey]⟩

def upsertContext : Context := .contract ⟨⟨"CREGISTRY"⟩, "upsert", []⟩

theorem coversEach_iff_revoke : CoversEach verifySecond strictRevocation [revokeContext] :=
  (coversEach_iff (show validateAndStoreConfig 1 [firstKey, secondKey] (some 2) = .ok strictRevocation by rfl) _).mpr
    (.inr (.inl (isAllRevoke_iff.mp (by decide)))) verifySecond

/-- **One signature revokes, next to an upsert**, where two are needed to revoke. -/
theorem mixed_not_covered : ¬ CoversEach verifySecond strictRevocation [revokeContext, upsertContext] := by
  intro h
  have haccept : checkAuth verifySecond strictRevocation zeroPayload [⟨1, secondSignature⟩] [revokeContext, upsertContext] = .ok () := by
    rfl
  have hle := h zeroPayload [⟨1, secondSignature⟩] _ rfl haccept revokeContext List.mem_cons_self 2 rfl
  exact absurd (hle.trans length_verifiedSigners_le) (by decide)

end Mixed

end Vellar.ThresholdAttestor
