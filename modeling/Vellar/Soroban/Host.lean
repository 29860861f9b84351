import Vellar.Lib.Checked
import Vellar.Lib.Machine

/-!
# Vellar.Soroban.Host — what the contracts see of the Soroban host

Addresses, byte arrays, 128-bit integers, host values, authorization contexts, and the environment of one
invocation: the ledger's timestamp and sequence, the contract's own address, and the addresses whose
`require_auth` the host has satisfied.  A panic, a failed `require_auth` and a trapped host function all
abort the invocation and roll its writes back (`commit`).  Persistent entries are never lost: storage TTLs
are not part of the state.
-/

set_option autoImplicit false

namespace Vellar.Soroban

open Checked

/-- An account or contract address, by its strkey. -/
structure Address where
  strkey : String
deriving DecidableEq, Repr

/-- `BytesN<n>`. -/
structure BytesN (n : ℕ) where
  bytes : List UInt8
  size : bytes.length = n
deriving DecidableEq, Repr

/-! ## `i128` -/

/-- A signed 128-bit integer. -/
structure I128 where
  val : ℤ
  lo : -2 ^ 127 ≤ val
  hi : val < 2 ^ 127
deriving DecidableEq, Repr

namespace I128

/-- `checked_add`: the sum, when it fits. -/
def checkedAdd (a b : I128) : Option I128 :=
  if h : -2 ^ 127 ≤ a.val + b.val ∧ a.val + b.val < 2 ^ 127 then some ⟨a.val + b.val, h.1, h.2⟩ else none

/-- A literal of the source. -/
def ofNat (n : ℕ) (h : n < 2 ^ 127) : I128 := ⟨n, by omega, by exact_mod_cast h⟩

def zero : I128 := ofNat 0 (by decide)

@[simp] theorem ofNat_val (n : ℕ) (h : n < 2 ^ 127) : (ofNat n h).val = n := rfl

@[simp] theorem zero_val : zero.val = 0 := rfl

theorem ext_val {a b : I128} (h : a.val = b.val) : a = b := by
  cases a
  cases b
  cases h
  rfl

theorem checkedAdd_some {a b c : I128} : a.checkedAdd b = some c ↔ c.val = a.val + b.val := by
  unfold checkedAdd
  split_ifs with h
  · rw [Option.some.injEq]
    exact ⟨fun hc => hc ▸ rfl, fun hc => ext_val hc.symm⟩
  · simp only [false_iff]
    intro hc
    have h1 := c.lo
    have h2 := c.hi
    rw [hc] at h1 h2
    exact h ⟨h1, h2⟩

end I128

/-! ## Host values and authorization contexts -/

/-- A host value, as far as the contracts tell values apart. -/
inductive Val where
  | address (a : Address)
  | i128 (n : I128)
  /-- A value of any other type, by its XDR. -/
  | other (xdr : List UInt8)
deriving DecidableEq, Repr

/-- `Address::try_from_val`. -/
def Val.toAddress : Val → Option Address
  | .address a => some a
  | _ => none

/-- `i128::try_from_val`. -/
def Val.toI128 : Val → Option I128
  | .i128 n => some n
  | _ => none

@[simp] theorem Val.toAddress_some {v : Val} {a : Address} : v.toAddress = some a ↔ v = .address a := by
  cases v <;> simp [Val.toAddress]

@[simp] theorem Val.toI128_some {v : Val} {n : I128} : v.toI128 = some n ↔ v = .i128 n := by
  cases v <;> simp [Val.toI128]

/-- The invocation a contract context authorizes. -/
structure ContractContext where
  contract : Address
  fnName : String
  args : List Val
deriving DecidableEq, Repr

/-- `auth::Context`; nothing reads the payload of the deploy contexts. -/
inductive Context where
  | contract (c : ContractContext)
  | createContractHostFn
  | createContractWithCtorHostFn
deriving DecidableEq, Repr

/-- The wallet's signer keys. -/
inductive SignerKey where
  | policy (a : Address)
  | ed25519 (pk : BytesN 32)
  | secp256r1 (keyId : List UInt8)
deriving DecidableEq, Repr

/-! ## One invocation -/

/-- The environment of an invocation. -/
structure Env where
  timestamp : ℕ
  sequence : ℕ
  currentContract : Address
  auths : List Address
deriving DecidableEq, Repr

/-- Why an invocation aborted. -/
inductive Trap (ε : Type) where
  | auth (a : Address)
  | host
  | error (e : ε)
deriving DecidableEq, Repr

/-- `address.require_auth()`. -/
def Env.requireAuth {ε : Type} (env : Env) (a : Address) : Except (Trap ε) Unit :=
  ensure (a ∈ env.auths) (.auth a)

/-- `panic_with_error!` unless `p`. -/
def require {ε : Type} (p : Prop) [Decidable p] (e : ε) : Except (Trap ε) Unit := ensure p (.error e)

/-- The `Some` value, or `panic_with_error!`. -/
def orPanic {ε α : Type} (x : Option α) (e : ε) : Except (Trap ε) α := orStop x (.error e)

@[simp] theorem requireAuth_ok {ε : Type} {env : Env} {a : Address} {u : Unit} :
    (env.requireAuth a : Except (Trap ε) Unit) = .ok u ↔ a ∈ env.auths := ensure_ok

@[simp] theorem require_ok {ε : Type} {p : Prop} [Decidable p] {e : ε} {u : Unit} :
    require p e = .ok u ↔ p := ensure_ok

@[simp] theorem orPanic_ok {ε α : Type} {x : Option α} {e : ε} {a : α} : orPanic x e = .ok a ↔ x = some a :=
  orStop_ok

/-- The state an invocation leaves: what it wrote, or the state before when it aborted. -/
def commit {ε σ : Type} (s : σ) (r : Except ε σ) : σ :=
  match r with
  | .ok s' => s'
  | .error _ => s

@[simp] theorem commit_ok {ε σ : Type} (s s' : σ) : commit s (.ok s' : Except ε σ) = s' := rfl

@[simp] theorem commit_error {ε σ : Type} (s : σ) (e : ε) : commit s (.error e) = s := rfl

end Vellar.Soroban
