import Vellar.Lib.Sha256
import Vellar.Soroban.Host

/-!
# Vellar.Soroban.Xdr — authorization entries in XDR

The XDR of host values, of contract invocations and of the authorization entry over them, and the preimage whose hash the host
hands to the account as the payload.  `preimage_shorter`: the two never have the same length.
-/

set_option autoImplicit false

namespace Vellar.Soroban.Xdr

open Sha256

/-- `SCAddress`: a G- or a C-address. -/
inductive ScAddress where
  | account (publicKey : BytesN 32)
  | contract (hash : BytesN 32)
deriving DecidableEq

/-- `SCVal`, as far as calls and signatures use it. -/
inductive ScVal where
  | void
  | u32 (n : UInt32)
  | bytes (b : List UInt8)
  | symbol (s : String)
  | vec (items : List ScVal)
  | map (entries : List (ScVal × ScVal))
  | address (a : ScAddress)

def uint32 (n : ℕ) : List UInt8 := bytesBE n 4

def int64 (n : ℤ) : List UInt8 := bytesBE (n % 2 ^ 64).toNat 8

/-- A string of bytes: its length, and zeros up to a multiple of four. -/
def varBytes (b : List UInt8) : List UInt8 := uint32 b.length ++ b ++ List.replicate ((4 - b.length % 4) % 4) 0

def utf8 (s : String) : List UInt8 := s.toUTF8.data.toList

def ScAddress.toXdr : ScAddress → List UInt8
  | .account publicKey => uint32 0 ++ uint32 0 ++ publicKey.bytes
  | .contract hash => uint32 1 ++ hash.bytes

mutual

def ScVal.toXdr : ScVal → List UInt8
  | .void => uint32 1
  | .u32 n => uint32 3 ++ uint32 n.toNat
  | .bytes b => uint32 13 ++ varBytes b
  | .symbol s => uint32 15 ++ varBytes (utf8 s)
  | .vec items => uint32 16 ++ uint32 1 ++ uint32 items.length ++ itemsToXdr items
  | .map entries => uint32 17 ++ uint32 1 ++ uint32 entries.length ++ entriesToXdr entries
  | .address a => uint32 18 ++ a.toXdr

def itemsToXdr : List ScVal → List UInt8
  | [] => []
  | v :: rest => v.toXdr ++ itemsToXdr rest

def entriesToXdr : List (ScVal × ScVal) → List UInt8
  | [] => []
  | (k, v) :: rest => k.toXdr ++ v.toXdr ++ entriesToXdr rest

end

/-- `InvokeContractArgs`. -/
structure InvokeContractArgs where
  contractAddress : ScAddress
  functionName : String
  args : List ScVal

/-- `SorobanAuthorizedInvocation` of a contract function, with no sub-invocations. -/
def InvokeContractArgs.toXdr (inv : InvokeContractArgs) : List UInt8 :=
  uint32 0 ++ inv.contractAddress.toXdr ++ varBytes (utf8 inv.functionName) ++ uint32 inv.args.length ++ itemsToXdr inv.args ++ uint32 0

/-- `SorobanAddressCredentials`. -/
structure AddressCredentials where
  address : ScAddress
  nonce : ℤ
  signatureExpirationLedger : ℕ
  signature : ScVal

/-- `SorobanAuthorizationEntry` with address credentials. -/
structure AuthorizationEntry where
  credentials : AddressCredentials
  rootInvocation : InvokeContractArgs

/-- `toXDR`, which throws where the ledger is no `uint32`. -/
def AuthorizationEntry.toXdr (e : AuthorizationEntry) : Option (List UInt8) :=
  if e.credentials.signatureExpirationLedger < 2 ^ 32 then
    some (uint32 1 ++ e.credentials.address.toXdr ++ int64 e.credentials.nonce ++ uint32 e.credentials.signatureExpirationLedger ++
      e.credentials.signature.toXdr ++ e.rootInvocation.toXdr)
  else none

def hash (m : List UInt8) : BytesN 32 := ⟨sha256 m, length_sha256 m⟩

/-- `HashIdPreimage` of type `sorobanAuthorization`. -/
def AuthorizationEntry.preimage (networkPassphrase : String) (e : AuthorizationEntry) : List UInt8 :=
  uint32 9 ++ (hash (utf8 networkPassphrase)).bytes ++ int64 e.credentials.nonce ++ uint32 e.credentials.signatureExpirationLedger ++
    e.rootInvocation.toXdr

/-- What the host has the account check. -/
def AuthorizationEntry.payload (networkPassphrase : String) (e : AuthorizationEntry) : BytesN 32 := hash (e.preimage networkPassphrase)

/-! ## Lengths -/

@[simp] theorem length_uint32 (n : ℕ) : (uint32 n).length = 4 := length_bytesBE n 4

@[simp] theorem length_int64 (n : ℤ) : (int64 n).length = 8 := length_bytesBE _ 8

theorem length_address (a : ScAddress) : 36 ≤ a.toXdr.length := by
  cases a with
  | account publicKey => simp [ScAddress.toXdr, publicKey.size]
  | contract hash => simp [ScAddress.toXdr, hash.size]

theorem length_preimage (networkPassphrase : String) (e : AuthorizationEntry) :
    (e.preimage networkPassphrase).length = 48 + e.rootInvocation.toXdr.length := by
  unfold AuthorizationEntry.preimage
  simp only [List.length_append, length_uint32, length_int64, (hash _).size]

/-- An entry is longer than its preimage, even with a signature of nothing. -/
theorem preimage_shorter {e : AuthorizationEntry} {xdr : List UInt8} (hvoid : e.credentials.signature = .void) (h : e.toXdr = some xdr)
    (networkPassphrase : String) : (e.preimage networkPassphrase).length < xdr.length := by
  unfold AuthorizationEntry.toXdr at h
  split at h
  · obtain rfl := Option.some.inj h
    have haddress := length_address e.credentials.address
    have hone : ScVal.void.toXdr = uint32 1 := by rw [ScVal.toXdr]
    rw [length_preimage, hvoid, hone]
    simp only [List.length_append, length_uint32, length_int64]
    omega
  · cases h

-- The symbol is padded to four bytes.
example : (ScVal.vec [.u32 7, .symbol "abc"]).toXdr =
    [0, 0, 0, 16, 0, 0, 0, 1, 0, 0, 0, 2, 0, 0, 0, 3, 0, 0, 0, 7, 0, 0, 0, 15, 0, 0, 0, 3, 97, 98, 99, 0] := by decide

end Vellar.Soroban.Xdr
