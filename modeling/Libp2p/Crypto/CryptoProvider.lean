import Libp2p.Crypto.Key

/-! # Signature verification

`verify` dispatches on the key type. Ed25519, Secp256k1 and ECDSA verification copy fixed numbers of bytes
out of the key and, for Ed25519, out of the signature; the copies are not checked. The model makes a copy
that leaves its source visible as an absent result.
-/

namespace Libp2p

/-- The four signature schemes, each with the argument sizes its interface fixes. -/
structure SignatureProviders where
  rsa : Bytes → Bytes → Bytes → Except CryptoError Bool
  ed25519 : Bytes → Vector UInt8 64 → Vector UInt8 32 → Except CryptoError Bool
  secp256k1 : Bytes → Bytes → Vector UInt8 33 → Except CryptoError Bool
  ecdsa : Bytes → Bytes → Vector UInt8 91 → Except CryptoError Bool

namespace CryptoProvider

/-- `std::copy_n` into a fixed array; absent when the source is too short. -/
def copyN (source : Bytes) (count : ℕ) : Option (Vector UInt8 count) :=
  if enough : count ≤ source.length then
    some ⟨(source.take count).toArray, by simpa using enough⟩
  else none

def verifyRsa (providers : SignatureProviders) (message signature : Bytes) (key : PublicKey) :
    Option (Except CryptoError Bool) :=
  some (providers.rsa message signature key.data)

def verifyEd25519 (providers : SignatureProviders) (message signature : Bytes) (key : PublicKey) :
    Option (Except CryptoError Bool) := do
  let edPub ← copyN key.data 32
  let edSig ← copyN signature 64
  pure (providers.ed25519 message edSig edPub)

def verifySecp256k1 (providers : SignatureProviders) (message signature : Bytes) (key : PublicKey) :
    Option (Except CryptoError Bool) := do
  let secpPub ← copyN key.data 33
  pure (providers.secp256k1 message signature secpPub)

def verifyEcdsa (providers : SignatureProviders) (message signature : Bytes) (key : PublicKey) :
    Option (Except CryptoError Bool) := do
  let ecdsaPub ← copyN key.data 91
  pure (providers.ecdsa message signature ecdsaPub)

/-- The result of `verify`, or `none` when it reads outside a buffer. -/
def verify (providers : SignatureProviders) (message signature : Bytes) (key : PublicKey) :
    Option (Except CryptoError Bool) :=
  match key.type with
  | .rsa => verifyRsa providers message signature key
  | .ed25519 => verifyEd25519 providers message signature key
  | .secp256k1 => verifySecp256k1 providers message signature key
  | .ecdsa => verifyEcdsa providers message signature key
  | .unspecified => some (.error .wrongKeyType)

/-- All copies stay inside their source, and an accepted Ed25519 signature has its exact size. -/
structure Contained (providers : SignatureProviders) (message signature : Bytes) (key : PublicKey) : Prop where
  inside : verify providers message signature key ≠ none
  exact : key.type = .ed25519 → verify providers message signature key = some (.ok true) → signature.length = 64

/-- The Ed25519 scheme accepts the first 64 bytes of the signature. -/
def AcceptsFront (providers : SignatureProviders) (message signature : Bytes) (key : PublicKey) : Prop :=
  ∃ front pub, copyN signature 64 = some front ∧ copyN key.data 32 = some pub ∧
    providers.ed25519 message front pub = .ok true

/-- Sizes under which verification is contained. -/
structure Fitting (providers : SignatureProviders) (message signature : Bytes) (key : PublicKey) : Prop where
  ed25519 : key.type = .ed25519 →
    signature.length = 64 ∨ (64 < signature.length ∧ ¬ AcceptsFront providers message signature key)
  ecdsa : key.type = .ecdsa → 91 ≤ key.data.length

theorem copyN_eq_none_iff {source : Bytes} {count : ℕ} : copyN source count = none ↔ source.length < count := by
  rw [copyN]
  split_ifs with enough
  · simpa using enough
  · simpa using enough

theorem exists_copyN {source : Bytes} {count : ℕ} (enough : count ≤ source.length) :
    ∃ copy, copyN source count = some copy :=
  Option.ne_none_iff_exists'.mp fun none => by
    have := copyN_eq_none_iff.mp none
    omega

/-- Verification with a validated key is contained exactly when the unchecked sizes fit. -/
theorem contained_iff_fitting {providers : SignatureProviders} {message signature : Bytes} {key : PublicKey}
    {rsaBits : RsaBits} (valid : KeyValidator.validate rsaBits key = .ok ()) :
    Contained providers message signature key ↔ Fitting providers message signature key := by
  obtain ⟨edSize, secpSize⟩ := KeyValidator.size_of_validate valid
  cases type : key.type with
  | unspecified =>
    refine iff_of_true ⟨?_, ?_⟩ ⟨?_, ?_⟩ <;> simp [verify, type]
  | rsa =>
    refine iff_of_true ⟨?_, ?_⟩ ⟨?_, ?_⟩ <;> simp [verify, verifyRsa, type]
  | secp256k1 =>
    obtain ⟨pub, copied⟩ := exists_copyN (secpSize type).ge
    refine iff_of_true ⟨?_, ?_⟩ ⟨?_, ?_⟩ <;> simp [verify, verifySecp256k1, copied, type]
  | ecdsa =>
    constructor
    · intro contained
      refine ⟨by simp [type], fun _ => ?_⟩
      by_contra short
      apply contained.inside
      simp [verify, type, verifyEcdsa, copyN_eq_none_iff.mpr (not_le.mp short)]
    · intro fitting
      obtain ⟨pub, copied⟩ := exists_copyN (fitting.ecdsa type)
      refine ⟨?_, ?_⟩ <;> simp [verify, type, verifyEcdsa, copied]
  | ed25519 =>
    obtain ⟨pub, copied⟩ := exists_copyN (edSize type).ge
    have verified : verify providers message signature key =
        (copyN signature 64).map fun front => providers.ed25519 message front pub := by
      simp only [verify, type, verifyEd25519, copied]
      cases copyN signature 64 <;> rfl
    constructor
    · intro contained
      refine ⟨fun _ => ?_, by simp [type]⟩
      by_contra outside
      obtain ⟨inexact, loose⟩ := not_or.mp outside
      have long : 64 < signature.length := by
        by_contra short
        apply contained.inside
        rw [verified, copyN_eq_none_iff.mpr (by omega)]
        rfl
      obtain ⟨front, pub', fronted, copied', accepted⟩ := not_not.mp fun rejected => loose ⟨long, rejected⟩
      obtain rfl : pub = pub' := Option.some.inj (copied.symm.trans copied')
      exact inexact (contained.exact type (by rw [verified, fronted, Option.map_some, accepted]))
    · intro fitting
      have sized := fitting.ed25519 type
      obtain ⟨front, fronted⟩ := exists_copyN (by omega : 64 ≤ signature.length)
      refine ⟨by simp [verified, fronted], fun _ accepted => ?_⟩
      rcases sized with exact | ⟨-, rejected⟩
      · exact exact
      · rw [verified, fronted, Option.map_some, Option.some.injEq] at accepted
        exact (rejected ⟨front, pub, fronted, copied, accepted⟩).elim

end CryptoProvider

end Libp2p
