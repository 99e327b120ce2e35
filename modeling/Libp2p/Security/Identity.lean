import Libp2p.Crypto.CryptoProvider
import Libp2p.Peer.Factories
import Libp2p.Security.TlsDetails
import Libp2p.Transport.Quic.ConnectionRuns

/-! # Identities of certificates

A certificate has a key of its own. Its extension has the key of the host and a signature, made with the host key, of the
key of the certificate. OpenSSL takes a certificate apart; the model starts from the contents of the extension and from
the serialized key of the certificate. The length of the signature is not checked before Ed25519 verification copies it.
-/

namespace Libp2p.Security.TlsDetails

open Network Transport.Quic

/-- What OpenSSL finds in a certificate. -/
structure Certificate where
  extension : Option Bytes
  publicKey : Bytes
deriving DecidableEq, Repr

structure PubkeyAndPeerId where
  publicKey : PublicKey
  peerId : PeerId
deriving DecidableEq

/-- `libp2p-tls-handshake:`. -/
def signPrefix : Bytes :=
  ['l', 'i', 'b', 'p', '2', 'p', '-', 't', 'l', 's', '-', 'h', 'a', 'n', 'd', 's', 'h', 'a', 'k', 'e', ':'].map
    fun char => UInt8.ofNat char.toNat

section Making

-- Signing with the private key of the host.
variable (sign : Bytes → Except CryptoError Bytes)

def makeExtensionSignature (certPubKey : Bytes) : Except CryptoError Bytes :=
  sign (signPrefix ++ certPubKey)

/-- The certificate for a new key; an error is thrown. -/
def makeCertificate (hostKey : PublicKey) (certPubKey : Bytes) : Except CryptoError Certificate := do
  let pubKeyBytes ← KeyMarshaller.marshal hostKey
  let signature ← makeExtensionSignature sign certPubKey
  pure { extension := some (marshalExtensionData pubKeyBytes signature), publicKey := certPubKey }

end Making

def extractExtensionFields (certificate : Certificate) : Except TlsError KeyAndSignature :=
  match certificate.extension with
  | none => .error .tlsIncompatibleCertificateExtension
  | some extension =>
    match unmarshalExtensionData extension with
    | none => .error .tlsIncompatibleCertificateExtension
    | some fields => .ok fields

section Verifying

variable (sha256 : Bytes → Hash256) (rsaBits : RsaBits) (providers : SignatureProviders) (certificate : Certificate)

/-- Absent when the verification reads outside a buffer. -/
def verifyExtensionSignature (peerPubkey : PublicKey) (signature : Bytes) : Option (Except TlsError Unit) :=
  match CryptoProvider.verify providers (signPrefix ++ certificate.publicKey) signature peerPubkey with
  | none => none
  | some (.error _) => some (.error .tlsPeerVerifyFailed)
  | some (.ok verified) => some (if verified then .ok () else .error .tlsPeerVerifyFailed)

def verifyPeerAndExtractIdentity : Option (Except TlsError PubkeyAndPeerId) :=
  match extractExtensionFields certificate with
  | .error error => some (.error error)
  | .ok fields =>
    match PeerId.fromPublicKey sha256 fields.pkey with
    | .error _ => some (.error .tlsIncompatibleCertificateExtension)
    | .ok peerId =>
      match KeyMarshaller.unmarshalPublicKey rsaBits fields.pkey with
      | .error _ => some (.error .tlsIncompatibleCertificateExtension)
      | .ok publicKey =>
        -- The provider that verifies has no other schemes.
        if publicKey.type ≠ .ed25519 ∧ publicKey.type ≠ .secp256k1 then
          some (.error .tlsIncompatibleCertificateExtension)
        else
          (verifyExtensionSignature providers certificate publicKey fields.signature).map
            (Except.map fun _ => { publicKey, peerId })

/-- The host key signed the key of the certificate, and the peer id is that of the host key as the extension has it. -/
structure Endorsed (fields : KeyAndSignature) (info : PubkeyAndPeerId) : Prop where
  extracted : extractExtensionFields certificate = .ok fields
  id : PeerId.fromPublicKey sha256 fields.pkey = .ok info.peerId
  key : KeyMarshaller.unmarshalPublicKey rsaBits fields.pkey = .ok info.publicKey
  type : info.publicKey.type = .ed25519 ∨ info.publicKey.type = .secp256k1
  verified : CryptoProvider.verify providers (signPrefix ++ certificate.publicKey) fields.signature info.publicKey =
    some (.ok true)

end Verifying

variable {sha256 : Bytes → Hash256} {rsaBits : RsaBits} {providers : SignatureProviders} {certificate : Certificate}
  {fields : KeyAndSignature} {info : PubkeyAndPeerId} {key : PublicKey} {message signature : Bytes}

theorem exists_fromPublicKey (sha256 : Bytes → Hash256) (key : Bytes) :
    ∃ peerId, PeerId.fromPublicKey sha256 key = .ok peerId := by
  unfold PeerId.fromPublicKey
  split_ifs with short
  · have fits : ¬ key.length > kMaxHashLength := by
      rw [PeerId.kMaxInlineKeyLength] at short
      rw [kMaxHashLength]
      omega
    rw [Multihash.create, dif_neg fits]
    exact ⟨_, rfl⟩
  · have fits : ¬ (sha256 key).toList.length > kMaxHashLength := by
      rw [Vector.length_toList]
      decide
    rw [Multihash.create, dif_neg fits]
    exact ⟨_, rfl⟩

/-- Of the keys that may stand in a certificate, only an Ed25519 key needs a signature of some length. -/
theorem verify_eq_none_iff (valid : KeyValidator.validate rsaBits key = .ok ())
    (type : key.type = .ed25519 ∨ key.type = .secp256k1) :
    CryptoProvider.verify providers message signature key = none ↔ key.type = .ed25519 ∧ signature.length < 64 := by
  obtain ⟨edSize, secpSize⟩ := KeyValidator.size_of_validate valid
  rw [← CryptoProvider.copyN_eq_none_iff]
  rcases type with type | type
  · obtain ⟨pub, copied⟩ := CryptoProvider.exists_copyN (edSize type).ge
    simp only [CryptoProvider.verify, type, CryptoProvider.verifyEd25519, copied]
    cases CryptoProvider.copyN signature 64 <;> simp
  · obtain ⟨pub, copied⟩ := CryptoProvider.exists_copyN (secpSize type).ge
    simp [CryptoProvider.verify, type, CryptoProvider.verifySecp256k1, copied]

theorem verifyExtensionSignature_eq_ok : verifyExtensionSignature providers certificate key signature = some (.ok ()) ↔
    CryptoProvider.verify providers (signPrefix ++ certificate.publicKey) signature key = some (.ok true) := by
  unfold verifyExtensionSignature
  rcases CryptoProvider.verify providers (signPrefix ++ certificate.publicKey) signature key with _ | error | verified
  · simp
  · simp
  · cases verified <;> simp

theorem verifyExtensionSignature_eq_none :
    verifyExtensionSignature providers certificate key signature = none ↔
      CryptoProvider.verify providers (signPrefix ++ certificate.publicKey) signature key = none := by
  unfold verifyExtensionSignature
  rcases CryptoProvider.verify providers (signPrefix ++ certificate.publicKey) signature key with _ | error | verified
  · simp
  · simp
  · simp

/-- What is left to decide once the extension has a key of a type that is allowed. -/
theorem verifyPeer_eq (extracted : extractExtensionFields certificate = .ok fields)
    (id : PeerId.fromPublicKey sha256 fields.pkey = .ok info.peerId)
    (read : KeyMarshaller.unmarshalPublicKey rsaBits fields.pkey = .ok info.publicKey)
    (type : info.publicKey.type = .ed25519 ∨ info.publicKey.type = .secp256k1) :
    verifyPeerAndExtractIdentity sha256 rsaBits providers certificate =
      (verifyExtensionSignature providers certificate info.publicKey fields.signature).map (Except.map fun _ => info) := by
  have allowed : ¬ (info.publicKey.type ≠ .ed25519 ∧ info.publicKey.type ≠ .secp256k1) := by tauto
  unfold verifyPeerAndExtractIdentity
  rw [extracted]
  dsimp only
  rw [id]
  dsimp only
  rw [read]
  dsimp only
  rw [if_neg allowed]

/-- Without such a key the certificate is refused. -/
theorem verifyPeer_cases (sha256 : Bytes → Hash256) (rsaBits : RsaBits) (providers : SignatureProviders)
    (certificate : Certificate) :
    (∃ error, verifyPeerAndExtractIdentity sha256 rsaBits providers certificate = some (.error error)) ∨
      ∃ (fields : KeyAndSignature) (info : PubkeyAndPeerId), extractExtensionFields certificate = .ok fields ∧
        PeerId.fromPublicKey sha256 fields.pkey = .ok info.peerId ∧
        KeyMarshaller.unmarshalPublicKey rsaBits fields.pkey = .ok info.publicKey ∧
        (info.publicKey.type = .ed25519 ∨ info.publicKey.type = .secp256k1) := by
  unfold verifyPeerAndExtractIdentity
  rcases extracted : extractExtensionFields certificate with error | fields
  · exact .inl ⟨error, rfl⟩
  obtain ⟨peerId, id⟩ := exists_fromPublicKey sha256 fields.pkey
  dsimp only
  rw [id]
  rcases read : KeyMarshaller.unmarshalPublicKey rsaBits fields.pkey with error | publicKey
  · exact .inl ⟨_, rfl⟩
  dsimp only
  split_ifs with other
  · exact .inl ⟨_, rfl⟩
  · exact .inr ⟨fields, { publicKey, peerId }, rfl, id, read, by tauto⟩

/-- What is accepted is endorsed. -/
theorem verifyPeer_eq_ok : verifyPeerAndExtractIdentity sha256 rsaBits providers certificate = some (.ok info) ↔
    ∃ fields, Endorsed sha256 rsaBits providers certificate fields info := by
  constructor
  · intro accepted
    rcases verifyPeer_cases sha256 rsaBits providers certificate with
      ⟨error, refused⟩ | ⟨fields, found, extracted, id, read, type⟩
    · rw [refused] at accepted
      cases accepted
    rw [verifyPeer_eq extracted id read type] at accepted
    obtain ⟨result, verified, same⟩ := Option.map_eq_some_iff.mp accepted
    rcases result with error | _
    · cases same
    obtain rfl : found = info := Except.ok.inj same
    exact ⟨fields, extracted, id, read, type, verifyExtensionSignature_eq_ok.mp verified⟩
  · rintro ⟨fields, extracted, id, read, type, verified⟩
    rw [verifyPeer_eq extracted id read type, verifyExtensionSignature_eq_ok.mpr verified]
    rfl

/-- The verification of a certificate reads outside its extension exactly when the extension has an Ed25519 key and a
signature that is shorter than 64 bytes. -/
theorem identity_undefined_iff : verifyPeerAndExtractIdentity sha256 rsaBits providers certificate = none ↔
    ∃ fields key, extractExtensionFields certificate = .ok fields ∧
      KeyMarshaller.unmarshalPublicKey rsaBits fields.pkey = .ok key ∧ key.type = .ed25519 ∧
        fields.signature.length < 64 := by
  have decided {fields : KeyAndSignature} {info : PubkeyAndPeerId}
      (extracted : extractExtensionFields certificate = .ok fields)
      (id : PeerId.fromPublicKey sha256 fields.pkey = .ok info.peerId)
      (read : KeyMarshaller.unmarshalPublicKey rsaBits fields.pkey = .ok info.publicKey)
      (type : info.publicKey.type = .ed25519 ∨ info.publicKey.type = .secp256k1) :
      verifyPeerAndExtractIdentity sha256 rsaBits providers certificate = none ↔
        info.publicKey.type = .ed25519 ∧ fields.signature.length < 64 := by
    obtain ⟨_, -, -, valid⟩ := KeyMarshaller.unmarshalPublicKey_eq_ok read
    rw [verifyPeer_eq extracted id read type, Option.map_eq_none_iff, verifyExtensionSignature_eq_none,
      verify_eq_none_iff valid type]
  constructor
  · intro absent
    rcases verifyPeer_cases sha256 rsaBits providers certificate with
      ⟨error, refused⟩ | ⟨fields, info, extracted, id, read, type⟩
    · rw [refused] at absent
      cases absent
    obtain ⟨ed25519, short⟩ := (decided extracted id read type).mp absent
    exact ⟨fields, info.publicKey, extracted, read, ed25519, short⟩
  · rintro ⟨fields, key, extracted, read, ed25519, short⟩
    obtain ⟨peerId, id⟩ := exists_fromPublicKey sha256 fields.pkey
    exact (@decided fields ⟨key, peerId⟩ extracted id read (.inl ed25519)).mpr ⟨ed25519, short⟩

section Samples

def sampleHost : PublicKey where
  type := .ed25519
  data := [
    0xd7, 0x5a, 0x98, 0x01, 0x82, 0xb1, 0x0a, 0xb7, 0xd5, 0x4b, 0xfe, 0xd3, 0xc9, 0x64, 0x07, 0x3a, 0x0e, 0xe1, 0x72,
    0xf3, 0xda, 0xa6, 0x23, 0x25, 0xaf, 0x02, 0x1a, 0x68, 0xf7, 0x07, 0x51, 0x1a]

/-- The serialized P-256 key whose point is the generator. -/
def sampleCertKey : Bytes := [
    0x30, 0x59, 0x30, 0x13, 0x06, 0x07, 0x2a, 0x86, 0x48, 0xce, 0x3d, 0x02, 0x01, 0x06, 0x08, 0x2a, 0x86, 0x48, 0xce,
    0x3d, 0x03, 0x01, 0x07, 0x03, 0x42, 0x00, 0x04, 0x6b, 0x17, 0xd1, 0xf2, 0xe1, 0x2c, 0x42, 0x47, 0xf8, 0xbc, 0xe6,
    0xe5, 0x63, 0xa4, 0x40, 0xf2, 0x77, 0x03, 0x7d, 0x81, 0x2d, 0xeb, 0x33, 0xa0, 0xf4, 0xa1, 0x39, 0x45, 0xd8, 0x98,
    0xc2, 0x96, 0x4f, 0xe3, 0x42, 0xe2, 0xfe, 0x1a, 0x7f, 0x9b, 0x8e, 0xe7, 0xeb, 0x4a, 0x7c, 0x0f, 0x9e, 0x16, 0x2b,
    0xce, 0x33, 0x57, 0x6b, 0x31, 0x5e, 0xce, 0xcb, 0xb6, 0x40, 0x68, 0x37, 0xbf, 0x51, 0xf5]

/-- What the host's key signs the key of the certificate with. -/
def sampleSignature : Bytes := [
    0x92, 0x28, 0xf9, 0x67, 0xfb, 0x48, 0xea, 0xc9, 0x94, 0x8d, 0xe6, 0x59, 0x89, 0x4a, 0x05, 0xff, 0x14, 0xc2, 0xc7,
    0x9a, 0xb2, 0xf8, 0xa1, 0x2a, 0x91, 0xbd, 0xd7, 0x3f, 0x28, 0x67, 0x04, 0xad, 0x8d, 0x42, 0x2c, 0x92, 0x89, 0xef,
    0x60, 0xd3, 0x97, 0xe7, 0xf5, 0xd7, 0x18, 0xfa, 0xbc, 0x35, 0x2b, 0x94, 0x68, 0x31, 0xe7, 0xe7, 0x16, 0x84, 0x8d,
    0xc5, 0xb2, 0xd3, 0x3c, 0xb5, 0x5a, 0x00]

def sampleSign (message : Bytes) : Except CryptoError Bytes :=
  if message = signPrefix ++ sampleCertKey then .ok sampleSignature else .error .wrongKeyType

/-- The schemes as far as the sample asks them. -/
def sampleProviders : SignatureProviders where
  rsa _ _ _ := .ok false
  ed25519 message signature key := .ok (message = signPrefix ++ sampleCertKey ∧ signature.toList = sampleSignature ∧
    key.toList = sampleHost.data)
  secp256k1 _ _ _ := .ok false
  ecdsa _ _ _ := .ok false

/-- The key is short, and no digest of it is taken. -/
def sampleSha256 (_ : Bytes) : Hash256 := Vector.replicate 32 0

def sampleId : PeerId := ⟨⟨HashType.identity, [0x08, 0x01, 0x12, 0x20] ++ sampleHost.data, by decide⟩⟩

def sampleCertificate : Certificate where
  extension := some (marshalExtensionData ([0x08, 0x01, 0x12, 0x20] ++ sampleHost.data) sampleSignature)
  publicKey := sampleCertKey

end Samples

section Hosts

/-- The marshalled form of a key that may stand in a certificate. -/
theorem marshal_of_validate (valid : KeyValidator.validate rsaBits key = .ok ())
    (type : key.type = .ed25519 ∨ key.type = .secp256k1) :
    ∃ pkey, KeyMarshaller.marshal key = .ok pkey ∧ pkey.length ≤ 37 ∧
      KeyMarshaller.unmarshalPublicKey rsaBits pkey = .ok key := by
  obtain ⟨edSize, secpSize⟩ := KeyValidator.size_of_validate valid
  have small : key.data.length ≤ 33 := by
    rcases type with type | type
    · rw [edSize type]; decide
    · rw [secpSize type]
  obtain ⟨number, enumerated, written, known⟩ : ∃ number < 4, KeyMarshaller.marshalKeyType key.type = .ok number ∧
      KeyMarshaller.unmarshalKeyType number = .ok key.type := by
    rcases type with type | type
    · exact ⟨1, by decide, by rw [type]; rfl, by rw [type]; rfl⟩
    · exact ⟨2, by decide, by rw [type]; rfl, by rw [type]; rfl⟩
  refine ⟨ProtobufPublicKey.serializeAsString number key.data, ?_, ?_, ?_⟩
  · simp only [KeyMarshaller.marshal, written, bind, Except.bind]
    rfl
  · rw [ProtobufPublicKey.serializeAsString_eq enumerated (by omega), List.length_append]
    simp only [List.length_cons, List.length_nil]
    omega
  · simp only [KeyMarshaller.unmarshalPublicKey, ProtobufPublicKey.parseFromArray_serializeAsString enumerated
      (show key.data.length < 2 ^ 35 by omega), known, bind, Except.bind, valid]
    rfl

/-- A certificate that a host makes proves the identity of the host. -/
theorem identity_of_makeCertificate {sign : Bytes → Except CryptoError Bytes} {certPubKey : Bytes}
    (valid : KeyValidator.validate rsaBits key = .ok ()) (type : key.type = .ed25519 ∨ key.type = .secp256k1)
    (signed : sign (signPrefix ++ certPubKey) = .ok signature) (short : signature.length < 215)
    (correct : CryptoProvider.verify providers (signPrefix ++ certPubKey) signature key = some (.ok true)) :
    ∃ certificate peerId, makeCertificate sign key certPubKey = .ok certificate ∧ PeerId.ofKey sha256 key = some peerId ∧
      verifyPeerAndExtractIdentity sha256 rsaBits providers certificate = some (.ok { publicKey := key, peerId }) := by
  obtain ⟨pkey, marshalled, small, read⟩ := marshal_of_validate valid type
  obtain ⟨peerId, id⟩ := exists_fromPublicKey sha256 pkey
  have extracted : unmarshalExtensionData (marshalExtensionData pkey signature) = some ⟨pkey, signature⟩ :=
    unmarshal_eq_some.mpr ⟨by dsimp only; omega, [], by rw [List.append_nil]⟩
  refine ⟨⟨some (marshalExtensionData pkey signature), certPubKey⟩, peerId, ?_, ?_, verifyPeer_eq_ok.mpr
    ⟨⟨pkey, signature⟩, ?_, id, read, type, correct⟩⟩
  · simp only [makeCertificate, makeExtensionSignature, marshalled, signed, bind, Except.bind]
    rfl
  · rw [PeerId.ofKey, marshalled]
    exact congrArg Except.toOption id
  · simp only [extractExtensionFields, extracted]

theorem identity_of_makeCertificate_sample : ∃ certificate peerId,
    makeCertificate sampleSign sampleHost sampleCertKey = .ok certificate ∧
      PeerId.ofKey sampleSha256 sampleHost = some peerId ∧
      verifyPeerAndExtractIdentity sampleSha256 (fun _ => none) sampleProviders certificate =
        some (.ok { publicKey := sampleHost, peerId }) :=
  identity_of_makeCertificate (by decide) (.inl rfl) (if_pos rfl) (by decide) (by decide +kernel)

end Hosts

section Connections

variable {identity : ConnPtr → Except TlsError PeerId} {certificates : ConnPtr → Certificate} {state : Connections}
  {events : List ConnEvent}

theorem onHskDone_eq_ok {proved : Except TlsError PeerId} {id : ℕ} {connection : Connection}
    (done : Network.onHskDone true proved id = .ok connection) :
    connection.id = id ∧ proved = .ok connection.remotePeer := by
  rcases proved with error | remotePeer
  · cases done
  · obtain rfl := Except.ok.inj done
    exact ⟨rfl, rfl⟩

/-- In every run, whoever is given a connection, by a call or from the channel of inbound connections, has a peer whose
key signed the key of the connection's certificate; a call has the peer that it asked for. -/
theorem connected_to_endorsed (runs : Connections.Runs identity events state)
    (presented : ∀ ptr, (verifyPeerAndExtractIdentity sha256 rsaBits providers (certificates ptr)).map
      (Except.map PubkeyAndPeerId.peerId) = some (identity ptr)) :
    (∀ call connection, (call, .ok connection) ∈ state.results → state.requests[call]? = some connection.remotePeer ∧
      ∃ fields key, Endorsed sha256 rsaBits providers (certificates connection.id) fields
        { publicKey := key, peerId := connection.remotePeer }) ∧
    ∀ connection, .ok connection ∈ state.accepted → ∃ fields key,
      Endorsed sha256 rsaBits providers (certificates connection.id) fields
        { publicKey := key, peerId := connection.remotePeer } := by
  have sound := (Connections.stands_of_runs runs).sound
  have endorsed {ptr : ConnPtr} {peer : PeerId} (proved : identity ptr = .ok peer) : ∃ fields key,
      Endorsed sha256 rsaBits providers (certificates ptr) fields { publicKey := key, peerId := peer } := by
    obtain ⟨result, verified, same⟩ := Option.map_eq_some_iff.mp (presented ptr)
    rw [proved] at same
    rcases result with error | ⟨key, peerId⟩
    · cases same
    obtain rfl : peerId = peer := Except.ok.inj same
    obtain ⟨fields, found⟩ := verifyPeer_eq_ok.mp verified
    exact ⟨fields, key, found⟩
  refine ⟨fun call connection entry => ?_, fun connection taken => ?_⟩
  · obtain ⟨-, -, asked, proved, -⟩ := sound.given call connection entry
    exact ⟨asked, endorsed proved⟩
  · have reported : .ok connection ∈ state.accepted ++ state.connSignal := List.mem_append_left _ taken
    rw [sound.reported] at reported
    obtain ⟨ptr, -, done⟩ := List.mem_map.mp reported
    obtain ⟨same, proved⟩ := onHskDone_eq_ok done
    rw [same]
    exact endorsed proved

theorem connected_to_endorsed_sample : ∃ state,
    Connections.Runs (fun _ => .ok sampleId) [.connect sampleId true, .hskDone 0 true] state ∧
      (0, .ok { id := 0, remotePeer := sampleId }) ∈ state.results ∧ ∃ fields key,
        Endorsed sampleSha256 (fun _ => none) sampleProviders sampleCertificate fields
          { publicKey := key, peerId := sampleId } := by
  have given : (Connections.follow (fun _ => .ok sampleId) [.connect sampleId true, .hskDone 0 true]).any (fun state =>
      (0, .ok { id := 0, remotePeer := sampleId }) ∈ state.results) := by decide +kernel
  have presented : (verifyPeerAndExtractIdentity sampleSha256 (fun _ => none) sampleProviders sampleCertificate).map
      (Except.map PubkeyAndPeerId.peerId) = some (.ok sampleId) := by decide +kernel
  obtain ⟨state, followed, entry⟩ := (Option.any_eq_true ..).mp given
  have runs := Connections.runs_of_follow followed
  have there := of_decide_eq_true entry
  exact ⟨state, runs, there, ((connected_to_endorsed runs fun _ => presented).1 0 _ there).2⟩

end Connections

end Libp2p.Security.TlsDetails
