import Libp2p.Crypto.Key
import Libp2p.Multi.Multihash

/-! # Peer identities and the keys they carry

A peer id is a multihash of a marshalled public key: the key itself when it is short, else its SHA-256
digest. `publicKey` reads the digest as a marshalled key. It looks neither at the hash function code nor
at how the key was encoded, so one key has many peer ids; exactly one of them is the id that
`fromPublicKey` makes.
-/

namespace Libp2p

inductive PeerIdError where
  | multihash (error : MultihashError)
  | sha256Expected
deriving DecidableEq, Repr

abbrev Hash256 := Vector UInt8 32

/-- The constructor is private in the source; ids come from the factories below. -/
structure PeerId where
  hash : Multihash
deriving DecidableEq

namespace PeerId

/-- A longer key is hashed. -/
def kMaxInlineKeyLength : ℕ := 42

def ofMultihash : Except MultihashError Multihash → Except PeerIdError PeerId
  | .ok hash => .ok ⟨hash⟩
  | .error error => .error (.multihash error)

def fromPublicKey (sha256 : Bytes → Hash256) (key : Bytes) : Except PeerIdError PeerId :=
  if key.length ≤ kMaxInlineKeyLength then ofMultihash (Multihash.create HashType.identity key)
  else ofMultihash (Multihash.create HashType.sha256 (sha256 key).toList)

def fromHash (hash : Multihash) : Except PeerIdError PeerId :=
  if hash.getType ≠ HashType.sha256 ∧ hash.toBuffer.length > kMaxInlineKeyLength then .error .sha256Expected
  else .ok ⟨hash⟩

def fromBytes (v : Bytes) : Except PeerIdError PeerId :=
  match Multihash.createFromBytes v with
  | .ok hash => fromHash hash
  | .error error => .error (.multihash error)

def toVector (peerId : PeerId) : Bytes := peerId.hash.toBuffer

def publicKey (rsaBits : RsaBits) (peerId : PeerId) : Option PublicKey :=
  (KeyMarshaller.unmarshalPublicKey rsaBits peerId.hash.getHash).toOption

/-- The id of a key: `fromPublicKey` of its marshalled form. -/
def ofKey (sha256 : Bytes → Hash256) (key : PublicKey) : Option PeerId := do
  let protoKey ← (KeyMarshaller.marshal key).toOption
  (fromPublicKey sha256 protoKey).toOption

/-- The digest spells a key the way `marshal` does: each field once, in order, with the shortest
integers, and nothing else. -/
def CanonicalDigest (hash : Bytes) : Prop :=
  ∃ type data, type < 4 ∧ data.length < 128 ∧
    hash = [0x08, UInt8.ofNat type, 0x12, UInt8.ofNat data.length] ++ data

/-- The id is of the form that `fromPublicKey` gives to short keys. -/
structure Canonical (peerId : PeerId) : Prop where
  inline : peerId.hash.type = HashType.identity
  digest : CanonicalDigest peerId.hash.hash

section

variable {sha256 : Bytes → Hash256} {rsaBits : RsaBits} {peerId : PeerId} {key : PublicKey}

theorem toVector_length_le (peerId : PeerId) : peerId.toVector.length ≤ 138 := by
  have code := (@VarintPrefixReader.encodeVarintLoop_spec 10 peerId.hash.type.toNat
    (peerId.hash.type.toNat_lt.trans (by decide)) (by decide) []).2.2
  have bounded := peerId.hash.bounded
  simp only [PeerId.toVector, Multihash.toBuffer, Multihash.header, encodeVarint, List.length_append,
    List.length_singleton]
  rw [kMaxHashLength] at bounded
  omega

theorem fromBytes_eq_ok {v : Bytes} (accepted : fromBytes v = .ok peerId) :
    peerId.hash.hash ≠ [] ∧
      (peerId.hash.type = HashType.sha256 ∨ peerId.hash.toBuffer.length ≤ kMaxInlineKeyLength) := by
  unfold fromBytes at accepted
  split at accepted
  · next hash created =>
    unfold fromHash at accepted
    split_ifs at accepted with wrong
    cases accepted
    refine ⟨Multihash.hash_ne_nil_of_createFromBytes created, ?_⟩
    by_contra outside
    obtain ⟨notSha, long⟩ := not_or.mp outside
    exact wrong ⟨notSha, not_le.mp long⟩
  · cases accepted

/-- What a peer id's key is, in terms of the digest. -/
theorem publicKey_eq_some (present : peerId.publicKey rsaBits = some key) :
    ∃ number, ProtobufPublicKey.parseFromArray peerId.hash.hash = some (number, key.data) ∧ number < 4 ∧
      key.data.length + 4 ≤ peerId.hash.hash.length ∧
      KeyMarshaller.marshal key = .ok (ProtobufPublicKey.serializeAsString number key.data) ∧
      KeyValidator.validate rsaBits key = .ok () := by
  rw [publicKey, Multihash.getHash_eq] at present
  cases unmarshalled : KeyMarshaller.unmarshalPublicKey rsaBits peerId.hash.hash with
  | error error => rw [unmarshalled] at present; cases present
  | ok key' =>
    rw [unmarshalled] at present
    cases present
    obtain ⟨number, parsed, known, valid⟩ := KeyMarshaller.unmarshalPublicKey_eq_ok unmarshalled
    obtain ⟨enumerated, size⟩ := ProtobufPublicKey.parseFromArray_bounds parsed
    refine ⟨number, parsed, enumerated, size, ?_, valid⟩
    simp only [KeyMarshaller.marshal, KeyMarshaller.marshalKeyType_unmarshalKeyType known]
    rfl

/-- The id of the key that a peer id carries, spelled out. -/
private theorem ofKey_eq_some_iff (sha256 : Bytes → Hash256) (present : peerId.publicKey rsaBits = some key) :
    ∃ number, number < 4 ∧ key.data.length + 4 ≤ peerId.hash.hash.length ∧
      ProtobufPublicKey.parseFromArray peerId.hash.hash = some (number, key.data) ∧
      (ofKey sha256 key = some peerId ↔ peerId.hash.type = HashType.identity ∧
        peerId.hash.hash = [0x08, UInt8.ofNat number, 0x12, UInt8.ofNat key.data.length] ++ key.data ∧
        peerId.hash.hash.length ≤ kMaxInlineKeyLength) := by
  obtain ⟨number, parsed, enumerated, size, marshalled, -⟩ := publicKey_eq_some present
  have short : key.data.length < 128 := by
    have := peerId.hash.bounded
    simp only [kMaxHashLength] at this
    omega
  rw [ProtobufPublicKey.serializeAsString_eq enumerated short] at marshalled
  set protoKey := [0x08, UInt8.ofNat number, 0x12, UInt8.ofNat key.data.length] ++ key.data with spelled
  have length : protoKey.length = key.data.length + 4 := by simp [spelled]
  refine ⟨number, enumerated, size, parsed, ?_⟩
  have ofKey_eq : ofKey sha256 key = (fromPublicKey sha256 protoKey).toOption := by
    rw [ofKey, marshalled]
    rfl
  rw [ofKey_eq, fromPublicKey]
  obtain ⟨⟨type, hash, bounded⟩⟩ := peerId
  split_ifs with inline
  · have fits : ¬ protoKey.length > kMaxHashLength := by
      simp only [kMaxInlineKeyLength] at inline
      simp only [kMaxHashLength]
      omega
    simp only [Multihash.create, dif_neg fits, ofMultihash, Except.toOption, Option.some.injEq, mk.injEq,
      Multihash.mk.injEq]
    constructor
    · rintro ⟨rfl, rfl⟩
      exact ⟨rfl, rfl, inline⟩
    · rintro ⟨rfl, same, -⟩
      exact ⟨rfl, same.symm⟩
  · -- A hashed id is shorter than the key it would have to spell.
    have digest : ¬ (sha256 protoKey).toList.length > kMaxHashLength := by simp [kMaxHashLength]
    simp only [Multihash.create, dif_neg digest, ofMultihash, Except.toOption, Option.some.injEq, mk.injEq,
      Multihash.mk.injEq]
    constructor
    · rintro ⟨-, rfl⟩
      simp only [Vector.length_toList] at size
      simp only [kMaxInlineKeyLength] at inline
      omega
    · rintro ⟨-, same, short'⟩
      rw [same] at short'
      exact absurd short' inline

/-- An accepted peer id is the id of the key it carries exactly when it has the inline form that
`fromPublicKey` makes, and ids of that form with the same key are equal. -/
theorem ofKey_publicKey_iff_canonical {v : Bytes} (accepted : fromBytes v = .ok peerId)
    (present : peerId.publicKey rsaBits = some key) :
    (ofKey sha256 key = some peerId ↔ peerId.Canonical) ∧
      (peerId.Canonical → ∀ w other, fromBytes w = .ok other → other.publicKey rsaBits = some key →
        other.Canonical → other = peerId) := by
  have bound : ∀ {w other}, fromBytes w = .ok other → other.publicKey rsaBits = some key →
      (ofKey sha256 key = some other ↔ other.Canonical) := by
    intro w other accepted present
    obtain ⟨number, enumerated, size, parsed, spelled⟩ := ofKey_eq_some_iff sha256 present
    rw [spelled]
    constructor
    · rintro ⟨inline, digest, -⟩
      have := other.hash.bounded
      simp only [kMaxHashLength] at this
      exact ⟨inline, number, key.data, enumerated, by omega, digest⟩
    · rintro ⟨inline, type, data, known, short, digest⟩
      rw [digest, ← ProtobufPublicKey.serializeAsString_eq known short,
        ProtobufPublicKey.parseFromArray_serializeAsString known (by omega)] at parsed
      obtain ⟨rfl, same⟩ := Prod.mk.inj (Option.some.inj parsed)
      have buffer := (fromBytes_eq_ok accepted).2.resolve_left (by rw [inline]; decide)
      rw [Multihash.toBuffer, List.length_append] at buffer
      exact ⟨inline, same ▸ digest, by omega⟩
  refine ⟨bound accepted present, fun canonical w other accepted' present' canonical' => ?_⟩
  have mine := (bound accepted present).mpr canonical
  rw [(bound accepted' present').mpr canonical'] at mine
  exact Option.some.inj mine

end

/-- The digest of an inline Ed25519 id whose key bytes are all seven. -/
def inlineKey : Bytes := [0x08, 0x01, 0x12, 0x20] ++ List.replicate 32 0x07

theorem ofKey_publicKey_inline :
    fromBytes ([0x00, 0x24] ++ inlineKey) = .ok ⟨⟨HashType.identity, inlineKey, by decide⟩⟩ ∧
      publicKey (fun _ => none) ⟨⟨HashType.identity, inlineKey, by decide⟩⟩ =
        some ⟨.ed25519, List.replicate 32 0x07⟩ ∧
      (ofKey (fun _ => Vector.replicate 32 0) ⟨.ed25519, List.replicate 32 0x07⟩ =
        some ⟨⟨HashType.identity, inlineKey, by decide⟩⟩ ↔
          Canonical ⟨⟨HashType.identity, inlineKey, by decide⟩⟩) :=
  have accepted : fromBytes ([0x00, 0x24] ++ inlineKey) = .ok ⟨⟨HashType.identity, inlineKey, by decide⟩⟩ := by
    decide
  have present : publicKey (fun _ => none) ⟨⟨HashType.identity, inlineKey, by decide⟩⟩ =
      some ⟨.ed25519, List.replicate 32 0x07⟩ := by decide
  ⟨accepted, present, (ofKey_publicKey_iff_canonical accepted present).1⟩

/-- The same key under the code of SHA-256: another id, which is not the id of its key. -/
theorem sha256_code_aliases_inline_key :
    fromBytes ([0x12, 0x24] ++ inlineKey) = .ok ⟨⟨HashType.sha256, inlineKey, by decide⟩⟩ ∧
      publicKey (fun _ => none) ⟨⟨HashType.sha256, inlineKey, by decide⟩⟩ =
        publicKey (fun _ => none) ⟨⟨HashType.identity, inlineKey, by decide⟩⟩ ∧
      publicKey (fun _ => none) ⟨⟨HashType.sha256, inlineKey, by decide⟩⟩ =
        some ⟨.ed25519, List.replicate 32 0x07⟩ ∧
      ofKey (fun _ => Vector.replicate 32 0) ⟨.ed25519, List.replicate 32 0x07⟩ ≠
        some ⟨⟨HashType.sha256, inlineKey, by decide⟩⟩ := by
  decide

end PeerId

end Libp2p
