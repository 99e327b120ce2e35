import Libp2p.Basic.Varint
import Libp2p.Library.WireFormat

/-! # Keys and their protocol buffer form

A key is marshalled as a two-field message, the type and the data. Unmarshalling accepts every wire
form of that message and then validates the key by its type: Ed25519 and Secp256k1 keys by their size,
RSA keys through OpenSSL, ECDSA keys not at all.
-/

namespace Libp2p

open Library WireFormat

inductive CryptoError where
  | invalidKeyType
  | unknownKeyType
  | failedUnmarshalData
  | wrongKeyType
  | wrongPublicKeySize
  | invalidPublicKey
  | signatureVerificationFailed
deriving DecidableEq, Repr

inductive KeyType where
  | unspecified
  | rsa
  | ed25519
  | secp256k1
  | ecdsa
deriving DecidableEq, Repr

structure Key where
  type : KeyType := .unspecified
  data : Bytes := []
deriving DecidableEq, Repr

abbrev PublicKey := Key

/-- `d2i_RSA_PUBKEY` followed by `RSA_bits`: the size of the modulus, if the bytes are an RSA key. -/
abbrev RsaBits := Bytes → Option ℕ

namespace KeyValidator

def kMinimumRSABitsCount : ℕ := 2048

def ed25519PublicKeySize : ℕ := 32

def secp256k1PublicKeySize : ℕ := 33

def secp256k1PublicKeyEvenPrefix : UInt8 := 0x02

def secp256k1PublicKeyOddPrefix : UInt8 := 0x03

def validateRsa (rsaBits : RsaBits) (key : PublicKey) : Except CryptoError Unit :=
  match rsaBits key.data with
  | none => .error .invalidPublicKey
  | some bits => if bits < kMinimumRSABitsCount then .error .invalidPublicKey else .ok ()

def validateEd25519 (key : PublicKey) : Except CryptoError Unit :=
  if key.data.length ≠ ed25519PublicKeySize then .error .wrongPublicKeySize else .ok ()

def validateSecp256k1 (key : PublicKey) : Except CryptoError Unit :=
  if key.data.length ≠ secp256k1PublicKeySize then .error .wrongPublicKeySize
  else
    let first := key.data.getD 0 0
    if first ≠ secp256k1PublicKeyEvenPrefix ∧ first ≠ secp256k1PublicKeyOddPrefix then .error .invalidPublicKey
    else .ok ()

def validateEcdsa (_ : PublicKey) : Except CryptoError Unit := .ok ()

/-- Every check a public key of a given type gets. -/
def validate (rsaBits : RsaBits) (key : PublicKey) : Except CryptoError Unit :=
  match key.type with
  | .unspecified => .ok ()
  | .rsa => validateRsa rsaBits key
  | .ed25519 => validateEd25519 key
  | .secp256k1 => validateSecp256k1 key
  | .ecdsa => validateEcdsa key

/-- The sizes that validation guarantees. -/
theorem size_of_validate {rsaBits : RsaBits} {key : PublicKey} (valid : validate rsaBits key = .ok ()) :
    (key.type = .ed25519 → key.data.length = 32) ∧ (key.type = .secp256k1 → key.data.length = 33) := by
  refine ⟨fun type => ?_, fun type => ?_⟩
  · rw [validate, type] at valid
    simp only [validateEd25519] at valid
    split_ifs at valid with size
    exact not_not.mp size
  · rw [validate, type] at valid
    simp only [validateSecp256k1] at valid
    split_ifs at valid with size
    · exact not_not.mp size

end KeyValidator

/-- The `PublicKey` message of the key protocol buffers while it is being read. -/
structure ProtobufPublicKey where
  type : Option ℕ := none
  data : Option Bytes := none
deriving DecidableEq

namespace ProtobufPublicKey

/-- The default limit on nested groups. -/
def recursionLimit : ℕ := 100

/-- A later value replaces an earlier one; a type outside the enumeration is an unknown field. -/
def merge (message : ProtobufPublicKey) (field : Field) : ProtobufPublicKey :=
  match field.number, field.value with
  | 1, .varint value => if value % 2 ^ 32 < 4 then { message with type := some (value % 2 ^ 32) } else message
  | 2, .bytes data => { message with data := some data }
  | _, _ => message

/-- `ParseFromArray`: both fields are required. -/
def parseFromArray (input : Bytes) : Option (ℕ × Bytes) := do
  let fields ← parseFields recursionLimit input
  let message := fields.foldl merge {}
  let type ← message.type
  let data ← message.data
  pure (type, data)

/-- `SerializeAsString` of a message with both fields set. -/
def serializeAsString (type : ℕ) (data : Bytes) : Bytes :=
  encodeFields [⟨1, .varint type⟩, ⟨2, .bytes data⟩]

/-- The least number of bytes that carry what has been read so far. -/
private def weight (message : ProtobufPublicKey) : ℕ :=
  (if message.type.isSome then 2 else 0) + (message.data.map fun data => data.length + 2).getD 0

private theorem weight_merge_le (message : ProtobufPublicKey) (field : Field) :
    (message.merge field).weight ≤ message.weight + (field.value.weight + 1) := by
  unfold merge
  split
  · next value _ content =>
    simp only [content, Value.weight]
    split_ifs
    · simp only [weight, Option.isSome_some, ↓reduceIte]
      split_ifs <;> omega
    · omega
  · next data _ content =>
    simp only [content, Value.weight, weight, Option.map_some, Option.getD_some]
    omega
  · omega

private theorem weight_foldl_le (fields : List Field) (message : ProtobufPublicKey) :
    (fields.foldl merge message).weight ≤
      message.weight + (fields.map fun field => field.value.weight + 1).sum := by
  induction fields generalizing message with
  | nil => simp
  | cons field fields ih =>
    have first := weight_merge_le message field
    have later := ih (message.merge field)
    simp only [List.foldl_cons, List.map_cons, List.sum_cons]
    omega

private theorem type_merge {message : ProtobufPublicKey} {field : Field}
    (known : ∀ type ∈ message.type, type < 4) : ∀ type ∈ (message.merge field).type, type < 4 := by
  unfold merge
  split
  · split_ifs with valid
    · simpa using valid
    · exact known
  · exact known
  · exact known

private theorem type_foldl (fields : List Field) {message : ProtobufPublicKey}
    (known : ∀ type ∈ message.type, type < 4) : ∀ type ∈ (fields.foldl merge message).type, type < 4 := by
  induction fields generalizing message with
  | nil => exact known
  | cons field fields ih => exact ih (type_merge known)

/-- What is parsed is an enumerated type and no longer than its wire form. -/
theorem parseFromArray_bounds {input data : Bytes} {type : ℕ} (parsed : parseFromArray input = some (type, data)) :
    type < 4 ∧ data.length + 4 ≤ input.length := by
  simp only [parseFromArray, Option.bind_eq_bind, Option.bind_eq_some_iff, Option.pure_def, Option.some.injEq,
    Prod.mk.injEq] at parsed
  obtain ⟨fields, read, number, hasType, bytes, hasData, rfl, rfl⟩ := parsed
  have initial : ∀ type ∈ ({} : ProtobufPublicKey).type, type < 4 := by simp
  refine ⟨type_foldl fields initial number hasType, ?_⟩
  have total := weight_foldl_le fields {}
  have size := parseFields_weight read
  simp only [weight, hasType, hasData, Option.isSome_some, ↓reduceIte, Option.map_some, Option.getD_some,
    Option.isSome_none, Bool.false_eq_true, Option.map_none, Option.getD_none] at total
  omega

/-- Parsing undoes serializing. -/
theorem parseFromArray_serializeAsString {type : ℕ} {data : Bytes} (enumerated : type < 4)
    (short : data.length < 2 ^ 35) : parseFromArray (serializeAsString type data) = some (type, data) := by
  have flat : ∀ field ∈ ([⟨1, .varint type⟩, ⟨2, .bytes data⟩] : List Field), field.Flat := by
    intro field member
    simp only [List.mem_cons, List.not_mem_nil, or_false] at member
    rcases member with rfl | rfl
    · exact ⟨Nat.one_pos, by dsimp only; omega, .inl ⟨type, rfl, by omega⟩⟩
    · exact ⟨Nat.two_pos, by dsimp only; omega, .inr ⟨data, rfl, short⟩⟩
  have first : ({} : ProtobufPublicKey).merge ⟨1, .varint type⟩ = { type := some type } := by
    have low : type % 2 ^ 32 = type := Nat.mod_eq_of_lt (by omega)
    simp only [merge, low, if_pos enumerated]
  rw [parseFromArray, serializeAsString, parseFields_encodeFields flat]
  simp only [Option.bind_eq_bind, Option.bind_some, List.foldl_cons, List.foldl_nil, first]
  rfl

/-- The serialized form of a key with fewer than 128 bytes of data. -/
theorem serializeAsString_eq {type : ℕ} {data : Bytes} (enumerated : type < 4) (short : data.length < 128) :
    serializeAsString type data =
      [0x08, UInt8.ofNat type, 0x12, UInt8.ofNat data.length] ++ data := by
  have small : type < 128 := by omega
  simp [serializeAsString, encodeFields, Field.encode, putTag, putVarint, Value.wireType, small, short]

end ProtobufPublicKey

namespace KeyMarshaller

def marshalKeyType : KeyType → Except CryptoError ℕ
  | .rsa => .ok 0
  | .ed25519 => .ok 1
  | .secp256k1 => .ok 2
  | .ecdsa => .ok 3
  | .unspecified => .error .invalidKeyType

def unmarshalKeyType : ℕ → Except CryptoError KeyType
  | 0 => .ok .rsa
  | 1 => .ok .ed25519
  | 2 => .ok .secp256k1
  | 3 => .ok .ecdsa
  | _ => .error .unknownKeyType

def marshal (key : PublicKey) : Except CryptoError Bytes := do
  let type ← marshalKeyType key.type
  pure (ProtobufPublicKey.serializeAsString type key.data)

def unmarshalPublicKey (rsaBits : RsaBits) (protoKey : Bytes) : Except CryptoError PublicKey := do
  match ProtobufPublicKey.parseFromArray protoKey with
  | none => throw .failedUnmarshalData
  | some (type, data) =>
    let type ← unmarshalKeyType type
    let key : PublicKey := { type, data }
    KeyValidator.validate rsaBits key
    pure key

theorem marshalKeyType_unmarshalKeyType {number : ℕ} {type : KeyType} (known : unmarshalKeyType number = .ok type) :
    marshalKeyType type = .ok number := by
  unfold unmarshalKeyType at known
  split at known <;> cases known <;> rfl

/-- A key that was unmarshalled is the one on the wire, and it is valid. -/
theorem unmarshalPublicKey_eq_ok {rsaBits : RsaBits} {protoKey : Bytes} {key : PublicKey}
    (unmarshalled : unmarshalPublicKey rsaBits protoKey = .ok key) :
    ∃ number, ProtobufPublicKey.parseFromArray protoKey = some (number, key.data) ∧
      unmarshalKeyType number = .ok key.type ∧ KeyValidator.validate rsaBits key = .ok () := by
  unfold unmarshalPublicKey at unmarshalled
  split at unmarshalled
  · cases unmarshalled
  · next number data parsed =>
    cases known : unmarshalKeyType number with
    | error error => rw [known] at unmarshalled; cases unmarshalled
    | ok type =>
      rw [known] at unmarshalled
      simp only [bind, Except.bind] at unmarshalled
      split at unmarshalled
      · cases unmarshalled
      · next valid =>
        cases unmarshalled
        exact ⟨number, parsed, known, valid⟩

end KeyMarshaller

end Libp2p
