import Libp2p.Basic.PrefixReader

/-! # Multihashes

A multihash is a 64-bit function code and a digest of at most 127 bytes. Its buffer is the code as a
varint, the digest's length in one byte and the digest. Reading a buffer back accepts every varint the
prefix reader accepts, so the buffer of the result may be shorter than what was read.
-/

namespace Libp2p

abbrev HashType := UInt64

namespace HashType

abbrev identity : HashType := 0x0

abbrev sha256 : HashType := 0x12

end HashType

inductive MultihashError where
  | zeroInputLength
  | inputTooLong
  | inputTooShort
  | inconsistentLength
deriving DecidableEq, Repr

def kMaxHashLength : ℕ := 127

/-- The constructor is private in the source; `create` and `createFromBytes` keep the digest short. -/
structure Multihash where
  type : HashType
  hash : Bytes
  bounded : hash.length ≤ kMaxHashLength
deriving DecidableEq

namespace Multihash

/-- The code and the length byte, which precede the digest. -/
def header (multihash : Multihash) : Bytes :=
  encodeVarint multihash.type.toNat ++ [UInt8.ofNat multihash.hash.length]

def toBuffer (multihash : Multihash) : Bytes := multihash.header ++ multihash.hash

def hashOffset (multihash : Multihash) : ℕ := multihash.header.length

def getType (multihash : Multihash) : HashType := multihash.type

def getHash (multihash : Multihash) : Bytes := multihash.toBuffer.drop multihash.hashOffset

def create (type : HashType) (hash : Bytes) : Except MultihashError Multihash :=
  if long : hash.length > kMaxHashLength then .error .inputTooLong
  else .ok ⟨type, hash, not_lt.mp long⟩

def createFromBytes (b : Bytes) : Except MultihashError Multihash :=
  let (reader, state, b) := ({} : VarintPrefixReader).consumeBuffer b
  if state ≠ .ready then .error .inputTooShort
  else
    let type : HashType := UInt64.ofNat reader.value
    match b with
    | [] => .error .inputTooShort
    | length :: hash =>
      if length = 0 then .error .zeroInputLength
      else if hash.length ≠ length.toNat then .error .inconsistentLength
      else create type hash

@[simp] theorem getHash_eq (multihash : Multihash) : multihash.getHash = multihash.hash :=
  List.drop_left

theorem create_eq_ok {type : HashType} {hash : Bytes} {multihash : Multihash}
    (created : create type hash = .ok multihash) : multihash.type = type ∧ multihash.hash = hash := by
  unfold create at created
  split at created
  · cases created
  · cases created
    exact ⟨rfl, rfl⟩

/-- A digest that was read from a buffer is not empty. -/
theorem hash_ne_nil_of_createFromBytes {b : Bytes} {multihash : Multihash}
    (created : createFromBytes b = .ok multihash) : multihash.hash ≠ [] := by
  unfold createFromBytes at created
  simp only at created
  split_ifs at created
  split at created
  · cases created
  · next length hash _ =>
    split_ifs at created with zero same
    rw [(create_eq_ok created).2]
    rintro rfl
    exact zero (UInt8.toNat_inj.mp (by simpa using (not_not.mp same).symm))

theorem create_self (multihash : Multihash) : create multihash.type multihash.hash = .ok multihash :=
  dif_neg (not_lt.mpr multihash.bounded)

/-- The buffer of a multihash is read back unless its digest is empty. -/
theorem createFromBytes_toBuffer {multihash : Multihash} (nonempty : multihash.hash ≠ []) :
    createFromBytes multihash.toBuffer = .ok multihash := by
  have bounded := multihash.bounded
  have positive : 0 < multihash.hash.length := List.length_pos_iff.mpr nonempty
  have size : (UInt8.ofNat multihash.hash.length).toNat = multihash.hash.length := by
    rw [UInt8.toNat_ofNat']
    unfold kMaxHashLength at bounded
    omega
  have nonzero : UInt8.ofNat multihash.hash.length ≠ 0 := by
    intro zero
    rw [zero] at size
    exact absurd size (Nat.ne_of_lt positive)
  obtain ⟨reader, consumed, value⟩ := VarintPrefixReader.consumeBuffer_encodeVarint multihash.type.toNat_lt
    (UInt8.ofNat multihash.hash.length :: multihash.hash)
  unfold createFromBytes toBuffer header
  rw [List.append_assoc, List.singleton_append, consumed]
  dsimp only
  rw [if_neg (not_not.mpr rfl), if_neg nonzero, if_neg (not_not.mpr size.symm), value, UInt64.ofNat_toNat, create_self]

end Multihash

end Libp2p
