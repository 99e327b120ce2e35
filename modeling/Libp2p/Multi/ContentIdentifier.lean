import Libp2p.Multi.MultibaseCodec
import Libp2p.Multi.Multihash
import Libp2p.Multi.VarintCodecs
import Mathlib.Data.List.GetD

/-! # Content identifiers

An identifier of the first version is the multihash alone, and its text is in base 58 without a prefix. Such a text is
recognised by its length and its first two characters. Everything else is a multibase text.
-/

namespace Libp2p.Multi

namespace MulticodecType

/-- The values of the enumeration are those of `int`. -/
abbrev Code := Int32

abbrev Code.raw : Code := 0x55

abbrev Code.dagPb : Code := 0x70

/-- `static_cast<uint64_t>`. -/
def Code.toUInt64 (code : Code) : UInt64 := code.toInt64.toUInt64

/-- The conversion back, which keeps the lowest 32 bits. -/
def Code.ofUInt64 (number : UInt64) : Code := number.toInt64.toInt32

theorem Code.ofUInt64_toUInt64 (code : Code) : Code.ofUInt64 code.toUInt64 = code := by
  unfold ofUInt64 toUInt64
  rw [Int64.toInt64_toUInt64, Int32.toInt32_toInt64]

end MulticodecType

inductive ContentIdentifier.Version where
  | v0
  | v1
deriving DecidableEq, Repr

def ContentIdentifier.Version.number : Version → ℕ
  | .v0 => 0
  | .v1 => 1

structure ContentIdentifier where
  version : ContentIdentifier.Version
  contentType : MulticodecType.Code
  contentAddress : Multihash
deriving DecidableEq

namespace ContentIdentifierCodec

inductive EncodeError where
  | invalidContentType
  | invalidHashType
  | invalidHashLength
  | versionUnsupported
  | invalidBaseEncoding
deriving DecidableEq, Repr

inductive DecodeError where
  | emptyVersion
  | emptyMulticodec
  | malformedVersion
  | reservedVersion
  | cidTooShort
deriving DecidableEq, Repr

/-- The errors of the codec and of what it calls. -/
inductive CidError where
  | encode (error : EncodeError)
  | decode (error : DecodeError)
  | multihash (error : MultihashError)
  | multibase (error : MultibaseError)
deriving DecidableEq, Repr

def encode (cid : ContentIdentifier) : Except CidError Bytes :=
  match cid.version with
  | .v1 => .ok (encodeVarint cid.version.number ++ encodeVarint cid.contentType.toUInt64.toNat ++
      cid.contentAddress.toBuffer)
  | .v0 =>
    if cid.contentType ≠ .dagPb then .error (.encode .invalidContentType)
    else if cid.contentAddress.getType ≠ HashType.sha256 then .error (.encode .invalidHashType)
    else if cid.contentAddress.getHash.length ≠ 32 then .error (.encode .invalidHashLength)
    else .ok cid.contentAddress.toBuffer

def decode (bytes : Bytes) : Except CidError ContentIdentifier :=
  if bytes.length = 34 ∧ bytes.getD 0 0 = 0x12 ∧ bytes.getD 1 0 = 0x20 then
    match Multihash.createFromBytes bytes with
    | .error error => .error (.multihash error)
    | .ok hash => .ok ⟨.v0, .dagPb, hash⟩
  else
    match UVarint.create bytes with
    | none => .error (.decode .emptyVersion)
    | some var =>
      let version := UVarint.toUInt64 var
      if version = 1 then
        let versionLength := UVarint.calculateSize bytes
        match UVarint.create (bytes.drop versionLength) with
        | none => .error (.decode .emptyMulticodec)
        | some multicodec =>
          let multicodecLength := UVarint.calculateSize (bytes.drop versionLength)
          match Multihash.createFromBytes (bytes.drop (versionLength + multicodecLength)) with
          | .error error => .error (.multihash error)
          | .ok hash => .ok ⟨.v1, .ofUInt64 (UInt64.ofNat (UVarint.toUInt64 multicodec)), hash⟩
      else if version ≤ 0 then .error (.decode .malformedVersion)
      else .error (.decode .reservedVersion)

variable (hex : HexTexts)

def toString (cid : ContentIdentifier) : Except CidError Bytes :=
  match encode cid with
  | .error error => .error error
  | .ok cidBytes =>
    match cid.version with
    | .v0 => .ok (Base58.encodeBase58 cidBytes)
    | .v1 => .ok (MultibaseCodec.encode hex cidBytes .base32Lower)

/-- A text of the length and with the beginning of one of the first version. -/
def isV0 (str : Bytes) : Prop := str.length = 46 ∧ str.take 2 = ascii "Qm"

instance (str : Bytes) : Decidable (isV0 str) := inferInstanceAs (Decidable (_ ∧ _))

def fromString (str : Bytes) : Except CidError ContentIdentifier :=
  if str.length < 2 then .error (.decode .cidTooShort)
  else if isV0 str then
    match Base58.decodeBase58 str with
    | none => .error (.multibase (.base .invalidBase58Input))
    | some hash => decode hash
  else
    match MultibaseCodec.decode hex str with
    | .error error => .error (.multibase error)
    | .ok bytes => decode bytes

section RoundTrip

variable {hex : HexTexts} {cid : ContentIdentifier} {bytes : Bytes}

theorem encodeVarint_one : encodeVarint 1 = [1] := by decide

theorem toBuffer_sha256 {hash : Bytes} (bounded : hash.length ≤ kMaxHashLength) (size : hash.length = 32) :
    Multihash.toBuffer ⟨HashType.sha256, hash, bounded⟩ = 0x12 :: 0x20 :: hash := by
  unfold Multihash.toBuffer Multihash.header
  dsimp only
  rw [size, show encodeVarint HashType.sha256.toNat = [0x12] by decide]
  rfl

/-- What can be encoded: an identifier of the first version is that of a SHA-256 digest. -/
theorem encode_eq_ok : encode cid = .ok bytes ↔
    (cid.version = .v1 ∧
      bytes = [1] ++ encodeVarint cid.contentType.toUInt64.toNat ++ cid.contentAddress.toBuffer) ∨
    (cid.version = .v0 ∧ cid.contentType = .dagPb ∧ cid.contentAddress.type = HashType.sha256 ∧
      cid.contentAddress.hash.length = 32 ∧ bytes = 0x12 :: 0x20 :: cid.contentAddress.hash) := by
  obtain ⟨version, contentType, type, hash, bounded⟩ := cid
  unfold encode
  cases version with
  | v1 =>
    dsimp only [ContentIdentifier.Version.number]
    rw [encodeVarint_one]
    constructor
    · intro encoded
      exact .inl ⟨rfl, (Except.ok.inj encoded).symm⟩
    · rintro (⟨-, rfl⟩ | ⟨other, -⟩)
      · rfl
      · cases other
  | v0 =>
    rw [Multihash.getHash_eq, Multihash.getType]
    constructor
    · intro encoded
      split_ifs at encoded with wrongType wrongHash wrongSize
      rw [not_not] at wrongType wrongHash wrongSize
      dsimp only at wrongHash wrongSize
      subst wrongHash
      rw [toBuffer_sha256 bounded wrongSize] at encoded
      exact .inr ⟨rfl, wrongType, rfl, wrongSize, (Except.ok.inj encoded).symm⟩
    · rintro (⟨other, -⟩ | ⟨-, rfl, same, size, rfl⟩)
      · cases other
      · dsimp only at same size
        subst same
        rw [if_neg (not_not.mpr rfl), if_neg (not_not.mpr rfl), if_neg (not_not.mpr size), toBuffer_sha256 bounded size]

/-- The bytes of an identifier are read back. -/
theorem decode_encode (nonempty : cid.contentAddress.hash ≠ []) (encoded : encode cid = .ok bytes) :
    decode bytes = .ok cid := by
  obtain ⟨version, contentType, contentAddress⟩ := cid
  have address := Multihash.createFromBytes_toBuffer nonempty
  rcases encode_eq_ok.mp encoded with ⟨first, rfl⟩ | ⟨first, type, hash, size, rfl⟩
  · dsimp only at first address nonempty ⊢
    subst first
    obtain ⟨version, versionLength, one⟩ := UVarint.create_encodeVarint (show 1 < 2 ^ 64 by decide)
      (encodeVarint contentType.toUInt64.toNat ++ contentAddress.toBuffer)
    obtain ⟨multicodec, multicodecLength, number⟩ :=
      UVarint.create_encodeVarint contentType.toUInt64.toNat_lt contentAddress.toBuffer
    rw [encodeVarint_one] at version versionLength one
    have codec : MulticodecType.Code.ofUInt64 (UInt64.ofNat contentType.toUInt64.toNat) = contentType := by
      rw [UInt64.ofNat_toNat, MulticodecType.Code.ofUInt64_toUInt64]
    unfold decode
    rw [if_neg (by rintro ⟨-, other, -⟩; cases other), List.append_assoc, version]
    dsimp only
    rw [one, if_pos rfl, versionLength, List.drop_left, multicodec, multicodecLength, ← List.append_assoc,
      ← List.length_append, List.drop_left, address]
    dsimp only
    rw [number, codec]
  · dsimp only at first type hash size address nonempty ⊢
    subst first type
    obtain ⟨type, digest, bounded⟩ := contentAddress
    dsimp only at hash size
    subst hash
    rw [toBuffer_sha256 bounded size] at address
    unfold decode
    rw [if_pos ⟨by simp [size], rfl, rfl⟩, address]

/-- The text of an identifier of the first version. -/
theorem encodeBase58_v0 {hash : Bytes} (size : hash.length = 32) : isV0 (Base58.encodeBase58 (0x12 :: 0x20 :: hash)) := by
  obtain ⟨above, below⟩ := @Base58.value_bounds 0x12 [0x20] hash (by decide)
  have front : Base58.number 256 (([0x12, 0x20] : Bytes).map UInt8.toNat) = 0x1220 := rfl
  rw [front, size] at above below
  -- The first two digits are 23 and 44, and 44 more follow.
  obtain ⟨lower, digits, length⟩ := @Base58.digits_of_bounds 58 1378 44 _ (by decide) (by decide)
    (le_trans (by decide +kernel) above) (below.trans_le (by decide +kernel))
  have two : Nat.digits 58 1378 = [44, 23] := by norm_num
  have text : Base58.encodeBase58 (0x12 :: 0x20 :: hash) =
      0x51 :: 0x6d :: lower.reverse.map fun digit => Base58.pszBase58.getD digit 0 := by
    have whole : (0x12 :: 0x20 :: hash : Bytes) = [0x12, 0x20] ++ hash := rfl
    rw [Base58.encodeBase58_eq, List.takeWhile_cons_of_neg (by decide), List.length_nil, List.replicate_zero,
      List.nil_append, whole, digits, two, List.reverse_append, Base58.pszBase58_eq]
    rfl
  rw [text]
  exact ⟨by simp [length], rfl⟩

/-- A multibase text is not taken for one of the first version. -/
theorem not_isV0_base32 (bytes : Bytes) : ¬ isV0 (MultibaseCodec.encode hex bytes .base32Lower) := by
  rintro ⟨-, start⟩
  unfold MultibaseCodec.encode at start
  split_ifs at start
  · cases start
  · cases (List.cons.inj start).1

/-- The text of an identifier is read back, by the branch of its version. -/
theorem fromString_toString (nonempty : cid.contentAddress.hash ≠ []) (encoded : encode cid = .ok bytes) :
    ∃ text, toString hex cid = .ok text ∧ fromString hex text = .ok cid ∧ (isV0 text ↔ cid.version = .v0) := by
  have decoded := decode_encode nonempty encoded
  rcases encode_eq_ok.mp encoded with ⟨version, listed⟩ | ⟨version, -, -, size, listed⟩
  · have some_ : bytes ≠ [] := by
      rw [listed]
      exact List.cons_ne_nil _ _
    have read := @MultibaseCodec.decode_encode_base32Lower hex bytes some_
    refine ⟨MultibaseCodec.encode hex bytes .base32Lower, ?_, ?_, ?_⟩
    · unfold toString
      rw [encoded]
      dsimp only
      rw [version]
    · have written : MultibaseCodec.encodeWith hex .base32Lower bytes ≠ [] :=
        MultibaseCodec.encodeBase32_ne_nil some_
      have positive := List.length_pos_iff.mpr written
      have long : ¬ (MultibaseCodec.encode hex bytes .base32Lower).length < 2 := by
        rw [MultibaseCodec.encode, if_neg some_, List.length_cons]
        omega
      unfold fromString
      rw [if_neg long, if_neg (not_isV0_base32 bytes), read]
      exact decoded
    · rw [version]
      exact iff_of_false (not_isV0_base32 bytes) (by decide)
  · have recognised := encodeBase58_v0 size
    rw [← listed] at recognised
    refine ⟨Base58.encodeBase58 bytes, ?_, ?_, ?_⟩
    · unfold toString
      rw [encoded]
      dsimp only
      rw [version]
    · have long : ¬ (Base58.encodeBase58 bytes).length < 2 := by
        rw [recognised.1]
        decide
      unfold fromString
      rw [if_neg long, if_pos recognised, Base58.decode_encode]
      exact decoded
    · exact iff_of_true recognised version

/-- The identifier of a digest of zeros. -/
def sampleCid : ContentIdentifier where
  version := .v0
  contentType := .dagPb
  contentAddress := ⟨HashType.sha256, List.replicate 32 0, by decide⟩

theorem fromString_toString_sample : ∃ text, toString MultibaseCodec.plainHex sampleCid = .ok text ∧
    fromString MultibaseCodec.plainHex text = .ok sampleCid ∧ (isV0 text ↔ sampleCid.version = .v0) :=
  @fromString_toString MultibaseCodec.plainHex sampleCid _ (by decide) (by decide +kernel : encode sampleCid =
    .ok ([0x12, 0x20] ++ List.replicate 32 0))

end RoundTrip

end ContentIdentifierCodec

end Libp2p.Multi
