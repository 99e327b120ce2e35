import Libp2p.Multi.ContentIdentifier

/-! # The wire forms of multihashes and identifiers

A multihash begins with a number in groups of seven bits and an identifier of the second version with three of them. The
readers take a number in any number of groups that fits 64 bits, so that what was read is written again in the same bytes
exactly when each of the numbers was in its shortest form and, where it is narrowed to a code, came back from that.
-/

namespace Libp2p

open Library

namespace VarintPrefixReader

/-- What a fresh reader cuts off a buffer. -/
theorem prefix_of_consumeBuffer {reader : VarintPrefixReader} {buffer rest : Bytes}
    (taken : ({} : VarintPrefixReader).consumeBuffer buffer = (reader, .ready, rest)) :
    ∃ groups, Leb128.cut buffer = some groups ∧ Leb128.Fits 64 0 groups ∧ buffer = groups ++ rest ∧
      reader.value = Leb128.denote groups := by
  unfold consumeBuffer at taken
  rcases looped : ({} : VarintPrefixReader).consumeLoop buffer with ⟨final, state, consumed⟩
  rw [looped] at taken
  dsimp only at taken
  obtain ⟨rfl, later⟩ := Prod.mk.inj taken
  obtain ⟨rfl, left⟩ := Prod.mk.inj later
  obtain ⟨groups, found, fits, rfl, number⟩ := prefix_of_consumeLoop looped
  obtain ⟨some_, more, rfl⟩ := Leb128.cut_eq_some found
  rw [if_pos ⟨List.length_pos_iff.mpr some_, .inl rfl⟩, List.drop_left] at left
  exact ⟨groups, found, fits, by rw [left], number⟩

end VarintPrefixReader

namespace Multihash

variable {v : Bytes} {multihash : Multihash}

/-- What is read: the type, the length of the hash in one byte, and the hash. -/
theorem read_of_createFromBytes (accepted : createFromBytes v = .ok multihash) :
    ∃ groups, Leb128.cut v = some groups ∧ Leb128.Fits 64 0 groups ∧ multihash.type.toNat = Leb128.denote groups ∧
      v = groups ++ UInt8.ofNat multihash.hash.length :: multihash.hash := by
  unfold createFromBytes at accepted
  rcases taken : ({} : VarintPrefixReader).consumeBuffer v with ⟨reader, state, rest⟩
  rw [taken] at accepted
  dsimp only at accepted
  split_ifs at accepted with waiting
  obtain rfl := not_not.mp waiting
  obtain ⟨groups, found, fits, rfl, number⟩ := VarintPrefixReader.prefix_of_consumeBuffer taken
  have small := fits.value
  rw [pow_zero, mul_one] at small
  rcases rest with _ | ⟨length, hash⟩
  · cases accepted
  · dsimp only at accepted
    split_ifs at accepted with zero same
    obtain ⟨type, digest⟩ := create_eq_ok accepted
    refine ⟨groups, found, fits, ?_, ?_⟩
    · rw [type, number, UInt64.toNat_ofNat', Nat.mod_eq_of_lt small]
    · rw [digest, not_not.mp same, UInt8.ofNat_toNat]

/-- A multihash is written as it was read when its type was in the shortest form. -/
theorem toBuffer_eq_iff (accepted : createFromBytes v = .ok multihash) :
    multihash.toBuffer = v ↔ Leb128.ShortestPrefix v := by
  obtain ⟨groups, found, fits, type, rfl⟩ := read_of_createFromBytes accepted
  rw [Leb128.shortestPrefix_iff found, toBuffer, header, type, List.append_assoc, List.singleton_append,
    List.append_cancel_right_eq]
  exact VarintPrefixReader.encodeVarint_denote found fits

theorem length_toBuffer_le (accepted : createFromBytes v = .ok multihash) : multihash.toBuffer.length ≤ v.length := by
  obtain ⟨groups, found, -, type, rfl⟩ := read_of_createFromBytes accepted
  have shorter := @VarintPrefixReader.length_encodeVarintLoop_denote _ 10 _ found
  rw [toBuffer, header, type, List.append_assoc, List.singleton_append, List.length_append, List.length_append]
  exact Nat.add_le_add_right shorter _

end Multihash

namespace Multi.MulticodecType

abbrev Code.identity : Code := 0x00

abbrev Code.sha1 : Code := 0x11

abbrev Code.sha2_256 : Code := 0x12

abbrev Code.sha2_512 : Code := 0x13

abbrev Code.sha3_512 : Code := 0x14

abbrev Code.sha3_384 : Code := 0x15

abbrev Code.sha3_256 : Code := 0x16

abbrev Code.sha3_224 : Code := 0x17

abbrev Code.dagCbor : Code := 0x71

abbrev Code.filecoinCommitmentUnsealed : Code := 0xf101

abbrev Code.filecoinCommitmentSealed : Code := 0xf102

/-- The enumerators. -/
def codes : List Code :=
  [.identity, .sha1, .sha2_256, .sha2_512, .sha3_512, .sha3_384, .sha3_256, .sha3_224, .raw, .dagPb, .dagCbor,
    .filecoinCommitmentUnsealed, .filecoinCommitmentSealed]

/-- The values of an unsigned number of 64 bits that a code and its sign represent. -/
def Code.Represents (number : ℕ) : Prop := number < 2 ^ 31 ∨ 2 ^ 64 - 2 ^ 31 ≤ number

instance (number : ℕ) : Decidable (Code.Represents number) := inferInstanceAs (Decidable (_ ∨ _))

theorem Code.toUInt64_ofUInt64 (number : UInt64) :
    (Code.ofUInt64 number).toUInt64 = number ↔ Code.Represents number.toNat := by
  have small := number.toNat_lt
  have signed : number.toInt64.toInt = (number.toNat : ℤ).bmod (2 ^ 64) := BitVec.toInt_eq_toNat_bmod number.toBitVec
  have widened : (Code.ofUInt64 number).toUInt64 = number ↔
      number.toInt64.toInt.bmod (2 ^ 32) = number.toInt64.toInt := by
    rw [← Int64.toInt_toInt32, ← Int32.toInt_toInt64, Int64.toInt_inj]
    constructor
    · intro same
      have again := congrArg UInt64.toInt64 same
      exact again
    · exact fun same => congrArg Int64.toUInt64 same
  rw [widened, signed, Int.bmod_def, Int.bmod_def]
  unfold Code.Represents
  split_ifs <;> omega

end Multi.MulticodecType

namespace Multi.ContentIdentifierCodec

section Decoding

variable {b c : Bytes} {cid : ContentIdentifier}

/-- The bytes are taken for an identifier of the first version. -/
def startsV0 (bytes : Bytes) : Prop := bytes.length = 34 ∧ bytes.getD 0 0 = 0x12 ∧ bytes.getD 1 0 = 0x20

instance (bytes : Bytes) : Decidable (startsV0 bytes) := inferInstanceAs (Decidable (_ ∧ _ ∧ _))

/-- Each of the three numbers is in its shortest form, and the second one is that of a code. -/
structure Canonical (bytes : Bytes) : Prop where
  version : Leb128.ShortestPrefix bytes
  multicodec : Leb128.ShortestPrefix (Leb128.behind bytes)
  represented : MulticodecType.Code.Represents (Leb128.number (Leb128.behind bytes))
  hashType : Leb128.ShortestPrefix (Leb128.behind (Leb128.behind bytes))

/-- What was decoded by the branch of the second version. -/
structure ReadV1 (version multicodec address : Bytes) (cid : ContentIdentifier) : Prop where
  versionCut : Leb128.cut (version ++ (multicodec ++ address)) = some version
  versionFits : Leb128.Fits 64 0 version
  one : Leb128.denote version = 1
  multicodecCut : Leb128.cut (multicodec ++ address) = some multicodec
  multicodecFits : Leb128.Fits 64 0 multicodec
  second : cid.version = .v1
  contentType : cid.contentType = .ofUInt64 (UInt64.ofNat (Leb128.denote multicodec))
  contentAddress : Multihash.createFromBytes address = .ok cid.contentAddress

theorem decode_eq_ok (accepted : decode b = .ok cid) :
    (startsV0 b ∧ cid.version = .v0 ∧ cid.contentType = .dagPb ∧
      Multihash.createFromBytes b = .ok cid.contentAddress) ∨
    ¬ startsV0 b ∧ ∃ version multicodec address, b = version ++ (multicodec ++ address) ∧
      ReadV1 version multicodec address cid := by
  unfold decode at accepted
  split_ifs at accepted with first
  · rcases hashed : Multihash.createFromBytes b with error | hash
    · rw [hashed] at accepted
      cases accepted
    · rw [hashed] at accepted
      obtain rfl := Except.ok.inj accepted
      exact .inl ⟨first, rfl, rfl, rfl⟩
  · rcases created : UVarint.create b with _ | version
    · rw [created] at accepted
      cases accepted
    rw [created] at accepted
    obtain ⟨found, fits⟩ := UVarint.create_eq_some.mp created
    have size : UVarint.calculateSize b = version.length :=
      (UVarint.calculateSizeLoop_of_fits found fits).trans (Nat.zero_add _)
    obtain ⟨-, rest, rfl⟩ := Leb128.cut_eq_some found
    dsimp only at accepted
    rw [size, UVarint.toUInt64_eq fits, List.drop_left] at accepted
    split_ifs at accepted with one
    rcases created' : UVarint.create rest with _ | multicodec
    · rw [created'] at accepted
      cases accepted
    rw [created'] at accepted
    obtain ⟨found', fits'⟩ := UVarint.create_eq_some.mp created'
    have size' : UVarint.calculateSize rest = multicodec.length :=
      (UVarint.calculateSizeLoop_of_fits found' fits').trans (Nat.zero_add _)
    obtain ⟨-, address, rfl⟩ := Leb128.cut_eq_some found'
    dsimp only at accepted
    rw [size', UVarint.toUInt64_eq fits', ← List.append_assoc, ← List.length_append, List.drop_left] at accepted
    rcases hashed : Multihash.createFromBytes address with error | hash
    · rw [hashed] at accepted
      cases accepted
    · rw [hashed] at accepted
      obtain rfl := Except.ok.inj accepted
      exact .inr ⟨first, version, multicodec, address, rfl, found, fits, one, found', fits', rfl, rfl, hashed⟩

/-- The bytes of an identifier of the first version are those it is encoded in. -/
theorem encode_of_startsV0 (first : startsV0 b) (version : cid.version = .v0) (contentType : cid.contentType = .dagPb)
    (hashed : Multihash.createFromBytes b = .ok cid.contentAddress) : encode cid = .ok b := by
  obtain ⟨groups, found, -, type, rfl⟩ := Multihash.read_of_createFromBytes hashed
  obtain ⟨length, start, size⟩ := first
  obtain ⟨byte, more, rfl⟩ := List.exists_cons_of_ne_nil (Leb128.cut_eq_some found).1
  obtain rfl : byte = 0x12 := start
  rw [List.cons_append, Leb128.cut_last (by decide)] at found
  obtain ⟨-, rfl⟩ := List.cons.inj (Option.some.inj found)
  have digest : UInt8.ofNat cid.contentAddress.hash.length = 0x20 := size
  have whole : cid.contentAddress.hash.length = 32 := by
    simp only [List.length_append, List.length_cons, List.length_nil] at length
    omega
  refine encode_eq_ok.mpr (.inr ⟨version, contentType, ?_, whole, ?_⟩)
  · exact UInt64.toNat_inj.mp type
  · rw [digest]
    rfl

/-- Equal texts that begin with numbers in groups have the same groups. -/
theorem append_inj_of_cut {first second rest other : Bytes} (cutFirst : Leb128.cut (first ++ rest) = some first)
    (cutSecond : Leb128.cut (second ++ other) = some second) :
    first ++ rest = second ++ other ↔ first = second ∧ rest = other := by
  constructor
  · intro same
    rw [same, cutSecond] at cutFirst
    obtain rfl := Option.some.inj cutFirst
    exact ⟨rfl, List.append_cancel_left same⟩
  · rintro ⟨rfl, rfl⟩
    rfl

theorem encode_of_readV1 {version multicodec address : Bytes} (read : ReadV1 version multicodec address cid) :
    encode cid = .ok (version ++ (multicodec ++ address)) ↔ Canonical (version ++ (multicodec ++ address)) := by
  have behindVersion := Leb128.behind_append read.versionCut
  have behindMulticodec := Leb128.behind_append read.multicodecCut
  have small := read.multicodecFits.value
  rw [pow_zero, mul_one] at small
  have number : (UInt64.ofNat (Leb128.denote multicodec)).toNat = Leb128.denote multicodec := by
    rw [UInt64.toNat_ofNat', Nat.mod_eq_of_lt small]
  have canonical : Canonical (version ++ (multicodec ++ address)) ↔
      Leb128.Shortest version ∧ (Leb128.Shortest multicodec ∧
        MulticodecType.Code.Represents (Leb128.denote multicodec)) ∧ Leb128.ShortestPrefix address := by
    have denoted : Leb128.number (multicodec ++ address) = Leb128.denote multicodec := by
      rw [Leb128.number, read.multicodecCut]
      rfl
    constructor
    · rintro ⟨first, second, third, fourth⟩
      rw [behindVersion] at second third fourth
      rw [behindMulticodec] at fourth
      rw [denoted] at third
      exact ⟨(Leb128.shortestPrefix_iff read.versionCut).mp first,
        ⟨(Leb128.shortestPrefix_iff read.multicodecCut).mp second, third⟩, fourth⟩
    · rintro ⟨first, ⟨second, third⟩, fourth⟩
      refine ⟨(Leb128.shortestPrefix_iff read.versionCut).mpr first, ?_, ?_, ?_⟩
      · rw [behindVersion]
        exact (Leb128.shortestPrefix_iff read.multicodecCut).mpr second
      · rw [behindVersion, denoted]
        exact third
      · rw [behindVersion, behindMulticodec]
        exact fourth
  -- The version is one, and one is written in one group.
  have one : [1] = version ↔ Leb128.Shortest version := by
    rw [← VarintPrefixReader.encodeVarint_denote read.versionCut read.versionFits, read.one, encodeVarint_one]
  have codec : encodeVarint cid.contentType.toUInt64.toNat = multicodec ↔
      Leb128.Shortest multicodec ∧ MulticodecType.Code.Represents (Leb128.denote multicodec) := by
    have written := VarintPrefixReader.encodeVarint_denote read.multicodecCut read.multicodecFits
    have narrowed := MulticodecType.Code.toUInt64_ofUInt64 (UInt64.ofNat (Leb128.denote multicodec))
    rw [number] at narrowed
    rw [← written, ← narrowed, read.contentType]
    constructor
    · intro same
      have back : (MulticodecType.Code.ofUInt64 (UInt64.ofNat (Leb128.denote multicodec))).toUInt64 =
          UInt64.ofNat (Leb128.denote multicodec) := by
        apply UInt64.toNat_inj.mp
        rw [number]
        obtain ⟨-, denoted, -⟩ := VarintPrefixReader.encodeVarint_spec (UInt64.toNat_lt
          (MulticodecType.Code.ofUInt64 (UInt64.ofNat (Leb128.denote multicodec))).toUInt64) []
        rw [← denoted, same]
      rw [back, number] at same
      exact ⟨same, back⟩
    · rintro ⟨same, back⟩
      rw [back, number, same]
  have encoded : encode cid = .ok ([1] ++ (encodeVarint cid.contentType.toUInt64.toNat ++ cid.contentAddress.toBuffer)) :=
    encode_eq_ok.mpr (.inl ⟨read.second, (List.append_assoc _ _ _).symm⟩)
  obtain ⟨cutCodec, -⟩ := VarintPrefixReader.encodeVarint_spec cid.contentType.toUInt64.toNat_lt
    cid.contentAddress.toBuffer
  rw [encoded, canonical, Except.ok.injEq, append_inj_of_cut (Leb128.cut_last (by decide)) read.versionCut,
    append_inj_of_cut cutCodec read.multicodecCut, one, codec, Multihash.toBuffer_eq_iff read.contentAddress]

/-- Bytes that are taken for an identifier are those it is encoded in when they are of the first version or canonical, and
of such bytes no two are taken for one identifier. -/
theorem encode_iff_canonical (accepted : decode b = .ok cid) :
    (encode cid = .ok b ↔ startsV0 b ∨ Canonical b) ∧
      (startsV0 b ∨ Canonical b → ∀ c, decode c = .ok cid → startsV0 c ∨ Canonical c → c = b) := by
  have written : ∀ {c}, decode c = .ok cid → (encode cid = .ok c ↔ startsV0 c ∨ Canonical c) := by
    intro c accepted
    rcases decode_eq_ok accepted with ⟨first, version, contentType, hashed⟩ | ⟨other, version, multicodec, address, rfl, read⟩
    · exact iff_of_true (encode_of_startsV0 first version contentType hashed) (.inl first)
    · rw [or_iff_right other]
      exact encode_of_readV1 read
  refine ⟨written accepted, fun canonical c accepted' canonical' => ?_⟩
  have mine := (written accepted).mpr canonical
  rw [(written accepted').mpr canonical'] at mine
  exact Except.ok.inj mine

/-- An identifier of a raw block, with its three numbers in their shortest forms. -/
theorem encode_canonical_raw : encode ⟨.v1, .raw, ⟨HashType.identity, [7], by decide⟩⟩ = .ok [1, 0x55, 0, 1, 7] :=
  (encode_iff_canonical (by decide)).1.mpr (.inr
    ⟨(Leb128.shortestPrefix_iff rfl).mpr (by decide), (Leb128.shortestPrefix_iff rfl).mpr (by decide), by decide,
      (Leb128.shortestPrefix_iff rfl).mpr (by decide)⟩)

/-- The same identifier with a longer version, a longer content type, one that is narrowed, and a longer type of its hash:
each of them is encoded in other bytes than those it was decoded from. -/
theorem decode_not_canonical :
    decode [0x81, 0, 0x55, 0, 1, 7] = .ok ⟨.v1, .raw, ⟨HashType.identity, [7], by decide⟩⟩ ∧
    decode [1, 0xd5, 0, 0, 1, 7] = .ok ⟨.v1, .raw, ⟨HashType.identity, [7], by decide⟩⟩ ∧
    decode [1, 0xd5, 0x80, 0x80, 0x80, 0x10, 0, 1, 7] = .ok ⟨.v1, .raw, ⟨HashType.identity, [7], by decide⟩⟩ ∧
    decode [1, 0x55, 0x80, 0, 1, 7] = .ok ⟨.v1, .raw, ⟨HashType.identity, [7], by decide⟩⟩ ∧
    encode ⟨.v1, .raw, ⟨HashType.identity, [7], by decide⟩⟩ = .ok [1, 0x55, 0, 1, 7] := by
  decide

end Decoding

/-- Two bytes in front of the hash: its type and the size of the digest. -/
def encodeCIDV0 (sha256 : Bytes → Vector UInt8 32) (bytes : Bytes) : Bytes :=
  let hash := (sha256 bytes).toList
  [HashType.sha256.toUInt8] ++ [UInt8.ofNat hash.length] ++ hash

/-- The version and the lowest byte of the content type in front of the multihash. -/
def encodeCIDV1 (contentType : MulticodecType.Code) (mhash : Multihash) : Bytes :=
  [1] ++ [contentType.toInt8.toUInt8] ++ mhash.toBuffer

section Encoders

variable {contentType : MulticodecType.Code} {mhash : Multihash}

theorem toInt_eq_bmod (contentType : MulticodecType.Code) :
    contentType.toInt = (contentType.toUInt64.toNat : ℤ).bmod (2 ^ 64) := by
  rw [← Int32.toInt_toInt64]
  exact BitVec.toInt_eq_toNat_bmod contentType.toUInt64.toBitVec

theorem toUInt64_small (contentType : MulticodecType.Code) :
    contentType.toUInt64.toNat < 128 ↔ 0 ≤ contentType.toInt ∧ contentType.toInt < 128 := by
  have bound := contentType.toUInt64.toNat_lt
  rw [toInt_eq_bmod, Int.bmod_def]
  split_ifs <;> omega

theorem toUInt8_toNat (small : contentType.toUInt64.toNat < 128) :
    contentType.toInt8.toUInt8.toNat = contentType.toUInt64.toNat := by
  have bound := contentType.toInt8.toUInt8.toNat_lt
  have narrow : contentType.toInt8.toInt = (contentType.toInt8.toUInt8.toNat : ℤ).bmod (2 ^ 8) :=
    BitVec.toInt_eq_toNat_bmod contentType.toInt8.toUInt8.toBitVec
  rw [Int32.toInt_toInt8, toInt_eq_bmod, Int.bmod_def, Int.bmod_def, Int.bmod_def] at narrow
  split_ifs at narrow <;> omega

/-- The content type is written in one byte when it is below 128. -/
theorem encode_eq_encodeCIDV1_iff : encode ⟨.v1, contentType, mhash⟩ = .ok (encodeCIDV1 contentType mhash) ↔
    contentType.toUInt64.toNat < 128 := by
  obtain ⟨cutCodec, denoted, -⟩ := VarintPrefixReader.encodeVarint_spec contentType.toUInt64.toNat_lt mhash.toBuffer
  have encoded : encode ⟨.v1, contentType, mhash⟩ =
      .ok ([1] ++ (encodeVarint contentType.toUInt64.toNat ++ mhash.toBuffer)) :=
    encode_eq_ok.mpr (.inl ⟨rfl, (List.append_assoc _ _ _).symm⟩)
  rw [encoded, encodeCIDV1, List.append_assoc, Except.ok.injEq, List.append_cancel_left_eq, List.append_cancel_right_eq]
  constructor
  · intro single
    rw [single] at cutCodec denoted
    by_cases last : contentType.toInt8.toUInt8.toNat < 128
    · rw [← denoted, Leb128.denote, Leb128.denote]
      omega
    · rw [List.singleton_append, Leb128.cut_more (not_lt.mp last)] at cutCodec
      obtain ⟨more, found, whole⟩ := Option.map_eq_some_iff.mp cutCodec
      exact absurd (List.cons.inj whole).2 (Leb128.cut_eq_some found).1
  · intro small
    have bytes : encodeVarint contentType.toUInt64.toNat = [UInt8.ofNat (contentType.toUInt64.toNat &&& 0x7f)] := by
      rw [encodeVarint, encodeVarintLoop, Nat.shiftRight_eq_div_pow, Nat.div_eq_of_lt small, if_neg (not_not.mpr rfl)]
    rw [bytes, List.cons.injEq, and_iff_left rfl]
    apply UInt8.toNat_inj.mp
    rw [low_byte, toUInt8_toNat small, Nat.mod_eq_of_lt small]

theorem small_of_decode_encodeCIDV1 (read : decode (encodeCIDV1 contentType mhash) = .ok ⟨.v1, contentType, mhash⟩) :
    contentType.toUInt64.toNat < 128 := by
  rcases decode_eq_ok read with ⟨-, impossible, -⟩ | ⟨-, version, multicodec, address, whole, read⟩
  · cases impossible
  have found := read.versionCut
  rw [← whole, encodeCIDV1, List.append_assoc, List.singleton_append, Leb128.cut_last (by decide)] at found
  obtain rfl := Option.some.inj found
  rw [encodeCIDV1, List.append_assoc, List.append_cancel_left_eq] at whole
  have found' := read.multicodecCut
  rw [← whole, List.singleton_append] at found'
  by_cases last : contentType.toInt8.toUInt8.toNat < 128
  · rw [Leb128.cut_last last] at found'
    obtain rfl := Option.some.inj found'
    have number : Leb128.denote [contentType.toInt8.toUInt8] = contentType.toInt8.toUInt8.toNat := Nat.mod_eq_of_lt last
    have back := read.contentType
    dsimp only at back
    rw [number] at back
    have size : (UInt64.ofNat contentType.toInt8.toUInt8.toNat).toNat = contentType.toInt8.toUInt8.toNat := by
      rw [UInt64.toNat_ofNat']
      omega
    rw [back, (MulticodecType.Code.toUInt64_ofUInt64 _).mpr (.inl (by rw [size]; omega)), size]
    exact last
  · -- A longer content type takes bytes of the multihash, of which there are then too few.
    rw [Leb128.cut_more (not_lt.mp last)] at found'
    obtain ⟨more, earlier, rfl⟩ := Option.map_eq_some_iff.mp found'
    have positive : 0 < more.length := List.length_pos_iff.mpr (Leb128.cut_eq_some earlier).1
    have length := congrArg List.length whole
    have shorter := Multihash.length_toBuffer_le read.contentAddress
    simp only [List.length_append, List.length_cons, List.length_nil] at length shorter
    omega

/-- The two encoders of the second version agree, and what the short one writes is decoded again, when the content type is
below 128, which two of the enumerators are not. Those of the first version agree. -/
theorem encoders_agree_iff (nonempty : mhash.hash ≠ []) (sha256 : Bytes → Vector UInt8 32) (bytes : Bytes) :
    (encode ⟨.v1, contentType, mhash⟩ = .ok (encodeCIDV1 contentType mhash) ↔
      0 ≤ contentType.toInt ∧ contentType.toInt < 128) ∧
    (decode (encodeCIDV1 contentType mhash) = .ok ⟨.v1, contentType, mhash⟩ ↔
      0 ≤ contentType.toInt ∧ contentType.toInt < 128) ∧
    (contentType ∈ MulticodecType.codes → ((0 ≤ contentType.toInt ∧ contentType.toInt < 128) ↔
      contentType ≠ .filecoinCommitmentUnsealed ∧ contentType ≠ .filecoinCommitmentSealed)) ∧
    (∃ encoded, encode ⟨.v1, contentType, mhash⟩ = .ok encoded ∧ decode encoded = .ok ⟨.v1, contentType, mhash⟩) ∧
    ∃ digest, Multihash.create HashType.sha256 (sha256 bytes).toList = .ok digest ∧
      encode ⟨.v0, .dagPb, digest⟩ = .ok (encodeCIDV0 sha256 bytes) ∧
      decode (encodeCIDV0 sha256 bytes) = .ok ⟨.v0, .dagPb, digest⟩ := by
  have enumerators : ∀ contentType ∈ MulticodecType.codes, ((0 ≤ contentType.toInt ∧ contentType.toInt < 128) ↔
      contentType ≠ .filecoinCommitmentUnsealed ∧ contentType ≠ .filecoinCommitmentSealed) := by
    have checked : (MulticodecType.codes.all fun contentType => ((0 ≤ contentType.toInt ∧ contentType.toInt < 128) ↔
        contentType ≠ .filecoinCommitmentUnsealed ∧ contentType ≠ .filecoinCommitmentSealed)) = true := by decide +kernel
    exact fun contentType member => of_decide_eq_true (List.all_eq_true.mp checked contentType member)
  refine ⟨?_, ?_, enumerators contentType, ?_, ?_⟩
  · rw [← toUInt64_small]
    exact encode_eq_encodeCIDV1_iff
  · rw [← toUInt64_small]
    exact ⟨small_of_decode_encodeCIDV1, fun small => decode_encode nonempty (encode_eq_encodeCIDV1_iff.mpr small)⟩
  · have encoded := (@encode_eq_ok ⟨.v1, contentType, mhash⟩ _).mpr (.inl ⟨rfl, rfl⟩)
    exact ⟨_, encoded, decode_encode nonempty encoded⟩
  · have size : (sha256 bytes).toList.length = 32 := Vector.length_toList
    have bounded : (sha256 bytes).toList.length ≤ kMaxHashLength := size.trans_le (by decide)
    have written : encode ⟨.v0, .dagPb, ⟨HashType.sha256, (sha256 bytes).toList, bounded⟩⟩ =
        .ok (encodeCIDV0 sha256 bytes) := by
      refine encode_eq_ok.mpr (.inr ⟨rfl, rfl, rfl, size, ?_⟩)
      rw [encodeCIDV0]
      dsimp only
      rw [size]
      rfl
    refine ⟨_, dif_neg (not_lt.mpr bounded), written, decode_encode ?_ written⟩
    intro empty
    dsimp only at empty
    rw [empty] at size
    cases size

theorem encoders_agree_raw : encode ⟨.v1, .raw, ⟨HashType.identity, [7], by decide⟩⟩ =
    .ok (encodeCIDV1 .raw ⟨HashType.identity, [7], by decide⟩) :=
  (@encoders_agree_iff .raw ⟨HashType.identity, [7], by decide⟩ (by decide) (fun _ => Vector.replicate 32 0) []).1.mpr
    (by decide)

/-- A content type of three groups: one byte of it is written, which is another content type. -/
theorem encoders_differ_unsealed :
    .filecoinCommitmentUnsealed ∈ MulticodecType.codes ∧
    encode ⟨.v1, .filecoinCommitmentUnsealed, ⟨HashType.identity, [7], by decide⟩⟩ =
      .ok [1, 0x81, 0xe2, 0x03, 0, 1, 7] ∧
    encodeCIDV1 .filecoinCommitmentUnsealed ⟨HashType.identity, [7], by decide⟩ = [1, 1, 0, 1, 7] ∧
    decode [1, 1, 0, 1, 7] = .ok ⟨.v1, 1, ⟨HashType.identity, [7], by decide⟩⟩ := by
  decide +kernel

end Encoders

end Multi.ContentIdentifierCodec

end Libp2p
