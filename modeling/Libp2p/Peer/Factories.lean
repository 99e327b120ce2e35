import Libp2p.Multi.WireForms
import Libp2p.Peer.Texts

/-! # The factories of peer ids

A key is inlined when the key is short, and an inlined hash is accepted when the whole multihash is short, which has two
more bytes. The empty key is inlined too, although no buffer with an empty hash is read.
-/

namespace Libp2p.PeerId

open Library

variable {sha256 : Bytes → Hash256} {key : Bytes} {peerId : PeerId}

def toMultihash (peerId : PeerId) : Multihash := peerId.hash

/-- The id of a key: the key itself, or its digest. -/
theorem fromPublicKey_eq_ok (made : fromPublicKey sha256 key = .ok peerId) :
    (key.length ≤ kMaxInlineKeyLength ∧ peerId.hash.type = HashType.identity ∧ peerId.hash.hash = key) ∨
      (kMaxInlineKeyLength < key.length ∧ peerId.hash.type = HashType.sha256 ∧
        peerId.hash.hash = (sha256 key).toList) := by
  have created {made : Except MultihashError Multihash} (ok : ofMultihash made = .ok peerId) : made = .ok peerId.hash := by
    rcases made with error | hash
    · cases ok
    · obtain rfl := Except.ok.inj ok
      rfl
  unfold fromPublicKey at made
  split_ifs at made with short
  · exact .inl ⟨short, Multihash.create_eq_ok (created made)⟩
  · exact .inr ⟨not_le.mp short, Multihash.create_eq_ok (created made)⟩

theorem fromHash_toMultihash : fromHash peerId.toMultihash = .ok peerId ↔
    peerId.hash.type = HashType.sha256 ∨ peerId.hash.toBuffer.length ≤ kMaxInlineKeyLength := by
  unfold fromHash toMultihash Multihash.getType
  split_ifs with refused
  · refine iff_of_false (fun impossible => by cases impossible) ?_
    rintro (same | short)
    · exact refused.1 same
    · exact absurd refused.2 (not_lt.mpr short)
  · refine iff_of_true rfl ?_
    by_contra neither
    obtain ⟨other, long⟩ := not_or.mp neither
    exact refused ⟨other, not_le.mp long⟩

/-- The checks behind the text are those behind the bytes. -/
theorem fromDecoded_ok (v : Bytes) : fromDecoded (.ok v) = (fromBytes v).mapError .peerId := by
  unfold fromDecoded fromBytes fromHash
  dsimp only
  rcases Multihash.createFromBytes v with error | hash
  · rfl
  · dsimp only
    split_ifs <;> rfl

theorem fromBytes_toVector (nonempty : peerId.hash.hash ≠ []) : fromBytes peerId.toVector = fromHash peerId.toMultihash := by
  rw [fromBytes, toVector, Multihash.createFromBytes_toBuffer nonempty, toMultihash]

theorem fromBase58_toBase58 : fromBase58 (View.string 0 peerId.toBase58) =
    some ((fromBytes peerId.toVector).mapError .peerId) := by
  rw [fromBase58, Multi.Base58.decodeBase58View_string, toBase58, Multi.Base58.decode_encode, Option.map_some]
  exact congrArg some (fromDecoded_ok peerId.toVector)

/-- The id of a key comes back through the other factories when it is not that of the empty key and the key is hashed or
leaves room for the two bytes in front of it. -/
theorem factories_agree_iff (made : fromPublicKey sha256 key = .ok peerId) :
    (fromBytes peerId.toVector = .ok peerId ∧ fromHash peerId.toMultihash = .ok peerId ∧
      fromBase58 (View.string 0 peerId.toBase58) = some (.ok peerId)) ↔
    (1 ≤ key.length ∧ key.length ≤ 40) ∨ 42 < key.length := by
  have text : fromBase58 (View.string 0 peerId.toBase58) = some (.ok peerId) ↔
      fromBytes peerId.toVector = .ok peerId := by
    rw [fromBase58_toBase58, Option.some.injEq]
    rcases fromBytes peerId.toVector with error | other <;> simp [Except.mapError]
  rw [text]
  rcases fromPublicKey_eq_ok made with ⟨short, type, hash⟩ | ⟨long, type, hash⟩
  · have size : peerId.hash.toBuffer.length = key.length + 2 := by
      rw [Multihash.toBuffer, Multihash.header, type, hash, List.length_append, List.length_append,
        show encodeVarint HashType.identity.toNat = [0] by decide, List.length_singleton, List.length_singleton]
      omega
    have inlined : fromHash peerId.toMultihash = .ok peerId ↔ key.length ≤ 40 := by
      rw [fromHash_toMultihash, size, or_iff_right (by rw [type]; decide), kMaxInlineKeyLength]
      omega
    rw [kMaxInlineKeyLength] at short
    constructor
    · rintro ⟨read, accepted, -⟩
      have nonempty := (fromBytes_eq_ok read).1
      rw [hash] at nonempty
      exact .inl ⟨List.length_pos_iff.mpr nonempty, inlined.mp accepted⟩
    · rintro (⟨some_, fits⟩ | long)
      · have nonempty : peerId.hash.hash ≠ [] := by
          rw [hash]
          exact List.length_pos_iff.mp some_
        have accepted := inlined.mpr fits
        have read := (fromBytes_toVector nonempty).trans accepted
        exact ⟨read, accepted, read⟩
      · omega
  · have nonempty : peerId.hash.hash ≠ [] := by
      rw [hash]
      intro empty
      have size : (sha256 key).toList.length = 32 := Vector.length_toList
      rw [empty] at size
      cases size
    have accepted := fromHash_toMultihash.mpr (.inl type)
    have read := (fromBytes_toVector nonempty).trans accepted
    exact iff_of_true ⟨read, accepted, read⟩ (.inr long)

theorem factories_agree_short : fromBytes (toVector ⟨⟨HashType.identity, [7], by decide⟩⟩) =
    .ok ⟨⟨HashType.identity, [7], by decide⟩⟩ :=
  ((@factories_agree_iff (fun _ => Vector.replicate 32 0) [7] ⟨⟨HashType.identity, [7], by decide⟩⟩ (by decide)).mpr
    (.inl (by decide))).1

/-- The id of the empty key is not read back, and that of a key of 41 bytes does not come back at all. -/
theorem factories_refuse_own :
    (fromPublicKey (fun _ => Vector.replicate 32 0) [] = .ok ⟨⟨HashType.identity, [], by decide⟩⟩ ∧
      fromBytes (toVector ⟨⟨HashType.identity, [], by decide⟩⟩) = .error (.multihash .zeroInputLength)) ∧
    fromPublicKey (fun _ => Vector.replicate 32 0) (List.replicate 41 7) =
      .ok ⟨⟨HashType.identity, List.replicate 41 7, by decide⟩⟩ ∧
      fromHash ⟨HashType.identity, List.replicate 41 7, by decide⟩ = .error .sha256Expected ∧
      fromBytes (toVector ⟨⟨HashType.identity, List.replicate 41 7, by decide⟩⟩) = .error .sha256Expected := by
  decide

/-- Multihashes and ids are written as they were read exactly when the type is in its shortest form, and one of them is
read from no two texts of that form. -/
theorem toVector_iff_shortest (v w : Bytes) :
    (∀ hash, Multihash.createFromBytes v = .ok hash → (hash.toBuffer = v ↔ Leb128.ShortestPrefix v)) ∧
    (∀ peerId, fromBytes v = .ok peerId → (peerId.toVector = v ↔ Leb128.ShortestPrefix v)) ∧
    (∀ hash, Multihash.createFromBytes v = .ok hash → Multihash.createFromBytes w = .ok hash →
      Leb128.ShortestPrefix v → Leb128.ShortestPrefix w → v = w) ∧
    ∀ peerId, fromBytes v = .ok peerId → fromBytes w = .ok peerId →
      Leb128.ShortestPrefix v → Leb128.ShortestPrefix w → v = w := by
  have read {v : Bytes} {peerId : PeerId} (accepted : fromBytes v = .ok peerId) :
      Multihash.createFromBytes v = .ok peerId.hash := by
    unfold fromBytes fromHash at accepted
    rcases hashed : Multihash.createFromBytes v with error | hash
    · rw [hashed] at accepted
      cases accepted
    · rw [hashed] at accepted
      dsimp only at accepted
      split_ifs at accepted
      obtain rfl := Except.ok.inj accepted
      rfl
  have unique {v w : Bytes} {hash : Multihash} (accepted : Multihash.createFromBytes v = .ok hash)
      (also : Multihash.createFromBytes w = .ok hash) (shortest : Leb128.ShortestPrefix v)
      (shortest' : Leb128.ShortestPrefix w) : v = w :=
    ((Multihash.toBuffer_eq_iff accepted).mpr shortest).symm.trans ((Multihash.toBuffer_eq_iff also).mpr shortest')
  refine ⟨fun hash => Multihash.toBuffer_eq_iff, ?_, fun hash => unique, ?_⟩
  · exact fun peerId accepted => Multihash.toBuffer_eq_iff (read accepted)
  · exact fun peerId accepted also => unique (read accepted) (read also)

theorem toVector_shortest_short : toVector ⟨⟨HashType.identity, [7], by decide⟩⟩ = [0, 1, 7] :=
  ((toVector_iff_shortest [0, 1, 7] []).2.1 ⟨⟨HashType.identity, [7], by decide⟩⟩ (by decide)).mpr
    ((Leb128.shortestPrefix_iff rfl).mpr (by decide))

/-- The identity type in two bytes: one multihash and one id more with the bytes of another. -/
theorem read_not_shortest :
    Multihash.createFromBytes [0x80, 0, 1, 7] = .ok ⟨HashType.identity, [7], by decide⟩ ∧
    fromBytes [0x80, 0, 1, 7] = .ok ⟨⟨HashType.identity, [7], by decide⟩⟩ ∧
    Multihash.toBuffer ⟨HashType.identity, [7], by decide⟩ = [0, 1, 7] ∧
    toVector ⟨⟨HashType.identity, [7], by decide⟩⟩ = [0, 1, 7] := by
  decide

end Libp2p.PeerId
