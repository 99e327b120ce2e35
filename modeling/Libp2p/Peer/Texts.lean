import Libp2p.Library.PrefixCode
import Libp2p.Multi.TextViews
import Libp2p.Peer.PeerId

/-! # Texts of peer ids

The text of a peer id is its buffer in base 58. The ids that keys of 32 and of 33 bytes get are inlined keys whose first
bytes are fixed, and so are the length of the text and its second character: `12` and 50 more characters for Ed25519, `16`
and 51 more for Secp256k1.
-/

namespace Libp2p.PeerId

open Library Multi Base58

def toBase58 (peerId : PeerId) : Bytes := encodeBase58 peerId.hash.toBuffer

inductive TextError where
  | base (error : BaseError)
  | peerId (error : PeerIdError)
deriving DecidableEq, Repr

/-- The checks of `fromBase58` on what was decoded. -/
def fromDecoded : Except BaseError Bytes → Except TextError PeerId
  | .error error => .error (.base error)
  | .ok decodedId =>
    match Multihash.createFromBytes decodedId with
    | .error error => .error (.peerId (.multihash error))
    | .ok hash =>
      if hash.getType ≠ HashType.sha256 ∧ hash.toBuffer.length > kMaxInlineKeyLength then .error (.peerId .sha256Expected)
      else .ok ⟨hash⟩

/-- `fromBase58` of a view; absent when it reads past the end of the buffer. -/
def fromBase58 (id : View UInt8) : Option (Except TextError PeerId) := (decodeBase58View id).map fromDecoded

variable {sha256 : Bytes → Hash256} {peerId other : PeerId} {key : PublicKey}

theorem toBase58_inj (nonempty : peerId.hash.hash ≠ []) (nonempty' : other.hash.hash ≠ []) :
    peerId.toBase58 = other.toBase58 ↔ peerId = other := by
  constructor
  · intro same
    have decoded := decode_encode peerId.hash.toBuffer
    have buffers : peerId.hash.toBuffer = other.hash.toBuffer := by
      rw [← toBase58, same, toBase58, decode_encode] at decoded
      exact (Option.some.inj decoded).symm
    have read := Multihash.createFromBytes_toBuffer nonempty
    rw [buffers, Multihash.createFromBytes_toBuffer nonempty'] at read
    exact congrArg PeerId.mk (Except.ok.inj read).symm
  · rintro rfl
    rfl

/-- The buffer of the id of a key that is inlined. -/
theorem toBuffer_ofKey {number : ℕ} (known : KeyMarshaller.marshalKeyType key.type = .ok number) (enumerated : number < 4)
    (short : key.data.length ≤ 38) (made : ofKey sha256 key = some peerId) :
    peerId.hash.hash = [0x08, UInt8.ofNat number, 0x12, UInt8.ofNat key.data.length] ++ key.data ∧
      peerId.hash.toBuffer = 0 :: UInt8.ofNat (key.data.length + 4) :: peerId.hash.hash := by
  have marshalled : KeyMarshaller.marshal key =
      .ok ([0x08, UInt8.ofNat number, 0x12, UInt8.ofNat key.data.length] ++ key.data) := by
    rw [KeyMarshaller.marshal, known, ← ProtobufPublicKey.serializeAsString_eq enumerated (by omega)]
    rfl
  set protoKey := [0x08, UInt8.ofNat number, 0x12, UInt8.ofNat key.data.length] ++ key.data with spelled
  have length : protoKey.length = key.data.length + 4 := by simp [spelled]
  have inlined : protoKey.length ≤ kMaxInlineKeyLength := by simp only [length, kMaxInlineKeyLength]; omega
  have fits : ¬ protoKey.length > kMaxHashLength := by simp only [length, kMaxHashLength]; omega
  have created : fromPublicKey sha256 protoKey = .ok ⟨⟨HashType.identity, protoKey, not_lt.mp fits⟩⟩ := by
    simp only [fromPublicKey, if_pos inlined, Multihash.create, dif_neg fits, ofMultihash]
  rw [ofKey, marshalled] at made
  simp only [Except.toOption, Option.bind_eq_bind, Option.bind_some, created, Option.some.injEq] at made
  subst made
  refine ⟨rfl, ?_⟩
  simp only [Multihash.toBuffer, Multihash.header, length]
  rfl

/-- The second character and the length of the text of an inlined key's id, from the range of its number. -/
theorem toBase58_ofKey {number digit exponent : ℕ} (known : KeyMarshaller.marshalKeyType key.type = .ok number)
    (enumerated : number < 4) (short : key.data.length ≤ 38) (made : ofKey sha256 key = some peerId) (positive : 0 < digit)
    (small : digit < 58) (least : digit * 58 ^ exponent ≤ (key.data.length + 4) * 256 ^ (key.data.length + 4))
    (most : (key.data.length + 5) * 256 ^ (key.data.length + 4) ≤ (digit + 1) * 58 ^ exponent) :
    peerId.toBase58[1]? = some (pszBase58.getD digit 0) ∧ peerId.toBase58.length = exponent + 2 := by
  obtain ⟨hash, buffer⟩ := toBuffer_ofKey known enumerated short made
  have length : peerId.hash.hash.length = key.data.length + 4 := by simp [hash]
  have first : (UInt8.ofNat (key.data.length + 4)).toNat = key.data.length + 4 := by
    rw [UInt8.toNat_ofNat']
    omega
  have nonzero : UInt8.ofNat (key.data.length + 4) ≠ 0 := by
    intro zero
    rw [zero] at first
    exact absurd first (by simp)
  obtain ⟨later, text, rest⟩ := encodeBase58_of_bounds nonzero positive small (by rwa [first, length])
    (by rwa [first, length])
  rw [toBase58, buffer, text]
  exact ⟨rfl, by rw [List.length_cons, List.length_cons, rest]⟩

theorem toBase58_ed25519 (type : key.type = .ed25519) (size : key.data.length = 32) (made : ofKey sha256 key = some peerId) :
    peerId.toBase58[1]? = some 0x32 ∧ peerId.toBase58.length = 52 := by
  obtain ⟨second, length⟩ := @toBase58_ofKey _ _ _ 1 1 50 (by rw [type]; rfl) (by decide) (by omega) made (by decide)
    (by decide) (by rw [size]; decide +kernel) (by rw [size]; decide)
  rw [pszBase58_eq] at second
  exact ⟨second, length⟩

theorem toBase58_secp256k1 (type : key.type = .secp256k1) (size : key.data.length = 33)
    (made : ofKey sha256 key = some peerId) :
    peerId.toBase58[1]? = some 0x36 ∧ peerId.toBase58.length = 53 := by
  obtain ⟨second, length⟩ := @toBase58_ofKey _ _ _ 2 5 51 (by rw [type]; rfl) (by decide) (by omega) made (by decide)
    (by decide) (by rw [size]; decide) (by rw [size]; decide)
  rw [pszBase58_eq] at second
  exact ⟨second, length⟩

/-- Which views the decoders of base 58, of base 64 and of multibase texts decode as what their characters mean; peer ids are
read from the former. -/
theorem views_read_iff (hex : HexTexts) (view : View UInt8) :
    (view.Reads decodeBase58View decodeCharacters ↔ Base58.Delimited view) ∧
      (view.Reads Base64.decodeBase64View Base64.decodeCharacters ↔ Base64.Delimited view) ∧
      (view.Reads (MultibaseCodec.decodeView hex) (MultibaseCodec.decodeCharacters hex) ↔
        MultibaseCodec.Delimited view) ∧
      (Base58.Delimited view → view.Reads fromBase58 fun text => fromDecoded (decodeCharacters text)) := by
  refine ⟨Base58.reads_iff view, Base64.reads_iff view, MultibaseCodec.reads_iff hex view, fun delimited => ?_⟩
  have read := (Base58.reads_iff view).mpr delimited
  rw [View.Reads] at read ⊢
  rw [fromBase58, read, Option.map_some]

/-- A text with a zero byte behind it is read as its characters. -/
theorem views_read_iff_string : (View.string 0 [0x32, 0x33]).Reads decodeBase58View decodeCharacters ∧
    (View.string 0 [0x32, 0x33]).Reads fromBase58 (fun text => fromDecoded (decodeCharacters text)) :=
  have delimited : Base58.Delimited (View.string 0 [0x32, 0x33]) := ⟨by decide +kernel, .inl ⟨by decide +kernel, by decide +kernel⟩⟩
  ⟨(views_read_iff MultibaseCodec.plainHex _).1.mpr delimited,
    (views_read_iff MultibaseCodec.plainHex _).2.2.2 delimited⟩

/-- Views with the same characters that are decoded differently, because of what follows them; and characters behind a zero
byte that are not taken into account. -/
theorem views_read_beyond :
    (∃ view other : View UInt8, view.contents = [0x32] ∧ other.contents = [0x32] ∧
      decodeBase58View view = some (.ok [1]) ∧ decodeBase58View other = some (.ok [60])) ∧
    (∃ view other : View UInt8, view.contents = List.replicate 4 0x41 ∧ other.contents = List.replicate 4 0x41 ∧
      Base64.decodeBase64View view = some (.ok [0, 0, 0]) ∧
      Base64.decodeBase64View other = some (.error .invalidBase64Input)) ∧
    ∃ view : View UInt8, view.contents = [0x32, 0, 0x21] ∧ decodeBase58View view = some (.ok [1]) :=
  ⟨⟨⟨[0x32, 0], 1, by decide⟩, ⟨[0x32, 0x33, 0], 1, by decide⟩, rfl, rfl, by decide, by decide⟩,
    ⟨⟨List.replicate 4 0x41 ++ [0], 4, by decide⟩, ⟨List.replicate 4 0x41 ++ [0x21, 0], 4, by decide⟩, rfl, rfl,
      by decide, by decide⟩,
    ⟨⟨[0x32, 0, 0x21, 0], 3, by decide⟩, rfl, by decide⟩⟩

end Libp2p.PeerId
