import Libp2p.Multi.Values
import Libp2p.Peer.Texts
import Libp2p.Protocol.Gossip.Config

/-! # Default message ids

The default id of a message is the text of its author's peer id followed by the decimal sequence number. Nothing stands
between them, and decimal digits are base 58 digits, but the texts of authors are a prefix code.
-/

namespace Libp2p.Gossip

open Library Multi Converters

/-- Stands for the author of a message without one: `PeerId::fromBytes(Bytes{0, 1, 0})`. -/
def emptyFrom : PeerId := ⟨⟨HashType.identity, [0], by decide⟩⟩

theorem fromBytes_emptyFrom : PeerId.fromBytes [0, 1, 0] = .ok emptyFrom := by decide

def defaultMessageIdFn (message : Message) : MessageId :=
  (message.from_.getD emptyFrom).toBase58 ++ toDecimal 20 (message.seqno.getD 0).toNat

/-- The author of a message, if there is one, is the id of an Ed25519 or a Secp256k1 key. -/
def Authored (sha256 : Bytes → Hash256) (author : Option PeerId) : Prop :=
  ∀ peerId ∈ author, ∃ key : PublicKey, PeerId.ofKey sha256 key = some peerId ∧
    (key.type = .ed25519 ∧ key.data.length = 32 ∨ key.type = .secp256k1 ∧ key.data.length = 33)

variable {sha256 : Bytes → Hash256} {author other : Option PeerId} {first second : Message}

/-- The length of an author's text, told by its second character. -/
def textLength (letter : UInt8) : ℕ := if letter = 0x35 then 3 else if letter = 0x32 then 52 else 53

/-- The texts of authors. -/
def authorTexts (sha256 : Bytes → Hash256) : Set Bytes :=
  { text | ∃ author, Authored sha256 author ∧ text = (author.getD emptyFrom).toBase58 }

theorem toBase58_emptyFrom : emptyFrom.toBase58 = [0x31, 0x35, 0x52] := by
  rw [PeerId.toBase58, Base58.encodeBase58, Base58.pszBase58_eq]
  decide

/-- The digest of an author is not empty, and only a message without author has the shortest text. -/
theorem Authored.text (authored : Authored sha256 author) : (author.getD emptyFrom).hash.hash ≠ [] ∧
    ((author.getD emptyFrom).toBase58.length = 3 ↔ author = none) ∧
      ∃ letter, (author.getD emptyFrom).toBase58[1]? = some letter ∧
        (author.getD emptyFrom).toBase58.length = textLength letter := by
  cases author with
  | none =>
    rw [Option.getD_none, toBase58_emptyFrom]
    exact ⟨List.cons_ne_nil _ _, by simp, 0x35, rfl, rfl⟩
  | some peerId =>
    obtain ⟨key, made, ⟨type, size⟩ | ⟨type, size⟩⟩ := authored peerId rfl
    · obtain ⟨letter, length⟩ := PeerId.toBase58_ed25519 type size made
      obtain ⟨hash, -⟩ := PeerId.toBuffer_ofKey (by rw [type]; rfl) (by decide : 1 < 4) (by omega) made
      exact ⟨by simp [hash], by simp [length], 0x32, letter, length⟩
    · obtain ⟨letter, length⟩ := PeerId.toBase58_secp256k1 type size made
      obtain ⟨hash, -⟩ := PeerId.toBuffer_ofKey (by rw [type]; rfl) (by decide : 2 < 4) (by omega) made
      exact ⟨by simp [hash], by simp [length], 0x36, letter, length⟩

theorem prefixCode_authorTexts : PrefixCode (authorTexts sha256) := by
  refine prefixCode_of_letter 1 textLength ?_
  rintro _ ⟨author, authored, rfl⟩
  exact authored.text.2.2

/-- Different authors have different texts. -/
theorem toBase58_getD_inj (authored : Authored sha256 author) (authored' : Authored sha256 other) :
    (author.getD emptyFrom).toBase58 = (other.getD emptyFrom).toBase58 ↔ author = other := by
  constructor
  · intro same
    obtain ⟨nonempty, absent, -⟩ := authored.text
    obtain ⟨nonempty', absent', -⟩ := authored'.text
    have both : author = none ↔ other = none := by rw [← absent, ← absent', same]
    have peers := (PeerId.toBase58_inj nonempty nonempty').mp same
    cases author with
    | none => exact (both.mp rfl).symm
    | some peerId =>
      cases other with
      | none => exact both.mpr rfl
      | some peerId' => exact congrArg some peers
  · rintro rfl
    rfl

theorem toDecimal_inj {seqno seqno' : Seqno} :
    toDecimal 20 seqno.toNat = toDecimal 20 seqno'.toNat ↔ seqno = seqno' := by
  constructor
  · intro same
    have read : ∀ seqno : Seqno, stoi (toDecimal 20 seqno.toNat) = seqno.toNat := fun seqno =>
      (toDecimal_spec (seqno.toNat_lt.trans (by decide)) (by decide)).1
    exact UInt64.toNat_inj.mp (by rw [← read seqno, same, read])
  · rintro rfl
    rfl

/-- Messages have the same default id exactly when they have the same author and the same sequence number. -/
theorem defaultMessageIdFn_inj (authored : Authored sha256 first.from_) (authored' : Authored sha256 second.from_) :
    defaultMessageIdFn first = defaultMessageIdFn second ↔
      first.from_ = second.from_ ∧ first.seqno.getD 0 = second.seqno.getD 0 := by
  unfold defaultMessageIdFn
  rw [prefixCode_authorTexts.append_inj ⟨_, authored, rfl⟩ ⟨_, authored', rfl⟩, toBase58_getD_inj authored authored',
    toDecimal_inj]

/-- A number that is absent counts as zero, and another author makes another id. -/
theorem defaultMessageIdFn_inj_inline :
    defaultMessageIdFn { from_ := some ⟨⟨HashType.identity, PeerId.inlineKey, by decide⟩⟩, seqno := some 0 } =
        defaultMessageIdFn { from_ := some ⟨⟨HashType.identity, PeerId.inlineKey, by decide⟩⟩ } ∧
      defaultMessageIdFn { from_ := some ⟨⟨HashType.identity, PeerId.inlineKey, by decide⟩⟩, seqno := some 0 } ≠
        defaultMessageIdFn {} :=
  have authored : Authored (fun _ => Vector.replicate 32 0)
      (some ⟨⟨HashType.identity, PeerId.inlineKey, by decide⟩⟩) := by
    rintro _ ⟨⟩
    exact ⟨⟨.ed25519, List.replicate 32 0x07⟩, by decide, .inl ⟨rfl, rfl⟩⟩
  have anonymous : Authored (fun _ => Vector.replicate 32 0) none := by rintro _ ⟨⟩
  ⟨(defaultMessageIdFn_inj authored authored).mpr ⟨rfl, rfl⟩, fun same =>
    absurd ((defaultMessageIdFn_inj authored anonymous).mp same).1 (by simp)⟩

end Libp2p.Gossip
