import Libp2p.Library.Search
import Libp2p.Multi.Components

/-! # Multiaddresses

An address keeps its text beside its bytes. It is made from either of them; a text is parsed and printed again, and the
assertion that the printer succeeds is the only place where making an address can stop the process.
-/

namespace Libp2p.Multi

open Protocol Converters Library

structure Multiaddress where
  stringifiedAddress : Bytes
  bytes : Bytes
deriving DecidableEq

namespace Multiaddress

inductive Error where
  | invalidInput
  | invalidProtocolValue
  | protocolNotFound
deriving DecidableEq, Repr

section Create

variable (ip : IpTexts)

/-- `create` of a text; nothing is returned when the assertion fails. -/
def createFromString (address : Bytes) : Option (Result Multiaddress) :=
  match multiaddrToBytes ip address with
  | .error error => some (.error error)
  | .ok bytes =>
    match bytesToMultiaddrString ip bytes with
    | .error _ => none
    | .ok str => some (.ok ⟨str, bytes⟩)

/-- `create` of bytes. -/
def createFromBytes (bytes : Bytes) : Except Error Multiaddress :=
  match bytesToMultiaddrString ip bytes with
  | .error _ => .error .invalidInput
  | .ok s => .ok ⟨s, bytes⟩

end Create

section Capsules

def encapsulate (self address : Multiaddress) : Multiaddress :=
  ⟨self.stringifiedAddress ++ address.stringifiedAddress, self.bytes ++ address.bytes⟩

/-- `decapsulateStringFromAddress`: the text is cut at the last place of the given text, and the bytes at the last place
of the given bytes or not at all. -/
def decapsulateStringFromAddress (self : Multiaddress) (proto bytes : Bytes) : Multiaddress × Bool :=
  match findLast proto self.stringifiedAddress with
  | none => (self, false)
  | some strPos =>
    let bytesPos := (findLast bytes self.bytes).getD self.bytes.length
    (⟨self.stringifiedAddress.take strPos, self.bytes.take bytesPos⟩, true)

def decapsulate (self address : Multiaddress) : Multiaddress × Bool :=
  self.decapsulateStringFromAddress address.stringifiedAddress address.bytes

/-- The text that `decapsulate` makes of a protocol and a value. -/
def protoStr (p : Protocol) (address : Bytes) : Bytes :=
  0x2f :: p.name ++ if address ≠ [] then 0x2f :: address else []

/-- `decapsulate` of a protocol with a value. -/
def decapsulateProtocol (ip : IpTexts) (self : Multiaddress) (proto : Code) (address : Bytes) : Multiaddress × Bool :=
  match ProtocolList.getByCode proto.number with
  | none => (self, false)
  | some p =>
    match multiaddrToBytes ip (protoStr p address) with
    | .error _ => (self, false)
    | .ok protoBytes => self.decapsulateStringFromAddress (protoStr p address) protoBytes

end Capsules

section Comparison

/-- Addresses are ordered by their texts. -/
instance : LT Multiaddress := ⟨fun left right => left.stringifiedAddress < right.stringifiedAddress⟩

/-- The hash of an address is that of its text. -/
def hash (stringHash : Bytes → ℕ) (address : Multiaddress) : ℕ := stringHash address.stringifiedAddress

end Comparison

end Multiaddress

end Libp2p.Multi
