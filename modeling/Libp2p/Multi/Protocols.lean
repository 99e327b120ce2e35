import Libp2p.Multi.Base58

/-! # Protocols of a multiaddress

The table of known protocols: their codes, the sizes of their values in bits and their names. A size of zero means that
the protocol has no value.
-/

namespace Libp2p.Multi

namespace Protocol

/-- Denotes that the size of the value is variable. -/
def kVarLen : ℤ := -1

inductive Code where
  | ip4
  | tcp
  | udp
  | dccp
  | ip6
  | ip6Zone
  | dns
  | dns4
  | dns6
  | dnsAddr
  | sctp
  | udt
  | utp
  | unix
  | p2p
  | onion
  | onion3
  | garlic64
  | quic
  | quicV1
  | http
  | https
  | ws
  | wss
  | p2pWebsocketStar
  | p2pStardust
  | p2pWebrtcStar
  | p2pWebrtcDirect
  | p2pCircuit
  | xParityWs
  | xParityWss
  | dummyProto1
  | dummyProto2
  | dummyProto3
  | dummyProto4
deriving DecidableEq, Repr

/-- The number of a code. -/
def Code.number : Code → ℕ
  | .ip4 => 4
  | .tcp => 6
  | .udp => 273
  | .dccp => 33
  | .ip6 => 41
  | .ip6Zone => 42
  | .dns => 53
  | .dns4 => 54
  | .dns6 => 55
  | .dnsAddr => 56
  | .sctp => 132
  | .udt => 301
  | .utp => 302
  | .unix => 400
  | .p2p => 421
  | .onion => 444
  | .onion3 => 445
  | .garlic64 => 446
  | .quic => 460
  | .quicV1 => 461
  | .http => 480
  | .https => 443
  | .ws => 477
  | .wss => 478
  | .p2pWebsocketStar => 479
  | .p2pStardust => 277
  | .p2pWebrtcStar => 275
  | .p2pWebrtcDirect => 276
  | .p2pCircuit => 290
  | .xParityWs => 4770
  | .xParityWss => 4780
  | .dummyProto1 => 0x3DEAD1
  | .dummyProto2 => 0x3DEAD2
  | .dummyProto3 => 0x3DEAD3
  | .dummyProto4 => 0x3DEAD4

end Protocol

open Protocol

structure Protocol where
  code : Code
  size : ℤ
  name : Bytes
deriving DecidableEq

namespace ProtocolList

def protocols : List Protocol := [
  ⟨.ip4, 32, ascii "ip4"⟩,
  ⟨.tcp, 16, ascii "tcp"⟩,
  ⟨.udp, 16, ascii "udp"⟩,
  ⟨.dccp, 16, ascii "dccp"⟩,
  ⟨.ip6, 128, ascii "ip6"⟩,
  ⟨.ip6Zone, kVarLen, ascii "ip6zone"⟩,
  ⟨.dns, kVarLen, ascii "dns"⟩,
  ⟨.dns4, kVarLen, ascii "dns4"⟩,
  ⟨.dns6, kVarLen, ascii "dns6"⟩,
  ⟨.dnsAddr, kVarLen, ascii "dnsaddr"⟩,
  ⟨.sctp, 16, ascii "sctp"⟩,
  ⟨.udt, 0, ascii "udt"⟩,
  ⟨.utp, 0, ascii "utp"⟩,
  ⟨.unix, kVarLen, ascii "unix"⟩,
  ⟨.p2p, kVarLen, ascii "p2p"⟩,
  ⟨.onion, 96, ascii "onion"⟩,
  ⟨.onion3, 296, ascii "onion3"⟩,
  ⟨.garlic64, kVarLen, ascii "garlic64"⟩,
  ⟨.quic, 0, ascii "quic"⟩,
  ⟨.quicV1, 0, ascii "quic-v1"⟩,
  ⟨.http, 0, ascii "http"⟩,
  ⟨.https, 0, ascii "https"⟩,
  ⟨.ws, 0, ascii "ws"⟩,
  ⟨.wss, 0, ascii "wss"⟩,
  ⟨.p2pWebsocketStar, 0, ascii "p2p-websocket-star"⟩,
  ⟨.p2pStardust, 0, ascii "p2p-stardust"⟩,
  ⟨.p2pWebrtcStar, 0, ascii "p2p-webrtc-star"⟩,
  ⟨.p2pWebrtcDirect, 0, ascii "p2p-webrtc-direct"⟩,
  ⟨.p2pCircuit, 0, ascii "p2p-circuit"⟩,
  ⟨.xParityWs, kVarLen, ascii "x-parity-ws"⟩,
  ⟨.xParityWss, kVarLen, ascii "x-parity-wss"⟩,
  ⟨.dummyProto1, 0, ascii "_dummy_proto_1"⟩,
  ⟨.dummyProto2, 0, ascii "_dummy_proto_2"⟩,
  ⟨.dummyProto3, kVarLen, ascii "_dummy_proto_3"⟩,
  ⟨.dummyProto4, kVarLen, ascii "_dummy_proto_4"⟩]

/-- `get` by name; `ipfs` is the legacy name of `p2p`. -/
def getByName (name : Bytes) : Option Protocol :=
  let name := if name = ascii "ipfs" then ascii "p2p" else name
  protocols.find? fun protocol => protocol.name = name

/-- `get` by code; any number may be cast to a code. -/
def getByCode (number : ℕ) : Option Protocol := protocols.find? fun protocol => protocol.code.number = number

/-- The list, checked entry by entry: names and codes identify protocols, codes fit into 64 bits, a name is not empty, has
no slash and no zero byte, and does not start with the legacy one. -/
theorem protocols_checked : ∀ protocol ∈ protocols, getByName protocol.name = some protocol ∧
    getByCode protocol.code.number = some protocol ∧ protocol.code.number < 2 ^ 64 ∧
    (protocol.name ≠ [] ∧ 0x2f ∉ protocol.name) ∧ 0 ∉ protocol.name ∧ ¬ ascii "ipfs" <+: protocol.name := by
  decide +kernel

theorem getByName_name (protocol : Protocol) (known : protocol ∈ protocols) : getByName protocol.name = some protocol :=
  (protocols_checked protocol known).1

theorem getByCode_number (protocol : Protocol) (known : protocol ∈ protocols) :
    getByCode protocol.code.number = some protocol :=
  (protocols_checked protocol known).2.1

theorem number_lt (protocol : Protocol) (known : protocol ∈ protocols) : protocol.code.number < 2 ^ 64 :=
  (protocols_checked protocol known).2.2.1

theorem name_plain (protocol : Protocol) (known : protocol ∈ protocols) : protocol.name ≠ [] ∧ 0x2f ∉ protocol.name :=
  (protocols_checked protocol known).2.2.2.1

theorem name_nonzero (protocol : Protocol) (known : protocol ∈ protocols) : 0 ∉ protocol.name :=
  (protocols_checked protocol known).2.2.2.2.1

theorem name_newer (protocol : Protocol) (known : protocol ∈ protocols) : ¬ ascii "ipfs" <+: protocol.name :=
  (protocols_checked protocol known).2.2.2.2.2

/-- Every code is that of a protocol. -/
theorem getByCode_code (code : Code) : (getByCode code.number).map Protocol.code = some code := by
  cases code <;> rfl

/-- The name of a protocol without a value does not end with another such name. -/
theorem eq_of_suffix : ∀ first ∈ protocols, ∀ second ∈ protocols, first.size = 0 → second.size = 0 →
    first.name <:+ second.name → first = second := by decide

theorem mem_of_getByName {name : Bytes} {protocol : Protocol} (found : getByName name = some protocol) :
    protocol ∈ protocols := by
  unfold getByName at found
  exact List.mem_of_find?_eq_some found

theorem mem_of_getByCode {number : ℕ} {protocol : Protocol} (found : getByCode number = some protocol) :
    protocol ∈ protocols ∧ protocol.code.number = number :=
  ⟨List.mem_of_find?_eq_some found, by simpa using List.find?_some found⟩

end ProtocolList

end Libp2p.Multi
