import Libp2p.Multi.Accessors
import Libp2p.Multi.PlainTexts
import Libp2p.Multi.Splitting

/-! # Endpoints of addresses

A transport reads a host and a port off the protocols of an address and their values. For QUIC the port is a UDP port and
`quic-v1` stands behind it; what comes after that is not looked at. An endpoint is written the same way.
-/

namespace Libp2p.Transport.Detail

open Multi Protocol Converters Library

inductive Errc where
  | protocolNotSupported
  | invalidArgument
  | resultOutOfRange
deriving DecidableEq, Repr

/-- An address without a scope. -/
inductive IpAddress where
  | v4 (bytes : Bytes) (size : bytes.length = 4)
  | v6 (bytes : Bytes) (size : bytes.length = 16)
deriving DecidableEq

structure Endpoint where
  address : IpAddress
  port : UInt16
deriving DecidableEq

structure Dns where
  v4 : Option Bool
  name : Bytes
deriving DecidableEq, Repr

inductive IpOrDns where
  | ip (address : IpAddress)
  | dns (dns : Dns)
deriving DecidableEq

structure TcpOrUdp where
  ip : IpOrDns
  port : UInt16
  udp : Bool
deriving DecidableEq

/-- `TcpOrUdp::as`; names are not resolved here. -/
def TcpOrUdp.asEndpoint (udp : Bool) (info : TcpOrUdp) : Except Errc Endpoint :=
  match info.ip with
  | .ip address => if info.udp ≠ udp then .error .protocolNotSupported else .ok ⟨address, info.port⟩
  | .dns _ => .error .protocolNotSupported

def TcpOrUdp.asUdp (info : TcpOrUdp) : Except Errc Endpoint := info.asEndpoint true

/-- `std::from_chars` of a port: what stands behind the digits is left. -/
def fromChars (v : Bytes) : Except Errc UInt16 :=
  if v.takeWhile isDigit = [] then .error .invalidArgument
  else if 65535 < stoi (v.takeWhile isDigit) then .error .resultOutOfRange
  else .ok (UInt16.ofNat (stoi (v.takeWhile isDigit)))

section Reading

variable (ip : IpTexts)

def makeAddressV4 (v : Bytes) : Except Errc IpAddress :=
  match made : ip.makeAddressV4 v with
  | none => .error .invalidArgument
  | some bytes => .ok (.v4 bytes (ip.length_v4 v bytes made))

def makeAddressV6 (v : Bytes) : Except Errc IpAddress :=
  match made : ip.makeAddressV6 v with
  | none => .error .invalidArgument
  | some bytes => .ok (.v6 bytes (ip.length_v6 v bytes made))

/-- The host in front, and what comes after it. -/
def readIpOrDns : List (Protocol × Bytes) → Except Errc (IpOrDns × List (Protocol × Bytes))
  | [] => .error .protocolNotSupported
  | (p, v) :: it =>
    match p.code with
    | .ip4 => (makeAddressV4 ip v).map fun address => (.ip address, it)
    | .ip6 => (makeAddressV6 ip v).map fun address => (.ip address, it)
    | .dns => .ok (.dns ⟨none, v⟩, it)
    | .dns4 => .ok (.dns ⟨some true, v⟩, it)
    | .dns6 => .ok (.dns ⟨some false, v⟩, it)
    | _ => .error .protocolNotSupported

def readPort : List (Protocol × Bytes) → Except Errc ((UInt16 × Bool) × List (Protocol × Bytes))
  | [] => .error .protocolNotSupported
  | (p, v) :: it =>
    match p.code with
    | .tcp => (fromChars v).map fun port => ((port, false), it)
    | .udp => (fromChars v).map fun port => ((port, true), it)
    | _ => .error .protocolNotSupported

def readTcpOrUdp (pvs : List (Protocol × Bytes)) : Except Errc (TcpOrUdp × List (Protocol × Bytes)) :=
  match readIpOrDns ip pvs with
  | .error error => .error error
  | .ok (host, it) => (readPort it).map fun read => (⟨host, read.1.1, read.1.2⟩, read.2)

/-- Absent when the protocols of the address are read outside it. -/
def asQuic (ma : Multiaddress) : Option (Except Errc TcpOrUdp) :=
  ma.getProtocolsWithValues.map fun v =>
    match readTcpOrUdp ip v with
    | .error error => .error error
    | .ok (addr, it) =>
      if ¬ addr.udp then .error .protocolNotSupported
      else
        match it with
        | [] => .error .protocolNotSupported
        | (p, _) :: _ => if p.code ≠ .quicV1 then .error .protocolNotSupported else .ok addr

/-- `QuicTransport::canDial` and `QuicListener::canListen`. -/
def canDial (ma : Multiaddress) : Option Bool := (asQuic ip ma).map Except.isOk

end Reading

section Writing

variable (ip : IpTexts)

def IpAddress.toString : IpAddress → Bytes
  | .v4 bytes _ => ip.toStringV4 bytes
  | .v6 bytes _ => ip.toStringV6 bytes

def IpAddress.name : IpAddress → Bytes
  | .v4 _ _ => ascii "ip4"
  | .v6 _ _ => ascii "ip6"

/-- `toMultiaddr` of a UDP endpoint. -/
def toMultiaddr (endpoint : Endpoint) : Bytes :=
  joined 0x2f [endpoint.address.name, endpoint.address.toString ip, ascii "udp", toDecimal 5 endpoint.port.toNat]

def makeQuicAddr (endpoint : Endpoint) : Option (Result Multiaddress) :=
  Multiaddress.createFromString ip (toMultiaddr ip endpoint ++ ascii "/quic-v1")

end Writing

variable {ip : IpTexts} {cs : List Component} {component : Component} {payload v : Bytes}
  {it rest : List (Protocol × Bytes)} {p : Protocol}

section Values

theorem map_eq_ok {α β : Type} {made : Except Errc α} {f : α → β} {result : β} :
    made.map f = .ok result ↔ ∃ value, made = .ok value ∧ f value = result := by
  rcases made with error | value
  · simp [Except.map]
  · simp [Except.map]

theorem fromChars_toDecimal {value : ℕ} (small : value < 65536) :
    fromChars (toDecimal 5 value) = .ok (UInt16.ofNat value) := by
  obtain ⟨number, digits, some_⟩ := @toDecimal_spec 5 value (by omega) (by decide)
  have whole : (toDecimal 5 value).takeWhile isDigit = toDecimal 5 value :=
    List.takeWhile_eq_self_iff.mpr (List.all_eq_true.mp digits)
  unfold fromChars
  rw [whole, if_neg some_, number, if_neg (by omega)]

theorem makeAddressV4_toString (size : payload.length = 4) :
    makeAddressV4 ip (ip.toStringV4 payload) = .ok (.v4 payload size) := by
  have back := ip.inverse_v4 payload size
  unfold makeAddressV4
  split
  · next none => cases none.symm.trans back
  · next bytes made =>
    obtain rfl := Option.some.inj (made.symm.trans back)
    rfl

theorem makeAddressV6_toString (size : payload.length = 16) :
    makeAddressV6 ip (ip.toStringV6 payload) = .ok (.v6 payload size) := by
  have back := ip.inverse_v6 payload size
  unfold makeAddressV6
  split
  · next none => cases none.symm.trans back
  · next bytes made =>
    obtain rfl := Option.some.inj (made.symm.trans back)
    rfl

end Values

/-- The protocols of hosts that can be dialled. -/
def IsHost (code : Code) : Prop := code ∈ [Code.ip4, .ip6, .dns, .dns4, .dns6]

instance : DecidablePred IsHost := fun code => inferInstanceAs (Decidable (code ∈ _))

section Components

/-- The value of a host that bytes can hold is read. -/
theorem readIpOrDns_component (valid : component.Valid) (host : IsHost component.protocol.code) :
    ∃ info, readIpOrDns ip ((component.protocol, component.value ip) :: it) = .ok (info, it) := by
  have fits := valid.fits
  unfold readIpOrDns Component.value
  dsimp only
  simp only [IsHost, List.mem_cons, List.not_mem_nil, or_false] at host
  rcases host with code | code | code | code | code <;> rw [code] at fits ⊢
  · exact ⟨.ip (.v4 component.payload fits), congrArg (Except.map _) (makeAddressV4_toString fits)⟩
  · exact ⟨.ip (.v6 component.payload fits), congrArg (Except.map _) (makeAddressV6_toString fits)⟩
  · exact ⟨_, rfl⟩
  · exact ⟨_, rfl⟩
  · exact ⟨_, rfl⟩

theorem readIpOrDns_eq_ok {info : IpOrDns} (read : readIpOrDns ip ((p, v) :: it) = .ok (info, rest)) :
    IsHost p.code ∧ rest = it := by
  unfold readIpOrDns at read
  dsimp only at read
  split at read
  · next code =>
    obtain ⟨address, -, same⟩ := map_eq_ok.mp read
    exact ⟨by simp [IsHost, code], (Prod.mk.inj same).2.symm⟩
  · next code =>
    obtain ⟨address, -, same⟩ := map_eq_ok.mp read
    exact ⟨by simp [IsHost, code], (Prod.mk.inj same).2.symm⟩
  · next code => exact ⟨by simp [IsHost, code], (Prod.mk.inj (Except.ok.inj read)).2.symm⟩
  · next code => exact ⟨by simp [IsHost, code], (Prod.mk.inj (Except.ok.inj read)).2.symm⟩
  · next code => exact ⟨by simp [IsHost, code], (Prod.mk.inj (Except.ok.inj read)).2.symm⟩
  · cases read

theorem readPort_component (valid : component.Valid) (udp : component.protocol.code = .udp) :
    readPort ((component.protocol, component.value ip) :: it) =
      .ok ((UInt16.ofNat (loadBigU16 component.payload), true), it) := by
  have fits := valid.fits
  unfold readPort Component.value
  dsimp only
  rw [udp] at fits ⊢
  exact congrArg (Except.map _) (fromChars_toDecimal (putUint16BE_loadBigU16 fits).2)

theorem readPort_udp {port : UInt16} (read : readPort ((p, v) :: it) = .ok ((port, true), rest)) :
    p.code = .udp ∧ rest = it := by
  unfold readPort at read
  dsimp only at read
  split at read
  · obtain ⟨value, -, same⟩ := map_eq_ok.mp read
    cases same
  · next code =>
    obtain ⟨value, -, same⟩ := map_eq_ok.mp read
    exact ⟨code, (Prod.mk.inj same).2.symm⟩
  · cases read

theorem readTcpOrUdp_eq_ok {pvs : List (Protocol × Bytes)} {info : TcpOrUdp} :
    readTcpOrUdp ip pvs = .ok (info, rest) ↔
      ∃ it, readIpOrDns ip pvs = .ok (info.ip, it) ∧ readPort it = .ok ((info.port, info.udp), rest) := by
  unfold readTcpOrUdp
  rcases readIpOrDns ip pvs with error | ⟨host, it⟩
  · simp
  dsimp only
  rw [map_eq_ok]
  constructor
  · rintro ⟨⟨⟨port, udp⟩, left⟩, read, same⟩
    obtain ⟨rfl, rfl⟩ := Prod.mk.inj same
    exact ⟨it, rfl, read⟩
  · rintro ⟨left, same, read⟩
    obtain ⟨rfl, rfl⟩ := Prod.mk.inj (Except.ok.inj same)
    exact ⟨_, read, rfl⟩

theorem asQuic_eq_ok {ma : Multiaddress} {pvs : List (Protocol × Bytes)} {info : TcpOrUdp}
    (values : ma.getProtocolsWithValues = some pvs) : asQuic ip ma = some (.ok info) ↔
      info.udp = true ∧ ∃ p v rest, readTcpOrUdp ip pvs = .ok (info, (p, v) :: rest) ∧ p.code = .quicV1 := by
  unfold asQuic
  rw [values, Option.map_some, Option.some.injEq]
  rcases readTcpOrUdp ip pvs with error | ⟨addr, it⟩
  · simp
  dsimp only
  cases udp : addr.udp
  · rw [if_pos Bool.false_ne_true]
    refine iff_of_false (by simp) ?_
    rintro ⟨other, p, v, rest, same, -⟩
    obtain ⟨rfl, -⟩ := Prod.mk.inj (Except.ok.inj same)
    exact Bool.false_ne_true (udp.symm.trans other)
  rw [if_neg (not_not_intro rfl)]
  rcases it with _ | ⟨⟨p, v⟩, rest⟩
  · simp
  dsimp only
  constructor
  · intro found
    split_ifs at found with quic
    obtain rfl := Except.ok.inj found
    exact ⟨udp, p, v, rest, rfl, not_not.mp quic⟩
  · rintro ⟨-, quic, value, more, same, isQuic⟩
    obtain ⟨rfl, left⟩ := Prod.mk.inj (Except.ok.inj same)
    obtain ⟨first, -⟩ := List.cons.inj left
    obtain ⟨rfl, -⟩ := Prod.mk.inj first
    rw [if_neg (not_not_intro isQuic)]

end Components

section Endpoints

def IpAddress.asComponent : IpAddress → Component
  | .v4 bytes _ => ⟨⟨.ip4, 32, ascii "ip4"⟩, bytes⟩
  | .v6 bytes _ => ⟨⟨.ip6, 128, ascii "ip6"⟩, bytes⟩

/-- The components of an endpoint's address. -/
def Endpoint.components (endpoint : Endpoint) : List Component :=
  [endpoint.address.asComponent, ⟨⟨.udp, 16, ascii "udp"⟩, putUint16BE endpoint.port.toNat⟩,
    ⟨⟨.quicV1, 0, ascii "quic-v1"⟩, []⟩]

theorem loadBigU16_putUint16BE {value : ℕ} (small : value < 65536) : loadBigU16 (putUint16BE value) = value := by
  change (UInt8.ofNat (value / 256)).toNat * 256 + (UInt8.ofNat (value % 256)).toNat = value
  rw [UInt8.toNat_ofNat', UInt8.toNat_ofNat']
  omega

/-- The characters of addresses and ports do not make a name. -/
theorem getByName_eq_none {word : Bytes} (plain : ∀ c ∈ word, c ∈ ascii "0123456789abcdef:.") :
    ProtocolList.getByName word = none := by
  have strange : ∀ p ∈ ProtocolList.protocols, ¬ ∀ c ∈ p.name, c ∈ ascii "0123456789abcdef:." := by
    decide +kernel
  rcases found : ProtocolList.getByName word with _ | p
  · rfl
  have newer : word ≠ ascii "ipfs" := by
    rintro rfl
    exact absurd (plain 0x73 (by decide)) (by decide)
  have named : p.name = word := by simpa [ProtocolList.getByName, newer] using List.find?_some found
  exact absurd (named ▸ plain) (strange p (ProtocolList.mem_of_getByName found))

theorem digit_plain {c : UInt8} (digit : isDigit c = true) : c ∈ ascii "0123456789abcdef:." := by
  have all : ∀ n < 256, isDigit (UInt8.ofNat n) = true → UInt8.ofNat n ∈ ascii "0123456789abcdef:." := by
    decide +kernel
  rw [← UInt8.ofNat_toNat (x := c)] at digit ⊢
  exact all c.toNat c.toNat_lt digit

theorem IpAddress.asComponent_spec (ip : IpTexts) (address : IpAddress) : address.asComponent.Printable ∧
    address.asComponent.Full ∧ address.asComponent.words ip = [address.name, address.toString ip] ∧
    ProtocolList.getByName (address.asComponent.value ip) = none ∧ ∀ it, readIpOrDns ip
      ((address.asComponent.protocol, address.asComponent.value ip) :: it) = .ok (.ip address, it) := by
  cases address with
  | v4 bytes size =>
    have known : (⟨.ip4, 32, ascii "ip4"⟩ : Protocol) ∈ ProtocolList.protocols := by decide
    have some_ : bytes ≠ [] := by rintro rfl; cases size
    have wider : ∀ c ∈ ascii "0123456789.", c ∈ ascii "0123456789abcdef:." := by decide +kernel
    exact ⟨⟨⟨known, size⟩, rfl⟩, fun _ => some_, rfl,
      getByName_eq_none fun c member => wider c ((ip.plain_v4 bytes size).2 c member),
      fun it => congrArg (Except.map _) (makeAddressV4_toString size)⟩
  | v6 bytes size =>
    have known : (⟨.ip6, 128, ascii "ip6"⟩ : Protocol) ∈ ProtocolList.protocols := by decide
    have some_ : bytes ≠ [] := by rintro rfl; cases size
    exact ⟨⟨⟨known, size⟩, rfl⟩, fun _ => some_, rfl, getByName_eq_none (ip.plain_v6 bytes size).2,
      fun it => congrArg (Except.map _) (makeAddressV6_toString size)⟩

theorem Endpoint.port_spec (ip : IpTexts) (endpoint : Endpoint) :
    valueText ip .udp (putUint16BE endpoint.port.toNat) = toDecimal 5 endpoint.port.toNat ∧
      ProtocolList.getByName (toDecimal 5 endpoint.port.toNat) = none := by
  have small : endpoint.port.toNat < 65536 := endpoint.port.toNat_lt
  obtain ⟨-, digits, -⟩ := @toDecimal_spec 5 endpoint.port.toNat (by omega) (by decide)
  exact ⟨congrArg (toDecimal 5) (loadBigU16_putUint16BE small),
    getByName_eq_none fun c member => digit_plain (List.all_eq_true.mp digits c member)⟩

/-- The components can be written, no value is empty, and none is a name. -/
theorem Endpoint.components_spec (ip : IpTexts) (endpoint : Endpoint) :
    (∀ component ∈ endpoint.components, component.Printable) ∧ (∀ component ∈ endpoint.components, component.Full) ∧
      ∀ component ∈ endpoint.components, component.protocol.size ≠ 0 →
        ProtocolList.getByName (component.value ip) = none := by
  obtain ⟨shown, full, -, unnamed, -⟩ := endpoint.address.asComponent_spec ip
  obtain ⟨written, unnamed_⟩ := endpoint.port_spec ip
  have known : (⟨.udp, 16, ascii "udp"⟩ : Protocol) ∈ ProtocolList.protocols := by decide
  have known_ : (⟨.quicV1, 0, ascii "quic-v1"⟩ : Protocol) ∈ ProtocolList.protocols := by decide
  simp only [Endpoint.components, List.forall_mem_cons, List.not_mem_nil, false_implies, implies_true, and_true]
  refine ⟨⟨shown, ⟨⟨known, rfl⟩, rfl⟩, ⟨⟨known_, rfl⟩, rfl⟩⟩,
    ⟨full, fun _ => List.cons_ne_nil _ _, fun valued => absurd rfl valued⟩,
    ⟨fun _ => unnamed, fun _ => ?_, fun valued => absurd rfl valued⟩⟩
  rw [Component.value, written]
  exact unnamed_

end Endpoints

section Addresses

theorem canDial_eq_some_true {ma : Multiaddress} : canDial ip ma = some true ↔ ∃ info, asQuic ip ma = some (.ok info) := by
  unfold canDial
  rcases asQuic ip ma with _ | error | info
  · simp
  · simp [Except.isOk, Except.toBool]
  · simp [Except.isOk, Except.toBool]

/-- An address whose values are no names can be dialled exactly when it has a host, a UDP port and `quic-v1` in front. -/
theorem canDial_ofComponents (printable : ∀ component ∈ cs, component.Printable)
    (unnamed : ∀ component ∈ cs, component.protocol.size ≠ 0 → ProtocolList.getByName (component.value ip) = none) :
    canDial ip (Multiaddress.ofComponents ip cs) = some true ↔ ∃ host port quic rest,
      cs = host :: port :: quic :: rest ∧ IsHost host.protocol.code ∧ port.protocol.code = .udp ∧
        quic.protocol.code = .quicV1 := by
  have values := @Multiaddress.getProtocolsWithValues_eq ip (Multiaddress.ofComponents ip cs) cs printable rfl unnamed
  rw [canDial_eq_some_true]
  constructor
  · rintro ⟨info, asked⟩
    obtain ⟨udp, p, v, rest, read, isQuic⟩ := (asQuic_eq_ok values).mp asked
    obtain ⟨it, hostRead, portRead⟩ := readTcpOrUdp_eq_ok.mp read
    rcases cs with _ | ⟨host, _ | ⟨port, others⟩⟩
    · cases hostRead
    · obtain ⟨-, rfl⟩ := readIpOrDns_eq_ok hostRead
      cases portRead
    obtain ⟨isHost, rfl⟩ := readIpOrDns_eq_ok hostRead
    rw [udp] at portRead
    obtain ⟨isUdp, same⟩ := readPort_udp portRead
    rcases others with _ | ⟨quic, others⟩
    · cases same
    have first : p = quic.protocol := congrArg Prod.fst (List.cons.inj same).1
    exact ⟨host, port, quic, others, rfl, isHost, isUdp, first ▸ isQuic⟩
  · rintro ⟨host, port, quic, rest, rfl, isHost, isUdp, isQuic⟩
    obtain ⟨this, others⟩ := List.forall_mem_cons.mp printable
    obtain ⟨next, -⟩ := List.forall_mem_cons.mp others
    obtain ⟨info, hostRead⟩ := @readIpOrDns_component ip host
      ((port :: quic :: rest).map fun component => (component.protocol, component.value ip)) this.toValid isHost
    have portRead := @readPort_component ip port
      ((quic :: rest).map fun component => (component.protocol, component.value ip)) next.toValid isUdp
    exact ⟨⟨info, UInt16.ofNat (loadBigU16 port.payload), true⟩, (asQuic_eq_ok values).mpr
      ⟨rfl, _, _, _, readTcpOrUdp_eq_ok.mpr ⟨_, hostRead, portRead⟩, isQuic⟩⟩

def loopback : Endpoint := ⟨.v4 [127, 0, 0, 1] rfl, 4001⟩

theorem canDial_ofComponents_loopback :
    canDial plainTexts (Multiaddress.ofComponents plainTexts loopback.components) = some true := by
  obtain ⟨printable, -, silent⟩ := loopback.components_spec plainTexts
  exact (canDial_ofComponents printable silent).mpr ⟨_, _, _, [], rfl, by decide, rfl, rfl⟩

/-- The address of an endpoint is made, and the endpoint is read off it. -/
theorem asQuic_makeQuicAddr (ip : IpTexts) (endpoint : Endpoint) : ∃ address info,
    makeQuicAddr ip endpoint = some (.ok address) ∧ asQuic ip address = some (.ok info) ∧ info.asUdp = .ok endpoint := by
  obtain ⟨-, -, words, -, hostRead⟩ := endpoint.address.asComponent_spec ip
  obtain ⟨written, -⟩ := endpoint.port_spec ip
  obtain ⟨printable, filled, silent⟩ := endpoint.components_spec ip
  have small : endpoint.port.toNat < 65536 := endpoint.port.toNat_lt
  have text : endpoint.components.flatMap (Component.text ip) = toMultiaddr ip endpoint ++ ascii "/quic-v1" := by
    have spelled : endpoint.components.flatMap (Component.words ip) = [endpoint.address.name, endpoint.address.toString ip,
        ascii "udp", toDecimal 5 endpoint.port.toNat] ++ [ascii "quic-v1"] := by
      rw [Endpoint.components, List.flatMap_cons, words, ← written]
      rfl
    rw [flatMap_text, spelled, joined_append]
    rfl
  have made := (@Multiaddress.createFromString_text ip endpoint.components _ printable).mpr
    ⟨List.cons_ne_nil _ _, filled, rfl⟩
  have values := @Multiaddress.getProtocolsWithValues_eq ip (Multiaddress.ofComponents ip endpoint.components)
    endpoint.components printable rfl silent
  refine ⟨_, ⟨.ip endpoint.address, endpoint.port, true⟩, ?_, (asQuic_eq_ok values).mpr
    ⟨rfl, ⟨.quicV1, 0, ascii "quic-v1"⟩, [], [], readTcpOrUdp_eq_ok.mpr ⟨_, hostRead _, ?_⟩, rfl⟩, rfl⟩
  · rw [text] at made
    exact made
  · have port := fromChars_toDecimal small
    rw [UInt16.ofNat_toNat] at port
    rw [List.map_cons]
    unfold readPort Component.value
    dsimp only
    rw [written, port]
    rfl

end Addresses

end Libp2p.Transport.Detail
