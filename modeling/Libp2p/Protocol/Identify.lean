import Libp2p.Basic.Framing
import Libp2p.Crypto.Key
import Libp2p.Library.Duplex
import Libp2p.Multi.Accessors
import Libp2p.Network.ListenerManager
import Libp2p.Peer.ProtocolRepository
import Libp2p.Peer.UserAgentRepository
import Libp2p.Protocol.Gossip.RoundTrip

/-! # The identify protocol

The side that accepts the stream writes one message about itself and resets the stream. The side that opened it reads the
message, and only when every address in it is one, stores the protocols, the addresses and the user agent of the peer.
-/

namespace Libp2p.Identify

open Library WireFormat Multi Multiselect Gossip.Pb

/-- `identify.proto`. -/
structure Message where
  publicKey : Option Bytes := none
  listenAddrs : List Bytes := []
  protocols : List Bytes := []
  observedAddr : Option Bytes := none
  protocolVersion : Option Bytes := none
  agentVersion : Option Bytes := none
  signedPeerRecord : Option Bytes := none
deriving DecidableEq, Repr

namespace Message

def merge (message : Message) (field : Field) : Option Message :=
  match field.number, field.value with
  | 1, .bytes data => some { message with publicKey := some data }
  | 2, .bytes data => some { message with listenAddrs := message.listenAddrs ++ [data] }
  | 3, .bytes data => some { message with protocols := message.protocols ++ [data] }
  | 4, .bytes data => some { message with observedAddr := some data }
  | 5, .bytes data => some { message with protocolVersion := some data }
  | 6, .bytes data => some { message with agentVersion := some data }
  | 8, .bytes data => some { message with signedPeerRecord := some data }
  | _, _ => some message

def fields (message : Message) : List Field :=
  optional 1 message.publicKey ++ repeated 2 message.listenAddrs ++ repeated 3 message.protocols ++
    optional 4 message.observedAddr ++ optional 5 message.protocolVersion ++ optional 6 message.agentVersion ++
    optional 8 message.signedPeerRecord

def encode (message : Message) : Bytes := encodeFields message.fields

/-- No field is required. -/
def decode (input : Bytes) : Option Message := parseInto recursionLimit merge {} input

end Message

structure IdentifyInfo where
  peerId : PeerId
  protocolVersion : Bytes
  agentVersion : Bytes
  listenAddresses : List Multiaddress
  observedAddress : Multiaddress
  protocols : List ProtocolName
deriving DecidableEq

structure IdentifyConfig where
  protocolVersion : Bytes := []
  agentVersion : Bytes := []
  listenAddresses : List Multiaddress := []

/-- The message that `handle` makes. -/
def IdentifyConfig.message (config : IdentifyConfig) (publicKey : Bytes) (remote : Multiaddress)
    (supported : List ProtocolName) : Message where
  publicKey := some publicKey
  listenAddrs := config.listenAddresses.map Multiaddress.bytes
  protocols := supported
  observedAddr := some remote.bytes
  protocolVersion := some config.protocolVersion
  agentVersion := some config.agentVersion

/-- The coroutine of `handle`; nobody publishes anything here. The stream is reset when it is done. -/
def send (encoded : Bytes) : CoroOutcome (Unit ⊕ Option IdentifyInfo) := do
  writeVarintMessage encoded
  pure (.inr none)

/-- Fails when the key cannot be marshalled. -/
def handle (config : IdentifyConfig) (key : PublicKey) (remote : Multiaddress) (supported : List ProtocolName) :
    Except CryptoError (CoroOutcome (Unit ⊕ Option IdentifyInfo)) := do
  let publicKey ← KeyMarshaller.marshal key
  pure (send (config.message publicKey remote supported).encode)

/-- The addresses of the message are read, the observed one first. -/
def readInfo (ip : IpTexts) (peerId : PeerId) (message : Message) : Except Multiaddress.Error IdentifyInfo := do
  let observedAddress ← Multiaddress.createFromBytes ip (message.observedAddr.getD [])
  let listenAddresses ← message.listenAddrs.mapM (Multiaddress.createFromBytes ip)
  pure {
    peerId, observedAddress, listenAddresses
    protocolVersion := message.protocolVersion.getD []
    agentVersion := message.agentVersion.getD []
    protocols := message.protocols }

/-- The coroutine of `recv_identify` once it has the stream, with what it stores and publishes; the error is ignored. -/
def recvIdentify (ip : IpTexts) (peerId : PeerId) : CoroOutcome (Unit ⊕ Option IdentifyInfo) := do
  let encoded ← readVarintMessage defaultMaxSize
  pure (.inr ((Message.decode encoded).bind fun message => (readInfo ip peerId message).toOption))

/-- The repositories of a host. -/
structure PeerRepository where
  addresses : InmemAddressRepository := {}
  protocols : InmemProtocolRepository := {}
  userAgents : InmemUserAgentRepository := {}

/-- `ttl::kRecentlyConnected`, ten minutes. -/
def kRecentlyConnected : Milliseconds := 600000

/-- What is stored of a peer before the message is published. -/
def PeerRepository.learn (now : TimePoint) (info : IdentifyInfo) (repository : PeerRepository) : PeerRepository where
  protocols := repository.protocols.addProtocols info.peerId info.protocols
  addresses := (repository.addresses.upsertAddresses now info.peerId info.listenAddresses kRecentlyConnected).1
  userAgents := repository.userAgents.updateUserAgent now info.peerId info.agentVersion kRecentlyConnected

section RoundTrip

namespace Message

variable {message : Message}

theorem written_of_mem {field : Field} (member : field ∈ message.fields) : Written field := by
  simp only [fields, List.mem_append] at member
  rcases member with (((((member | member) | member) | member) | member) | member) | member
  · exact written_optional (by decide) (by decide) member
  · exact written_repeated (by decide) (by decide) member
  · exact written_repeated (by decide) (by decide) member
  all_goals exact written_optional (by decide) (by decide) member

/-- Every message is read back. -/
theorem decode_encode (small : message.encode.length < 2 ^ 35) : decode message.encode = some message := by
  unfold decode
  unfold encode at small ⊢
  rw [parseInto_encodeFields (fun _ => written_of_mem) small]
  obtain ⟨publicKey, listenAddrs, protocols, observedAddr, protocolVersion, agentVersion, signedPeerRecord⟩ := message
  have first : (optional 1 publicKey).foldlM merge {} = some { publicKey } := by cases publicKey <;> rfl
  have second : (repeated 2 listenAddrs).foldlM merge { publicKey } = some { publicKey, listenAddrs } :=
    foldlM_ids (fun listenAddrs => ({ publicKey, listenAddrs } : Message)) rfl rfl fun _ _ => rfl
  have third : (repeated 3 protocols).foldlM merge { publicKey, listenAddrs } =
      some { publicKey, listenAddrs, protocols } :=
    foldlM_ids (fun protocols => ({ publicKey, listenAddrs, protocols } : Message)) rfl rfl fun _ _ => rfl
  have last : (optional 4 observedAddr ++ optional 5 protocolVersion ++ optional 6 agentVersion ++
      optional 8 signedPeerRecord).foldlM merge { publicKey, listenAddrs, protocols } =
        some ⟨publicKey, listenAddrs, protocols, observedAddr, protocolVersion, agentVersion, signedPeerRecord⟩ := by
    cases observedAddr <;> cases protocolVersion <;> cases agentVersion <;> cases signedPeerRecord <;> rfl
  simp only [fields, List.foldlM_append, first, second, third, Option.bind_eq_bind, Option.bind_some] at last ⊢
  exact last

end Message

variable {ip : IpTexts} {config : IdentifyConfig} {publicKey : Bytes} {remote : Multiaddress}
  {supported : List ProtocolName} {peerId : PeerId} {address : Multiaddress}

theorem createFromBytes_of_obtained (obtained : Multiaddress.Obtained ip address) :
    Multiaddress.createFromBytes ip address.bytes = .ok address := by
  rcases obtained with ⟨s, created⟩ | ⟨b, created⟩
  · unfold Multiaddress.createFromBytes
    rw [(createFromString_eq_ok.mp created).2]
  · rw [(createFromBytes_ok created).2, created]

theorem mapM_createFromBytes {addresses : List Multiaddress}
    (obtained : ∀ address ∈ addresses, Multiaddress.Obtained ip address) :
    (addresses.map Multiaddress.bytes).mapM (Multiaddress.createFromBytes ip) = .ok addresses := by
  induction addresses with
  | nil => rfl
  | cons address rest ih =>
    obtain ⟨one, others⟩ := List.forall_mem_cons.mp obtained
    rw [List.map_cons, List.mapM_cons, createFromBytes_of_obtained one, ih others]
    rfl

/-- The peer as it describes itself, and the address that it sees. -/
def IdentifyConfig.info (config : IdentifyConfig) (peerId : PeerId) (remote : Multiaddress)
    (supported : List ProtocolName) : IdentifyInfo where
  peerId
  protocolVersion := config.protocolVersion
  agentVersion := config.agentVersion
  listenAddresses := config.listenAddresses
  observedAddress := remote
  protocols := supported

theorem readInfo_message (seen : Multiaddress.Obtained ip remote)
    (listening : ∀ address ∈ config.listenAddresses, Multiaddress.Obtained ip address) :
    readInfo ip peerId (config.message publicKey remote supported) = .ok (config.info peerId remote supported) := by
  unfold readInfo IdentifyConfig.message
  dsimp only [Option.getD_some]
  rw [createFromBytes_of_obtained seen, mapM_createFromBytes listening]
  rfl

end RoundTrip

section Exchange

variable {ip : IpTexts} {peerId : PeerId} {encoded input output : Bytes} {last : CoroOutcome (Unit ⊕ Option IdentifyInfo)}
  {body : Unit → CoroOutcome (Unit ⊕ Option IdentifyInfo)}

theorem encodeVarint_ne_nil (value : ℕ) : encodeVarint value ≠ [] := by
  rw [encodeVarint, encodeVarintLoop]
  split_ifs
  · exact List.cons_ne_nil _ _
  · exact List.cons_ne_nil _ _

theorem unroll_send : unroll body (send encoded) = send encoded := by
  rw [send, writeVarintMessage, Coro.bind_assoc]
  exact unroll_write body (encodeVarint_ne_nil _) _

/-- The accepting side has written an initial part of one framed message, and all of it when it is done. -/
theorem trace_send (trace : Trace body (send encoded) input output last) :
    output <+: framed encoded ∧ (last.Writing ∨ (output = framed encoded ∧ last = .ret (.ok (.inr none)))) := by
  rw [← unroll_send, send, writeVarintMessage, Coro.bind_assoc] at trace
  rcases trace.of_write with ⟨-, said, writing⟩ | ⟨rest, rfl, tail⟩
  · exact ⟨said.trans (List.prefix_append ..), .inl writing⟩
  rcases tail.of_write with ⟨-, said, writing⟩ | ⟨rest, rfl, ended⟩
  · exact ⟨(List.prefix_append_right_inj _).mpr said, .inl writing⟩
  · obtain ⟨-, rfl, rfl⟩ := ended.of_ret
    rw [List.append_nil]
    exact ⟨List.prefix_refl _, .inr ⟨rfl, rfl⟩⟩

/-- What `recv_identify` makes of a message. -/
def understood (ip : IpTexts) (peerId : PeerId) (encoded : Bytes) : Option IdentifyInfo :=
  (Message.decode encoded).bind fun message => (readInfo ip peerId message).toOption

theorem unroll_recvIdentify : unroll body (recvIdentify ip peerId) = recvIdentify ip peerId := by
  have waiting : ({} : VarintPrefixReader).state = .underflow := rfl
  simp only [recvIdentify, readVarintMessage, readVarint, Coro.bind_assoc]
  rw [readVarintFrom, dif_pos waiting, Coro.bind_assoc]
  exact unroll_read body Nat.one_pos _

/-- The other side says nothing, and waits until it has read the whole message. -/
theorem trace_recvIdentify (fits : encoded.length ≤ defaultMaxSize) (initial : input <+: framed encoded)
    (trace : Trace body (recvIdentify ip peerId) input output last) :
    output = [] ∧ ((input.length < (framed encoded).length ∧ last.Reading) ∨
      (input = framed encoded ∧ last = .ret (.ok (.inr (understood ip peerId encoded))))) := by
  rw [← unroll_recvIdentify, recvIdentify] at trace
  have whole : input <+: encodeVarint encoded.length ++ encoded ++ [] := by rwa [List.append_nil]
  rcases trace_readVarintMessage fits (by decide) whole trace with ⟨short, silent, reading⟩ | ⟨rest, rfl, tail⟩
  · exact ⟨silent, .inl ⟨short, reading⟩⟩
  · obtain ⟨rfl, rfl, rfl⟩ := tail.of_ret
    rw [List.append_nil]
    exact ⟨rfl, .inr ⟨rfl, rfl⟩⟩

end Exchange

section Sessions

variable {ip : IpTexts} {config : IdentifyConfig} {key : PublicKey} {publicKey encoded : Bytes} {remote : Multiaddress}
  {supported : List ProtocolName} {peerId : PeerId} {turns : List Turn}
  {sender : CoroOutcome (Unit ⊕ Option IdentifyInfo)}

abbrev Session := Duplex StreamError Unit Unit (Option IdentifyInfo)

/-- The accepting side is on the left. -/
abbrev SessionRuns (ip : IpTexts) (peerId : PeerId) (sender : CoroOutcome (Unit ⊕ Option IdentifyInfo)) :
    List Turn → Session → Prop :=
  Duplex.Runs (fun _ => sender) (fun _ => recvIdentify ip peerId) { left := sender, right := recvIdentify ip peerId }

abbrev Stuck (ip : IpTexts) (peerId : PeerId) (sender : CoroOutcome (Unit ⊕ Option IdentifyInfo)) : Session → Prop :=
  Duplex.Stuck (fun _ => sender) fun _ => recvIdentify ip peerId

/-- Where the two sides stand. -/
structure Standing (ip : IpTexts) (peerId : PeerId) (encoded : Bytes) (state : Session) : Prop where
  said : state.toRight.sent <+: framed encoded
  silent : state.toLeft.sent = []
  left : state.left.Writing ∨ (state.toRight.sent = framed encoded ∧ state.left = .ret (.ok (.inr none)))
  right : (state.toRight.received.length < (framed encoded).length ∧ state.right.Reading) ∨
    (state.toRight.received = framed encoded ∧ state.right = .ret (.ok (.inr (understood ip peerId encoded))))

variable {state : Session}

theorem stands_of_runs (fits : encoded.length ≤ defaultMaxSize) (run : SessionRuns ip peerId (send encoded) turns state) :
    Standing ip peerId encoded state := by
  have coherent := Duplex.Runs.coherent run
  obtain ⟨said, left⟩ := trace_send coherent.left
  have arrived : state.toRight.received <+: framed encoded := .trans ⟨_, state.toRight.received_append_pending⟩ said
  obtain ⟨silent, right⟩ := trace_recvIdentify fits arrived coherent.right
  exact ⟨said, silent, left, right⟩

theorem Standing.progress_le (standing : Standing ip peerId encoded state) :
    state.progress ≤ 2 * (framed encoded).length := by
  have said := standing.said.length_le
  have heardRight := state.toRight.bounded
  have heardLeft := state.toLeft.bounded
  rw [standing.silent, List.length_nil] at heardLeft
  simp only [Duplex.progress, Pipe.received, List.length_take, standing.silent, List.length_nil]
  omega

/-- When nobody can move, both sides are done. -/
theorem Standing.settled (standing : Standing ip peerId encoded state) (stuck : Stuck ip peerId (send encoded) state) :
    state.left = .ret (.ok (.inr none)) ∧ state.right = .ret (.ok (.inr (understood ip peerId encoded))) := by
  obtain ⟨sent, ended⟩ := standing.left.resolve_left stuck.left.1
  refine ⟨ended, ?_⟩
  rcases standing.right with ⟨short, reading⟩ | ⟨-, done⟩
  · rw [stuck.right.2 reading, sent] at short
    exact (lt_irrefl _ short).elim
  · exact done

theorem handle_eq_ok (handled : handle config key remote supported = .ok sender) :
    ∃ publicKey, KeyMarshaller.marshal key = .ok publicKey ∧
      sender = send (config.message publicKey remote supported).encode := by
  unfold handle at handled
  rcases marshalled : KeyMarshaller.marshal key with error | publicKey
  · rw [marshalled] at handled
    cases handled
  · rw [marshalled] at handled
    exact ⟨publicKey, rfl, (Except.ok.inj handled).symm⟩

theorem understood_message (fits : (config.message publicKey remote supported).encode.length ≤ defaultMaxSize)
    (seen : Multiaddress.Obtained ip remote)
    (listening : ∀ address ∈ config.listenAddresses, Multiaddress.Obtained ip address) :
    understood ip peerId (config.message publicKey remote supported).encode =
      some (config.info peerId remote supported) := by
  have small : (config.message publicKey remote supported).encode.length < 2 ^ 35 := fits.trans_lt (by decide)
  rw [understood, Message.decode_encode small, Option.bind_some, readInfo_message seen listening]
  rfl

end Sessions

section Storing

variable {ip : IpTexts} {config : IdentifyConfig} {key : PublicKey} {publicKey : Bytes} {remote : Multiaddress}
  {supported : List ProtocolName} {peerId p : PeerId} {turns : List Turn} {state : Session} {now : TimePoint}
  {sender : CoroOutcome (Unit ⊕ Option IdentifyInfo)} {info : IdentifyInfo} {repository : PeerRepository}
  {m : ProtocolName} {address : Multiaddress}

def PeerRepository.Lists (repository : PeerRepository) (p : PeerId) (m : ProtocolName) : Prop :=
  ∃ ms, repository.protocols.getProtocols p = .ok ms ∧ m ∈ ms

/-- The repositories of the host that reads. -/
def stored (now : TimePoint) (before : PeerRepository) (state : Session) : PeerRepository :=
  match state.right with
  | .ret (.ok (.inr (some info))) => before.learn now info
  | _ => before

theorem lists_iff : repository.Lists p m ↔ ∃ set, repository.protocols.db.lookup p = some set ∧ m ∈ set := by
  unfold PeerRepository.Lists InmemProtocolRepository.getProtocols
  rw [InmemProtocolRepository.getProtocolSet_eq]
  rcases repository.protocols.db.lookup p with _ | set
  · simp [Except.map]
  · simp only [Option.elim_some, Except.map, Except.ok.injEq, exists_eq_left', Option.some.injEq]
    rfl

/-- Protocols are added to those that are listed already. -/
theorem lists_learn : (repository.learn now info).Lists p m ↔
    (p = info.peerId ∧ m ∈ info.protocols) ∨ repository.Lists p m := by
  rw [lists_iff, lists_iff, PeerRepository.learn, InmemProtocolRepository.addProtocols,
    InmemProtocolRepository.getOrAllocateProtocolSet]
  dsimp only
  rw [UnorderedMap.lookup_insert_eq]
  split_ifs with same
  · subst same
    simp only [Option.some.injEq, exists_eq_left', OrderedSet.mem_insertAll]
    rcases repository.protocols.db.lookup info.peerId with _ | set
    · simp [OrderedSet.not_mem_empty]
    · simp
  · simp [same]

theorem expiry_learn : (repository.learn now info).addresses.expiry p address =
    if p = info.peerId ∧ address ∈ info.listenAddresses then
      some (InmemAddressRepository.calculateExpirationTime now kRecentlyConnected)
    else repository.addresses.expiry p address :=
  InmemAddressRepository.expiry_upsertAddresses info.listenAddresses

theorem getUserAgent_learn : (repository.learn now info).userAgents.getUserAgent p =
    if p = info.peerId then some info.agentVersion else repository.userAgents.getUserAgent p := by
  rw [InmemUserAgentRepository.getUserAgent, PeerRepository.learn, InmemUserAgentRepository.updateUserAgent]
  dsimp only
  rw [UnorderedMap.lookup_insert_eq]
  split_ifs
  · rfl
  · rfl

/-- Under every schedule and fragmentation an exchange ends, and in every state of it the host that reads has stored nothing
or all that it was told. When nobody can move it has stored it: the protocols of the peer besides those it was known for,
ten minutes for every address that the peer listens on, and its user agent. Nothing changes for other peers. -/
theorem identify_exchange (marshalled : KeyMarshaller.marshal key = .ok publicKey)
    (fits : (config.message publicKey remote supported).encode.length ≤ defaultMaxSize)
    (seen : Multiaddress.Obtained ip remote)
    (listening : ∀ address ∈ config.listenAddresses, Multiaddress.Obtained ip address)
    (handled : handle config key remote supported = .ok sender) (run : SessionRuns ip peerId sender turns state)
    (now : TimePoint) (before : PeerRepository) :
    turns.length ≤ 2 * (framed (config.message publicKey remote supported).encode).length ∧
    (stored now before state = before ∨
      stored now before state = before.learn now (config.info peerId remote supported)) ∧
    (Stuck ip peerId sender state →
      state.right = .ret (.ok (.inr (some (config.info peerId remote supported)))) ∧
      (∀ p m, (stored now before state).Lists p m ↔ (p = peerId ∧ m ∈ supported) ∨ before.Lists p m) ∧
      (∀ p address, (stored now before state).addresses.expiry p address =
        if p = peerId ∧ address ∈ config.listenAddresses then
          some (InmemAddressRepository.calculateExpirationTime now kRecentlyConnected)
        else before.addresses.expiry p address) ∧
      ∀ p, (stored now before state).userAgents.getUserAgent p =
        if p = peerId then some config.agentVersion else before.userAgents.getUserAgent p) := by
  obtain ⟨same, marshalled_, rfl⟩ := handle_eq_ok handled
  obtain rfl : same = publicKey := Except.ok.inj (marshalled_.symm.trans marshalled)
  have standing := stands_of_runs fits run
  have told := @understood_message ip config same remote supported peerId fits seen listening
  refine ⟨?_, ?_, fun stuck => ?_⟩
  · exact (Nat.le_add_right _ _).trans (run.length_le.trans standing.progress_le)
  · rcases standing.right with ⟨-, reading⟩ | ⟨-, done⟩
    · left
      unfold stored
      split
      · next ended => exact (ended ▸ reading : Coro.Reading (.ret _)).elim
      · rfl
    · right
      rw [stored, done, told]
  · obtain ⟨-, done⟩ := standing.settled stuck
    rw [told] at done
    have all : stored now before state = before.learn now (config.info peerId remote supported) := by
      rw [stored, done]
    rw [all]
    exact ⟨done, fun p m => lists_learn, fun p address => expiry_learn, fun p => getUserAgent_learn⟩

/-- A host that listens on one address. -/
def listening : IdentifyConfig where
  protocolVersion := Multi.ascii "ipfs/0.1.0"
  agentVersion := Multi.ascii "cpp"
  listenAddresses := [⟨Multi.ascii "/ip4/127.0.0.1/tcp/80", [4, 127, 0, 0, 1, 6, 0, 80]⟩]

/-- Where it sees the other host. -/
def observed : Multiaddress := ⟨Multi.ascii "/ip4/127.0.0.1/udp/9", [4, 127, 0, 0, 1, 0x91, 2, 0, 9]⟩

/-- What it says is stored: its protocol, its address and its user agent. -/
theorem identify_exchange_listening : ∃ turns state sender,
    handle listening ⟨.ed25519, [1]⟩ observed [[0x2f]] = .ok sender ∧
      SessionRuns plainTexts Network.samplePeer sender turns state ∧
      (stored 0 {} state).Lists Network.samplePeer [0x2f] ∧
      (stored 0 {} state).addresses.expiry Network.samplePeer
        ⟨Multi.ascii "/ip4/127.0.0.1/tcp/80", [4, 127, 0, 0, 1, 6, 0, 80]⟩ = some 600000000000 ∧
      (stored 0 {} state).userAgents.getUserAgent Network.samplePeer = some (Multi.ascii "cpp") := by
  obtain ⟨sender, handled⟩ : ∃ sender, handle listening ⟨.ed25519, [1]⟩ observed [[0x2f]] = .ok sender := ⟨_, rfl⟩
  have fits : (listening.message [8, 1, 18, 1, 1] observed [[0x2f]]).encode.length ≤ defaultMaxSize := by decide +kernel
  have seen : Multiaddress.Obtained plainTexts observed := .inr ⟨observed.bytes, by decide +kernel⟩
  have listens : ∀ address ∈ listening.listenAddresses, Multiaddress.Obtained plainTexts address := by
    intro address member
    obtain rfl := List.mem_singleton.mp member
    exact .inr ⟨[4, 127, 0, 0, 1, 6, 0, 80], by decide +kernel⟩
  have exchange {turns : List Turn} {state : Session} (run : SessionRuns plainTexts Network.samplePeer sender turns state) :=
    identify_exchange (by decide) fits seen listens handled run 0 {}
  have bounded (turns : List Turn) (state : Session) (run : SessionRuns plainTexts Network.samplePeer sender turns state) :
      state.progress ≤ 2 * (framed (listening.message [8, 1, 18, 1, 1] observed [[0x2f]]).encode).length := by
    obtain ⟨same, marshalled, rfl⟩ := handle_eq_ok handled
    obtain rfl : same = [8, 1, 18, 1, 1] := Except.ok.inj (marshalled.symm.trans (by decide))
    exact (stands_of_runs fits run).progress_le
  obtain ⟨turns, state, run, stuck⟩ := Duplex.Runs.exists_stuck bounded .nil
  obtain ⟨-, lists, expiries, agents⟩ := (exchange run).2.2 stuck
  refine ⟨turns, state, sender, handled, run, (lists _ _).mpr (.inl ⟨rfl, List.mem_singleton_self _⟩), ?_, ?_⟩
  · rw [expiries, if_pos ⟨rfl, List.mem_singleton_self _⟩]
    rfl
  · rw [agents, if_pos rfl]
    rfl

end Storing

end Libp2p.Identify
