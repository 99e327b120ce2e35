import Libp2p.Protocol.Gossip.EventChains
import Mathlib.Data.Set.Insert

/-! # The roster: who belongs to which topic

An abstract view of a node that forgets everything but membership: which objects are registered, what they have
announced, which of them speak gossipsub, and who is in each topic and in its mesh. Every guarded update either
leaves the roster alone or changes it in one of a few ways, which is all that the membership invariants need.
-/

namespace Libp2p.Gossip

open Library State

/-- Membership as sets. -/
@[ext]
structure Roster where
  registered : PeerId → Option PeerPtr
  allocated : ℕ
  identity : PeerPtr → PeerId
  announced : PeerPtr → Set TopicHash
  capable : Set PeerPtr
  topics : Set TopicHash
  members : TopicHash → Set PeerPtr
  mesh : TopicHash → Set PeerPtr
  /-- An assertion about the mesh has failed. -/
  clash : Prop

namespace Roster

/-- An object is the registered one of its peer id. -/
def Active (roster : Roster) (peer : PeerPtr) : Prop := roster.registered (roster.identity peer) = some peer

section Updates

variable (roster : Roster) (peer : PeerPtr) (topicHash : TopicHash)

def withAnnounced (topics : Set TopicHash) : Roster :=
  { roster with announced := Function.update roster.announced peer topics }

def withMembers (members : Set PeerPtr) : Roster :=
  { roster with members := Function.update roster.members topicHash members }

def withMesh (mesh : Set PeerPtr) : Roster :=
  { roster with mesh := Function.update roster.mesh topicHash mesh }

@[simp] theorem withAnnounced_self : roster.withAnnounced peer (roster.announced peer) = roster := by
  rw [withAnnounced, Function.update_eq_self]

@[simp] theorem withMembers_self : roster.withMembers topicHash (roster.members topicHash) = roster := by
  rw [withMembers, Function.update_eq_self]

@[simp] theorem withMesh_self : roster.withMesh topicHash (roster.mesh topicHash) = roster := by
  rw [withMesh, Function.update_eq_self]

end Updates

/-- The ways in which a roster changes while an event is handled. -/
inductive Step (event : Event) : Roster → Roster → Prop
  | quiet (roster : Roster) : Step event roster roster
  | grown (roster : Roster) (topicHash : TopicHash) (peer : PeerPtr) (member : peer ∈ roster.members topicHash)
      (capable : peer ∈ roster.capable) :
      Step event roster (roster.withMesh topicHash (insert peer (roster.mesh topicHash)))
  | shrunk (roster : Roster) (topicHash : TopicHash) (mesh : Set PeerPtr) (smaller : mesh ⊆ roster.mesh topicHash) :
      Step event roster (roster.withMesh topicHash mesh)
  | announced (roster : Roster) (topicHash : TopicHash) {peer : PeerPtr} {encoded : Bytes}
      (source : event = .message peer encoded) (allocated : peer < roster.allocated) {rpc : Pb.RPC}
      (carried : event.Carries peer rpc) (named : topicHash ∈ rpc.announces) : Step event roster
        ((roster.withAnnounced peer (insert topicHash (roster.announced peer))).withMembers topicHash
          { other | topicHash ∈ roster.topics ∧ (other = peer ∨ other ∈ roster.members topicHash) })
  | left (roster : Roster) (topicHash : TopicHash) {peer : PeerPtr} {encoded : Bytes}
      (source : event = .message peer encoded) : Step event roster
        (((roster.withAnnounced peer (roster.announced peer \ {topicHash})).withMembers topicHash
          (roster.members topicHash \ {peer})).withMesh topicHash (roster.mesh topicHash \ {peer}))
  | created (roster : Roster) (topicHash : TopicHash) (absent : topicHash ∉ roster.topics)
      (source : event.creates topicHash) : Step event roster
        { (roster.withMembers topicHash
            { peer | (∃ peerId, roster.registered peerId = some peer) ∧ topicHash ∈ roster.announced peer }).withMesh
            topicHash ∅ with topics := insert topicHash roster.topics }
  | removed (roster : Roster) (topicHash : TopicHash) : Step event roster
        { (roster.withMembers topicHash ∅).withMesh topicHash ∅ with topics := roster.topics \ {topicHash} }
  | registered (roster : Roster) (peerId : PeerId) (absent : roster.registered peerId = none) : Step event roster
        { roster with
          registered := Function.update roster.registered peerId (some roster.allocated)
          allocated := roster.allocated + 1
          identity := Function.update roster.identity roster.allocated peerId
          announced := Function.update roster.announced roster.allocated ∅
          capable := roster.capable \ {roster.allocated} }
  | typed (roster : Roster) (capable : Set PeerPtr) (larger : roster.capable ⊆ capable) :
      Step event roster { roster with capable }
  | disconnected (roster : Roster) {peerId : PeerId} {peer : PeerPtr} (source : event = .disconnected peerId)
      (found : roster.registered peerId = some peer) : Step event roster
        { roster with
          registered := Function.update roster.registered peerId none
          members := fun topicHash =>
            { other | other ∈ roster.members topicHash ∧ (topicHash ∈ roster.announced peer → other ≠ peer) }
          mesh := fun topicHash =>
            { other | other ∈ roster.mesh topicHash ∧ (topicHash ∈ roster.announced peer → other ≠ peer) } }

end Roster

/-- The view of a state. -/
def State.roster {R : Type} [Double R] (state : State R) : Roster where
  registered peerId := state.peers.lookup peerId
  allocated := state.allocated
  identity peer := (state.heap peer).peerId
  announced peer := { topicHash | topicHash ∈ (state.heap peer).topics }
  capable := { peer | (state.heap peer).isGossipsub }
  topics := { topicHash | topicHash ∈ state.topics }
  members topicHash := { peer | peer ∈ state.peersOf topicHash }
  mesh topicHash := { peer | peer ∈ state.meshOf topicHash }
  clash := ∃ topicHash peer, .graftAsserted topicHash peer ∈ state.log

variable {R : Type} [Double R] {env : Env R} {event : Event} {state before after : State R}

section Primitives

variable {topicHash : TopicHash} {peer : PeerPtr}

/-- A change of an object that keeps its identity and its kind. -/
theorem roster_changePeer {change : Peer → Peer}
    (identity : (change (state.heap peer)).peerId = (state.heap peer).peerId)
    (kind : (change (state.heap peer)).peerKind = (state.heap peer).peerKind) :
    (state.modifyPeer peer change).roster =
      state.roster.withAnnounced peer { topicHash | topicHash ∈ (change (state.heap peer)).topics } := by
  have capable : (change (state.heap peer)).isGossipsub = (state.heap peer).isGossipsub := by
    simp only [Peer.isGossipsub, Peer.supports, kind]
  ext other : 2
  · rfl
  · rfl
  · exact modifyPeer_field Peer.peerId identity
  · by_cases same : other = peer
    · simp only [roster, Roster.withAnnounced, same, heap_modifyPeer, if_pos, Function.update_self]
    · simp only [roster, Roster.withAnnounced, heap_modifyPeer, if_neg same, Function.update_of_ne same]
  · simp only [roster, Roster.withAnnounced, modifyPeer_field Peer.isGossipsub capable]
  · rfl
  · rfl
  · rfl
  · rfl

theorem roster_modifyPeer {change : Peer → Peer}
    (identity : (change (state.heap peer)).peerId = (state.heap peer).peerId)
    (topics : (change (state.heap peer)).topics = (state.heap peer).topics)
    (kind : (change (state.heap peer)).peerKind = (state.heap peer).peerKind) :
    (state.modifyPeer peer change).roster = state.roster := by
  rw [roster_changePeer identity kind, topics]
  exact Roster.withAnnounced_self state.roster peer

/-- A change of a topic. -/
theorem roster_changeTopic {change : Topic → Topic} {members mesh : Set PeerPtr}
    (joined : { peer | peer ∈ (state.modifyTopic topicHash change).peersOf topicHash } = members)
    (meshed : { peer | peer ∈ (state.modifyTopic topicHash change).meshOf topicHash } = mesh) :
    (state.modifyTopic topicHash change).roster =
      (state.roster.withMembers topicHash members).withMesh topicHash mesh := by
  ext other : 2
  · rfl
  · rfl
  · rfl
  · rfl
  · rfl
  · exact mem_modifyTopic
  · by_cases same : other = topicHash
    · simpa only [roster, Roster.withMembers, Roster.withMesh, same, Function.update_self] using joined
    · simp only [roster, Roster.withMembers, Roster.withMesh, peersOf_eq, lookup_modifyTopic,
        Function.update_of_ne same, if_neg same]
  · by_cases same : other = topicHash
    · simpa only [roster, Roster.withMembers, Roster.withMesh, same, Function.update_self] using meshed
    · simp only [roster, Roster.withMembers, Roster.withMesh, meshOf_eq, lookup_modifyTopic,
        Function.update_of_ne same, if_neg same]
  · rfl

theorem roster_modifyTopic {change : Topic → Topic} {mesh : Set PeerPtr}
    (peers : ∀ topic, (change topic).peers = topic.peers)
    (meshed : { peer | peer ∈ (state.modifyTopic topicHash change).meshOf topicHash } = mesh) :
    (state.modifyTopic topicHash change).roster = state.roster.withMesh topicHash mesh := by
  have joined : { peer | peer ∈ (state.modifyTopic topicHash change).peersOf topicHash } =
      state.roster.members topicHash := by
    rw [peersOf_eq, modifyTopic_field Topic.peers peers]
    rfl
  rw [roster_changeTopic joined meshed, Roster.withMembers_self]

theorem roster_modifyTopic_quiet {change : Topic → Topic} (peers : ∀ topic, (change topic).peers = topic.peers)
    (mesh : ∀ topic, (change topic).meshPeers = topic.meshPeers) :
    (state.modifyTopic topicHash change).roster = state.roster := by
  have meshed : { peer | peer ∈ (state.modifyTopic topicHash change).meshOf topicHash } =
      state.roster.mesh topicHash := by
    rw [meshOf_eq, modifyTopic_field Topic.meshPeers mesh]
    rfl
  rw [roster_modifyTopic peers meshed, Roster.withMesh_self]

@[simp] theorem roster_tick : state.tick.roster = state.roster := rfl

@[simp] theorem roster_modifyScore {change : Score R → Score R} : (state.modifyScore change).roster = state.roster :=
  rfl

@[simp] theorem roster_updateBackoff {backoff : Backoff} :
    (state.updateBackoff env topicHash peer backoff).roster = state.roster :=
  roster_modifyTopic_quiet (fun _ => rfl) fun _ => rfl

theorem roster_record {observation : Observation}
    (harmless : ∀ topicHash peer, observation ≠ .graftAsserted topicHash peer) :
    (state.record observation).roster = state.roster := by
  ext other : 2
  iterate 8 rfl
  simp only [roster, record, List.mem_cons]
  constructor
  · rintro ⟨topicHash, peer, failed | earlier⟩
    · exact absurd failed.symm (harmless topicHash peer)
    · exact ⟨topicHash, peer, earlier⟩
  · rintro ⟨topicHash, peer, earlier⟩
    exact ⟨topicHash, peer, .inr earlier⟩

@[simp] theorem roster_getBatch : (state.getBatch peer).roster = state.roster := by
  unfold getBatch checkWrite
  split_ifs
  · exact roster_modifyPeer rfl rfl rfl
  · exact roster_modifyPeer rfl rfl rfl
  · exact roster_modifyPeer rfl rfl rfl
  · exact (roster_modifyPeer rfl rfl rfl).trans (roster_modifyPeer rfl rfl rfl)

@[simp] theorem roster_enqueue {op : BatchOp} : (state.enqueue peer op).roster = state.roster := by
  unfold enqueue
  rw [roster_record (by simp), roster_modifyPeer, roster_getBatch]
  all_goals rfl

@[simp] theorem roster_makePrune : (state.makePrune env topicHash peer).roster = state.roster := by
  unfold makePrune
  dsimp only
  split_ifs
  · exact roster_enqueue.trans (roster_modifyTopic_quiet (fun _ => rfl) fun _ => rfl)
  · exact roster_enqueue
  · rfl

end Primitives

section Meshes

variable {topicHash : TopicHash} {peer other : PeerPtr}

theorem roster_insertMesh (present : topicHash ∈ state.topics) :
    (state.modifyTopic topicHash fun topic => { topic with meshPeers := topic.meshPeers.insert peer }).roster =
      state.roster.withMesh topicHash (insert peer (state.roster.mesh topicHash)) := by
  obtain ⟨topic, found⟩ := UnorderedMap.exists_lookup_of_mem present
  refine roster_modifyTopic (by exact fun _ => rfl) (Set.ext fun other => ?_)
  simp [meshOf_eq, lookup_modifyTopic, found, roster]

theorem Candidate.present {publishOnly : Bool} (candidate : Candidate topicHash publishOnly peer state) :
    topicHash ∈ state.topics := by
  obtain ⟨topic, found, -⟩ := Option.map_eq_some_iff.mp candidate.kind
  exact UnorderedMap.mem_of_lookup found

/-- A candidate is grafted without a failed assertion. -/
theorem roster_graft {publishOnly : Bool} (candidate : Candidate topicHash publishOnly peer state) :
    (state.graft env topicHash peer).roster =
      state.roster.withMesh topicHash (insert peer (state.roster.mesh topicHash)) := by
  obtain ⟨topic, found⟩ := UnorderedMap.exists_lookup_of_mem candidate.present
  have outside : peer ∉ topic.meshPeers := by
    rw [← meshOf_of_lookup found]
    exact candidate.outside
  unfold graft
  simp only [found, if_neg outside, roster_enqueue, roster_tick, roster_modifyScore]
  rw [roster_insertMesh candidate.present]

theorem roster_acceptGraft (present : topicHash ∈ state.topics) :
    (state.acceptGraft env peer topicHash).roster =
      state.roster.withMesh topicHash (insert peer (state.roster.mesh topicHash)) := by
  unfold acceptGraft
  simp only [roster_tick, roster_modifyScore]
  rw [roster_insertMesh present]

theorem roster_eraseFromMesh : (state.eraseFromMesh topicHash peer).roster =
    state.roster.withMesh topicHash (state.roster.mesh topicHash \ {peer}) :=
  roster_modifyTopic (fun _ => rfl) (Set.ext fun _ => mem_eraseFromMesh.trans and_comm)

theorem roster_removePeerFromMesh {backoff : Option Backoff} {always : Bool} :
    (state.removePeerFromMesh env topicHash peer backoff always).roster =
      state.roster.withMesh topicHash (state.roster.mesh topicHash \ {peer}) := by
  unfold removePeerFromMesh
  split
  · next absent =>
    have empty : state.roster.mesh topicHash \ {peer} = state.roster.mesh topicHash := by
      ext other
      simp [roster, meshOf_eq, absent]
    rw [empty, Roster.withMesh_self]
  · have erased : (state.modifyTopic topicHash fun topic =>
        { topic with meshPeers := topic.meshPeers.erase peer }).roster =
          state.roster.withMesh topicHash (state.roster.mesh topicHash \ {peer}) := roster_eraseFromMesh
    dsimp only
    split_ifs <;> simp only [roster_updateBackoff, roster_modifyScore, erased]

theorem roster_announceUpgrade : (state.announceUpgrade topicHash).roster = state.roster.withMesh topicHash ∅ := by
  have told : ∀ (peers : List PeerPtr) (state : State R),
      (peers.foldl (fun state peer => state.enqueue peer (.subscribe topicHash true)) state).roster = state.roster :=
    fun _ _ => foldl_field State.roster fun state peer => roster_enqueue
  have emptied : ∀ (state : State R) (random : ℕ),
      (({ state with random } : State R).modifyTopic topicHash fun topic => { topic with meshPeers := ∅ }).roster =
        state.roster.withMesh topicHash ∅ := by
    intro state random
    refine roster_modifyTopic (fun _ => rfl) (Set.eq_empty_iff_forall_notMem.mpr fun other => ?_)
    rw [Set.mem_ofPred, meshOf_eq, lookup_modifyTopic, if_pos rfl]
    cases state.topics.lookup topicHash <;> simp
  have upgraded : (state.modifyTopic topicHash fun topic => { topic with publishOnly := false }).roster =
      state.roster := roster_modifyTopic_quiet (fun _ => rfl) fun _ => rfl
  unfold announceUpgrade
  dsimp only
  rw [emptied, told, upgraded]

end Meshes

section Members

variable {topicHash : TopicHash} {peer other : PeerPtr} {peerId : PeerId}

theorem mem_announcedPeers : peer ∈ state.announcedPeers topicHash ↔
    (∃ peerId, state.peers.lookup peerId = some peer) ∧ topicHash ∈ (state.heap peer).topics := by
  have collected : ∀ (entries : List (Sigma fun _ : PeerId => PeerPtr)) (found : UnorderedSet PeerPtr),
      peer ∈ entries.foldl (fun peers entry =>
        if topicHash ∈ (state.heap entry.2).topics then peers.insert entry.2 else peers) found ↔
        peer ∈ found ∨ (∃ entry ∈ entries, entry.2 = peer) ∧ topicHash ∈ (state.heap peer).topics := by
    intro entries
    induction entries with
    | nil => simp
    | cons entry rest ih =>
      intro found
      rw [List.foldl_cons, ih]
      split_ifs with announced
      · simp only [UnorderedSet.mem_insert, List.mem_cons, exists_eq_or_imp]
        grind
      · simp only [List.mem_cons, exists_eq_or_imp]
        grind
  rw [announcedPeers, collected]
  have registered : (∃ entry ∈ state.peers.entries, entry.2 = peer) ↔
      ∃ peerId, state.peers.lookup peerId = some peer := by
    simp only [AList.mem_lookup_iff, ← Option.mem_def]
    constructor
    · rintro ⟨⟨peerId, _⟩, member, rfl⟩
      exact ⟨peerId, member⟩
    · rintro ⟨peerId, member⟩
      exact ⟨_, member, rfl⟩
  simp [registered]

/-- A change of the members of a topic keeps the rest of the roster. -/
theorem roster_modifyMembers {change : Topic → Topic} {members : Set PeerPtr}
    (mesh : ∀ topic, (change topic).meshPeers = topic.meshPeers)
    (joined : ∀ other, other ∈ (state.modifyTopic topicHash change).peersOf topicHash ↔ other ∈ members) :
    (state.modifyTopic topicHash change).roster = state.roster.withMembers topicHash members := by
  have meshed : { peer | peer ∈ (state.modifyTopic topicHash change).meshOf topicHash } =
      (state.roster.withMembers topicHash members).mesh topicHash := by
    rw [meshOf_eq, modifyTopic_field Topic.meshPeers mesh]
    rfl
  rw [roster_changeTopic (Set.ext joined) meshed, Roster.withMesh_self]

theorem mem_insertPeers : other ∈ (state.modifyTopic topicHash fun topic =>
    { topic with peers := topic.peers.insert peer }).peersOf topicHash ↔
      topicHash ∈ state.topics ∧ (other = peer ∨ other ∈ state.peersOf topicHash) := by
  rw [peersOf_eq, lookup_modifyTopic, if_pos rfl, peersOf_eq, ← AList.lookup_isSome]
  cases state.topics.lookup topicHash with
  | none => simp
  | some topic => simp

theorem mem_erasePeers : other ∈ (state.modifyTopic topicHash fun topic =>
    { topic with peers := topic.peers.erase peer }).peersOf topicHash ↔
      other ∈ state.peersOf topicHash ∧ other ≠ peer := by
  rw [peersOf_eq, lookup_modifyTopic, if_pos rfl, peersOf_eq]
  cases state.topics.lookup topicHash with
  | none => simp
  | some topic => simp [and_comm]

theorem roster_addToTopic : (state.addToTopic peer topicHash).roster =
    (state.roster.withAnnounced peer (insert topicHash (state.roster.announced peer))).withMembers topicHash
      { other | topicHash ∈ state.roster.topics ∧ (other = peer ∨ other ∈ state.roster.members topicHash) } := by
  have announced : (state.modifyPeer peer fun peer => { peer with topics := peer.topics.insert topicHash }).roster =
      state.roster.withAnnounced peer (insert topicHash (state.roster.announced peer)) := by
    rw [roster_changePeer (by rfl) (by rfl)]
    congr 1
    ext other
    exact UnorderedSet.mem_insert
  unfold addToTopic
  rw [roster_modifyMembers (by exact fun _ => rfl) fun other => mem_insertPeers, announced]
  rfl

theorem roster_leaveTopic : (state.leaveTopic env peer topicHash).roster =
    ((state.roster.withAnnounced peer (state.roster.announced peer \ {topicHash})).withMembers topicHash
      (state.roster.members topicHash \ {peer})).withMesh topicHash (state.roster.mesh topicHash \ {peer}) := by
  have announced : (state.modifyPeer peer fun peer => { peer with topics := peer.topics.erase topicHash }).roster =
      state.roster.withAnnounced peer (state.roster.announced peer \ {topicHash}) := by
    rw [roster_changePeer (by rfl) (by rfl)]
    congr 1
    ext other
    exact UnorderedSet.mem_erase.trans and_comm
  unfold leaveTopic
  dsimp only
  rw [roster_removePeerFromMesh, roster_modifyMembers (by exact fun _ => rfl) fun other => mem_erasePeers, announced]
  rfl

theorem roster_createTopic {publishOnly : Bool} : (state.createTopic env topicHash publishOnly).roster =
    { (state.roster.withMembers topicHash
        { peer | (∃ peerId, state.roster.registered peerId = some peer) ∧ topicHash ∈ state.roster.announced peer
          }).withMesh topicHash ∅ with topics := insert topicHash state.roster.topics } := by
  ext other : 2
  · rfl
  · rfl
  · rfl
  · rfl
  · rfl
  · exact AList.mem_insert state.topics
  · by_cases same : other = topicHash
    · simp only [roster, createTopic, Roster.withMembers, Roster.withMesh, same, Function.update_self, peersOf_eq,
        AList.lookup_insert]
      exact Set.ext fun peer => mem_announcedPeers
    · simp only [roster, createTopic, Roster.withMembers, Roster.withMesh, peersOf_eq,
        AList.lookup_insert_ne same, Function.update_of_ne same]
  · by_cases same : other = topicHash
    · simp only [roster, createTopic, Roster.withMembers, Roster.withMesh, same, Function.update_self, meshOf_eq,
        AList.lookup_insert]
      exact Set.eq_empty_iff_forall_notMem.mpr fun peer => UnorderedSet.not_mem_empty peer
    · simp only [roster, createTopic, Roster.withMembers, Roster.withMesh, meshOf_eq,
        AList.lookup_insert_ne same, Function.update_of_ne same]
  · rfl

theorem roster_eraseTopic : ({ state with topics := state.topics.erase topicHash } : State R).roster =
    { (state.roster.withMembers topicHash ∅).withMesh topicHash ∅ with
      topics := state.roster.topics \ {topicHash} } := by
  ext other : 2
  · rfl
  · rfl
  · rfl
  · rfl
  · rfl
  · exact (AList.mem_erase).trans and_comm
  · by_cases same : other = topicHash
    · simp [roster, Roster.withMembers, Roster.withMesh, same, peersOf_eq]
    · simp only [roster, Roster.withMembers, Roster.withMesh, peersOf_eq, AList.lookup_erase_ne same,
        Function.update_of_ne same]
  · by_cases same : other = topicHash
    · simp [roster, Roster.withMembers, Roster.withMesh, same, meshOf_eq]
    · simp only [roster, Roster.withMembers, Roster.withMesh, meshOf_eq, AList.lookup_erase_ne same,
        Function.update_of_ne same]
  · rfl

theorem roster_register {out : Bool} : (state.register peerId out).roster = { state.roster with
    registered := Function.update state.roster.registered peerId (some state.allocated)
    allocated := state.allocated + 1
    identity := Function.update state.roster.identity state.allocated peerId
    announced := Function.update state.roster.announced state.allocated ∅
    capable := state.roster.capable \ {state.allocated} } := by
  ext other : 2
  · simp only [roster, register, UnorderedMap.lookup_insert_eq, Function.update_apply]
  · rfl
  · simp only [roster, register, Function.update_apply]
    split_ifs <;> rfl
  · simp only [roster, register, Function.update_apply]
    split_ifs
    · exact Set.eq_empty_iff_forall_notMem.mpr fun topicHash => UnorderedSet.not_mem_empty topicHash
    · rfl
  · simp only [roster, register, Function.update_apply]
    by_cases same : other = state.allocated
    · simp [same, Peer.isGossipsub, Peer.supports]
    · simp [same]
  · rfl
  · rfl
  · rfl
  · rfl

end Members

section Events

variable {topicHash : TopicHash} {peer other : PeerPtr} {peerId : PeerId}

theorem updatePeerKind_isGossipsub {protocol : ProtocolName} (capable : (state.heap other).isGossipsub) :
    ((state.updatePeerKind env peer protocol).heap other).isGossipsub := by
  rw [updatePeerKind, heap_modifyPeer]
  split_ifs with same
  · subst same
    cases kind : (state.heap other).peerKind with
    | none => simp [Peer.isGossipsub, Peer.supports, kind] at capable
    | some kind' => simpa [Peer.isGossipsub, Peer.supports, kind] using capable
  · exact capable

/-- Learning the kind of a peer makes no peer less capable. -/
theorem roster_updatePeerKind {protocol : ProtocolName} :
    (state.updatePeerKind env peer protocol).roster =
      { state.roster with capable := (state.updatePeerKind env peer protocol).roster.capable } := by
  ext other : 2
  · rfl
  · rfl
  · exact modifyPeer_field Peer.peerId rfl
  · have topics : ((state.updatePeerKind env peer protocol).heap other).topics = (state.heap other).topics :=
      modifyPeer_field Peer.topics rfl
    simp only [roster, topics]
  · rfl
  · rfl
  · rfl
  · rfl
  · rfl

theorem roster_announceTopics : (state.announceTopics peer).roster = state.roster := by
  refine foldl_field State.roster fun state entry => ?_
  split_ifs
  · rfl
  · exact roster_enqueue

theorem roster_openStream {stream : Stream} :
    (state.openStream env peer stream).roster = (state.updatePeerKind env peer stream.protocol).roster := by
  have opened : ∀ state : State R, ((state.modifyPeer peer fun peer => { peer with streamOut := some stream }).record
      (.opened peer)).roster = state.roster := by
    intro state
    rw [roster_record (by simp), roster_modifyPeer (by rfl) (by rfl) (by rfl)]
  unfold openStream
  dsimp only
  split_ifs
  · exact opened _
  · rw [roster_announceTopics, roster_getBatch, opened]

theorem mem_forgetInTopics {topics : List TopicHash} :
    (other ∈ (topics.foldl (forgetInTopic peer) state).peersOf topicHash ↔
      other ∈ state.peersOf topicHash ∧ (topicHash ∈ topics → other ≠ peer)) ∧
    (other ∈ (topics.foldl (forgetInTopic peer) state).meshOf topicHash ↔
      other ∈ state.meshOf topicHash ∧ (topicHash ∈ topics → other ≠ peer)) := by
  induction topics generalizing state with
  | nil => simp
  | cons first rest ih =>
    rw [List.foldl_cons, ih.1, ih.2, forgetInTopic, peersOf_eq, meshOf_eq, peersOf_eq, meshOf_eq, lookup_modifyTopic]
    by_cases same : topicHash = first
    · subst same
      cases state.topics.lookup topicHash with
      | none => simp
      | some topic => simp; grind
    · simp [same]

theorem roster_forgetInTopics {topics : List TopicHash} : (topics.foldl (forgetInTopic peer) state).roster =
    { state.roster with
      members := fun topicHash =>
        { other | other ∈ state.roster.members topicHash ∧ (topicHash ∈ topics → other ≠ peer) }
      mesh := fun topicHash =>
        { other | other ∈ state.roster.mesh topicHash ∧ (topicHash ∈ topics → other ≠ peer) } } := by
  have kept : ∀ {α : Type} (field : State R → α),
      (∀ state topicHash, field (forgetInTopic peer state topicHash) = field state) →
      field (topics.foldl (forgetInTopic peer) state) = field state := fun field same => foldl_field field same
  ext topicHash : 2
  · simp only [roster, kept State.peers fun _ _ => rfl]
  · simp only [roster, kept State.allocated fun _ _ => rfl]
  · simp only [roster, kept State.heap fun _ _ => rfl]
  · simp only [roster, kept State.heap fun _ _ => rfl]
  · simp only [roster, kept State.heap fun _ _ => rfl]
  · have present := kept (fun state => topicHash ∈ state.topics) fun _ _ => propext mem_modifyTopic
    simp only [roster, Set.mem_ofPred, present]
  · exact Set.ext fun other => mem_forgetInTopics.1
  · exact Set.ext fun other => mem_forgetInTopics.2
  · simp only [roster, kept State.log fun _ _ => rfl]

theorem step_onPeerDisconnected (source : event = .disconnected peerId) :
    Roster.Step event state.roster (state.onPeerDisconnected env peerId).roster := by
  unfold onPeerDisconnected
  dsimp only
  split
  · exact .quiet _
  · next peer found =>
    have erased : ∀ state : State R, ({ state with peers := state.peers.erase peerId } : State R).roster =
        { state.roster with registered := Function.update state.roster.registered peerId none } := by
      intro state
      ext other : 2
      · simp only [roster, UnorderedMap.lookup_erase_eq, Function.update_apply]
      iterate 8 rfl
    rw [erased, roster_forgetInTopics]
    exact .disconnected state.roster source found

theorem roster_history {change : Topic → History} :
    (state.modifyTopic topicHash fun topic => { topic with history := change topic }).roster = state.roster :=
  roster_modifyTopic_quiet (fun _ => rfl) fun _ => rfl

theorem roster_shiftHistory : (state.shiftHistory topicHash).roster = state.roster := by
  unfold shiftHistory
  split
  · rfl
  · exact @roster_history R _ state topicHash fun _ => _

theorem roster_startBroadcast {from_ : Option PeerId} {messageId : MessageId} {message : Message} :
    (state.startBroadcast topicHash from_ messageId message).roster = state.roster := by
  have cached : ∀ state : State R, (state.cacheMessage topicHash messageId message).roster = state.roster :=
    fun state => @roster_history R _ state topicHash fun topic => topic.history.add messageId
  rw [startBroadcast, cached, roster_record (by simp)]

theorem roster_deliver {messageId : MessageId} {message : Message} {now later : Time} :
    (state.deliver env peer messageId message now later).roster = state.roster := by
  simp only [deliver, roster_startBroadcast, roster_tick, roster_modifyScore]
  rw [roster_record (by simp), roster_tick, roster_modifyScore, roster_record (by simp)]

theorem roster_originate {message : Message} : (state.originate env topicHash message).roster = state.roster := by
  unfold originate
  rw [roster_startBroadcast, roster_record (by simp)]
  rfl

theorem roster_writeBatch : (state.writeBatch peer).roster = state.roster := by
  unfold writeBatch
  apply roster_modifyPeer
  all_goals split <;> rfl

theorem roster_resumeWriter : (state.resumeWriter peer).roster = state.roster := by
  unfold resumeWriter
  dsimp only
  split_ifs
  · exact roster_writeBatch
  · rw [roster_writeBatch, roster_record (by simp)]

theorem roster_onWritten {frame : Bytes} {rest : List Bytes} {ok : Bool} :
    (state.onWritten peer frame rest ok).roster = state.roster := by
  have wrote : (state.record (.wrote peer frame)).roster = state.roster := roster_record (by simp)
  unfold onWritten
  dsimp only
  split_ifs
  · rw [roster_modifyPeer (by rfl) (by rfl) (by rfl), wrote]
  · rw [roster_modifyPeer (by rfl) (by rfl) (by rfl), wrote]
  · rw [roster_writeBatch, wrote]
  · rw [roster_modifyPeer (by rfl) (by rfl) (by rfl)]

end Events

theorem Incidental.roster {change : Topic → Topic} {topicHash : TopicHash} (only : Incidental event change) :
    (state.modifyTopic topicHash change).roster = state.roster := by
  cases only <;> exact roster_modifyTopic_quiet (fun _ => rfl) fun _ => rfl

theorem Private.roster {change : Peer → Peer} {peer : PeerPtr} (only : Private event change) :
    (state.modifyPeer peer change).roster = state.roster := by
  cases only <;> exact roster_modifyPeer rfl rfl rfl

theorem roster_retainMesh {topicHash : TopicHash} {keep : PeerPtr → Bool} :
    (state.modifyTopic topicHash fun topic => { topic with meshPeers := topic.meshPeers.retain keep }).roster =
      state.roster.withMesh topicHash { peer | peer ∈ state.roster.mesh topicHash ∧ keep peer } := by
  refine roster_modifyTopic (by exact fun _ => rfl) (Set.ext fun other => ?_)
  simp only [roster, Set.mem_ofPred, meshOf_eq, lookup_modifyTopic, if_pos]
  cases state.topics.lookup topicHash <;> simp

/-- A fan-out peer enters the mesh of a publish-only topic; another topic is left alone. -/
theorem step_fannedOut {topicHash : TopicHash} {peer : PeerPtr} (member : peer ∈ state.peersOf topicHash)
    (capable : (state.heap peer).isGossipsub) : Roster.Step event state.roster
      (state.modifyTopic topicHash fun topic =>
        if topic.publishOnly then { topic with meshPeers := topic.meshPeers.insert peer } else topic).roster := by
  cases found : state.topics.lookup topicHash with
  | none => simp [peersOf_eq, found] at member
  | some topic =>
    by_cases publishOnly : topic.publishOnly
    · have inserted : (state.modifyTopic topicHash fun topic =>
          if topic.publishOnly then { topic with meshPeers := topic.meshPeers.insert peer } else topic) =
          state.modifyTopic topicHash fun topic => { topic with meshPeers := topic.meshPeers.insert peer } :=
        modifyTopic_congr found (if_pos publishOnly)
      rw [inserted, roster_insertMesh (UnorderedMap.mem_of_lookup found)]
      exact .grown _ topicHash peer member capable
    · have same : (state.modifyTopic topicHash fun topic =>
          if topic.publishOnly then { topic with meshPeers := topic.meshPeers.insert peer } else topic) =
          state.modifyTopic topicHash fun topic => { topic with lastPublish := topic.lastPublish } :=
        modifyTopic_congr found (if_neg publishOnly)
      rw [same, roster_modifyTopic_quiet (by exact fun _ => rfl) (by exact fun _ => rfl)]
      exact .quiet _

/-- Every guarded update is a step of the roster. -/
theorem Micro.roster (micro : Micro env event before after) : Roster.Step event before.roster after.roster := by
  cases micro with
  | ledger ledger =>
    cases ledger with
    | penalized peerId count =>
      rw [roster_record (by simp)]
      exact .quiet _
    | duplicated peer messageId topicHash =>
      simp only [countDuplicate, roster_tick, roster_modifyScore]
      exact .quiet _
    | decayed =>
      simp only [onDecay, roster_tick, roster_modifyScore]
      exact .quiet _
    | _ => exact .quiet _
  | incidental topicHash only =>
    rw [only.roster]
    exact .quiet _
  | inner peer only =>
    rw [only.roster]
    exact .quiet _
  | batched =>
    rw [roster_getBatch]
    exact .quiet _
  | queued =>
    rw [roster_enqueue]
    exact .quiet _
  | grafted topicHash peer candidate =>
    rw [roster_graft candidate]
    exact .grown _ topicHash peer candidate.member candidate.capable
  | expelled topicHash peer =>
    rw [roster_eraseFromMesh, roster_makePrune]
    exact .shrunk _ topicHash _ Set.sdiff_subset
  | cut topicHash peer =>
    rw [roster_makePrune, roster_eraseFromMesh]
    exact .shrunk _ topicHash _ Set.sdiff_subset
  | refused =>
    rw [roster_makePrune]
    exact .quiet _
  | joined topicHash peer candidate =>
    rw [roster_acceptGraft candidate.present]
    exact .grown _ topicHash peer candidate.member candidate.capable
  | announced topicHash source allocated carried named =>
    rw [roster_addToTopic]
    exact .announced _ topicHash source allocated carried named
  | left topicHash source =>
    rw [roster_leaveTopic]
    exact .left _ topicHash source
  | pruned topicHash =>
    rw [roster_removePeerFromMesh]
    exact .shrunk _ topicHash _ Set.sdiff_subset
  | fannedOut topicHash peer member capable => exact step_fannedOut member capable
  | trimmed topicHash keep =>
    rw [roster_retainMesh]
    exact .shrunk _ topicHash _ fun other member => member.1
  | created topicHash publishOnly absent asked source =>
    rw [roster_createTopic]
    exact .created _ topicHash absent source
  | upgraded topicHash =>
    rw [roster_announceUpgrade]
    exact .shrunk _ topicHash _ (Set.empty_subset _)
  | dated => exact .quiet _
  | admitted =>
    rw [roster_deliver]
    exact .quiet _
  | originated =>
    rw [roster_originate]
    exact .quiet _
  | served => exact .quiet _
  | registered peerId out absent =>
    rw [roster_register]
    exact .registered _ peerId (AList.lookup_eq_none.mpr absent)
  | typed peer protocol =>
    rw [roster_updatePeerKind]
    exact .typed _ _ fun other capable => updatePeerKind_isGossipsub capable
  | opened peer stream =>
    rw [roster_openStream, roster_updatePeerKind]
    exact .typed _ _ fun other capable => updatePeerKind_isGossipsub capable
  | disconnected peerId source => exact step_onPeerDisconnected source
  | expired topicHash =>
    unfold expireTopic
    split
    · exact .quiet _
    · split_ifs
      · exact .quiet _
      · have erased : ({ before.tick with topics := before.topics.erase topicHash } : State R).roster = _ :=
          roster_eraseTopic
        rw [erased]
        exact .removed _ topicHash
      · exact .quiet _
  | aged =>
    rw [roster_shiftHistory]
    exact .quiet _
  | resumed =>
    rw [roster_resumeWriter]
    exact .quiet _
  | written =>
    rw [roster_onWritten]
    exact .quiet _

end Libp2p.Gossip
