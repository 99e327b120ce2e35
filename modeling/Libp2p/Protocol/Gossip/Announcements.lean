import Libp2p.Protocol.Gossip.Membership

/-! # Who is told about subscriptions

A subscription is announced when a stream opens, and when a publish-only topic becomes a subscribed one. Between these
moments no update loses an announcement: none subscribes to a topic, opens a stream or puts a cancelling entry into a
batch. A subscription is missed by the peers whose streams are open when a topic is created, and by those outside of a
publish-only topic.
-/

namespace Libp2p.Gossip

open Library State

variable {R : Type} [Double R]

/-- The entries of a log that are newer than the last opening of a peer's stream. -/
def sinceOpened (peer : PeerPtr) (log : List Observation) : List Observation := log.takeWhile (· ≠ .opened peer)

/-- The effect neither opens a stream nor cancels an announcement. -/
def Observation.isCalm : Observation → Bool
  | .opened _ => false
  | .queued _ (.subscribe _ subscribe) => subscribe
  | _ => true

theorem sinceOpened_append {peer : PeerPtr} {extra log : List Observation}
    (calm : ∀ observation ∈ extra, observation.isCalm) :
    sinceOpened peer (extra ++ log) = extra ++ sinceOpened peer log := by
  apply List.takeWhile_append_of_pos
  intro observation member
  have notOpened : observation ≠ .opened peer := by
    rintro rfl
    simpa [Observation.isCalm] using calm _ member
  simpa using notOpened

namespace State

/-- A peer object is registered and has an open stream. -/
def Listening (state : State R) (peer : PeerPtr) : Prop :=
  (∃ peerId, state.peers.lookup peerId = some peer) ∧ (state.heap peer).streamOut.isSome

/-- Every listening peer has been told every subscription since its stream opened, and none was cancelled. -/
structure Announced (state : State R) : Prop where
  told : ∀ topicHash, Subscribed topicHash state → ∀ peer, state.Listening peer →
    .queued peer (.subscribe topicHash true) ∈ sinceOpened peer state.log
  kept : ∀ peer topicHash, .queued peer (.subscribe topicHash false) ∉ state.log

end State

/-- No topic is newly subscribed, no peer is newly listening and the log grows by calm entries. -/
structure Undisturbed (before after : State R) : Prop where
  subscribed : ∀ topicHash, Subscribed topicHash after → Subscribed topicHash before
  listening : ∀ peer, after.Listening peer → before.Listening peer
  log : ∃ extra, after.log = extra ++ before.log ∧ ∀ observation ∈ extra, observation.isCalm

variable {env : Env R} {event : Event} {state before middle after : State R}

section Order

theorem Undisturbed.refl (state : State R) : Undisturbed state state :=
  ⟨fun _ holds => holds, fun _ holds => holds, [], rfl, by simp⟩

theorem Undisturbed.trans (first : Undisturbed before middle) (second : Undisturbed middle after) :
    Undisturbed before after := by
  obtain ⟨early, earlyLog, earlyCalm⟩ := first.log
  obtain ⟨late, lateLog, lateCalm⟩ := second.log
  refine ⟨fun _ holds => first.subscribed _ (second.subscribed _ holds),
    fun _ holds => first.listening _ (second.listening _ holds), late ++ early, ?_, ?_⟩
  · rw [lateLog, earlyLog, List.append_assoc]
  · intro observation member
    exact (List.mem_append.mp member).elim (lateCalm observation) (earlyCalm observation)

/-- A loop of undisturbed iterations. -/
theorem Undisturbed.foldl {α : Type} {body : State R → α → State R} {entries : List α}
    (iteration : ∀ state entry, Undisturbed state (body state entry)) (state : State R) :
    Undisturbed state (entries.foldl body state) := by
  induction entries generalizing state with
  | nil => exact .refl state
  | cons entry rest ih => exact (iteration state entry).trans (ih (body state entry))

/-- No announcement is lost while nothing is disturbed. -/
theorem State.Announced.undisturbed (announced : before.Announced) (calm : Undisturbed before after) :
    after.Announced := by
  obtain ⟨subscribed, listening, extra, log, calm⟩ := calm
  constructor
  · intro topicHash subscribed' peer listening'
    rw [log, sinceOpened_append calm, List.mem_append]
    exact .inr (announced.told topicHash (subscribed topicHash subscribed') peer (listening peer listening'))
  · intro peer topicHash member
    rw [log, List.mem_append] at member
    rcases member with new | old
    · simpa [Observation.isCalm] using calm _ new
    · exact announced.kept peer topicHash old

end Order

section Primitives

variable {topicHash : TopicHash} {peer : PeerPtr}

/-- What touches neither topics nor peers nor the log. -/
theorem undisturbed_of_eq (topics : after.topics = before.topics) (peers : after.peers = before.peers)
    (heap : after.heap = before.heap) (log : after.log = before.log) : Undisturbed before after := by
  refine ⟨?_, ?_, [], log, by simp⟩
  · intro topicHash holds
    rwa [Subscribed, topics] at holds
  · intro peer holds
    rwa [Listening, peers, heap] at holds

theorem undisturbed_modifyTopic {change : Topic → Topic}
    (publishOnly : ∀ topic, (change topic).publishOnly = topic.publishOnly) :
    Undisturbed state (state.modifyTopic topicHash change) := by
  refine ⟨?_, fun _ holds => holds, [], rfl, by simp⟩
  intro other holds
  rwa [Subscribed, modifyTopic_field Topic.publishOnly publishOnly] at holds

/-- A change of an object that opens no stream. -/
theorem undisturbed_modifyPeer {change : Peer → Peer}
    (stream : (change (state.heap peer)).streamOut.isSome → (state.heap peer).streamOut.isSome) :
    Undisturbed state (state.modifyPeer peer change) := by
  refine ⟨fun _ holds => holds, ?_, [], rfl, by simp⟩
  rintro other ⟨registered, isOpen⟩
  refine ⟨registered, ?_⟩
  rw [heap_modifyPeer] at isOpen
  split_ifs at isOpen with same
  · rw [same]
    exact stream isOpen
  · exact isOpen

theorem undisturbed_record {observation : Observation} (calm : observation.isCalm) :
    Undisturbed state (state.record observation) :=
  ⟨fun _ holds => holds, fun _ holds => holds, [observation], rfl, by simpa using calm⟩

theorem undisturbed_modifyScore {change : Score R → Score R} : Undisturbed state (state.modifyScore change) :=
  undisturbed_of_eq rfl rfl rfl rfl

theorem undisturbed_tick : Undisturbed state state.tick := undisturbed_of_eq rfl rfl rfl rfl

theorem undisturbed_getBatch : Undisturbed state (state.getBatch peer) := by
  refine ⟨?_, ?_, [], (getBatch_frame peer state).2.2.2.2.2.2.2.2, by simp⟩
  · intro topicHash holds
    rwa [Subscribed, (getBatch_frame peer state).1] at holds
  · intro other holds
    rwa [Listening, (getBatch_frame peer state).2.1, (getBatch_peer peer state).2.2.2.2] at holds

theorem undisturbed_enqueue {op : BatchOp} (calm : (Observation.queued peer op).isCalm) :
    Undisturbed state (state.enqueue peer op) := by
  have batched : Undisturbed state (state.getBatch peer) := undisturbed_getBatch
  refine batched.trans (.trans ?_ (undisturbed_record calm))
  exact undisturbed_modifyPeer fun isOpen => isOpen

theorem undisturbed_updateBackoff {backoff : Backoff} :
    Undisturbed state (state.updateBackoff env topicHash peer backoff) := undisturbed_modifyTopic fun _ => rfl

theorem undisturbed_graftAsserted : Undisturbed state (match state.topics.lookup topicHash with
    | some topic => if peer ∈ topic.meshPeers then state.record (.graftAsserted topicHash peer) else state
    | none => state) := by
  split
  · split_ifs
    · exact undisturbed_record rfl
    · exact .refl state
  · exact .refl state

theorem undisturbed_graft : Undisturbed state (state.graft env topicHash peer) := by
  have inserted : ∀ state : State R, Undisturbed state (state.modifyTopic topicHash fun topic =>
      { topic with meshPeers := topic.meshPeers.insert peer }) := fun _ => undisturbed_modifyTopic fun _ => rfl
  exact undisturbed_graftAsserted.trans ((inserted _).trans
    (undisturbed_modifyScore.trans (undisturbed_tick.trans (undisturbed_enqueue rfl))))

theorem undisturbed_makePrune : Undisturbed state (state.makePrune env topicHash peer) := by
  unfold makePrune
  dsimp only
  split_ifs
  · exact undisturbed_modifyScore.trans (undisturbed_updateBackoff.trans (undisturbed_enqueue rfl))
  · exact undisturbed_modifyScore.trans (undisturbed_enqueue rfl)
  · exact .refl state

theorem undisturbed_eraseFromMesh : Undisturbed state (state.eraseFromMesh topicHash peer) :=
  undisturbed_modifyTopic fun _ => rfl

theorem undisturbed_removePeerFromMesh {backoff : Option Backoff} {always : Bool} :
    Undisturbed state (state.removePeerFromMesh env topicHash peer backoff always) := by
  refine ⟨?_, ?_, [], ?_, by simp⟩
  · intro other holds
    rwa [Subscribed, removePeerFromMesh_field topicHash peer state Topic.publishOnly fun _ _ _ => rfl] at holds
  · intro other holds
    rwa [Listening, removePeerFromMesh_eq] at holds
  · rw [removePeerFromMesh_eq]
    rfl

theorem undisturbed_leaveTopic : Undisturbed state (state.leaveTopic env peer topicHash) := by
  have left : Undisturbed state (state.modifyPeer peer fun peer => { peer with topics := peer.topics.erase topicHash }) :=
    undisturbed_modifyPeer fun isOpen => isOpen
  have erased : ∀ state : State R, Undisturbed state (state.modifyTopic topicHash fun topic =>
      { topic with peers := topic.peers.erase peer }) := fun _ => undisturbed_modifyTopic fun _ => rfl
  exact left.trans ((erased _).trans undisturbed_removePeerFromMesh)

theorem undisturbed_graftUpTo {limit : ℕ} {peers : List PeerPtr} :
    Undisturbed state (state.graftUpTo env topicHash limit peers) := by
  induction peers generalizing state with
  | nil => exact .refl state
  | cons peer rest ih =>
    rw [graftUpTo]
    split_ifs
    · exact .refl state
    · exact undisturbed_graft.trans ih
    · exact ih

end Primitives

section Events

variable {topicHash : TopicHash} {peer : PeerPtr} {peerId : PeerId}

theorem undisturbed_createTopic : Undisturbed state (state.createTopic env topicHash true) := by
  refine ⟨?_, fun _ holds => holds, [], rfl, by simp⟩
  intro other holds
  by_cases same : other = topicHash
  · rw [Subscribed, createTopic, same, AList.lookup_insert] at holds
    cases holds
  · rwa [Subscribed, createTopic, AList.lookup_insert_ne same] at holds

theorem undisturbed_register {out : Bool} : Undisturbed state (state.register peerId out) := by
  refine ⟨fun _ holds => holds, ?_, [], rfl, by simp⟩
  rintro other ⟨⟨otherId, registered⟩, isOpen⟩
  simp only [register, Function.update_apply, UnorderedMap.lookup_insert_eq] at registered isOpen
  split_ifs at registered isOpen with same known known
  · cases isOpen
  · exact absurd (Option.some.inj registered).symm known
  · cases isOpen
  · exact ⟨⟨otherId, registered⟩, isOpen⟩

theorem undisturbed_onPeerDisconnected : Undisturbed state (state.onPeerDisconnected env peerId) := by
  have forgotten : ∀ (peer : PeerPtr) (topics : List TopicHash) (state : State R),
      Undisturbed state (topics.foldl (forgetInTopic peer) state) := by
    intro peer topics
    apply Undisturbed.foldl
    intro state topicHash
    exact undisturbed_modifyTopic fun _ => rfl
  have erased : ∀ state : State R, Undisturbed state { state with peers := state.peers.erase peerId } := by
    intro state
    refine ⟨fun _ holds => holds, ?_, [], rfl, by simp⟩
    rintro other ⟨⟨otherId, registered⟩, isOpen⟩
    rw [UnorderedMap.lookup_erase_eq] at registered
    split_ifs at registered
    exact ⟨⟨otherId, registered⟩, isOpen⟩
  have scored : Undisturbed state
      (state.modifyScore fun score => score.disconnect peerId (state.now env)).tick :=
    undisturbed_modifyScore.trans undisturbed_tick
  unfold onPeerDisconnected
  dsimp only
  split
  · exact scored
  · exact scored.trans ((forgotten _ _ _).trans (erased _))

theorem undisturbed_expireTopic : Undisturbed state (state.expireTopic env topicHash) := by
  have erased : Undisturbed state { state.tick with topics := state.topics.erase topicHash } := by
    refine ⟨?_, fun _ holds => holds, [], rfl, by simp⟩
    intro other holds
    rw [Subscribed, UnorderedMap.lookup_erase_eq] at holds
    split_ifs at holds
    · cases holds
    · exact holds
  unfold expireTopic
  split
  · exact .refl state
  · split_ifs
    · exact undisturbed_tick
    · exact erased
    · exact .refl state

theorem undisturbed_shiftHistory : Undisturbed state (state.shiftHistory topicHash) := by
  unfold shiftHistory
  split
  · exact .refl state
  · have aged : ∀ history, Undisturbed state (state.modifyTopic topicHash fun topic => { topic with history }) :=
      fun _ => undisturbed_modifyTopic fun _ => rfl
    exact (aged _).trans (undisturbed_of_eq rfl rfl rfl rfl)

theorem undisturbed_writeBatch : Undisturbed state (state.writeBatch peer) := by
  apply undisturbed_modifyPeer
  split <;> exact fun isOpen => isOpen

theorem undisturbed_resumeWriter : Undisturbed state (state.resumeWriter peer) := by
  unfold resumeWriter
  dsimp only
  split_ifs
  · exact undisturbed_writeBatch
  · exact .trans (undisturbed_record rfl) undisturbed_writeBatch

theorem undisturbed_onWritten {frame : Bytes} {rest : List Bytes} {ok : Bool} :
    Undisturbed state (state.onWritten peer frame rest ok) := by
  have wrote : Undisturbed state (state.record (.wrote peer frame)) := undisturbed_record rfl
  unfold onWritten
  dsimp only
  split_ifs
  · exact wrote.trans (undisturbed_modifyPeer fun isOpen => isOpen)
  · exact wrote.trans (undisturbed_modifyPeer fun isOpen => isOpen)
  · exact wrote.trans undisturbed_writeBatch
  · exact undisturbed_modifyPeer fun isOpen => by cases isOpen

theorem undisturbed_startBroadcast {from_ : Option PeerId} {messageId : MessageId} {message : Message} :
    Undisturbed state (state.startBroadcast topicHash from_ messageId message) := by
  have recorded : Undisturbed state (state.record (.broadcast topicHash from_ messageId message)) :=
    undisturbed_record rfl
  have noted : ∀ state : State R, Undisturbed state (state.modifyTopic topicHash fun topic =>
      { topic with history := topic.history.add messageId }) := fun _ => undisturbed_modifyTopic fun _ => rfl
  have cached : ∀ state : State R, Undisturbed state { state with
      messageCache := UnorderedMap.emplace state.messageCache messageId { message } } :=
    fun _ => undisturbed_of_eq rfl rfl rfl rfl
  have settled : ∀ state : State R, Undisturbed state { state with
      gossipPromises := state.gossipPromises.remove messageId } := fun _ => undisturbed_of_eq rfl rfl rfl rfl
  exact recorded.trans ((cached _).trans ((noted _).trans (settled _)))

theorem undisturbed_deliver {messageId : MessageId} {message : Message} {now later : Time} :
    Undisturbed state (state.deliver env peer messageId message now later) := by
  have scored : ∀ (state : State R) (change : Score R → Score R), Undisturbed state (state.modifyScore change).tick :=
    fun _ _ => undisturbed_of_eq rfl rfl rfl rfl
  have accepted : Undisturbed state (state.record (.accepted peer messageId message now later)) :=
    undisturbed_record rfl
  have delivered : ∀ state : State R,
      Undisturbed state (state.record (.delivered message.topic messageId message now later)) :=
    fun _ => undisturbed_record rfl
  unfold deliver
  exact accepted.trans ((scored _ _).trans ((delivered _).trans (undisturbed_tick.trans
    ((scored _ _).trans undisturbed_startBroadcast))))

theorem undisturbed_dateMessage {messageId : MessageId} : Undisturbed state (state.dateMessage env messageId) :=
  undisturbed_of_eq rfl rfl rfl rfl

theorem undisturbed_originate {message : Message} : Undisturbed state (state.originate env topicHash message) := by
  have published : ∀ (state : State R) (now later : Time), Undisturbed state
      (state.record (.published (env.config.messageIdFn message) message now later)) :=
    fun _ _ _ => undisturbed_record rfl
  exact undisturbed_dateMessage.trans ((published _ _ _).trans undisturbed_startBroadcast)

end Events

section Announcing

variable {topicHash : TopicHash} {peer : PeerPtr}

/-- The log after a loop in which every iteration adds at most one entry. -/
theorem log_foldl {α : Type} {body : State R → α → State R} {entries : List α} (added : α → Option Observation)
    (each : ∀ state entry, (body state entry).log = (added entry).toList ++ state.log) :
    (entries.foldl body state).log = (entries.filterMap added).reverse ++ state.log := by
  induction entries generalizing state with
  | nil => rfl
  | cons entry rest ih =>
    rw [List.foldl_cons, ih, each]
    cases said : added entry with
    | none => rw [List.filterMap_cons_none said, Option.toList_none, List.nil_append]
    | some observation =>
      rw [List.filterMap_cons_some said, List.reverse_cons, List.append_assoc, Option.toList_some]

theorem undisturbed_announceTopics : Undisturbed state (state.announceTopics peer) := by
  unfold announceTopics
  apply Undisturbed.foldl
  intro state entry
  split_ifs
  · exact .refl state
  · exact undisturbed_enqueue rfl

/-- The loop over the topics names every subscribed one. -/
theorem mem_log_announceTopics (subscribed : Subscribed topicHash state) :
    ∃ extra, (state.announceTopics peer).log = extra ++ state.log ∧
      (∀ observation ∈ extra, observation.isCalm) ∧ .queued peer (.subscribe topicHash true) ∈ extra := by
  obtain ⟨topic, found, isSubscribed⟩ := Option.map_eq_some_iff.mp subscribed
  set added : (Sigma fun _ : TopicHash => Topic) → Option Observation := fun entry =>
    if entry.2.publishOnly then none else some (.queued peer (.subscribe entry.1 true)) with spoken
  refine ⟨(state.topics.entries.filterMap added).reverse, ?_, ?_, ?_⟩
  · apply log_foldl
    intro state entry
    simp only [spoken]
    split_ifs
    · rfl
    · rw [(enqueue_frame peer _ state).2.2.2.2.2.2.2.2]
      rfl
  · intro observation member
    obtain ⟨entry, -, said⟩ := List.mem_filterMap.mp (List.mem_reverse.mp member)
    obtain ⟨-, ⟨⟩⟩ := Option.ite_none_left_eq_some.mp said
    rfl
  · rw [List.mem_reverse, List.mem_filterMap]
    exact ⟨⟨topicHash, topic⟩, AList.mem_lookup_iff.mp found, by simp [spoken, isSubscribed]⟩

/-- A stream that opens is told every subscription. -/
theorem announced_openStream {stream : Stream} (announced : state.Announced) :
    (state.openStream env peer stream).Announced := by
  set opened := ((state.updatePeerKind env peer stream.protocol).modifyPeer peer
    fun peer => { peer with streamOut := some stream }).record (.opened peer) with isOpened
  have others : ∀ other, other ≠ peer → opened.Listening other → state.Listening other := by
    rintro other different ⟨registered, isOpen⟩
    refine ⟨registered, ?_⟩
    simpa only [isOpened, record, updatePeerKind, heap_modifyPeer, if_neg different] using isOpen
  have kept : ∀ other topicHash, .queued other (.subscribe topicHash false) ∉ opened.log := by
    intro other topicHash member
    rcases List.mem_cons.mp member with new | old
    · cases new
    · exact announced.kept other topicHash old
  -- A peer whose stream was open before has heard of every topic that is subscribed.
  have before : ∀ topicHash, Subscribed topicHash opened → ∀ other, other ≠ peer → opened.Listening other →
      .queued other (.subscribe topicHash true) ∈ sinceOpened other opened.log := by
    intro topicHash subscribed other different listening
    have told := announced.told topicHash subscribed other (others other different listening)
    have later : sinceOpened other opened.log = .opened peer :: sinceOpened other state.log := by
      apply List.takeWhile_cons_of_pos
      simpa using different.symm
    rw [later]
    exact List.mem_cons_of_mem _ told
  have batched : Undisturbed opened (opened.getBatch peer) := undisturbed_getBatch
  unfold openStream
  dsimp only
  rw [← isOpened]
  split_ifs with empty
  · refine ⟨?_, kept⟩
    intro topicHash subscribed
    obtain ⟨topic, found, -⟩ := Option.map_eq_some_iff.mp subscribed
    have member := AList.mem_lookup_iff.mp found
    rw [empty] at member
    cases member
  · have loop : Undisturbed (opened.getBatch peer) ((opened.getBatch peer).announceTopics peer) :=
      undisturbed_announceTopics
    have calm := batched.trans loop
    refine ⟨?_, ?_⟩
    · intro topicHash subscribed other listening
      obtain ⟨extra, log, calmExtra, told⟩ : ∃ extra, ((opened.getBatch peer).announceTopics peer).log =
          extra ++ (opened.getBatch peer).log ∧ (∀ observation ∈ extra, observation.isCalm) ∧
            .queued peer (.subscribe topicHash true) ∈ extra :=
        mem_log_announceTopics (loop.subscribed _ subscribed)
      rw [log, (getBatch_frame peer opened).2.2.2.2.2.2.2.2, sinceOpened_append calmExtra, List.mem_append]
      by_cases same : other = peer
      · exact .inl (same ▸ told)
      · exact .inr (before topicHash (calm.subscribed _ subscribed) other same (calm.listening _ listening))
    · intro other topicHash member
      obtain ⟨extra, log, calmExtra⟩ := calm.log
      rw [log, List.mem_append] at member
      rcases member with new | old
      · simpa [Observation.isCalm] using calmExtra _ new
      · exact kept other topicHash old

/-- An upgrade tells the peers of the topic. -/
theorem log_announceUpgrade {topic : Topic} (found : state.topics.lookup topicHash = some topic) :
    (state.announceUpgrade topicHash).log =
      (topic.peers.elements.map fun peer => .queued peer (.subscribe topicHash true)).reverse ++ state.log := by
  set told := state.modifyTopic topicHash fun topic => { topic with publishOnly := false } with isTold
  have peers : told.peersOf topicHash = topic.peers := by
    rw [peersOf_eq, isTold, lookup_modifyTopic, if_pos rfl, found]
    rfl
  have loop : ((told.peersOf topicHash).elements.foldl
      (fun state peer => state.enqueue peer (.subscribe topicHash true)) told).log = _ :=
    log_foldl (fun peer => some (.queued peer (.subscribe topicHash true))) fun state peer => by
      rw [(enqueue_frame peer _ state).2.2.2.2.2.2.2.2]
      rfl
  rw [List.filterMap_eq_map'] at loop
  rw [← peers]
  exact loop

/-- Apart from the topic that is upgraded, an upgrade subscribes to nothing and opens nothing. -/
theorem undisturbed_announceUpgrade :
    Undisturbed (state.modifyTopic topicHash fun topic => { topic with publishOnly := false })
      (state.announceUpgrade topicHash) := by
  have loop : ∀ (peers : List PeerPtr) (state : State R), Undisturbed state
      (peers.foldl (fun state peer => state.enqueue peer (.subscribe topicHash true)) state) := by
    intro peers
    apply Undisturbed.foldl
    intro state peer
    exact undisturbed_enqueue rfl
  have emptied : ∀ (state : State R) (random : ℕ), Undisturbed state (({ state with random } : State R).modifyTopic
      topicHash fun topic => { topic with meshPeers := ∅ }) := by
    intro state random
    have shuffled : Undisturbed state { state with random } := undisturbed_of_eq rfl rfl rfl rfl
    exact shuffled.trans (undisturbed_modifyTopic fun _ => rfl)
  exact (loop _ _).trans (emptied _ _)

theorem undisturbed_upgradeTopic :
    Undisturbed (state.announceUpgrade topicHash) (state.upgradeTopic env topicHash) := by
  have chosen : ∀ (peers : List PeerPtr) (state : State R),
      Undisturbed state (state.graftAll env topicHash peers) := by
    intro peers
    apply Undisturbed.foldl
    intro state peer
    exact undisturbed_graft
  have shuffled : ∀ (state : State R) (random : ℕ), Undisturbed state { state with random } :=
    fun _ _ => undisturbed_of_eq rfl rfl rfl rfl
  unfold upgradeTopic
  dsimp only
  split_ifs
  · exact undisturbed_graftUpTo.trans ((shuffled _ _).trans (chosen _ _))
  · exact undisturbed_graftUpTo

/-- Every listening peer belongs to the topic, or the topic is already subscribed. -/
def State.Reaches (state : State R) (topicHash : TopicHash) : Prop := ∀ peer, state.Listening peer →
  ∃ topic, state.topics.lookup topicHash = some topic ∧ (topic.publishOnly → peer ∈ topic.peers)

theorem announced_announceUpgrade {topic : Topic} (announced : state.Announced)
    (found : state.topics.lookup topicHash = some topic)
    (reaches : ∀ peer, state.Listening peer → peer ∈ topic.peers) : (state.announceUpgrade topicHash).Announced := by
  have calm : ∀ observation ∈ (topic.peers.elements.map fun peer =>
      Observation.queued peer (.subscribe topicHash true)).reverse, observation.isCalm := by
    intro observation member
    obtain ⟨peer, -, rfl⟩ := List.mem_map.mp (List.mem_reverse.mp member)
    rfl
  have undisturbed : Undisturbed (state.modifyTopic topicHash fun topic => { topic with publishOnly := false })
      (state.announceUpgrade topicHash) := undisturbed_announceUpgrade
  refine ⟨?_, ?_⟩
  · intro other subscribed peer listening
    have listening : state.Listening peer := undisturbed.listening peer listening
    rw [log_announceUpgrade found, sinceOpened_append calm, List.mem_append]
    by_cases same : other = topicHash
    · refine .inl (List.mem_reverse.mpr (List.mem_map.mpr ⟨peer, reaches peer listening, ?_⟩))
      rw [same]
    · have earlier := undisturbed.subscribed other subscribed
      rw [Subscribed, lookup_modifyTopic, if_neg same] at earlier
      exact .inr (announced.told other earlier peer listening)
  · intro peer other member
    rw [log_announceUpgrade found, List.mem_append] at member
    rcases member with new | old
    · simpa [Observation.isCalm] using calm _ new
    · exact announced.kept peer other old

theorem announced_subscribe (announced : state.Announced) (reaches : state.Reaches topicHash) :
    (state.subscribe env topicHash).Announced := by
  unfold subscribe getOrCreateTopic
  dsimp only
  cases found : state.topics.lookup topicHash with
  | none =>
    have absent : topicHash ∉ state.topics := AList.lookup_eq_none.mp found
    have nobody : ∀ peer, ¬ state.Listening peer := by
      intro peer listening
      obtain ⟨topic, present, -⟩ := reaches peer listening
      rw [found] at present
      cases present
    have created : (state.createTopic env topicHash false).Announced :=
      ⟨fun _ _ peer listening => absurd listening (nobody peer), announced.kept⟩
    have lookup : (state.createTopic env topicHash false).topics.lookup topicHash = some _ := AList.lookup_insert ..
    rw [if_neg absent, lookup]
    exact created
  | some topic =>
    have present : topicHash ∈ state.topics := UnorderedMap.mem_of_lookup found
    rw [if_pos present, found]
    by_cases upgrade : topic.publishOnly
    · have upgraded : (state.announceUpgrade topicHash).Announced := by
        refine announced_announceUpgrade announced found fun peer listening => ?_
        obtain ⟨same, present, member⟩ := reaches peer listening
        rw [found] at present
        obtain rfl := Option.some.inj present
        exact member upgrade
      simpa [upgrade] using upgraded.undisturbed undisturbed_upgradeTopic
    · simpa [upgrade] using announced

end Announcing

/-- Every guarded update of an event that does not subscribe keeps announcements. -/
theorem Micro.keeps_announced (micro : Micro env event before after) (asked : ∀ topicHash, event ≠ .subscribe topicHash)
    (announced : before.Announced) : after.Announced := by
  cases micro with
  | opened peer stream source => exact announced_openStream announced
  | upgraded topicHash kind source => exact absurd source (asked topicHash)
  | created topicHash publishOnly absent source =>
    cases publishOnly with
    | true => exact announced.undisturbed undisturbed_createTopic
    | false => exact absurd (source rfl) (asked topicHash)
  | ledger ledger =>
    refine announced.undisturbed ?_
    cases ledger with
    | penalized peerId count => exact undisturbed_modifyScore.trans (undisturbed_record rfl)
    | decayed => exact undisturbed_modifyScore.trans undisturbed_tick
    | duplicated peer messageId topicHash =>
      exact undisturbed_tick.trans (undisturbed_modifyScore.trans undisturbed_tick)
    | _ => exact undisturbed_of_eq rfl rfl rfl rfl
  | incidental topicHash only =>
    cases only <;> exact announced.undisturbed (undisturbed_modifyTopic fun _ => rfl)
  | inner peer only =>
    cases only <;> exact announced.undisturbed (undisturbed_modifyPeer fun isOpen => isOpen)
  | batched => exact announced.undisturbed undisturbed_getBatch
  | queued peer permitted =>
    cases permitted <;> exact announced.undisturbed (undisturbed_enqueue rfl)
  | grafted => exact announced.undisturbed undisturbed_graft
  | expelled => exact announced.undisturbed (undisturbed_makePrune.trans undisturbed_eraseFromMesh)
  | cut => exact announced.undisturbed (undisturbed_eraseFromMesh.trans undisturbed_makePrune)
  | refused => exact announced.undisturbed undisturbed_makePrune
  | joined topicHash peer =>
    have inserted : Undisturbed before (before.modifyTopic topicHash fun topic =>
        { topic with meshPeers := topic.meshPeers.insert peer }) := undisturbed_modifyTopic fun _ => rfl
    exact announced.undisturbed (inserted.trans (undisturbed_modifyScore.trans undisturbed_tick))
  | @announced topicHash peer encoded source allocated =>
    have added : Undisturbed before
        (before.modifyPeer peer fun peer => { peer with topics := peer.topics.insert topicHash }) :=
      undisturbed_modifyPeer fun isOpen => isOpen
    exact announced.undisturbed (added.trans (undisturbed_modifyTopic fun _ => rfl))
  | left => exact announced.undisturbed undisturbed_leaveTopic
  | pruned => exact announced.undisturbed undisturbed_removePeerFromMesh
  | fannedOut topicHash peer =>
    refine announced.undisturbed (undisturbed_modifyTopic ?_)
    intro topic
    split_ifs <;> rfl
  | trimmed => exact announced.undisturbed (undisturbed_modifyTopic fun _ => rfl)
  | dated => exact announced.undisturbed undisturbed_dateMessage
  | served => exact announced.undisturbed (undisturbed_of_eq rfl rfl rfl rfl)
  | admitted =>
    exact announced.undisturbed (undisturbed_dateMessage.trans undisturbed_deliver)
  | originated => exact announced.undisturbed undisturbed_originate
  | registered => exact announced.undisturbed undisturbed_register
  | typed => exact announced.undisturbed (undisturbed_modifyPeer fun isOpen => isOpen)
  | disconnected => exact announced.undisturbed undisturbed_onPeerDisconnected
  | expired => exact announced.undisturbed undisturbed_expireTopic
  | aged => exact announced.undisturbed undisturbed_shiftHistory
  | resumed => exact announced.undisturbed undisturbed_resumeWriter
  | written => exact announced.undisturbed undisturbed_onWritten

variable {lastSeqNo : Seqno} {events : List Event}

/-- Runs in which every subscription reaches the peers that are listening. -/
abbrev ReachingRuns (env : Env R) (lastSeqNo : Seqno) : List Event → State R → Prop :=
  Run (fun before event after => before.step env event = some after ∧
    ∀ topicHash, event = .subscribe topicHash → before.Reaches topicHash) (State.initial env lastSeqNo)

/-- An announcement waits in the batch of a peer. -/
def State.Pending (state : State R) (peer : PeerPtr) (topicHash : TopicHash) : Prop :=
  ∃ batch, (state.heap peer).batch = some batch ∧ batch.subscriptions.lookup topicHash = some true

/-- In every run in which subscriptions reach the peers that are listening, every registered peer with an open stream
has been told every subscribed topic since its stream opened, and no announcement was ever cancelled. -/
theorem announced_of_reachingRuns (run : ReachingRuns env lastSeqNo events state) :
    (∀ topicHash topic, state.topics.lookup topicHash = some topic → topic.publishOnly = false →
      ∀ peerId peer, state.peers.lookup peerId = some peer → (state.heap peer).streamOut.isSome →
        .queued peer (.subscribe topicHash true) ∈ sinceOpened peer state.log ∨ state.Pending peer topicHash) ∧
    ∀ peer topicHash, .queued peer (.subscribe topicHash false) ∉ state.log := by
  have initial : (State.initial env lastSeqNo).Announced := by
    constructor
    · rintro topicHash _ peer ⟨⟨peerId, registered⟩, -⟩
      cases registered
    · intro peer topicHash member
      cases member
  have both : state.roster.Sound ∧ state.Announced := by
    refine run.preserves (fun state => state.roster.Sound ∧ state.Announced) ⟨roster_initial.1, initial⟩ ?_
    rintro event before after ⟨sound, announced⟩ ⟨stepped, reaches⟩
    refine ⟨sound_of_step sound stepped, ?_⟩
    by_cases asked : ∃ topicHash, event = .subscribe topicHash
    · obtain ⟨topicHash, rfl⟩ := asked
      obtain rfl := Option.some.inj stepped
      exact announced_subscribe announced (reaches topicHash rfl)
    · exact step_preserves State.Announced
        (fun _ _ micro => micro.keeps_announced fun topicHash source => asked ⟨topicHash, source⟩)
        sound stepped announced
  refine ⟨?_, both.2.kept⟩
  intro topicHash topic found isSubscribed peerId peer registered isOpen
  have subscribed : Subscribed topicHash state := by
    rw [Subscribed, found, ← isSubscribed]
    rfl
  exact .inl (both.2.told topicHash subscribed peer ⟨⟨peerId, registered⟩, isOpen⟩)

/-- A step that refuses subscriptions that some listening peer would miss. -/
def State.stepReaching (env : Env R) (state : State R) (event : Event) : Option (State R) :=
  match event with
  | .subscribe topicHash =>
    if state.peers.entries.all fun entry => (state.heap entry.2).streamOut.isNone ||
        (state.topics.lookup topicHash).any fun topic => ! topic.publishOnly || entry.2 ∈ topic.peers then
      state.step env event
    else none
  | _ => state.step env event

theorem reachingRuns_of_foldlM
    (followed : events.foldlM (stepReaching env) (State.initial env lastSeqNo) = some state) :
    ReachingRuns env lastSeqNo events state := by
  refine (Run.of_foldlM followed).mono ?_
  intro event before after taken
  cases event with
  | subscribe topicHash =>
    obtain ⟨heard, stepped⟩ := Option.ite_none_right_eq_some.mp taken
    refine ⟨stepped, ?_⟩
    rintro _ ⟨⟩ peer ⟨⟨peerId, registered⟩, isOpen⟩
    have entry := List.all_eq_true.mp heard _ (AList.mem_lookup_iff.mp registered)
    rw [Bool.or_eq_true] at entry
    rcases entry with closed | heard
    · rw [Option.isNone_iff_eq_none.mp closed] at isOpen
      cases isOpen
    · obtain ⟨topic, found, holds⟩ := (Option.any_eq_true _ _).mp heard
      exact ⟨topic, found, by simpa [imp_iff_not_or] using holds⟩
  | _ => exact ⟨taken, by simp⟩

/-- A peer subscribes to a topic that the node has published to; its stream opens before the node subscribes. -/
def upgradeEvents : List Event :=
  [.publish [0x74] [0x68], .connected (samplePeerId 1) true, .streamOpened 0 (some ⟨0, kProtocolGossipsubv1_1⟩),
    .message 0 (Pb.RPC.encode { subscriptions := [{ subscribe := some true, topicId := some [0x74] }] }),
    .subscribe [0x74]]

theorem announced_of_reachingRuns_upgrade : ∃ (state : State Rational) (topic : Topic),
    ReachingRuns (sampleEnv true (10 ^ 6)) 0 upgradeEvents state ∧
      state.topics.lookup [0x74] = some topic ∧ topic.publishOnly = false ∧
      state.peers.lookup (samplePeerId 1) = some 0 ∧ (state.heap 0).streamOut.isSome ∧
      (.queued 0 (.subscribe [0x74] true) ∈ sinceOpened 0 state.log ∨ state.Pending 0 [0x74]) := by
  have followed : (upgradeEvents.foldlM (stepReaching (sampleEnv true (10 ^ 6)))
      (State.initial (sampleEnv true (10 ^ 6)) 0)).map (fun state =>
        ((state.topics.lookup [0x74]).map Topic.publishOnly, state.peers.lookup (samplePeerId 1),
          (state.heap 0).streamOut.isSome)) = some (some false, some 0, true) := by
    decide +kernel
  obtain ⟨state, ran, observed⟩ := Option.map_eq_some_iff.mp followed
  simp only [Prod.mk.injEq] at observed
  obtain ⟨kind, registered, isOpen⟩ := observed
  obtain ⟨topic, found, isSubscribed⟩ := Option.map_eq_some_iff.mp kind
  have run := reachingRuns_of_foldlM ran
  have told := (announced_of_reachingRuns run).1 [0x74] topic found isSubscribed _ 0 registered isOpen
  exact ⟨state, topic, run, found, isSubscribed, registered, isOpen, told⟩

/-- A peer's stream is open when the node subscribes to a new topic. -/
def lateEvents : List Event :=
  [.connected (samplePeerId 1) true, .streamOpened 0 (some ⟨0, kProtocolGossipsubv1_1⟩), .subscribe [0x74]]

/-- A topic that is created while a stream is open is not announced on it. -/
theorem late_subscription_unannounced : ∃ (state : State Rational) (topic : Topic),
    Runs (sampleEnv true (10 ^ 6)) 0 lateEvents state ∧
      state.topics.lookup [0x74] = some topic ∧ topic.publishOnly = false ∧
      state.peers.lookup (samplePeerId 1) = some 0 ∧ (state.heap 0).streamOut.isSome ∧
      ¬ (.queued 0 (.subscribe [0x74] true) ∈ sinceOpened 0 state.log ∨ state.Pending 0 [0x74]) := by
  have followed : (lateEvents.foldlM (State.step (sampleEnv true (10 ^ 6)))
      (State.initial (sampleEnv true (10 ^ 6)) 0)).map (fun state =>
        ((state.topics.lookup [0x74]).map Topic.publishOnly, state.peers.lookup (samplePeerId 1),
          (state.heap 0).streamOut.isSome, sinceOpened 0 state.log, (state.heap 0).batch.isSome)) =
      some (some false, some 0, true, [], false) := by
    decide
  obtain ⟨state, ran, observed⟩ := Option.map_eq_some_iff.mp followed
  simp only [Prod.mk.injEq] at observed
  obtain ⟨kind, registered, isOpen, silent, noBatch⟩ := observed
  obtain ⟨topic, found, isSubscribed⟩ := Option.map_eq_some_iff.mp kind
  refine ⟨state, topic, Run.of_foldlM ran, found, isSubscribed, registered, isOpen, ?_⟩
  rintro (told | ⟨batch, pending, -⟩)
  · rw [silent] at told
    cases told
  · rw [pending] at noBatch
    cases noBatch

end Libp2p.Gossip
