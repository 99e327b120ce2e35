import Libp2p.Protocol.Gossip.Balancing
import Libp2p.Protocol.Gossip.Spreading

/-! # Who gets a message

`broadcast` walks up to three groups of peers: the floodsub peers of the topic, its mesh, and for a local publication
some more gossipsub peers that fill the mesh up. No peer is in two of these groups, since meshes hold gossipsub peers
only, so that the message enters the batch of every recipient once.
-/

namespace Libp2p.Gossip

open Library State

variable {R : Type} [Double R] {env : Env R} {event : Event} {state before after : State R} {lastSeqNo : Seqno}
  {events : List Event} {topicHash : TopicHash} {from_ : Option PeerId} {messageId : MessageId} {message : Message}
  {peer other : PeerPtr} {chosen peers : List PeerPtr}

/-- The gossipsub peers of a topic outside its mesh that score well enough to be published to. -/
def State.spares (env : Env R) (topicHash : TopicHash) (state : State R) : List PeerPtr :=
  (state.peersOf topicHash).elements.filter fun peer => (state.heap peer).isGossipsub &&
    state.fanoutCandidate topicHash env.config.score.publishThreshold peer

/-- The peers beyond the mesh that a broadcast goes to: some spare ones for a local publication that is not flooded, so
many that they fill the mesh up if there are enough. -/
structure TopUp (env : Env R) (topicHash : TopicHash) (from_ : Option PeerId) (state : State R)
    (chosen : List PeerPtr) : Prop where
  distinct : chosen.Nodup
  spare : ∀ peer ∈ chosen, peer ∈ state.spares env topicHash
  length : chosen.length = if from_ = none ∧ env.config.floodPublish = false then
    min (env.config.meshNForTopic topicHash - (state.meshOf topicHash).size) (state.spares env topicHash).length else 0

/-- The recipients of a broadcast that also goes to the chosen peers. -/
def State.Receives (env : Env R) (topicHash : TopicHash) (from_ : Option PeerId) (message : Message)
    (chosen : List PeerPtr) (state : State R) (peer : PeerPtr) : Prop :=
  state.takes env from_ message peer = true ∧
    if from_ = none ∧ env.config.floodPublish = true then peer ∈ state.peersOf topicHash
    else (peer ∈ state.peersOf topicHash ∧ (state.heap peer).isFloodsub) ∨ peer ∈ state.meshOf topicHash ∨ peer ∈ chosen

theorem mem_spares : peer ∈ state.spares env topicHash ↔ peer ∈ state.peersOf topicHash ∧ (state.heap peer).isGossipsub ∧
    peer ∉ state.meshOf topicHash ∧ ¬ state.below peer env.config.score.publishThreshold := by
  simp [State.spares, fanoutCandidate, UnorderedSet.mem_elements]

/-- No peer is a floodsub and a gossipsub peer; there are kinds that are neither. -/
theorem not_isGossipsub_of_isFloodsub {peer : Peer} (floods : peer.isFloodsub) : ¬ peer.isGossipsub := by
  unfold Peer.isFloodsub at floods
  unfold Peer.isGossipsub Peer.supports
  cases kind : peer.peerKind with
  | none => simp
  | some own => cases own <;> simp_all [PeerKind.rank]

section Queueing

/-- How often a walk over peers queues the message to one of them. -/
def State.copies (env : Env R) (from_ : Option PeerId) (message : Message) (peers : List PeerPtr) (state : State R)
    (peer : PeerPtr) : ℕ :=
  if state.takes env from_ message peer then peers.count peer else 0

theorem copies_append : state.copies env from_ message (chosen ++ peers) peer =
    state.copies env from_ message chosen peer + state.copies env from_ message peers peer := by
  unfold State.copies
  split_ifs
  · exact List.count_append
  · rfl

theorem pending_enqueue {op : BatchOp} : ((state.enqueue peer op).heap other).pending = (state.heap other).pending ++
    if other = peer then op.messages else [] := by
  unfold Peer.pending
  rw [enqueue_batch]
  split_ifs with same
  · subst same
    cases op <;> cases (state.heap other).batch <;> simp [Rpc.apply, Rpc.subscribe, BatchOp.messages]
  · rw [List.append_nil]

theorem pending_getBatch : ((state.getBatch peer).heap other).pending = (state.heap other).pending := by
  unfold Peer.pending
  rw [getBatch_batch]
  split_ifs with same
  · subst same
    cases (state.heap other).batch <;> rfl
  · rfl

/-- From one state to another the message was queued to these peers, as far as `add_peer` takes them. -/
structure Sent (env : Env R) (from_ : Option PeerId) (message : Message) (peers : List PeerPtr)
    (before after : State R) : Prop where
  takes : after.takes env from_ message = before.takes env from_ message
  pending : ∀ peer, (after.heap peer).pending = (before.heap peer).pending ++
    List.replicate (before.copies env from_ message peers peer) message

/-- Nothing is sent while the peers and their scores stay as they are. -/
theorem Sent.none (heap : after.heap = before.heap) (score : after.score = before.score) :
    Sent env from_ message [] before after := by
  constructor
  · funext peer
    rw [State.takes, State.takes, State.below, State.below, heap, score]
  · intro peer
    rw [heap, State.copies, List.count_nil, ite_self, List.replicate_zero, List.append_nil]

theorem Sent.append {middle : State R} (first : Sent env from_ message chosen before middle)
    (second : Sent env from_ message peers middle after) : Sent env from_ message (chosen ++ peers) before after := by
  refine ⟨second.takes.trans first.takes, fun peer => ?_⟩
  have same : middle.copies env from_ message peers peer = before.copies env from_ message peers peer := by
    rw [State.copies, State.copies, first.takes]
  rw [second.pending, first.pending, same, List.append_assoc, ← List.replicate_add, copies_append]

theorem addPeer_of_not_takes (skipped : state.takes env from_ message peer = false) :
    addPeer env from_ messageId message state peer = state := by
  unfold State.takes at skipped
  unfold addPeer
  split_ifs with sender author low
  · rfl
  · rfl
  · rfl
  all_goals simp [sender, author, low] at skipped

/-- A message that is queued may be preceded by an IDONTWANT. -/
theorem addPeer_of_takes (taken : state.takes env from_ message peer = true) : ∃ middle : State R,
    (∀ other, (middle.heap other).pending = (state.heap other).pending) ∧
    addPeer env from_ messageId message state peer = middle.enqueue peer (.publish message) := by
  unfold State.takes at taken
  simp only [Bool.and_eq_true, decide_eq_true_eq, Bool.not_eq_true'] at taken
  obtain ⟨⟨sender, author⟩, low⟩ := taken
  unfold addPeer
  rw [if_neg sender, if_neg author, if_neg (by simp [low])]
  dsimp only
  split_ifs
  · refine ⟨_, fun other => ?_, rfl⟩
    have silent : (BatchOp.idontwant messageId).messages = [] := rfl
    rw [pending_enqueue, pending_getBatch, silent, ite_self, List.append_nil]
  · exact ⟨_, fun other => pending_getBatch, rfl⟩

theorem sent_addPeer : Sent env from_ message [peer] state (addPeer env from_ messageId message state peer) := by
  refine ⟨unswayed_addPeer.takes_eq, fun other => ?_⟩
  cases taken : state.takes env from_ message peer with
  | false =>
    have none : state.copies env from_ message [peer] other = 0 := by
      unfold State.copies
      split_ifs with takes
      · refine List.count_eq_zero.mpr fun member => ?_
        obtain rfl := List.mem_singleton.mp member
        cases taken.symm.trans takes
      · rfl
    rw [addPeer_of_not_takes taken, none, List.replicate_zero, List.append_nil]
  | true =>
    obtain ⟨middle, pending, added⟩ := @addPeer_of_takes R _ env state from_ messageId message peer taken
    rw [added, pending_enqueue, pending]
    congr 1
    split_ifs with same
    · subst same
      rw [State.copies, if_pos taken]
      simp [BatchOp.messages]
    · have none : state.copies env from_ message [peer] other = 0 := by
        unfold State.copies
        rw [List.count_eq_zero.mpr (by simpa using same), ite_self]
      rw [none, List.replicate_zero]

theorem walk_sent : Walk env from_ messageId message (Sent env from_ message) where
  settled heap score _ _ := .none heap score
  append := Sent.append
  addPeer _ _ := sent_addPeer

end Queueing

section Broadcasting

/-- A round of the loop over the chosen peers lets its peer stay with a publish-only topic. -/
theorem fanout_round {fanout : Topic → Topic} (round : fanout = fun topic =>
    if topic.publishOnly then { topic with meshPeers := topic.meshPeers.insert peer } else topic) :
    ((state.modifyTopic topicHash fanout).topics.lookup topicHash).map Topic.publishOnly =
      (state.topics.lookup topicHash).map Topic.publishOnly ∧
    (other ∈ (state.modifyTopic topicHash fanout).meshOf topicHash ↔ other ∈ state.meshOf topicHash ∨
      other = peer ∧ (state.topics.lookup topicHash).map Topic.publishOnly = some true) := by
  subst round
  refine ⟨modifyTopic_field Topic.publishOnly fun topic => by split_ifs <;> rfl, ?_⟩
  rw [meshOf_eq, meshOf_eq, lookup_modifyTopic, if_pos rfl]
  cases state.topics.lookup topicHash with
  | none => simp
  | some topic => cases kind : topic.publishOnly <;> simp [kind, or_comm]

/-- The chosen peers stay with a publish-only topic. -/
theorem mem_mesh_addFanout : other ∈ (state.addFanout env topicHash from_ messageId message chosen).meshOf topicHash ↔
    other ∈ state.meshOf topicHash ∨
      other ∈ chosen ∧ (state.topics.lookup topicHash).map Topic.publishOnly = some true := by
  unfold addFanout
  induction chosen generalizing state with
  | nil => simp
  | cons peer rest ih =>
    obtain ⟨kind, mesh⟩ := @fanout_round R _ (addPeer env from_ messageId message state peer) topicHash peer other _ rfl
    rw [addPeer_topics] at kind mesh
    rw [List.foldl_cons, ih, kind, mesh, meshOf_eq, addPeer_topics, ← meshOf_eq, List.mem_cons]
    tauto

theorem meshOf_stamp {time : Time} :
    (state.modifyTopic topicHash fun topic => { topic with lastPublish := time }).tick.meshOf topicHash =
      state.meshOf topicHash := by
  have kept : ((state.modifyTopic topicHash fun topic => { topic with lastPublish := time }).topics.lookup topicHash).map
      Topic.meshPeers = (state.topics.lookup topicHash).map Topic.meshPeers :=
    modifyTopic_field Topic.meshPeers fun _ => rfl
  exact congrArg (Option.getD · ∅) kept

/-- The peers that a broadcast chooses besides the floodsub peers and the mesh. -/
def State.fills (env : Env R) (topicHash : TopicHash) (from_ : Option PeerId) (state : State R) : List PeerPtr :=
  if from_.isNone ∧ env.config.floodPublish then [] else state.topUp env topicHash from_

/-- They are spare peers, and as many as are needed and available. -/
theorem topUp_fills : TopUp env topicHash from_ state (state.fills env topicHash from_) := by
  unfold State.fills State.topUp
  cases from_ with
  | some sender => exact ⟨by simp, by simp, by simp⟩
  | none =>
    cases flood : env.config.floodPublish with
    | true => exact ⟨by simp, by simp, by simp [flood]⟩
    | false =>
      simp only [Bool.false_eq_true, and_false, if_false, Option.isNone_none, if_true]
      refine ⟨nodup_chooseCount, fun peer chosen => ?_, ?_⟩
      · obtain ⟨member, capable, candidate⟩ := mem_chooseCount chosen
        exact List.mem_filter.mpr ⟨member, by rw [capable, candidate]; rfl⟩
      · rw [length_choose, if_pos ⟨rfl, flood⟩]
        rfl

/-- A broadcast that has started may add to the mesh of a publish-only topic. -/
theorem mem_mesh_spread (unpromised : state.gossipPromises.peers messageId = []) :
    peer ∈ (state.spread env topicHash from_ messageId message).meshOf topicHash ↔
      peer ∈ state.meshOf topicHash ∨ peer ∈ state.fills env topicHash from_ ∧
        (state.topics.lookup topicHash).map Topic.publishOnly = some true := by
  unfold spread State.fills
  rw [unpromised]
  simp only [List.foldl_nil, ite_self]
  split_ifs with flooding
  · rw [meshOf_eq, topics_addPeers, ← meshOf_eq]
    simp
  · obtain ⟨random, walked⟩ := @broadcastMesh_eq R _ env state topicHash from_ messageId message
    rw [walked]
    dsimp only
    set meshed := (((state.peersOf topicHash).elements.filter fun peer => (state.heap peer).isFloodsub) ++
      (state.meshOf topicHash).elements).foldl (addPeer env from_ messageId message) state
    have topics : meshed.topics = state.topics := topics_addPeers
    split_ifs with own
    · rw [meshOf_stamp, mem_mesh_addFanout]
      change _ ∈ ((meshed.topics.lookup topicHash).map Topic.meshPeers).getD ∅ ∨ _ ∧
        (meshed.topics.lookup topicHash).map Topic.publishOnly = _ ↔ _
      rw [topics, ← meshOf_eq]
    · rw [State.topUp, if_neg own, meshOf_eq, topics, ← meshOf_eq]
      simp

/-- The start of a broadcast concerns neither the peers of its topic nor the mesh. -/
theorem startBroadcast_frame : (state.startBroadcast topicHash from_ messageId message).peersOf topicHash =
      state.peersOf topicHash ∧
    (state.startBroadcast topicHash from_ messageId message).meshOf topicHash = state.meshOf topicHash ∧
    ((state.startBroadcast topicHash from_ messageId message).topics.lookup topicHash).map Topic.publishOnly =
      (state.topics.lookup topicHash).map Topic.publishOnly := by
  have field : ∀ {α : Type} (field : Topic → α), (∀ topic history, field { topic with history } = field topic) →
      ((state.startBroadcast topicHash from_ messageId message).topics.lookup topicHash).map field =
        (state.topics.lookup topicHash).map field :=
    fun field kept => modifyTopic_field field fun topic => kept topic _
  refine ⟨?_, ?_, field Topic.publishOnly fun _ _ => rfl⟩
  · exact congrArg (Option.getD · ∅) (field Topic.peers fun _ _ => rfl)
  · exact congrArg (Option.getD · ∅) (field Topic.meshPeers fun _ _ => rfl)

/-- Which peers a broadcast goes to is not changed by its start. -/
theorem startBroadcast_tried :
    (state.startBroadcast topicHash from_ messageId message).tried env topicHash from_ = state.tried env topicHash from_ ∧
    (state.startBroadcast topicHash from_ messageId message).fills env topicHash from_ =
      state.fills env topicHash from_ := by
  obtain ⟨peers, mesh, -⟩ := @startBroadcast_frame R _ state topicHash from_ messageId message
  have candidates : (state.startBroadcast topicHash from_ messageId message).fanoutCandidate topicHash
      env.config.score.publishThreshold = state.fanoutCandidate topicHash env.config.score.publishThreshold := by
    funext peer
    rw [fanoutCandidate, fanoutCandidate, mesh]
    rfl
  have topUp : (state.startBroadcast topicHash from_ messageId message).topUp env topicHash from_ =
      state.topUp env topicHash from_ := by
    rw [State.topUp, State.topUp, peers, mesh, candidates]
    rfl
  rw [State.tried, State.tried, State.fills, State.fills, topUp, peers, mesh]
  exact ⟨rfl, rfl⟩

theorem sent_broadcast : Sent env from_ message (state.tried env topicHash from_) state
      (state.broadcast env topicHash from_ messageId message) ∧
    ∀ peer, peer ∈ (state.broadcast env topicHash from_ messageId message).meshOf topicHash ↔
      peer ∈ state.meshOf topicHash ∨ peer ∈ state.fills env topicHash from_ ∧
        (state.topics.lookup topicHash).map Topic.publishOnly = some true := by
  obtain ⟨-, mesh, kind⟩ := @startBroadcast_frame R _ state topicHash from_ messageId message
  obtain ⟨tried, fills⟩ := @startBroadcast_tried R _ env state topicHash from_ messageId message
  have sent := @Walk.spread R _ env (state.startBroadcast topicHash from_ messageId message) topicHash from_
    messageId message _ walk_sent peers_remove
  rw [tried] at sent
  refine ⟨⟨sent.takes, sent.pending⟩, fun peer => ?_⟩
  rw [broadcast, mem_mesh_spread peers_remove, mesh, fills, kind]

end Broadcasting

section Once

theorem mem_tried : peer ∈ state.tried env topicHash from_ ↔
    if from_ = none ∧ env.config.floodPublish = true then peer ∈ state.peersOf topicHash
    else (peer ∈ state.peersOf topicHash ∧ (state.heap peer).isFloodsub) ∨ peer ∈ state.meshOf topicHash ∨
      peer ∈ state.fills env topicHash from_ := by
  rw [State.tried, State.fills]
  simp only [Option.isNone_iff_eq_none]
  split_ifs
  · rfl
  · simp [UnorderedSet.mem_elements]

/-- The groups that a broadcast walks have no peer in common, since meshes hold gossipsub peers. -/
theorem nodup_tried (capable : ∀ peer ∈ state.meshOf topicHash, (state.heap peer).isGossipsub) :
    (state.tried env topicHash from_).Nodup := by
  have chosen := @topUp_fills R _ env state topicHash from_
  rw [State.tried]
  split_ifs with flooding
  · exact (state.peersOf topicHash).nodup
  · rw [State.fills, if_neg flooding] at chosen
    have apart : ∀ peer ∈ (state.peersOf topicHash).elements.filter fun peer => (state.heap peer).isFloodsub,
        ¬ (state.heap peer).isGossipsub :=
      fun peer member => not_isGossipsub_of_isFloodsub (List.mem_filter.mp member).2
    refine .append (.append ((state.peersOf topicHash).nodup.filter _) (state.meshOf topicHash).nodup ?_)
      chosen.distinct ?_
    · exact fun peer flooded meshed => apart peer flooded (capable peer meshed)
    · intro peer walked member
      obtain ⟨-, spare, outside, -⟩ := mem_spares.mp (chosen.spare peer member)
      rcases List.mem_append.mp walked with flooded | meshed
      · exact apart peer flooded spare
      · exact outside meshed

/-- A state that a node may be in while it handles an event, up to what does not matter to membership. -/
def Midway (env : Env R) (lastSeqNo : Seqno) (state : State R) : Prop :=
  ∃ events before event middle, Runs env lastSeqNo events before ∧ Chain env event before middle ∧
    state.roster = middle.roster

theorem midway_of_runs (run : Runs env lastSeqNo events state) : Midway env lastSeqNo state :=
  ⟨events, state, .decay, state, run, .refl, rfl⟩

theorem Midway.sound (midway : Midway env lastSeqNo state) : state.roster.Sound := by
  obtain ⟨events, before, event, middle, run, chain, same⟩ := midway
  rw [same]
  exact chain_preserves (fun state : State R => state.roster.Sound) chain
    (fun _ _ micro sound => sound.step micro.roster) (sound_of_runs run)

/-- A message that arrives is broadcast from a state with the same membership. -/
theorem deliver_broadcasts {now later : Time} : ∃ calling : State R, calling.roster = state.roster ∧
    (state.deliver env peer messageId message now later).spread env message.topic (some (state.heap peer).peerId)
      messageId message = calling.broadcast env message.topic (some (state.heap peer).peerId) messageId message := by
  unfold deliver
  refine ⟨_, ?_, rfl⟩
  rw [roster_tick, roster_modifyScore, roster_tick, roster_record (by simp), roster_tick, roster_modifyScore,
    roster_record (by simp)]

/-- A message that is published is broadcast from a state with the same membership. -/
theorem originate_broadcasts : ∃ calling : State R, calling.roster = state.roster ∧
    (state.originate env topicHash message).spread env topicHash none (env.config.messageIdFn message) message =
      calling.broadcast env topicHash none (env.config.messageIdFn message) message := by
  unfold originate
  refine ⟨_, ?_, rfl⟩
  rw [roster_record (by simp)]
  rfl

/-- In every state that a node can call it in, a broadcast appends the message once to the batch of each recipient and
to no other batch. The recipients are the peers of the topic for a local publication that floods. Otherwise they are
its floodsub peers, its mesh, and for a local publication as many spare peers as are needed and available; these join
the mesh exactly if the topic is publish-only. -/
theorem broadcast_recipients (midway : Midway env lastSeqNo state) : ∃ chosen, TopUp env topicHash from_ state chosen ∧
    (∀ peer, state.Receives env topicHash from_ message chosen peer →
      ((state.broadcast env topicHash from_ messageId message).heap peer).pending =
        (state.heap peer).pending ++ [message]) ∧
    (∀ peer, ¬ state.Receives env topicHash from_ message chosen peer →
      ((state.broadcast env topicHash from_ messageId message).heap peer).pending = (state.heap peer).pending) ∧
    ∀ peer, peer ∈ (state.broadcast env topicHash from_ messageId message).meshOf topicHash ↔
      peer ∈ state.meshOf topicHash ∨
        peer ∈ chosen ∧ (state.topics.lookup topicHash).map Topic.publishOnly = some true := by
  obtain ⟨sent, mesh⟩ := @sent_broadcast R _ env state topicHash from_ messageId message
  have distinct : (state.tried env topicHash from_).Nodup := nodup_tried fun peer member =>
    ((meshSound_of_roster midway.sound).inside topicHash peer member).2
  refine ⟨state.fills env topicHash from_, topUp_fills, fun peer receives => ?_, fun peer skipped => ?_, mesh⟩
  · obtain ⟨taken, addressed⟩ := receives
    have once : state.copies env from_ message (state.tried env topicHash from_) peer = 1 := by
      rw [State.copies, if_pos taken]
      exact List.count_eq_one_of_mem distinct (mem_tried.mpr addressed)
    rw [sent.pending, once]
    rfl
  · have never : state.copies env from_ message (state.tried env topicHash from_) peer = 0 := by
      unfold State.copies
      split_ifs with taken
      · exact List.count_eq_zero.mpr fun member => skipped ⟨taken, mem_tried.mp member⟩
      · rfl
    rw [sent.pending, never, List.replicate_zero, List.append_nil]

/-- A gossipsub peer and a floodsub peer announce a topic that is then published to. -/
def audienceEvents (floodsub : ProtocolName) : List Event :=
  [.connected (samplePeerId 1) false, .handle (samplePeerId 1) kProtocolGossipsubv1_1,
    .message 0 (Pb.RPC.encode { subscriptions := [{ subscribe := some true, topicId := some [0x74] }] }),
    .connected (samplePeerId 2) false, .handle (samplePeerId 2) floodsub,
    .message 1 (Pb.RPC.encode { subscriptions := [{ subscribe := some true, topicId := some [0x74] }] }),
    .publish [0x74] [0x01]]

/-- The next publication goes to the floodsub peer and to the gossipsub peer, which is in the mesh now. -/
theorem broadcast_recipients_audience : ∃ state chosen,
    Runs (sampleEnv false (10 ^ 6)) 0 (audienceEvents kProtocolFloodsub) state ∧
    TopUp (sampleEnv false (10 ^ 6)) [0x74] none state chosen ∧
    state.Receives (sampleEnv false (10 ^ 6)) [0x74] none { data := [0x02], topic := [0x74] } chosen 0 ∧
    state.Receives (sampleEnv false (10 ^ 6)) [0x74] none { data := [0x02], topic := [0x74] } chosen 1 ∧
    ∀ peer, state.Receives (sampleEnv false (10 ^ 6)) [0x74] none { data := [0x02], topic := [0x74] } chosen peer →
      ((state.broadcast (sampleEnv false (10 ^ 6)) [0x74] none [0x09] { data := [0x02], topic := [0x74] }).heap
        peer).pending = (state.heap peer).pending ++ [{ data := [0x02], topic := [0x74] }] := by
  have followed : ((audienceEvents kProtocolFloodsub).foldlM (State.step (sampleEnv false (10 ^ 6)))
      (State.initial (sampleEnv false (10 ^ 6)) 0)).map (fun state =>
        state.takes (sampleEnv false (10 ^ 6)) none { data := [0x02], topic := [0x74] } 0 &&
          state.takes (sampleEnv false (10 ^ 6)) none { data := [0x02], topic := [0x74] } 1 &&
          decide (0 ∈ state.meshOf [0x74]) && decide (1 ∈ state.peersOf [0x74]) && (state.heap 1).isFloodsub) = some true := by
    decide +kernel
  obtain ⟨state, ran, observed⟩ := Option.map_eq_some_iff.mp followed
  simp only [Bool.and_eq_true, decide_eq_true_eq] at observed
  obtain ⟨⟨⟨⟨first, second⟩, meshed⟩, member⟩, floods⟩ := observed
  have run : Runs (sampleEnv false (10 ^ 6)) 0 (audienceEvents kProtocolFloodsub) state := Run.of_foldlM ran
  obtain ⟨chosen, topUp, once, -, -⟩ :=
    @broadcast_recipients Rational _ (sampleEnv false (10 ^ 6)) state 0 [0x74] none [0x09] { data := [0x02], topic := [0x74] }
      (midway_of_runs run)
  exact ⟨state, chosen, run, topUp, ⟨first, .inr (.inl meshed)⟩, ⟨second, .inl ⟨member, floods⟩⟩, once⟩

end Once

section Unsupported

/-- A node that knows the floodsub protocol as one that it does not support. -/
def unsupportedEnv : Env Rational :=
  { sampleEnv false (10 ^ 6) with
    config := { Config.default false with
      protocolVersions := Gossip.protocolVersions.insert kProtocolFloodsub .notSupported } }

/-- A peer of the topic that is no gossipsub peer gets nothing. -/
theorem unsupported_peer_skipped : ∃ state, Runs unsupportedEnv 0 (audienceEvents kProtocolFloodsub) state ∧
    unsupportedEnv.config.floodPublish = false ∧ 1 ∈ state.peersOf [0x74] ∧ ¬ (state.heap 1).isGossipsub ∧
    state.takes unsupportedEnv none { data := [0x02], topic := [0x74] } 1 = true ∧
    ((state.broadcast unsupportedEnv [0x74] none [0x09] { data := [0x02], topic := [0x74] }).heap 1).pending =
      (state.heap 1).pending := by
  have followed : ((audienceEvents kProtocolFloodsub).foldlM (State.step unsupportedEnv)
      (State.initial unsupportedEnv 0)).map (fun state => decide (1 ∈ state.peersOf [0x74]) &&
        ! (state.heap 1).isGossipsub &&
        state.takes unsupportedEnv none { data := [0x02], topic := [0x74] } 1 &&
        decide (((state.broadcast unsupportedEnv [0x74] none [0x09] { data := [0x02], topic := [0x74] }).heap 1).pending =
          (state.heap 1).pending)) = some true := by
    decide +kernel
  obtain ⟨state, ran, observed⟩ := Option.map_eq_some_iff.mp followed
  simp only [Bool.and_eq_true, decide_eq_true_eq, Bool.not_eq_true'] at observed
  obtain ⟨⟨⟨member, incapable⟩, included⟩, unsent⟩ := observed
  exact ⟨state, Run.of_foldlM ran, rfl, member, by rw [incapable]; exact Bool.false_ne_true, included, unsent⟩

end Unsupported

end Libp2p.Gossip
