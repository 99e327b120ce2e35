import Libp2p.Protocol.Gossip.Turns

/-! # The upper bound of a mesh and grafts from inbound peers

A GRAFT from a peer that connected to us is refused if the mesh has more than `mesh_n_high` peers. So one that comes to a
mesh of exactly that many is accepted, and the mesh has one peer too many afterwards.
-/

namespace Libp2p.Gossip

open Library State

variable {R : Type} [Double R] {env : Env R} {event : Event} {state before after : State R} {lastSeqNo : Seqno}
  {events : List Event} {peer : PeerPtr} {topicHash : TopicHash} {pbGraft : Pb.ControlGraft}

/-- A GRAFT entry that an event brings from a gossipsub peer, and the state in which it is handled: after the
subscriptions and the messages of its RPC and the entries before it. -/
def Grafting (env : Env R) (before : State R) (event : Event) (peer : PeerPtr) (pbGraft : Pb.ControlGraft)
    (state : State R) : Prop :=
  ∃ rpc earlier later, event.Carries peer rpc ∧ ¬ before.below peer env.config.score.graylistThreshold ∧
    peer < before.allocated ∧ (before.heap peer).isGossipsub ∧ rpc.control.graft = earlier ++ pbGraft :: later ∧
    state = earlier.foldl (onGraft env peer)
      (rpc.publish.foldl (onPublish env peer) (rpc.subscriptions.foldl (onSubscription env peer) before))

/-- A GRAFT entry is accepted: the peer enters the mesh of its topic. -/
def Accepted (env : Env R) (peer : PeerPtr) (pbGraft : Pb.ControlGraft) (state : State R) : Prop :=
  peer ∉ state.meshOf (pbGraft.topicId.getD []) ∧
    peer ∈ (state.onGraft env peer pbGraft).meshOf (pbGraft.topicId.getD [])

/-- Handling a GRAFT entry is a part of handling its frame. -/
theorem Grafting.within (grafting : Grafting env before event peer pbGraft state) :
    ∃ encoded, event = .message peer encoded ∧ Chain env event before state ∧
      Chain env event (state.onGraft env peer pbGraft) (before.onMessage env peer encoded).1 := by
  obtain ⟨rpc, earlier, later, ⟨encoded, source, decoded⟩, heard, allocated, capable, entries, rfl⟩ := grafting
  have first : Chain env event before _ := chain_beforeGrafts source decoded allocated
  obtain ⟨allocated₁, capable₁⟩ := first.capable allocated capable
  obtain ⟨second, allocated₂, capable₂⟩ := chain_grafts source decoded allocated₁ capable₁
    (show earlier ⊆ rpc.control.graft by simp [entries])
  obtain ⟨-, allocated₃, capable₃⟩ := chain_grafts source decoded allocated₂ capable₂
    (show [pbGraft] ⊆ rpc.control.graft by simp [entries])
  obtain ⟨third, -⟩ := chain_grafts source decoded allocated₃ capable₃
    (show later ⊆ rpc.control.graft by simp [entries])
  refine ⟨encoded, source, first.trans second, ?_⟩
  rw [onMessage_eq source decoded allocated capable heard]
  have fourth : Chain env event (before.afterGrafts env peer rpc)
      ((before.afterPrunes env peer rpc).handleGossip env peer rpc) :=
    (chain_afterPrunes source decoded).trans (chain_handleGossip source)
  have grafted : before.afterGrafts env peer rpc = later.foldl (onGraft env peer) ((earlier.foldl (onGraft env peer)
      (rpc.publish.foldl (onPublish env peer)
        (rpc.subscriptions.foldl (onSubscription env peer) before))).onGraft env peer pbGraft) := by
    rw [afterGrafts, entries, List.foldl_append, List.foldl_cons]
  rw [grafted] at fourth
  exact third.trans fourth

/-- No accepted GRAFT of an inbound peer leaves a mesh with more peers than its upper bound. -/
def BoundedGrafts (env : Env R) (before : State R) (event : Event) : Prop :=
  ∀ peer pbGraft state, Grafting env before event peer pbGraft state → (state.heap peer).out = false →
    Accepted env peer pbGraft state →
    ((state.onGraft env peer pbGraft).meshOf (pbGraft.topicId.getD [])).size ≤
      env.config.meshNHighForTopic (pbGraft.topicId.getD [])

/-- What the code asks of a GRAFT besides the size of the mesh. -/
def State.admissible (env : Env R) (peer : PeerPtr) (pbGraft : Pb.ControlGraft) (state : State R) : Prop :=
  ∃ topic, state.topics.lookup (pbGraft.topicId.getD []) = some topic ∧ topic.publishOnly = false ∧
    peer ∉ topic.meshPeers ∧ getBackoffTime env topic peer ≤ 0 ∧ state.below peer env.config.score.zero = false

/-- No admissible GRAFT of an inbound peer comes to a mesh of exactly `mesh_n_high` peers. -/
def RoomyGrafts (env : Env R) (before : State R) (event : Event) : Prop :=
  ∀ peer pbGraft state, Grafting env before event peer pbGraft state → (state.heap peer).out = false →
    state.admissible env peer pbGraft →
    (state.meshOf (pbGraft.topicId.getD [])).size ≠ env.config.meshNHighForTopic (pbGraft.topicId.getD [])

/-- A GRAFT is accepted from an inbound peer exactly if it is admissible and the mesh is not above its upper bound. -/
theorem graftDecision_inbound {topic : Topic} (inbound : (state.heap peer).out = false) :
    (state.graftDecision env peer topicHash topic).1 = true ↔ getBackoffTime env topic peer ≤ 0 ∧
      topic.meshPeers.size ≤ env.config.meshNHighForTopic topicHash ∧ state.below peer env.config.score.zero = false := by
  unfold graftDecision
  dsimp only
  split_ifs with waiting large negative
  · simp only [false_iff]
    exact fun admitted => absurd waiting (not_lt.mpr admitted.1)
  · simp only [false_iff]
    exact fun admitted => absurd large.2 (not_lt.mpr admitted.2.1)
  · simp [negative]
  · simp only [inbound, Bool.false_eq_true, not_false_eq_true, true_and] at large
    exact iff_of_true rfl ⟨not_lt.mp waiting, not_lt.mp large, Bool.eq_false_of_not_eq_true negative⟩

theorem meshOf_addToTopic : (state.addToTopic peer topicHash).meshOf topicHash = state.meshOf topicHash := by
  rw [meshOf_eq, meshOf_eq, lookup_addToTopic, Option.map_map]
  rfl

theorem meshOf_acceptGraft {topic : Topic} (found : state.topics.lookup topicHash = some topic) :
    (state.acceptGraft env peer topicHash).meshOf topicHash = topic.meshPeers.insert peer := by
  unfold acceptGraft
  change (modifyTopic topicHash _ state).meshOf topicHash = _
  rw [meshOf_eq, lookup_modifyTopic, if_pos rfl, found]
  rfl

theorem addToTopic_out : ((state.addToTopic peer topicHash).heap peer).out = (state.heap peer).out := by
  unfold addToTopic modifyTopic
  dsimp only
  rw [heap_modifyPeer, if_pos rfl]

/-- A GRAFT of an inbound peer takes it into the mesh of its topic exactly if it is admissible and the mesh is not above
its upper bound. -/
theorem meshOf_onGraft (inbound : (state.heap peer).out = false) :
    (state.admissible env peer pbGraft ∧
      (state.meshOf (pbGraft.topicId.getD [])).size ≤ env.config.meshNHighForTopic (pbGraft.topicId.getD []) ∧
      (state.onGraft env peer pbGraft).meshOf (pbGraft.topicId.getD []) =
        (state.meshOf (pbGraft.topicId.getD [])).insert peer) ∨
    ((state.onGraft env peer pbGraft).meshOf (pbGraft.topicId.getD []) = state.meshOf (pbGraft.topicId.getD []) ∧
      (state.admissible env peer pbGraft →
        env.config.meshNHighForTopic (pbGraft.topicId.getD []) < (state.meshOf (pbGraft.topicId.getD [])).size)) := by
  unfold onGraft admissible
  generalize pbGraft.topicId.getD [] = place
  have same : (state.addToTopic peer place).meshOf place = state.meshOf place := meshOf_addToTopic
  dsimp only
  rw [lookup_addToTopic]
  cases found : state.topics.lookup place with
  | none =>
    refine .inr ⟨same, ?_⟩
    rintro ⟨_, ⟨⟩, -⟩
  | some topic =>
    have decided : ((state.addToTopic peer place).graftDecision env peer place
        { topic with peers := topic.peers.insert peer }).2.topics.lookup place =
        some { topic with peers := topic.peers.insert peer } := by
      rw [(graftDecision_frame place _).1, lookup_addToTopic, found]
      rfl
    simp only [Option.map_some]
    split_ifs with publishOnly member accept
    · refine .inr ⟨same, ?_⟩
      rintro ⟨_, ⟨⟩, subscribed, -⟩
      cases publishOnly.symm.trans subscribed
    · refine .inr ⟨same, ?_⟩
      rintro ⟨_, ⟨⟩, -, outside, -⟩
      exact absurd member outside
    · rw [graftDecision_inbound (by rw [addToTopic_out, inbound]), below_addToTopic] at accept
      obtain ⟨rested, room, valued⟩ := accept
      rw [Bool.not_eq_true] at publishOnly
      refine .inl ⟨⟨topic, rfl, publishOnly, member, rested, valued⟩, by rwa [meshOf_of_lookup found], ?_⟩
      rw [meshOf_acceptGraft decided, meshOf_of_lookup found]
    · rw [graftDecision_inbound (by rw [addToTopic_out, inbound]), below_addToTopic] at accept
      refine .inr ⟨?_, ?_⟩
      · rw [makePrune_meshOf, meshOf_of_lookup decided, meshOf_of_lookup found]
      · rintro ⟨_, ⟨⟩, -, -, rested, valued⟩
        rw [meshOf_of_lookup found]
        exact not_le.mp fun room => accept ⟨rested, room, valued⟩

theorem State.admissible.outside (admissible : state.admissible env peer pbGraft) :
    peer ∉ state.meshOf (pbGraft.topicId.getD []) := by
  obtain ⟨topic, found, -, outside, -⟩ := admissible
  rwa [meshOf_of_lookup found]

/-- A GRAFT of an inbound peer is accepted exactly if it is admissible and the mesh is not above its upper bound; it then
adds one peer. -/
theorem onGraft_accepted_iff (inbound : (state.heap peer).out = false) : Accepted env peer pbGraft state ↔
    state.admissible env peer pbGraft ∧
      (state.meshOf (pbGraft.topicId.getD [])).size ≤ env.config.meshNHighForTopic (pbGraft.topicId.getD []) := by
  constructor
  · rintro ⟨outside, inside⟩
    obtain ⟨admissible, room, -⟩ | ⟨same, -⟩ := @meshOf_onGraft R _ env state peer pbGraft inbound
    · exact ⟨admissible, room⟩
    · rw [same] at inside
      exact absurd inside outside
  · rintro ⟨admissible, room⟩
    obtain ⟨-, -, mesh⟩ | ⟨-, above⟩ := @meshOf_onGraft R _ env state peer pbGraft inbound
    · refine ⟨admissible.outside, ?_⟩
      rw [mesh]
      simp
    · exact absurd room (not_le.mpr (above admissible))

theorem size_of_accepted (inbound : (state.heap peer).out = false) (accepted : Accepted env peer pbGraft state) :
    ((state.onGraft env peer pbGraft).meshOf (pbGraft.topicId.getD [])).size =
      (state.meshOf (pbGraft.topicId.getD [])).size + 1 := by
  obtain ⟨outside, inside⟩ := accepted
  obtain ⟨-, -, mesh⟩ | ⟨same, -⟩ := @meshOf_onGraft R _ env state peer pbGraft inbound
  · rw [mesh, UnorderedSet.size, UnorderedSet.elements_insert outside, List.length_cons, UnorderedSet.size]
  · rw [same] at inside
    exact absurd inside outside

/-- The grafts of one event stay within the bound exactly if none of them comes to a mesh that is just full. -/
theorem boundedGrafts_iff : BoundedGrafts env before event ↔ RoomyGrafts env before event := by
  constructor
  · intro bounded peer pbGraft state grafting inbound admissible full
    have accepted : Accepted env peer pbGraft state := (onGraft_accepted_iff inbound).mpr ⟨admissible, full.le⟩
    have size := size_of_accepted inbound accepted
    have limit := bounded peer pbGraft state grafting inbound accepted
    omega
  · intro roomy peer pbGraft state grafting inbound accepted
    obtain ⟨admissible, room⟩ := (onGraft_accepted_iff inbound).mp accepted
    have size := size_of_accepted inbound accepted
    have open_ := roomy peer pbGraft state grafting inbound admissible
    omega

/-- A run in which no accepted GRAFT of an inbound peer leaves a mesh above its upper bound. -/
def BoundedRuns (env : Env R) (lastSeqNo : Seqno) : List Event → State R → Prop :=
  Run (fun before event after => before.step env event = some after ∧ BoundedGrafts env before event)
    (State.initial env lastSeqNo)

/-- A run in which no admissible GRAFT of an inbound peer comes to a mesh of exactly `mesh_n_high` peers. -/
def RoomyRuns (env : Env R) (lastSeqNo : Seqno) : List Event → State R → Prop :=
  Run (fun before event after => before.step env event = some after ∧ RoomyGrafts env before event)
    (State.initial env lastSeqNo)

/-- A run keeps the upper bound of every mesh against inbound grafts exactly if no mesh is just full when one comes. -/
theorem boundedRuns_iff : BoundedRuns env lastSeqNo events state ↔ RoomyRuns env lastSeqNo events state :=
  Run.and_iff fun _ _ _ _ _ _ => boundedGrafts_iff

section Overflow

/-- An RPC that asks to be taken into the mesh of a topic. -/
def graftRpc : Pb.RPC := { control := { graft := [{ topicId := some [0x74] }] } }

/-- As many inbound peers as a mesh may have graft themselves into a subscribed topic, and one more is connected. -/
def fillingEvents : List Event :=
  .subscribe [0x74] :: ((List.range 13).flatMap fun index =>
    [.connected (samplePeerId (UInt8.ofNat (index + 1))) false,
      .handle (samplePeerId (UInt8.ofNat (index + 1))) kProtocolGossipsubv1_1]) ++
    (List.range 12).map fun peer => .message peer graftRpc.encode

/-- The last peer is accepted as well. -/
theorem inbound_graft_exceeds_bound : ∃ before after, Runs (sampleEnv true (10 ^ 6)) 0 fillingEvents before ∧
    before.step (sampleEnv true (10 ^ 6)) (.message 12 graftRpc.encode) = some after ∧
    ¬ BoundedGrafts (sampleEnv true (10 ^ 6)) before (.message 12 graftRpc.encode) ∧
    (sampleEnv true (10 ^ 6)).config.meshNHighForTopic [0x74] < (after.meshOf [0x74]).size := by
  have followed : ((fillingEvents.foldlM (State.step (sampleEnv true (10 ^ 6)))
      (State.initial (sampleEnv true (10 ^ 6)) 0)).bind fun before =>
        (before.step (sampleEnv true (10 ^ 6)) (.message 12 graftRpc.encode)).map fun after =>
          ! (before.below 12 (sampleEnv true (10 ^ 6)).config.score.graylistThreshold) && decide (12 < before.allocated) &&
            (before.heap 12).isGossipsub && ! (before.heap 12).out && decide (12 ∉ before.meshOf [0x74]) &&
            decide (12 ∈ (before.onGraft (sampleEnv true (10 ^ 6)) 12 { topicId := some [0x74] }).meshOf [0x74]) &&
            decide (12 < ((before.onGraft (sampleEnv true (10 ^ 6)) 12 { topicId := some [0x74] }).meshOf [0x74]).size) &&
            decide (12 < (after.meshOf [0x74]).size)) = some true := by
    decide +kernel
  obtain ⟨before, ran, followed⟩ := Option.bind_eq_some_iff.mp followed
  obtain ⟨after, stepped, observed⟩ := Option.map_eq_some_iff.mp followed
  simp only [Bool.and_eq_true, decide_eq_true_eq, Bool.not_eq_true'] at observed
  obtain ⟨⟨⟨⟨⟨⟨⟨heard, allocated⟩, capable⟩, inbound⟩, outside⟩, inside⟩, above⟩, exceeded⟩ := observed
  refine ⟨before, after, Run.of_foldlM ran, stepped, fun bounded => ?_, exceeded⟩
  have grafting : Grafting (sampleEnv true (10 ^ 6)) before (.message 12 graftRpc.encode) 12 { topicId := some [0x74] } before :=
    ⟨graftRpc, [], [], ⟨_, rfl, by decide⟩, by rw [heard]; exact Bool.false_ne_true, allocated, capable, rfl, rfl⟩
  exact absurd above (not_lt.mpr (bounded _ _ _ grafting inbound ⟨outside, inside⟩))

end Overflow

end Libp2p.Gossip
