import Libp2p.Protocol.Gossip.Regrafting
import Libp2p.Protocol.Gossip.Relay
import Libp2p.Protocol.Gossip.RoundTrip

/-! # Grafts and prunes that share a batch

A batch keeps the topics it grafts in a set and those it prunes in a map, and the receiver works through the grafts
before the prunes. So a batch that was pending while its node changed its mind says nothing about the order: after any
prune the receiver ends without the sender in its mesh, even if the sender grafted again.
-/

namespace Libp2p.Gossip

open Library State

variable {R : Type} [Double R] {env : Env R} {state : State R} {topicHash : TopicHash} {peer : PeerPtr}

/-- What a node does about one peer in the mesh of one topic. -/
inductive Turn where
  | graft
  | prune
deriving DecidableEq

def State.turn (env : Env R) (topicHash : TopicHash) (peer : PeerPtr) (state : State R) : Turn → State R
  | .graft => state.graft env topicHash peer
  | .prune => state.makePrune env topicHash peer

/-- An entry of a batch that is no graft, no prune, and no subscription but that of the topic. -/
def BatchOp.Harmless (topicHash : TopicHash) : BatchOp → Prop
  | .subscribe place flag => place = topicHash ∧ flag = true
  | .graft _ | .prune .. => False
  | _ => True

/-- Put entries into a batch, which then exists. -/
def fillBatch (batch : Option Rpc) (entries : List BatchOp) : Option Rpc :=
  entries.foldl (fun batch entry => some ((batch.getD {}).apply entry)) batch

/-- The turns that are taken about a peer while one batch is pending. In between other entries may enter the batch, and
everything else may change. -/
inductive Pending (env : Env R) (topicHash : TopicHash) (peer : PeerPtr) : List Turn → State R → Prop
  | start {state : State R} (fresh : (state.heap peer).batch = none) (capable : (state.heap peer).isGossipsub) :
      Pending env topicHash peer [] state
  | turn {turns : List Turn} {state : State R} (turn : Turn) (pending : Pending env topicHash peer turns state) :
      Pending env topicHash peer (turns ++ [turn]) (state.turn env topicHash peer turn)
  | meanwhile {turns : List Turn} {state later : State R} (entries : List BatchOp)
      (pending : Pending env topicHash peer turns state) (harmless : ∀ entry ∈ entries, entry.Harmless topicHash)
      (filled : (later.heap peer).batch = fillBatch (state.heap peer).batch entries)
      (capable : (later.heap peer).isGossipsub) : Pending env topicHash peer turns later

section Sending

/-- What a batch holds about a topic after some turns. -/
structure Holds (topicHash : TopicHash) (turns : List Turn) (batch : Rpc) : Prop where
  graft : batch.graft.elements = if .graft ∈ turns then [topicHash] else []
  prune : batch.prune.keys = if .prune ∈ turns then [topicHash] else []
  subscriptions : ∀ place flag, batch.subscriptions.lookup place = some flag → place = topicHash ∧ flag = true

variable {turns : List Turn} {batch : Rpc} {entry : BatchOp}

theorem Holds.harmless (holds : Holds topicHash turns batch) (harmless : entry.Harmless topicHash) :
    Holds topicHash turns (batch.apply entry) := by
  cases entry with
  | subscribe place flag =>
    obtain ⟨rfl, rfl⟩ := harmless
    refine ⟨holds.graft, holds.prune, fun other flag found => ?_⟩
    have emplaced : (UnorderedMap.emplace batch.subscriptions place true).lookup other = some flag := by
      simp only [Rpc.apply, Rpc.subscribe] at found
      split_ifs at found
      · exact (Option.ite_none_left_eq_some.mp (UnorderedMap.lookup_erase_eq.symm.trans found)).2
      · exact found
    rw [UnorderedMap.lookup_emplace] at emplaced
    split_ifs at emplaced with same
    · cases old : batch.subscriptions.lookup place with
      | none =>
        rw [old] at emplaced
        exact ⟨same, (Option.some.inj emplaced).symm⟩
      | some before =>
        rw [old] at emplaced
        obtain rfl := Option.some.inj emplaced
        exact ⟨same, (holds.subscriptions place before old).2⟩
    · exact holds.subscriptions other flag emplaced
  | graft | prune => exact harmless.elim
  | _ => exact ⟨holds.graft, holds.prune, holds.subscriptions⟩

theorem Holds.grafted (holds : Holds topicHash turns batch) :
    Holds topicHash (turns ++ [.graft]) (batch.apply (.graft topicHash)) := by
  refine ⟨?_, ?_, holds.subscriptions⟩
  · have before := holds.graft
    simp only [Rpc.apply, UnorderedSet.insert, before]
    split_ifs <;> simp_all
  · have before := holds.prune
    simp only [Rpc.apply, before]
    simp

theorem Holds.pruned {backoff : Option Backoff} (holds : Holds topicHash turns batch) :
    Holds topicHash (turns ++ [.prune]) (batch.apply (.prune topicHash backoff)) := by
  refine ⟨?_, ?_, holds.subscriptions⟩
  · have before := holds.graft
    simp only [Rpc.apply, before]
    simp
  · have before := holds.prune
    have last : Turn.prune ∈ turns ++ [.prune] := by simp
    simp only [Rpc.apply, UnorderedMap.emplace, if_pos last]
    split_ifs at before with pruned
    · have present : topicHash ∈ batch.prune := AList.mem_keys.mpr (before ▸ List.mem_singleton_self _)
      rw [if_pos present, before]
    · have absent : topicHash ∉ batch.prune := by
        intro present
        have listed := AList.mem_keys.mp present
        rw [before] at listed
        cases listed
      rw [if_neg absent, AList.keys_insert, before]
      rfl

/-- A turn is an entry of the batch. -/
theorem batch_turn (turn : Turn) (capable : (state.heap peer).isGossipsub) : ∃ entry,
    ((state.turn env topicHash peer turn).heap peer).batch = some (((state.heap peer).batch.getD {}).apply entry) ∧
      (turn = .graft → entry = .graft topicHash) ∧ (turn = .prune → ∃ backoff, entry = .prune topicHash backoff) := by
  cases turn with
  | graft =>
    refine ⟨.graft topicHash, ?_, fun _ => rfl, by simp⟩
    unfold State.turn graft
    dsimp only
    rw [enqueue_batch, if_pos rfl]
    split
    · split_ifs <;> rfl
    · rfl
  | prune =>
    unfold State.turn makePrune
    dsimp only
    rw [if_neg (not_not.mpr capable)]
    split_ifs
    · exact ⟨.prune topicHash (some env.config.pruneBackoff), by rw [enqueue_batch, if_pos rfl]; rfl, by simp, by simp⟩
    · exact ⟨.prune topicHash none, by rw [enqueue_batch, if_pos rfl]; rfl, by simp, by simp⟩

theorem capable_turn (turn : Turn) : ((state.turn env topicHash peer turn).heap peer).isGossipsub =
    (state.heap peer).isGossipsub := by
  cases turn with
  | graft => exact graft_isGossipsub
  | prune =>
    unfold Peer.isGossipsub Peer.supports State.turn
    rw [(makePrune_peer topicHash peer state).2.2.1]

theorem Holds.fillBatch {entries : List BatchOp} {batch : Option Rpc} (holds : Holds topicHash turns (batch.getD {}))
    (harmless : ∀ entry ∈ entries, entry.Harmless topicHash) :
    Holds topicHash turns ((fillBatch batch entries).getD {}) ∧ (batch.isSome → (fillBatch batch entries).isSome) := by
  induction entries generalizing batch with
  | nil => exact ⟨holds, id⟩
  | cons entry rest ih =>
    have first := holds.harmless (harmless entry (by simp))
    obtain ⟨later, some_⟩ := @ih (some ((batch.getD {}).apply entry)) first fun other member => harmless other (by simp [member])
    exact ⟨later, fun _ => some_ rfl⟩

/-- The batch says which turns were taken, and not in which order. -/
theorem Pending.holds (pending : Pending env topicHash peer turns state) :
    Holds topicHash turns ((state.heap peer).batch.getD {}) ∧ (turns ≠ [] → (state.heap peer).batch.isSome) ∧
      (state.heap peer).isGossipsub := by
  induction pending with
  | start fresh capable =>
    rw [fresh]
    refine ⟨⟨rfl, rfl, ?_⟩, fun some_ => absurd rfl some_, capable⟩
    intro place flag found
    cases found
  | @turn turns state turn pending ih =>
    obtain ⟨holds, -, capable⟩ := ih
    obtain ⟨entry, batch, grafts, prunes⟩ := @batch_turn R _ env state topicHash peer turn capable
    rw [batch, capable_turn]
    refine ⟨?_, fun _ => rfl, capable⟩
    cases turn with
    | graft => exact grafts rfl ▸ holds.grafted
    | prune =>
      obtain ⟨backoff, rfl⟩ := prunes rfl
      exact holds.pruned
  | meanwhile entries pending harmless filled capable ih =>
    obtain ⟨holds, some_, -⟩ := ih
    obtain ⟨later, kept⟩ := holds.fillBatch harmless
    rw [filled]
    exact ⟨later, fun taken => kept (some_ taken), capable⟩

end Sending

section Receiving

/-- A node that would take a peer into the mesh of a topic. -/
structure Welcoming (env : Env R) (topicHash : TopicHash) (peer : PeerPtr) (state : State R) : Prop where
  allocated : peer < state.allocated
  capable : (state.heap peer).isGossipsub
  heard : ¬ state.below peer env.config.score.graylistThreshold
  subscribed : (state.topics.lookup topicHash).map Topic.publishOnly = some false
  rested : Rested topicHash peer state
  room : (state.meshOf topicHash).size ≤ env.config.meshNHighForTopic topicHash
  valued : ¬ state.below peer env.config.score.zero

/-- The topic is subscribed, and the peer is in its mesh or would be taken into it. -/
def Inviting (env : Env R) (topicHash : TopicHash) (peer : PeerPtr) (state : State R) : Prop :=
  ∃ topic, state.topics.lookup topicHash = some topic ∧ topic.publishOnly = false ∧
    (peer ∈ topic.meshPeers ∨ topic.backoff.get peer = 0 ∧
      topic.meshPeers.size ≤ env.config.meshNHighForTopic topicHash ∧ ¬ state.below peer env.config.score.zero)

theorem Welcoming.inviting (welcoming : Welcoming env topicHash peer state) : Inviting env topicHash peer state := by
  obtain ⟨topic, found, subscribed⟩ := Option.map_eq_some_iff.mp welcoming.subscribed
  have room := welcoming.room
  rw [meshOf_of_lookup found] at room
  exact ⟨topic, found, subscribed, .inr ⟨welcoming.rested topic found, room, welcoming.valued⟩⟩

theorem below_addToTopic {threshold : R} :
    (state.addToTopic peer topicHash).below peer threshold = state.below peer threshold := by
  unfold State.below addToTopic modifyTopic
  dsimp only
  rw [heap_modifyPeer, if_pos rfl]
  rfl

theorem Inviting.addToTopic (inviting : Inviting env topicHash peer state) :
    Inviting env topicHash peer (state.addToTopic peer topicHash) := by
  obtain ⟨topic, found, subscribed, open_⟩ := inviting
  refine ⟨{ topic with peers := topic.peers.insert peer }, by rw [lookup_addToTopic, found]; rfl, subscribed, ?_⟩
  rw [below_addToTopic]
  exact open_

theorem lookup_graft : (state.graft env topicHash peer).topics.lookup topicHash =
    (state.topics.lookup topicHash).map fun topic => { topic with meshPeers := topic.meshPeers.insert peer } := by
  rw [graft_topics, lookup_modifyTopic, if_pos rfl]

/-- The subscription to the topic may only add the peer to the mesh. -/
theorem Inviting.onSubscription {pbSubscribe : Pb.SubOpts} (inviting : Inviting env topicHash peer state)
    (named : pbSubscribe.topicId = some topicHash) (joins : pbSubscribe.subscribe = some true) :
    Inviting env topicHash peer (state.onSubscription env peer pbSubscribe) := by
  unfold State.onSubscription
  rw [named, joins]
  simp only [Option.getD_some, if_pos]
  have added := inviting.addToTopic
  unfold graftOnSubscribe
  split
  · exact added
  · next topic found =>
    split_ifs
    · obtain ⟨topic, found, subscribed, -⟩ := added
      refine ⟨{ topic with meshPeers := topic.meshPeers.insert peer }, by rw [lookup_graft, found]; rfl, subscribed, .inl ?_⟩
      simp
    · exact added

theorem graftDecision_accepts {topic : Topic} (rested : topic.backoff.get peer = 0)
    (room : topic.meshPeers.size ≤ env.config.meshNHighForTopic topicHash)
    (valued : ¬ state.below peer env.config.score.zero) : state.graftDecision env peer topicHash topic = (true, state) := by
  have time : getBackoffTime env topic peer = 0 := by
    unfold getBackoffTime
    dsimp only
    rw [rested, Nat.zero_sub]
    simp
  unfold graftDecision
  dsimp only
  rw [time, if_neg (lt_irrefl _), if_neg (by rintro ⟨-, full⟩; exact absurd room (not_le.mpr full)), if_neg valued]

/-- A graft is accepted. -/
theorem Inviting.onGraft {pbGraft : Pb.ControlGraft} (inviting : Inviting env topicHash peer state)
    (named : pbGraft.topicId = some topicHash) :
    Inviting env topicHash peer (state.onGraft env peer pbGraft) ∧
      peer ∈ (state.onGraft env peer pbGraft).meshOf topicHash := by
  obtain ⟨topic, found, subscribed, open_⟩ := inviting.addToTopic
  unfold State.onGraft
  rw [named]
  simp only [Option.getD_some, found]
  rw [if_neg (by simp [subscribed])]
  by_cases member : peer ∈ topic.meshPeers
  · rw [if_pos member]
    exact ⟨⟨topic, found, subscribed, open_⟩, by rwa [meshOf_of_lookup found]⟩
  · obtain ⟨rested, room, valued⟩ := open_.resolve_left member
    rw [if_neg member, graftDecision_accepts rested room valued]
    have joined : ((state.addToTopic peer topicHash).acceptGraft env peer topicHash).topics.lookup topicHash =
        some { topic with meshPeers := topic.meshPeers.insert peer } := by
      unfold acceptGraft
      change (modifyTopic topicHash _ (state.addToTopic peer topicHash)).topics.lookup topicHash = _
      rw [lookup_modifyTopic, if_pos rfl, found]
      rfl
    simp only [if_pos]
    exact ⟨⟨_, joined, subscribed, .inl (by simp)⟩, by rw [meshOf_of_lookup joined]; simp⟩

/-- A prune is always followed. -/
theorem not_mem_onPrune {pbPrune : Pb.ControlPrune} (named : pbPrune.topicId = some topicHash) :
    peer ∉ (state.onPrune env peer pbPrune).meshOf topicHash := by
  unfold State.onPrune
  rw [named, Option.getD_some, meshOf_eq, removePeerFromMesh_mesh, ← meshOf_eq, mem_eraseFromMesh]
  exact fun kept => kept.1 rfl

theorem topics_handleGossip {rpc : Pb.RPC} : (state.handleGossip env peer rpc).topics = state.topics := by
  have refused : ∀ (state : State R) entry, (state.onIdontwant env peer entry).topics = state.topics :=
    fun state entry => foldl_field State.topics fun _ _ => rfl
  have served : ∀ (state : State R) entry, (state.onIwant env peer entry).topics = state.topics := by
    intro state entry
    unfold onIwant
    split_ifs
    · rfl
    · refine foldl_field State.topics fun state messageId => ?_
      unfold serveMessage
      split
      · rfl
      · dsimp only
        split_ifs
        · rfl
        · rfl
        · exact (enqueue_frame peer _ _).1
  have asked : (state.handleIhave env peer rpc.control.ihave).1.topics = state.topics := by
    unfold handleIhave
    dsimp only
    split_ifs
    all_goals try rfl
    unfold requestMessages
    refine Eq.trans (foldl_field State.topics fun state messageId => ?_) (getBatch_frame peer _).1
    exact (enqueue_frame peer _ _).1
  unfold handleGossip
  rw [foldl_field State.topics refused, foldl_field State.topics served, asked]

/-- What a welcoming node makes of an RPC that grafts or prunes itself in one topic. -/
theorem mem_mesh_onMessage {rpc : Pb.RPC} {encoded : Bytes} (welcoming : Welcoming env topicHash peer state)
    (decoded : Pb.RPC.decode encoded = some rpc) (messages : rpc.publish = [])
    (subscriptions : ∀ entry ∈ rpc.subscriptions, entry.topicId = some topicHash ∧ entry.subscribe = some true)
    (grafts : ∀ entry ∈ rpc.control.graft, entry.topicId = some topicHash)
    (prunes : ∀ entry ∈ rpc.control.prune, entry.topicId = some topicHash)
    (some_ : rpc.control.graft ≠ [] ∨ rpc.control.prune ≠ []) :
    peer ∈ (state.onMessage env peer encoded).1.meshOf topicHash ↔ rpc.control.prune = [] := by
  have handled := onMessage_eq rfl decoded welcoming.allocated welcoming.capable welcoming.heard
  have whole : (state.onMessage env peer encoded).1.meshOf topicHash = (state.afterPrunes env peer rpc).meshOf topicHash := by
    rw [handled, meshOf_eq, topics_handleGossip]
    rfl
  have subscribed : Inviting env topicHash peer (rpc.subscriptions.foldl (onSubscription env peer) state) :=
    foldl_preserves (Inviting env topicHash peer) (fun state entry member inviting =>
      inviting.onSubscription (subscriptions entry member).1 (subscriptions entry member).2) welcoming.inviting
  rw [whole]
  unfold afterPrunes afterGrafts
  rw [messages, List.foldl_nil]
  cases pruned : rpc.control.prune with
  | cons first rest =>
    rw [pruned] at prunes
    simp only [List.foldl_cons, reduceCtorEq, iff_false]
    exact foldl_preserves (fun state : State R => peer ∉ state.meshOf topicHash)
      (fun state entry member _ => not_mem_onPrune (prunes entry (by simp [member])))
      (not_mem_onPrune (prunes first (by simp)))
  | nil =>
    simp only [List.foldl_nil, iff_true]
    cases grafted : rpc.control.graft with
    | nil => simp [pruned, grafted] at some_
    | cons first rest =>
      rw [grafted] at grafts
      have joined := subscribed.onGraft (grafts first (by simp))
      exact (foldl_preserves (fun state => Inviting env topicHash peer state ∧ peer ∈ state.meshOf topicHash)
        (fun state entry member joined => joined.1.onGraft (grafts entry (by simp [member]))) joined).2

end Receiving

section Exchange

variable {batch : Rpc} {turns : List Turn} {first : State R} {frame : Bytes} {receiver : State R} {other : Env R}
  {sender : PeerPtr}

/-- After some turns the first frame of the batch carries its control part. -/
theorem Holds.head_splitBatch (holds : Holds topicHash turns batch) (some_ : turns ≠ []) :
    batch.splitBatch.head? = some batch.controlRpc.encode := by
  have control : batch.hasControl = true := by
    obtain ⟨turn, member⟩ := List.exists_mem_of_ne_nil turns some_
    unfold Rpc.hasControl
    cases turn with
    | graft =>
      have grafts := holds.graft
      rw [if_pos member] at grafts
      simp [grafts]
    | prune =>
      have prunes := holds.prune
      rw [if_pos member] at prunes
      have entries : batch.prune.entries ≠ [] := by
        intro empty
        simp [AList.keys, empty, List.keys] at prunes
      simp [entries]
  simp [Rpc.splitBatch, control]

/-- The receiver ends with the sender in its mesh exactly if the sender never pruned it while the batch was pending. -/
theorem mem_mesh_iff_not_pruned (some_ : turns ≠ []) (pending : Pending env topicHash peer turns state)
    (found : (state.heap peer).batch = some batch) (encoded : batch.splitBatch.head? = some frame)
    (short : frame.length ≤ maxSize) (welcoming : Welcoming other topicHash sender receiver) :
    sender ∈ (receiver.onMessage other sender frame).1.meshOf topicHash ↔ .prune ∉ turns := by
  obtain ⟨holds, -, -⟩ := pending.holds
  rw [found, Option.getD_some] at holds
  obtain rfl : batch.controlRpc.encode = frame := by
    rw [holds.head_splitBatch some_] at encoded
    exact Option.some.inj encoded
  have decoded : Pb.RPC.decode batch.controlRpc.encode = some batch.controlRpc :=
    Pb.RPC.decode_encode (short.trans_lt (by decide)) (by simp [Rpc.controlRpc])
  have grafts : batch.controlRpc.control.graft = if .graft ∈ turns then [{ topicId := some topicHash }] else [] := by
    simp only [Rpc.controlRpc, holds.graft]
    split_ifs <;> rfl
  have prunes : batch.controlRpc.control.prune.map Pb.ControlPrune.topicId =
      if .prune ∈ turns then [some topicHash] else [] := by
    have keys := holds.prune
    have same : batch.controlRpc.control.prune.map Pb.ControlPrune.topicId = batch.prune.keys.map some := by
      simp [Rpc.controlRpc, AList.keys, List.keys]
    rw [same, keys]
    split_ifs <;> rfl
  have emptied : batch.controlRpc.control.prune = [] ↔ .prune ∉ turns := by
    rw [← List.map_eq_nil_iff, prunes]
    split_ifs with pruned <;> simp [pruned]
  rw [← emptied]
  refine mem_mesh_onMessage welcoming decoded rfl ?_ ?_ ?_ ?_
  · intro entry member
    obtain ⟨⟨place, flag⟩, listed, rfl⟩ := List.mem_map.mp member
    obtain ⟨rfl, rfl⟩ := holds.subscriptions place flag (AList.mem_lookup_iff.mpr listed)
    exact ⟨rfl, rfl⟩
  · intro entry member
    rw [grafts] at member
    split_ifs at member
    · rw [List.mem_singleton.mp member]
    · cases member
  · intro entry member
    have listed := List.mem_map_of_mem (f := Pb.ControlPrune.topicId) member
    rw [prunes] at listed
    split_ifs at listed
    · exact List.mem_singleton.mp listed
    · cases listed
  · obtain ⟨turn, member⟩ := List.exists_mem_of_ne_nil turns some_
    cases turn with
    | graft => exact .inl (by simp [grafts, member])
    | prune => exact .inr fun none_ => emptied.mp none_ member

/-- A batch keeps the order of its grafts and prunes exactly if the sender does not graft last after it has pruned. -/
theorem order_kept_iff (some_ : turns ≠ []) (pending : Pending env topicHash peer turns state)
    (found : (state.heap peer).batch = some batch) (encoded : batch.splitBatch.head? = some frame)
    (short : frame.length ≤ maxSize) (welcoming : Welcoming other topicHash sender receiver) :
    (sender ∈ (receiver.onMessage other sender frame).1.meshOf topicHash ↔ turns.getLast? = some .graft) ↔
      (turns.getLast? = some .graft → .prune ∉ turns) := by
  rw [mem_mesh_iff_not_pruned some_ pending found encoded short welcoming]
  constructor
  · exact fun same => same.mpr
  · intro settled
    refine ⟨fun unpruned => ?_, settled⟩
    have last := List.getLast?_eq_getLast_of_ne_nil some_
    rw [last]
    cases ending : turns.getLast some_ with
    | graft => rfl
    | prune => exact absurd (ending ▸ List.getLast_mem some_) unpruned

/-- A node that knows a peer and a topic, and has nothing to say yet. -/
def readyEvents : List Event :=
  [.subscribe [0x74], .connected (samplePeerId 1) false, .handle (samplePeerId 1) kProtocolGossipsubv1_1]

/-- Two such nodes exchange what some turns of the one say to the other. -/
def exchange (turns : List Turn) (state : State Rational) : Option (Rpc × Bytes) :=
  ((turns.foldl (State.turn briefEnv [0x74] 0) state).heap 0).batch.bind fun batch =>
    batch.splitBatch.head?.map fun frame => (batch, frame)

theorem exists_exchange {turns : List Turn} {met : Bool}
    (followed : ((readyEvents.foldlM (State.step briefEnv) (State.initial briefEnv 0)).bind fun state =>
      (exchange turns state).map fun sent =>
        decide ((state.heap 0).batch.isNone) && (state.heap 0).isGossipsub && decide (0 < state.allocated) &&
          ! state.below 0 briefEnv.config.score.graylistThreshold &&
          decide ((state.topics.lookup [0x74]).map Topic.publishOnly = some false) &&
          decide ((state.topics.lookup [0x74]).all fun topic => topic.backoff.get 0 = 0) &&
          decide ((state.meshOf [0x74]).size ≤ briefEnv.config.meshNHighForTopic [0x74]) &&
          ! state.below 0 briefEnv.config.score.zero && decide (sent.2.length ≤ maxSize) &&
          (decide (0 ∈ (state.onMessage briefEnv 0 sent.2).1.meshOf [0x74]) == met)) = some true) :
    ∃ state batch frame, Pending briefEnv [0x74] 0 turns (turns.foldl (State.turn briefEnv [0x74] 0) state) ∧
      ((turns.foldl (State.turn briefEnv [0x74] 0) state).heap 0).batch = some batch ∧
      batch.splitBatch.head? = some frame ∧ frame.length ≤ maxSize ∧ Welcoming briefEnv [0x74] 0 state ∧
      (0 ∈ (state.onMessage briefEnv 0 frame).1.meshOf [0x74] ↔ met = true) := by
  obtain ⟨state, -, followed⟩ := Option.bind_eq_some_iff.mp followed
  obtain ⟨⟨batch, frame⟩, sent, observed⟩ := Option.map_eq_some_iff.mp followed
  obtain ⟨_, found, headed⟩ := Option.bind_eq_some_iff.mp sent
  obtain ⟨_, encoded, ⟨⟩⟩ := Option.map_eq_some_iff.mp headed
  simp only [Bool.and_eq_true, decide_eq_true_eq, Bool.not_eq_true', beq_iff_eq] at observed
  obtain ⟨⟨⟨⟨⟨⟨⟨⟨⟨fresh, capable⟩, allocated⟩, heard⟩, subscribed⟩, rested⟩, room⟩, valued⟩, short⟩, result⟩ := observed
  refine ⟨state, batch, frame, ?_, found, encoded, short, ?_, ?_⟩
  · have started : Pending briefEnv [0x74] 0 [] state := .start (Option.isNone_iff_eq_none.mp fresh) capable
    have onward : ∀ (turns before : List Turn) (state : State Rational), Pending briefEnv [0x74] 0 before state →
        Pending briefEnv [0x74] 0 (before ++ turns) (turns.foldl (State.turn briefEnv [0x74] 0) state) := by
      intro turns
      induction turns with
      | nil => exact fun before state pending => by simpa using pending
      | cons turn rest ih => exact fun before state pending => by simpa using ih _ _ (pending.turn turn)
    exact onward turns [] state started
  · refine ⟨allocated, capable, by simp [heard], subscribed, fun topic found => ?_, room, by simp [valued]⟩
    rw [found] at rested
    simpa using rested
  · rw [← result]
    simp

/-- A single graft arrives. -/
theorem order_kept_iff_grafting : ∃ state batch frame,
    Pending briefEnv [0x74] 0 [.graft] (state.turn briefEnv [0x74] 0 .graft) ∧
    ((state.turn briefEnv [0x74] 0 .graft).heap 0).batch = some batch ∧ batch.splitBatch.head? = some frame ∧
    Welcoming briefEnv [0x74] 0 state ∧
    (0 ∈ (state.onMessage briefEnv 0 frame).1.meshOf [0x74] ↔ [Turn.graft].getLast? = some .graft) := by
  obtain ⟨state, batch, frame, pending, found, encoded, short, welcoming, -⟩ :=
    @exists_exchange [.graft] true (by decide +kernel)
  exact ⟨state, batch, frame, pending, found, encoded, welcoming,
    (order_kept_iff (by simp) pending found encoded short welcoming).mpr (by simp)⟩

/-- A graft that follows a prune in the same batch is lost. -/
theorem graft_after_prune_lost : ∃ state batch frame,
    Pending briefEnv [0x74] 0 [.prune, .graft] ((state.turn briefEnv [0x74] 0 .prune).turn briefEnv [0x74] 0 .graft) ∧
    (((state.turn briefEnv [0x74] 0 .prune).turn briefEnv [0x74] 0 .graft).heap 0).batch = some batch ∧
    batch.splitBatch.head? = some frame ∧ frame.length ≤ maxSize ∧ Welcoming briefEnv [0x74] 0 state ∧
    [Turn.prune, .graft].getLast? = some .graft ∧ 0 ∉ (state.onMessage briefEnv 0 frame).1.meshOf [0x74] := by
  obtain ⟨state, batch, frame, pending, found, encoded, short, welcoming, result⟩ :=
    @exists_exchange [.prune, .graft] false (by decide +kernel)
  exact ⟨state, batch, frame, pending, found, encoded, short, welcoming, rfl, by simpa using result⟩

end Exchange

end Libp2p.Gossip
