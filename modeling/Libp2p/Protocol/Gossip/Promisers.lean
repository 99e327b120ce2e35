import Libp2p.Protocol.Gossip.Recipients
import Libp2p.Protocol.Gossip.Requests

/-! # What promising peers are told

A peer that promised a message need not send it once the message has come from elsewhere. But the promises of a message
are removed when its broadcast starts, before the broadcast visits them, so that a promising peer is told only as far as
it is a recipient of the message, or had been told before.
-/

namespace Libp2p.Gossip

open Library State

variable {R : Type} [Double R] {env : Env R} {state before after : State R} {topicHash : TopicHash}
  {from_ : Option PeerId} {sender : PeerId} {messageId : MessageId} {message : Message} {peer other : PeerPtr}
  {peers : List PeerPtr}

theorem mem_refusals_enqueue {op : BatchOp} : messageId ∈ ((state.enqueue peer op).heap other).refusals ↔
    messageId ∈ (state.heap other).refusals ∨ other = peer ∧ op = .idontwant messageId := by
  by_cases refuses : other = peer ∧ ∃ refused, op = .idontwant refused
  · obtain ⟨rfl, refused, rfl⟩ := refuses
    unfold Peer.refusals
    rw [enqueue_batch, if_pos rfl, Option.map_some, Option.getD_some, UnorderedSet.mem_elements, Rpc.apply,
      UnorderedSet.mem_insert, BatchOp.idontwant.injEq, eq_comm, or_comm]
    cases (state.heap other).batch <;> simp [UnorderedSet.mem_elements]
  · rw [refusals_enqueue]
    · refine (or_iff_left fun told => refuses ⟨told.1, messageId, told.2⟩).symm
    · by_contra both
      push Not at both
      exact refuses both

/-- From one state to another these peers were told not to send the message, as far as `add_peer` takes them. -/
structure Told (env : Env R) (from_ : Option PeerId) (messageId : MessageId) (message : Message) (peers : List PeerPtr)
    (before after : State R) : Prop where
  takes : after.takes env from_ message = before.takes env from_ message
  refusals : ∀ peer, messageId ∈ (after.heap peer).refusals ↔ messageId ∈ (before.heap peer).refusals ∨
    sendIdontwant env from_ message = true ∧ peer ∈ peers ∧ before.takes env from_ message peer = true

theorem Told.append {middle : State R} {first second : List PeerPtr}
    (early : Told env from_ messageId message first before middle)
    (late : Told env from_ messageId message second middle after) :
    Told env from_ messageId message (first ++ second) before after := by
  refine ⟨late.takes.trans early.takes, fun peer => ?_⟩
  rw [late.refusals, early.refusals, early.takes, List.mem_append]
  tauto

theorem told_addPeer :
    Told env from_ messageId message [peer] state (addPeer env from_ messageId message state peer) := by
  refine ⟨unswayed_addPeer.takes_eq, fun other => ?_⟩
  rw [List.mem_singleton]
  cases taken : state.takes env from_ message peer with
  | false =>
    rw [addPeer_of_not_takes taken]
    refine (or_iff_left ?_).symm
    rintro ⟨-, rfl, takes⟩
    exact Bool.false_ne_true (taken.symm.trans takes)
  | true =>
    have author := taken
    unfold State.takes at author
    simp only [Bool.and_eq_true, decide_eq_true_eq, Bool.not_eq_true'] at author
    obtain ⟨⟨source, author⟩, low⟩ := author
    unfold addPeer
    rw [if_neg source, if_neg author, if_neg (by simp [low])]
    dsimp only
    split_ifs with sends
    · rw [mem_refusals_enqueue, mem_refusals_enqueue, refusals_getBatch]
      simp only [reduceCtorEq, and_false, or_false, and_true]
      exact or_congr_right ⟨fun same => ⟨sends, same, same ▸ taken⟩, fun told => told.2.1⟩
    · rw [mem_refusals_enqueue, refusals_getBatch]
      simp only [reduceCtorEq, and_false, or_false]
      exact (or_iff_left fun told => sends told.1).symm

theorem walk_told : Walk env from_ messageId message (Told env from_ messageId message) where
  settled heap score _ _ := by
    refine ⟨(Sent.none heap score).takes, fun peer => ?_⟩
    rw [heap]
    simp
  append := Told.append
  addPeer _ _ := told_addPeer

/-- A broadcast removes the promises of its message. -/
theorem promises_broadcast : (state.broadcast env topicHash from_ messageId message).gossipPromises =
    state.gossipPromises.remove messageId := by
  have handed : Handed (state.startBroadcast topicHash from_ messageId message)
      (state.broadcast env topicHash from_ messageId message) := handed_spread
  exact congrArg Requests.promises handed.requests

/-- A broadcast tells its recipients, if the message is worth it, and nobody else. -/
theorem told_broadcast : Told env from_ messageId message (state.tried env topicHash from_) state
    (state.broadcast env topicHash from_ messageId message) := by
  have told := @Walk.spread R _ env (state.startBroadcast topicHash from_ messageId message) topicHash from_ messageId
    message _ walk_told peers_remove
  rw [(@startBroadcast_tried R _ env state topicHash from_ messageId message).1] at told
  exact ⟨told.takes, told.refusals⟩

/-- In every state, a broadcast of a received message that is large enough for an IDONTWANT leaves no promise of it. It
tells all peers that had promised it exactly if each of them is a recipient of the broadcast or had been told before. -/
theorem promisers_told_iff (large : (toProtobuf message).encode.length > env.config.idontwantMessageSizeThreshold) :
    ((∀ peer ∈ state.gossipPromises.peers messageId,
        messageId ∈ ((state.broadcast env topicHash (some sender) messageId message).heap peer).refusals) ∧
      ¬ (state.broadcast env topicHash (some sender) messageId message).gossipPromises.contains messageId) ↔
    ∀ peer ∈ state.gossipPromises.peers messageId, messageId ∈ (state.heap peer).refusals ∨
      state.Receives env topicHash (some sender) message [] peer := by
  have forgotten : ¬ (state.broadcast env topicHash (some sender) messageId message).gossipPromises.contains messageId := by
    rw [promises_broadcast]
    simp [GossipPromises.contains, GossipPromises.remove]
  have sends : sendIdontwant env (some sender) message = true := by simpa [sendIdontwant] using large
  rw [and_iff_left forgotten]
  refine forall₂_congr fun peer _ => ?_
  rw [told_broadcast.refusals, mem_tried, and_iff_right sends]
  simp only [reduceCtorEq, false_and, if_false, State.fills, State.topUp, Option.isNone_some, Bool.false_eq_true]
  exact or_congr_right and_comm

/-- A message that is new and of a known topic is broadcast from a state with the same promises and batches. -/
theorem receiveMessage_broadcasts (known : message.topic ∈ state.topics)
    (fresh : (state.duplicateCache.insert (env.config.messageIdFn message) (state.now env) (state.tick.now env)).2 = true) :
    ∃ calling : State R, calling.heap = state.heap ∧ calling.topics = state.topics ∧
      calling.gossipPromises = state.gossipPromises ∧
      state.receiveMessage env peer message = calling.broadcast env message.topic (some (state.heap peer).peerId)
        (env.config.messageIdFn message) message := by
  rw [receiveMessage_eq, if_pos known, if_pos fresh]
  unfold deliver
  refine ⟨_, ?_, ?_, ?_, rfl⟩ <;> simp only [tick, record, modifyScore, dateMessage]

section Samples

/-- A node to which every message is worth an IDONTWANT. -/
def tellingEnv : Env Rational :=
  { sampleEnv false (10 ^ 6) with config := { Config.default false with idontwantMessageSizeThreshold := 0 } }

def promisedMessage : Message :=
  { from_ := some (samplePeerId 2), data := [0x01], seqno := some 7, topic := [0x74]
    signature := (sampleMessage 2 7 [0x74] [0x01]).signature, receivedFrom := some (samplePeerId 2) }

/-- A peer that may or may not subscribe to a topic promises the message that another one is about to publish. -/
def promiserEvents (subscribes : Bool) : List Event :=
  [.subscribe [0x74], .connected (samplePeerId 1) false, .handle (samplePeerId 1) kProtocolGossipsubv1_2,
    .connected (samplePeerId 2) false, .handle (samplePeerId 2) kProtocolGossipsubv1_2,
    .message 0 (Pb.RPC.encode {
      subscriptions := if subscribes then [{ subscribe := some true, topicId := some [0x74] }] else []
      control := { ihave := [{ topicId := some [0x74], messageIds := [tellingEnv.config.messageIdFn promisedMessage] }] } })]

/-- A promising peer in the mesh is told, as a recipient. -/
theorem promisers_told_subscribed : ∃ state, Runs tellingEnv 0 (promiserEvents true) state ∧
    0 ∈ state.gossipPromises.peers (tellingEnv.config.messageIdFn promisedMessage) ∧
    ∀ peer ∈ state.gossipPromises.peers (tellingEnv.config.messageIdFn promisedMessage),
      tellingEnv.config.messageIdFn promisedMessage ∈ ((state.broadcast tellingEnv [0x74] (some (samplePeerId 2))
        (tellingEnv.config.messageIdFn promisedMessage) promisedMessage).heap peer).refusals := by
  have followed : ((promiserEvents true).foldlM (State.step tellingEnv) (State.initial tellingEnv 0)).map
      (fun state => decide (state.gossipPromises.peers (tellingEnv.config.messageIdFn promisedMessage) = [0]) &&
        state.takes tellingEnv (some (samplePeerId 2)) promisedMessage 0 && decide (0 ∈ state.meshOf [0x74])) =
      some true := by
    decide +kernel
  obtain ⟨state, ran, observed⟩ := Option.map_eq_some_iff.mp followed
  simp only [Bool.and_eq_true, decide_eq_true_eq] at observed
  obtain ⟨⟨promisers, taken⟩, meshed⟩ := observed
  have large : (toProtobuf promisedMessage).encode.length > tellingEnv.config.idontwantMessageSizeThreshold := by
    decide +kernel
  refine ⟨state, Run.of_foldlM ran, by rw [promisers]; exact List.mem_singleton.mpr rfl,
    ((promisers_told_iff large).mpr fun peer promised => .inr ?_).1⟩
  rw [promisers] at promised
  obtain rfl := List.mem_singleton.mp promised
  exact ⟨taken, .inr (.inl meshed)⟩

/-- A promising peer that is no recipient is not told. -/
theorem promiser_untold : ∃ state, Runs tellingEnv 0 (promiserEvents false) state ∧
    validate tellingEnv.config.validationMode tellingEnv.rsaBits tellingEnv.verify (state.heap 1).peerId
      (sampleMessage 2 7 [0x74] [0x01]) = some promisedMessage ∧
    promisedMessage.topic ∈ state.topics ∧
    (state.duplicateCache.insert (tellingEnv.config.messageIdFn promisedMessage) (state.now tellingEnv)
      (state.tick.now tellingEnv)).2 = true ∧
    (toProtobuf promisedMessage).encode.length > tellingEnv.config.idontwantMessageSizeThreshold ∧
    0 ∈ state.gossipPromises.peers (tellingEnv.config.messageIdFn promisedMessage) ∧
    tellingEnv.config.messageIdFn promisedMessage ∉
      ((state.receiveMessage tellingEnv 1 promisedMessage).heap 0).refusals := by
  have followed : ((promiserEvents false).foldlM (State.step tellingEnv) (State.initial tellingEnv 0)).map
      (fun state => decide (validate tellingEnv.config.validationMode tellingEnv.rsaBits tellingEnv.verify
          (state.heap 1).peerId (sampleMessage 2 7 [0x74] [0x01]) = some promisedMessage) &&
        decide (promisedMessage.topic ∈ state.topics) &&
        (state.duplicateCache.insert (tellingEnv.config.messageIdFn promisedMessage) (state.now tellingEnv)
          (state.tick.now tellingEnv)).2 &&
        decide ((toProtobuf promisedMessage).encode.length > tellingEnv.config.idontwantMessageSizeThreshold) &&
        decide (0 ∈ state.gossipPromises.peers (tellingEnv.config.messageIdFn promisedMessage)) &&
        decide (tellingEnv.config.messageIdFn promisedMessage ∉
          ((state.receiveMessage tellingEnv 1 promisedMessage).heap 0).refusals)) = some true := by
    decide +kernel
  obtain ⟨state, ran, observed⟩ := Option.map_eq_some_iff.mp followed
  simp only [Bool.and_eq_true, decide_eq_true_eq] at observed
  obtain ⟨⟨⟨⟨⟨valid, known⟩, fresh⟩, large⟩, promised⟩, untold⟩ := observed
  exact ⟨state, Run.of_foldlM ran, valid, known, fresh, large, promised, untold⟩

end Samples

end Libp2p.Gossip
