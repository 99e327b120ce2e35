import Libp2p.Protocol.Gossip.Requests

/-! # The messages that a node creates

A local publication creates one message. A node that signs gives it the next sequence number, and nothing else takes
one. The log calls a message published only if a publication created it.
-/

namespace Libp2p.Gossip

open Library State

variable {R : Type} [Double R] {env : Env R} {event : Event} {state before after : State R} {peer : PeerPtr}
  {topicHash : TopicHash} {messageId : MessageId} {message : Message} {data : Bytes} {from_ : Option PeerId}

/-- The message that an event creates if it is a publication. -/
def Event.creation (env : Env R) (state : State R) : Event → Option Message
  | .publish topicHash data | .publishTopic topicHash data => some (state.createMessage env topicHash data).1
  | _ => none

/-- A message depends on the state through the sequence number. -/
theorem createMessage_congr (same : before.lastSeqNo = after.lastSeqNo) :
    (before.createMessage env topicHash data).1 = (after.createMessage env topicHash data).1 := by
  unfold createMessage
  rw [same]
  cases env.config.messageAuthenticity <;> rfl

/-- What a node that signs creates. -/
theorem creation_signed (signed : env.config.messageAuthenticity = .signed)
    (created : event.creation env state = some message) :
    message.from_ = some env.hostId ∧ message.seqno = some state.lastSeqNo := by
  have made : ∀ topicHash data, (state.createMessage env topicHash data).1.from_ = some env.hostId ∧
      (state.createMessage env topicHash data).1.seqno = some state.lastSeqNo := by
    intro topicHash data
    unfold createMessage
    rw [signed]
    exact ⟨rfl, rfl⟩
  cases event with
  | publish topicHash data => exact Option.some.inj created ▸ made topicHash data
  | publishTopic topicHash data => exact Option.some.inj created ▸ made topicHash data
  | _ => cases created

/-- The content of a created message is what was published. -/
theorem creation_content (created : event.creation env state = some message) :
    event = .publish message.topic message.data ∨ event = .publishTopic message.topic message.data := by
  have made : ∀ topicHash data, (state.createMessage env topicHash data).1.topic = topicHash ∧
      (state.createMessage env topicHash data).1.data = data := by
    intro topicHash data
    unfold createMessage
    cases env.config.messageAuthenticity <;> exact ⟨rfl, rfl⟩
  cases event with
  | publish topicHash data =>
    obtain rfl := Option.some.inj created
    rw [(made topicHash data).1, (made topicHash data).2]
    exact .inl rfl
  | publishTopic topicHash data =>
    obtain rfl := Option.some.inj created
    rw [(made topicHash data).1, (made topicHash data).2]
    exact .inr rfl
  | _ => cases created

section Sequence

theorem lastSeqNo_getBatch : (state.getBatch peer).lastSeqNo = state.lastSeqNo := by
  rw [getBatch_eq]

theorem lastSeqNo_enqueue {op : BatchOp} : (state.enqueue peer op).lastSeqNo = state.lastSeqNo := by
  rw [enqueue_eq]

theorem lastSeqNo_makePrune : (state.makePrune env topicHash peer).lastSeqNo = state.lastSeqNo := by
  rw [makePrune_eq]

theorem lastSeqNo_addPeer : (addPeer env from_ messageId message state peer).lastSeqNo = state.lastSeqNo := by
  unfold addPeer
  dsimp only
  split_ifs <;> simp only [lastSeqNo_enqueue, lastSeqNo_getBatch]

theorem lastSeqNo_addPeers (peers : List PeerPtr) :
    (peers.foldl (addPeer env from_ messageId message) state).lastSeqNo = state.lastSeqNo :=
  foldl_field State.lastSeqNo fun _ _ => lastSeqNo_addPeer

theorem lastSeqNo_addFanout (chosen : List PeerPtr) :
    (state.addFanout env topicHash from_ messageId message chosen).lastSeqNo = state.lastSeqNo := by
  refine foldl_field State.lastSeqNo fun state peer => ?_
  have given : (addPeer env from_ messageId message state peer).lastSeqNo = state.lastSeqNo := lastSeqNo_addPeer
  exact given

theorem lastSeqNo_broadcastMesh :
    (state.broadcastMesh env topicHash from_ messageId message).lastSeqNo = state.lastSeqNo := by
  have stamped : ∀ (state : State R) (time : Time), (state.modifyTopic topicHash
      fun topic => { topic with lastPublish := time }).tick.lastSeqNo = state.lastSeqNo := fun _ _ => rfl
  have chosen : ∀ (state : State R) (all : UnorderedSet PeerPtr) (wanted : PeerPtr → Bool) (count : ℕ),
      (state.choose env all wanted count).2.lastSeqNo = state.lastSeqNo := fun _ _ _ _ => rfl
  unfold broadcastMesh
  dsimp only
  split_ifs
  · rw [stamped, lastSeqNo_addFanout, chosen, lastSeqNo_addPeers, lastSeqNo_addPeers]
  · rw [stamped, lastSeqNo_addPeers, lastSeqNo_addPeers]
  · rw [lastSeqNo_addPeers, lastSeqNo_addPeers]

/-- Handing a message to its recipients takes no number. -/
theorem lastSeqNo_spread : (state.spread env topicHash from_ messageId message).lastSeqNo = state.lastSeqNo := by
  have told : ∀ (peers : List PeerPtr) (state : State R), (peers.foldl
      (fun state peer => state.enqueue peer (.idontwant messageId)) state).lastSeqNo = state.lastSeqNo :=
    fun _ _ => foldl_field State.lastSeqNo fun _ _ => lastSeqNo_enqueue
  unfold spread
  dsimp only
  split_ifs
  · rw [lastSeqNo_addPeers, told]
  · rw [lastSeqNo_addPeers]
  · rw [lastSeqNo_broadcastMesh, told]
  · rw [lastSeqNo_broadcastMesh]

/-- Guarded updates take no number unless the event is a publication. -/
theorem Micro.lastSeqNo (micro : Micro env event before after) (silent : event.publishes = false) :
    after.lastSeqNo = before.lastSeqNo := by
  cases micro with
  | ledger ledger =>
    cases ledger with
    | numbered source =>
      rw [silent] at source
      cases source
    | duplicated => rw [countDuplicate_eq]
    | _ => rfl
  | batched => exact lastSeqNo_getBatch
  | queued => exact lastSeqNo_enqueue
  | grafted => rw [graft_eq]
  | expelled => exact lastSeqNo_makePrune
  | cut => exact lastSeqNo_makePrune
  | refused => exact lastSeqNo_makePrune
  | left => rw [leaveTopic_eq]
  | pruned => rw [removePeerFromMesh_eq]
  | upgraded => rw [announceUpgrade_eq]
  | admitted =>
    rw [deliver_eq]
    rfl
  | originated =>
    rw [originate_eq]
    rfl
  | opened => rw [openStream_eq]
  | disconnected => rw [onPeerDisconnected_eq]
  | expired => rw [expireTopic_eq]
  | aged => rw [shiftHistory_eq]
  | resumed => rw [resumeWriter_eq]
  | written => rw [onWritten_eq]
  | _ => rfl

theorem lastSeqNo_publishTopic (signed : env.config.messageAuthenticity = .signed) :
    (state.publishTopic env topicHash data).lastSeqNo = state.lastSeqNo + 1 := by
  have numbered : (state.createMessage env topicHash data).2.lastSeqNo = state.lastSeqNo + 1 := by
    unfold createMessage
    rw [signed]
  unfold publishTopic
  dsimp only
  split_ifs
  · exact numbered
  · rw [lastSeqNo_spread, originate_eq]
    exact numbered

/-- The topic of a publication has to exist first, which does not matter to the message. -/
theorem publish_eq : ∃ earlier : State R, state.publish env topicHash data = earlier.publishTopic env topicHash data ∧
    earlier.lastSeqNo = state.lastSeqNo ∧ earlier.log = state.log := by
  rw [publish, getOrCreateTopic_publishOnly]
  split_ifs
  · exact ⟨state, rfl, rfl, rfl⟩
  · exact ⟨state.createTopic env topicHash true, rfl, rfl, rfl⟩

/-- A node that signs takes one number for every message that it creates. -/
theorem lastSeqNo_of_step (signed : env.config.messageAuthenticity = .signed) (sound : before.roster.Sound)
    (stepped : before.step env event = some after) :
    after.lastSeqNo = before.lastSeqNo + UInt64.ofNat (event.creation env before).toList.length := by
  have kept : event.publishes = false → after.lastSeqNo = before.lastSeqNo := fun silent =>
    step_preserves (fun state => state.lastSeqNo = before.lastSeqNo)
      (fun _ _ micro same => (micro.lastSeqNo silent).trans same) sound stepped rfl
  cases event with
  | publish topicHash data =>
    obtain rfl := Option.some.inj stepped
    obtain ⟨earlier, same, number, -⟩ := @publish_eq R _ env before topicHash data
    rw [same, lastSeqNo_publishTopic signed, number]
    rfl
  | publishTopic topicHash data =>
    obtain ⟨-, ⟨⟩⟩ := Option.ite_none_right_eq_some.mp stepped
    rw [lastSeqNo_publishTopic signed]
    rfl
  | _ => exact (kept rfl).trans (UInt64.add_zero _).symm

end Sequence

section Published

theorem published_publishTopic {other : Message} {now later : Time}
    (logged : .published messageId other now later ∈ (state.publishTopic env topicHash data).log) :
    .published messageId other now later ∈ state.log ∨ other = (state.createMessage env topicHash data).1 := by
  have unlogged : (state.createMessage env topicHash data).2.log = state.log := by
    obtain ⟨message, lastSeqNo, made⟩ := @createMessage_eq R _ env topicHash state data
    rw [made]
  unfold publishTopic at logged
  dsimp only at logged
  split_ifs at logged
  · exact .inl (unlogged ▸ logged)
  · have spreading := @handed_spread R _ env ((state.createMessage env topicHash data).2.originate env topicHash
      (state.createMessage env topicHash data).1) topicHash
      (env.config.messageIdFn (state.createMessage env topicHash data).1) (state.createMessage env topicHash data).1 none
    obtain ⟨more, grown, queued⟩ := spreading.log
    rw [grown, originate_eq, List.mem_append] at logged
    rcases logged with new | logged
    · obtain ⟨peer, op, same⟩ := queued _ new
      cases same
    · simp only [List.mem_cons, Observation.published.injEq, reduceCtorEq, false_or] at logged
      rcases logged with ⟨-, same, -⟩ | earlier
      · exact .inr same
      · exact .inl (unlogged ▸ earlier)

/-- What is newly logged as published was created by the event. -/
theorem published_of_step (sound : before.roster.Sound) (stepped : before.step env event = some after)
    {other : Message} {now later : Time} (logged : .published messageId other now later ∈ after.log) :
    .published messageId other now later ∈ before.log ∨ event.creation env before = some other := by
  have kept : event.publishes = false → .published messageId other now later ∈ before.records.log := by
    intro silent
    refine step_preserves (fun state => .published messageId other now later ∈ state.records.log →
      .published messageId other now later ∈ before.records.log) ?_ sound stepped (fun same => same)
      (List.mem_filter.mpr ⟨logged, rfl⟩)
    intro first second micro held added
    refine held ?_
    have step := micro.records
    generalize first.records = earlier, second.records = next at step added
    cases step with
    | originated source =>
      rcases source with rfl | rfl <;> cases silent
    | queued => simpa using added
    | admitted => simpa using added
    | _ => exact added
  cases event with
  | publish topicHash data =>
    obtain rfl := Option.some.inj stepped
    obtain ⟨earlier, same, number, log⟩ := @publish_eq R _ env before topicHash data
    rw [same] at logged
    refine (published_publishTopic logged).imp (fun old => log ▸ old) fun made => ?_
    rw [made, createMessage_congr number]
    rfl
  | publishTopic topicHash data =>
    obtain ⟨-, ⟨⟩⟩ := Option.ite_none_right_eq_some.mp stepped
    refine (published_publishTopic logged).imp_right fun made => ?_
    rw [made]
    rfl
  | _ => exact .inl (List.mem_filter.mp (kept rfl)).1

end Published

end Libp2p.Gossip
