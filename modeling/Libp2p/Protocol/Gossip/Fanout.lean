import Libp2p.Protocol.Gossip.Pacing

/-! # How long a fan-out topic lives

A publish-only topic is dropped by the first heartbeat that finds its last publication `fanout_ttl` ago. The time of a
publication is noted at the end of `broadcast`, but only by the branch that does not flood: a flooded publication
leaves the topic looking as if it had never been used. The view of a state here is, for every topic, whether it is
publish-only and when it was last published to.
-/

namespace Libp2p.Gossip

open Library State

variable {R : Type} [Double R] {env : Env R} {event : Event} {state before after : State R} {topicHash other : TopicHash}

/-- Whether a topic is publish-only, and the time of its last publication. -/
def Topic.stamp (topic : Topic) : Bool × Time := (topic.publishOnly, topic.lastPublish)

def State.stamp (state : State R) (topicHash : TopicHash) : Option (Bool × Time) :=
  (state.topics.lookup topicHash).map Topic.stamp

theorem mem_of_stamp {stamp : Bool × Time} (found : state.stamp topicHash = some stamp) : topicHash ∈ state.topics := by
  obtain ⟨topic, found, -⟩ := Option.map_eq_some_iff.mp found
  exact UnorderedMap.mem_of_lookup found

section Updates

theorem stamp_modifyTopic {change : Topic → Topic} (kept : ∀ topic, (change topic).stamp = topic.stamp) :
    (state.modifyTopic topicHash change).stamp other = state.stamp other :=
  modifyTopic_field Topic.stamp kept

theorem stamp_enqueue {peer : PeerPtr} {op : BatchOp} : (state.enqueue peer op).stamp other = state.stamp other := by
  rw [State.stamp, (enqueue_frame peer op state).1]
  rfl

theorem stamp_makePrune {peer : PeerPtr} : (state.makePrune env topicHash peer).stamp other = state.stamp other :=
  makePrune_field topicHash peer state Topic.stamp fun _ _ => rfl

theorem stamp_removePeerFromMesh {peer : PeerPtr} {backoff : Option Backoff} {always : Bool} :
    (state.removePeerFromMesh env topicHash peer backoff always).stamp other = state.stamp other :=
  removePeerFromMesh_field topicHash peer state Topic.stamp fun _ _ _ => rfl

theorem stamp_graft {peer : PeerPtr} : (state.graft env topicHash peer).stamp other = state.stamp other := by
  rw [State.stamp, graft_topics]
  exact modifyTopic_field Topic.stamp fun _ => rfl

theorem stamp_leaveTopic {peer : PeerPtr} : (state.leaveTopic env peer topicHash).stamp other = state.stamp other :=
  stamp_removePeerFromMesh.trans (stamp_modifyTopic fun _ => rfl)

theorem stamp_forgetInTopics {peer : PeerPtr} {topics : List TopicHash} :
    (topics.foldl (forgetInTopic peer) state).stamp other = state.stamp other :=
  foldl_field (fun state : State R => state.stamp other) fun _ _ => stamp_modifyTopic fun _ => rfl

theorem stamp_createTopic {publishOnly : Bool} : (state.createTopic env topicHash publishOnly).stamp other =
    if other = topicHash then some (publishOnly, 0) else state.stamp other := by
  rw [State.stamp, createTopic, UnorderedMap.lookup_insert_eq]
  split_ifs <;> rfl

theorem stamp_announceUpgrade : (state.announceUpgrade topicHash).stamp other =
    if other = topicHash then (state.stamp topicHash).map (fun stamp => (false, stamp.2)) else state.stamp other := by
  have announced : ∀ (peers : List PeerPtr) (state : State R),
      (peers.foldl (fun state peer => state.enqueue peer (.subscribe topicHash true)) state).topics = state.topics :=
    fun _ _ => foldl_field State.topics fun state peer => (enqueue_frame peer _ state).1
  have upgraded : (state.announceUpgrade topicHash).stamp other = (state.modifyTopic topicHash fun topic =>
      { topic with publishOnly := false }).stamp other := by
    refine Eq.trans (stamp_modifyTopic (by exact fun _ => rfl)) ?_
    change ((State.topics (List.foldl _ _ _)).lookup other).map Topic.stamp = _
    rw [announced]
    rfl
  rw [upgraded, State.stamp, lookup_modifyTopic]
  split_ifs with same
  · rw [State.stamp, Option.map_map, Option.map_map]
    rfl
  · rfl

theorem stamp_shiftHistory : (state.shiftHistory topicHash).stamp other = state.stamp other := by
  unfold shiftHistory
  split
  · rfl
  · exact stamp_modifyTopic fun _ => rfl

end Updates

/-- Outside of heartbeats and publications, a topic keeps its stamp unless it is created or becomes a subscribed one. -/
theorem Micro.stamp (micro : Micro env event before after) (calm : event ≠ .heartbeat)
    (quiet : event.publishes = false) (other : TopicHash) :
    after.stamp other = before.stamp other ∨ event.creates other ∧
      ((∃ time, after.stamp other = some (false, time)) ∨
        before.stamp other = none ∧ after.stamp other = some (true, 0)) := by
  cases micro with
  | ledger ledger =>
    cases ledger with
    | duplicated => exact .inl (by rw [countDuplicate_eq]; rfl)
    | _ => exact .inl rfl
  | incidental place only =>
    cases only with
    | stamped time source => exact absurd source (by simp [quiet])
    | shifted source => exact absurd source calm
  | batched peer => exact .inl (by rw [getBatch_eq]; rfl)
  | queued peer => exact .inl stamp_enqueue
  | grafted => exact .inl stamp_graft
  | expelled place peer => exact .inl ((stamp_modifyTopic (by exact fun _ => rfl)).trans stamp_makePrune)
  | cut place peer => exact .inl (stamp_makePrune.trans (stamp_modifyTopic (by exact fun _ => rfl)))
  | refused => exact .inl stamp_makePrune
  | joined => exact .inl (stamp_modifyTopic fun _ => rfl)
  | announced => exact .inl (stamp_modifyTopic fun _ => rfl)
  | left => exact .inl stamp_leaveTopic
  | pruned => exact .inl stamp_removePeerFromMesh
  | fannedOut => exact .inl (stamp_modifyTopic fun topic => by split_ifs <;> rfl)
  | trimmed => exact .inl (stamp_modifyTopic fun _ => rfl)
  | created place publishOnly absent asked source =>
    rw [stamp_createTopic]
    split_ifs with same
    · subst same
      refine .inr ⟨source, ?_⟩
      cases publishOnly with
      | true => exact .inr ⟨by rw [State.stamp, AList.lookup_eq_none.mpr absent]; rfl, rfl⟩
      | false => exact .inl ⟨0, rfl⟩
    · exact .inl rfl
  | upgraded place kind asked =>
    rw [stamp_announceUpgrade]
    split_ifs with same
    · subst same
      obtain ⟨topic, found, -⟩ := Option.map_eq_some_iff.mp kind
      exact .inr ⟨.inl asked, .inl ⟨topic.lastPublish, by rw [State.stamp, found]; rfl⟩⟩
    · exact .inl rfl
  | admitted => exact .inl (by rw [deliver_eq]; exact stamp_modifyTopic fun _ => rfl)
  | originated => exact .inl (by rw [originate_eq]; exact stamp_modifyTopic fun _ => rfl)
  | opened => exact .inl (by rw [openStream_eq]; rfl)
  | disconnected peerId =>
    left
    unfold onPeerDisconnected
    dsimp only
    split
    · rfl
    · exact stamp_forgetInTopics
  | expired place source => exact absurd source calm
  | aged place source => exact absurd source calm
  | resumed peer => exact .inl (by rw [resumeWriter_eq]; rfl)
  | written peer frame rest => exact .inl (by rw [onWritten_eq]; rfl)
  | _ => exact .inl rfl

section Records

variable {first second : Records}

theorem Records.Step.readings_le (step : Records.Step env event first second) : first.readings ≤ second.readings := by
  cases step <;> first | assumption | exact le_rfl | exact Nat.le_add_right _ _

theorem Records.Step.broadcasts_le (step : Records.Step env event first second) (messageId : MessageId) :
    first.broadcasts messageId ≤ second.broadcasts messageId := by
  cases step <;> simp [Records.broadcasts, List.countP_cons, Observation.broadcasts]

theorem Chain.readings_le (chain : Chain env event before after) : before.readings ≤ after.readings :=
  chain_preserves (fun state : State R => before.readings ≤ state.readings) chain
    (fun _ _ micro le => le.trans micro.records.readings_le) le_rfl

theorem Chain.broadcasts_le (chain : Chain env event before after) (messageId : MessageId) :
    before.broadcasts messageId ≤ after.broadcasts messageId := by
  refine chain_preserves (fun state : State R => before.broadcasts messageId ≤ state.broadcasts messageId) chain ?_ le_rfl
  intro first second micro le
  have more := micro.records.broadcasts_le messageId
  rw [broadcasts_records, broadcasts_records] at more
  exact le.trans more

end Records

section Publishing

variable {messageId : MessageId} {message : Message} {data : Bytes}

/-- Queueing a message to peers touches neither topics nor the clock. -/
theorem addPeers_frame {from_ : Option PeerId} {peers : List PeerPtr} :
    (peers.foldl (addPeer env from_ messageId message) state).topics = state.topics ∧
      (peers.foldl (addPeer env from_ messageId message) state).readings = state.readings := by
  refine ⟨topics_addPeers, foldl_field State.readings fun state peer => ?_⟩
  unfold addPeer
  dsimp only
  split_ifs <;> simp

theorem addFanout_frame {from_ : Option PeerId} {chosen : List PeerPtr} :
    (state.addFanout env topicHash from_ messageId message chosen).stamp other = state.stamp other ∧
      (state.addFanout env topicHash from_ messageId message chosen).readings = state.readings := by
  refine ⟨foldl_field (fun state : State R => state.stamp other) fun state peer => ?_,
    foldl_field State.readings fun state peer => ?_⟩
  · refine (stamp_modifyTopic fun topic => by split_ifs <;> rfl).trans ?_
    rw [State.stamp, addPeer_topics]
    rfl
  · exact (@addPeers_frame R _ env state messageId message from_ [peer]).2

/-- Whoever the recipients of a publication are, it is noted on a state with the same topics and the same reading. -/
theorem broadcastMesh_noted : ∃ middle : State R, (∀ other, middle.stamp other = state.stamp other) ∧
    middle.readings = state.readings ∧ state.broadcastMesh env topicHash none messageId message =
      (middle.modifyTopic topicHash fun topic => { topic with lastPublish := middle.now env }).tick := by
  have handed : ∀ (peers : List PeerPtr) (state : State R),
      (∀ other, (peers.foldl (addPeer env none messageId message) state).stamp other = state.stamp other) ∧
        (peers.foldl (addPeer env none messageId message) state).readings = state.readings := by
    intro peers state
    refine ⟨fun other => ?_, addPeers_frame.2⟩
    rw [State.stamp, addPeers_frame.1]
    rfl
  unfold broadcastMesh
  set flooded := ((state.peersOf topicHash).elements.filter fun peer => (state.heap peer).isFloodsub).foldl
    (addPeer env none messageId message) state
  set meshed := (flooded.meshOf topicHash).elements.foldl (addPeer env none messageId message) flooded
  have stamps : ∀ other, meshed.stamp other = state.stamp other :=
    fun other => ((handed _ flooded).1 other).trans ((handed _ state).1 other)
  have readings : meshed.readings = state.readings := (handed _ flooded).2.trans (handed _ state).2
  dsimp only [Option.isNone_none]
  rw [if_pos rfl]
  split_ifs
  · refine ⟨_, fun other => ?_, ?_, rfl⟩
    · exact addFanout_frame.1.trans (stamps other)
    · exact (@addFanout_frame R _ env _ topicHash topicHash messageId message none _).2.trans readings
  · exact ⟨meshed, stamps, readings, rfl⟩

/-- A publication that is not flooded is noted with the reading that ends it. -/
theorem stamp_broadcastMesh : (state.broadcastMesh env topicHash none messageId message).stamp other =
    if other = topicHash then (state.stamp topicHash).map fun stamp => (stamp.1, state.now env)
    else state.stamp other := by
  obtain ⟨middle, stamps, readings, noted⟩ := @broadcastMesh_noted R _ env state topicHash messageId message
  rw [noted]
  change ((middle.modifyTopic _ _).topics.lookup other).map Topic.stamp = _
  rw [lookup_modifyTopic]
  split_ifs with same
  · rw [← stamps, State.stamp, Option.map_map, Option.map_map, State.now, State.now, readings]
    rfl
  · exact stamps other

theorem readings_broadcastMesh : (state.broadcastMesh env topicHash none messageId message).readings =
    state.readings + 1 := by
  obtain ⟨middle, -, readings, noted⟩ := @broadcastMesh_noted R _ env state topicHash messageId message
  rw [noted]
  exact congrArg (· + 1) readings

/-- What a publication does to stamps and to the clock once its message is known to be new. -/
def Noted (env : Env R) (topicHash : TopicHash) (before after : State R) : Prop :=
  if env.config.floodPublish then
    after.readings = before.readings + 2 ∧ ∀ other, after.stamp other = before.stamp other
  else
    after.readings = before.readings + 3 ∧ ∀ other, after.stamp other =
      if other = topicHash then (before.stamp topicHash).map fun stamp => (stamp.1, env.clock (before.readings + 2))
      else before.stamp other

theorem stamp_originate : (state.originate env topicHash message).stamp other = state.stamp other := by
  rw [originate_eq]
  exact stamp_modifyTopic fun _ => rfl

theorem spread_own : state.spread env topicHash none messageId message =
    if env.config.floodPublish then
      (state.peersOf topicHash).elements.foldl (addPeer env none messageId message) state
    else state.broadcastMesh env topicHash none messageId message := by
  simp [spread]

theorem noted_broadcast :
    Noted env topicHash state ((state.originate env topicHash message).spread env topicHash none messageId message) := by
  have readings : (state.originate env topicHash message).readings = state.readings + 2 := by rw [originate_eq]
  rw [spread_own]
  unfold Noted
  by_cases flooding : env.config.floodPublish
  · rw [if_pos flooding, if_pos flooding]
    refine ⟨addPeers_frame.2.trans readings, fun other => ?_⟩
    rw [State.stamp, addPeers_frame.1]
    exact stamp_originate
  · rw [if_neg flooding, if_neg flooding]
    refine ⟨?_, fun other => ?_⟩
    · rw [readings_broadcastMesh, readings]
    · rw [stamp_broadcastMesh, stamp_originate, stamp_originate, State.now, readings]

theorem broadcasts_originate : state.broadcasts (env.config.messageIdFn message) <
    (state.originate env topicHash message).broadcasts (env.config.messageIdFn message) := by
  rw [originate_eq]
  simp [State.broadcasts, Observation.broadcasts]

/-- A publication either finds its message to be a duplicate and changes nothing here, or broadcasts it. -/
theorem publishTopic_noted (source : event = .publish topicHash data ∨ event = .publishTopic topicHash data) :
    ((state.publishTopic env topicHash data).readings = state.readings ∧
        ∀ other, (state.publishTopic env topicHash data).stamp other = state.stamp other) ∨
      Noted env topicHash state (state.publishTopic env topicHash data) ∧
        ∃ messageId, state.broadcasts messageId < (state.publishTopic env topicHash data).broadcasts messageId := by
  obtain ⟨message, lastSeqNo, made⟩ := @createMessage_eq R _ env topicHash state data
  unfold publishTopic
  rw [made]
  dsimp only
  split_ifs with duplicate
  · exact .inl ⟨rfl, fun _ => rfl⟩
  · have noted : Noted env topicHash ({ state with lastSeqNo } : State R)
        (State.spread env topicHash none (env.config.messageIdFn message) message
          (State.originate env topicHash message { state with lastSeqNo })) := noted_broadcast
    refine .inr ⟨noted, env.config.messageIdFn message, ?_⟩
    have spreading : Chain env event (State.originate env topicHash message { state with lastSeqNo })
        (State.spread env topicHash none (env.config.messageIdFn message) message
          (State.originate env topicHash message { state with lastSeqNo })) :=
      chain_spread (by rcases source with rfl | rfl <;> rfl) (fun _ => by rcases source with rfl | rfl <;> rfl)
        started_startBroadcast
    exact broadcasts_originate.trans_le (spreading.broadcasts_le _)

end Publishing

section Expiring

/-- Checking a topic drops it or leaves its stamp alone; a dropped one was publish-only and found to be late. -/
theorem expireTopic_cases (env : Env R) (state : State R) (place other : TopicHash) :
    (state.expireTopic env place).stamp other = state.stamp other ∨
    (state.expireTopic env place).stamp other = none ∧ (state.expireTopic env place).readings = state.readings + 1 ∧
      ∃ time, state.stamp other = some (true, time) ∧ time + env.config.fanoutTtl ≤ state.now env := by
  unfold expireTopic
  split
  · exact .inl rfl
  · next topic found =>
    split_ifs with publishOnly early
    · exact .inl rfl
    · rw [State.stamp, UnorderedMap.lookup_erase_eq]
      split_ifs with same
      · subst same
        refine .inr ⟨rfl, rfl, topic.lastPublish, ?_, not_lt.mp early⟩
        rw [State.stamp, found, Option.map_some, Topic.stamp, publishOnly]
      · exact .inl rfl
    · exact .inl rfl

theorem expireTopic_readings (place : TopicHash) : state.readings ≤ (state.expireTopic env place).readings := by
  unfold expireTopic
  split
  · exact le_rfl
  · split_ifs
    · exact Nat.le_succ _
    · exact Nat.le_succ _
    · exact le_rfl

theorem expireTopics_readings {keys : List TopicHash} :
    state.readings ≤ (keys.foldl (expireTopic env) state).readings := by
  induction keys generalizing state with
  | nil => exact le_rfl
  | cons place rest ih => exact (expireTopic_readings place).trans ih

theorem expireTopics_absent {keys : List TopicHash} (absent : state.stamp other = none) :
    (keys.foldl (expireTopic env) state).stamp other = none := by
  induction keys generalizing state with
  | nil => exact absent
  | cons place rest ih =>
    apply ih
    rcases expireTopic_cases env state place other with same | ⟨gone, -⟩
    · rw [same, absent]
    · exact gone

/-- What the expiry loop drops was publish-only and late at a reading of the loop. -/
theorem expireTopics_late {keys : List TopicHash} :
    (keys.foldl (expireTopic env) state).stamp other = state.stamp other ∨
      (keys.foldl (expireTopic env) state).stamp other = none ∧
      ∃ time reading, state.stamp other = some (true, time) ∧ state.readings ≤ reading ∧
        reading < (keys.foldl (expireTopic env) state).readings ∧ time + env.config.fanoutTtl ≤ env.clock reading := by
  induction keys generalizing state with
  | nil => exact .inl rfl
  | cons place rest ih =>
    rw [List.foldl_cons]
    rcases expireTopic_cases env state place other with same | ⟨gone, ticked, time, found, late⟩
    · rcases ih with kept | ⟨gone, time, reading, found, after, within, late⟩
      · exact .inl (kept.trans same)
      · exact .inr ⟨gone, time, reading, same ▸ found, (expireTopic_readings place).trans after, within, late⟩
    · refine .inr ⟨expireTopics_absent gone, time, state.readings, found, le_rfl, ?_, late⟩
      have forward := @expireTopics_readings R _ env (state.expireTopic env place) rest
      omega

/-- A publish-only topic that is late when the loop starts is dropped. -/
theorem expireTopics_drops {keys : List TopicHash} {time : Time} (found : state.stamp other = some (true, time))
    (late : time + env.config.fanoutTtl ≤ state.now env) (listed : other ∈ keys) :
    (keys.foldl (expireTopic env) state).stamp other = none := by
  induction keys generalizing state with
  | nil => cases listed
  | cons place rest ih =>
    rw [List.foldl_cons]
    by_cases here : other = place
    · subst here
      apply expireTopics_absent
      obtain ⟨topic, lookup, stamp⟩ := Option.map_eq_some_iff.mp found
      obtain ⟨publishOnly, rfl⟩ := Prod.mk.inj stamp
      simp only [expireTopic, lookup, publishOnly, if_true, if_neg (not_lt.mpr late), State.stamp, AList.lookup_erase]
      rfl
    · rcases expireTopic_cases env state place other with same | ⟨gone, -⟩
      · refine ih (same.trans found) (late.trans (env.monotone (expireTopic_readings place))) ?_
        exact (List.mem_cons.mp listed).resolve_left here
      · exact expireTopics_absent gone

theorem stamp_startHeartbeat : (state.startHeartbeat env).stamp other = state.stamp other := by
  rw [State.stamp, lookup_startHeartbeat, Option.map_map]
  rfl

theorem readings_startHeartbeat : (state.startHeartbeat env).readings = state.readings + 1 := by
  have shifted : ∀ state : State R, state.shiftBackoffs.readings = state.readings :=
    fun state => foldl_field State.readings fun _ _ => rfl
  unfold startHeartbeat applyIwantPenalties
  dsimp only
  refine (foldl_field State.readings (by exact fun _ _ => rfl)).trans ?_
  exact congrArg (· + 1) (shifted _)

theorem stamp_quiet (chain : Chain env .decay before after) : after.stamp other = before.stamp other := by
  refine chain_preserves (fun state : State R => state.stamp other = before.stamp other) chain ?_ rfl
  intro first second micro same
  rcases micro.stamp (by simp) rfl other with kept | ⟨created, -⟩
  · exact kept.trans same
  · rcases created with subscribed | ⟨data, published⟩
    · cases subscribed
    · cases published

/-- After the expiry loop a heartbeat leaves the stamps alone. -/
theorem finishHeartbeat_frame : (state.finishHeartbeat env).stamp other = state.stamp other ∧
    state.readings ≤ (state.finishHeartbeat env).readings := by
  have maintained : Chain env .decay state _ := chain_maintenance
  set middle := (state.forTopics env (maintainTopic env)).forTopics env (emitGossipFor env)
  have aged : (middle.forTopics env shiftHistory).stamp other = middle.stamp other :=
    foldl_field (fun state : State R => state.stamp other) fun _ _ => stamp_shiftHistory
  have timed : (middle.forTopics env shiftHistory).readings = middle.readings := by
    refine foldl_field State.readings fun state place => ?_
    unfold shiftHistory
    split <;> rfl
  have cleared : Chain env .decay (middle.forTopics env shiftHistory) (state.finishHeartbeat env) := chain_clearRefusals
  exact ⟨(stamp_quiet cleared).trans (aged.trans (stamp_quiet maintained)),
    maintained.readings_le.trans (timed ▸ cleared.readings_le)⟩

/-- A heartbeat leaves a topic alone, or drops a publish-only one that was late at one of its readings. -/
theorem heartbeat_late : (state.heartbeat env).stamp other = state.stamp other ∨
    (state.heartbeat env).stamp other = none ∧
    ∃ time reading, state.stamp other = some (true, time) ∧ state.readings ≤ reading ∧
      reading < (state.heartbeat env).readings ∧ time + env.config.fanoutTtl ≤ env.clock reading := by
  obtain ⟨stamps, forward⟩ := @finishHeartbeat_frame R _ env ((state.startHeartbeat env).expireTopics env) other
  rcases @expireTopics_late R _ env (state.startHeartbeat env) other (state.startHeartbeat env).topics.keys with
    kept | ⟨gone, time, reading, found, after, within, late⟩
  · exact .inl (stamps.trans (kept.trans stamp_startHeartbeat))
  · rw [stamp_startHeartbeat] at found
    rw [readings_startHeartbeat] at after
    exact .inr ⟨stamps.trans gone, time, reading, found, by omega, within.trans_le forward, late⟩

theorem readings_heartbeat : state.readings < (state.heartbeat env).readings := by
  have started := @readings_startHeartbeat R _ env state
  have expired := @expireTopics_readings R _ env (state.startHeartbeat env) (state.startHeartbeat env).topics.keys
  have finished := (@finishHeartbeat_frame R _ env ((state.startHeartbeat env).expireTopics env) []).2
  change (state.startHeartbeat env).readings ≤ ((state.startHeartbeat env).expireTopics env).readings at expired
  change _ ≤ (state.heartbeat env).readings at finished
  omega

/-- A publish-only topic that is late when a heartbeat starts is dropped by it. -/
theorem heartbeat_drops {time : Time} (found : state.stamp other = some (true, time))
    (late : time + env.config.fanoutTtl ≤ state.now env) : (state.heartbeat env).stamp other = none := by
  have present : (state.startHeartbeat env).stamp other = some (true, time) := stamp_startHeartbeat.trans found
  refine finishHeartbeat_frame.1.trans (expireTopics_drops present (late.trans (env.monotone ?_)) ?_)
  · rw [readings_startHeartbeat]
    exact Nat.le_succ _
  · exact AList.mem_keys.mp (mem_of_stamp present)

end Expiring

/-- A step publishes to a publish-only topic, its message is broadcast, and the time is one of its readings. -/
structure Published (env : Env R) (topicHash : TopicHash) (time : Time) (before after : State R) : Prop where
  kind : (after.topics.lookup topicHash).map Topic.publishOnly = some true
  broadcast : ∃ messageId, before.broadcasts messageId < after.broadcasts messageId
  reading : ∃ reading, before.readings ≤ reading ∧ reading < after.readings ∧ time = env.clock reading

/-- The run published to a topic at a time. -/
def PublishedAt (env : Env R) (lastSeqNo : Seqno) (events : List Event) (topicHash : TopicHash) (time : Time) : Prop :=
  ∃ first data rest before after, events = first ++ .publish topicHash data :: rest ∧ Runs env lastSeqNo first before ∧
    before.step env (.publish topicHash data) = some after ∧ Published env topicHash time before after

/-- No heartbeat before the end of `fanout_ttl` drops a topic that was published to, and a heartbeat drops a
publish-only topic that was not published to for that long. -/
structure FanoutLives (env : Env R) (lastSeqNo : Seqno) (events : List Event) (state : State R) : Prop where
  kept : ∀ topicHash time, PublishedAt env lastSeqNo events topicHash time → topicHash ∈ state.topics →
    (∀ reading, state.readings ≤ reading → reading < (state.heartbeat env).readings →
      env.clock reading < time + env.config.fanoutTtl) → topicHash ∈ (state.heartbeat env).topics
  dropped : ∀ topicHash, (state.topics.lookup topicHash).map Topic.publishOnly = some true →
    env.config.fanoutTtl ≤ state.now env →
    (∀ time, PublishedAt env lastSeqNo events topicHash time → time + env.config.fanoutTtl ≤ state.now env) →
    topicHash ∉ (state.heartbeat env).topics

section Timing

variable {published : TopicHash → Time → Prop}

/-- The stamps of publish-only topics are publications, and a publication is remembered for `fanout_ttl`. -/
structure Timed (env : Env R) (published : TopicHash → Time → Prop) (state : State R) : Prop where
  past : ∀ topicHash time, published topicHash time → ∃ reading < state.readings, time = env.clock reading
  dated : ∀ topicHash time, state.stamp topicHash = some (true, time) → time = 0 ∨ published topicHash time
  kept : ∀ topicHash time, published topicHash time →
    (∃ stamp, state.stamp topicHash = some stamp ∧ (stamp.1 = true → time ≤ stamp.2)) ∨
      ∃ reading < state.readings, time + env.config.fanoutTtl ≤ env.clock reading

/-- Time passes, and topics keep their stamps, become subscribed or are created. -/
theorem Timed.frame (timed : Timed env published before) (forward : before.readings ≤ after.readings)
    (stamps : ∀ other, after.stamp other = before.stamp other ∨ (∃ time, after.stamp other = some (false, time)) ∨
      before.stamp other = none ∧ after.stamp other = some (true, 0)) : Timed env published after := by
  refine ⟨?_, ?_, ?_⟩
  · intro topicHash time happened
    obtain ⟨reading, earlier, same⟩ := timed.past topicHash time happened
    exact ⟨reading, earlier.trans_le forward, same⟩
  · intro topicHash time found
    rcases stamps topicHash with same | ⟨other, subscribed⟩ | ⟨-, created⟩
    · exact timed.dated topicHash time (same ▸ found)
    · rw [subscribed] at found
      cases found
    · rw [created] at found
      cases found
      exact .inl rfl
  · intro topicHash time happened
    rcases timed.kept topicHash time happened with ⟨stamp, found, fresh⟩ | ⟨reading, earlier, late⟩
    · left
      rcases stamps topicHash with same | ⟨other, subscribed⟩ | ⟨absent, -⟩
      · exact ⟨stamp, same.trans found, fresh⟩
      · exact ⟨_, subscribed, fun publishOnly => by cases publishOnly⟩
      · rw [absent] at found
        cases found
    · exact .inr ⟨reading, earlier.trans_le forward, late⟩

theorem Timed.update (timed : Timed env published before) (micro : Micro env event before after)
    (calm : event ≠ .heartbeat) (quiet : event.publishes = false) : Timed env published after := by
  refine timed.frame micro.records.readings_le fun other => ?_
  rcases micro.stamp calm quiet other with same | ⟨-, changed⟩
  · exact .inl same
  · exact .inr changed

theorem Timed.heartbeat (timed : Timed env published state) : Timed env published (state.heartbeat env) := by
  have forward := (@readings_heartbeat R _ env state).le
  refine ⟨?_, ?_, ?_⟩
  · intro topicHash time happened
    obtain ⟨reading, earlier, same⟩ := timed.past topicHash time happened
    exact ⟨reading, earlier.trans_le forward, same⟩
  · intro topicHash time found
    rcases @heartbeat_late R _ env state topicHash with same | ⟨gone, -⟩
    · exact timed.dated topicHash time (same ▸ found)
    · rw [gone] at found
      cases found
  · intro topicHash time happened
    rcases timed.kept topicHash time happened with ⟨stamp, found, fresh⟩ | ⟨reading, earlier, late⟩
    · rcases @heartbeat_late R _ env state topicHash with same | ⟨-, dropped, reading, stamped, -, within, late⟩
      · exact .inl ⟨stamp, same.trans found, fresh⟩
      · right
        rw [found] at stamped
        obtain rfl := Option.some.inj stamped
        exact ⟨reading, within, (Nat.add_le_add_right (fresh rfl) _).trans late⟩
    · exact .inr ⟨reading, earlier.trans_le forward, late⟩

/-- A publication that is noted, or that goes to a subscribed topic. -/
theorem Timed.noted {published' : TopicHash → Time → Prop} (timed : Timed env published before)
    (noted : Noted env topicHash before after)
    (unflooded : env.config.floodPublish = true → ∃ time, before.stamp topicHash = some (false, time))
    (older : ∀ other time, published other time → published' other time)
    (newer : ∀ other time, published' other time → published other time ∨ other = topicHash ∧
      (∃ stamp, after.stamp topicHash = some (true, stamp)) ∧
        ∃ reading, before.readings ≤ reading ∧ reading < after.readings ∧ time = env.clock reading)
    (own : after.stamp topicHash = some (true, env.clock (before.readings + 2)) →
      published' topicHash (env.clock (before.readings + 2))) : Timed env published' after := by
  by_cases flooding : env.config.floodPublish
  · obtain ⟨time, subscribed⟩ := unflooded flooding
    rw [Noted, if_pos flooding] at noted
    obtain ⟨forward, stamps⟩ := noted
    have framed : Timed env published after := timed.frame (by omega) fun other => .inl (stamps other)
    have same : published' = published := by
      funext other time
      refine propext ⟨fun happened => ?_, older other time⟩
      rcases newer other time happened with earlier | ⟨rfl, ⟨stamp, publishOnly⟩, -⟩
      · exact earlier
      · rw [stamps, subscribed] at publishOnly
        cases publishOnly
    rw [same]
    exact framed
  · rw [Noted, if_neg flooding] at noted
    obtain ⟨forward, stamps⟩ := noted
    refine ⟨?_, ?_, ?_⟩
    · intro other time happened
      rcases newer other time happened with earlier | ⟨-, -, reading, -, within, same⟩
      · obtain ⟨reading, earlier, same⟩ := timed.past other time earlier
        exact ⟨reading, by omega, same⟩
      · exact ⟨reading, within, same⟩
    · intro other time found
      by_cases here : other = topicHash
      · subst here
        have stamped := stamps other
        rw [if_pos rfl, found] at stamped
        obtain ⟨stamp, -, same⟩ := Option.map_eq_some_iff.mp stamped.symm
        obtain ⟨-, rfl⟩ := Prod.mk.inj same
        exact .inr (own found)
      · rw [stamps, if_neg here] at found
        exact (timed.dated other time found).imp_right (older other time)
    · intro other time happened
      by_cases here : other = topicHash
      · subst here
        -- Whenever it was, this publication is the later one.
        have ordered : time ≤ env.clock (before.readings + 2) := by
          rcases newer other time happened with earlier | ⟨-, -, reading, -, within, rfl⟩
          · obtain ⟨reading, earlier, rfl⟩ := timed.past other time earlier
            exact env.monotone (by omega)
          · exact env.monotone (by omega)
        rcases newer other time happened with earlier | ⟨-, ⟨stamp, found⟩, -⟩
        · rcases timed.kept other time earlier with ⟨stamp, found, -⟩ | ⟨reading, earlier, late⟩
          · exact .inl ⟨_, by rw [stamps, if_pos rfl, found, Option.map_some], fun _ => ordered⟩
          · exact .inr ⟨reading, by omega, late⟩
        · have stamped := stamps other
          rw [if_pos rfl, found] at stamped
          obtain ⟨_, -, same⟩ := Option.map_eq_some_iff.mp stamped.symm
          obtain ⟨-, rfl⟩ := Prod.mk.inj same
          exact .inl ⟨_, found, fun _ => ordered⟩
      · rcases newer other time happened with earlier | ⟨same, -⟩
        · rcases timed.kept other time earlier with ⟨stamp, found, fresh⟩ | ⟨reading, earlier, late⟩
          · exact .inl ⟨stamp, by rw [stamps, if_neg here, found], fresh⟩
          · exact .inr ⟨reading, by omega, late⟩
        · exact absurd same here

end Timing

section Runs

variable {lastSeqNo : Seqno} {events : List Event} {time : Time}

/-- The publications of a run are those before its last event, and the last event if it is one. -/
theorem publishedAt_snoc (run : Runs env lastSeqNo events before) (stepped : before.step env event = some after) :
    PublishedAt env lastSeqNo (events ++ [event]) topicHash time ↔
      PublishedAt env lastSeqNo events topicHash time ∨
        (∃ data, event = .publish topicHash data) ∧ Published env topicHash time before after := by
  constructor
  · rintro ⟨first, data, rest, middle, next, split, earlier, taken, published⟩
    rcases List.eq_nil_or_concat rest with rfl | ⟨rest, last, rfl⟩
    · obtain ⟨rfl, last⟩ := List.append_inj' split rfl
      obtain ⟨rfl, -⟩ := List.cons.inj last
      obtain rfl := run.unique earlier
      obtain rfl := Option.some.inj (stepped.symm.trans taken)
      exact .inr ⟨⟨data, rfl⟩, published⟩
    · have split : events ++ [event] = (first ++ .publish topicHash data :: rest) ++ [last] := by
        rw [split, List.concat_eq_append, List.append_assoc, List.cons_append]
      obtain ⟨rfl, -⟩ := List.append_inj' split rfl
      exact .inl ⟨first, data, rest, middle, next, rfl, earlier, taken, published⟩
  · rintro (⟨first, data, rest, middle, next, rfl, earlier, taken, published⟩ | ⟨⟨data, rfl⟩, published⟩)
    · exact ⟨first, data, rest ++ [event], middle, next, by simp, earlier, taken, published⟩
    · exact ⟨events, data, [], before, after, rfl, run, stepped, published⟩

/-- Nothing is published to a publish-only topic while publications are flooded. -/
def Unflooded (env : Env R) (before : State R) (event : Event) : Prop :=
  ∀ topicHash data, event = .publish topicHash data → env.config.floodPublish = true → Subscribed topicHash before

abbrev UnfloodedRuns (env : Env R) (lastSeqNo : Seqno) : List Event → State R → Prop :=
  Run (fun before event after => before.step env event = some after ∧ Unflooded env before event)
    (State.initial env lastSeqNo)

theorem Subscribed.stamp (subscribed : Subscribed topicHash state) :
    ∃ time, state.stamp topicHash = some (false, time) := by
  obtain ⟨topic, found, kind⟩ := Option.map_eq_some_iff.mp subscribed
  refine ⟨topic.lastPublish, ?_⟩
  rw [State.stamp, found, Option.map_some, Topic.stamp, kind]

theorem kind_of_stamp {publishOnly : Bool} : (state.topics.lookup topicHash).map Topic.publishOnly = some publishOnly ↔
    ∃ time, state.stamp topicHash = some (publishOnly, time) := by
  constructor
  · intro kind
    obtain ⟨topic, found, rfl⟩ := Option.map_eq_some_iff.mp kind
    exact ⟨topic.lastPublish, by rw [State.stamp, found]; rfl⟩
  · rintro ⟨time, stamped⟩
    obtain ⟨topic, found, same⟩ := Option.map_eq_some_iff.mp stamped
    rw [found, Option.map_some, (Prod.mk.inj same).1]

/-- Preparing a topic for publication keeps its stamp or creates it. -/
theorem getOrCreateTopic_stamp : (state.getOrCreateTopic env topicHash true).readings = state.readings ∧
    ((state.getOrCreateTopic env topicHash true).stamp other = state.stamp other ∨
      state.stamp other = none ∧ (state.getOrCreateTopic env topicHash true).stamp other = some (true, 0)) := by
  rw [getOrCreateTopic_publishOnly]
  split_ifs with present
  · exact ⟨rfl, .inl rfl⟩
  · refine ⟨rfl, ?_⟩
    rw [stamp_createTopic]
    split_ifs with same
    · refine .inr ⟨?_, rfl⟩
      rw [State.stamp, same, AList.lookup_eq_none.mpr present]
      rfl
    · exact .inl rfl

theorem timed_publish {data : Bytes} (run : Runs env lastSeqNo events before)
    (timed : Timed env (PublishedAt env lastSeqNo events) before)
    (unflooded : Unflooded env before (.publish topicHash data)) :
    Timed env (PublishedAt env lastSeqNo (events ++ [.publish topicHash data])) (before.publish env topicHash data) := by
  have created := fun other => @getOrCreateTopic_stamp R _ env before topicHash other
  have prepared : Timed env (PublishedAt env lastSeqNo events) (before.getOrCreateTopic env topicHash true) :=
    timed.frame (created topicHash).1.ge fun other => (created other).2.imp_right .inr
  have stepped : before.step env (.publish topicHash data) = some (before.publish env topicHash data) := rfl
  have older : ∀ other time, PublishedAt env lastSeqNo events other time →
      PublishedAt env lastSeqNo (events ++ [.publish topicHash data]) other time :=
    fun other time happened => (publishedAt_snoc run stepped).mpr (.inl happened)
  have newer : ∀ other time, PublishedAt env lastSeqNo (events ++ [.publish topicHash data]) other time →
      PublishedAt env lastSeqNo events other time ∨
        other = topicHash ∧ Published env topicHash time before (before.publish env topicHash data) := by
    intro other time happened
    rcases (publishedAt_snoc run stepped).mp happened with earlier | ⟨⟨_, same⟩, published⟩
    · exact .inl earlier
    · obtain ⟨rfl, -⟩ := Event.publish.inj same
      exact .inr ⟨rfl, published⟩
  have counted : ∀ messageId, (before.getOrCreateTopic env topicHash true).broadcasts messageId =
      before.broadcasts messageId := by
    intro messageId
    rw [getOrCreateTopic_publishOnly]
    split_ifs <;> rfl
  rcases @publishTopic_noted R _ env _ (before.getOrCreateTopic env topicHash true) topicHash data (.inl rfl) with
    ⟨readings, stamps⟩ | ⟨noted, messageId, more⟩
  · -- A duplicate takes no reading, so it is no publication.
    have same : PublishedAt env lastSeqNo (events ++ [.publish topicHash data]) = PublishedAt env lastSeqNo events := by
      funext other time
      refine propext ⟨fun happened => ?_, older other time⟩
      rcases newer other time happened with earlier | ⟨-, published⟩
      · exact earlier
      · obtain ⟨reading, after, within, -⟩ := published.reading
        have total : (before.publish env topicHash data).readings = before.readings :=
          readings.trans (created topicHash).1
        omega
    rw [same]
    exact prepared.frame readings.ge fun other => .inl (stamps other)
  · refine prepared.noted noted ?_ older ?_ ?_
    · intro flooding
      obtain ⟨time, found⟩ := (unflooded topicHash data rfl flooding).stamp
      rcases (created topicHash).2 with same | ⟨absent, -⟩
      · exact ⟨time, same.trans found⟩
      · rw [absent] at found
        cases found
    · intro other time happened
      refine (newer other time happened).imp_right ?_
      rintro ⟨same, published⟩
      rw [(created topicHash).1]
      exact ⟨same, kind_of_stamp.mp published.kind, published.reading⟩
    · intro stamped
      refine (publishedAt_snoc run stepped).mpr (.inr ⟨⟨data, rfl⟩, kind_of_stamp.mpr ⟨_, stamped⟩, ?_, ?_⟩)
      · rw [counted] at more
        exact ⟨messageId, more⟩
      · have reached : (before.publish env topicHash data).readings =
            (before.getOrCreateTopic env topicHash true).readings + 3 := by
          unfold Noted at noted
          split_ifs at noted with flooding
          · obtain ⟨time, subscribed⟩ := (unflooded topicHash data rfl flooding).stamp
            have kept := (noted.2 topicHash).symm.trans stamped
            rcases (created topicHash).2 with same | ⟨absent, -⟩
            · rw [same, subscribed] at kept
              cases kept
            · rw [absent] at subscribed
              cases subscribed
          · exact noted.1
        have start := (created topicHash).1
        exact ⟨_, by omega, by omega, rfl⟩

theorem timed_of_runs (run : UnfloodedRuns env lastSeqNo events state) :
    Runs env lastSeqNo events state ∧ Timed env (PublishedAt env lastSeqNo events) state := by
  refine run.preserves_history (fun events state =>
    Runs env lastSeqNo events state ∧ Timed env (PublishedAt env lastSeqNo events) state) ⟨.nil, ?_⟩ ?_
  · have none : ∀ topicHash time, ¬ PublishedAt env lastSeqNo [] topicHash time := by
      rintro topicHash time ⟨first, data, rest, -, -, split, -⟩
      simp at split
    refine ⟨fun topicHash time happened => absurd happened (none _ _), ?_,
      fun topicHash time happened => absurd happened (none _ _)⟩
    intro topicHash time found
    cases found
  · rintro events event before after ⟨run, timed⟩ ⟨stepped, unflooded⟩
    refine ⟨run.snoc stepped, ?_⟩
    have silent : (∀ topicHash data, event ≠ .publish topicHash data) →
        PublishedAt env lastSeqNo (events ++ [event]) = PublishedAt env lastSeqNo events := by
      intro other
      funext topicHash time
      refine propext ((publishedAt_snoc run stepped).trans (or_iff_left ?_))
      rintro ⟨⟨data, same⟩, -⟩
      exact other topicHash data same
    have calm : event ≠ .heartbeat → event.publishes = false → Timed env (PublishedAt env lastSeqNo events) after :=
      fun calm quiet => step_preserves (fun state => Timed env (PublishedAt env lastSeqNo events) state)
        (fun _ _ micro holds => holds.update micro calm quiet) (sound_of_runs run) stepped timed
    cases event with
    | heartbeat =>
      rw [silent (by simp)]
      obtain rfl := Option.some.inj stepped
      exact timed.heartbeat
    | publish topicHash data =>
      obtain rfl := Option.some.inj stepped
      exact timed_publish run timed unflooded
    | publishTopic topicHash data =>
      rw [silent (by simp)]
      obtain ⟨guard, ⟨⟩⟩ := Option.ite_none_right_eq_some.mp stepped
      obtain ⟨topic, found, publishOnly⟩ := (Option.any_eq_true _ _).mp guard
      have subscribed : Subscribed topicHash before := by
        rw [Subscribed, found, Option.map_some]
        simpa using publishOnly
      obtain ⟨time, stamped⟩ := subscribed.stamp
      rcases @publishTopic_noted R _ env _ before topicHash data (.inr rfl) with ⟨readings, stamps⟩ | ⟨noted, -⟩
      · exact timed.frame readings.ge fun other => .inl (stamps other)
      · refine timed.noted noted (fun _ => ⟨time, stamped⟩) (fun _ _ happened => happened)
          (fun _ _ happened => .inl happened) ?_
        intro own
        exfalso
        unfold Noted at noted
        split_ifs at noted
        · have kept := (noted.2 topicHash).symm.trans own
          rw [stamped] at kept
          cases kept
        · have kept := (noted.2 topicHash).symm.trans own
          rw [if_pos rfl, stamped] at kept
          cases kept
    | _ =>
      rw [silent (by simp)]
      exact calm (by simp) rfl

/-- In every run that never floods a publication to a publish-only topic, fan-out topics live for `fanout_ttl`. -/
theorem fanoutLives_of_runs (run : UnfloodedRuns env lastSeqNo events state) :
    FanoutLives env lastSeqNo events state := by
  obtain ⟨-, timed⟩ := timed_of_runs run
  refine ⟨?_, ?_⟩
  · intro topicHash time published present early
    obtain ⟨topic, found⟩ := UnorderedMap.exists_lookup_of_mem present
    have stamped : state.stamp topicHash = some topic.stamp := by rw [State.stamp, found]; rfl
    rcases @heartbeat_late R _ env state topicHash with same | ⟨-, last, reading, stamp, first, within, late⟩
    · exact mem_of_stamp (same.trans stamped)
    · exfalso
      rcases timed.kept topicHash time published with ⟨other, found, fresh⟩ | ⟨older, before, expired⟩
      · rw [stamp] at found
        obtain rfl := Option.some.inj found
        have due : time + env.config.fanoutTtl ≤ last + env.config.fanoutTtl := Nat.add_le_add_right (fresh rfl) _
        exact absurd (early reading first within) (not_lt.mpr (due.trans late))
      · have due : time + env.config.fanoutTtl ≤ env.clock state.readings := expired.trans (env.monotone before.le)
        exact absurd (early state.readings le_rfl readings_heartbeat) (not_lt.mpr due)
  · intro topicHash kind elapsed quiet present
    obtain ⟨time, stamped⟩ := kind_of_stamp.mp kind
    have late : time + env.config.fanoutTtl ≤ state.now env := by
      rcases timed.dated topicHash time stamped with rfl | published
      · rw [Nat.zero_add]
        exact elapsed
      · exact quiet time published
    obtain ⟨topic, found⟩ := UnorderedMap.exists_lookup_of_mem present
    have gone := heartbeat_drops stamped late
    rw [State.stamp, found] at gone
    cases gone

/-- The state after the first publication, and what the heartbeat that follows makes of it. -/
def afterPublishing (floodPublish : Bool) : State Rational :=
  (State.initial (sampleEnv floodPublish (10 ^ 6)) 0).publish (sampleEnv floodPublish (10 ^ 6)) [0x74] [0x68, 0x69]

theorem publishedAt_publishing (floodPublish : Bool) : PublishedAt (sampleEnv floodPublish (10 ^ 6)) 0
    [.publish [0x74] [0x68, 0x69]] [0x74] ((sampleEnv floodPublish (10 ^ 6)).clock 1) := by
  have observed : ((afterPublishing floodPublish).topics.lookup [0x74]).map Topic.publishOnly = some true ∧
      (afterPublishing floodPublish).broadcasts ((samplePeerId 0).toVector ++ storeBigU64 0) = 1 ∧
      1 < (afterPublishing floodPublish).readings := by
    cases floodPublish <;> decide
  obtain ⟨kind, counted, readings⟩ := observed
  have more : (State.initial (sampleEnv floodPublish (10 ^ 6)) 0).broadcasts ((samplePeerId 0).toVector ++ storeBigU64 0) <
      (afterPublishing floodPublish).broadcasts ((samplePeerId 0).toVector ++ storeBigU64 0) := by
    rw [counted]
    exact Nat.one_pos
  exact ⟨[], [0x68, 0x69], [], _, afterPublishing floodPublish, rfl, .nil, rfl, kind, ⟨_, more⟩, 1, Nat.zero_le _,
    readings, rfl⟩

theorem heartbeat_soon (floodPublish : Bool) (reading : ℕ)
    (within : reading < ((afterPublishing floodPublish).heartbeat (sampleEnv floodPublish (10 ^ 6))).readings) :
    (sampleEnv floodPublish (10 ^ 6)).clock reading <
      (sampleEnv floodPublish (10 ^ 6)).clock 1 + (sampleEnv floodPublish (10 ^ 6)).config.fanoutTtl := by
  have few : ((afterPublishing floodPublish).heartbeat (sampleEnv floodPublish (10 ^ 6))).readings ≤ 10 := by
    cases floodPublish <;> decide +kernel
  have soon : 3600 * 10 ^ 9 + reading * 10 ^ 6 < 3600 * 10 ^ 9 + 1 * 10 ^ 6 + 60 * 10 ^ 9 := by omega
  exact soon

/-- Without flooding, a topic that was published to is there after the next heartbeat. -/
theorem fanoutLives_of_runs_publishing :
    UnfloodedRuns (sampleEnv false (10 ^ 6)) 0 [.publish [0x74] [0x68, 0x69]] (afterPublishing false) ∧
      [0x74] ∈ ((afterPublishing false).heartbeat (sampleEnv false (10 ^ 6))).topics := by
  have run : UnfloodedRuns (sampleEnv false (10 ^ 6)) 0 [.publish [0x74] [0x68, 0x69]] (afterPublishing false) :=
    .snoc .nil ⟨rfl, fun _ _ _ flooding => by cases flooding⟩
  have present : [0x74] ∈ (afterPublishing false).topics := by decide
  exact ⟨run, (fanoutLives_of_runs run).kept _ _ (publishedAt_publishing false) present
    fun reading _ within => heartbeat_soon false reading within⟩

/-- With flooding, the first heartbeat drops a topic that was published to just before. -/
theorem flooded_topic_dropped : Runs (sampleEnv true (10 ^ 6)) 0 [.publish [0x74] [0x68, 0x69]] (afterPublishing true) ∧
    ¬ FanoutLives (sampleEnv true (10 ^ 6)) 0 [.publish [0x74] [0x68, 0x69]] (afterPublishing true) := by
  refine ⟨.snoc .nil rfl, fun lives => ?_⟩
  have observed : [0x74] ∈ (afterPublishing true).topics ∧
      [0x74] ∉ ((afterPublishing true).heartbeat (sampleEnv true (10 ^ 6))).topics := by
    decide
  exact observed.2 (lives.kept _ _ (publishedAt_publishing true) observed.1
    fun reading _ within => heartbeat_soon true reading within)

end Runs

end Libp2p.Gossip
