import Libp2p.Protocol.Gossip.Batches
import Libp2p.Protocol.Gossip.Pacing
import Libp2p.Protocol.Gossip.Standing

/-! # Nobody is penalised for grafting again in time

Two nodes with the same backoff settings. One tells the other to leave a mesh and starts a backoff for it; the other one
handles the prune, starts a backoff of its own, and grafts the first node when that has run out. The slots that remain
at the node that pruned are at most what its own heartbeats have left, and the other node waited at least as many
heartbeats as its wheel holds, so that all that can remain is the slack, for which there is no penalty.
-/

namespace Libp2p.Gossip

open Library State

variable {R : Type} [Double R] {env : Env R} {event : Event} {lastSeqNo : Seqno} {events : List Event}
  {state before after : State R} {topicHash : TopicHash} {peer other : PeerPtr}

section Subscribing

/-- Outside of a heartbeat a subscribed topic stays subscribed. -/
theorem Micro.subscribed (micro : Micro env event before after) (calm : event ≠ .heartbeat)
    (subscribed : Subscribed topicHash before) : Subscribed topicHash after := by
  have same : after.kinds = before.kinds → Subscribed topicHash after := by
    intro kinds
    unfold Subscribed
    exact (congrFun kinds topicHash).trans subscribed
  cases micro with
  | ledger ledger =>
    cases ledger with
    | duplicated => exact same (by rw [countDuplicate_eq]; rfl)
    | _ => exact same rfl
  | incidental place only =>
    cases only with
    | stamped time => exact same (kinds_modifyTopic fun _ => rfl)
    | shifted source => exact absurd source calm
  | batched peer => exact same (by rw [getBatch_eq]; rfl)
  | queued peer => exact same kinds_enqueue
  | grafted => exact same kinds_graft
  | expelled place peer =>
    have erased : ((before.makePrune env place peer).eraseFromMesh place peer).kinds =
        (before.makePrune env place peer).kinds := kinds_modifyTopic fun _ => rfl
    exact same (erased.trans kinds_makePrune)
  | cut place peer =>
    have erased : (before.eraseFromMesh place peer).kinds = before.kinds := kinds_modifyTopic fun _ => rfl
    exact same (kinds_makePrune.trans erased)
  | refused => exact same kinds_makePrune
  | joined => exact same (kinds_modifyTopic fun _ => rfl)
  | announced => exact same (kinds_modifyTopic fun _ => rfl)
  | left => exact same kinds_leaveTopic
  | pruned => exact same kinds_removePeerFromMesh
  | fannedOut => exact same (kinds_modifyTopic fun topic => by split_ifs <;> rfl)
  | trimmed => exact same (kinds_modifyTopic fun _ => rfl)
  | created place publishOnly absent =>
    have different : topicHash ≠ place := by
      rintro rfl
      rw [Subscribed, AList.lookup_eq_none.mpr absent] at subscribed
      cases subscribed
    rw [Subscribed, createTopic, AList.lookup_insert_ne different]
    exact subscribed
  | upgraded place kind =>
    have different : topicHash ≠ place := by
      rintro rfl
      rw [Subscribed, kind] at subscribed
      cases subscribed
    exact (kinds_announceUpgrade different).trans subscribed
  | admitted => exact same (by rw [deliver_eq]; exact kinds_modifyTopic fun _ => rfl)
  | originated => exact same (by rw [originate_eq]; exact kinds_modifyTopic fun _ => rfl)
  | opened => exact same (by rw [openStream_eq]; rfl)
  | disconnected peerId =>
    refine same ?_
    unfold onPeerDisconnected
    dsimp only
    split
    · rfl
    · next gone found =>
      have forgets : ∀ (state : State R) place, (forgetInTopic gone state place).kinds = state.kinds :=
        fun state place => kinds_modifyTopic fun _ => rfl
      exact foldl_field State.kinds forgets
  | expired place source => exact absurd source calm
  | aged place source => exact absurd source calm
  | resumed => exact same (by rw [resumeWriter_eq]; rfl)
  | written => exact same (by rw [onWritten_eq]; rfl)
  | _ => exact same rfl

/-- Only publish-only topics are overdue. -/
theorem publishOnly_of_overdue {topics : UnorderedMap TopicHash Topic} {readings : ℕ} {keys : List TopicHash}
    (gone : topicHash ∈ overdue env topics readings keys) :
    (topics.lookup topicHash).map Topic.publishOnly = some true := by
  induction keys generalizing readings with
  | nil => cases gone
  | cons first rest ih =>
    unfold overdue at gone
    split at gone
    · exact ih gone
    · next topic found =>
      split_ifs at gone with publishOnly early
      · exact ih gone
      · rcases List.mem_cons.mp gone with rfl | gone
        · rw [found, Option.map_some, publishOnly]
        · exact ih gone
      · exact ih gone

theorem Subscribed.not_dropped (subscribed : Subscribed topicHash state) : topicHash ∉ dropped env state := by
  intro gone
  have kind := publishOnly_of_overdue gone
  rw [lookup_startHeartbeat, Option.map_map] at kind
  cases subscribed.symm.trans kind

end Subscribing

/-- What every run has: sound membership and sound wheels. -/
structure Sane (env : Env R) (state : State R) : Prop where
  sound : state.roster.Sound
  wheeled : Wheeled env state

section Sanity

theorem Sane.update (sane : Sane env before) (micro : Micro env event before after) (calm : event ≠ .heartbeat) :
    Sane env after :=
  ⟨sane.sound.step micro.roster, sane.wheeled.update micro calm⟩

theorem Sane.aged {place : TopicHash} (sane : Sane env state) : Sane env (state.shiftHistory place) := by
  refine ⟨by rw [roster_shiftHistory]; exact sane.sound, ?_⟩
  intro topicHash backoff found
  rw [backoffs_shiftHistory] at found
  exact sane.wheeled topicHash backoff found

theorem Sane.expired (sane : Sane env state) : Sane env (state.expired env) :=
  ⟨sound_expired sane.sound, beaten_expired.wheeled sane.wheeled⟩

theorem Sane.step (sane : Sane env before) (stepped : before.step env event = some after) : Sane env after :=
  step_phases (fun state => Sane env state) sane.sound stepped
    (fun _ _ calm _ _ micro sane => sane.update micro calm) (fun _ _ sane => sane.aged) (fun _ => sane.expired) sane

theorem sane_of_runs (run : Runs env lastSeqNo events state) : Sane env state := by
  refine run.preserves (fun state => Sane env state) ⟨roster_initial.1, ?_⟩ fun _ _ _ sane stepped => sane.step stepped
  simp [Wheeled, State.initial, State.backoffs]

end Sanity

/-- A peer rests in a subscribed topic until a number of heartbeats have run, and was not grafted before, since the log
was `base`. -/
structure Holding (env : Env R) (topicHash : TopicHash) (peer : PeerPtr) (deadline : ℕ) (base : List Observation)
    (state : State R) : Prop where
  sane : Sane env state
  subscribed : Subscribed topicHash state
  rests : deadline ≤ state.heartbeatTicks + state.remaining topicHash peer
  watched : ∃ extra, state.log = extra ++ base ∧
    (.queued peer (.graft topicHash) ∈ extra → deadline ≤ state.heartbeatTicks)

section Holding

variable {deadline : ℕ} {base : List Observation}

theorem Holding.update (holding : Holding env topicHash peer deadline base before)
    (micro : Micro env event before after) (calm : event ≠ .heartbeat) :
    Holding env topicHash peer deadline base after := by
  obtain ⟨sane, subscribed, rests, extra, log, watched⟩ := holding
  have longer := (micro.backed calm topicHash).remaining_le peer
  have ticks := micro.ticks_eq calm
  refine ⟨sane.update micro calm, micro.subscribed calm subscribed, by omega, ?_⟩
  rw [ticks]
  cases micro.logs sane.sound with
  | quiet more logged silent =>
    refine ⟨more ++ extra, by rw [logged, log, List.append_assoc], fun queued => ?_⟩
    rcases List.mem_append.mp queued with new | old
    · obtain ⟨place, said⟩ := silent peer _ new
      cases said
    · exact watched old
  | single one op queued logged =>
    refine ⟨.queued one op :: extra, by rw [logged, log, List.cons_append], fun graft => ?_⟩
    rcases List.mem_cons.mp graft with new | old
    · -- A peer is grafted only when nothing remains of its backoff.
      obtain ⟨rfl, rfl⟩ := Observation.queued.inj new
      rw [remaining_of_rested queued.candidate_of_graft.2] at rests
      exact rests
    · exact watched old

theorem Holding.chain (holding : Holding env topicHash peer deadline base before) (chain : Chain env event before after)
    (calm : event ≠ .heartbeat) : Holding env topicHash peer deadline base after :=
  chain_preserves (fun state : State R => Holding env topicHash peer deadline base state) chain
    (fun _ _ micro holding => holding.update micro calm) holding

theorem Holding.aged {place : TopicHash} (holding : Holding env topicHash peer deadline base state) :
    Holding env topicHash peer deadline base (state.shiftHistory place) := by
  obtain ⟨sane, subscribed, rests, watched⟩ := holding
  have ticks : (state.shiftHistory place).heartbeatTicks = state.heartbeatTicks := by rw [shiftHistory_eq]
  have log : (state.shiftHistory place).log = state.log := by rw [shiftHistory_eq]
  have remaining : (state.shiftHistory place).remaining topicHash peer = state.remaining topicHash peer := by
    rw [State.remaining, State.remaining, backoffs_shiftHistory]
  refine ⟨sane.aged, ?_, by rwa [ticks, remaining], by rwa [log, ticks]⟩
  exact (shiftHistory_field Topic.publishOnly fun _ _ => rfl).trans subscribed

theorem Holding.expired (holding : Holding env topicHash peer deadline base state) :
    Holding env topicHash peer deadline base (state.expired env) := by
  obtain ⟨sane, subscribed, rests, extra, log, watched⟩ := holding
  have beaten := @beaten_expired R _ env state
  obtain ⟨more, logged, silent⟩ := beaten.log
  have stays : topicHash ∉ dropped env state := subscribed.not_dropped
  refine ⟨sane.expired, ?_, ?_, more ++ extra, by rw [logged, log, List.append_assoc], fun queued => ?_⟩
  · rw [Subscribed, beaten.topics, if_neg stays, Option.map_map]
    exact subscribed
  · rw [beaten.remaining sane.wheeled, if_neg stays, beaten.ticks]
    omega
  · rw [beaten.ticks]
    rcases List.mem_append.mp queued with new | old
    · cases silent _ new
    · exact (watched old).trans (Nat.le_succ _)

theorem Holding.step (holding : Holding env topicHash peer deadline base before)
    (stepped : before.step env event = some after) : Holding env topicHash peer deadline base after :=
  step_phases (fun state => Holding env topicHash peer deadline base state) holding.sane.sound stepped
    (fun _ _ calm _ _ micro holding => holding.update micro calm) (fun _ _ holding => holding.aged)
    (fun _ => holding.expired) holding

theorem Holding.run (holding : Holding env topicHash peer deadline base before)
    (run : Run (fun before event after => before.step env event = some after) before events after) :
    Holding env topicHash peer deadline base after :=
  run.preserves (fun state => Holding env topicHash peer deadline base state) holding
    fun _ _ _ holding stepped => holding.step stepped

end Holding

/-- Heartbeats are counted along a run. -/
theorem ticks_of_steps (sane : Sane env before)
    (run : Run (fun before event after => before.step env event = some after) before events after) :
    Sane env after ∧ after.heartbeatTicks = before.heartbeatTicks + events.count .heartbeat := by
  refine run.preserves_history (fun events state => Sane env state ∧
    state.heartbeatTicks = before.heartbeatTicks + events.count .heartbeat) ⟨sane, rfl⟩ ?_
  rintro events event first second ⟨sane, ticks⟩ stepped
  refine ⟨sane.step stepped, ?_⟩
  rw [ticks_of_step sane.sound stepped, ticks, List.count_append, add_assoc]

/-- The event tells nothing about leaving a topic. -/
def Event.Tacit (event : Event) (peer : PeerPtr) (topicHash : TopicHash) : Prop := ∀ rpc, event.Carries peer rpc →
  topicHash ∉ rpc.leaves ∧ ∀ backoff, (topicHash, backoff) ∉ rpc.prunes

/-- Unless a peer was told to leave a mesh since the log was `base`, its backoff runs out in time. -/
structure Lapsing (env : Env R) (topicHash : TopicHash) (peer : PeerPtr) (limit : ℕ) (base : List Observation)
    (state : State R) : Prop where
  sane : Sane env state
  lapses : ∃ extra, state.log = extra ++ base ∧ ((∀ backoff, .queued peer (.prune topicHash backoff) ∉ extra) →
    state.remaining topicHash peer ≤ limit - state.heartbeatTicks)

section Lapsing

variable {limit : ℕ} {base : List Observation}

/-- An update that does not renew the backoff, unless it logs a prune. -/
theorem Lapsing.extend (lapsing : Lapsing env topicHash peer limit base before) (sane : Sane env after)
    (ticks : after.heartbeatTicks = before.heartbeatTicks) {more : List Observation} (log : after.log = more ++ before.log)
    (kept : after.remaining topicHash peer = before.remaining topicHash peer ∨
      ∃ backoff, .queued peer (.prune topicHash backoff) ∈ more) :
    Lapsing env topicHash peer limit base after := by
  obtain ⟨-, extra, logged, lapses⟩ := lapsing
  refine ⟨sane, more ++ extra, by rw [log, logged, List.append_assoc], fun untold => ?_⟩
  rcases kept with same | ⟨backoff, told⟩
  · rw [same, ticks]
    exact lapses fun backoff queued => untold backoff (List.mem_append_right _ queued)
  · exact absurd (List.mem_append_left _ told) (untold backoff)

theorem Lapsing.update (lapsing : Lapsing env topicHash peer limit base before)
    (micro : Micro env event before after) (calm : event ≠ .heartbeat) (tacit : event.Tacit peer topicHash) :
    Lapsing env topicHash peer limit base after := by
  have sane := lapsing.sane.update micro calm
  obtain ⟨more, log⟩ := micro.chain.log_suffix lapsing.sane.sound
  refine lapsing.extend sane (micro.ticks_eq calm) log ?_
  rcases (micro.backed calm topicHash).remaining_or peer with same | ⟨backoff, told⟩ | ⟨rpc, carried, leaves⟩
  · exact .inl same
  · rw [log, ← List.singleton_append] at told
    exact .inr ⟨backoff, by rw [List.append_cancel_right told]; simp⟩
  · obtain ⟨stays, unpruned⟩ := tacit rpc carried
    rcases leaves with left | ⟨backoff, pruned⟩
    · exact absurd left stays
    · exact absurd pruned (unpruned backoff)

theorem Lapsing.aged {place : TopicHash} (lapsing : Lapsing env topicHash peer limit base state) :
    Lapsing env topicHash peer limit base (state.shiftHistory place) := by
  have log : (state.shiftHistory place).log = [] ++ state.log := by rw [shiftHistory_eq]; rfl
  refine lapsing.extend lapsing.sane.aged (by rw [shiftHistory_eq]) log (.inl ?_)
  rw [State.remaining, State.remaining, backoffs_shiftHistory]

theorem Lapsing.expired (lapsing : Lapsing env topicHash peer limit base state) :
    Lapsing env topicHash peer limit base (state.expired env) := by
  obtain ⟨sane, extra, log, lapses⟩ := lapsing
  have beaten := @beaten_expired R _ env state
  obtain ⟨more, logged, silent⟩ := beaten.log
  refine ⟨sane.expired, more ++ extra, by rw [logged, log, List.append_assoc], fun untold => ?_⟩
  have bound := lapses fun backoff queued => untold backoff (List.mem_append_right _ queued)
  rw [beaten.remaining sane.wheeled, beaten.ticks]
  split_ifs <;> omega

theorem Lapsing.step (lapsing : Lapsing env topicHash peer limit base before)
    (stepped : before.step env event = some after) (tacit : event.Tacit peer topicHash) :
    Lapsing env topicHash peer limit base after := by
  refine step_phases (fun state => Lapsing env topicHash peer limit base state) lapsing.sane.sound stepped ?_
    (fun _ _ lapsing => lapsing.aged) (fun _ => lapsing.expired) lapsing
  rintro cause (rfl | rfl) calm first second micro lapsing
  · exact lapsing.update micro calm tacit
  · refine lapsing.update micro calm ?_
    rintro rpc ⟨encoded, ⟨⟩, -⟩

theorem Lapsing.run (lapsing : Lapsing env topicHash peer limit base before)
    (run : Run (fun before event after => before.step env event = some after) before events after)
    (tacit : ∀ event ∈ events, event.Tacit peer topicHash) : Lapsing env topicHash peer limit base after := by
  induction run with
  | nil => exact lapsing
  | snoc run stepped ih =>
    exact (ih fun event member => tacit event (by simp [member])).step stepped (tacit _ (by simp))

end Lapsing

section Frames

/-- Handing a message to peers does not touch backoffs. -/
theorem backoffs_spread {from_ : Option PeerId} {messageId : MessageId} {message : Message} :
    (state.spread env topicHash from_ messageId message).backoffs = state.backoffs := by
  have handed : ∀ (peers : List PeerPtr) (state : State R),
      (peers.foldl (addPeer env from_ messageId message) state).backoffs = state.backoffs :=
    fun _ _ => foldl_field State.backoffs fun state peer => by
      unfold State.backoffs
      rw [addPeer_topics]
  have told : ∀ (peers : List PeerPtr) (state : State R),
      (peers.foldl (fun state peer => state.enqueue peer (.idontwant messageId)) state).backoffs = state.backoffs :=
    fun _ _ => foldl_field State.backoffs fun state peer => by
      unfold State.backoffs
      rw [(enqueue_frame peer _ state).1]
  have fanned : ∀ (peers : List PeerPtr) (state : State R),
      (state.addFanout env topicHash from_ messageId message peers).backoffs = state.backoffs := by
    intro peers state
    refine foldl_field State.backoffs fun state peer => ?_
    refine (funext fun place => backoffs_modifyTopic fun topic => by split_ifs <;> rfl).trans ?_
    unfold State.backoffs
    rw [addPeer_topics]
  have stamped : ∀ (state : State R) (time : Time), (state.modifyTopic topicHash fun topic =>
      { topic with lastPublish := time }).tick.backoffs = state.backoffs :=
    fun state time => funext fun place => backoffs_modifyTopic fun _ => rfl
  have meshed : ∀ state : State R, (state.broadcastMesh env topicHash from_ messageId message).backoffs = state.backoffs := by
    intro state
    unfold broadcastMesh
    dsimp only
    split_ifs
    · rw [stamped, fanned]
      exact (handed _ _).trans (handed _ _)
    · rw [stamped]
      exact (handed _ _).trans (handed _ _)
    · exact (handed _ _).trans (handed _ _)
  unfold spread
  dsimp only
  split_ifs
  · exact (handed _ _).trans (told _ _)
  · exact handed _ _
  · exact (meshed _).trans (told _ _)
  · exact meshed _

theorem backoffs_onPublish {pbPublish : Pb.Message} : (state.onPublish env peer pbPublish).backoffs = state.backoffs := by
  unfold onPublish
  split
  · rfl
  · next message valid =>
    unfold receiveMessage
    dsimp only
    split_ifs
    · rw [backoffs_spread, deliver_eq]
      exact funext fun place => backoffs_modifyTopic fun _ => rfl
    · rw [countDuplicate_eq]
      rfl
    · rfl

/-- A subscription touches no backoff, and an unsubscription only that of its topic. -/
theorem backoffs_onSubscription {pbSubscribe : Pb.SubOpts}
    (other : pbSubscribe.subscribe.getD false = false → pbSubscribe.topicId.getD [] ≠ topicHash) :
    (state.onSubscription env peer pbSubscribe).backoffs topicHash = state.backoffs topicHash := by
  unfold onSubscription
  dsimp only
  split_ifs with subscribes
  · have added : ∀ place, (state.addToTopic peer place).backoffs topicHash = state.backoffs topicHash :=
      fun place => backoffs_modifyTopic fun _ => rfl
    unfold graftOnSubscribe
    split
    · exact added _
    · split_ifs
      · exact backoffs_graft.trans (added _)
      · exact added _
  · have different := (other (by simpa using subscribes)).symm
    have erased : ∀ place, ((state.modifyPeer peer fun peer =>
        { peer with topics := peer.topics.erase place }).modifyTopic place fun topic =>
          { topic with peers := topic.peers.erase peer }).backoffs topicHash = state.backoffs topicHash :=
      fun place => backoffs_modifyTopic fun _ => rfl
    rw [backoffs_removePeerFromMesh, backoffs_updateBackoff, if_neg different, ite_self, erased]

/-- The topic of a graft that is being handled, as the decision sees it. -/
theorem lookup_addToTopic : (state.addToTopic peer topicHash).topics.lookup topicHash =
    (state.topics.lookup topicHash).map fun topic => { topic with peers := topic.peers.insert peer } := by
  unfold addToTopic
  rw [lookup_modifyTopic, if_pos rfl]
  rfl

/-- A decision about a graft penalizes and logs, and does nothing else. -/
theorem graftDecision_frame (place : TopicHash) (topic : Topic) :
    (state.graftDecision env peer place topic).2.topics = state.topics ∧
      ∃ extra, (state.graftDecision env peer place topic).2.log = extra ++ state.log := by
  refine @graftDecision_induction R _ env (fun after =>
    after.topics = state.topics ∧ ∃ extra, after.log = extra ++ state.log) _ _ _ _ ⟨rfl, [], rfl⟩ ?_
  rintro after ⟨topics, extra, log⟩
  exact ⟨topics, _ :: extra, congrArg (List.cons _) log⟩

/-- A graft that is refused renews the backoff of its topic and queues a prune; every other one leaves backoffs alone. -/
theorem backoffs_onGraft {pbGraft : Pb.ControlGraft} :
    (state.onGraft env peer pbGraft).backoffs topicHash = state.backoffs topicHash ∨
      ∃ backoff, ∃ extra : List Observation,
        (state.onGraft env peer pbGraft).log = .queued peer (.prune topicHash backoff) :: extra ++ state.log := by
  have added : ∀ place, (state.addToTopic peer place).backoffs topicHash = state.backoffs topicHash :=
    fun place => backoffs_modifyTopic fun _ => rfl
  unfold onGraft
  dsimp only
  split
  · exact .inl (added _)
  · next topic found =>
    split_ifs
    · exact .inl (added _)
    · exact .inl (added _)
    · set decided := ((state.addToTopic peer (pbGraft.topicId.getD [])).graftDecision env peer
        (pbGraft.topicId.getD []) topic).2 with deciding
      have kept : decided.backoffs topicHash = state.backoffs topicHash := by
        unfold State.backoffs
        rw [deciding, (graftDecision_frame _ _).1]
        exact added _
      refine .inl ?_
      unfold acceptGraft
      exact Eq.trans (backoffs_modifyTopic fun _ => rfl) kept
    · set decided := ((state.addToTopic peer (pbGraft.topicId.getD [])).graftDecision env peer
        (pbGraft.topicId.getD []) topic).2 with deciding
      have kept : decided.backoffs topicHash = state.backoffs topicHash := by
        unfold State.backoffs
        rw [deciding, (graftDecision_frame _ _).1]
        exact added _
      obtain ⟨extra, log⟩ := (@graftDecision_frame R _ env (state.addToTopic peer (pbGraft.topicId.getD [])) peer
        (pbGraft.topicId.getD []) topic).2
      by_cases same : topicHash = pbGraft.topicId.getD []
      · by_cases capable : (decided.heap peer).isGossipsub
        · refine .inr ⟨if (decided.heap peer).isGossipsubv1_1 then some env.config.pruneBackoff else none, extra, ?_⟩
          rw [log_makePrune, if_pos capable, same, List.cons_append]
          exact congrArg _ log
        · have old : ¬ (decided.heap peer).isGossipsubv1_1 := fun recent => capable (isGossipsub_of_v1_1 recent)
          exact .inl (by rw [backoffs_makePrune, if_neg old, kept])
      · exact .inl (by rw [backoffs_makePrune, backoffs_updateBackoff, if_neg same, ite_self, kept])

/-- A graft of a peer for which no more than the slack remains is not penalized. -/
theorem unpenalized_onGraft {pbGraft : Pb.ControlGraft}
    (rests : state.remaining (pbGraft.topicId.getD []) peer ≤ env.config.backoffSlack) :
    ∃ extra, (state.onGraft env peer pbGraft).log = extra ++ state.log ∧
      ∀ peerId count, .penalized peerId count ∉ extra := by
  unfold onGraft
  dsimp only
  split
  · exact ⟨[], rfl, by simp⟩
  · next topic found =>
    rw [lookup_addToTopic] at found
    obtain ⟨earlier, lookup, rfl⟩ := Option.map_eq_some_iff.mp found
    have time : getBackoffTime env { earlier with peers := earlier.peers.insert peer } peer = 0 := by
      have few : earlier.backoff.get peer ≤ env.config.backoffSlack := by
        unfold State.remaining State.backoffs at rests
        rw [lookup] at rests
        exact rests
      unfold getBackoffTime
      dsimp only
      rw [Nat.sub_eq_zero_of_le few]
      simp
    have decided : ((state.addToTopic peer (pbGraft.topicId.getD [])).graftDecision env peer (pbGraft.topicId.getD [])
        { earlier with peers := earlier.peers.insert peer }).2 = state.addToTopic peer (pbGraft.topicId.getD []) := by
      unfold graftDecision
      dsimp only
      rw [time, if_neg (lt_irrefl 0)]
      split_ifs <;> rfl
    split_ifs
    · exact ⟨[], rfl, by simp⟩
    · exact ⟨[], rfl, by simp⟩
    · rw [decided]
      exact ⟨[], rfl, by simp⟩
    · rw [decided, log_makePrune]
      split_ifs
      · exact ⟨[_], rfl, by simp⟩
      · exact ⟨[_], rfl, by simp⟩
      · exact ⟨[], rfl, by simp⟩

end Frames

section Pruning

variable {limit : ℕ} {base : List Observation} {encoded : Bytes} {rpc : Pb.RPC}

theorem Sane.chain (sane : Sane env before) (chain : Chain env event before after) (calm : event ≠ .heartbeat) :
    Sane env after :=
  chain_preserves (fun state : State R => Sane env state) chain (fun _ _ micro sane => sane.update micro calm) sane

/-- A part of a frame that renews no backoff of its sender, unless it tells it to leave. -/
theorem Lapsing.handled (lapsing : Lapsing env topicHash peer limit base before) (chain : Chain env event before after)
    (calm : event ≠ .heartbeat)
    (kept : after.backoffs topicHash = before.backoffs topicHash ∨ ∃ backoff, ∃ extra : List Observation,
      after.log = .queued peer (.prune topicHash backoff) :: extra ++ before.log) :
    Lapsing env topicHash peer limit base after := by
  obtain ⟨more, log⟩ := chain.log_suffix lapsing.sane.sound
  refine lapsing.extend (lapsing.sane.chain chain calm) (chain.ticks_eq calm) log ?_
  rcases kept with same | ⟨backoff, extra, told⟩
  · exact .inl (by rw [State.remaining, State.remaining, same])
  · rw [log] at told
    exact .inr ⟨backoff, by rw [List.append_cancel_right told]; simp⟩

/-- Subscriptions, messages and some grafts of a frame have been handled. -/
theorem Lapsing.frame (lapsing : Lapsing env topicHash peer limit base state)
    (decoded : Pb.RPC.decode encoded = some rpc) (allocated : peer < state.allocated)
    (capable : (state.heap peer).isGossipsub) (stays : topicHash ∉ rpc.leaves) {first : List Pb.ControlGraft}
    (part : ∀ entry ∈ first, entry ∈ rpc.control.graft) :
    Lapsing env topicHash peer limit base (first.foldl (onGraft env peer) (rpc.publish.foldl (onPublish env peer)
      (rpc.subscriptions.foldl (onSubscription env peer) state))) ∧
    (first.foldl (onGraft env peer) (rpc.publish.foldl (onPublish env peer)
      (rpc.subscriptions.foldl (onSubscription env peer) state))).heartbeatTicks = state.heartbeatTicks := by
  let holds : State R → Prop := fun current => Lapsing env topicHash peer limit base current ∧
    peer < current.allocated ∧ (current.heap peer).isGossipsub
  have next : ∀ {current later : State R}, holds current → Chain env (.message peer encoded) current later →
      (later.backoffs topicHash = current.backoffs topicHash ∨ ∃ backoff, ∃ extra : List Observation,
        later.log = .queued peer (.prune topicHash backoff) :: extra ++ current.log) →
      Chain env (.message peer encoded) current later ∧ holds later :=
    fun ⟨lapsing, allocated, capable⟩ chain kept =>
      ⟨chain, lapsing.handled chain (by simp) kept, chain.capable allocated capable⟩
  have subscribed := @chain_foldl _ _ (Micro env (.message peer encoded)) (onSubscription env peer) rpc.subscriptions state
    holds (fun current pbSubscribe entry before =>
      next before (chain_onSubscription rfl decoded before.2.1 entry) (.inl (backoffs_onSubscription fun leaves same =>
        stays (List.mem_map.mpr ⟨pbSubscribe, List.mem_filter.mpr ⟨entry, by simp [leaves]⟩, same⟩))))
    ⟨lapsing, allocated, capable⟩
  have published := @chain_foldl _ _ (Micro env (.message peer encoded)) (onPublish env peer) rpc.publish _
    holds (fun current pbPublish entry before =>
      next before (chain_onPublish rfl decoded entry) (.inl (congrFun backoffs_onPublish topicHash))) subscribed.2
  have grafted := @chain_foldl _ _ (Micro env (.message peer encoded)) (onGraft env peer) first _
    holds (fun current pbGraft entry before =>
      next before (chain_onGraft rfl decoded before.2.1 before.2.2 (part pbGraft entry)) backoffs_onGraft) published.2
  exact ⟨grafted.2.1, Chain.ticks_eq ((subscribed.1.trans published.1).trans grafted.1) (by simp)⟩

end Pruning

/-- The steps of a node. -/
abbrev Steps (env : Env R) : State R → List Event → State R → Prop :=
  Run fun before event after => before.step env event = some after

/-- A node queued a prune for a topic to a v1.1 peer. Some heartbeats later a frame of that peer is being handled, up to
one of its grafts for the topic. Meanwhile the peer was not told again to leave, and did not say that it leaves. -/
inductive Pruner (env : Env R) (lastSeqNo : Seqno) (topicHash : TopicHash) (peer : PeerPtr) :
    ℕ → State R → Pb.ControlGraft → Prop
  | intro {events later : List Event} {event : Event} {before after arrived : State R} {newer older more : List Observation}
      {encoded : Bytes} {rpc : Pb.RPC} {first rest : List Pb.ControlGraft} {pbGraft : Pb.ControlGraft}
      (run : Runs env lastSeqNo events before) (stepped : before.step env event = some after)
      (told : after.log = newer ++ .queued peer (.prune topicHash (some env.config.pruneBackoff)) :: (older ++ before.log))
      (meanwhile : Steps env after later arrived) (tacit : ∀ event ∈ later, event.Tacit peer topicHash)
      (received : (arrived.step env (.message peer encoded)).isSome) (decoded : Pb.RPC.decode encoded = some rpc)
      (heard : ¬ arrived.below peer env.config.score.graylistThreshold)
      (recent : (arrived.heap peer).isGossipsubv1_1) (stays : topicHash ∉ rpc.leaves)
      (grafts : rpc.control.graft = first ++ pbGraft :: rest) (about : pbGraft.topicId.getD [] = topicHash)
      (log : (first.foldl (onGraft env peer) (rpc.publish.foldl (onPublish env peer)
        (rpc.subscriptions.foldl (onSubscription env peer) arrived))).log = more ++
          .queued peer (.prune topicHash (some env.config.pruneBackoff)) :: (older ++ before.log))
      (untold : ∀ backoff, .queued peer (.prune topicHash backoff) ∉ more) :
      Pruner env lastSeqNo topicHash peer (later.count .heartbeat)
        (first.foldl (onGraft env peer) (rpc.publish.foldl (onPublish env peer)
          (rpc.subscriptions.foldl (onSubscription env peer) arrived))) pbGraft

/-- A node handled a prune for a topic that it is subscribed to, and queued a graft for it to the same peer object some
heartbeats later; the heartbeat that grafts counts. -/
inductive Grafter (env : Env R) (lastSeqNo : Seqno) (topicHash : TopicHash) (peer : PeerPtr) (backoff : Backoff) :
    ℕ → Prop
  | intro {events later : List Event} {last : Event} {before after middle final : State R} {recent : List Observation}
      {encoded : Bytes} {rpc : Pb.RPC} (run : Runs env lastSeqNo events before)
      (stepped : before.step env (.message peer encoded) = some after) (decoded : Pb.RPC.decode encoded = some rpc)
      (heard : ¬ before.below peer env.config.score.graylistThreshold) (capable : (before.heap peer).isGossipsub)
      (entry : { topicId := some topicHash, backoff := some (UInt64.ofInt backoff) } ∈ rpc.control.prune)
      (subscribed : Subscribed topicHash before) (meanwhile : Steps env after later middle)
      (stepped' : middle.step env last = some final) (log : final.log = recent ++ middle.log)
      (queued : .queued peer (.graft topicHash) ∈ recent) :
      Grafter env lastSeqNo topicHash peer backoff ((later ++ [last]).count .heartbeat)

/-- The slots of a wheel that a peer can rest. -/
def Config.turns (config : Config R) : ℕ := backoffSlots config config.pruneBackoff (config.backoffSlack + 1) - 1

section Exchange

/-- What remains at the node that pruned. -/
theorem Pruner.remaining_le {heartbeats : ℕ} {pbGraft : Pb.ControlGraft}
    (pruner : Pruner env lastSeqNo topicHash peer heartbeats state pbGraft) :
    pbGraft.topicId.getD [] = topicHash ∧ state.remaining topicHash peer ≤ env.config.turns - heartbeats := by
  obtain ⟨run, stepped, told, meanwhile, tacit, received, decoded, heard, recent, stays, grafts, about, log, untold⟩ := pruner
  rename_i events later event before after arrived newer older more encoded rpc first rest
  refine ⟨about, ?_⟩
  have sane := (sane_of_runs run).step stepped
  have start : Lapsing env topicHash peer (after.heartbeatTicks + env.config.turns) after.log after := by
    refine ⟨sane, [], rfl, fun _ => ?_⟩
    rw [Nat.add_sub_cancel_left]
    unfold State.remaining
    cases found : after.backoffs topicHash with
    | none => exact Nat.zero_le _
    | some backoff =>
      obtain ⟨sound, round⟩ := sane.wheeled topicHash backoff found
      have bound : backoff.get peer ≤ backoff.round - 1 := TopicBackoff.get_le sound
      rwa [round] at bound
  have arrival := start.run meanwhile tacit
  have ticks := (ticks_of_steps sane meanwhile).2
  have allocated : peer < arrived.allocated := by
    obtain ⟨result, taken⟩ := Option.isSome_iff_exists.mp received
    exact (Option.ite_none_right_eq_some.mp taken).1
  have part : ∀ entry ∈ first, entry ∈ rpc.control.graft := fun entry member => by rw [grafts]; simp [member]
  obtain ⟨⟨-, extra, logged, lapses⟩, same⟩ :=
    arrival.frame decoded allocated (isGossipsub_of_v1_1 recent) stays part
  have short := lapses fun backoff queued => by
    rw [logged, told, ← List.append_assoc] at log
    exact untold backoff (by rw [← List.append_cancel_right log]; exact List.mem_append_left _ queued)
  rw [same, ticks] at short
  omega

/-- A node that handles a prune with the configured backoff rests for a whole turn of the wheel. -/
theorem holding_of_onPrune {backoff : Backoff} (same : backoff = env.config.pruneBackoff)
    (representable : -2 ^ 63 ≤ backoff ∧ backoff < 2 ^ 63) (sane : Sane env state)
    (subscribed : Subscribed topicHash state) (micro : Micro env event state (state.onPrune env peer
      { topicId := some topicHash, backoff := some (UInt64.ofInt backoff) })) (calm : event ≠ .heartbeat) :
    Holding env topicHash peer ((state.onPrune env peer
        { topicId := some topicHash, backoff := some (UInt64.ofInt backoff) }).heartbeatTicks + env.config.turns)
      (state.onPrune env peer { topicId := some topicHash, backoff := some (UInt64.ofInt backoff) }).log
      (state.onPrune env peer { topicId := some topicHash, backoff := some (UInt64.ofInt backoff) }) := by
  subst same
  refine ⟨sane.update micro calm, micro.subscribed calm subscribed, ?_, [], rfl, fun member => by cases member⟩
  obtain ⟨topic, found, -⟩ := Option.map_eq_some_iff.mp subscribed
  have wheel : state.backoffs topicHash = some topic.backoff := by
    rw [State.backoffs, found]
    rfl
  have round := (sane.wheeled topicHash _ wheel).2
  have updated : (state.onPrune env peer
      { topicId := some topicHash, backoff := some (UInt64.ofInt env.config.pruneBackoff) }).backoffs topicHash = some (topic.backoff.update peer (backoffSlots env.config env.config.pruneBackoff
        env.config.backoffSlack)) := by
    unfold onPrune
    rw [backoffs_removePeerFromMesh, if_pos (.inl rfl), backoffs_updateBackoff]
    simp only [Option.getD_some, if_true, wheel, Option.map_some, State.pruneBackoff, toInt_ofInt representable]
  have slots : env.config.turns ≤ backoffSlots env.config env.config.pruneBackoff env.config.backoffSlack := by
    unfold Config.turns backoffSlots
    push_cast
    omega
  refine Nat.add_le_add_left ?_ _
  rw [State.remaining, updated, Option.map_some, Option.getD_some, TopicBackoff.get_update, if_pos rfl, round]
  exact (le_min slots le_rfl).trans (le_max_right _ _)

/-- What the node that grafts has waited. -/
theorem Grafter.turns_le {heartbeats : ℕ} {backoff : Backoff}
    (grafter : Grafter env lastSeqNo topicHash peer backoff heartbeats) (same : backoff = env.config.pruneBackoff)
    (representable : -2 ^ 63 ≤ backoff ∧ backoff < 2 ^ 63) : env.config.turns ≤ heartbeats := by
  obtain ⟨run, stepped, decoded, heard, capable, entry, subscribed, meanwhile, stepped', log, queued⟩ := grafter
  rename_i events later last before after middle final recent encoded rpc
  obtain ⟨allocated, ⟨⟩⟩ := Option.ite_none_right_eq_some.mp stepped
  have sane := sane_of_runs run
  obtain ⟨current, reached, -, finish⟩ := exists_onPrune rfl decoded allocated capable heard entry
  have carried : Event.Carries (.message peer encoded) peer rpc := ⟨encoded, rfl, decoded⟩
  have micro : Micro env (.message peer encoded) current (current.onPrune env peer
      { topicId := some topicHash, backoff := some (UInt64.ofInt backoff) }) :=
    .pruned current _ peer _ carried (List.mem_map_of_mem entry)
  have start := holding_of_onPrune same representable (sane.chain reached (by simp))
    (chain_preserves (fun state : State R => Subscribed topicHash state) reached
      (fun _ _ micro => micro.subscribed (by simp)) subscribed) micro (by simp)
  have ticks : (before.onMessage env peer encoded).1.heartbeatTicks = (current.onPrune env peer
      { topicId := some topicHash, backoff := some (UInt64.ofInt backoff) }).heartbeatTicks := finish.ticks_eq (by simp)
  have holding := (start.chain finish (by simp)).run meanwhile
  obtain ⟨-, -, -, earlier, logged, -⟩ := id holding
  obtain ⟨-, -, -, extra, logged', watched⟩ := holding.step stepped'
  have sane' := (sane.step stepped)
  have counted := (ticks_of_steps sane' (meanwhile.snoc stepped')).2
  have done := watched (by
    rw [log, logged, ← List.append_assoc] at logged'
    rw [← List.append_cancel_right logged']
    exact List.mem_append_left _ queued)
  omega

/-- A node that grafts again when its own backoff has run out is not penalized by a node with the same settings that has
run as many heartbeats since it queued the prune, up to the slack. -/
theorem regraft_unpenalized {first second : Env R} {firstSeqNo secondSeqNo : Seqno} {pruned grafting : PeerPtr}
    {ran waited : ℕ} {pbGraft : Pb.ControlGraft} (backoff : second.config.pruneBackoff = first.config.pruneBackoff)
    (interval : second.config.heartbeatInterval = first.config.heartbeatInterval)
    (slack : second.config.backoffSlack = first.config.backoffSlack)
    (representable : -2 ^ 63 ≤ first.config.pruneBackoff ∧ first.config.pruneBackoff < 2 ^ 63)
    (pruner : Pruner first firstSeqNo topicHash pruned ran state pbGraft)
    (grafter : Grafter second secondSeqNo topicHash grafting first.config.pruneBackoff waited)
    (enough : waited ≤ ran + first.config.backoffSlack) :
    ∃ extra, (state.onGraft first pruned pbGraft).log = extra ++ state.log ∧
      ∀ peerId count, .penalized peerId count ∉ extra := by
  obtain ⟨about, remains⟩ := pruner.remaining_le
  have turns := grafter.turns_le backoff.symm representable
  have same : second.config.turns = first.config.turns := by
    unfold Config.turns backoffSlots
    rw [backoff, interval, slack]
  refine unpenalized_onGraft ?_
  rw [about]
  omega

/-- A frame with one graft. -/
def asking : Pb.ControlGraft := { topicId := some [0x74] }

def grafting : Bytes := Pb.RPC.encode { control := { graft := [asking] } }

/-- A peer that has pruned itself asks too early and is told to leave; one heartbeat later it asks again. -/
theorem pruner_brief : ∃ state, Pruner briefEnv 0 [0x74] 0 1 state asking := by
  have followed : (((meetingEvents ++ [Event.message 0 (pruning 1)]).foldlM (State.step briefEnv)
      (State.initial briefEnv 0)).bind fun before => (before.step briefEnv (.message 0 grafting)).bind fun after =>
        ([.heartbeat].foldlM (State.step briefEnv) after).map fun arrived =>
          decide (after.log.head? = some (.queued 0 (.prune [0x74] (some 1)))) &&
            decide (before.log.length < after.log.length) && decide (arrived.log.length = after.log.length) &&
            (arrived.heap 0).isGossipsubv1_1 && ! arrived.below 0 briefEnv.config.score.graylistThreshold &&
            (arrived.step briefEnv (.message 0 grafting)).isSome) = some true := by
    decide +kernel
  obtain ⟨before, ran, followed⟩ := Option.bind_eq_some_iff.mp followed
  obtain ⟨after, taken, followed⟩ := Option.bind_eq_some_iff.mp followed
  obtain ⟨arrived, ran', observed⟩ := Option.map_eq_some_iff.mp followed
  simp only [Bool.and_eq_true, decide_eq_true_eq, Bool.not_eq_true'] at observed
  obtain ⟨⟨⟨⟨⟨told, longer⟩, same⟩, recent⟩, heard⟩, received⟩ := observed
  have run := Run.of_foldlM ran
  have meanwhile := Run.of_foldlM ran'
  have beat : after.step briefEnv .heartbeat = some arrived := by simpa using ran'
  obtain ⟨newer, log⟩ := log_suffix_of_step (sound_of_runs run) taken
  obtain ⟨more, log'⟩ := log_suffix_of_step (sound_of_runs (run.snoc taken)) beat
  obtain rfl : more = [] := List.length_eq_zero_iff.mp (by rw [log', List.length_append] at same; omega)
  rcases newer with _ | ⟨newest, older⟩
  · rw [log] at longer
    exact absurd longer (lt_irrefl _)
  · rw [log, List.cons_append, List.head?_cons] at told
    obtain rfl := Option.some.inj told
    have decoded : Pb.RPC.decode grafting = some { control := { graft := [asking] } } := by decide +kernel
    have tacit : ∀ event ∈ [Event.heartbeat], event.Tacit 0 [0x74] := by
      rintro event member rpc ⟨encoded, source, -⟩
      rw [List.mem_singleton.mp member] at source
      cases source
    have queued : after.log = [] ++ .queued 0 (.prune [0x74] (some 1)) :: (older ++ before.log) := log
    have still : arrived.log = [] ++ .queued 0 (.prune [0x74] (some 1)) :: (older ++ before.log) := log'.trans log
    have grafts : ({ control := { graft := [asking] } } : Pb.RPC).control.graft = [] ++ asking :: [] := rfl
    exact ⟨arrived, .intro run taken queued meanwhile tacit received decoded (ne_true_of_eq_false heard) recent
      (by simp [Pb.RPC.leaves]) grafts rfl still (by simp)⟩

/-- A peer that was told to leave grafts again with its second heartbeat. -/
theorem grafter_brief : Grafter briefEnv 0 [0x74] 0 1 2 := by
  have followed : ((meetingEvents.foldlM (State.step briefEnv) (State.initial briefEnv 0)).bind fun before =>
      (before.step briefEnv (.message 0 (pruning 1))).bind fun after =>
        ([.heartbeat].foldlM (State.step briefEnv) after).bind fun middle =>
          (middle.step briefEnv .heartbeat).map fun final =>
            ! before.below 0 briefEnv.config.score.graylistThreshold && (before.heap 0).isGossipsub &&
              decide ((before.topics.lookup [0x74]).map Topic.publishOnly = some false) &&
              decide (.queued 0 (.graft [0x74]) ∈ final.log.take 1) &&
              decide (final.log.length = middle.log.length + 1)) = some true := by
    decide +kernel
  obtain ⟨before, ran, followed⟩ := Option.bind_eq_some_iff.mp followed
  obtain ⟨after, taken, followed⟩ := Option.bind_eq_some_iff.mp followed
  obtain ⟨middle, ran', followed⟩ := Option.bind_eq_some_iff.mp followed
  obtain ⟨final, taken', observed⟩ := Option.map_eq_some_iff.mp followed
  simp only [Bool.and_eq_true, decide_eq_true_eq, Bool.not_eq_true'] at observed
  obtain ⟨⟨⟨⟨heard, capable⟩, subscribed⟩, queued⟩, length⟩ := observed
  have run := Run.of_foldlM ran
  have meanwhile := Run.of_foldlM ran'
  obtain ⟨recent, log⟩ := log_suffix_of_step (sound_of_runs ((run.snoc taken).append meanwhile)) taken'
  have one : recent.length = 1 := by
    rw [log, List.length_append] at length
    omega
  rw [log, List.take_left' one] at queued
  have decoded : Pb.RPC.decode (pruning 1) = some { control := { prune := [leaving 1] } } := by decide
  have entry : ({ topicId := some [0x74], backoff := some (UInt64.ofInt 1) } : Pb.ControlPrune) ∈ [leaving 1] := by
    decide
  exact .intro run taken decoded (ne_true_of_eq_false heard) capable entry subscribed meanwhile taken' log queued

/-- One heartbeat at the node that pruned makes up for two at the node that grafts, with one slot of slack. -/
theorem regraft_unpenalized_brief : ∃ state, Pruner briefEnv 0 [0x74] 0 1 state asking ∧ Grafter briefEnv 0 [0x74] 0 1 2 ∧
    ∃ extra, (state.onGraft briefEnv 0 asking).log = extra ++ state.log ∧
      ∀ peerId count, .penalized peerId count ∉ extra := by
  obtain ⟨state, pruner⟩ := pruner_brief
  exact ⟨state, pruner, grafter_brief, regraft_unpenalized rfl rfl rfl ⟨by decide, by decide⟩ pruner grafter_brief
    (by decide)⟩

end Exchange

end Libp2p.Gossip
