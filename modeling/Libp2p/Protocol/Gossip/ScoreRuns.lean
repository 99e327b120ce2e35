import Libp2p.Protocol.Gossip.Standing

/-! # Runs of the scores of a node

Whatever a node does, its scores change by a few operations. A property of all statistics that every operation keeps
holds in every run of the scores, and every run of a node is a run of its scores.
-/

namespace Libp2p.Gossip

open Library State

/-- What may be done to scores. -/
inductive ScoreOp where
  | addPenalty (peerId : PeerId) (count : ℕ)
  | graft (peerId : PeerId) (topic : TopicHash) (now : Time)
  | prune (peerId : PeerId) (topic : TopicHash)
  | duplicateMessage (peerId : PeerId) (messageId : MessageId) (topic : TopicHash) (now later : Time)
  | validateMessage (messageId : MessageId) (now : Time)
  | deliverMessage (from_ : PeerId) (messageId : MessageId) (topic : TopicHash) (now later : Time)
  | connect (peerId : PeerId)
  | disconnect (peerId : PeerId) (now : Time)
  | onDecay (now : Time)

/-- The peer that an operation is about. -/
def ScoreOp.subject : ScoreOp → Option PeerId
  | .addPenalty peerId _ | .graft peerId _ _ | .prune peerId _ | .duplicateMessage peerId _ _ _ _
  | .deliverMessage peerId _ _ _ _ | .connect peerId | .disconnect peerId _ => some peerId
  | .validateMessage _ _ | .onDecay _ => none

namespace Score

variable {R : Type} [Double R] {params : ScoreConfig R} {scores : Score R} {peerId other : PeerId} {topic : TopicHash}
  {messageId : MessageId} {now later : Time}

def apply (scores : Score R) : ScoreOp → Score R
  | .addPenalty peerId count => scores.addPenalty peerId count
  | .graft peerId topic now => scores.graft peerId topic now
  | .prune peerId topic => scores.prune peerId topic
  | .duplicateMessage peerId messageId topic now later => scores.duplicateMessage peerId messageId topic now later
  | .validateMessage messageId now => scores.validateMessage messageId now
  | .deliverMessage from_ messageId topic now later => scores.deliverMessage from_ messageId topic now later
  | .connect peerId => scores.connect peerId
  | .disconnect peerId now => scores.disconnect peerId now
  | .onDecay now => scores.onDecay now

/-- The states of the scores of a node. -/
abbrev ScoreRuns (params : ScoreConfig R) : List ScoreOp → Score R → Prop :=
  Run (fun before op after => after = before.apply op) { params }

theorem run_foldl (ops : List ScoreOp) :
    Run (fun before op after => after = before.apply op) scores ops (ops.foldl apply scores) := by
  induction ops using List.reverseRecOn with
  | nil => exact .nil
  | append_singleton ops op ih =>
    rw [List.foldl_append]
    exact ih.snoc rfl

theorem lookup_modifyPeer (change : PeerStats R → PeerStats R) :
    (scores.modifyPeer peerId change).peerStats.lookup other =
      if other = peerId then (scores.peerStats.lookup peerId).map change else scores.peerStats.lookup other :=
  UnorderedMap.lookup_modify change

/-- Two records agree in what they hold against their peers. -/
structure PeerStats.Alike (first second : PeerStats R) : Prop where
  behaviour : first.behaviourPenalty = second.behaviourPenalty
  application : first.applicationScore = second.applicationScore
  slow : first.slowPeerPenalty = second.slowPeerPenalty

/-- Every record has a property, and so have the statistics of every topic, where it depends on the topic. -/
structure Throughout (whole : PeerStats R → Prop) (each : TopicHash → TopicStats R → Prop) (scores : Score R) : Prop where
  whole : ∀ peerId stats, scores.peerStats.lookup peerId = some stats → whole stats
  each : ∀ peerId stats, scores.peerStats.lookup peerId = some stats →
    ∀ topic topicStats, stats.topics.lookup topic = some topicStats → each topic topicStats

/-- The properties survive everything that an operation may do, and statistics are created for topics with parameters. -/
structure Stable (params : ScoreConfig R) (whole : PeerStats R → Prop) (each : TopicHash → TopicStats R → Prop) : Prop where
  fresh : whole {}
  alike : ∀ {before after}, whole before → PeerStats.Alike after before → whole after
  penalized : ∀ {stats} (count : ℕ), whole stats →
    whole { stats with behaviourPenalty := stats.behaviourPenalty + (count : R) }
  relaxed : ∀ {stats} {scores : Score R}, scores.params = params → whole stats → whole { stats with
    behaviourPenalty := scores.decayed stats.behaviourPenalty scores.params.behaviourPenaltyDecay
    slowPeerPenalty := scores.decayed stats.slowPeerPenalty scores.params.slowPeerDecay }
  empty : ∀ {topic}, topic ∈ params.topics → each topic {}
  grafted : ∀ {topic stats} (now : Time), each topic stats →
    each topic { stats with meshActive := some { graftTime := now }, meshMessageDeliveriesActive := false }
  pruned : ∀ {topic stats}, each topic stats →
    each topic { stats with meshActive := none, meshMessageDeliveriesActive := false }
  failed : ∀ {topic topicParams stats}, params.topics.lookup topic = some topicParams → each topic stats →
    each topic { stats with meshFailurePenalty := failurePenalty topicParams.meshMessageDeliveriesThreshold stats }
  first : ∀ {topic topicParams stats}, params.topics.lookup topic = some topicParams → each topic stats →
    each topic { stats with
      firstMessageDeliveries := Double.min (stats.firstMessageDeliveries + 1) topicParams.firstMessageDeliveriesCap }
  counted : ∀ {topic topicParams stats}, params.topics.lookup topic = some topicParams → each topic stats →
    each topic { stats with
      meshMessageDeliveries := Double.min (stats.meshMessageDeliveries + 1) topicParams.meshMessageDeliveriesCap }
  invalid : ∀ {topic stats}, each topic stats →
    each topic { stats with invalidMessageDeliveries := stats.invalidMessageDeliveries + 1 }
  forgotten : ∀ {topic stats}, each topic stats → each topic { stats with firstMessageDeliveries := 0 }
  decayed : ∀ {scores : Score R} {topic stats} (now : Time), scores.params = params → each topic stats →
    each topic (scores.decayTopic now (params.topics.lookup topic) stats)

section Throughout

variable {whole : PeerStats R → Prop} {each : TopicHash → TopicStats R → Prop}

theorem Throughout.of_eq {after : Score R} (throughout : scores.Throughout whole each)
    (records : after.peerStats = scores.peerStats) : after.Throughout whole each :=
  ⟨by rw [records]; exact throughout.whole, by rw [records]; exact throughout.each⟩

/-- A record is replaced by one that has the property, as its topics have. -/
theorem Throughout.insert {stats : PeerStats R} (throughout : scores.Throughout whole each) (good : whole stats)
    (topics : ∀ topic topicStats, stats.topics.lookup topic = some topicStats → each topic topicStats) :
    Throughout whole each { scores with peerStats := scores.peerStats.insert peerId stats } := by
  refine ⟨fun other found known => ?_, fun other found known => ?_⟩
  all_goals
    dsimp only at known
    rw [UnorderedMap.lookup_insert_eq] at known
    split_ifs at known
  · obtain rfl := Option.some.inj known
    exact good
  · exact throughout.whole _ _ known
  · obtain rfl := Option.some.inj known
    exact topics
  · exact throughout.each _ _ known

theorem Throughout.erase (throughout : scores.Throughout whole each) :
    Throughout whole each { scores with peerStats := scores.peerStats.erase peerId } := by
  refine ⟨fun other found known => ?_, fun other found known => ?_⟩
  all_goals
    dsimp only at known
    rw [UnorderedMap.lookup_erase_eq] at known
    split_ifs at known
  · exact throughout.whole _ _ known
  · exact throughout.each _ _ known

theorem Throughout.modifyPeer {change : PeerStats R → PeerStats R} (throughout : scores.Throughout whole each)
    (good : ∀ stats, whole stats → whole (change stats))
    (topics : ∀ stats, (∀ topic topicStats, stats.topics.lookup topic = some topicStats → each topic topicStats) →
      ∀ topic topicStats, (change stats).topics.lookup topic = some topicStats → each topic topicStats) :
    Throughout whole each (scores.modifyPeer peerId change) := by
  refine ⟨fun other found known => ?_, fun other found known => ?_⟩
  all_goals
    rw [lookup_modifyPeer] at known
    split_ifs at known
  · obtain ⟨old, present, rfl⟩ := Option.map_eq_some_iff.mp known
    exact good old (throughout.whole _ _ present)
  · exact throughout.whole _ _ known
  · obtain ⟨old, present, rfl⟩ := Option.map_eq_some_iff.mp known
    exact topics old (throughout.each _ _ present)
  · exact throughout.each _ _ known

theorem Throughout.modifyTopic (stable : Stable params whole each) {change : TopicStats R → TopicStats R}
    (throughout : scores.Throughout whole each) (config : scores.params = params)
    (changed : ∀ topicStats, each topic topicStats → each topic (change topicStats)) :
    Throughout whole each (scores.modifyTopic peerId topic change) := by
  have inserted : ∀ (stats : PeerStats R) (old : TopicStats R), each topic old →
      (∀ topic topicStats, stats.topics.lookup topic = some topicStats → each topic topicStats) → ∀ other topicStats,
        (stats.topics.insert topic (change old)).lookup other = some topicStats → each other topicStats := by
    intro stats old good all other topicStats known
    rw [UnorderedMap.lookup_insert_eq] at known
    split_ifs at known with same
    · obtain rfl := Option.some.inj known
      rw [same]
      exact changed _ good
    · exact all _ _ known
  refine throughout.modifyPeer (fun stats good => ?_) fun stats all => ?_
  · split
    · exact good
    · exact stable.alike good ⟨rfl, rfl, rfl⟩
  · unfold statsOrDefault
    cases found : stats.topics.lookup topic with
    | some topicStats => exact inserted stats topicStats (all _ _ found) all
    | none =>
      dsimp only
      split_ifs with known
      · exact inserted stats {} (stable.empty (config ▸ known)) all
      · exact all

theorem Throughout.connect (stable : Stable params whole each) (throughout : scores.Throughout whole each) :
    Throughout whole each (scores.connect peerId) := by
  unfold Score.connect
  cases found : scores.peerStats.lookup peerId with
  | none => exact throughout.insert stable.fresh fun _ _ impossible => by cases impossible
  | some stats =>
    refine throughout.insert (stable.alike (throughout.whole _ _ found) ⟨rfl, rfl, rfl⟩) ?_
    intro topic topicStats known
    exact throughout.each _ _ found _ _ known

theorem Stable.leaveTopic (stable : Stable params whole each) {topicStats : TopicStats R}
    (good : each topic topicStats) : each topic (leaveTopic (params.topics.lookup topic) topicStats) := by
  have kept : each topic { topicStats with firstMessageDeliveries := 0 } := stable.forgotten good
  unfold Score.leaveTopic
  cases known : params.topics.lookup topic with
  | none => exact stable.pruned kept
  | some topicParams =>
    dsimp only
    split_ifs
    · exact stable.pruned (stable.failed known kept)
    · exact stable.pruned kept

theorem Throughout.disconnect (stable : Stable params whole each) (throughout : scores.Throughout whole each)
    (config : scores.params = params) :
    Throughout whole each (scores.disconnect peerId now) := by
  unfold Score.disconnect
  cases found : scores.peerStats.lookup peerId with
  | none => exact throughout
  | some stats =>
    dsimp only
    split_ifs
    · exact throughout.erase
    · refine throughout.insert (stable.alike (throughout.whole _ _ found) ⟨rfl, rfl, rfl⟩) ?_
      intro topic topicStats known
      dsimp only at known
      rw [lookup_mapTopics, config] at known
      obtain ⟨old, present, rfl⟩ := Option.map_eq_some_iff.mp known
      exact stable.leaveTopic (throughout.each _ _ found _ _ present)

theorem Throughout.markFirstMessageDelivery (stable : Stable params whole each)
    (throughout : scores.Throughout whole each) (config : scores.params = params) :
    Throughout whole each (scores.markFirstMessageDelivery peerId topic) := by
  refine throughout.modifyTopic stable config fun topicStats good => ?_
  rw [config]
  split
  · exact good
  · next topicParams known =>
    split_ifs
    · exact stable.first known (stable.counted known good)
    · exact stable.first known good

theorem Throughout.markDuplicateMessageDelivery (stable : Stable params whole each) {validatedTime : Option Time}
    (throughout : scores.Throughout whole each) (config : scores.params = params) :
    Throughout whole each (scores.markDuplicateMessageDelivery peerId topic validatedTime now) := by
  refine throughout.modifyTopic stable config fun topicStats good => ?_
  rw [config]
  split_ifs
  · split
    · next known =>
      split_ifs
      · exact good
      · exact stable.counted known good
    · exact good
  · exact good

theorem Throughout.prune (stable : Stable params whole each) (throughout : scores.Throughout whole each)
    (config : scores.params = params) :
    Throughout whole each (scores.prune peerId topic) := by
  refine throughout.modifyTopic stable config fun topicStats good => ?_
  rw [config]
  dsimp only
  split
  · exact stable.pruned good
  · next known =>
    split_ifs
    · exact stable.pruned (stable.failed known good)
    · exact stable.pruned good

theorem Throughout.duplicateMessage (stable : Stable params whole each) (throughout : scores.Throughout whole each)
    (config : scores.params = params) :
    Throughout whole each (scores.duplicateMessage peerId messageId topic now later) := by
  have recorded : Throughout whole each (scores.record messageId now).1 := throughout.of_eq rfl
  unfold Score.duplicateMessage
  dsimp only
  split_ifs
  · exact recorded
  · split
    · exact recorded.of_eq rfl
    · exact Throughout.markDuplicateMessageDelivery stable (recorded.of_eq rfl) config
    · exact recorded.modifyTopic stable config fun _ good => stable.invalid good
    · exact recorded

theorem Throughout.deliverMessage {from_ : PeerId} (stable : Stable params whole each)
    (throughout : scores.Throughout whole each)
    (config : scores.params = params) :
    Throughout whole each (scores.deliverMessage from_ messageId topic now later) := by
  have first : Throughout whole each (scores.markFirstMessageDelivery from_ topic) :=
    throughout.markFirstMessageDelivery stable config
  unfold Score.deliverMessage
  dsimp only
  split_ifs
  · exact first.of_eq rfl
  · -- the peers that sent the message before it was valid
    refine (foldl_preserves (fun scores : Score R => scores.params = params ∧ scores.Throughout whole each) ?_ ?_).2
    · intro scores peer _ kept
      split_ifs
      · exact ⟨kept.1, kept.2.markDuplicateMessageDelivery stable kept.1⟩
      · exact kept
    · exact ⟨config, first.of_eq rfl⟩

theorem Throughout.decayPeer (stable : Stable params whole each) (throughout : scores.Throughout whole each)
    (config : scores.params = params) :
    Throughout whole each (scores.decayPeer now peerId) := by
  unfold Score.decayPeer
  cases found : scores.peerStats.lookup peerId with
  | none => exact throughout
  | some stats =>
    dsimp only
    split
    · split_ifs
      · exact throughout.erase
      · exact throughout
    · refine throughout.insert (stable.alike (stable.relaxed config (throughout.whole _ _ found)) ⟨rfl, rfl, rfl⟩) ?_
      intro topic topicStats known
      dsimp only at known
      rw [lookup_mapTopics, config] at known
      obtain ⟨old, present, rfl⟩ := Option.map_eq_some_iff.mp known
      exact stable.decayed now config (throughout.each _ _ found _ _ present)

/-- Every operation keeps the parameters and the property. -/
theorem Throughout.apply (stable : Stable params whole each) (throughout : scores.Throughout whole each)
    (config : scores.params = params) (op : ScoreOp) :
    (scores.apply op).params = params ∧ (scores.apply op).Throughout whole each := by
  cases op with
  | addPenalty peerId count =>
    exact ⟨config, throughout.modifyPeer (fun _ good => stable.penalized count good) fun _ all => all⟩
  | graft peerId topic now => exact ⟨config, throughout.modifyTopic stable config fun _ good => stable.grafted now good⟩
  | prune peerId topic => exact ⟨config, throughout.prune stable config⟩
  | duplicateMessage peerId messageId topic now later =>
    exact ⟨params_duplicateMessage.trans config, throughout.duplicateMessage stable config⟩
  | validateMessage messageId now => exact ⟨config, throughout.of_eq rfl⟩
  | deliverMessage from_ messageId topic now later =>
    exact ⟨params_deliverMessage.trans config, throughout.deliverMessage stable config⟩
  | connect peerId => exact ⟨config, throughout.connect stable⟩
  | disconnect peerId now => exact ⟨params_disconnect.trans config, throughout.disconnect stable config⟩
  | onDecay now =>
    refine ⟨params_onDecay.trans config, (foldl_preserves
      (fun scores : Score R => scores.params = params ∧ scores.Throughout whole each)
      (fun scores peer _ kept => ⟨?_, kept.2.decayPeer stable kept.1⟩) ⟨config, throughout⟩).2⟩
    exact params_decayPeer.trans kept.1

theorem throughout_of_runs (stable : Stable params whole each) {ops : List ScoreOp} (run : ScoreRuns params ops scores) :
    scores.params = params ∧ scores.Throughout whole each := by
  refine run.preserves (fun scores => scores.params = params ∧ scores.Throughout whole each)
    ⟨rfl, fun _ _ impossible => (by cases impossible), fun _ _ impossible => by cases impossible⟩ ?_
  rintro op before after ⟨config, throughout⟩ rfl
  exact throughout.apply stable config op

end Throughout

end Score

section Runs

variable {R : Type} [Double R] {env : Env R} {event : Event} {lastSeqNo : Seqno} {events : List Event}
  {state before after : State R} {topicHash : TopicHash} {peer : PeerPtr}

/-- The scores change by operations of theirs. -/
def Scored (before after : State R) : Prop := ∃ ops : List ScoreOp, after.score = ops.foldl Score.apply before.score

theorem Scored.same (same : after.score = before.score) : Scored before after := ⟨[], same⟩

theorem Scored.one (op : ScoreOp) (changed : after.score = before.score.apply op) : Scored before after := ⟨[op], changed⟩

/-- A peer leaves a mesh at most. -/
theorem Scored.pruned {peerId : PeerId} {condition : Prop} [Decidable condition]
    (changed : after.score = if condition then before.score.prune peerId topicHash else before.score) :
    Scored before after := by
  split_ifs at changed
  · exact .one (.prune peerId topicHash) changed
  · exact .same changed

theorem Ledger.scored (ledger : Ledger env event before after) : Scored before after := by
  cases ledger with
  | penalized peerId count => exact .one (.addPenalty peerId count) rfl
  | decayed => exact .one (.onDecay (before.now env)) rfl
  | duplicated peer messageId topicHash =>
    exact .one (.duplicateMessage (before.heap peer).peerId messageId topicHash (before.now env) (before.tick.now env))
      (by rw [countDuplicate_eq]; rfl)
  | _ => exact .same rfl

/-- Every guarded update changes the scores by operations of theirs. -/
theorem Micro.scored (micro : Micro env event before after) : Scored before after := by
  cases micro with
  | ledger ledger => exact ledger.scored
  | batched peer => exact .same (getBatch_frame peer before).2.2.2.2.2.1
  | queued peer => exact .same (enqueue_frame peer _ before).2.2.2.2.2.1
  | grafted topicHash peer => exact .one (.graft (before.heap peer).peerId topicHash (before.now env)) score_graft
  | expelled topicHash peer => exact .pruned score_makePrune
  | cut topicHash peer => exact .pruned score_makePrune
  | refused topicHash peer => exact .pruned score_makePrune
  | joined topicHash peer => exact .one (.graft (before.heap peer).peerId topicHash (before.now env)) rfl
  | left topicHash => exact .pruned score_leaveTopic
  | pruned topicHash peer backoff => exact .pruned score_removePeerFromMesh
  | @admitted peer encoded rpc pbPublish message =>
    let dated := before.dateMessage env (env.config.messageIdFn message)
    refine ⟨[.validateMessage (env.config.messageIdFn message) (dated.now env), .deliverMessage (dated.heap peer).peerId
      (env.config.messageIdFn message) message.topic (dated.tick.now env) (dated.tick.tick.now env)], ?_⟩
    rw [List.foldl_cons, List.foldl_cons, List.foldl_nil]
    exact score_deliver
  | originated => exact .same (by rw [originate_eq]; rfl)
  | upgraded => exact .same (by rw [announceUpgrade_eq])
  | registered peerId out => exact .one (.connect peerId) rfl
  | opened peer stream => exact .same (by rw [openStream_eq])
  | disconnected peerId => exact .one (.disconnect peerId (before.now env)) (by rw [onPeerDisconnected_eq]; rfl)
  | expired topicHash => exact .same (by rw [expireTopic_eq])
  | aged topicHash => exact .same (by rw [shiftHistory_eq])
  | resumed peer => exact .same (by rw [resumeWriter_eq])
  | written peer frame rest => exact .same (by rw [onWritten_eq])
  | _ => exact .same rfl

/-- A run of a node is a run of its scores. -/
theorem scoreRuns_of_runs (run : Runs env lastSeqNo events state) :
    ∃ ops, Score.ScoreRuns env.config.score ops state.score := by
  have grown : ∀ {event} {before after : State R}, Micro env event before after →
      (∃ ops, Score.ScoreRuns env.config.score ops before.score) →
      ∃ ops, Score.ScoreRuns env.config.score ops after.score := by
    rintro event before after micro ⟨ops, run⟩
    obtain ⟨more, changed⟩ := micro.scored
    exact ⟨ops ++ more, changed ▸ run.append (Score.run_foldl more)⟩
  refine (run.preserves (fun state => state.roster.Sound ∧ ∃ ops, Score.ScoreRuns env.config.score ops state.score)
    ⟨roster_initial.1, [], .nil⟩ ?_).2
  rintro event before after ⟨sound, scored⟩ stepped
  exact ⟨sound_of_step sound stepped,
    step_preserves (fun state => ∃ ops, Score.ScoreRuns env.config.score ops state.score)
      (fun _ _ micro => grown micro) sound stepped scored⟩

end Runs

end Libp2p.Gossip
