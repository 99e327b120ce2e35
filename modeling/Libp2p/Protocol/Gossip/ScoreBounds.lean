import Libp2p.Protocol.Gossip.Leaving

/-! # Bounds of the counters

Whatever is done to scores, the counters of every record stay between zero and their caps, penalties do not become
negative, and deliveries are only expected of a peer in the mesh. Statistics are kept for topics with parameters alone,
so that the parameters of a topic are found wherever its statistics are.
-/

namespace Libp2p.Gossip

open Library

namespace Score

variable {K : Type} [Field K] [LinearOrder K] [FloorSemiring K] {params : ScoreConfig (Exact K)}
  {scores : Score (Exact K)} {topic : TopicHash} {topicParams : TopicScoreParams (Exact K)}
  {topicStats : TopicStats (Exact K)} {value decay cap : Exact K} {now : Time}

/-- A factor that lets a counter shrink. -/
def IsDecay (decay : Exact K) : Prop := 0 ≤ decay ∧ decay ≤ 1

/-- Caps are not negative and decay factors lie between zero and one. -/
structure MildTopic (topicParams : TopicScoreParams (Exact K)) : Prop where
  firstCap : 0 ≤ topicParams.firstMessageDeliveriesCap
  meshCap : 0 ≤ topicParams.meshMessageDeliveriesCap
  firstDecay : IsDecay topicParams.firstMessageDeliveriesDecay
  meshDecay : IsDecay topicParams.meshMessageDeliveriesDecay
  failureDecay : IsDecay topicParams.meshFailurePenaltyDecay
  invalidDecay : IsDecay topicParams.invalidMessageDeliveriesDecay

structure Mild (params : ScoreConfig (Exact K)) : Prop where
  behaviourDecay : IsDecay params.behaviourPenaltyDecay
  topics : ∀ topic topicParams, params.topics.lookup topic = some topicParams → MildTopic topicParams

/-- A counter between zero and its cap. -/
def Within (cap value : Exact K) : Prop := 0 ≤ value ∧ value ≤ cap

/-- The counters of a topic with parameters. -/
structure Counters (topicParams : TopicScoreParams (Exact K)) (topicStats : TopicStats (Exact K)) : Prop where
  first : Within topicParams.firstMessageDeliveriesCap topicStats.firstMessageDeliveries
  mesh : Within topicParams.meshMessageDeliveriesCap topicStats.meshMessageDeliveries
  failure : 0 ≤ topicStats.meshFailurePenalty
  invalid : 0 ≤ topicStats.invalidMessageDeliveries
  active : topicStats.meshMessageDeliveriesActive → topicStats.meshActive.isSome

/-- The topic has parameters, and the counters are within their bounds. -/
def Accounted (params : ScoreConfig (Exact K)) (topic : TopicHash) (topicStats : TopicStats (Exact K)) : Prop :=
  ∃ topicParams, params.topics.lookup topic = some topicParams ∧ Counters topicParams topicStats

theorem counters_empty (mild : MildTopic topicParams) : Counters topicParams {} where
  first := ⟨le_rfl, mild.firstCap⟩
  mesh := ⟨le_rfl, mild.meshCap⟩
  failure := le_rfl
  invalid := le_rfl
  active impossible := by cases impossible

variable [IsStrictOrderedRing K]

/-- A counter that is counted up stays below its cap. -/
theorem within_counted (nonneg : 0 ≤ cap) (within : Within cap value) : Within cap (Double.min (value + 1) cap) := by
  rw [min_eq]
  exact ⟨le_min (add_nonneg within.1 (zero_le_one' (Exact K))) nonneg, min_le_right _ _⟩

theorem nonneg_decayed (factor : IsDecay decay) (nonneg : 0 ≤ value) : 0 ≤ scores.decayed value decay := by
  unfold decayed
  dsimp only
  split_ifs
  · exact le_rfl
  · exact mul_nonneg nonneg factor.1

theorem within_decayed (factor : IsDecay decay) (within : Within cap value) :
    Within cap (scores.decayed value decay) := by
  refine ⟨nonneg_decayed factor within.1, ?_⟩
  unfold decayed
  dsimp only
  split_ifs
  · exact within.1.trans within.2
  · exact (mul_le_of_le_one_right within.1 factor.2).trans within.2

theorem accounted_decayTopic (mild : Mild params) (now : Time) (accounted : Accounted params topic topicStats) :
    Accounted params topic (scores.decayTopic now (params.topics.lookup topic) topicStats) := by
  obtain ⟨topicParams, known, counters⟩ := accounted
  have gentle := mild.topics topic topicParams known
  refine ⟨topicParams, known, ?_⟩
  rw [known]
  constructor
  case first => exact within_decayed gentle.firstDecay counters.first
  case mesh => exact within_decayed gentle.meshDecay counters.mesh
  case failure => exact nonneg_decayed gentle.failureDecay counters.failure
  case invalid => exact nonneg_decayed gentle.invalidDecay counters.invalid
  case active =>
    intro active
    dsimp only [decayTopic] at active ⊢
    rw [Option.isSome_map]
    cases inside : topicStats.meshActive with
    | some mesh => rfl
    | none =>
      rw [inside, Option.map_none, Bool.or_false] at active
      exact absurd (counters.active active) (by rw [inside]; decide)

/-- What an operation may do to a record keeps its counters within their bounds. -/
theorem stable_accounted (mild : Mild params) :
    Stable params (fun stats => 0 ≤ stats.behaviourPenalty) (Accounted params) where
  fresh := le_rfl
  alike nonneg alike := nonneg.trans_eq alike.behaviour.symm
  penalized count nonneg := add_nonneg nonneg (Nat.cast_nonneg (α := Exact K) count)
  relaxed config nonneg := nonneg_decayed (config ▸ mild.behaviourDecay) nonneg
  empty known := by
    obtain ⟨topicParams, known⟩ := Option.isSome_iff_exists.mp (AList.lookup_isSome.mpr known)
    exact ⟨topicParams, known, counters_empty (mild.topics _ _ known)⟩
  grafted now accounted := by
    obtain ⟨topicParams, known, counters⟩ := accounted
    exact ⟨topicParams, known, { counters with active := fun impossible => by cases impossible }⟩
  pruned accounted := by
    obtain ⟨topicParams, known, counters⟩ := accounted
    exact ⟨topicParams, known, { counters with active := fun impossible => by cases impossible }⟩
  failed _ accounted := by
    obtain ⟨topicParams, known, counters⟩ := accounted
    exact ⟨topicParams, known, { counters with failure := add_nonneg counters.failure (mul_self_nonneg _) }⟩
  first known accounted := by
    obtain ⟨topicParams, known', counters⟩ := accounted
    obtain rfl := Option.some.inj (known.symm.trans known')
    exact ⟨_, known, { counters with first := within_counted (mild.topics _ _ known).firstCap counters.first }⟩
  counted known accounted := by
    obtain ⟨topicParams, known', counters⟩ := accounted
    obtain rfl := Option.some.inj (known.symm.trans known')
    exact ⟨_, known, { counters with mesh := within_counted (mild.topics _ _ known).meshCap counters.mesh }⟩
  invalid accounted := by
    obtain ⟨topicParams, known, counters⟩ := accounted
    exact ⟨topicParams, known, { counters with invalid := add_nonneg counters.invalid (zero_le_one' (Exact K)) }⟩
  forgotten accounted := by
    obtain ⟨topicParams, known, counters⟩ := accounted
    exact ⟨topicParams, known, { counters with first := ⟨le_rfl, counters.first.1.trans counters.first.2⟩ }⟩
  decayed now _ accounted := accounted_decayTopic mild now accounted

/-- In every run of the scores the counters of every record are within their bounds, and statistics are found for topics
with parameters alone. -/
theorem accounted_of_runs (mild : Mild params) {ops : List ScoreOp} (run : ScoreRuns params ops scores) :
    ∀ peerId stats, scores.peerStats.lookup peerId = some stats → 0 ≤ stats.behaviourPenalty ∧
      (∀ topic topicStats, stats.topics.lookup topic = some topicStats → Accounted params topic topicStats) ∧
      ∀ topic, (scores.statsOrDefault stats topic).isSome → topic ∈ scores.params.topics := by
  obtain ⟨config, throughout⟩ := throughout_of_runs (stable_accounted mild) run
  intro peerId stats found
  refine ⟨throughout.whole peerId stats found, throughout.each peerId stats found, fun topic present => ?_⟩
  unfold statsOrDefault at present
  cases here : stats.topics.lookup topic with
  | some topicStats =>
    obtain ⟨topicParams, known, -⟩ := throughout.each peerId stats found topic topicStats here
    rw [config, ← AList.lookup_isSome, known]
    rfl
  | none =>
    rw [here] at present
    by_contra unknown
    dsimp only at present
    rw [if_neg unknown] at present
    cases present

theorem mild_sample (behaviourWeight behaviourThreshold : Exact ℚ) :
    Mild (sampleScoreConfig (1 / 2 : ℚ) 0 behaviourWeight behaviourThreshold) := by
  have decay (factor : ℚ) (nonneg : 0 ≤ factor) (less : factor ≤ 1) : @IsDecay ℚ _ _ _ factor := ⟨nonneg, less⟩
  have half := decay (1 / 2) (by norm_num) (by norm_num)
  refine ⟨decay (1 / 5) (by norm_num) (by norm_num), fun topic topicParams found => ?_⟩
  change ((∅ : UnorderedMap TopicHash (TopicScoreParams (Exact ℚ))).insert [] _).lookup topic = _ at found
  rw [UnorderedMap.lookup_insert_eq] at found
  split_ifs at found
  · obtain rfl := Option.some.inj found
    have ten : (0 : ℚ) ≤ 10 := by norm_num
    exact ⟨ten, ten, half, half, half, half⟩
  · cases found

theorem accounted_decayed : ∃ stats,
    (decayedOps.foldl apply { params := sampleScoreConfig (1 / 2 : ℚ) 0 0 0 }).peerStats.lookup (samplePeerId 1) =
        some stats ∧
      0 ≤ stats.behaviourPenalty ∧ (∀ topic topicStats, stats.topics.lookup topic = some topicStats →
        Accounted (sampleScoreConfig (1 / 2 : ℚ) 0 0 0) topic topicStats) ∧ ∀ topic,
          ((decayedOps.foldl apply { params := sampleScoreConfig (1 / 2 : ℚ) 0 0 0 }).statsOrDefault stats topic).isSome →
            topic ∈ (decayedOps.foldl apply { params := sampleScoreConfig (1 / 2 : ℚ) 0 0 0 }).params.topics := by
  have known : ((decayedOps.foldl apply { params := sampleScoreConfig (1 / 2 : ℚ) 0 0 0 }).peerStats.lookup
      (samplePeerId 1)).isSome := by decide +kernel
  obtain ⟨stats, found⟩ := Option.isSome_iff_exists.mp known
  exact ⟨stats, found, accounted_of_runs (mild_sample 0 0) (run_foldl decayedOps) (samplePeerId 1) stats found⟩

end Score

end Libp2p.Gossip
