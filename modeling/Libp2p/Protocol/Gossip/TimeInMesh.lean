import Libp2p.Library.Extended
import Libp2p.Protocol.Gossip.Leaving

/-! # The time in a mesh

The first term of a topic's score is a quotient of two durations, each cut to whole seconds first. With a quantum of less
than a second the divisor is zero, and the score of a peer in the mesh is not a number until it has been there for a
second: no threshold is then above it. Otherwise every score is a number in every run.
-/

namespace Libp2p.Gossip

open Library State

section Arithmetic

variable {K : Type} [Field K] [LinearOrder K] [FloorSemiring K]

instance : Double (Extended K) where
  decidableLt := inferInstance
  truncate
    | .finite value => ⌊value⌋₊
    | _ => 0

theorem isFinite_min {left right : Extended K} (one : left.IsFinite) (two : right.IsFinite) :
    (Double.min left right).IsFinite := by
  unfold Double.min
  split_ifs
  · exact two
  · exact one

end Arithmetic

namespace Score

section Values

variable {R : Type} [Double R]

/-- The first term of a topic's score, before its weight. -/
def timeInMesh (params : TopicScoreParams R) (active : MeshActive) : R :=
  Double.min (asSecs active.meshTime / asSecs params.timeInMeshQuantum) params.timeInMeshCap

/-- A peer is in the mesh of a topic with parameters. -/
def Meshed (scores : Score R) (peerId : PeerId) (params : TopicScoreParams R) (active : MeshActive) : Prop :=
  ∃ stats topic topicStats, scores.peerStats.lookup peerId = some stats ∧ stats.topics.lookup topic = some topicStats ∧
    topicStats.meshActive = some active ∧ scores.params.topics.lookup topic = some params

end Values

variable {K : Type} [Field K] [LinearOrder K] [FloorSemiring K] {params : ScoreConfig (Extended K)}
  {topicParams : TopicScoreParams (Extended K)} {scores : Score (Extended K)} {stats : PeerStats (Extended K)}
  {topicStats : TopicStats (Extended K)} {active : MeshActive} {peerId : PeerId}

/-- The divisor of the first term is not zero and the term lies between zero and its cap. -/
structure Timed (params : TopicScoreParams (Extended K)) (active : MeshActive) : Prop where
  divisor : (asSecs params.timeInMeshQuantum : Extended K) ≠ 0
  bounded : ∃ term cap, timeInMesh params active = .finite term ∧ params.timeInMeshCap = .finite cap ∧ 0 ≤ term ∧ term ≤ cap

/-- The first term is well defined wherever a peer is in a mesh, its score is a number, and every threshold is compared
with that number. -/
structure Measured (scores : Score (Extended K)) (peerId : PeerId) : Prop where
  timed : ∀ topicParams active, scores.Meshed peerId topicParams active → Timed topicParams active
  number : ∃ value, scores.score peerId = .finite value ∧
    ∀ threshold, scores.below peerId (.finite threshold) = decide (value < threshold)

/-- Parameters that are numbers, where neither the quantum nor the cap of the time in the mesh is negative. -/
structure NumericTopic (params : TopicScoreParams (Extended K)) : Prop where
  topicWeight : params.topicWeight.IsFinite
  timeWeight : params.timeInMeshWeight.IsFinite
  quantum : 0 ≤ params.timeInMeshQuantum
  timeCap : ∃ cap, params.timeInMeshCap = .finite cap ∧ 0 ≤ cap
  firstWeight : params.firstMessageDeliveriesWeight.IsFinite
  firstDecay : params.firstMessageDeliveriesDecay.IsFinite
  firstCap : params.firstMessageDeliveriesCap.IsFinite
  meshWeight : params.meshMessageDeliveriesWeight.IsFinite
  meshDecay : params.meshMessageDeliveriesDecay.IsFinite
  meshCap : params.meshMessageDeliveriesCap.IsFinite
  threshold : params.meshMessageDeliveriesThreshold.IsFinite
  failureWeight : params.meshFailurePenaltyWeight.IsFinite
  failureDecay : params.meshFailurePenaltyDecay.IsFinite
  invalidWeight : params.invalidMessageDeliveriesWeight.IsFinite
  invalidDecay : params.invalidMessageDeliveriesDecay.IsFinite

structure Numeric (params : ScoreConfig (Extended K)) : Prop where
  topics : ∀ topic topicParams, params.topics.lookup topic = some topicParams → NumericTopic topicParams
  cap : params.topicScoreCap.IsFinite
  application : params.appSpecificWeight.IsFinite
  behaviourWeight : params.behaviourPenaltyWeight.IsFinite
  behaviourThreshold : params.behaviourPenaltyThreshold.IsFinite
  behaviourDecay : params.behaviourPenaltyDecay.IsFinite
  slowWeight : params.slowPeerWeight.IsFinite
  slowThreshold : params.slowPeerThreshold.IsFinite
  slowDecay : params.slowPeerDecay.IsFinite

/-- The penalties of a record are numbers. -/
structure FiniteRecord (stats : PeerStats (Extended K)) : Prop where
  behaviour : stats.behaviourPenalty.IsFinite
  application : stats.applicationScore.IsFinite
  slow : stats.slowPeerPenalty.IsFinite

/-- The counters of a topic are numbers. -/
structure FiniteTopic (stats : TopicStats (Extended K)) : Prop where
  first : stats.firstMessageDeliveries.IsFinite
  mesh : stats.meshMessageDeliveries.IsFinite
  failure : stats.meshFailurePenalty.IsFinite
  invalid : stats.invalidMessageDeliveries.IsFinite

section Time

theorem asSecs_eq (milliseconds : ℕ) :
    (asSecs (milliseconds : Duration) : Extended K) = .finite ((milliseconds / 1000 : ℕ) : K) := rfl

variable [IsStrictOrderedRing K]

/-- The first term is well defined exactly with a quantum of at least one second. -/
theorem timed_iff (numeric : NumericTopic topicParams) : Timed topicParams active ↔ 1000 ≤ topicParams.timeInMeshQuantum := by
  obtain ⟨cap, known, nonneg⟩ := numeric.timeCap
  obtain ⟨quantum, same⟩ := Int.eq_ofNat_of_zero_le numeric.quantum
  have long : ((quantum / 1000 : ℕ) : K) ≠ 0 ↔ 1000 ≤ topicParams.timeInMeshQuantum := by
    have enough : quantum / 1000 ≠ 0 ↔ 1000 ≤ quantum := by omega
    rw [Nat.cast_ne_zero, same, enough]
    exact Int.ofNat_le.symm
  have divisor : (asSecs topicParams.timeInMeshQuantum : Extended K) ≠ 0 ↔ 1000 ≤ topicParams.timeInMeshQuantum := by
    rw [← long, same, asSecs_eq, Extended.zero_eq, ne_eq, Extended.finite.injEq]
  refine ⟨fun timed => divisor.mp timed.divisor, fun enough => ⟨divisor.mpr enough, ?_⟩⟩
  have quotient : (0 : K) ≤ ((active.meshTime / 1000 : ℕ) : K) / ((quantum / 1000 : ℕ) : K) :=
    div_nonneg (Nat.cast_nonneg _) (Nat.cast_nonneg _)
  unfold timeInMesh Double.min
  rw [same, asSecs_eq, asSecs_eq, Extended.finite_div (long.mpr enough), known]
  split_ifs with capped
  · exact ⟨cap, cap, rfl, rfl, nonneg, le_rfl⟩
  · rw [Extended.finite_lt, not_lt] at capped
    exact ⟨_, cap, rfl, rfl, quotient, capped⟩

end Time

section Invariant

theorem isFinite_decayed {value decay : Extended K} (number : value.IsFinite) (factor : decay.IsFinite) :
    (scores.decayed value decay).IsFinite := by
  unfold decayed
  dsimp only
  split_ifs
  · exact Extended.isFinite_zero
  · exact number.mul factor

theorem isFinite_failurePenalty {threshold : Extended K} (number : threshold.IsFinite) (counters : FiniteTopic topicStats) :
    (failurePenalty threshold topicStats).IsFinite :=
  counters.failure.add ((number.sub counters.mesh).mul (number.sub counters.mesh))

theorem finiteTopic_decayTopic (numeric : Numeric params) {topic : TopicHash} (now : Time)
    (counters : FiniteTopic topicStats) :
    FiniteTopic (scores.decayTopic now (params.topics.lookup topic) topicStats) := by
  unfold decayTopic
  cases known : params.topics.lookup topic with
  | none => exact counters
  | some topicParams =>
    have numbers := numeric.topics topic topicParams known
    exact ⟨isFinite_decayed counters.first numbers.firstDecay, isFinite_decayed counters.mesh numbers.meshDecay,
      isFinite_decayed counters.failure numbers.failureDecay, isFinite_decayed counters.invalid numbers.invalidDecay⟩

/-- What an operation may do to penalties and counters leaves numbers. -/
theorem stable_finite (numeric : Numeric params) : Stable params FiniteRecord fun _ => FiniteTopic where
  fresh := ⟨Extended.isFinite_zero, Extended.isFinite_zero, Extended.isFinite_zero⟩
  alike numbers alike :=
    ⟨alike.behaviour ▸ numbers.behaviour, alike.application ▸ numbers.application, alike.slow ▸ numbers.slow⟩
  penalized count numbers :=
    ⟨numbers.behaviour.add (Extended.isFinite_natCast count), numbers.application, numbers.slow⟩
  relaxed config numbers := ⟨isFinite_decayed numbers.behaviour (config ▸ numeric.behaviourDecay), numbers.application,
    isFinite_decayed numbers.slow (config ▸ numeric.slowDecay)⟩
  empty _ := ⟨Extended.isFinite_zero, Extended.isFinite_zero, Extended.isFinite_zero, Extended.isFinite_zero⟩
  grafted _ counters := ⟨counters.first, counters.mesh, counters.failure, counters.invalid⟩
  pruned counters := ⟨counters.first, counters.mesh, counters.failure, counters.invalid⟩
  failed known counters := ⟨counters.first, counters.mesh,
    isFinite_failurePenalty (numeric.topics _ _ known).threshold counters, counters.invalid⟩
  first known counters := ⟨isFinite_min (counters.first.add Extended.isFinite_one) (numeric.topics _ _ known).firstCap,
    counters.mesh, counters.failure, counters.invalid⟩
  counted known counters := ⟨counters.first,
    isFinite_min (counters.mesh.add Extended.isFinite_one) (numeric.topics _ _ known).meshCap, counters.failure,
    counters.invalid⟩
  invalid counters :=
    ⟨counters.first, counters.mesh, counters.failure, counters.invalid.add Extended.isFinite_one⟩
  forgotten counters := ⟨Extended.isFinite_zero, counters.mesh, counters.failure, counters.invalid⟩
  decayed now _ counters := finiteTopic_decayTopic numeric now counters

end Invariant

section Number

/-- The score of a topic is a number once its first term is. -/
theorem isFinite_topicScore (numbers : NumericTopic topicParams) (counters : FiniteTopic topicStats)
    (timed : ∀ active, topicStats.meshActive = some active → (timeInMesh topicParams active).IsFinite) :
    (topicScore topicParams topicStats).IsFinite := by
  have second := (isFinite_min counters.first numbers.firstCap).mul numbers.firstWeight
  have deficit := numbers.threshold.sub counters.mesh
  have start : ∀ score : Extended K, score.IsFinite → (score +
      Double.min topicStats.firstMessageDeliveries topicParams.firstMessageDeliveriesCap *
        topicParams.firstMessageDeliveriesWeight).IsFinite := fun _ number => number.add second
  have failure := counters.failure.mul numbers.failureWeight
  have invalid := (counters.invalid.mul counters.invalid).mul numbers.invalidWeight
  unfold topicScore
  cases inside : topicStats.meshActive with
  | none =>
    dsimp only
    split_ifs
    · exact (((start _ Extended.isFinite_zero).add ((deficit.mul deficit).mul numbers.meshWeight)).add failure).add invalid
    · exact ((start _ Extended.isFinite_zero).add failure).add invalid
  | some active =>
    have first := Extended.isFinite_zero.add ((timed active inside).mul numbers.timeWeight)
    dsimp only
    split_ifs
    · exact (((start _ first).add ((deficit.mul deficit).mul numbers.meshWeight)).add failure).add invalid
    · exact ((start _ first).add failure).add invalid

theorem isFinite_capped (numeric : Numeric params) {score : Extended K} (number : score.IsFinite) :
    (capped params score).IsFinite := by
  unfold capped
  split_ifs
  · exact numeric.cap
  · exact number

theorem isFinite_penalized (numeric : Numeric params) (numbers : FiniteRecord stats) {score : Extended K}
    (number : score.IsFinite) : (penalized params stats score).IsFinite := by
  have application := number.add (numbers.application.mul numeric.application)
  have behaviour := numbers.behaviour.sub numeric.behaviourThreshold
  have slow := (numbers.slow.sub numeric.slowThreshold).mul numeric.slowWeight
  have excess := (behaviour.mul behaviour).mul numeric.behaviourWeight
  unfold penalized
  dsimp only
  split_ifs
  · exact (application.add excess).add slow
  · exact application.add slow
  · exact application.add excess
  · exact application

/-- The score of a record is a number once the first terms of its topics are. -/
theorem isFinite_recordScore (numeric : Numeric params) (numbers : FiniteRecord stats)
    (counters : ∀ topic topicStats, stats.topics.lookup topic = some topicStats → FiniteTopic topicStats)
    (timed : ∀ topic topicStats topicParams active, stats.topics.lookup topic = some topicStats →
      params.topics.lookup topic = some topicParams → topicStats.meshActive = some active →
      (timeInMesh topicParams active).IsFinite) : (recordScore params stats).IsFinite := by
  refine isFinite_penalized numeric numbers (isFinite_capped numeric ?_)
  refine foldl_preserves Extended.IsFinite (fun score entry member number => ?_) Extended.isFinite_zero
  have listed : stats.topics.lookup entry.1 = some entry.2 := AList.mem_lookup_iff.mpr member
  unfold addTopic
  split
  · exact number
  · next topicParams known =>
    have numbers := numeric.topics _ _ known
    have topic := isFinite_topicScore numbers (counters _ _ listed) fun active inside =>
      timed _ _ _ active listed known inside
    exact number.add (topic.mul numbers.topicWeight)

end Number

end Score

variable {K : Type} [Field K] [LinearOrder K] [FloorSemiring K] [IsStrictOrderedRing K] {env : Env (Extended K)}
  {lastSeqNo : Seqno} {events : List Event} {state : State (Extended K)}

/-- In every run, the score of a peer is a number, with well defined terms, exactly when the quanta of the topics in whose
meshes it is are at least one second. -/
theorem measured_iff (numeric : Score.Numeric env.config.score) (run : Runs env lastSeqNo events state) (peerId : PeerId) :
    state.score.Measured peerId ↔ ∀ topicParams active, state.score.Meshed peerId topicParams active →
      1000 ≤ topicParams.timeInMeshQuantum := by
  obtain ⟨ops, scored⟩ := scoreRuns_of_runs run
  obtain ⟨config, throughout⟩ := Score.throughout_of_runs (Score.stable_finite numeric) scored
  have numbers : ∀ {topicParams active}, state.score.Meshed peerId topicParams active →
      Score.NumericTopic topicParams := by
    rintro topicParams active ⟨stats, topic, topicStats, -, -, -, known⟩
    rw [config] at known
    exact numeric.topics topic topicParams known
  constructor
  · intro measured topicParams active meshed
    exact (Score.timed_iff (numbers meshed)).mp (measured.timed topicParams active meshed)
  · intro long
    have timed : ∀ topicParams active, state.score.Meshed peerId topicParams active →
        Score.Timed topicParams active := fun topicParams active meshed =>
      (Score.timed_iff (numbers meshed)).mpr (long topicParams active meshed)
    have number : (state.score.score peerId).IsFinite := by
      rw [Score.score_eq]
      cases found : state.score.peerStats.lookup peerId with
      | none => exact Extended.isFinite_zero
      | some stats =>
        rw [Option.elim_some, config]
        refine Score.isFinite_recordScore numeric (throughout.whole _ _ found) (throughout.each _ _ found) ?_
        intro topic topicStats topicParams active here known inside
        obtain ⟨-, term, -, same, -⟩ :=
          timed topicParams active ⟨stats, topic, topicStats, found, here, inside, by rw [config, known]⟩
        exact ⟨term, same⟩
    obtain ⟨value, same⟩ := number
    refine ⟨timed, value, same, fun threshold => ?_⟩
    rw [Score.below, same]
    exact decide_eq_decide.mpr Extended.finite_lt

section Sample

def TopicScoreParams.map {R S : Type} (change : R → S) (params : TopicScoreParams R) : TopicScoreParams S where
  topicWeight := change params.topicWeight
  timeInMeshWeight := change params.timeInMeshWeight
  timeInMeshQuantum := params.timeInMeshQuantum
  timeInMeshCap := change params.timeInMeshCap
  firstMessageDeliveriesWeight := change params.firstMessageDeliveriesWeight
  firstMessageDeliveriesDecay := change params.firstMessageDeliveriesDecay
  firstMessageDeliveriesCap := change params.firstMessageDeliveriesCap
  meshMessageDeliveriesWeight := change params.meshMessageDeliveriesWeight
  meshMessageDeliveriesDecay := change params.meshMessageDeliveriesDecay
  meshMessageDeliveriesCap := change params.meshMessageDeliveriesCap
  meshMessageDeliveriesThreshold := change params.meshMessageDeliveriesThreshold
  meshMessageDeliveriesWindow := params.meshMessageDeliveriesWindow
  meshMessageDeliveriesActivation := params.meshMessageDeliveriesActivation
  meshFailurePenaltyWeight := change params.meshFailurePenaltyWeight
  meshFailurePenaltyDecay := change params.meshFailurePenaltyDecay
  invalidMessageDeliveriesWeight := change params.invalidMessageDeliveriesWeight
  invalidMessageDeliveriesDecay := change params.invalidMessageDeliveriesDecay

/-- The parameters of other topics than those given are left out. -/
def ScoreConfig.map {R S : Type} (change : R → S) (config : ScoreConfig R)
    (topics : UnorderedMap TopicHash (TopicScoreParams S)) : ScoreConfig S where
  zero := change config.zero
  gossipThreshold := change config.gossipThreshold
  publishThreshold := change config.publishThreshold
  graylistThreshold := change config.graylistThreshold
  opportunisticGraftThreshold := change config.opportunisticGraftThreshold
  topics
  topicScoreCap := change config.topicScoreCap
  appSpecificWeight := change config.appSpecificWeight
  behaviourPenaltyWeight := change config.behaviourPenaltyWeight
  behaviourPenaltyThreshold := change config.behaviourPenaltyThreshold
  behaviourPenaltyDecay := change config.behaviourPenaltyDecay
  decayToZero := change config.decayToZero
  retainScore := config.retainScore
  slowPeerWeight := change config.slowPeerWeight
  slowPeerThreshold := change config.slowPeerThreshold
  slowPeerDecay := change config.slowPeerDecay

/-- The default parameters of a topic, with a given quantum. -/
def quantumParams (quantum : Duration) : TopicScoreParams (Extended ℚ) :=
  { TopicScoreParams.default.map Extended.finite with timeInMeshQuantum := quantum }

/-- A node that scores one topic with the default parameters and a given quantum. -/
def quantumEnv (quantum : Duration) : Env (Extended ℚ) :=
  let env := sampleEnv true (10 ^ 6)
  { config :=
      { messageIdFn := env.config.messageIdFn
        protocolVersions := env.config.protocolVersions
        gossipFactor := .finite (1 / 4)
        score := env.config.score.map Extended.finite
          ((∅ : UnorderedMap TopicHash (TopicScoreParams (Extended ℚ))).insert [0x74] (quantumParams quantum)) }
    hostId := env.hostId
    sign := env.sign
    rsaBits := env.rsaBits
    verify := env.verify
    clock := env.clock
    monotone := env.monotone
    shufflePeers := env.shufflePeers
    shufflePeers_perm := env.shufflePeers_perm
    shuffleIds := env.shuffleIds
    shuffleIds_perm := env.shuffleIds_perm
    outOfBounds _ := 0 }

theorem lookup_quantumEnv {quantum : Duration} {topic : TopicHash} {topicParams : TopicScoreParams (Extended ℚ)}
    (found : (quantumEnv quantum).config.score.topics.lookup topic = some topicParams) :
    topicParams = quantumParams quantum := by
  change ((∅ : UnorderedMap TopicHash (TopicScoreParams (Extended ℚ))).insert [0x74] (quantumParams quantum)).lookup
    topic = _ at found
  rw [UnorderedMap.lookup_insert_eq] at found
  split_ifs at found
  · exact (Option.some.inj found).symm
  · cases found

theorem numeric_quantumEnv {quantum : Duration} (nonneg : 0 ≤ quantum) : Score.Numeric (quantumEnv quantum).config.score := by
  refine ⟨fun topic topicParams found => ?_, ⟨_, rfl⟩, ⟨_, rfl⟩, ⟨_, rfl⟩, ⟨_, rfl⟩, ⟨_, rfl⟩, ⟨_, rfl⟩, ⟨_, rfl⟩, ⟨_, rfl⟩⟩
  have cap : (0 : ℚ) ≤ 3600 := by norm_num
  rw [lookup_quantumEnv found]
  exact ⟨⟨_, rfl⟩, ⟨_, rfl⟩, nonneg, ⟨3600, rfl, cap⟩, ⟨_, rfl⟩, ⟨_, rfl⟩, ⟨_, rfl⟩, ⟨_, rfl⟩, ⟨_, rfl⟩, ⟨_, rfl⟩, ⟨_, rfl⟩,
    ⟨_, rfl⟩, ⟨_, rfl⟩, ⟨_, rfl⟩, ⟨_, rfl⟩⟩

/-- A peer that was just grafted, with a quantum of one second. -/
theorem measured_grafted : ∃ state active, Runs (quantumEnv 1000) 0 graftingEvents state ∧
    state.score.Meshed (samplePeerId 1) (quantumParams 1000) active ∧ state.score.Measured (samplePeerId 1) := by
  have followed : (graftingEvents.foldlM (State.step (quantumEnv 1000)) (State.initial (quantumEnv 1000) 0)).map
      (fun state => (state.score.peerStats.lookup (samplePeerId 1)).any fun stats =>
        (stats.topics.lookup [0x74]).any fun topicStats => topicStats.meshActive.isSome) = some true := by
    decide +kernel
  obtain ⟨state, ran, observed⟩ := Option.map_eq_some_iff.mp followed
  simp only [Option.any_eq_true, Option.isSome_iff_exists] at observed
  obtain ⟨stats, found, topicStats, here, active, inside⟩ := observed
  have run := Run.of_foldlM ran
  have numeric : Score.Numeric (quantumEnv 1000).config.score := numeric_quantumEnv (by decide)
  obtain ⟨ops, scored⟩ := scoreRuns_of_runs run
  have config := (Score.throughout_of_runs (Score.stable_finite numeric) scored).1
  have known : state.score.params.topics.lookup [0x74] = some (quantumParams 1000) := by rw [config]; rfl
  refine ⟨state, active, run, ⟨stats, _, topicStats, found, here, inside, known⟩, (measured_iff numeric run _).mpr ?_⟩
  rintro topicParams active ⟨-, topic, -, -, -, -, parameters⟩
  rw [config] at parameters
  rw [lookup_quantumEnv parameters]
  exact le_rfl

/-- With the default quantum of a millisecond, the score of a peer that was just grafted is not a number. -/
theorem score_nan_grafted : ∃ state active, Runs (quantumEnv 1) 0 graftingEvents state ∧
    state.score.Meshed (samplePeerId 1) (TopicScoreParams.default.map Extended.finite) active ∧
      (Score.asSecs (TopicScoreParams.default.map Extended.finite).timeInMeshQuantum : Extended ℚ) = 0 ∧
      state.score.score (samplePeerId 1) = .nan ∧ (∀ threshold, state.score.below (samplePeerId 1) threshold = false) ∧
      ¬ state.score.Measured (samplePeerId 1) := by
  have followed : (graftingEvents.foldlM (State.step (quantumEnv 1)) (State.initial (quantumEnv 1) 0)).map
      (fun state => decide (state.score.score (samplePeerId 1) = .nan) &&
        (state.score.peerStats.lookup (samplePeerId 1)).any fun stats =>
          (stats.topics.lookup [0x74]).any fun topicStats => topicStats.meshActive.isSome) = some true := by
    decide +kernel
  obtain ⟨state, ran, observed⟩ := Option.map_eq_some_iff.mp followed
  simp only [Bool.and_eq_true, decide_eq_true_eq, Option.any_eq_true, Option.isSome_iff_exists] at observed
  obtain ⟨nan, stats, found, topicStats, here, active, inside⟩ := observed
  have run := Run.of_foldlM ran
  obtain ⟨ops, scored⟩ := scoreRuns_of_runs run
  have config := (Score.throughout_of_runs (Score.stable_finite (numeric_quantumEnv (by decide))) scored).1
  have known : state.score.params.topics.lookup [0x74] = some (TopicScoreParams.default.map Extended.finite) := by
    rw [config]
    rfl
  refine ⟨state, active, run, ⟨stats, _, topicStats, found, here, inside, known⟩, rfl, nan, fun threshold => ?_, ?_⟩
  · rw [Score.below, nan]
    cases threshold <;> rfl
  · rintro ⟨-, value, same, -⟩
    cases nan.symm.trans same

end Sample

end Libp2p.Gossip
