import Libp2p.Library.Totals
import Libp2p.Protocol.Gossip.Defaults
import Libp2p.Protocol.Gossip.ScoreRuns
import Mathlib.Algebra.Order.Floor.Defs
import Mathlib.Tactic.Linarith

/-! # Leaving and coming back

A peer that leaves a mesh, or disconnects and connects again, loses what its score had to its credit and keeps what it
had against it. Scores are compared topic by topic, without rounding.
-/

namespace Libp2p.Gossip

open Library

/-- Numbers without rounding in the place of `double`. -/
def Exact (K : Type) : Type := K

section Exact

variable {K : Type} [Field K] [LinearOrder K]

instance : Field (Exact K) := inferInstanceAs (Field K)

instance : LinearOrder (Exact K) := inferInstanceAs (LinearOrder K)

instance [IsStrictOrderedRing K] : IsStrictOrderedRing (Exact K) := inferInstanceAs (IsStrictOrderedRing K)

instance [FloorSemiring K] : Double (Exact K) where
  toAdd := inferInstanceAs (Add (Exact K))
  toSub := inferInstanceAs (Sub (Exact K))
  toMul := inferInstanceAs (Mul (Exact K))
  toDiv := inferInstanceAs (Div (Exact K))
  toZero := inferInstanceAs (Zero (Exact K))
  toOne := inferInstanceAs (One (Exact K))
  toNatCast := inferInstanceAs (NatCast (Exact K))
  toLT := inferInstanceAs (LT (Exact K))
  decidableLt := inferInstanceAs (DecidableLT (Exact K))
  truncate := fun value : K => ⌊value⌋₊

end Exact

namespace Score

section Operations

variable {R : Type} [Double R]

def addTopic (params : ScoreConfig R) (score : R) (entry : Σ _ : TopicHash, TopicStats R) : R :=
  match params.topics.lookup entry.1 with
  | none => score
  | some topicParams => score + topicScore topicParams entry.2 * topicParams.topicWeight

def capped (params : ScoreConfig R) (score : R) : R :=
  if 0 < params.topicScoreCap ∧ params.topicScoreCap < score then params.topicScoreCap else score

/-- The score of a record whose topics add up to a given one. -/
def penalized (params : ScoreConfig R) (stats : PeerStats R) (score : R) : R :=
  let score := score + stats.applicationScore * params.appSpecificWeight
  let score :=
    if params.behaviourPenaltyThreshold < stats.behaviourPenalty then
      let excess := stats.behaviourPenalty - params.behaviourPenaltyThreshold
      score + excess * excess * params.behaviourPenaltyWeight
    else score
  if params.slowPeerThreshold < stats.slowPeerPenalty then
    let excess := stats.slowPeerPenalty - params.slowPeerThreshold
    score + excess * params.slowPeerWeight
  else score

/-- The score of a record. -/
def recordScore (params : ScoreConfig R) (stats : PeerStats R) : R :=
  penalized params stats (capped params (stats.topics.entries.foldl (addTopic params) 0))

theorem score_eq (scores : Score R) (peerId : PeerId) :
    scores.score peerId = (scores.peerStats.lookup peerId).elim 0 (recordScore scores.params) := by
  unfold score
  cases scores.peerStats.lookup peerId <;> rfl

/-- What the statistics of a topic add to a score. -/
def topicTerm (params : ScoreConfig R) (topic : TopicHash) (stats : TopicStats R) : R :=
  (params.topics.lookup topic).elim 0 fun topicParams => topicScore topicParams stats * topicParams.topicWeight

end Operations

section Monotone

variable {K : Type} [Field K] [LinearOrder K] [FloorSemiring K] {params : ScoreConfig (Exact K)}

theorem min_eq (left right : Exact K) : Double.min left right = min left right := by
  unfold Double.min
  split_ifs with less
  · exact (min_eq_right less.le).symm
  · exact (min_eq_left (not_lt.mp less)).symm

theorem foldl_topics (entries : List (Σ _ : TopicHash, TopicStats (Exact K))) (start : Exact K) :
    entries.foldl (addTopic params) start = start + (entries.map fun entry => topicTerm params entry.1 entry.2).sum := by
  induction entries generalizing start with
  | nil => exact (add_zero start).symm
  | cons entry rest ih =>
    rw [List.foldl_cons, ih, List.map_cons, List.sum_cons, ← add_assoc]
    congr 1
    unfold addTopic topicTerm
    cases params.topics.lookup entry.1 with
    | none => exact (add_zero start).symm
    | some topicParams => rfl

theorem capped_le {small large : Exact K} (le : small ≤ large) : capped params small ≤ capped params large := by
  unfold capped
  split_ifs with first second second
  · exact le_rfl
  · exact absurd ⟨first.1, first.2.trans_le le⟩ second
  · exact not_lt.mp fun less => first ⟨second.1, less⟩
  · exact le

variable [IsStrictOrderedRing K] {before after : PeerStats (Exact K)}

theorem penalized_le {small large : Exact K} (le : small ≤ large)
    (application : after.applicationScore = before.applicationScore)
    (behaviour : after.behaviourPenalty = before.behaviourPenalty)
    (slow : after.slowPeerPenalty = before.slowPeerPenalty) :
    penalized params after small ≤ penalized params before large := by
  unfold penalized
  rw [application, behaviour, slow]
  dsimp only
  split_ifs <;> simpa using le

/-- A record whose topics add less has a score that is not higher. -/
theorem recordScore_le (application : after.applicationScore = before.applicationScore)
    (behaviour : after.behaviourPenalty = before.behaviourPenalty) (slow : after.slowPeerPenalty = before.slowPeerPenalty)
    (topics : UnorderedMap.total (topicTerm params) after.topics ≤ UnorderedMap.total (topicTerm params) before.topics) :
    recordScore params after ≤ recordScore params before := by
  unfold recordScore
  rw [foldl_topics, foldl_topics, zero_add, zero_add]
  exact penalized_le (capped_le topics) application behaviour slow

end Monotone

section Topics

variable {K : Type} [Field K] [LinearOrder K] [FloorSemiring K] {params : TopicScoreParams (Exact K)}
  {stats : TopicStats (Exact K)}

/-- Parameters that reward being in a mesh and being first, measure time forwards, and punish a deficit at least as much
after it was noticed as before. -/
structure Fair (params : TopicScoreParams (Exact K)) : Prop where
  topic : 0 ≤ params.topicWeight
  time : 0 ≤ params.timeInMeshWeight
  timeCap : 0 ≤ params.timeInMeshCap
  quantum : 0 ≤ wholeSeconds params.timeInMeshQuantum
  first : 0 ≤ params.firstMessageDeliveriesWeight
  firstCap : 0 ≤ params.firstMessageDeliveriesCap
  failure : params.meshFailurePenaltyWeight ≤ params.meshMessageDeliveriesWeight
  deficit : params.meshMessageDeliveriesWeight ≤ 0

/-- Deliveries are only expected of a peer in the mesh, and the count of first deliveries is not negative. -/
structure Sound (stats : TopicStats (Exact K)) : Prop where
  active : stats.meshMessageDeliveriesActive → stats.meshActive.isSome
  first : 0 ≤ stats.firstMessageDeliveries

def timeTerm (params : TopicScoreParams (Exact K)) (stats : TopicStats (Exact K)) : Exact K :=
  stats.meshActive.elim 0 fun active => Double.min (asSecs active.meshTime / asSecs params.timeInMeshQuantum)
    params.timeInMeshCap * params.timeInMeshWeight

def deficitTerm (params : TopicScoreParams (Exact K)) (stats : TopicStats (Exact K)) : Exact K :=
  if stats.meshMessageDeliveriesActive ∧ stats.meshMessageDeliveries < params.meshMessageDeliveriesThreshold then
    (params.meshMessageDeliveriesThreshold - stats.meshMessageDeliveries) *
      (params.meshMessageDeliveriesThreshold - stats.meshMessageDeliveries) * params.meshMessageDeliveriesWeight
  else 0

theorem topicScore_eq : topicScore params stats = timeTerm params stats +
    Double.min stats.firstMessageDeliveries params.firstMessageDeliveriesCap * params.firstMessageDeliveriesWeight +
    deficitTerm params stats + stats.meshFailurePenalty * params.meshFailurePenaltyWeight +
    stats.invalidMessageDeliveries * stats.invalidMessageDeliveries * params.invalidMessageDeliveriesWeight := by
  unfold topicScore timeTerm deficitTerm
  dsimp only
  split_ifs <;> cases stats.meshActive <;> simp

/-- Statistics that are created on demand add nothing. -/
theorem topicScore_default (fair : Fair params) : topicScore params ({} : TopicStats (Exact K)) = 0 := by
  rw [topicScore_eq, min_eq, min_eq_left fair.firstCap]
  simp [timeTerm, deficitTerm]

variable [IsStrictOrderedRing K]

theorem timeTerm_nonneg (fair : Fair params) : 0 ≤ timeTerm params stats := by
  unfold timeTerm
  cases stats.meshActive with
  | none => exact le_rfl
  | some active =>
    have seconds {duration : Duration} (nonneg : 0 ≤ wholeSeconds duration) : 0 ≤ (asSecs duration : Exact K) := by
      have cast : (0 : Exact K) ≤ ((wholeSeconds duration).toNat : Exact K) := Nat.cast_nonneg _
      rwa [asSecs_of_nonneg nonneg]
    have meshed : 0 ≤ wholeSeconds (active.meshTime : Duration) := Int.tdiv_nonneg (Int.natCast_nonneg _) (by decide)
    have quotient := div_nonneg (seconds meshed) (seconds fair.quantum)
    simp only [Option.elim_some, min_eq]
    exact mul_nonneg (le_min quotient fair.timeCap) fair.time

/-- The penalty for a deficit, once it was noticed, is at least what it cost before. -/
theorem failurePenalty_le (fair : Fair params) :
    failurePenalty params.meshMessageDeliveriesThreshold stats * params.meshFailurePenaltyWeight ≤
      (params.meshMessageDeliveriesThreshold - stats.meshMessageDeliveries) *
        (params.meshMessageDeliveriesThreshold - stats.meshMessageDeliveries) * params.meshMessageDeliveriesWeight +
        stats.meshFailurePenalty * params.meshFailurePenaltyWeight := by
  have heavier := mul_le_mul_of_nonneg_left fair.failure
    (mul_self_nonneg (params.meshMessageDeliveriesThreshold - stats.meshMessageDeliveries))
  have expanded : failurePenalty params.meshMessageDeliveriesThreshold stats * params.meshFailurePenaltyWeight =
      stats.meshFailurePenalty * params.meshFailurePenaltyWeight +
        (params.meshMessageDeliveriesThreshold - stats.meshMessageDeliveries) *
          (params.meshMessageDeliveriesThreshold - stats.meshMessageDeliveries) * params.meshFailurePenaltyWeight :=
    add_mul _ _ _
  linarith

/-- What `prune` does to the statistics of one topic. -/
def pruneTopic (params : Option (TopicScoreParams (Exact K))) (stats : TopicStats (Exact K)) : TopicStats (Exact K) :=
  let stats := match params with
    | none => stats
    | some params =>
      let threshold := params.meshMessageDeliveriesThreshold
      if stats.meshMessageDeliveriesActive ∧ stats.meshMessageDeliveries < threshold then
        { stats with meshFailurePenalty := failurePenalty threshold stats }
      else stats
  { stats with meshMessageDeliveriesActive := false, meshActive := none }

theorem topicScore_pruneTopic (fair : Fair params) :
    topicScore params (pruneTopic (some params) stats) ≤ topicScore params stats := by
  have time : 0 ≤ timeTerm params stats := timeTerm_nonneg fair
  rw [topicScore_eq, topicScore_eq]
  by_cases deficit : stats.meshMessageDeliveriesActive ∧
      stats.meshMessageDeliveries < params.meshMessageDeliveriesThreshold
  · have noticed := @failurePenalty_le _ _ _ _ params stats _ fair
    have pruned : pruneTopic (some params) stats =
        { stats with
          meshFailurePenalty := failurePenalty params.meshMessageDeliveriesThreshold stats
          meshMessageDeliveriesActive := false
          meshActive := none } := by
      unfold pruneTopic
      simp [deficit]
    rw [pruned]
    unfold deficitTerm
    rw [if_pos deficit, if_neg (by simp)]
    unfold timeTerm at time ⊢
    dsimp only [Option.elim_none]
    linarith
  · have pruned : pruneTopic (some params) stats =
        { stats with meshMessageDeliveriesActive := false, meshActive := none } := by
      unfold pruneTopic
      simp only [if_neg deficit]
    rw [pruned]
    unfold deficitTerm
    rw [if_neg deficit, if_neg (by simp)]
    unfold timeTerm at time ⊢
    dsimp only [Option.elim_none]
    linarith

theorem topicScore_leaveTopic (fair : Fair params) (sound : Sound stats) :
    topicScore params (leaveTopic (some params) stats) ≤ topicScore params stats := by
  have left : leaveTopic (some params) stats =
      { pruneTopic (some params) stats with firstMessageDeliveries := 0 } := by
    unfold leaveTopic pruneTopic
    by_cases deficit : stats.meshMessageDeliveriesActive ∧
        stats.meshMessageDeliveries < params.meshMessageDeliveriesThreshold
    · have inside := sound.active deficit.1
      simp only [if_pos deficit, if_pos (And.intro inside deficit)]
    · simp only [if_neg deficit, if_neg (mt And.right deficit)]
  have first : Double.min (0 : Exact K) params.firstMessageDeliveriesCap * params.firstMessageDeliveriesWeight ≤
      Double.min stats.firstMessageDeliveries params.firstMessageDeliveriesCap * params.firstMessageDeliveriesWeight := by
    rw [min_eq, min_eq]
    exact mul_le_mul_of_nonneg_right (min_le_min sound.first le_rfl) fair.first
  have kept : (pruneTopic (some params) stats).firstMessageDeliveries = stats.firstMessageDeliveries := by
    unfold pruneTopic
    dsimp only
    split_ifs <;> rfl
  refine le_trans ?_ (topicScore_pruneTopic fair)
  rw [topicScore_eq, topicScore_eq, left, kept]
  unfold timeTerm deficitTerm
  dsimp only
  linarith

end Topics

section Records

variable {K : Type} [Field K] [LinearOrder K] [FloorSemiring K]
  {params : ScoreConfig (Exact K)} {scores middle after : Score (Exact K)} {peerId other : PeerId} {topic : TopicHash}
  {change : TopicStats (Exact K) → TopicStats (Exact K)} {stats : PeerStats (Exact K)}

/-- The parameters of every topic are fair. -/
def AllFair (params : ScoreConfig (Exact K)) : Prop :=
  ∀ topic topicParams, params.topics.lookup topic = some topicParams → Fair topicParams

theorem topicTerm_default (fair : AllFair params) : topicTerm params topic {} = 0 := by
  unfold topicTerm
  cases known : params.topics.lookup topic with
  | none => rfl
  | some topicParams => rw [Option.elim_some, topicScore_default (fair topic _ known), zero_mul]

/-- What an operation on other peers may do to a record: create statistics that add nothing. -/
structure Quiet (peerId : PeerId) (before after : Score (Exact K)) : Prop where
  params : after.params = before.params
  record : Option.Rel (fun new old : PeerStats (Exact K) => new.expiresAt = old.expiresAt ∧
    recordScore before.params new ≤ recordScore before.params old)
    (after.peerStats.lookup peerId) (before.peerStats.lookup peerId)

theorem Quiet.of_eq (params : after.params = scores.params)
    (record : after.peerStats.lookup peerId = scores.peerStats.lookup peerId) : Quiet peerId scores after := by
  refine ⟨params, ?_⟩
  rw [record]
  cases scores.peerStats.lookup peerId with
  | none => exact .none
  | some stats => exact .some ⟨rfl, le_rfl⟩

theorem Quiet.trans (first : Quiet peerId scores middle) (second : Quiet peerId middle after) :
    Quiet peerId scores after := by
  refine ⟨second.params.trans first.params, ?_⟩
  have later := second.record
  rw [first.params] at later
  have early := first.record
  generalize middle.peerStats.lookup peerId = between at early later
  generalize after.peerStats.lookup peerId = last at later ⊢
  generalize scores.peerStats.lookup peerId = start at early ⊢
  cases later with
  | none =>
    cases early
    exact .none
  | some late =>
    cases early with
    | some soon => exact .some ⟨late.1.trans soon.1, late.2.trans soon.2⟩

theorem quiet_modifyPeer {change : PeerStats (Exact K) → PeerStats (Exact K)} (different : other ≠ peerId) :
    Quiet peerId scores (scores.modifyPeer other change) :=
  .of_eq rfl (by rw [lookup_modifyPeer, if_neg different.symm])

theorem Quiet.score (quiet : Quiet peerId scores after) : after.score peerId ≤ scores.score peerId := by
  have record := quiet.record
  rw [score_eq, score_eq, quiet.params]
  generalize after.peerStats.lookup peerId = last at record ⊢
  generalize scores.peerStats.lookup peerId = start at record ⊢
  cases record with
  | none => exact le_rfl
  | some lower => exact lower.2

variable [IsStrictOrderedRing K]

theorem topicTerm_le (fair : AllFair params) {small large : TopicStats (Exact K)}
    (le : ∀ topicParams, params.topics.lookup topic = some topicParams →
      topicScore topicParams small ≤ topicScore topicParams large) :
    topicTerm params topic small ≤ topicTerm params topic large := by
  unfold topicTerm
  cases known : params.topics.lookup topic with
  | none => exact le_rfl
  | some topicParams => exact mul_le_mul_of_nonneg_right (le topicParams known) (fair topic _ known).topic

/-- A change that does not raise what a topic adds does not raise the score of a record, even where the statistics are
created for it. -/
theorem recordScore_insert (fair : AllFair params) {topicStats : TopicStats (Exact K)}
    (known : stats.topics.lookup topic = some topicStats ∨
      stats.topics.lookup topic = none ∧ topicStats = {})
    (lower : topicTerm params topic (change topicStats) ≤ topicTerm params topic topicStats) :
    recordScore params { stats with topics := stats.topics.insert topic (change topicStats) } ≤ recordScore params stats := by
  refine recordScore_le rfl rfl rfl (UnorderedMap.total_le fun key => ?_)
  unfold UnorderedMap.termAt
  dsimp only
  rw [UnorderedMap.lookup_insert_eq]
  split_ifs with same
  · subst same
    rcases known with found | ⟨absent, rfl⟩
    · rw [found]
      exact lower
    · rw [absent]
      exact lower.trans_eq (topicTerm_default fair)
  · exact le_rfl

/-- Statistics that are created, and changed so that they add no more, are no more than nothing. -/
theorem quiet_modifyTopic (fair : AllFair scores.params)
    (lower : ∀ topicStats, topicTerm scores.params topic (change topicStats) ≤ topicTerm scores.params topic topicStats) :
    Quiet peerId scores (scores.modifyTopic peerId topic change) := by
  refine ⟨rfl, ?_⟩
  unfold modifyTopic
  rw [lookup_modifyPeer, if_pos rfl]
  cases scores.peerStats.lookup peerId with
  | none => exact .none
  | some stats =>
    refine .some ?_
    dsimp only
    unfold statsOrDefault
    cases found : stats.topics.lookup topic with
    | some topicStats => exact ⟨rfl, recordScore_insert fair (.inl found) (lower topicStats)⟩
    | none =>
      dsimp only
      split_ifs
      · exact ⟨rfl, recordScore_insert fair (.inr ⟨found, rfl⟩) (lower {})⟩
      · exact ⟨rfl, le_rfl⟩

/-- Leaving a mesh does not raise a score. -/
theorem prune_score (fair : AllFair scores.params) : (scores.prune peerId topic).score peerId ≤ scores.score peerId := by
  have quiet : Quiet peerId scores
      (scores.modifyTopic peerId topic (pruneTopic (scores.params.topics.lookup topic))) := by
    refine quiet_modifyTopic fair fun topicStats => topicTerm_le fair fun topicParams known => ?_
    rw [known]
    exact topicScore_pruneTopic (fair topic _ known)
  exact quiet.score

end Records

section Invariant

variable {K : Type} [Field K] [LinearOrder K] [FloorSemiring K] {params : ScoreConfig (Exact K)}
  {scores : Score (Exact K)} {peerId : PeerId} {topic : TopicHash} {messageId : MessageId} {now later : Time}
  {change : TopicStats (Exact K) → TopicStats (Exact K)}

/-- The statistics of every topic are sound. -/
structure Kept (params : ScoreConfig (Exact K)) (scores : Score (Exact K)) : Prop where
  params : scores.params = params
  sound : ∀ peerId stats, scores.peerStats.lookup peerId = some stats →
    ∀ topic topicStats, stats.topics.lookup topic = some topicStats → Sound topicStats

/-- Decaying does not make the count of first deliveries negative. -/
def Steady (params : ScoreConfig (Exact K)) : Prop :=
  0 ≤ params.decayToZero ∨ ∀ topic topicParams, params.topics.lookup topic = some topicParams →
    0 ≤ topicParams.firstMessageDeliveriesDecay

theorem sound_default : Sound ({} : TopicStats (Exact K)) := ⟨fun impossible => (by cases impossible), le_rfl⟩

variable [IsStrictOrderedRing K]

theorem sound_decayTopic (steady : Steady scores.params) {topicStats : TopicStats (Exact K)} (sound : Sound topicStats) :
    Sound (scores.decayTopic now (scores.params.topics.lookup topic) topicStats) := by
  unfold decayTopic
  cases known : scores.params.topics.lookup topic with
  | none => exact sound
  | some topicParams =>
    dsimp only
    refine ⟨fun active => ?_, ?_⟩
    · cases inside : topicStats.meshActive with
      | some mesh => rfl
      | none =>
        rw [inside] at active
        have early : topicStats.meshMessageDeliveriesActive = true := by simpa using active
        have present := sound.active early
        rw [inside] at present
        cases present
    · unfold decayed
      dsimp only
      split_ifs with small
      · exact le_rfl
      · rcases steady with threshold | decays
        · exact threshold.trans (not_lt.mp small)
        · exact mul_nonneg sound.first (decays topic topicParams known)

/-- What an operation may do to the statistics of a topic keeps them sound. -/
theorem stable_sound (fair : AllFair params) (steady : Steady params) :
    Stable params (fun _ => True) fun _ => Sound where
  fresh := trivial
  alike _ _ := trivial
  penalized _ _ := trivial
  relaxed _ _ := trivial
  empty _ := sound_default
  grafted now sound := ⟨fun impossible => (by cases impossible), sound.first⟩
  pruned sound := ⟨fun impossible => (by cases impossible), sound.first⟩
  failed _ sound := ⟨sound.active, sound.first⟩
  first known sound := by
    have more := add_nonneg sound.first (zero_le_one' (Exact K))
    refine ⟨sound.active, ?_⟩
    dsimp only
    rw [min_eq]
    exact le_min more (fair _ _ known).firstCap
  counted _ sound := ⟨sound.active, sound.first⟩
  invalid sound := ⟨sound.active, sound.first⟩
  forgotten sound := ⟨sound.active, le_rfl⟩
  decayed now config sound := config ▸ sound_decayTopic (config ▸ steady) sound

theorem kept_of_runs (fair : AllFair params) (steady : Steady params) {ops : List ScoreOp}
    (run : ScoreRuns params ops scores) : Kept params scores := by
  obtain ⟨config, throughout⟩ := throughout_of_runs (stable_sound fair steady) run
  exact ⟨config, throughout.each⟩

end Invariant

section Return

variable {K : Type} [Field K] [LinearOrder K] [FloorSemiring K] {params : ScoreConfig (Exact K)}
  {scores after : Score (Exact K)} {peerId : PeerId} {topic : TopicHash} {now : Time}

/-- A step between the departure of a peer and its return: it is not about the peer, and its record is not purged. -/
def Between (peerId : PeerId) (before : Score (Exact K)) (op : ScoreOp) (after : Score (Exact K)) : Prop :=
  after = before.apply op ∧ op.subject ≠ some peerId ∧ ∀ now, op = .onDecay now → ∀ stats expiresAt,
    before.peerStats.lookup peerId = some stats → stats.expiresAt = some expiresAt → ¬ expiresAt < (now : Int)

/-- The record of a peer, if there is one, waits for its expiration. -/
def Waiting (peerId : PeerId) (scores : Score (Exact K)) : Prop :=
  ∀ stats, scores.peerStats.lookup peerId = some stats → stats.expiresAt.isSome

/-- The score that a peer has when it connects. -/
def returning (scores : Score (Exact K)) (peerId : PeerId) : Exact K :=
  (scores.peerStats.lookup peerId).elim (recordScore scores.params {}) (recordScore scores.params)

theorem score_connect : (scores.connect peerId).score peerId = scores.returning peerId := by
  rw [score_eq, connect, UnorderedMap.lookup_insert_eq, if_pos rfl, returning]
  cases scores.peerStats.lookup peerId <;> rfl

theorem Quiet.waiting (quiet : Quiet peerId scores after) (waiting : Waiting peerId scores) : Waiting peerId after := by
  intro stats found
  have record := quiet.record
  rw [found] at record
  unfold Waiting at waiting
  generalize scores.peerStats.lookup peerId = start at record waiting
  cases record with
  | some lower =>
    rw [lower.1]
    exact waiting _ rfl

theorem Quiet.returning (quiet : Quiet peerId scores after) : after.returning peerId ≤ scores.returning peerId := by
  have record := quiet.record
  unfold Score.returning
  rw [quiet.params]
  generalize after.peerStats.lookup peerId = last at record ⊢
  generalize scores.peerStats.lookup peerId = start at record ⊢
  cases record with
  | none => exact le_rfl
  | some lower => exact lower.2

/-- Decaying leaves a record alone that waits for its expiration and has not reached it. -/
theorem lookup_onDecay (waiting : Waiting peerId scores)
    (early : ∀ stats expiresAt, scores.peerStats.lookup peerId = some stats → stats.expiresAt = some expiresAt →
      ¬ expiresAt < (now : Int)) :
    (scores.onDecay now).params = scores.params ∧
      (scores.onDecay now).peerStats.lookup peerId = scores.peerStats.lookup peerId := by
  have turn (scores : Score (Exact K)) (peer : PeerId) (waiting : Waiting peerId scores)
      (early : ∀ stats expiresAt, scores.peerStats.lookup peerId = some stats → stats.expiresAt = some expiresAt →
        ¬ expiresAt < (now : Int)) : (scores.decayPeer now peer).params = scores.params ∧
      (scores.decayPeer now peer).peerStats.lookup peerId = scores.peerStats.lookup peerId := by
    unfold decayPeer
    cases found : scores.peerStats.lookup peer with
    | none => exact ⟨rfl, rfl⟩
    | some stats =>
      dsimp only
      by_cases same : peer = peerId
      · subst same
        obtain ⟨expiresAt, expires⟩ := Option.isSome_iff_exists.mp (waiting stats found)
        rw [expires]
        dsimp only
        rw [if_neg (early stats expiresAt found expires)]
        exact ⟨rfl, rfl⟩
      · split
        · split_ifs
          · exact ⟨rfl, by rw [UnorderedMap.lookup_erase_eq, if_neg (Ne.symm same)]⟩
          · exact ⟨rfl, rfl⟩
        · exact ⟨rfl, by rw [UnorderedMap.lookup_insert_eq, if_neg (Ne.symm same)]⟩
  unfold onDecay
  generalize scores.peerStats.keys = keys
  induction keys generalizing scores with
  | nil => exact ⟨rfl, rfl⟩
  | cons peer rest ih =>
    obtain ⟨config, record⟩ := turn scores peer waiting early
    have later := @ih (scores.decayPeer now peer) (by unfold Waiting; rwa [record]) (by rwa [record])
    exact ⟨later.1.trans config, later.2.trans record⟩

variable [IsStrictOrderedRing K]

theorem quiet_markDuplicate {peer : PeerId} (fair : AllFair scores.params) :
    Quiet peerId scores (scores.markDuplicateMessageDelivery peer topic none now) := by
  by_cases same : peer = peerId
  · subst same
    refine quiet_modifyTopic fair fun topicStats => ?_
    dsimp only
    split_ifs <;> exact le_rfl
  · exact quiet_modifyPeer same

/-- An operation between departure and return does not raise what the peer comes back to. -/
theorem quiet_apply (fair : AllFair scores.params) (waiting : Waiting peerId scores) {op : ScoreOp}
    (step : Between peerId scores op after) : Quiet peerId scores after := by
  obtain ⟨rfl, others, early⟩ := step
  have different {other : PeerId} (subject : some other ≠ some peerId) : other ≠ peerId :=
    fun same => subject (congrArg some same)
  cases op with
  | addPenalty other count => exact quiet_modifyPeer (different others)
  | graft other topic now => exact quiet_modifyPeer (different others)
  | prune other topic => exact quiet_modifyPeer (different others)
  | duplicateMessage other messageId topic now later =>
    have unrecorded : Quiet peerId scores (scores.record messageId now).1 := .of_eq rfl rfl
    unfold Score.apply duplicateMessage
    dsimp only
    split_ifs
    · exact unrecorded
    · split
      · exact .of_eq rfl rfl
      · have seen : Quiet peerId scores ((scores.record messageId now).1.modifyRecord messageId
            fun record => { record with peers := record.peers.insert other }) := .of_eq rfl rfl
        exact seen.trans (quiet_modifyPeer (different others))
      · exact unrecorded.trans (quiet_modifyPeer (different others))
      · exact .of_eq rfl rfl
  | validateMessage messageId now => exact .of_eq rfl rfl
  | deliverMessage from_ messageId topic now later =>
    have marked : ∀ (peers : List PeerId) (scores : Score (Exact K)), AllFair scores.params →
        Quiet peerId scores (peers.foldl (fun scores peer =>
          if peer ≠ from_ then scores.markDuplicateMessageDelivery peer topic none later else scores) scores) := by
      intro peers
      induction peers with
      | nil => exact fun _ _ => .of_eq rfl rfl
      | cons peer rest ih =>
        intro scores fair
        rw [List.foldl_cons]
        split_ifs
        · have first : Quiet peerId scores (scores.markDuplicateMessageDelivery peer topic none later) :=
            quiet_markDuplicate fair
          exact first.trans (ih _ (by rwa [first.params]))
        · exact ih _ fair
    have first : Quiet peerId scores (scores.markFirstMessageDelivery from_ topic) := quiet_modifyPeer (different others)
    unfold Score.apply deliverMessage
    dsimp only
    split_ifs
    · exact first.trans (.of_eq rfl rfl)
    · have recorded : Quiet peerId (scores.markFirstMessageDelivery from_ topic)
          (((scores.markFirstMessageDelivery from_ topic).record messageId now).1.modifyRecord messageId
            fun record => { record with status := .valid later }) := .of_eq rfl rfl
      exact (first.trans recorded).trans (marked _ _ ((first.trans recorded).params ▸ fair))
  | connect other =>
    refine .of_eq rfl ?_
    change (scores.peerStats.insert other _).lookup peerId = _
    rw [UnorderedMap.lookup_insert_eq, if_neg (different others).symm]
  | disconnect other now =>
    unfold Score.apply disconnect
    dsimp only
    split
    · exact .of_eq rfl rfl
    · split_ifs
      · exact .of_eq rfl (by rw [UnorderedMap.lookup_erase_eq, if_neg (different others).symm])
      · exact .of_eq rfl (by rw [UnorderedMap.lookup_insert_eq, if_neg (different others).symm])
  | onDecay now =>
    obtain ⟨config, record⟩ := lookup_onDecay waiting (early now rfl)
    exact .of_eq config record

/-- What a peer comes back to right after it has left. -/
theorem disconnect_returning (fair : AllFair params) (fresh : recordScore params {} ≤ 0) (kept : Kept params scores) :
    (scores.disconnect peerId now).params = params ∧ Waiting peerId (scores.disconnect peerId now) ∧
      (scores.disconnect peerId now).returning peerId ≤ scores.score peerId := by
  have known := kept.params
  unfold disconnect
  cases found : scores.peerStats.lookup peerId with
  | none =>
    refine ⟨known, fun stats impossible => ?_, ?_⟩
    · dsimp only at impossible
      rw [found] at impossible
      cases impossible
    · rw [score_eq]
      unfold returning
      rw [found, known]
      exact fresh
  | some stats =>
    dsimp only
    split_ifs with positive
    · refine ⟨known, fun stats impossible => ?_, ?_⟩
      · rw [UnorderedMap.lookup_erase_eq, if_pos rfl] at impossible
        cases impossible
      · unfold returning
        rw [UnorderedMap.lookup_erase_eq, if_pos rfl, known]
        exact fresh.trans positive.le
    · refine ⟨known, fun other present => ?_, ?_⟩
      · rw [UnorderedMap.lookup_insert_eq, if_pos rfl] at present
        obtain rfl := Option.some.inj present
        rfl
      · rw [score_eq, found]
        unfold returning
        rw [UnorderedMap.lookup_insert_eq, if_pos rfl]
        refine recordScore_le rfl rfl rfl (UnorderedMap.total_le fun key => ?_)
        unfold UnorderedMap.termAt
        dsimp only
        rw [lookup_mapTopics]
        cases present : stats.topics.lookup key with
        | none => exact le_rfl
        | some topicStats =>
          refine topicTerm_le (known ▸ fair) fun topicParams parameters => ?_
          rw [parameters]
          exact topicScore_leaveTopic (fair key topicParams (known ▸ parameters)) (kept.sound _ _ found _ _ present)

/-- Neither leaving a mesh nor disconnecting and coming back before the record is purged makes a score larger. -/
theorem not_laundered (fair : AllFair params) (steady : Steady params) (fresh : recordScore params {} ≤ 0)
    {ops : List ScoreOp} (run : ScoreRuns params ops scores) (peerId : PeerId) :
    (∀ topic, (scores.prune peerId topic).score peerId ≤ scores.score peerId) ∧
    ∀ now between after, Run (Between peerId) (scores.disconnect peerId now) between after →
      (after.connect peerId).score peerId ≤ scores.score peerId := by
  have kept := kept_of_runs fair steady run
  refine ⟨fun topic => prune_score (kept.params ▸ fair), fun now between after away => ?_⟩
  rw [score_connect]
  have start := @disconnect_returning _ _ _ _ _ _ peerId now _ fair fresh kept
  refine (away.preserves (fun after => after.params = params ∧ Waiting peerId after ∧
    after.returning peerId ≤ scores.score peerId) start ?_).2.2
  rintro op before after ⟨config, waiting, bound⟩ step
  have quiet := quiet_apply (config ▸ fair) waiting step
  exact ⟨quiet.params.trans config, quiet.waiting waiting, quiet.returning.trans bound⟩

/-- A topic that punishes a deficit and whose first deliveries decay by a given factor. -/
def sampleTopicParams (firstDecay : Exact ℚ) : TopicScoreParams (Exact ℚ) where
  topicWeight := (1 / 2 : ℚ)
  timeInMeshWeight := (0 : ℚ)
  timeInMeshQuantum := 1000
  timeInMeshCap := (1 : ℚ)
  firstMessageDeliveriesWeight := (1 : ℚ)
  firstMessageDeliveriesDecay := firstDecay
  firstMessageDeliveriesCap := (10 : ℚ)
  meshMessageDeliveriesWeight := (-1 : ℚ)
  meshMessageDeliveriesDecay := (1 / 2 : ℚ)
  meshMessageDeliveriesCap := (10 : ℚ)
  meshMessageDeliveriesThreshold := (1 : ℚ)
  meshMessageDeliveriesWindow := 1000
  meshMessageDeliveriesActivation := 1
  meshFailurePenaltyWeight := (-1 : ℚ)
  meshFailurePenaltyDecay := (1 / 2 : ℚ)
  invalidMessageDeliveriesWeight := (-1 : ℚ)
  invalidMessageDeliveriesDecay := (1 / 2 : ℚ)

/-- Scores of one topic, named by the empty string. -/
def sampleScoreConfig (firstDecay decayToZero behaviourWeight behaviourThreshold : Exact ℚ) :
    ScoreConfig (Exact ℚ) where
  zero := (0 : ℚ)
  gossipThreshold := (-10 : ℚ)
  publishThreshold := (-50 : ℚ)
  graylistThreshold := (-80 : ℚ)
  opportunisticGraftThreshold := (20 : ℚ)
  topics := (∅ : UnorderedMap TopicHash (TopicScoreParams (Exact ℚ))).insert [] (sampleTopicParams firstDecay)
  topicScoreCap := (3600 : ℚ)
  appSpecificWeight := (10 : ℚ)
  behaviourPenaltyWeight := behaviourWeight
  behaviourPenaltyThreshold := behaviourThreshold
  behaviourPenaltyDecay := (1 / 5 : ℚ)
  decayToZero := decayToZero
  retainScore := 3600
  slowPeerWeight := (-1 / 5 : ℚ)
  slowPeerThreshold := (0 : ℚ)
  slowPeerDecay := (1 / 5 : ℚ)

theorem allFair_sample (firstDecay decayToZero behaviourWeight behaviourThreshold : Exact ℚ) :
    AllFair (sampleScoreConfig firstDecay decayToZero behaviourWeight behaviourThreshold) := by
  intro topic topicParams found
  change ((∅ : UnorderedMap TopicHash (TopicScoreParams (Exact ℚ))).insert [] _).lookup topic = _ at found
  rw [UnorderedMap.lookup_insert_eq] at found
  split_ifs at found with same
  · obtain rfl := Option.some.inj found
    have half : (0 : ℚ) ≤ 1 / 2 := by norm_num
    have ten : (0 : ℚ) ≤ 10 := by norm_num
    have negative : (-1 : ℚ) ≤ 0 := by norm_num
    have second : 0 ≤ wholeSeconds 1000 := by decide
    exact ⟨half, le_rfl, zero_le_one' ℚ, second, zero_le_one' ℚ, ten, le_rfl, negative⟩
  · cases found

/-- A peer that joined a mesh and delivered nothing there. -/
def idleOps : List ScoreOp :=
  [.connect (samplePeerId 1), .graft (samplePeerId 1) [] 0, .onDecay (10 * 10 ^ 9)]

/-- Parameters that count the time in the mesh in negative quanta. -/
def backwardsConfig : ScoreConfig (Exact ℚ) :=
  { sampleScoreConfig 0 0 0 0 with
    topics := (∅ : UnorderedMap TopicHash (TopicScoreParams (Exact ℚ))).insert []
      { sampleTopicParams 0 with timeInMeshWeight := (1 : ℚ), timeInMeshQuantum := -1000 } }

/-- A peer whose only delivery decayed. -/
def decayedOps : List ScoreOp :=
  [.connect (samplePeerId 1), .deliverMessage (samplePeerId 1) [] [] 0 0, .onDecay 0]

theorem not_laundered_idle : (((idleOps.foldl apply { params := sampleScoreConfig 0 0 0 0 }).disconnect
    (samplePeerId 1) 0).connect (samplePeerId 1)).score (samplePeerId 1) ≤
    (idleOps.foldl apply { params := sampleScoreConfig 0 0 0 0 }).score (samplePeerId 1) :=
  (not_laundered (allFair_sample 0 0 0 0) (.inl le_rfl) (by decide +kernel) (run_foldl idleOps)
    (samplePeerId 1)).2 0 [] _ .nil

/-- A record without statistics that has a positive score, a count of deliveries that decays below zero, and a time in
the mesh that counts against a peer each make it pay to come back; the last one makes it pay to leave the mesh, too. -/
theorem laundered :
    (idleOps.foldl apply { params := sampleScoreConfig 0 0 1 (-1) }).score (samplePeerId 1) <
      (((idleOps.foldl apply { params := sampleScoreConfig 0 0 1 (-1) }).disconnect (samplePeerId 1) 0).connect
        (samplePeerId 1)).score (samplePeerId 1) ∧
    (decayedOps.foldl apply { params := sampleScoreConfig (-1) (-10) 0 0 }).score (samplePeerId 1) <
      (((decayedOps.foldl apply { params := sampleScoreConfig (-1) (-10) 0 0 }).disconnect (samplePeerId 1) 0).connect
        (samplePeerId 1)).score (samplePeerId 1) ∧
    (idleOps.foldl apply { params := backwardsConfig }).score (samplePeerId 1) <
      (((idleOps.foldl apply { params := backwardsConfig }).disconnect (samplePeerId 1) 0).connect
        (samplePeerId 1)).score (samplePeerId 1) ∧
    (idleOps.foldl apply { params := backwardsConfig }).score (samplePeerId 1) <
      ((idleOps.foldl apply { params := backwardsConfig }).prune (samplePeerId 1) []).score (samplePeerId 1) := by
  decide +kernel

end Return

end Score

end Libp2p.Gossip
