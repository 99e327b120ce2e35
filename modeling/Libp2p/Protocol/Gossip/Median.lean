import Libp2p.Protocol.Gossip.Balancing
import Mathlib.Data.List.GetD

/-! # Opportunistic grafting and the median

Now and then a heartbeat looks at the middle of the scores in a mesh. For an odd number of peers that is the middle score.
For an even number the second index is one too far: past the end of the scores of two peers, and to the wrong score of
more peers.
-/

namespace Libp2p.Gossip

open Library State

variable {R : Type} [Double R] {env : Env R} {state : State R} {topicHash : TopicHash} {peer other : PeerPtr}

/-- The mean of two numbers is not rounded. -/
def Double.MeansExact (R : Type) [Double R] : Prop :=
  ∀ first second third : R, (first + second) / ((2 : ℕ) : R) = (first + third) / ((2 : ℕ) : R) → second = third

/-- The positions that the heartbeat reads in a sorted array of scores. -/
def readIndices (count : ℕ) : List ℕ :=
  if count % 2 = 0 then [count / 2 - 1, count / 2 + 1] else [count / 2]

/-- The middle score of an odd number, or the mean of the two middle scores of an even number, of sorted scores. -/
def trueMedian (scores : List R) : R :=
  if scores.length % 2 = 0 then
    (scores.getD (scores.length / 2 - 1) 0 + scores.getD (scores.length / 2) 0) / ((2 : ℕ) : R)
  else scores.getD (scores.length / 2) 0

/-- The scores of a mesh, sorted. -/
def State.ascending (topicHash : TopicHash) (state : State R) : List R :=
  ((state.meshOf topicHash).elements.map fun peer => state.score.score (state.heap peer).peerId).insertionSort
    fun left right => ¬ right < left

/-- A peer outside of the mesh, without backoff, that scores above a median. -/
def State.outscores (topicHash : TopicHash) (median : R) (state : State R) (peer : PeerPtr) : Bool :=
  peer ∉ state.meshOf topicHash && ! ((state.topics.lookup topicHash).any fun topic => isBackoffWithSlack topic peer) &&
    decide (median < state.score.score (state.heap peer).peerId)

/-- A heartbeat grafts by the true median: it reads inside of the array, and grafts peers that score above the median
exactly if that is below the threshold. -/
structure GraftsByMedian (env : Env R) (topicHash : TopicHash) (state after : State R) : Prop where
  bounds : ∀ index ∈ readIndices (state.ascending topicHash).length, index < (state.ascending topicHash).length
  median : state.medianScore env topicHash = trueMedian (state.ascending topicHash)
  grafted : trueMedian (state.ascending topicHash) < env.config.score.opportunisticGraftThreshold →
    Grown env topicHash (state.outscores topicHash (trueMedian (state.ascending topicHash)))
      env.config.opportunisticGraftPeers state after
  content : ¬ trueMedian (state.ascending topicHash) < env.config.score.opportunisticGraftThreshold → after = state

theorem length_ascending : (state.ascending topicHash).length = (state.meshOf topicHash).size := by
  rw [State.ascending, List.length_insertionSort, List.length_map]
  rfl

/-- What the heartbeat computes from the positions that it reads. -/
theorem medianScore_eq : state.medianScore env topicHash =
    match (readIndices (state.ascending topicHash).length).map
      fun index => (state.ascending topicHash).getD index (env.outOfBounds index) with
    | [first, second] => (first + second) / ((2 : ℕ) : R)
    | [middle] => middle
    | _ => 0 := by
  unfold readIndices
  change (if (state.ascending topicHash).length % 2 = 0 then _ else _) = _
  split_ifs <;> rfl

omit [Double R] in
theorem getD_irrelevant {scores : List R} {index : ℕ} (inside : index < scores.length) (first second : R) :
    scores.getD index first = scores.getD index second := by
  rw [List.getD_eq_getElem _ _ inside, List.getD_eq_getElem _ _ inside]

theorem medianScore_odd (odd : (state.ascending topicHash).length % 2 = 1) :
    state.medianScore env topicHash = trueMedian (state.ascending topicHash) := by
  have inside : (state.ascending topicHash).length / 2 < (state.ascending topicHash).length := by omega
  rw [medianScore_eq, readIndices, if_neg (by omega), trueMedian, if_neg (by omega)]
  exact getD_irrelevant inside _ _

/-- Of an even number of peers, the mean is taken of the lower of the two middle scores and the one behind both. -/
theorem medianScore_even (even : (state.ascending topicHash).length % 2 = 0)
    (many : 2 < (state.ascending topicHash).length) :
    state.medianScore env topicHash =
      ((state.ascending topicHash).getD ((state.ascending topicHash).length / 2 - 1) 0 +
        (state.ascending topicHash).getD ((state.ascending topicHash).length / 2 + 1) 0) / ((2 : ℕ) : R) := by
  have low : (state.ascending topicHash).length / 2 - 1 < (state.ascending topicHash).length := by omega
  have high : (state.ascending topicHash).length / 2 + 1 < (state.ascending topicHash).length := by omega
  rw [medianScore_eq, readIndices, if_pos even]
  simp only [List.map_cons, List.map_nil]
  rw [getD_irrelevant low _ 0, getD_irrelevant high _ 0]

/-- When it is due, a heartbeat compares the median that it computed and grafts who scores above it. -/
theorem graftOpportunistically_due (due : state.heartbeatTicks % env.config.opportunisticGraftTicks = 0)
    (two : 1 < (state.meshOf topicHash).size) : state.graftOpportunistically env topicHash =
      if state.medianScore env topicHash < env.config.score.opportunisticGraftThreshold then
        state.graftChosen env topicHash (state.outscores topicHash (state.medianScore env topicHash))
          env.config.opportunisticGraftPeers
      else state := by
  rw [State.graftOpportunistically, if_pos ⟨due, two⟩]
  rfl

theorem outside_of_outscores {median : R} (outscores : state.outscores topicHash median peer) :
    peer ∉ state.meshOf topicHash := by
  simp only [State.outscores, Bool.and_eq_true, decide_eq_true_eq] at outscores
  exact outscores.1.1

/-- The wrong index does no harm: it is not used, or it leads to the score that was meant. -/
def State.Centred (topicHash : TopicHash) (state : State R) : Prop :=
  (state.meshOf topicHash).size % 2 = 1 ∨ (2 < (state.meshOf topicHash).size ∧
    (state.ascending topicHash).getD ((state.meshOf topicHash).size / 2 + 1) 0 =
      (state.ascending topicHash).getD ((state.meshOf topicHash).size / 2) 0)

/-- A heartbeat grafts by the true median if the mesh has an odd number of peers, or more than two and the two scores
after the middle of the sorted scores are equal. Where means are not rounded, it does so in no other case. -/
theorem graftsByMedian_iff (subscribed : Subscribed topicHash state)
    (due : state.heartbeatTicks % env.config.opportunisticGraftTicks = 0) (two : 2 ≤ (state.meshOf topicHash).size) :
    (state.Centred topicHash → GraftsByMedian env topicHash state (state.graftOpportunistically env topicHash)) ∧
      (Double.MeansExact R →
        (GraftsByMedian env topicHash state (state.graftOpportunistically env topicHash) ↔ state.Centred topicHash)) := by
  have length := @length_ascending R _ state topicHash
  unfold State.Centred
  rw [← length] at two ⊢
  have grafts : state.medianScore env topicHash = trueMedian (state.ascending topicHash) →
      (∀ index ∈ readIndices (state.ascending topicHash).length, index < (state.ascending topicHash).length) →
      GraftsByMedian env topicHash state (state.graftOpportunistically env topicHash) := by
    intro median bounds
    rw [graftOpportunistically_due due (length ▸ two), median]
    refine ⟨bounds, median, fun low => ?_, fun high => if_neg high⟩
    rw [if_pos low]
    exact grown_graftChosen subscribed fun peer => outside_of_outscores
  have odd : (state.ascending topicHash).length % 2 = 1 →
      GraftsByMedian env topicHash state (state.graftOpportunistically env topicHash) := by
    intro odd
    refine grafts (medianScore_odd odd) fun index member => ?_
    rw [readIndices, if_neg (by omega), List.mem_singleton] at member
    omega
  have enough : (state.ascending topicHash).length % 2 = 1 ∨ (2 < (state.ascending topicHash).length ∧
      (state.ascending topicHash).getD ((state.ascending topicHash).length / 2 + 1) 0 =
        (state.ascending topicHash).getD ((state.ascending topicHash).length / 2) 0) →
      GraftsByMedian env topicHash state (state.graftOpportunistically env topicHash) := by
    rintro (uneven | ⟨many, same⟩)
    · exact odd uneven
    rcases Nat.mod_two_eq_zero_or_one (state.ascending topicHash).length with even | uneven
    · have median : state.medianScore env topicHash = trueMedian (state.ascending topicHash) := by
        rw [medianScore_even even many, same, trueMedian, if_pos even]
      refine grafts median fun index member => ?_
      rw [readIndices, if_pos even] at member
      simp only [List.mem_cons, List.not_mem_nil, or_false] at member
      omega
    · exact odd uneven
  refine ⟨enough, fun means => ⟨fun holds => ?_, enough⟩⟩
  refine or_iff_not_imp_left.mpr fun uneven => ?_
  have even : (state.ascending topicHash).length % 2 = 0 := by omega
  have inside := holds.bounds ((state.ascending topicHash).length / 2 + 1) (by rw [readIndices, if_pos even]; simp)
  have many : 2 < (state.ascending topicHash).length := by omega
  have median := holds.median
  rw [medianScore_even even many, trueMedian, if_pos even] at median
  exact ⟨many, means _ _ _ median⟩

theorem meansExact_rational : Double.MeansExact Rational := by
  have rationals : ∀ first second third : ℚ, (first + second) / ((2 : ℕ) : ℚ) = (first + third) / ((2 : ℕ) : ℚ) →
      second = third := by
    intro first second third same
    have two : ((2 : ℕ) : ℚ) ≠ 0 := by norm_num
    exact add_left_cancel ((div_left_inj' two).mp same)
  exact rationals

/-- A mesh of inbound peers without any record. -/
def plainMesh (count : ℕ) : State Rational :=
  { State.initial (sampleEnv true 1) 0 with
    heap := fun peer => { peerId := samplePeerId (UInt8.ofNat peer), out := false, peerKind := some .gossipsubv1_1 }
    topics := (∅ : UnorderedMap TopicHash Topic).insert [0x74]
      { publishOnly := false
        history := History.new 5 historyPositive_default
        backoff := TopicBackoff.new (sampleEnv true 1).config
        peers := ⟨List.range (count + 1), List.nodup_range⟩
        meshPeers := ⟨List.range count, List.nodup_range⟩ } }

theorem subscribed_plainMesh (count : ℕ) : Subscribed [0x74] (plainMesh count) := rfl

/-- The median of three peers is the true one, and so is that of four that score the same, but not that of two. -/
theorem graftsByMedian_iff_three :
    (GraftsByMedian (sampleEnv true 1) [0x74] (plainMesh 3)
      ((plainMesh 3).graftOpportunistically (sampleEnv true 1) [0x74])) ∧
    (GraftsByMedian (sampleEnv true 1) [0x74] (plainMesh 4)
      ((plainMesh 4).graftOpportunistically (sampleEnv true 1) [0x74])) ∧
    ¬ GraftsByMedian (sampleEnv true 1) [0x74] (plainMesh 2)
      ((plainMesh 2).graftOpportunistically (sampleEnv true 1) [0x74]) := by
  have three : (plainMesh 3).Centred [0x74] := .inl (by decide)
  have four : (plainMesh 4).Centred [0x74] := .inr ⟨by decide, by decide +kernel⟩
  refine ⟨(graftsByMedian_iff (subscribed_plainMesh 3) (by decide) (by decide)).1 three,
    (graftsByMedian_iff (subscribed_plainMesh 4) (by decide) (by decide)).1 four, fun holds => ?_⟩
  rcases ((graftsByMedian_iff (subscribed_plainMesh 2) (by decide) (by decide)).2 meansExact_rational).mp holds with
    odd | ⟨many, -⟩
  · exact absurd odd (by decide)
  · exact absurd many (by decide)

/-- Of the scores of two peers the third one is read. -/
theorem median_of_two_out_of_bounds : ((plainMesh 2).meshOf [0x74]).size = 2 ∧
    ¬ GraftsByMedian (sampleEnv true 1) [0x74] (plainMesh 2)
      ((plainMesh 2).graftOpportunistically (sampleEnv true 1) [0x74]) := by
  refine ⟨by decide, fun holds => ?_⟩
  have inside := holds.bounds 2 (by decide)
  exact absurd inside (by decide +kernel)

end Libp2p.Gossip
