import Libp2p.Library.Ranking
import Libp2p.Protocol.Gossip.Balancing

/-! # Which peers survive the pruning of a mesh

A mesh that is too large is sorted by falling scores, everything but the last `retain_scores` peers is shuffled, and
peers are pruned from the front. So the peers that are spared the shuffle are the worst ones, and the best ones go.
-/

namespace Libp2p.Gossip

open Library State

variable {R : Type} [Double R] {env : Env R} {state : State R} {topicHash : TopicHash} {peer other : PeerPtr}

/-- The same node with other random choices. -/
def Env.withShuffle (env : Env R) (shuffle : ℕ → List PeerPtr → List PeerPtr)
    (perm : ∀ choice peers, (shuffle choice peers).Perm peers) : Env R :=
  { env with shufflePeers := shuffle, shufflePeers_perm := perm }

namespace State

variable (env topicHash)

def scoreOf (state : State R) (peer : PeerPtr) : R := state.score.score (state.heap peer).peerId

/-- At least `retain_scores` peers of the balanced mesh score as well as every peer that was pruned. -/
def KeepsBest (state : State R) : Prop :=
  env.config.retainScores ≤ ((state.balanceMesh env topicHash).meshOf topicHash).elements.countP fun peer =>
    decide (∀ other ∈ (state.meshOf topicHash).elements, other ∉ (state.balanceMesh env topicHash).meshOf topicHash →
      ¬ state.scoreOf peer < state.scoreOf other)

/-- The mesh peers that score as well as a given one. -/
def asGood (state : State R) (peer : PeerPtr) : List PeerPtr :=
  (state.meshOf topicHash).elements.filter fun other => ¬ state.scoreOf other < state.scoreOf peer

/-- How many of some mesh peers may be pruned: no more than are too many, and no more outbound ones than are left over. -/
def prunable (state : State R) (peers : List PeerPtr) : ℕ :=
  min ((state.meshOf topicHash).size - env.config.meshNForTopic topicHash)
    (peers.countP (fun peer => ! state.outbound peer) + min (peers.countP state.outbound)
      (state.outboundOf topicHash - env.config.meshOutboundMinForTopic topicHash))

/-- The peers that the heartbeat prunes from a mesh that is too large. -/
def goneFrom (state : State R) : List PeerPtr :=
  state.excess env topicHash (state.outboundOf topicHash) (state.pruneOrder env topicHash).1

end State

section Loop

/-- What the heartbeat leaves of a mesh that is too large. -/
theorem meshOf_balanceMesh (low : env.config.meshNLowForTopic topicHash ≤ (state.meshOf topicHash).size)
    (large : env.config.meshNHighForTopic topicHash < (state.meshOf topicHash).size) :
    (state.balanceMesh env topicHash).meshOf topicHash =
      (state.goneFrom env topicHash).foldl .erase (state.meshOf topicHash) := by
  rw [State.balanceMesh, if_neg (by omega), if_pos large]
  dsimp only
  obtain ⟨later, advanced⟩ : ∃ later, later = (state.pruneOrder env topicHash).2 := ⟨_, rfl⟩
  have mesh : later.meshOf topicHash = state.meshOf topicHash := advanced ▸ rfl
  have outbound : later.outbound = state.outbound := advanced ▸ rfl
  have count : later.outboundOf topicHash = state.outboundOf topicHash := advanced ▸ rfl
  have perm : (state.pruneOrder env topicHash).1.Perm (state.meshOf topicHash).elements := perm_pruneOrder
  have pruned := @pruneExcess_frame R _ env later topicHash (later.outboundOf topicHash) _
    (perm.nodup_iff.mpr (state.meshOf topicHash).nodup) fun peer member => mesh ▸ perm.mem_iff.mp member
  rw [← advanced, pruned.1, mesh, count, State.goneFrom, State.excess, State.excess, outbound, mesh]

theorem sublist_goneFrom : (state.goneFrom env topicHash).Sublist (state.pruneOrder env topicHash).1 := thin_sublist

theorem mem_goneFrom (gone : peer ∈ state.goneFrom env topicHash) : peer ∈ state.meshOf topicHash :=
  perm_pruneOrder.mem_iff.mp (sublist_goneFrom.subset gone)

theorem nodup_goneFrom : (state.goneFrom env topicHash).Nodup :=
  sublist_goneFrom.nodup (perm_pruneOrder.nodup_iff.mpr (state.meshOf topicHash).nodup)

/-- No more of some kind of peers are pruned than may be. -/
theorem countP_goneFrom_le (kind : PeerPtr → Bool) : (state.goneFrom env topicHash).countP kind ≤
    state.prunable env topicHash ((state.meshOf topicHash).elements.filter kind) := by
  have perm : ((state.pruneOrder env topicHash).1.filter kind).Perm ((state.meshOf topicHash).elements.filter kind) :=
    perm_pruneOrder.filter kind
  rw [State.prunable, ← perm.countP_eq, ← perm.countP_eq]
  exact countP_kind_thin_le kind

/-- The peers of a kind that were not pruned are still there. -/
theorem countP_survivors (low : env.config.meshNLowForTopic topicHash ≤ (state.meshOf topicHash).size)
    (large : env.config.meshNHighForTopic topicHash < (state.meshOf topicHash).size) (kind : PeerPtr → Bool) :
    ((state.balanceMesh env topicHash).meshOf topicHash).elements.countP kind + (state.goneFrom env topicHash).countP kind =
      (state.meshOf topicHash).elements.countP kind := by
  rw [meshOf_balanceMesh low large]
  exact UnorderedSet.countP_eraseAll nodup_goneFrom fun peer gone => mem_goneFrom gone

theorem not_mem_balanceMesh (low : env.config.meshNLowForTopic topicHash ≤ (state.meshOf topicHash).size)
    (large : env.config.meshNHighForTopic topicHash < (state.meshOf topicHash).size)
    (inside : peer ∈ state.meshOf topicHash) :
    peer ∉ (state.balanceMesh env topicHash).meshOf topicHash ↔ peer ∈ state.goneFrom env topicHash := by
  rw [meshOf_balanceMesh low large, UnorderedSet.mem_eraseAll]
  simp [inside]

end Loop

section Kept

variable [IsStrictWeakOrder R (· < ·)]

/-- The condition is enough, whatever the random choices are. -/
theorem keepsBest_of_roomy (low : env.config.meshNLowForTopic topicHash ≤ (state.meshOf topicHash).size)
    (large : env.config.meshNHighForTopic topicHash < (state.meshOf topicHash).size)
    (many : env.config.retainScores ≤ (state.meshOf topicHash).size)
    (roomy : ∀ peer ∈ state.meshOf topicHash, state.prunable env topicHash (state.asGood topicHash peer) = 0 ∨
      env.config.retainScores + state.prunable env topicHash (state.asGood topicHash peer) ≤
        (state.asGood topicHash peer).length) : state.KeepsBest env topicHash := by
  unfold State.KeepsBest
  by_cases none_ : state.goneFrom env topicHash = []
  · have all := countP_survivors low large fun _ => true
    rw [none_, List.countP_nil, Nat.add_zero, ← UnorderedSet.size_eq_countP] at all
    rw [List.countP_eq_length.mpr]
    · rw [List.countP_true] at all
      exact many.trans all.ge
    · intro peer _
      refine decide_eq_true fun other member gone => ?_
      have pruned := (not_mem_balanceMesh low large member).mp gone
      rw [none_] at pruned
      cases pruned
  · obtain ⟨best, gone, highest⟩ := exists_highest state.scoreOf none_
    obtain ⟨reaches, reached⟩ : ∃ reaches : PeerPtr → Bool,
        reaches = fun peer => decide ¬ state.scoreOf peer < state.scoreOf best := ⟨_, rfl⟩
    have asGood : state.asGood topicHash best = (state.meshOf topicHash).elements.filter reaches := by
      rw [reached]
      rfl
    have pruned := @countP_goneFrom_le R _ env state topicHash reaches
    have survivors := countP_survivors low large reaches
    have first : 0 < (state.goneFrom env topicHash).countP reaches := by
      refine List.countP_pos_iff.mpr ⟨best, gone, ?_⟩
      rw [reached]
      exact decide_eq_true (irrefl_of (· < ·) (state.scoreOf best))
    have enough := roomy best (mem_goneFrom gone)
    rw [asGood, ← List.countP_eq_length_filter] at enough
    have kept : env.config.retainScores ≤ ((state.balanceMesh env topicHash).meshOf topicHash).elements.countP reaches := by
      omega
    refine kept.trans (List.countP_mono_left fun peer _ reach => decide_eq_true fun other member lost => ?_)
    rw [reached] at reach
    exact not_lt_trans (of_decide_eq_true reach) (highest other ((not_mem_balanceMesh low large member).mp lost))

/-- Random choices that put the peers of a kind to the front. -/
def towards (kind : PeerPtr → Bool) (_ : ℕ) (peers : List PeerPtr) : List PeerPtr :=
  peers.filter kind ++ peers.filter fun peer => ! kind peer

theorem towards_perm (kind : PeerPtr → Bool) (choice : ℕ) (peers : List PeerPtr) :
    (towards kind choice peers).Perm peers :=
  List.filter_append_perm kind peers

/-- If the peers that reach a score come first, as many of them go as may be pruned. -/
theorem prunable_le_countP (config : env.config.retainScores + env.config.meshOutboundMinForTopic topicHash ≤
      env.config.meshNForTopic topicHash) (many : env.config.retainScores ≤ (state.meshOf topicHash).size)
    (reaches : PeerPtr → Bool) (upward : ∀ first second, ¬ state.scoreOf first < state.scoreOf second →
      reaches second → reaches first) :
    state.prunable env topicHash ((state.meshOf topicHash).elements.filter reaches) ≤
      (state.goneFrom (env.withShuffle (towards reaches) (towards_perm reaches)) topicHash).countP reaches := by
  obtain ⟨sorted, sorts⟩ : ∃ sorted, sorted = (towards reaches state.random (state.meshOf topicHash).elements).insertionSort
      fun left right => ¬ state.scoreOf left < state.scoreOf right := ⟨_, rfl⟩
  have perm : sorted.Perm (state.meshOf topicHash).elements := by
    rw [sorts]
    exact (List.perm_insertionSort _ _).trans (towards_perm reaches _ _)
  have downward : sorted.Pairwise fun first second => reaches second → reaches first := by
    rw [sorts]
    exact (falling_insertionSort state.scoreOf).imp fun ahead => upward _ _ ahead
  obtain ⟨front, taken⟩ : ∃ front, front = (sorted.take (sorted.length - env.config.retainScores)).filter reaches := ⟨_, rfl⟩
  obtain ⟨rest, ordered⟩ : ∃ rest,
      (state.pruneOrder (env.withShuffle (towards reaches) (towards_perm reaches)) topicHash).1 = front ++ rest := by
    refine ⟨(sorted.take (sorted.length - env.config.retainScores)).filter (fun peer => ! reaches peer) ++
      sorted.drop (sorted.length - env.config.retainScores), ?_⟩
    rw [← List.append_assoc, taken, sorts]
    rfl
  have part : front.Sublist (sorted.filter reaches) := taken ▸ (List.take_sublist _ _).filter reaches
  have length : sorted.length = (state.meshOf topicHash).size := perm.length_eq
  have size : front.length = min ((state.meshOf topicHash).size - env.config.retainScores)
      (((state.meshOf topicHash).elements.filter reaches).length) := by
    rw [taken, ← List.countP_eq_length_filter, countP_take downward, perm.countP_eq, length, List.countP_eq_length_filter]
  have outbounds : ((state.meshOf topicHash).elements.filter reaches).countP state.outbound ≤ state.outboundOf topicHash := by
    rw [outboundOf_eq]
    exact List.filter_sublist.countP_le
  have within := (perm.filter reaches).countP_eq
  have plain : front.countP (fun peer => ! state.outbound peer) ≤
      ((state.meshOf topicHash).elements.filter reaches).countP fun peer => ! state.outbound peer :=
    part.countP_le.trans (within _).le
  have guards : front.countP state.outbound ≤ ((state.meshOf topicHash).elements.filter reaches).countP state.outbound :=
    part.countP_le.trans (within _).le
  have split := @countP_guarded _ state.outbound front
  have splitAll := @countP_guarded _ state.outbound ((state.meshOf topicHash).elements.filter reaches)
  have first : thin state.outbound (env.config.meshOutboundMinForTopic topicHash) (state.outboundOf topicHash)
      ((state.meshOf topicHash).size - env.config.meshNForTopic topicHash) front <+:
        state.goneFrom (env.withShuffle (towards reaches) (towards_perm reaches)) topicHash := by
    rw [State.goneFrom, State.excess, ordered]
    exact thin_prefix
  have kind : ∀ peer ∈ thin state.outbound (env.config.meshOutboundMinForTopic topicHash) (state.outboundOf topicHash)
      ((state.meshOf topicHash).size - env.config.meshNForTopic topicHash) front, reaches peer :=
    fun peer member => (List.mem_filter.mp (taken ▸ thin_sublist.subset member)).2
  have counted := @List.Sublist.countP_le _ reaches _ _ first.sublist
  rw [List.countP_eq_length.mpr kind, length_thin] at counted
  refine le_trans ?_ counted
  rw [State.prunable]
  omega

/-- The condition is necessary if there is no luck with the random choices. -/
theorem roomy_of_keepsBest (low : env.config.meshNLowForTopic topicHash ≤ (state.meshOf topicHash).size)
    (large : env.config.meshNHighForTopic topicHash < (state.meshOf topicHash).size)
    (config : env.config.retainScores + env.config.meshOutboundMinForTopic topicHash ≤ env.config.meshNForTopic topicHash)
    (many : env.config.retainScores ≤ (state.meshOf topicHash).size)
    (keeps : ∀ shuffle perm, state.KeepsBest (env.withShuffle shuffle perm) topicHash) (peer : PeerPtr) :
    state.prunable env topicHash (state.asGood topicHash peer) = 0 ∨
      env.config.retainScores + state.prunable env topicHash (state.asGood topicHash peer) ≤
        (state.asGood topicHash peer).length := by
  obtain ⟨reaches, reached⟩ : ∃ reaches : PeerPtr → Bool,
      reaches = fun other => decide ¬ state.scoreOf other < state.scoreOf peer := ⟨_, rfl⟩
  have asGood : state.asGood topicHash peer = (state.meshOf topicHash).elements.filter reaches := by
    rw [reached]
    rfl
  have upward : ∀ first second, ¬ state.scoreOf first < state.scoreOf second → reaches second → reaches first := by
    intro first second ahead reach
    rw [reached] at reach ⊢
    exact decide_eq_true (not_lt_trans ahead (of_decide_eq_true reach))
  have gone := prunable_le_countP config many reaches upward
  have keeps := keeps (towards reaches) (towards_perm reaches)
  rw [asGood]
  refine or_iff_not_imp_left.mpr fun some_ => ?_
  obtain ⟨lost, member, reach⟩ := List.countP_pos_iff.mp ((Nat.pos_of_ne_zero some_).trans_le gone)
  obtain ⟨other, chosen⟩ : ∃ other, other = env.withShuffle (towards reaches) (towards_perm reaches) := ⟨_, rfl⟩
  rw [← chosen] at gone keeps member
  have lowOther : other.config.meshNLowForTopic topicHash ≤ (state.meshOf topicHash).size := chosen ▸ low
  have largeOther : other.config.meshNHighForTopic topicHash < (state.meshOf topicHash).size := chosen ▸ large
  have retained : other.config.retainScores = env.config.retainScores := chosen ▸ rfl
  -- Whoever scores as well as a pruned peer scores as well as the given one.
  have good : env.config.retainScores ≤ ((state.balanceMesh other topicHash).meshOf topicHash).elements.countP reaches := by
    rw [← retained]
    refine le_trans keeps (List.countP_mono_left fun survivor _ best => ?_)
    have ahead := of_decide_eq_true best lost (mem_goneFrom member)
      ((not_mem_balanceMesh lowOther largeOther (mem_goneFrom member)).mpr member)
    exact upward survivor lost ahead reach
  have survivors := countP_survivors lowOther largeOther reaches
  rw [← List.countP_eq_length_filter]
  omega

end Kept

/-- The best peers survive for all random choices exactly if, for every score that a mesh peer has, either no peer that
reaches it may be pruned, or `retain_scores` more peers reach it than may be pruned of them. -/
theorem keepsBest_iff [IsStrictWeakOrder R (· < ·)]
    (low : env.config.meshNLowForTopic topicHash ≤ (state.meshOf topicHash).size)
    (large : env.config.meshNHighForTopic topicHash < (state.meshOf topicHash).size)
    (config : env.config.retainScores + env.config.meshOutboundMinForTopic topicHash ≤
      env.config.meshNForTopic topicHash) :
    (∀ shuffle perm, state.KeepsBest (env.withShuffle shuffle perm) topicHash) ↔
      env.config.retainScores ≤ (state.meshOf topicHash).size ∧
        ∀ peer ∈ (state.meshOf topicHash).elements, state.prunable env topicHash (state.asGood topicHash peer) = 0 ∨
          env.config.retainScores + state.prunable env topicHash (state.asGood topicHash peer) ≤
            (state.asGood topicHash peer).length := by
  constructor
  · intro keeps
    have some_ : state.KeepsBest env topicHash := keeps env.shufflePeers env.shufflePeers_perm
    have survivors := countP_survivors low large fun _ => true
    have many : env.config.retainScores ≤ (state.meshOf topicHash).size := by
      refine le_trans some_ (List.countP_le_length.trans ?_)
      simp only [List.countP_true] at survivors
      exact (Nat.le_add_right _ _).trans survivors.le
    exact ⟨many, fun peer _ => roomy_of_keepsBest low large config many keeps peer⟩
  · rintro ⟨many, roomy⟩ shuffle perm
    have lowOther : (env.withShuffle shuffle perm).config.meshNLowForTopic topicHash ≤ (state.meshOf topicHash).size := low
    exact keepsBest_of_roomy lowOther large many roomy

/-- Scores of one topic count. -/
def scoredEnv : Env Rational :=
  { sampleEnv true 1 with config := { Config.default true with
      score := { ScoreConfig.default with
        topics := (∅ : UnorderedMap TopicHash (TopicScoreParams Rational)).insert [0x74] .default } } }

/-- A mesh of thirteen inbound peers, of which the first has delivered some messages. -/
def crowdedMesh (deliveries : Rational) : State Rational :=
  { State.initial scoredEnv 0 with
    heap := fun peer => { peerId := samplePeerId (UInt8.ofNat peer), out := false, peerKind := some .gossipsubv1_1 }
    topics := (∅ : UnorderedMap TopicHash Topic).insert [0x74]
      { publishOnly := false
        history := History.new 5 historyPositive_default
        backoff := TopicBackoff.new scoredEnv.config
        peers := ⟨List.range 13, List.nodup_range⟩
        meshPeers := ⟨List.range 13, List.nodup_range⟩ }
    score :=
      { params := scoredEnv.config.score
        peerStats := (∅ : UnorderedMap PeerId (PeerStats Rational)).insert (samplePeerId 0)
          { topics := (∅ : UnorderedMap TopicHash (TopicStats Rational)).insert [0x74]
              { firstMessageDeliveries := deliveries } } } }

instance : IsStrictWeakOrder Rational (· < ·) :=
  @isStrictWeakOrder_of_isOrderConnected ℚ (· < ·) _ _

theorem keepsBest_iff_equal : scoredEnv.config.meshNLowForTopic [0x74] ≤ ((crowdedMesh 0).meshOf [0x74]).size ∧
    scoredEnv.config.meshNHighForTopic [0x74] < ((crowdedMesh 0).meshOf [0x74]).size ∧
    ∀ shuffle perm, (crowdedMesh 0).KeepsBest (scoredEnv.withShuffle shuffle perm) [0x74] := by
  have low : scoredEnv.config.meshNLowForTopic [0x74] ≤ ((crowdedMesh 0).meshOf [0x74]).size := by decide
  have large : scoredEnv.config.meshNHighForTopic [0x74] < ((crowdedMesh 0).meshOf [0x74]).size := by decide
  exact ⟨low, large, (keepsBest_iff low large (by decide)).mpr (by decide +kernel)⟩

/-- The only peer that ever delivered a message is pruned first. -/
theorem best_peer_pruned : scoredEnv.config.meshNHighForTopic [0x74] < ((crowdedMesh 1).meshOf [0x74]).size ∧
    scoredEnv.config.retainScores + scoredEnv.config.meshOutboundMinForTopic [0x74] ≤
      scoredEnv.config.meshNForTopic [0x74] ∧
    ¬ (crowdedMesh 1).KeepsBest scoredEnv [0x74] := by
  unfold State.KeepsBest
  decide +kernel

end Libp2p.Gossip
