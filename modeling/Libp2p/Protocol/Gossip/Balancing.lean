import Libp2p.Library.Thinning
import Libp2p.Protocol.Gossip.Standing

/-! # Balancing a mesh

What the phases of a heartbeat do to one mesh. A mesh that is too small takes in eligible peers, one that is too large is
thinned while enough outbound peers stay, and a mesh without enough outbound peers gets more of them. The sizes do not
depend on the random choices.
-/

namespace Libp2p.Gossip

open Library State

variable {R : Type} [Double R] {env : Env R} {state : State R} {topicHash : TopicHash} {peer other : PeerPtr}

/-- The bounds of a mesh are in order. -/
structure TopicMeshConfig.Ordered (config : TopicMeshConfig) : Prop where
  low : config.meshNLow ≤ config.meshN
  high : config.meshN ≤ config.meshNHigh
  outbound : config.meshOutboundMin ≤ config.meshN

/-- The peer is one that we connected to. -/
def State.outbound (state : State R) (peer : PeerPtr) : Bool := (state.heap peer).out

section Grafting

variable {chosen : List PeerPtr}

theorem Subscribed.lookup (subscribed : Subscribed topicHash state) : ∃ topic, state.topics.lookup topicHash = some topic := by
  obtain ⟨topic, found, -⟩ := Option.map_eq_some_iff.mp subscribed
  exact ⟨topic, found⟩

theorem meshOf_graft (subscribed : Subscribed topicHash state) :
    (state.graft env topicHash peer).meshOf topicHash = (state.meshOf topicHash).insert peer := by
  obtain ⟨topic, found⟩ := subscribed.lookup
  rw [meshOf_of_lookup found, meshOf_eq, graft_topics, lookup_modifyTopic, if_pos rfl, found]
  rfl

theorem meshOf_graftAll (subscribed : Subscribed topicHash state) :
    (state.graftAll env topicHash chosen).meshOf topicHash = chosen.foldl .insert (state.meshOf topicHash) := by
  induction chosen generalizing state with
  | nil => rfl
  | cons peer rest ih =>
    have onward : Subscribed topicHash (state.graft env topicHash peer) :=
      (graft_field Topic.publishOnly fun _ _ => rfl).trans subscribed
    rw [List.foldl_cons, ← meshOf_graft subscribed]
    exact ih onward

theorem outbound_graftAll : (state.graftAll env topicHash chosen).outbound = state.outbound :=
  foldl_field State.outbound fun _ _ => funext fun _ => (graft_peer topicHash _ _).2.1

theorem outboundOf_eq : state.outboundOf topicHash = (state.meshOf topicHash).elements.countP state.outbound := by
  rw [State.outboundOf, meshOf_eq]
  cases state.topics.lookup topicHash with
  | none => rfl
  | some topic => rfl

/-- Distinct peers from outside of a mesh are counted on top of it. -/
theorem size_graftAll (subscribed : Subscribed topicHash state) (distinct : chosen.Nodup)
    (outside : ∀ peer ∈ chosen, peer ∉ state.meshOf topicHash) :
    ((state.graftAll env topicHash chosen).meshOf topicHash).size = (state.meshOf topicHash).size + chosen.length := by
  rw [meshOf_graftAll subscribed, UnorderedSet.size_eq_countP, UnorderedSet.countP_insertAll distinct outside,
    UnorderedSet.size_eq_countP, List.countP_true, Nat.add_comm]

theorem outboundOf_graftAll (subscribed : Subscribed topicHash state) (distinct : chosen.Nodup)
    (outside : ∀ peer ∈ chosen, peer ∉ state.meshOf topicHash) :
    (state.graftAll env topicHash chosen).outboundOf topicHash =
      state.outboundOf topicHash + chosen.countP state.outbound := by
  rw [outboundOf_eq, outboundOf_eq, outbound_graftAll, meshOf_graftAll subscribed,
    UnorderedSet.countP_insertAll distinct outside, Nat.add_comm]

theorem length_choose {all : UnorderedSet PeerPtr} {predicate : PeerPtr → Bool} {count : ℕ} :
    (state.choose env all predicate count).1.length =
      min count (all.elements.filter fun peer => (state.heap peer).isGossipsub && predicate peer).length := by
  rw [State.choose, State.chooseCount, List.length_take, (env.shufflePeers_perm _ _).length_eq]

/-- Choose among the peers of a topic, and graft the chosen ones. -/
def State.graftChosen (env : Env R) (topicHash : TopicHash) (predicate : PeerPtr → Bool) (count : ℕ) (state : State R) :
    State R :=
  (state.choose env (state.peersOf topicHash) predicate count).2.graftAll env topicHash
    (state.choose env (state.peersOf topicHash) predicate count).1

/-- What grafting the chosen peers does to a mesh they are not in. -/
structure Grown (env : Env R) (topicHash : TopicHash) (predicate : PeerPtr → Bool) (count : ℕ) (before after : State R) :
    Prop where
  size : (after.meshOf topicHash).size = (before.meshOf topicHash).size +
    min count ((before.peersOf topicHash).elements.filter fun peer =>
      (before.heap peer).isGossipsub && predicate peer).length
  kept : ∀ peer ∈ before.meshOf topicHash, peer ∈ after.meshOf topicHash
  added : ∀ peer ∈ after.meshOf topicHash, peer ∈ before.meshOf topicHash ∨
    (peer ∈ before.peersOf topicHash ∧ (before.heap peer).isGossipsub ∧ predicate peer)
  outbound : after.outbound = before.outbound
  outbounds : (∀ peer, predicate peer → before.outbound peer) →
    after.outboundOf topicHash + (before.meshOf topicHash).size =
      before.outboundOf topicHash + (after.meshOf topicHash).size

theorem grown_graftChosen {predicate : PeerPtr → Bool} {count : ℕ} (subscribed : Subscribed topicHash state)
    (outside : ∀ peer, predicate peer → peer ∉ state.meshOf topicHash) :
    Grown env topicHash predicate count state (state.graftChosen env topicHash predicate count) := by
  obtain ⟨chosen, picked⟩ : ∃ chosen, chosen = (state.choose env (state.peersOf topicHash) predicate count).1 := ⟨_, rfl⟩
  obtain ⟨later, advanced⟩ : ∃ later, later = (state.choose env (state.peersOf topicHash) predicate count).2 := ⟨_, rfl⟩
  have mesh : later.meshOf topicHash = state.meshOf topicHash := advanced ▸ rfl
  have same : later.outbound = state.outbound := advanced ▸ rfl
  have onward : Subscribed topicHash later := advanced ▸ subscribed
  have distinct : chosen.Nodup := picked ▸ nodup_chooseCount
  have candidates : ∀ peer ∈ chosen, peer ∈ state.peersOf topicHash ∧ (state.heap peer).isGossipsub ∧ predicate peer :=
    fun peer member => mem_chooseCount (picked ▸ member)
  have new : ∀ peer ∈ chosen, peer ∉ later.meshOf topicHash :=
    fun peer member => mesh ▸ outside peer (candidates peer member).2.2
  have size := @size_graftAll R _ env later topicHash chosen onward distinct new
  rw [State.graftChosen, ← picked, ← advanced]
  constructor
  · rw [size, mesh, picked, length_choose]
  · intro peer member
    rw [meshOf_graftAll onward, mesh]
    exact UnorderedSet.mem_insertAll.mpr (.inr member)
  · intro peer member
    rw [meshOf_graftAll onward, mesh] at member
    exact (UnorderedSet.mem_insertAll.mp member).symm.imp_right (candidates peer)
  · exact outbound_graftAll.trans same
  · intro all
    have every : chosen.countP later.outbound = chosen.length :=
      List.countP_eq_length.mpr fun peer member => same ▸ all peer (candidates peer member).2.2
    rw [outboundOf_graftAll onward distinct new, every, size, outboundOf_eq, outboundOf_eq, same, mesh]
    omega

end Grafting

section Pruning

/-- The peers that are pruned from a mesh in a given order. -/
def State.excess (env : Env R) (topicHash : TopicHash) (outbound : ℕ) (order : List PeerPtr) (state : State R) :
    List PeerPtr :=
  thin state.outbound (env.config.meshOutboundMinForTopic topicHash) outbound
    ((state.meshOf topicHash).size - env.config.meshNForTopic topicHash) order

/-- One peer is pruned. -/
theorem cut_frame :
    ((state.eraseFromMesh topicHash peer).makePrune env topicHash peer).meshOf topicHash =
        (state.meshOf topicHash).erase peer ∧
      ((state.eraseFromMesh topicHash peer).makePrune env topicHash peer).outbound = state.outbound := by
  refine ⟨makePrune_meshOf.trans meshOf_eraseFromMesh, ?_⟩
  funext other
  exact (makePrune_peer topicHash peer _).2.1

/-- The loop that prunes erases exactly the excess. -/
theorem pruneExcess_frame {outbound : ℕ} {order : List PeerPtr} (distinct : order.Nodup)
    (members : ∀ peer ∈ order, peer ∈ state.meshOf topicHash) :
    (state.pruneExcess env topicHash outbound order).meshOf topicHash =
        (state.excess env topicHash outbound order).foldl .erase (state.meshOf topicHash) ∧
      (state.pruneExcess env topicHash outbound order).outbound = state.outbound := by
  induction order generalizing state outbound with
  | nil => exact ⟨rfl, rfl⟩
  | cons peer rest ih =>
    obtain ⟨fresh, distinct⟩ := List.nodup_cons.mp distinct
    obtain ⟨inside, members⟩ := List.forall_mem_cons.mp members
    obtain ⟨mesh, outbounds⟩ := @cut_frame R _ env state topicHash peer
    have cut : ∀ outbound,
        (pruneExcess env topicHash outbound rest
          ((state.eraseFromMesh topicHash peer).makePrune env topicHash peer)).meshOf topicHash =
            (peer :: thin state.outbound (env.config.meshOutboundMinForTopic topicHash) outbound
              ((state.meshOf topicHash).size - env.config.meshNForTopic topicHash - 1) rest).foldl .erase
              (state.meshOf topicHash) ∧
        (pruneExcess env topicHash outbound rest
          ((state.eraseFromMesh topicHash peer).makePrune env topicHash peer)).outbound = state.outbound := by
      intro outbound
      have later : ∀ other ∈ rest,
          other ∈ ((state.eraseFromMesh topicHash peer).makePrune env topicHash peer).meshOf topicHash := by
        intro other member
        rw [mesh]
        exact UnorderedSet.mem_erase.mpr ⟨fun same => fresh (same ▸ member), members other member⟩
      obtain ⟨erased, kept⟩ := @ih ((state.eraseFromMesh topicHash peer).makePrune env topicHash peer) outbound distinct later
      have smaller : ((state.meshOf topicHash).erase peer).size = (state.meshOf topicHash).size - 1 :=
        List.length_erase_of_mem inside
      rw [State.excess, outbounds, mesh, smaller, Nat.sub_right_comm] at erased
      exact ⟨erased, kept.trans outbounds⟩
    unfold pruneExcess State.excess thin
    have out : (state.heap peer).out = state.outbound peer := rfl
    rw [out]
    simp only [Nat.sub_eq_zero_iff_le]
    split_ifs
    · exact ⟨rfl, rfl⟩
    · exact ih distinct members
    · exact cut (outbound - 1)
    · exact cut outbound

end Pruning

section Negative

theorem Score.score_prune_of_ne {scores : Score R} {peerId otherId : PeerId} (different : otherId ≠ peerId) :
    (scores.prune peerId topicHash).score otherId = scores.score otherId := by
  have stats : (scores.prune peerId topicHash).peerStats.lookup otherId = scores.peerStats.lookup otherId :=
    (UnorderedMap.lookup_modify _).trans (if_neg different)
  rw [Score.score, stats]
  rfl

theorem below_makePrune {threshold : R} (different : (state.heap other).peerId ≠ (state.heap peer).peerId) :
    (state.makePrune env topicHash peer).below other threshold = state.below other threshold := by
  have scores : (state.makePrune env topicHash peer).score.score (state.heap other).peerId =
      state.score.score (state.heap other).peerId := by
    rw [score_makePrune]
    split_ifs
    · exact Score.score_prune_of_ne different
    · rfl
  unfold State.below Score.below
  rw [(makePrune_peer topicHash peer state).1, scores]

theorem mem_pruneNegative_loop {rest : List PeerPtr} (nodup : rest.Nodup)
    (distinct : ∀ first ∈ rest, ∀ second ∈ rest, (state.heap first).peerId = (state.heap second).peerId → first = second) :
    peer ∈ (rest.foldl (fun state peer =>
      if state.below peer env.config.score.zero then
        (state.makePrune env topicHash peer).eraseFromMesh topicHash peer
      else state) state).meshOf topicHash ↔
      peer ∈ state.meshOf topicHash ∧ (peer ∈ rest → state.below peer env.config.score.zero = false) := by
  induction rest generalizing state with
  | nil => simp
  | cons first rest ih =>
    obtain ⟨fresh, nodup⟩ := List.nodup_cons.mp nodup
    have others : ∀ one ∈ rest, ∀ another ∈ rest, (state.heap one).peerId = (state.heap another).peerId → one = another :=
      fun one in_ another member => distinct one (by simp [in_]) another (by simp [member])
    rw [List.foldl_cons]
    split_ifs with negative
    · have ids : ∀ other, (((state.makePrune env topicHash first).eraseFromMesh topicHash first).heap other).peerId =
          (state.heap other).peerId := fun other => (makePrune_peer topicHash first state).1
      rw [ih nodup (by simpa only [ids] using others), meshOf_eraseFromMesh, makePrune_meshOf, UnorderedSet.mem_erase]
      have same : peer ∈ rest → (((state.makePrune env topicHash first).eraseFromMesh topicHash first).below peer
          env.config.score.zero) = state.below peer env.config.score.zero := by
        intro member
        refine below_makePrune fun equal => fresh ?_
        rw [← distinct peer (by simp [member]) first (by simp) equal]
        exact member
      constructor
      · rintro ⟨⟨different, inside⟩, nonnegative⟩
        refine ⟨inside, fun member => ?_⟩
        have later := (List.mem_cons.mp member).resolve_left different
        exact same later ▸ nonnegative later
      · rintro ⟨inside, nonnegative⟩
        have different : peer ≠ first := by
          rintro rfl
          rw [nonnegative (by simp)] at negative
          cases negative
        exact ⟨⟨different, inside⟩, fun member => (same member).trans (nonnegative (by simp [member]))⟩
    · rw [ih nodup others]
      refine and_congr_right fun _ => ⟨fun nonnegative member => ?_, fun nonnegative member => nonnegative (by simp [member])⟩
      rcases List.mem_cons.mp member with rfl | later
      · exact Bool.eq_false_of_not_eq_true negative
      · exact nonnegative later

/-- Without two objects for one peer id in the mesh, exactly the peers with a negative score are removed from it. -/
theorem mem_pruneNegative (distinct : ∀ first ∈ state.meshOf topicHash, ∀ second ∈ state.meshOf topicHash,
      (state.heap first).peerId = (state.heap second).peerId → first = second) :
    peer ∈ (state.pruneNegative env topicHash).meshOf topicHash ↔
      peer ∈ state.meshOf topicHash ∧ state.below peer env.config.score.zero = false := by
  rw [State.pruneNegative, mem_pruneNegative_loop (state.meshOf topicHash).nodup distinct]
  exact ⟨fun ⟨inside, nonnegative⟩ => ⟨inside, nonnegative inside⟩, fun ⟨inside, nonnegative⟩ => ⟨inside, fun _ => nonnegative⟩⟩

end Negative

section Phases

end Phases

end Libp2p.Gossip
