import Libp2p.Protocol.Gossip.Membership

/-! # Scores mirror meshes

What a peer's score depends on besides counters: whether its record is live, that is, does not wait for its
expiration, and in which topics it counts as a mesh peer. Every operation on scores is described by what it does to
these two, and the invariant of a node is that they agree with its registrations and its meshes.
-/

namespace Libp2p.Gossip

open Library State

/-- Which records are live, and which topics they are active in. -/
@[ext]
structure Standing where
  live : PeerId → Bool
  active : PeerId → TopicHash → Bool

namespace Score

variable {R : Type} [Double R] {scores : Score R} {peerId other : PeerId} {topic otherTopic : TopicHash}

def standing (scores : Score R) : Standing where
  live peerId := (scores.peerStats.lookup peerId).any fun stats => stats.expiresAt.isNone
  active peerId topic := ((scores.peerStats.lookup peerId).bind fun stats => stats.topics.lookup topic).any
    fun stats => stats.meshActive.isSome

/-- A change of one record that keeps its expiration and where it is active. -/
theorem standing_modifyPeer {change : PeerStats R → PeerStats R}
    (expires : ∀ stats, (change stats).expiresAt = stats.expiresAt)
    (topics : ∀ stats, (change stats).topics = stats.topics) :
    (scores.modifyPeer peerId change).standing = scores.standing := by
  ext other : 2
  · simp only [standing, modifyPeer, UnorderedMap.lookup_modify]
    split_ifs with same
    · rw [same, Option.any_map]
      simp only [expires]
    · rfl
  · funext topic
    simp only [standing, modifyPeer, UnorderedMap.lookup_modify]
    split_ifs with same
    · rw [same, Option.bind_map]
      simp only [Function.comp_def, topics]
    · rfl

section Topics

variable {change : TopicStats R → TopicStats R}

theorem live_modifyTopic : (scores.modifyTopic peerId topic change).standing.live = scores.standing.live := by
  funext other
  simp only [standing, modifyTopic, modifyPeer, UnorderedMap.lookup_modify]
  split_ifs with same
  · rw [same, Option.any_map]
    congr 1
    funext stats
    split <;> rfl
  · rfl

/-- The topic's statistics are created on demand before they are changed. -/
theorem active_modifyTopic : (scores.modifyTopic peerId topic change).standing.active other otherTopic =
    if other = peerId ∧ otherTopic = topic then
      ((scores.peerStats.lookup peerId).bind fun stats => scores.statsOrDefault stats topic).any
        fun stats => (change stats).meshActive.isSome
    else scores.standing.active other otherTopic := by
  simp only [standing, modifyTopic, modifyPeer, UnorderedMap.lookup_modify]
  by_cases same : other = peerId
  · subst same
    rw [if_pos rfl, Option.bind_map]
    cases found : scores.peerStats.lookup other with
    | none => simp
    | some stats =>
      simp only [Option.bind_some, Function.comp_apply]
      cases known : scores.statsOrDefault stats topic with
      | none =>
        by_cases here : otherTopic = topic
        · subst here
          have absent : stats.topics.lookup otherTopic = none := by
            unfold statsOrDefault at known
            split at known
            · cases known
            · assumption
          simp [absent]
        · simp [here]
      | some topicStats =>
        rw [UnorderedMap.lookup_insert_eq]
        by_cases here : otherTopic = topic <;> simp [here]
  · simp [same]

/-- Statistics that are created on demand are not active. -/
theorem any_statsOrDefault : ((scores.peerStats.lookup peerId).bind fun stats => scores.statsOrDefault stats topic).any
    (fun stats => stats.meshActive.isSome) = scores.standing.active peerId topic := by
  simp only [standing, statsOrDefault]
  cases scores.peerStats.lookup peerId with
  | none => rfl
  | some stats =>
    dsimp only [Option.bind_some]
    cases stats.topics.lookup topic with
    | none => split_ifs <;> rfl
    | some topicStats => rfl

/-- A change that does not decide whether the peer is active. -/
theorem standing_modifyTopic (kept : ∀ stats, (change stats).meshActive.isSome = stats.meshActive.isSome) :
    (scores.modifyTopic peerId topic change).standing = scores.standing := by
  ext other : 2
  · rw [live_modifyTopic]
  · funext otherTopic
    rw [active_modifyTopic]
    split_ifs with here
    · simp only [kept, here.1, here.2]
      exact any_statsOrDefault
    · rfl

end Topics

section Operations

theorem standing_addPenalty {count : ℕ} : (scores.addPenalty peerId count).standing = scores.standing :=
  standing_modifyPeer (fun _ => rfl) fun _ => rfl

/-- A live peer becomes active in a topic that has score parameters. -/
theorem standing_graft {now : Time} : (scores.graft peerId topic now).standing.live = scores.standing.live ∧
    ∀ other otherTopic, (scores.graft peerId topic now).standing.active other otherTopic =
      if other = peerId ∧ otherTopic = topic then
        ((scores.peerStats.lookup peerId).bind fun stats => scores.statsOrDefault stats topic).isSome
      else scores.standing.active other otherTopic := by
  refine ⟨live_modifyTopic, fun other otherTopic => ?_⟩
  rw [graft, active_modifyTopic]
  simp only [Option.isSome_some, Option.any_true]

theorem standing_prune : (scores.prune peerId topic).standing.live = scores.standing.live ∧
    ∀ other otherTopic, (scores.prune peerId topic).standing.active other otherTopic =
      (scores.standing.active other otherTopic && ! decide (other = peerId ∧ otherTopic = topic)) := by
  refine ⟨live_modifyTopic, fun other otherTopic => ?_⟩
  rw [prune, active_modifyTopic]
  split_ifs with here
  · simp [here]
  · simp [here]

theorem standing_markFirstMessageDelivery :
    (scores.markFirstMessageDelivery peerId topic).standing = scores.standing := by
  refine standing_modifyTopic fun stats => ?_
  split <;> rfl

theorem standing_markDuplicateMessageDelivery {validatedTime : Option Time} {now : Time} :
    (scores.markDuplicateMessageDelivery peerId topic validatedTime now).standing = scores.standing := by
  refine standing_modifyTopic fun stats => ?_
  split_ifs
  · split
    · split_ifs <;> rfl
    · rfl
  · rfl

theorem standing_markInvalidMessageDelivery :
    (scores.markInvalidMessageDelivery peerId topic).standing = scores.standing :=
  standing_modifyTopic fun _ => rfl

variable {messageId : MessageId} {now later : Time}

theorem standing_record : (scores.record messageId now).1.standing = scores.standing := rfl

theorem standing_modifyRecord {change : DeliveryRecord → DeliveryRecord} :
    (scores.modifyRecord messageId change).standing = scores.standing := rfl

theorem standing_duplicateMessage :
    (scores.duplicateMessage peerId messageId topic now later).standing = scores.standing := by
  unfold duplicateMessage
  dsimp only
  split_ifs
  · exact standing_record
  · split
    · rw [standing_modifyRecord, standing_record]
    · rw [standing_markDuplicateMessageDelivery, standing_modifyRecord, standing_record]
    · rw [standing_markInvalidMessageDelivery, standing_record]
    · exact standing_record

theorem standing_deliverMessage :
    (scores.deliverMessage peerId messageId topic now later).standing = scores.standing := by
  have marked : ∀ (peers : List PeerId) (scores : Score R), (peers.foldl (fun scores peer =>
      if peer ≠ peerId then scores.markDuplicateMessageDelivery peer topic none later else scores)
      scores).standing = scores.standing := by
    refine fun _ _ => foldl_field standing fun scores peer => ?_
    split_ifs
    · exact standing_markDuplicateMessageDelivery
    · rfl
  unfold deliverMessage
  dsimp only
  split_ifs
  · rw [standing_record, standing_markFirstMessageDelivery]
  · rw [marked, standing_modifyRecord, standing_record, standing_markFirstMessageDelivery]

theorem standing_connect : (∀ other, (scores.connect peerId).standing.live other =
      (decide (other = peerId) || scores.standing.live other)) ∧
    (scores.connect peerId).standing.active = scores.standing.active := by
  refine ⟨fun other => ?_, ?_⟩
  · simp only [standing, connect, UnorderedMap.lookup_insert_eq]
    by_cases same : other = peerId <;> simp [same]
  · funext other otherTopic
    simp only [standing, connect, UnorderedMap.lookup_insert_eq]
    split_ifs with same
    · rw [same]
      cases scores.peerStats.lookup peerId <;> rfl
    · rfl

theorem lookup_mapTopics {topics : UnorderedMap TopicHash (TopicStats R)}
    {change : Option (TopicScoreParams R) → TopicStats R → TopicStats R} :
    (scores.mapTopics topics change).lookup topic =
      (topics.lookup topic).map (change (scores.params.topics.lookup topic)) := by
  unfold mapTopics
  rw [UnorderedMap.lookup_foldl_modify topics.keys_nodup fun topic => change (scores.params.topics.lookup topic)]
  split_ifs with known
  · rfl
  · have absent : topics.lookup topic = none := AList.lookup_eq_none.mpr fun present => known (AList.mem_keys.mp present)
    rw [absent]
    rfl

/-- A record that is disconnected is no longer live and active nowhere. -/
theorem standing_disconnect :
    (∀ other, (scores.disconnect peerId now).standing.live other =
      (scores.standing.live other && ! decide (other = peerId))) ∧
    ∀ other otherTopic, (scores.disconnect peerId now).standing.active other otherTopic =
      (scores.standing.active other otherTopic && ! decide (other = peerId)) := by
  unfold disconnect
  cases found : scores.peerStats.lookup peerId with
  | none =>
    refine ⟨fun other => ?_, fun other otherTopic => ?_⟩ <;>
    · simp only [standing]
      by_cases same : other = peerId
      · subst same
        simp [found]
      · simp [same]
  | some stats =>
    dsimp only
    split_ifs
    · refine ⟨fun other => ?_, fun other otherTopic => ?_⟩ <;>
      · simp only [standing, UnorderedMap.lookup_erase_eq]
        by_cases same : other = peerId <;> simp [same]
    · refine ⟨fun other => ?_, fun other otherTopic => ?_⟩
      · simp only [standing, UnorderedMap.lookup_insert_eq]
        by_cases same : other = peerId <;> simp [same]
      · simp only [standing, UnorderedMap.lookup_insert_eq]
        by_cases same : other = peerId
        · simp only [same, if_pos, Option.bind_some, lookup_mapTopics]
          cases stats.topics.lookup otherTopic <;> simp [leaveTopic]
        · simp [same]

/-- A decay interval keeps live records where they are, and does not make the others active. -/
theorem standing_decayPeer : (scores.decayPeer now peerId).standing.live = scores.standing.live ∧
    ∀ other otherTopic, ((scores.decayPeer now peerId).standing.active other otherTopic →
      scores.standing.active other otherTopic) ∧ (scores.standing.live other →
      (scores.decayPeer now peerId).standing.active other otherTopic = scores.standing.active other otherTopic) := by
  unfold decayPeer
  cases found : scores.peerStats.lookup peerId with
  | none => exact ⟨rfl, fun _ _ => ⟨id, fun _ => rfl⟩⟩
  | some stats =>
    dsimp only
    split
    · next expiresAt waiting =>
      split_ifs
      · refine ⟨funext fun other => ?_, fun other otherTopic => ?_⟩ <;>
        · simp only [standing, UnorderedMap.lookup_erase_eq]
          by_cases same : other = peerId
          · subst same
            simp [found, waiting]
          · simp [same]
      · exact ⟨rfl, fun _ _ => ⟨id, fun _ => rfl⟩⟩
    · next connected =>
      have kept : ∀ otherTopic, ((scores.mapTopics stats.topics (scores.decayTopic now)).lookup otherTopic).any
          (fun stats => stats.meshActive.isSome) =
          (stats.topics.lookup otherTopic).any fun stats => stats.meshActive.isSome := by
        intro otherTopic
        rw [lookup_mapTopics, Option.any_map]
        congr 1
        funext stats
        simp only [decayTopic]
        split <;> simp
      refine ⟨funext fun other => ?_, fun other otherTopic => ?_⟩
      · simp only [standing, UnorderedMap.lookup_insert_eq]
        by_cases same : other = peerId
        · subst same
          simp [found, connected]
        · simp [same]
      · simp only [standing, UnorderedMap.lookup_insert_eq]
        by_cases same : other = peerId
        · subst same
          simp [found, kept]
        · simp [same]

theorem standing_onDecay : (scores.onDecay now).standing.live = scores.standing.live ∧
    ∀ other otherTopic, ((scores.onDecay now).standing.active other otherTopic →
      scores.standing.active other otherTopic) ∧ (scores.standing.live other →
      (scores.onDecay now).standing.active other otherTopic = scores.standing.active other otherTopic) := by
  unfold onDecay
  generalize scores.peerStats.keys = keys
  induction keys generalizing scores with
  | nil => exact ⟨rfl, fun _ _ => ⟨id, fun _ => rfl⟩⟩
  | cons first rest ih =>
    obtain ⟨live, active⟩ := @standing_decayPeer R _ scores first now
    obtain ⟨live', active'⟩ := @ih (scores.decayPeer now first)
    refine ⟨live'.trans live, fun other otherTopic => ⟨?_, ?_⟩⟩
    · exact fun later => (active other otherTopic).1 ((active' other otherTopic).1 later)
    · intro alive
      rw [← live] at alive
      rw [List.foldl_cons, (active' other otherTopic).2 alive]
      exact (active other otherTopic).2 (live ▸ alive)

end Operations

end Score

/-- Two registered objects with one id are the same. -/
theorem Roster.Active.eq {roster : Roster} {peer other : PeerPtr} (first : roster.Active peer)
    (second : roster.Active other) (same : roster.identity other = roster.identity peer) : other = peer := by
  rw [Roster.Active, same, first] at second
  exact (Option.some.inj second).symm

/-- Live records belong to registered peers, and a registered peer is active where it is in the mesh of a subscribed
topic. -/
structure Mirrored (scored : TopicHash → Prop) (roster : Roster) (kinds : TopicHash → Option Bool)
    (standing : Standing) : Prop where
  live_iff : ∀ peerId, standing.live peerId ↔ (roster.registered peerId).isSome
  alive : ∀ peerId topicHash, standing.active peerId topicHash → standing.live peerId
  mesh_iff : ∀ topicHash, scored topicHash → ∀ peer, roster.Active peer →
    (standing.active (roster.identity peer) topicHash ↔ kinds topicHash = some false ∧ peer ∈ roster.mesh topicHash)

namespace Mirrored

variable {scored : TopicHash → Prop} {roster after : Roster} {kinds kinds' : TopicHash → Option Bool}
  {standing standing' : Standing} {peer : PeerPtr} {topicHash : TopicHash}

/-- The scores stay, and so do registrations and the meshes of subscribed topics. -/
theorem frame (mirrored : Mirrored scored roster kinds standing) (registered : after.registered = roster.registered)
    (identity : after.identity = roster.identity)
    (meshes : ∀ topicHash peer, (kinds' topicHash = some false ∧ peer ∈ after.mesh topicHash) ↔
      (kinds topicHash = some false ∧ peer ∈ roster.mesh topicHash)) : Mirrored scored after kinds' standing := by
  refine ⟨?_, mirrored.alive, ?_⟩
  · rw [registered]
    exact mirrored.live_iff
  · intro topicHash named peer active
    rw [meshes, identity]
    refine mirrored.mesh_iff topicHash named peer ?_
    rwa [Roster.Active, registered, identity] at active

/-- A registered peer enters the mesh of a subscribed topic and becomes active there. -/
theorem enters (mirrored : Mirrored scored roster kinds standing) (active : roster.Active peer)
    (subscribed : kinds topicHash = some false) (live : standing'.live = standing.live)
    (others : ∀ peerId other, ¬ (peerId = roster.identity peer ∧ other = topicHash) →
      standing'.active peerId other = standing.active peerId other)
    (this : scored topicHash → standing'.active (roster.identity peer) topicHash) :
    Mirrored scored (roster.withMesh topicHash (insert peer (roster.mesh topicHash))) kinds standing' := by
  have alive : standing.live (roster.identity peer) := (mirrored.live_iff _).mpr (by rw [active]; rfl)
  refine ⟨?_, ?_, ?_⟩
  · rw [live]
    exact mirrored.live_iff
  · intro peerId other isActive
    rw [live]
    by_cases here : peerId = roster.identity peer ∧ other = topicHash
    · rw [here.1]
      exact alive
    · rw [others peerId other here] at isActive
      exact mirrored.alive peerId other isActive
  · intro other named candidate registered
    change standing'.active (roster.identity candidate) other ↔ _
    have known := mirrored.mesh_iff other named candidate registered
    simp only [Roster.withMesh, Roster.mem_update, Set.mem_insert_iff]
    by_cases here : roster.identity candidate = roster.identity peer ∧ other = topicHash
    · obtain ⟨same, rfl⟩ := here
      have equal : candidate = peer := active.eq registered same
      subst equal
      simp [this named, subscribed]
    · rw [others _ _ here, known]
      by_cases where_ : other = topicHash
      · have different : candidate ≠ peer := by
          rintro rfl
          exact here ⟨rfl, where_⟩
        subst where_
        simp [different]
      · simp [where_]

/-- A registered peer leaves a mesh, or was not in it, and is not active there afterwards. -/
theorem exits (mirrored : Mirrored scored roster kinds standing) (active : roster.Active peer)
    (live : standing'.live = standing.live)
    (pruned : ∀ peerId other, standing'.active peerId other =
      (standing.active peerId other && ! decide (peerId = roster.identity peer ∧ other = topicHash))) :
    Mirrored scored (roster.withMesh topicHash (roster.mesh topicHash \ {peer})) kinds standing' := by
  refine ⟨?_, ?_, ?_⟩
  · rw [live]
    exact mirrored.live_iff
  · intro peerId other isActive
    rw [pruned, Bool.and_eq_true] at isActive
    rw [live]
    exact mirrored.alive peerId other isActive.1
  · intro other named candidate registered
    change standing'.active (roster.identity candidate) other ↔ _
    have known := mirrored.mesh_iff other named candidate registered
    rw [pruned, Bool.and_eq_true, known]
    simp only [Roster.withMesh, Roster.mem_update, Set.mem_sdiff, Set.mem_singleton_iff, Bool.not_eq_true',
      decide_eq_false_iff_not, not_and]
    have only : roster.identity candidate = roster.identity peer ↔ candidate = peer :=
      ⟨active.eq registered, fun same => by rw [same]⟩
    rw [only]
    by_cases where_ : other = topicHash
    · subst where_
      simp [and_assoc]
    · simp [where_]

/-- A peer that is registered has been active nowhere, as its record was not live. -/
theorem connects {peerId : PeerId} (mirrored : Mirrored scored roster kinds standing)
    (sound : roster.Sound) (absent : roster.registered peerId = none)
    (live : ∀ other, standing'.live other = (decide (other = peerId) || standing.live other))
    (active : standing'.active = standing.active)
    (registered : after.registered = Function.update roster.registered peerId (some roster.allocated))
    (identity : after.identity = Function.update roster.identity roster.allocated peerId)
    (mesh : after.mesh = roster.mesh) : Mirrored scored after kinds standing' := by
  refine ⟨?_, ?_, ?_⟩
  · intro other
    rw [live, registered, Bool.or_eq_true, decide_eq_true_eq, Function.update_apply]
    split_ifs with same
    · simp [same]
    · rw [mirrored.live_iff]
      simp [same]
  · intro other topicHash isActive
    rw [active] at isActive
    rw [live, mirrored.alive other topicHash isActive, Bool.or_true]
  · intro topicHash named candidate isActive
    rw [Roster.Active, registered, identity] at isActive
    rw [active, identity, mesh]
    by_cases new : candidate = roster.allocated
    · subst new
      rw [Function.update_self]
      constructor
      · intro wasActive
        have wasLive := (mirrored.live_iff peerId).mp (mirrored.alive peerId topicHash wasActive)
        rw [absent] at wasLive
        cases wasLive
      · rintro ⟨-, member⟩
        have bound := sound.allocated topicHash _ (sound.inside topicHash _ member).1
        exact absurd bound (lt_irrefl _)
    · rw [Function.update_of_ne new] at isActive ⊢
      refine mirrored.mesh_iff topicHash named candidate ?_
      by_cases same : roster.identity candidate = peerId
      · rw [same, Function.update_self] at isActive
        exact absurd (Option.some.inj isActive).symm new
      · rwa [Function.update_of_ne same] at isActive

/-- A peer that is disconnected loses its registration and its record, and the meshes of the others stay. -/
theorem disconnects {peerId : PeerId} (mirrored : Mirrored scored roster kinds standing)
    (live : ∀ other, standing'.live other = (standing.live other && ! decide (other = peerId)))
    (active : ∀ other topicHash, standing'.active other topicHash =
      (standing.active other topicHash && ! decide (other = peerId)))
    (registered : after.registered = Function.update roster.registered peerId none)
    (identity : after.identity = roster.identity)
    (meshes : ∀ topicHash peer, roster.identity peer ≠ peerId → roster.Active peer →
      (peer ∈ after.mesh topicHash ↔ peer ∈ roster.mesh topicHash)) : Mirrored scored after kinds standing' := by
  refine ⟨?_, ?_, ?_⟩
  · intro other
    rw [live, registered, Function.update_apply, Bool.and_eq_true, mirrored.live_iff]
    by_cases same : other = peerId <;> simp [same]
  · intro other topicHash isActive
    rw [active, Bool.and_eq_true] at isActive
    rw [live, mirrored.alive other topicHash isActive.1]
    exact isActive.2
  · intro topicHash named candidate isActive
    rw [Roster.Active, registered, identity] at isActive
    have different : roster.identity candidate ≠ peerId := by
      intro same
      rw [same, Function.update_self] at isActive
      cases isActive
    rw [Function.update_of_ne different] at isActive
    rw [active, identity, meshes topicHash candidate different isActive, Bool.and_eq_true]
    simp only [different, decide_false, Bool.not_false, and_true]
    exact mirrored.mesh_iff topicHash named candidate isActive

/-- Decay keeps what is live. -/
theorem decays (mirrored : Mirrored scored roster kinds standing) (live : standing'.live = standing.live)
    (active : ∀ peerId topicHash, (standing'.active peerId topicHash → standing.active peerId topicHash) ∧
      (standing.live peerId → standing'.active peerId topicHash = standing.active peerId topicHash)) :
    Mirrored scored roster kinds standing' := by
  refine ⟨?_, ?_, ?_⟩
  · rw [live]
    exact mirrored.live_iff
  · intro peerId topicHash isActive
    rw [live]
    exact mirrored.alive peerId topicHash ((active peerId topicHash).1 isActive)
  · intro topicHash named peer isActive
    have alive : standing.live (roster.identity peer) := (mirrored.live_iff _).mpr (by rw [isActive]; rfl)
    rw [(active _ topicHash).2 alive]
    exact mirrored.mesh_iff topicHash named peer isActive

end Mirrored

variable {R : Type} [Double R] {env : Env R} {event : Event} {state before after : State R}

/-- Whether a topic exists and is publish-only. -/
def State.kinds (state : State R) (topicHash : TopicHash) : Option Bool :=
  (state.topics.lookup topicHash).map Topic.publishOnly

/-- The scores have the configured parameters and mirror the meshes. -/
structure State.Mirrors (env : Env R) (state : State R) : Prop where
  params : state.score.params = env.config.score
  mirrored : Mirrored (· ∈ env.config.score.topics) state.roster state.kinds state.score.standing

namespace State.Mirrors

variable {topicHash : TopicHash} {peer : PeerPtr}

/-- Nothing that matters has changed. -/
theorem same (mirrors : before.Mirrors env) (roster : after.roster = before.roster) (kinds : after.kinds = before.kinds)
    (score : after.score = before.score) : after.Mirrors env := by
  refine ⟨by rw [score]; exact mirrors.params, ?_⟩
  rw [roster, kinds, score]
  exact mirrors.mirrored

/-- Only counters of the scores have changed. -/
theorem counted (mirrors : before.Mirrors env) (roster : after.roster = before.roster)
    (kinds : after.kinds = before.kinds) (params : after.score.params = before.score.params)
    (standing : after.score.standing = before.score.standing) : after.Mirrors env := by
  refine ⟨params.trans mirrors.params, ?_⟩
  rw [roster, kinds, standing]
  exact mirrors.mirrored

/-- The scores stay, and so do the meshes of subscribed topics. -/
theorem framed (mirrors : before.Mirrors env) (score : after.score = before.score)
    (registered : after.roster.registered = before.roster.registered)
    (identity : after.roster.identity = before.roster.identity)
    (meshes : ∀ topicHash peer, (after.kinds topicHash = some false ∧ peer ∈ after.roster.mesh topicHash) ↔
      (before.kinds topicHash = some false ∧ peer ∈ before.roster.mesh topicHash)) : after.Mirrors env := by
  refine ⟨by rw [score]; exact mirrors.params, ?_⟩
  rw [score]
  exact mirrors.mirrored.frame registered identity meshes

/-- A registered peer enters the mesh of a subscribed topic. -/
theorem entered (mirrors : before.Mirrors env) (active : before.roster.Active peer)
    (subscribed : before.kinds topicHash = some false)
    (roster : after.roster = before.roster.withMesh topicHash (insert peer (before.roster.mesh topicHash)))
    (kinds : after.kinds = before.kinds) {now : Time}
    (score : after.score = before.score.graft (before.heap peer).peerId topicHash now) : after.Mirrors env := by
  refine ⟨by rw [score]; exact mirrors.params, ?_⟩
  obtain ⟨live, grafted⟩ := @Score.standing_graft R _ before.score (before.heap peer).peerId topicHash now
  rw [roster, kinds, score]
  refine mirrors.mirrored.enters active subscribed live ?_ ?_
  · intro peerId other elsewhere
    exact (grafted peerId other).trans (if_neg elsewhere)
  · intro named
    -- The record is live, so it exists, and a topic with parameters gets statistics on demand.
    have alive : before.score.standing.live (before.roster.identity peer) :=
      (mirrors.mirrored.live_iff _).mpr (by rw [active]; rfl)
    obtain ⟨stats, found, -⟩ : ∃ stats, before.score.peerStats.lookup (before.heap peer).peerId = some stats ∧ _ :=
      (Option.any_eq_true _ _).mp alive
    change (before.score.graft _ topicHash now).standing.active (before.heap peer).peerId topicHash
    rw [grafted, if_pos ⟨rfl, rfl⟩, found, Option.bind_some, Score.statsOrDefault]
    split
    · rfl
    · rw [mirrors.params, if_pos named]
      rfl

/-- A registered peer leaves a mesh and is pruned from it. -/
theorem exited (mirrors : before.Mirrors env) (topicHash : TopicHash) (active : before.roster.Active peer)
    (roster : after.roster = before.roster.withMesh topicHash (before.roster.mesh topicHash \ {peer}))
    (kinds : after.kinds = before.kinds)
    (score : after.score = before.score.prune (before.heap peer).peerId topicHash) : after.Mirrors env := by
  refine ⟨by rw [score]; exact mirrors.params, ?_⟩
  obtain ⟨live, pruned⟩ := @Score.standing_prune R _ before.score (before.heap peer).peerId topicHash
  rw [roster, kinds, score]
  exact mirrors.mirrored.exits active live pruned

end State.Mirrors

section Updates

variable {topicHash : TopicHash} {peer : PeerPtr}

theorem kinds_modifyTopic {change : Topic → Topic} (kept : ∀ topic, (change topic).publishOnly = topic.publishOnly) :
    (state.modifyTopic topicHash change).kinds = state.kinds :=
  funext fun _ => modifyTopic_field Topic.publishOnly kept

theorem kinds_enqueue {op : BatchOp} : (state.enqueue peer op).kinds = state.kinds := by
  unfold State.kinds
  rw [(enqueue_frame peer op state).1]

theorem kinds_makePrune : (state.makePrune env topicHash peer).kinds = state.kinds :=
  funext fun _ => makePrune_field topicHash peer state Topic.publishOnly fun _ _ => rfl

theorem kinds_removePeerFromMesh {backoff : Option Backoff} {always : Bool} :
    (state.removePeerFromMesh env topicHash peer backoff always).kinds = state.kinds :=
  funext fun _ => removePeerFromMesh_field topicHash peer state Topic.publishOnly fun _ _ _ => rfl

theorem score_graft : (state.graft env topicHash peer).score =
    state.score.graft (state.heap peer).peerId topicHash (state.now env) := by
  unfold graft
  rw [(enqueue_frame _ _ _).2.2.2.2.2.1]
  split
  · split_ifs <;> rfl
  · rfl

theorem kinds_graft : (state.graft env topicHash peer).kinds = state.kinds := by
  unfold State.kinds
  rw [graft_topics]
  exact kinds_modifyTopic fun _ => rfl

/-- Only a gossipsub peer is told that it left the mesh. -/
theorem score_makePrune : (state.makePrune env topicHash peer).score =
    if (state.heap peer).isGossipsub then state.score.prune (state.heap peer).peerId topicHash else state.score := by
  unfold makePrune
  dsimp only
  split_ifs
  · rw [(enqueue_frame _ _ _).2.2.2.2.2.1]
    rfl
  · rw [(enqueue_frame _ _ _).2.2.2.2.2.1]
    rfl
  · rfl

theorem score_removePeerFromMesh {backoff : Option Backoff} {always : Bool} :
    (state.removePeerFromMesh env topicHash peer backoff always).score =
      if peer ∈ state.meshOf topicHash then state.score.prune (state.heap peer).peerId topicHash else state.score := by
  unfold removePeerFromMesh
  split
  · next absent => rw [meshOf_eq, absent, if_neg (by simp)]
  · next topic found =>
    rw [meshOf_of_lookup found]
    dsimp only
    split_ifs <;> rfl

theorem kinds_leaveTopic : (state.leaveTopic env peer topicHash).kinds = state.kinds :=
  kinds_removePeerFromMesh.trans (kinds_modifyTopic fun _ => rfl)

theorem score_leaveTopic : (state.leaveTopic env peer topicHash).score =
    if peer ∈ state.meshOf topicHash then state.score.prune (state.heap peer).peerId topicHash else state.score := by
  have identity : ((state.modifyPeer peer fun peer => { peer with topics := peer.topics.erase topicHash }).heap
      peer).peerId = (state.heap peer).peerId := modifyPeer_field Peer.peerId (by rfl)
  have mesh : ((state.modifyPeer peer fun peer => { peer with topics := peer.topics.erase topicHash }).modifyTopic
      topicHash fun topic => { topic with peers := topic.peers.erase peer }).meshOf topicHash =
      state.meshOf topicHash := by
    rw [meshOf_eq, modifyTopic_field Topic.meshPeers (by exact fun _ => rfl)]
    rfl
  unfold State.leaveTopic
  rw [score_removePeerFromMesh, mesh]
  simp only [modifyTopic, identity]
  rfl

/-- A registered peer unsubscribes from a topic. -/
theorem State.Mirrors.left (mirrors : state.Mirrors env) (active : state.roster.Active peer) :
    (state.leaveTopic env peer topicHash).Mirrors env := by
  have score := @score_leaveTopic R _ env state topicHash peer
  by_cases member : peer ∈ state.meshOf topicHash
  · rw [if_pos member] at score
    refine ⟨by rw [score]; exact mirrors.params, ?_⟩
    obtain ⟨live, pruned⟩ := @Score.standing_prune R _ state.score (state.heap peer).peerId topicHash
    rw [score, kinds_leaveTopic, roster_leaveTopic]
    exact (mirrors.mirrored.exits active live pruned).frame rfl rfl fun _ _ => .rfl
  · rw [if_neg member] at score
    have outside : state.roster.mesh topicHash \ {peer} = state.roster.mesh topicHash :=
      Set.sdiff_singleton_eq_self member
    refine ⟨by rw [score]; exact mirrors.params, ?_⟩
    rw [score, kinds_leaveTopic, roster_leaveTopic, outside]
    refine mirrors.mirrored.frame rfl rfl fun other candidate => ?_
    simp only [Roster.withMesh, Roster.withMembers, Roster.withAnnounced, Function.update_eq_self]

/-- A peer that is removed from a mesh is pruned if it was there. -/
theorem State.Mirrors.removed {backoff : Option Backoff} {always : Bool} (mirrors : state.Mirrors env)
    (active : peer ∈ state.meshOf topicHash → state.roster.Active peer) :
    (state.removePeerFromMesh env topicHash peer backoff always).Mirrors env := by
  by_cases member : peer ∈ state.meshOf topicHash
  · refine mirrors.exited topicHash (active member) roster_removePeerFromMesh kinds_removePeerFromMesh ?_
    rw [score_removePeerFromMesh, if_pos member]
  · have outside : state.roster.mesh topicHash \ {peer} = state.roster.mesh topicHash :=
      Set.sdiff_singleton_eq_self member
    refine mirrors.same ?_ kinds_removePeerFromMesh (by rw [score_removePeerFromMesh, if_neg member])
    rw [roster_removePeerFromMesh, outside, Roster.withMesh_self]

end Updates

section Parameters

variable {scores : Score R} {peerId : PeerId} {topic : TopicHash} {messageId : MessageId} {now later : Time}

theorem Score.params_duplicateMessage :
    (scores.duplicateMessage peerId messageId topic now later).params = scores.params := by
  unfold Score.duplicateMessage
  dsimp only
  split_ifs
  · rfl
  · split <;> rfl

theorem Score.params_deliverMessage :
    (scores.deliverMessage peerId messageId topic now later).params = scores.params := by
  unfold Score.deliverMessage
  dsimp only
  split_ifs
  · rfl
  · refine (foldl_field Score.params fun scores peer => ?_).trans rfl
    split_ifs <;> rfl

theorem Score.params_disconnect : (scores.disconnect peerId now).params = scores.params := by
  unfold Score.disconnect
  split
  · rfl
  · dsimp only
    split_ifs <;> rfl

theorem Score.params_decayPeer : (scores.decayPeer now peerId).params = scores.params := by
  unfold Score.decayPeer
  split
  · rfl
  · dsimp only
    split
    · split_ifs <;> rfl
    · rfl

theorem Score.params_onDecay : (scores.onDecay now).params = scores.params :=
  foldl_field Score.params fun _ _ => Score.params_decayPeer

end Parameters

theorem score_deliver {peer : PeerPtr} {messageId : MessageId} {message : Message} {now later : Time} :
    (state.deliver env peer messageId message now later).score =
      (state.score.validateMessage messageId (state.now env)).deliverMessage (state.heap peer).peerId messageId
        message.topic (state.tick.now env) (state.tick.tick.now env) := by
  simp only [deliver, startBroadcast, cacheMessage, record, modifyScore, tick, modifyTopic, State.now]

theorem Ledger.mirrors (ledger : Ledger env event before after) (mirrors : before.Mirrors env) : after.Mirrors env := by
  cases ledger with
  | penalized peerId count => exact mirrors.counted (roster_record (by simp)) rfl rfl Score.standing_addPenalty
  | decayed =>
    obtain ⟨live, active⟩ := @Score.standing_onDecay R _ before.score (before.now env)
    exact ⟨Score.params_onDecay.trans mirrors.params, mirrors.mirrored.decays live active⟩
  | duplicated peer messageId topicHash =>
    refine mirrors.counted ?_ ?_ ?_ ?_
    · simp only [countDuplicate, roster_tick, roster_modifyScore]
    · rw [countDuplicate_eq]
      rfl
    · rw [countDuplicate_eq]
      exact Score.params_duplicateMessage
    · rw [countDuplicate_eq]
      exact Score.standing_duplicateMessage
  | _ => exact mirrors.same rfl rfl rfl

/-- The meshes of publish-only topics do not matter. -/
theorem State.Mirrors.fanout {topicHash : TopicHash} {change : Topic → Topic} (mirrors : state.Mirrors env)
    (kept : ∀ topic, (change topic).publishOnly = topic.publishOnly)
    (only : ∀ topic, state.topics.lookup topicHash = some topic → topic.publishOnly = false →
      (change topic).meshPeers = topic.meshPeers) : (state.modifyTopic topicHash change).Mirrors env := by
  refine mirrors.framed rfl rfl rfl ?_
  intro other peer
  rw [kinds_modifyTopic kept]
  refine and_congr_right fun subscribed => ?_
  change peer ∈ (state.modifyTopic topicHash change).meshOf other ↔ peer ∈ state.meshOf other
  rw [meshOf_eq, meshOf_eq, lookup_modifyTopic]
  split_ifs with same
  · subst same
    obtain ⟨topic, found, isSubscribed⟩ := Option.map_eq_some_iff.mp subscribed
    rw [found, Option.map_some, Option.map_some, Option.map_some, only topic found isSubscribed]
  · rfl

theorem kinds_announceUpgrade {topicHash other : TopicHash} (different : other ≠ topicHash) :
    (state.announceUpgrade topicHash).kinds other = state.kinds other := by
  have announced : ∀ (peers : List PeerPtr) (state : State R),
      (peers.foldl (fun state peer => state.enqueue peer (.subscribe topicHash true)) state).topics = state.topics :=
    fun _ _ => foldl_field State.topics fun state peer => (enqueue_frame peer _ state).1
  unfold State.kinds announceUpgrade
  rw [lookup_modifyTopic, if_neg different]
  dsimp only
  rw [announced, lookup_modifyTopic, if_neg different]

/-- A publish-only topic that expires has no mesh that matters. -/
theorem State.Mirrors.expired {topicHash : TopicHash} (mirrors : state.Mirrors env) :
    (state.expireTopic env topicHash).Mirrors env := by
  unfold expireTopic
  split
  · exact mirrors
  · next topic found =>
    split_ifs with publishOnly early
    · exact mirrors.same rfl rfl rfl
    · refine mirrors.framed rfl rfl rfl fun other peer => ?_
      simp only [State.kinds, roster, Set.mem_ofPred, meshOf_eq, UnorderedMap.lookup_erase_eq]
      by_cases same : other = topicHash
      · subst same
        simp [found, publishOnly]
      · simp [same]
    · exact mirrors

/-- A peer that is disconnected loses its registration; the meshes keep every other peer. -/
theorem State.Mirrors.disconnected {peerId : PeerId} (mirrors : state.Mirrors env) (identity : ∀ peerId peer,
    state.roster.registered peerId = some peer → state.roster.identity peer = peerId) :
    (state.onPeerDisconnected env peerId).Mirrors env := by
  obtain ⟨live, active⟩ := @Score.standing_disconnect R _ state.score peerId (state.now env)
  have score : (state.onPeerDisconnected env peerId).score = state.score.disconnect peerId (state.now env) := by
    rw [onPeerDisconnected_eq]
  refine ⟨by rw [score, Score.params_disconnect]; exact mirrors.params, ?_⟩
  rw [score]
  unfold onPeerDisconnected
  dsimp only
  split
  · next absent =>
    have unchanged : state.roster.registered = Function.update state.roster.registered peerId none := by
      rw [← show state.roster.registered peerId = none from absent, Function.update_eq_self]
    exact mirrors.mirrored.disconnects live active unchanged rfl fun _ _ _ _ => .rfl
  · next peer found =>
    set forgotten := (state.heap peer).topics.elements.foldl (forgetInTopic peer)
      (state.modifyScore fun score => score.disconnect peerId (state.now env)).tick with forgetting
    have roster : forgotten.roster = { state.roster with
        members := fun topicHash => { other | other ∈ state.roster.members topicHash ∧
          (topicHash ∈ (state.heap peer).topics.elements → other ≠ peer) }
        mesh := fun topicHash => { other | other ∈ state.roster.mesh topicHash ∧
          (topicHash ∈ (state.heap peer).topics.elements → other ≠ peer) } } := roster_forgetInTopics
    have kept : ∀ (state : State R) (topicHash : TopicHash), (forgetInTopic peer state topicHash).kinds = state.kinds :=
      fun state topicHash => kinds_modifyTopic fun _ => rfl
    have kinds : forgotten.kinds = state.kinds := foldl_field State.kinds kept
    change Mirrored _ { forgotten.roster with registered := fun other => (forgotten.peers.erase peerId).lookup other }
      forgotten.kinds _
    rw [kinds]
    have registered : (fun other => (forgotten.peers.erase peerId).lookup other) =
        Function.update state.roster.registered peerId none := by
      funext other
      have kept : forgotten.peers = state.peers := foldl_field State.peers fun _ _ => rfl
      rw [kept, UnorderedMap.lookup_erase_eq, Function.update_apply]
      rfl
    refine mirrors.mirrored.disconnects live active registered (by rw [roster]) ?_
    intro topicHash other different isActive
    rw [roster]
    refine ⟨fun member => member.1, fun member => ⟨member, fun _ same => different ?_⟩⟩
    rw [same]
    exact identity peerId peer found

/-- Every guarded update keeps the scores in line with the meshes, as long as frames come from registered peers. -/
theorem Micro.mirrors (micro : Micro env event before after) (sound : before.roster.Sound)
    (exact_ : before.roster.Exact event) (mirrors : before.Mirrors env) : after.Mirrors env := by
  have registered : ∀ topicHash, ∀ peer ∈ before.meshOf topicHash, before.roster.Active peer := by
    intro topicHash peer member
    have inside := (sound.inside topicHash peer member).1
    exact ((exact_.members_iff topicHash (sound.present topicHash peer inside) peer).mp inside).1
  have candidates : ∀ {topicHash publishOnly peer}, Candidate topicHash publishOnly peer before →
      before.roster.Active peer := fun candidate =>
    ((exact_.members_iff _ (sound.present _ _ candidate.member) _).mp candidate.member).1
  cases micro with
  | ledger ledger => exact ledger.mirrors mirrors
  | incidental topicHash only =>
    refine mirrors.same only.roster (kinds_modifyTopic ?_) rfl
    cases only <;> exact fun _ => rfl
  | inner peer only => exact mirrors.same only.roster rfl rfl
  | batched peer =>
    refine mirrors.same roster_getBatch ?_ (getBatch_frame peer before).2.2.2.2.2.1
    unfold State.kinds
    rw [(getBatch_frame peer before).1]
  | queued peer => exact mirrors.same roster_enqueue kinds_enqueue (enqueue_frame peer _ before).2.2.2.2.2.1
  | grafted topicHash peer candidate =>
    exact mirrors.entered (candidates candidate) candidate.kind (roster_graft candidate) kinds_graft score_graft
  | expelled topicHash peer member =>
    have erased : ((before.makePrune env topicHash peer).eraseFromMesh topicHash peer).kinds =
        (before.makePrune env topicHash peer).kinds := kinds_modifyTopic fun _ => rfl
    have capable := (sound.inside topicHash peer member).2
    refine mirrors.exited topicHash (registered topicHash peer member) ?_ ?_ ?_
    · rw [roster_eraseFromMesh, roster_makePrune]
    · exact erased.trans kinds_makePrune
    · exact score_makePrune.trans (if_pos capable)
  | cut topicHash peer member =>
    have erased : (before.eraseFromMesh topicHash peer).kinds = before.kinds := kinds_modifyTopic fun _ => rfl
    have capable := (sound.inside topicHash peer member).2
    refine mirrors.exited topicHash (registered topicHash peer member) ?_ ?_ ?_
    · rw [roster_makePrune, roster_eraseFromMesh]
    · exact kinds_makePrune.trans erased
    · exact score_makePrune.trans (if_pos capable)
  | refused topicHash peer outside source =>
    by_cases capable : (before.heap peer).isGossipsub
    · have absent : before.roster.mesh topicHash \ {peer} = before.roster.mesh topicHash :=
        Set.sdiff_singleton_eq_self outside
      refine mirrors.exited topicHash (exact_.sender peer _ source) ?_ kinds_makePrune (score_makePrune.trans (if_pos capable))
      rw [roster_makePrune, absent, Roster.withMesh_self]
    · exact mirrors.same roster_makePrune kinds_makePrune (score_makePrune.trans (if_neg capable))
  | joined topicHash peer candidate =>
    exact mirrors.entered (candidates candidate) candidate.kind (roster_acceptGraft candidate.present)
      (kinds_modifyTopic fun _ => rfl) rfl
  | announced topicHash source allocated =>
    refine mirrors.framed rfl (by rw [roster_addToTopic]; rfl) (by rw [roster_addToTopic]; rfl) ?_
    intro other peer
    rw [roster_addToTopic, addToTopic, kinds_modifyTopic (by exact fun _ => rfl)]
    rfl
  | left topicHash source => exact mirrors.left (exact_.sender _ _ source)
  | pruned topicHash peer backoff => exact mirrors.removed (registered topicHash peer)
  | fannedOut topicHash peer member capable =>
    refine mirrors.fanout ?_ ?_
    · intro topic
      split_ifs <;> rfl
    · intro topic found subscribed
      simp [subscribed]
  | trimmed topicHash keep kind =>
    refine mirrors.fanout (fun _ => rfl) ?_
    intro topic found subscribed
    rw [found, Option.map_some, subscribed] at kind
    cases kind
  | created topicHash publishOnly absent =>
    refine mirrors.framed rfl (by rw [roster_createTopic]; rfl) (by rw [roster_createTopic]; rfl) ?_
    intro other peer
    have missing : before.topics.lookup topicHash = none := AList.lookup_eq_none.mpr absent
    change _ ∧ peer ∈ (before.createTopic env topicHash publishOnly).meshOf other ↔ _ ∧ peer ∈ before.meshOf other
    simp only [State.kinds, meshOf_eq, createTopic, UnorderedMap.lookup_insert_eq]
    by_cases same : other = topicHash
    · subst same
      simp [missing]
    · simp [same]
  | upgraded topicHash kind =>
    refine mirrors.framed (by rw [announceUpgrade_eq]) (by rw [roster_announceUpgrade]; rfl)
      (by rw [roster_announceUpgrade]; rfl) ?_
    intro other peer
    rw [roster_announceUpgrade]
    simp only [Roster.withMesh, Roster.mem_update, Set.mem_empty_iff_false, and_false, false_or]
    by_cases same : other = topicHash
    · subst same
      simp [State.kinds, kind]
    · have kinds : (before.announceUpgrade topicHash).kinds other = before.kinds other := kinds_announceUpgrade same
      simp [same, kinds]
  | admitted =>
    refine mirrors.counted roster_deliver ?_ ?_ ?_
    · rw [deliver_eq]
      exact kinds_modifyTopic fun _ => rfl
    · rw [score_deliver, Score.params_deliverMessage]
      rfl
    · rw [score_deliver, Score.standing_deliverMessage]
      rfl
  | originated =>
    refine mirrors.same roster_originate ?_ (by rw [originate_eq]; rfl)
    rw [originate_eq]
    exact kinds_modifyTopic fun _ => rfl
  | dated => exact mirrors.same rfl rfl rfl
  | served => exact mirrors.same rfl rfl rfl
  | registered peerId out absent =>
    obtain ⟨live, active⟩ := @Score.standing_connect R _ before.score peerId
    refine ⟨mirrors.params, mirrors.mirrored.connects sound (AList.lookup_eq_none.mpr absent) live active ?_ ?_ ?_⟩
    · exact congrArg Roster.registered roster_register
    · exact congrArg Roster.identity roster_register
    · rfl
  | typed peer protocol =>
    refine mirrors.framed rfl (by rw [roster_updatePeerKind]) (by rw [roster_updatePeerKind]) fun other candidate => ?_
    rw [roster_updatePeerKind]
    rfl
  | opened peer stream =>
    refine mirrors.framed (by rw [openStream_eq]) (by rw [roster_openStream, roster_updatePeerKind])
      (by rw [roster_openStream, roster_updatePeerKind]) fun other candidate => ?_
    rw [roster_openStream, roster_updatePeerKind, openStream_eq]
    rfl
  | disconnected peerId source => exact mirrors.disconnected exact_.identity
  | expired topicHash => exact mirrors.expired
  | aged topicHash =>
    refine mirrors.same roster_shiftHistory ?_ (by rw [shiftHistory_eq])
    unfold shiftHistory
    split
    · rfl
    · exact kinds_modifyTopic fun _ => rfl
  | resumed peer => exact mirrors.same roster_resumeWriter (by rw [resumeWriter_eq]; rfl) (by rw [resumeWriter_eq])
  | written peer frame rest =>
    exact mirrors.same roster_onWritten (by rw [onWritten_eq]; rfl) (by rw [onWritten_eq])

variable {lastSeqNo : Seqno} {events : List Event}

theorem mirrors_initial : (State.initial env lastSeqNo).Mirrors env :=
  ⟨rfl, by simp [State.initial, roster, Score.standing], by simp [State.initial, Score.standing],
    fun _ _ _ active => by cases active⟩

theorem mirrors_step (sound : before.roster.Sound) (kept : Bookkeeping before) (mirrors : before.Mirrors env)
    (stepped : before.step env event = some after)
    (registered : ∀ peer encoded, event = .message peer encoded → before.Registered peer) : after.Mirrors env := by
  obtain ⟨identity, members, -⟩ := bookkeeping_iff.mp kept
  have handled : after.roster.Sound ∧ after.roster.Exact event ∧ after.Mirrors env := by
    refine step_preserves (fun state => state.roster.Sound ∧ state.roster.Exact event ∧ state.Mirrors env) ?_ sound
      stepped ⟨sound, ⟨identity, members, registered⟩, mirrors⟩
    rintro before after micro ⟨sound, exact_, mirrors⟩
    exact ⟨sound.step micro.roster, exact_.step sound micro.roster, micro.mirrors sound exact_ mirrors⟩
  exact handled.2.2

theorem mirrors_of_runs (run : RegisteredRuns env lastSeqNo events state) : state.Mirrors env := by
  have all : state.roster.Sound ∧ Bookkeeping state ∧ state.Mirrors env := by
    refine run.preserves (fun state => state.roster.Sound ∧ Bookkeeping state ∧ state.Mirrors env)
      ⟨roster_initial.1, ?_, mirrors_initial⟩ ?_
    · refine ⟨?_, ?_⟩ <;> simp [State.initial]
    · rintro event before after ⟨sound, kept, mirrors⟩ ⟨stepped, registered⟩
      exact ⟨sound_of_step sound stepped, bookkeeping_step sound kept stepped registered,
        mirrors_step sound kept mirrors stepped registered⟩
  exact all.2.2

/-- In every run in which frames come from registered peers, exactly the registered peers have a record that does not
wait for its expiration, and a registered peer counts as a mesh peer of a scored topic exactly when it is in the mesh
of that topic and the topic is subscribed. -/
theorem standing_of_runs (run : RegisteredRuns env lastSeqNo events state) :
    (∀ peerId, (∃ stats, state.score.peerStats.lookup peerId = some stats ∧ stats.expiresAt = none) ↔
      peerId ∈ state.peers) ∧
    ∀ topicHash ∈ env.config.score.topics, ∀ peer, state.Registered peer →
      ((∃ stats topicStats, state.score.peerStats.lookup (state.heap peer).peerId = some stats ∧
          stats.topics.lookup topicHash = some topicStats ∧ topicStats.meshActive.isSome) ↔
        ∃ topic, state.topics.lookup topicHash = some topic ∧ topic.publishOnly = false ∧
          peer ∈ topic.meshPeers) := by
  obtain ⟨-, live, -, mesh⟩ := mirrors_of_runs run
  refine ⟨fun peerId => ?_, fun topicHash scored peer registered => ?_⟩
  · have known := live peerId
    simp only [Score.standing, Option.any_eq_true, Option.isNone_iff_eq_none] at known
    rw [known]
    exact AList.lookup_isSome
  · have known := mesh topicHash scored peer registered
    simp only [Score.standing, Option.any_eq_true, Option.bind_eq_some_iff] at known
    constructor
    · rintro ⟨stats, topicStats, found, here, active⟩
      obtain ⟨kind, member⟩ := known.mp ⟨topicStats, ⟨stats, found, here⟩, active⟩
      obtain ⟨topic, lookup, subscribed⟩ := Option.map_eq_some_iff.mp kind
      refine ⟨topic, lookup, subscribed, ?_⟩
      rw [← meshOf_of_lookup lookup]
      exact member
    · rintro ⟨topic, lookup, subscribed, member⟩
      have kind : state.kinds topicHash = some false := by rw [State.kinds, lookup, Option.map_some, subscribed]
      have inMesh : peer ∈ state.roster.mesh topicHash := by
        rw [← meshOf_of_lookup lookup] at member
        exact member
      obtain ⟨topicStats, ⟨stats, found, here⟩, active⟩ := known.mpr ⟨kind, inMesh⟩
      exact ⟨stats, topicStats, found, here, active⟩

/-- A node that scores one topic with the default parameters. -/
def scoringEnv : Env Rational :=
  let env := sampleEnv true (10 ^ 6)
  { env with config := { env.config with score := { env.config.score with
    topics := (∅ : UnorderedMap TopicHash (TopicScoreParams Rational)).insert [0x74] .default } } }

theorem standing_of_runs_grafting : ∃ state stats topicStats,
    RegisteredRuns scoringEnv 0 graftingEvents state ∧ samplePeerId 1 ∈ state.peers ∧
      state.score.peerStats.lookup (samplePeerId 1) = some stats ∧ stats.expiresAt = none ∧
      stats.topics.lookup [0x74] = some topicStats ∧ topicStats.meshActive.isSome := by
  have followed : (graftingEvents.foldlM (stepRegistered scoringEnv) (State.initial scoringEnv 0)).map
      (fun state => decide (samplePeerId 1 ∈ state.peers) && decide (state.Registered 0) &&
        decide ((state.heap 0).peerId = samplePeerId 1) && (state.topics.lookup [0x74]).any fun topic =>
          ! topic.publishOnly && decide (0 ∈ topic.meshPeers)) = some true := by
    decide +kernel
  obtain ⟨state, ran, observed⟩ := Option.map_eq_some_iff.mp followed
  simp only [Bool.and_eq_true, decide_eq_true_eq, Option.any_eq_true, Bool.not_eq_true'] at observed
  obtain ⟨⟨⟨known, registered⟩, identity⟩, topic, found, subscribed, member⟩ := observed
  have run := registeredRuns_of_foldlM ran
  obtain ⟨live, mesh⟩ := standing_of_runs run
  have scored : ([0x74] : TopicHash) ∈ scoringEnv.config.score.topics := by decide
  obtain ⟨stats, topicStats, lookup, here, active⟩ :=
    (mesh [0x74] scored 0 registered).mpr ⟨topic, found, subscribed, member⟩
  rw [identity] at lookup
  obtain ⟨same, lookup', alive⟩ := (live (samplePeerId 1)).mpr known
  obtain rfl : stats = same := Option.some.inj (lookup.symm.trans lookup')
  exact ⟨state, stats, topicStats, run, known, lookup, alive, here, active⟩

end Libp2p.Gossip
