import Libp2p.Protocol.Gossip.Steps

/-! # Every event is a chain of guarded updates

The proof follows the code: one lemma per function, each of which establishes the guards of its updates and uses
the lemmas of the functions it calls.
-/

namespace Libp2p.Gossip

open Library State

variable {R : Type} [Double R] {env : Env R} {event : Event} {state : State R}

theorem Micro.chain {before after : State R} (micro : Micro env event before after) :
    Chain env event before after := .single micro

theorem Ledger.chain {before after : State R} (ledger : Ledger env event before after) :
    Chain env event before after := .single (.ledger ledger)

section Choosing

variable {all : UnorderedSet PeerPtr} {predicate : PeerPtr → Bool} {getCount : ℕ → ℕ} {peer : PeerPtr}

theorem mem_chooseCount (chosen : peer ∈ (state.chooseCount env all predicate getCount).1) :
    peer ∈ all ∧ (state.heap peer).isGossipsub ∧ predicate peer := by
  have shuffled := (env.shufflePeers_perm _ _).mem_iff.mp (List.mem_of_mem_take chosen)
  simpa [UnorderedSet.mem_elements] using shuffled

theorem nodup_chooseCount : (state.chooseCount env all predicate getCount).1.Nodup :=
  List.Nodup.sublist (List.take_sublist ..)
    ((env.shufflePeers_perm _ _).nodup_iff.mpr (all.nodup.filter _))

theorem chain_chooseCount : Chain env event state (state.chooseCount env all predicate getCount).2 :=
  (Ledger.shuffled state (state.random + 1)).chain

end Choosing

section Grafting

variable {topicHash : TopicHash} {peer other : PeerPtr} {publishOnly : Bool}

/-- Grafting changes nothing about a topic but its mesh. -/
theorem graft_field {α : Type} (field : Topic → α)
    (kept : ∀ topic mesh, field { topic with meshPeers := mesh } = field topic) :
    ((state.graft env topicHash peer).topics.lookup topicHash).map field =
      (state.topics.lookup topicHash).map field := by
  rw [graft_topics]
  exact modifyTopic_field field fun topic => kept topic _

theorem graft_peersOf : (state.graft env topicHash peer).peersOf topicHash = state.peersOf topicHash := by
  rw [peersOf_eq, graft_field Topic.peers fun _ _ => rfl]
  rfl

theorem graft_isGossipsub :
    ((state.graft env topicHash peer).heap other).isGossipsub = (state.heap other).isGossipsub := by
  simp only [Peer.isGossipsub, Peer.supports, graft_peer]

/-- Grafting one candidate leaves the others. -/
theorem Candidate.graft (candidate : Candidate topicHash publishOnly other state) (different : other ≠ peer) :
    Candidate topicHash publishOnly other (state.graft env topicHash peer) := by
  refine ⟨?_, ?_, ?_, ?_⟩
  · rw [graft_field Topic.publishOnly fun _ _ => rfl]
    exact candidate.kind
  · rw [graft_peersOf]
    exact candidate.member
  · rw [graft_isGossipsub]
    exact candidate.capable
  · obtain ⟨topic, found, -⟩ := Option.map_eq_some_iff.mp candidate.kind
    have outside := candidate.outside
    rw [meshOf_of_lookup found] at outside
    rw [meshOf_eq, graft_topics, lookup_modifyTopic, if_pos rfl, found]
    simpa using ⟨different, outside⟩

/-- Grafting leaves every backoff alone. -/
theorem Rested.graft (rested : Rested topicHash other state) :
    Rested topicHash other (state.graft env topicHash peer) := by
  intro topic found
  have kept : ((state.graft env topicHash peer).topics.lookup topicHash).map Topic.backoff =
      (state.topics.lookup topicHash).map Topic.backoff := graft_field Topic.backoff fun _ _ => rfl
  rw [found] at kept
  obtain ⟨earlier, known, same⟩ := Option.map_eq_some_iff.mp kept.symm
  rw [← same]
  exact rested earlier known

/-- Grafting distinct candidates in order. -/
theorem chain_graftAll {chosen : List PeerPtr} (distinct : chosen.Nodup)
    (candidates : ∀ peer ∈ chosen, Candidate topicHash false peer state)
    (rested : ∀ peer ∈ chosen, Rested topicHash peer state) :
    Chain env event state (state.graftAll env topicHash chosen) := by
  refine (chain_foldl_rest (fun rest state => rest.Nodup ∧ (∀ peer ∈ rest, Candidate topicHash false peer state) ∧
    ∀ peer ∈ rest, Rested topicHash peer state) ?_ ⟨distinct, candidates, rested⟩).1
  rintro state peer rest ⟨distinct, candidates, rested⟩
  obtain ⟨fresh, distinct⟩ := List.nodup_cons.mp distinct
  refine ⟨(Micro.grafted state topicHash peer (candidates peer (by simp)) (rested peer (by simp))).chain,
    distinct, ?_, ?_⟩
  · intro other member
    exact (candidates other (by simp [member])).graft fun same => fresh (same ▸ member)
  · intro other member
    exact (rested other (by simp [member])).graft

/-- A candidate by the tests that the code makes. -/
theorem candidate_of_lookup {topic : Topic} (found : state.topics.lookup topicHash = some topic)
    (member : peer ∈ state.peersOf topicHash) (capable : (state.heap peer).isGossipsub)
    (outside : peer ∉ topic.meshPeers) : Candidate topicHash topic.publishOnly peer state :=
  ⟨by rw [found]; rfl, member, capable, by rwa [meshOf_of_lookup found]⟩

theorem outside_of_eligible {topic : Topic} (found : state.topics.lookup topicHash = some topic)
    (eligible : state.eligible env topicHash peer) : peer ∉ topic.meshPeers := by
  simp only [State.eligible, found, Bool.and_eq_true, decide_eq_true_eq] at eligible
  exact eligible.1.1

theorem rested_of_eligible (eligible : state.eligible env topicHash peer) : Rested topicHash peer state := by
  intro topic found
  simp only [State.eligible, found, isBackoffWithSlack, Bool.and_eq_true, Bool.not_eq_true', decide_eq_false_iff_not,
    Nat.pos_iff_ne_zero, not_not] at eligible
  exact eligible.1.2

/-- Choosing among the peers of a subscribed topic and grafting the chosen ones. -/
theorem chain_chooseGraft {predicate : PeerPtr → Bool} {count : ℕ}
    (kind : (state.topics.lookup topicHash).map Topic.publishOnly = some false)
    (outside : ∀ peer, predicate peer → peer ∉ state.meshOf topicHash)
    (rested : ∀ peer, predicate peer → Rested topicHash peer state) :
    Chain env event state ((state.choose env (state.peersOf topicHash) predicate count).2.graftAll env topicHash
      (state.choose env (state.peersOf topicHash) predicate count).1) := by
  refine chain_chooseCount.trans (chain_graftAll nodup_chooseCount ?_ ?_)
  · intro peer chosen
    obtain ⟨member, capable, holds⟩ := mem_chooseCount chosen
    exact ⟨kind, member, capable, outside peer holds⟩
  · intro peer chosen
    exact rested peer (mem_chooseCount chosen).2.2

/-- Grafting eligible peers of a subscribed topic until the mesh is large enough. -/
theorem chain_graftUpTo {limit : ℕ} {peers : List PeerPtr}
    (kind : (state.topics.lookup topicHash).map Topic.publishOnly = some false)
    (capable : ∀ peer ∈ peers, peer ∈ state.peersOf topicHash ∧ (state.heap peer).isGossipsub) :
    Chain env event state (state.graftUpTo env topicHash limit peers) ∧
      ((state.graftUpTo env topicHash limit peers).topics.lookup topicHash).map Topic.publishOnly = some false := by
  induction peers generalizing state with
  | nil => exact ⟨.refl, kind⟩
  | cons peer rest ih =>
    have later : ∀ other ∈ rest, other ∈ state.peersOf topicHash ∧ (state.heap other).isGossipsub :=
      fun other member => capable other (by simp [member])
    rw [graftUpTo]
    split_ifs with full eligible
    · exact ⟨.refl, kind⟩
    · obtain ⟨topic, found, isSubscribed⟩ := Option.map_eq_some_iff.mp kind
      obtain ⟨member, isCapable⟩ := capable peer (by simp)
      have candidate := candidate_of_lookup found member isCapable (outside_of_eligible found eligible)
      rw [isSubscribed] at candidate
      have onward : ∀ other ∈ rest, other ∈ (state.graft env topicHash peer).peersOf topicHash ∧
          ((state.graft env topicHash peer).heap other).isGossipsub := by
        intro other member
        rw [graft_peersOf, graft_isGossipsub]
        exact later other member
      obtain ⟨chain, final⟩ := ih ((graft_field Topic.publishOnly fun _ _ => rfl).trans kind) onward
      exact ⟨(Micro.grafted state topicHash peer candidate (rested_of_eligible eligible)).chain.trans chain, final⟩
    · exact ih kind later

end Grafting

section Subscribing

variable {topicHash : TopicHash} {peer : PeerPtr}

theorem announceUpgrade_lookup : (state.announceUpgrade topicHash).topics.lookup topicHash =
    (state.topics.lookup topicHash).map fun topic => { topic with publishOnly := false, meshPeers := ∅ } := by
  have announced : ∀ (peers : List PeerPtr) (state : State R),
      (peers.foldl (fun state peer => state.enqueue peer (.subscribe topicHash true)) state).topics = state.topics :=
    fun _ _ => foldl_field State.topics fun state peer => (enqueue_frame peer _ state).1
  unfold announceUpgrade
  rw [lookup_modifyTopic, if_pos rfl]
  dsimp only
  rw [announced, lookup_modifyTopic, if_pos rfl, Option.map_map]
  rfl

theorem announceUpgrade_isGossipsub :
    ((state.announceUpgrade topicHash).heap peer).isGossipsub = (state.heap peer).isGossipsub := by
  have announced : ∀ (peers : List PeerPtr) (state : State R),
      ((peers.foldl (fun state peer => state.enqueue peer (.subscribe topicHash true)) state).heap peer).peerKind =
        (state.heap peer).peerKind :=
    fun _ _ => foldl_field (fun state : State R => (state.heap peer).peerKind) fun state other =>
      (enqueue_peer other _ state).2.2.1
  have kind : ((state.announceUpgrade topicHash).heap peer).peerKind = (state.heap peer).peerKind :=
    announced _ _
  simp only [Peer.isGossipsub, Peer.supports, kind]

/-- The upgrade announces the topic, then grafts fan-out peers, then others. -/
theorem chain_upgradeTopic (sound : MeshSound state)
    (kind : (state.topics.lookup topicHash).map Topic.publishOnly = some true)
    (asked : event = .subscribe topicHash) : Chain env event state (state.upgradeTopic env topicHash) := by
  obtain ⟨topic, found, -⟩ := Option.map_eq_some_iff.mp kind
  set upgraded := state.announceUpgrade topicHash with announced
  have start : Chain env event state upgraded := (Micro.upgraded state topicHash kind asked).chain
  have lookup : upgraded.topics.lookup topicHash = some { topic with publishOnly := false, meshPeers := ∅ } := by
    rw [announced, announceUpgrade_lookup, found]
    rfl
  have subscribed : (upgraded.topics.lookup topicHash).map Topic.publishOnly = some false := by rw [lookup]; rfl
  have peers : upgraded.peersOf topicHash = state.peersOf topicHash := by
    rw [peersOf_of_lookup lookup, peersOf_of_lookup found]
  -- The fan-out peers are read after the announcements, which leave the mesh alone.
  let told := (state.modifyTopic topicHash fun topic => { topic with publishOnly := false })
  let announcedState := (told.peersOf topicHash).elements.foldl
    (fun state peer => state.enqueue peer (.subscribe topicHash true)) told
  have mesh : announcedState.meshOf topicHash = state.meshOf topicHash := by
    have topics : announcedState.topics = told.topics :=
      foldl_field State.topics fun state peer => (enqueue_frame peer _ state).1
    have kept : (told.topics.lookup topicHash).map Topic.meshPeers =
        (state.topics.lookup topicHash).map Topic.meshPeers := modifyTopic_field Topic.meshPeers fun _ => rfl
    rw [meshOf_eq, topics, kept]
    rfl
  set fanout := env.shufflePeers announcedState.random (announcedState.meshOf topicHash).elements
  have capable : ∀ peer ∈ fanout, peer ∈ upgraded.peersOf topicHash ∧ (upgraded.heap peer).isGossipsub := by
    intro peer member
    have inMesh : peer ∈ state.meshOf topicHash := by
      rw [← mesh]
      exact (env.shufflePeers_perm _ _).mem_iff.mp member
    rw [peers, announced, announceUpgrade_isGossipsub]
    exact sound.inside topicHash peer inMesh
  have grafting : Chain env event upgraded
      (upgraded.graftUpTo env topicHash (env.config.meshNForTopic topicHash) fanout) ∧ _ :=
    chain_graftUpTo subscribed capable
  obtain ⟨grafts, final⟩ := grafting
  change Chain env event state (if _ then _ else _)
  split_ifs
  · refine (start.trans grafts).trans (chain_chooseGraft final ?_ fun peer => rested_of_eligible)
    intro peer eligible
    obtain ⟨current, found', -⟩ := Option.map_eq_some_iff.mp final
    rw [meshOf_of_lookup found']
    exact outside_of_eligible found' eligible
  · exact start.trans grafts

theorem chain_getOrCreateTopic {publishOnly : Bool} (sound : MeshSound state)
    (asked : publishOnly = false → event = .subscribe topicHash) (source : event.creates topicHash) :
    Chain env event state (state.getOrCreateTopic env topicHash publishOnly) := by
  unfold getOrCreateTopic
  dsimp only
  by_cases present : topicHash ∈ state.topics
  · rw [if_pos present]
    split
    · exact .refl
    · next topic found =>
      split_ifs with upgrade
      · have subscribing : publishOnly = false := by simpa using upgrade.1
        exact chain_upgradeTopic sound (by rw [found]; simpa using upgrade.2) (asked subscribing)
      · exact .refl
  · -- A topic that was just created is publish-only only if that was asked for.
    rw [if_neg present]
    have created : Chain env event state (state.createTopic env topicHash publishOnly) :=
      (Micro.created state topicHash publishOnly present asked source).chain
    split
    · exact created
    · next topic found =>
      have kind : topic.publishOnly = publishOnly := by
        rw [createTopic, AList.lookup_insert] at found
        rw [← Option.some.inj found]
      rw [if_neg (by rw [kind]; simp)]
      exact created

end Subscribing

section Spreading

variable {topicHash : TopicHash} {from_ : Option PeerId} {messageId : MessageId} {message : Message}
  {peer other : PeerPtr}

theorem addPeer_topics : (addPeer env from_ messageId message state peer).topics = state.topics := by
  unfold addPeer
  split_ifs <;> simp

theorem topics_addPeers {peers : List PeerPtr} :
    (peers.foldl (addPeer env from_ messageId message) state).topics = state.topics :=
  foldl_field State.topics fun _ _ => addPeer_topics

theorem addPeer_isGossipsub : ((addPeer env from_ messageId message state peer).heap other).isGossipsub =
    (state.heap other).isGossipsub := by
  unfold addPeer
  split_ifs <;> simp [Peer.isGossipsub, Peer.supports]

/-- The broadcast of a message has started. -/
def Started (topicHash : TopicHash) (from_ : Option PeerId) (messageId : MessageId) (message : Message)
    (state : State R) : Prop :=
  .broadcast topicHash from_ messageId message ∈ state.log

theorem chain_addPeer (source : event.spreads) (started : Started topicHash from_ messageId message state) :
    Chain env event state (addPeer env from_ messageId message state peer) ∧
      Started topicHash from_ messageId message (addPeer env from_ messageId message state peer) := by
  unfold addPeer
  split_ifs
  · exact ⟨.refl, started⟩
  · exact ⟨.refl, started⟩
  · exact ⟨.refl, started⟩
  · have told : Started topicHash from_ messageId message
        ((state.getBatch peer).enqueue peer (.idontwant messageId)) := by
      simpa [Started] using started
    refine ⟨?_, by simpa [Started] using started⟩
    exact ((Micro.batched state peer).chain.tail (.queued _ peer (.idontwant messageId source))).tail
      (.queued _ peer (.relayed told source))
  · have batched : Started topicHash from_ messageId message (state.getBatch peer) := by
      simpa [Started] using started
    refine ⟨?_, by simpa [Started] using started⟩
    exact (Micro.batched state peer).chain.tail (.queued _ peer (.relayed batched source))

/-- The loop that adds fan-out peers. -/
theorem chain_addFanout {chosen : List PeerPtr} (source : event.spreads)
    (started : Started topicHash from_ messageId message state)
    (capable : ∀ peer ∈ chosen, peer ∈ state.peersOf topicHash ∧ (state.heap peer).isGossipsub) :
    Chain env event state (state.addFanout env topicHash from_ messageId message chosen) := by
  refine (chain_foldl (fun state => Started topicHash from_ messageId message state ∧
    ∀ peer ∈ chosen, peer ∈ state.peersOf topicHash ∧ (state.heap peer).isGossipsub) ?_ ⟨started, capable⟩).1
  rintro state peer member ⟨started, capable⟩
  have adding : Chain env event state (addPeer env from_ messageId message state peer) ∧ _ :=
    chain_addPeer source started
  obtain ⟨chain, started'⟩ := adding
  have kept : ∀ other ∈ chosen, other ∈ (addPeer env from_ messageId message state peer).peersOf topicHash ∧
      ((addPeer env from_ messageId message state peer).heap other).isGossipsub := by
    intro other chosen
    rw [peersOf_eq, addPeer_topics, addPeer_isGossipsub]
    exact capable other chosen
  refine ⟨chain.tail (.fannedOut _ topicHash peer (kept peer member).1 (kept peer member).2), started', ?_⟩
  intro other chosen
  rw [peersOf_eq, modifyTopic_field Topic.peers fun topic => by split_ifs <;> rfl]
  exact kept other chosen

theorem chain_addPeers {peers : List PeerPtr} (source : event.spreads)
    (started : Started topicHash from_ messageId message state) :
    Chain env event state (peers.foldl (addPeer env from_ messageId message) state) ∧
      Started topicHash from_ messageId message (peers.foldl (addPeer env from_ messageId message) state) :=
  chain_foldl (Started topicHash from_ messageId message) (fun _ _ _ started => chain_addPeer source started) started

theorem chain_broadcastMesh (source : event.spreads) (own : from_.isNone → event.publishes)
    (started : Started topicHash from_ messageId message state) :
    Chain env event state (state.broadcastMesh env topicHash from_ messageId message) := by
  unfold broadcastMesh
  set flooded := ((state.peersOf topicHash).elements.filter fun peer => (state.heap peer).isFloodsub).foldl
    (addPeer env from_ messageId message) state
  have first : Chain env event state flooded ∧ Started topicHash from_ messageId message flooded :=
    chain_addPeers source started
  set meshed := (flooded.meshOf topicHash).elements.foldl (addPeer env from_ messageId message) flooded
  have second : Chain env event flooded meshed ∧ Started topicHash from_ messageId message meshed :=
    chain_addPeers source first.2
  have both := first.1.trans second.1
  dsimp only
  split_ifs with published
  · refine ((both.trans chain_chooseCount).trans (chain_addFanout source second.2 ?_)).trans
      ((Micro.incidental _ topicHash (.stamped _ (own published))).chain.trans (Ledger.ticked _).chain)
    intro peer chosen
    obtain ⟨member, capable, -⟩ := mem_chooseCount chosen
    exact ⟨member, capable⟩
  · exact both.trans ((Micro.incidental _ topicHash (.stamped _ (own published))).chain.trans (Ledger.ticked _).chain)
  · exact both

/-- Once a broadcast has started, handing the message to its recipients is a chain. -/
theorem chain_spread (source : event.spreads) (own : from_.isNone → event.publishes)
    (started : Started topicHash from_ messageId message state) :
    Chain env event state (state.spread env topicHash from_ messageId message) := by
  unfold spread
  set told := (state.gossipPromises.peers messageId).foldl
    (fun state peer => state.enqueue peer (.idontwant messageId)) state
  have telling : Chain env event state told ∧ Started topicHash from_ messageId message told :=
    chain_foldl (Started topicHash from_ messageId message)
      (fun state peer _ started => ⟨(Micro.queued state peer (.idontwant messageId source)).chain,
        by simpa [Started] using started⟩) started
  dsimp only
  split_ifs
  · exact telling.1.trans (chain_addPeers source telling.2).1
  · exact (chain_addPeers source started).1
  · exact telling.1.trans (chain_broadcastMesh source own telling.2)
  · exact chain_broadcastMesh source own started

theorem started_startBroadcast :
    Started topicHash from_ messageId message (state.startBroadcast topicHash from_ messageId message) := by
  simp [Started, startBroadcast, cacheMessage, record, modifyTopic]

end Spreading

section Publishing

variable {topicHash : TopicHash} {data : Bytes}

/-- The message does not depend on the state beyond the sequence number that it takes. -/
theorem chain_publishTopic (present : topicHash ∈ state.topics)
    (source : event = .publish topicHash data ∨ event = .publishTopic topicHash data) :
    Chain env event state (state.publishTopic env topicHash data) := by
  unfold publishTopic
  set made := state.createMessage env topicHash data with making
  have numbered : Chain env event state made.2 ∧ topicHash ∈ made.2.topics ∧
      made.1 = (({ made.2 with lastSeqNo := state.lastSeqNo } : State R).createMessage env topicHash data).1 := by
    rw [making]
    unfold createMessage
    cases env.config.messageAuthenticity with
    | signed => exact ⟨(Ledger.numbered state (by rcases source with rfl | rfl <;> rfl)).chain, present, rfl⟩
    | anonymous => exact ⟨.refl, present, rfl⟩
  obtain ⟨first, present, message⟩ := numbered
  dsimp only
  split_ifs with duplicate
  · exact first
  · exact (first.tail (.originated made.2 source message present duplicate)).trans
      (chain_spread (by rcases source with rfl | rfl <;> rfl) (fun _ => by rcases source with rfl | rfl <;> rfl)
        started_startBroadcast)

/-- Publishing never upgrades a topic. -/
theorem getOrCreateTopic_publishOnly : state.getOrCreateTopic env topicHash true =
    if topicHash ∈ state.topics then state else state.createTopic env topicHash true := by
  unfold getOrCreateTopic
  dsimp only
  split <;> simp

theorem chain_publish (source : event = .publish topicHash data) :
    Chain env event state (state.publish env topicHash data) := by
  rw [publish, getOrCreateTopic_publishOnly]
  split_ifs with present
  · exact chain_publishTopic present (.inl source)
  · have created : topicHash ∈ (state.createTopic env topicHash true).topics :=
      (AList.mem_insert _).mpr (.inl rfl)
    exact .head (.created state topicHash true present (by simp) (.inr ⟨data, source⟩))
      (chain_publishTopic created (.inl source))

end Publishing

end Libp2p.Gossip
