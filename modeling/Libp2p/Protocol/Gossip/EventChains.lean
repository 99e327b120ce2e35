import Libp2p.Protocol.Gossip.Decomposition

/-! # Received frames, heartbeats and the whole step as chains

The counterpart of `Decomposition` for what comes from outside: the parts of an RPC, the maintenance of every
topic, connections, streams and writers. The result is that a step of the node is a chain of guarded updates.
-/

namespace Libp2p.Gossip

open Library State

variable {R : Type} [Double R] {env : Env R} {event : Event} {state before after : State R}

section Allocation

/-- Peer objects are never released. -/
theorem Micro.allocated_le (micro : Micro env event before after) : before.allocated ≤ after.allocated := by
  cases micro with
  | ledger ledger =>
    cases ledger with
    | duplicated => rw [countDuplicate_eq]
    | _ => exact le_rfl
  | registered => exact Nat.le_succ _
  | batched => rw [getBatch_eq]
  | queued => rw [enqueue_eq]
  | grafted => rw [graft_eq]
  | expelled => rw [makePrune_eq]; rfl
  | cut => rw [makePrune_eq]; rfl
  | refused => rw [makePrune_eq]
  | left => rw [leaveTopic_eq]
  | pruned => rw [removePeerFromMesh_eq]
  | upgraded => rw [announceUpgrade_eq]
  | admitted => rw [deliver_eq]; rfl
  | originated => rw [originate_eq]; rfl
  | opened => rw [openStream_eq]
  | disconnected => rw [onPeerDisconnected_eq]
  | expired => rw [expireTopic_eq]
  | aged => rw [shiftHistory_eq]
  | resumed => rw [resumeWriter_eq]
  | written => rw [onWritten_eq]
  | _ => exact le_rfl

theorem Chain.allocated_le (chain : Chain env event before after) : before.allocated ≤ after.allocated := by
  induction chain with
  | refl => exact le_rfl
  | tail _ micro ih => exact ih.trans micro.allocated_le

end Allocation

section Receiving

variable {peer : PeerPtr} {encoded : Bytes} {rpc : Pb.RPC} {topicHash : TopicHash}

theorem mem_addToTopic {topic : Topic}
    (found : (state.addToTopic peer topicHash).topics.lookup topicHash = some topic) : peer ∈ topic.peers := by
  rw [addToTopic, lookup_modifyTopic, if_pos rfl] at found
  obtain ⟨old, -, rfl⟩ := Option.map_eq_some_iff.mp found
  exact UnorderedSet.mem_insert.mpr (.inl rfl)

theorem addToTopic_isGossipsub {other : PeerPtr} :
    ((state.addToTopic peer topicHash).heap other).isGossipsub = (state.heap other).isGossipsub := by
  change ((state.modifyPeer peer fun peer => { peer with topics := peer.topics.insert topicHash }).heap
    other).isGossipsub = _
  exact modifyPeer_field Peer.isGossipsub rfl

theorem chain_onSubscription (source : event = .message peer encoded) (decoded : Pb.RPC.decode encoded = some rpc)
    (allocated : peer < state.allocated) {pbSubscribe : Pb.SubOpts} (entry : pbSubscribe ∈ rpc.subscriptions) :
    Chain env event state (state.onSubscription env peer pbSubscribe) := by
  unfold onSubscription
  dsimp only
  split_ifs with subscribing
  · have named : pbSubscribe.topicId.getD [] ∈ rpc.announces :=
      List.mem_append_left _ (List.mem_map_of_mem (List.mem_filter.mpr ⟨entry, subscribing⟩))
    have announced : Chain env event state (state.addToTopic peer (pbSubscribe.topicId.getD [])) :=
      (Micro.announced state _ source allocated ⟨encoded, source, decoded⟩ named).chain
    unfold graftOnSubscribe
    split
    · exact announced
    · next topic found =>
      split_ifs with wanted
      · obtain ⟨subscribed, capable, -, eligible⟩ := wanted
        have candidate := candidate_of_lookup found (peersOf_of_lookup found ▸ mem_addToTopic found) capable
          (outside_of_eligible found eligible)
        rw [Bool.not_eq_true] at subscribed
        rw [subscribed] at candidate
        exact announced.tail (.grafted _ _ peer candidate (rested_of_eligible eligible))
      · exact announced
  · have named : pbSubscribe.topicId.getD [] ∈ rpc.leaves :=
      List.mem_map_of_mem (List.mem_filter.mpr ⟨entry, by simpa using subscribing⟩)
    exact (Micro.left state _ source ⟨encoded, source, decoded⟩ named).chain

theorem chain_onPublish (source : event = .message peer encoded) (decoded : Pb.RPC.decode encoded = some rpc)
    {pbPublish : Pb.Message} (entry : pbPublish ∈ rpc.publish) :
    Chain env event state (state.onPublish env peer pbPublish) := by
  unfold onPublish
  split
  · exact .refl
  · next message valid =>
    unfold receiveMessage
    split_ifs with topic
    · dsimp only
      split_ifs with fresh
      · have admitted : Chain env event state _ :=
          (Micro.admitted state source decoded entry valid topic fresh).chain
        refine admitted.trans (chain_spread (by rw [source]; rfl) (by simp) ?_)
        rw [Started, deliver_eq]
        exact List.mem_cons_self
      · have dated : Chain env event state (state.dateMessage env (env.config.messageIdFn message)) :=
          (Micro.dated state _ (Bool.eq_false_of_not_eq_true fresh) (by rw [source]; rfl)).chain
        exact dated.trans (Ledger.duplicated _ peer _ message.topic).chain
    · exact .refl

/-- Deciding about a graft only adds penalties. -/
theorem graftDecision_eq (topic : Topic) : Chain env event state (state.graftDecision env peer topicHash topic).2 ∧
    (state.graftDecision env peer topicHash topic).2.topics = state.topics ∧
    (state.graftDecision env peer topicHash topic).2.heap = state.heap := by
  refine @graftDecision_induction R _ env (fun after =>
    Chain env event state after ∧ after.topics = state.topics ∧ after.heap = state.heap) _ _ _ _ ⟨.refl, rfl, rfl⟩ ?_
  rintro after ⟨chain, topics, heap⟩
  exact ⟨chain.trans (Ledger.penalized after (after.heap peer).peerId 1).chain, topics, heap⟩

theorem chain_onGraft (source : event = .message peer encoded) (decoded : Pb.RPC.decode encoded = some rpc)
    (allocated : peer < state.allocated) (capable : (state.heap peer).isGossipsub) {pbGraft : Pb.ControlGraft}
    (entry : pbGraft ∈ rpc.control.graft) : Chain env event state (state.onGraft env peer pbGraft) := by
  unfold onGraft
  dsimp only
  set announced := state.addToTopic peer (pbGraft.topicId.getD []) with announcing
  have named : pbGraft.topicId.getD [] ∈ rpc.announces := List.mem_append_right _ (List.mem_map_of_mem entry)
  have first : Chain env event state announced :=
    (Micro.announced state _ source allocated ⟨encoded, source, decoded⟩ named).chain
  split
  · exact first
  · next topic found =>
    split_ifs with publishOnly member accept
    · exact first
    · exact first
    · obtain ⟨penalties, topics, heap⟩ : Chain env event announced _ ∧ _ := graftDecision_eq topic
      have candidate : Candidate (pbGraft.topicId.getD []) false peer
          (announced.graftDecision env peer (pbGraft.topicId.getD []) topic).2 := by
        rw [Bool.not_eq_true] at publishOnly
        rw [← publishOnly]
        refine candidate_of_lookup (by rw [topics, found]) ?_ ?_ member
        · rw [peersOf_eq, topics, found]
          exact mem_addToTopic found
        · rw [heap, announcing, addToTopic_isGossipsub]
          exact capable
      exact (first.trans penalties).tail (.joined _ _ peer candidate)
    · obtain ⟨penalties, topics, -⟩ : Chain env event announced _ ∧ _ := graftDecision_eq topic
      refine (first.trans penalties).tail (.refused _ _ peer ?_ source ?_)
      · rw [meshOf_eq, topics, found]
        exact member
      · rw [peersOf_eq, topics, found]
        exact mem_addToTopic found

theorem chain_requestMessages (source : event.receives) (wanted : UnorderedSet MessageId)
    (capable : (state.heap peer).isGossipsub) :
    Chain env event state (state.requestMessages env peer wanted) := by
  have asking : ∀ (state : State R) (messageId : MessageId), (state.heap peer).isGossipsub →
      Chain env event state (state.requestMessage env peer messageId) ∧
        ((state.requestMessage env peer messageId).heap peer).isGossipsub := by
    intro state messageId capable
    have promised : Chain env event state _ := (Ledger.promised state messageId peer (state.now env) source).chain
    refine ⟨(promised.trans (Ledger.ticked _).chain).tail (.queued _ peer (.iwant messageId capable)), ?_⟩
    simp only [requestMessage, Peer.isGossipsub, Peer.supports, enqueue_peer]
    exact capable
  have counted : ∀ sent, Chain env event state { state with random := state.random + 1, countSentIwant := sent } :=
    fun sent => (Ledger.shuffled state (state.random + 1)).chain.trans
      (Ledger.counted _ state.countReceivedIhave sent (.inr source)).chain
  refine ((counted _).tail (.batched _ peer)).trans (chain_foldl (fun state => (state.heap peer).isGossipsub)
    (fun state messageId _ => asking state messageId) ?_).1
  simp only [Peer.isGossipsub, Peer.supports, getBatch_peer]
  exact capable

theorem chain_handleIhave (source : event.receives) (peer : PeerPtr) (pbIhaves : List Pb.ControlIHave) :
    Chain env event state (state.handleIhave env peer pbIhaves).1 := by
  unfold handleIhave
  dsimp only
  have counted : ∀ received, Chain env event state { state with countReceivedIhave := received } :=
    fun received => (Ledger.counted state received state.countSentIwant (.inr source)).chain
  split_ifs with none capable
  · exact .refl
  · exact counted _
  · exact counted _
  · exact counted _
  · exact (counted _).trans (chain_requestMessages source _ capable)
  · exact .refl

theorem chain_serveMessage (source : event = .message peer encoded) (messageId : MessageId) :
    Chain env event state (state.serveMessage env peer messageId) := by
  unfold serveMessage
  split
  · exact .refl
  · next entry cached =>
    dsimp only
    have served : Chain env event state { state with
        messageCache := state.messageCache.insert messageId ({ entry with
          iwant := entry.iwant.insert (state.heap peer).peerId
            ((entry.iwant.lookup (state.heap peer).peerId).getD 0 + 1) } : MessageCacheEntry) } := by
      refine (Micro.served state messageId _ cached (fun peerId => ?_) (by rw [source]; rfl)).chain
      rw [UnorderedMap.lookup_insert_eq]
      split_ifs with same
      · rw [same]
        exact Nat.le_succ _
      · exact le_rfl
    have permitted : ∀ iwant, Permitted env event
        ({ state with messageCache := state.messageCache.insert messageId { entry with iwant } } : State R) peer
        (.publish entry.message) :=
      fun iwant => @Permitted.served R _ _ _ _ _ messageId ⟨entry.message, iwant⟩ _ (AList.lookup_insert _) source
    split_ifs
    · exact served
    · exact served
    · exact served.tail (.queued _ peer (permitted _))

theorem chain_onIwant (source : event = .message peer encoded) (pbIwant : Pb.ControlIWant) :
    Chain env event state (state.onIwant env peer pbIwant) := by
  unfold onIwant
  split_ifs
  · exact .refl
  · exact chain_foldl_of_body fun state messageId _ => chain_serveMessage source messageId

theorem chain_onIdontwant (source : event = .message peer encoded) (pbIdontwant : Pb.ControlIDontWant) :
    Chain env event state (state.onIdontwant env peer pbIdontwant) := by
  refine chain_foldl_of_body fun state messageId _ => ?_
  exact (Micro.inner state peer (.marked messageId (state.now env) source)).chain.trans (Ledger.ticked _).chain

/-- A loop over control entries runs its body only for a gossipsub peer. -/
theorem chain_forGossipsub {α : Type} {body : State R → α → State R} {entries : List α}
    (iteration : ∀ state, ∀ entry ∈ entries, peer < state.allocated → (state.heap peer).isGossipsub →
      Chain env event state (body state entry)) (allocated : peer < state.allocated) :
    Chain env event state (forGossipsub peer body entries state).1 := by
  induction entries generalizing state with
  | nil => exact .refl
  | cons entry rest ih =>
    unfold forGossipsub
    split_ifs with capable
    · have first := iteration state entry (by simp) allocated capable
      exact first.trans (ih (fun state other member => iteration state other (by simp [member]))
        (allocated.trans_le first.allocated_le))
    · exact .refl

theorem chain_onControl (source : event = .message peer encoded) (decoded : Pb.RPC.decode encoded = some rpc)
    (allocated : peer < state.allocated) : Chain env event state (state.onControl env peer rpc.control).1 := by
  set control := rpc.control with controlled
  have grafts : Chain env event state (forGossipsub peer (onGraft env peer) control.graft state).1 :=
    chain_forGossipsub (fun state entry member allocated capable =>
      chain_onGraft source decoded allocated capable member) allocated
  have prunes : ∀ state : State R, peer < state.allocated →
      Chain env event state (forGossipsub peer (onPrune env peer) control.prune state).1 :=
    fun state => chain_forGossipsub fun state entry member _ _ =>
      (Micro.pruned state _ peer _ ⟨encoded, source, decoded⟩ (List.mem_map_of_mem member)).chain
  have iwants : ∀ state : State R, peer < state.allocated →
      Chain env event state (forGossipsub peer (onIwant env peer) control.iwant state).1 :=
    fun state => chain_forGossipsub fun state entry _ _ _ => chain_onIwant source entry
  have idontwants : ∀ state : State R, peer < state.allocated →
      Chain env event state (forGossipsub peer (onIdontwant env peer) control.idontwant state).1 :=
    fun state => chain_forGossipsub fun state entry _ _ _ => chain_onIdontwant source entry
  -- Each part starts from a chain that ends where the part before it ended.
  have pruned := grafts.trans (prunes _ (allocated.trans_le (Chain.allocated_le grafts)))
  have advertised := pruned.trans (chain_handleIhave (by rw [source]; rfl) peer control.ihave)
  have served := advertised.trans (iwants _ (allocated.trans_le (Chain.allocated_le advertised)))
  have refused := served.trans (idontwants _ (allocated.trans_le (Chain.allocated_le served)))
  unfold onControl
  dsimp only
  split_ifs
  · exact refused
  · exact served
  · exact advertised
  · exact pruned
  · exact grafts

theorem chain_onRpc (source : event = .message peer encoded) (decoded : Pb.RPC.decode encoded = some rpc)
    (allocated : peer < state.allocated) : Chain env event state (state.onRpc env peer rpc).1 := by
  have subscriptions : Chain env event state (rpc.subscriptions.foldl (onSubscription env peer) state) ∧ _ :=
    chain_foldl (fun state => peer < state.allocated) (fun state entry member allocated =>
      have chain : Chain env event state _ := chain_onSubscription source decoded allocated member
      ⟨chain, allocated.trans_le chain.allocated_le⟩) allocated
  obtain ⟨first, allocated⟩ := subscriptions
  have messages : ∀ state : State R, Chain env event state (rpc.publish.foldl (onPublish env peer) state) :=
    fun state => chain_foldl_of_body fun state pbPublish entry => chain_onPublish source decoded entry
  have allocated := allocated.trans_le (messages _).allocated_le
  exact (first.trans (messages _)).trans (chain_onControl source decoded allocated)

theorem chain_onMessage (source : event = .message peer encoded) (allocated : peer < state.allocated) :
    Chain env event state (state.onMessage env peer encoded).1 := by
  unfold onMessage
  split
  · exact .refl
  · next rpc decoded =>
    split_ifs
    · exact .refl
    · exact chain_onRpc source decoded allocated

end Receiving

section Maintaining

variable {topicHash : TopicHash} {peer : PeerPtr}

/-- Changes that agree on the topic they are applied to have the same effect. -/
theorem modifyTopic_congr {topic : Topic} {first second : Topic → Topic}
    (found : state.topics.lookup topicHash = some topic) (same : first topic = second topic) :
    state.modifyTopic topicHash first = state.modifyTopic topicHash second := by
  simp only [modifyTopic, UnorderedMap.modify, found, same]

/-- The topic exists and is subscribed. -/
def Subscribed (topicHash : TopicHash) (state : State R) : Prop :=
  (state.topics.lookup topicHash).map Topic.publishOnly = some false

/-- In a publish-only topic the insertion needs no test. -/
theorem chain_insertFanout (kind : (state.topics.lookup topicHash).map Topic.publishOnly = some true)
    (member : peer ∈ state.peersOf topicHash) (capable : (state.heap peer).isGossipsub) :
    Chain env event state
      (state.modifyTopic topicHash fun topic => { topic with meshPeers := topic.meshPeers.insert peer }) := by
  obtain ⟨topic, found, isPublishOnly⟩ := Option.map_eq_some_iff.mp kind
  have same : (state.modifyTopic topicHash fun topic => { topic with meshPeers := topic.meshPeers.insert peer }) =
      state.modifyTopic topicHash fun topic =>
        if topic.publishOnly then { topic with meshPeers := topic.meshPeers.insert peer } else topic :=
    modifyTopic_congr found (by rw [if_pos isPublishOnly])
  rw [same]
  exact (Micro.fannedOut state topicHash peer member capable).chain

theorem chain_maintainFanout (kind : (state.topics.lookup topicHash).map Topic.publishOnly = some true) :
    Chain env event state (state.maintainFanout env topicHash) := by
  unfold maintainFanout
  set trimmed := state.modifyTopic topicHash fun topic => { topic with
    meshPeers := topic.meshPeers.retain fun peer => ! state.below peer env.config.score.publishThreshold }
  have first : Chain env event state trimmed := (Micro.trimmed state topicHash _ kind).chain
  dsimp only
  split_ifs
  · refine (first.trans chain_chooseCount).trans (chain_foldl (fun state : State R =>
      (state.topics.lookup topicHash).map Topic.publishOnly = some true ∧
        ∀ peer ∈ (trimmed.choose env (trimmed.peersOf topicHash)
          (trimmed.fanoutCandidate topicHash env.config.score.publishThreshold)
          (env.config.meshNForTopic topicHash - (trimmed.meshOf topicHash).size)).1,
          peer ∈ state.peersOf topicHash ∧ (state.heap peer).isGossipsub) ?_ ⟨?_, ?_⟩).1
    · rintro state peer member ⟨kind, capable⟩
      refine ⟨chain_insertFanout kind (capable peer member).1 (capable peer member).2, ?_, ?_⟩
      · rw [modifyMesh_field _ Topic.publishOnly fun _ _ => rfl]
        exact kind
      · intro other chosen
        rw [peersOf_eq, modifyMesh_field _ Topic.peers fun _ _ => rfl]
        exact capable other chosen
    · change (trimmed.topics.lookup topicHash).map Topic.publishOnly = some true
      rw [modifyMesh_field _ Topic.publishOnly fun _ _ => rfl]
      exact kind
    · intro peer chosen
      obtain ⟨member, capable, -⟩ := mem_chooseCount chosen
      exact ⟨member, capable⟩
  · exact first

theorem makePrune_meshOf : (state.makePrune env topicHash peer).meshOf topicHash = state.meshOf topicHash := by
  rw [meshOf_eq, makePrune_field topicHash peer state Topic.meshPeers fun _ _ => rfl]
  rfl

theorem meshOf_eraseFromMesh :
    (state.eraseFromMesh topicHash peer).meshOf topicHash = (state.meshOf topicHash).erase peer := by
  rw [meshOf_eq, meshOf_eq, eraseFromMesh, lookup_modifyTopic, if_pos rfl]
  cases state.topics.lookup topicHash with
  | none => rfl
  | some topic => rfl

theorem mem_eraseFromMesh {other : PeerPtr} : other ∈ (state.eraseFromMesh topicHash peer).meshOf topicHash ↔
    other ≠ peer ∧ other ∈ state.meshOf topicHash := by
  rw [meshOf_eraseFromMesh, UnorderedSet.mem_erase]

theorem subscribed_expelled (subscribed : Subscribed topicHash state) :
    Subscribed topicHash ((state.makePrune env topicHash peer).eraseFromMesh topicHash peer) := by
  rw [Subscribed, eraseFromMesh, modifyMesh_field _ Topic.publishOnly fun _ _ => rfl,
    makePrune_field topicHash peer state Topic.publishOnly fun _ _ => rfl]
  exact subscribed

theorem subscribed_cut (subscribed : Subscribed topicHash state) :
    Subscribed topicHash ((state.eraseFromMesh topicHash peer).makePrune env topicHash peer) := by
  rw [Subscribed, makePrune_field topicHash peer _ Topic.publishOnly fun _ _ => rfl, eraseFromMesh,
    modifyMesh_field _ Topic.publishOnly fun _ _ => rfl]
  exact subscribed

theorem chain_pruneNegative (subscribed : Subscribed topicHash state) :
    Chain env event state (state.pruneNegative env topicHash) ∧
      Subscribed topicHash (state.pruneNegative env topicHash) := by
  refine (chain_foldl_rest (fun rest state => rest.Nodup ∧ (∀ peer ∈ rest, peer ∈ state.meshOf topicHash) ∧
    Subscribed topicHash state) ?_ ⟨(state.meshOf topicHash).nodup, fun _ member => member, subscribed⟩).imp_right
    fun final => final.2.2
  rintro state peer rest ⟨distinct, members, subscribed⟩
  obtain ⟨fresh, distinct⟩ := List.nodup_cons.mp distinct
  have later : ∀ other ∈ rest, other ∈ state.meshOf topicHash := fun other member => members other (by simp [member])
  split_ifs
  · refine ⟨(Micro.expelled state topicHash peer (members peer (by simp))).chain, distinct, ?_,
      subscribed_expelled subscribed⟩
    intro other member
    rw [mem_eraseFromMesh, makePrune_meshOf]
    exact ⟨fun same => fresh (same ▸ member), later other member⟩
  · exact ⟨.refl, distinct, later, subscribed⟩

theorem chain_pruneExcess {outbound : ℕ} {order : List PeerPtr} (distinct : order.Nodup)
    (members : ∀ peer ∈ order, peer ∈ state.meshOf topicHash) (subscribed : Subscribed topicHash state) :
    Chain env event state (state.pruneExcess env topicHash outbound order) ∧
      Subscribed topicHash (state.pruneExcess env topicHash outbound order) := by
  induction order generalizing state outbound with
  | nil => exact ⟨.refl, subscribed⟩
  | cons peer rest ih =>
    obtain ⟨fresh, distinct⟩ := List.nodup_cons.mp distinct
    have later : ∀ other ∈ rest, other ∈ state.meshOf topicHash :=
      fun other member => members other (by simp [member])
    have cut : ∀ outbound, Chain env event state (pruneExcess env topicHash outbound rest
        ((state.eraseFromMesh topicHash peer).makePrune env topicHash peer)) ∧
        Subscribed topicHash (pruneExcess env topicHash outbound rest
          ((state.eraseFromMesh topicHash peer).makePrune env topicHash peer)) := by
      intro outbound
      refine (ih distinct ?_ (subscribed_cut subscribed)).imp_left
        fun chain => (Micro.cut state topicHash peer (members peer (by simp))).chain.trans chain
      intro other member
      rw [makePrune_meshOf, mem_eraseFromMesh]
      exact ⟨fun same => fresh (same ▸ member), later other member⟩
    unfold pruneExcess
    split_ifs
    · exact ⟨.refl, subscribed⟩
    · exact ih distinct later subscribed
    · exact cut _
    · exact cut _

theorem perm_pruneOrder : (state.pruneOrder env topicHash).1.Perm (state.meshOf topicHash).elements := by
  unfold pruneOrder
  dsimp only
  refine ((env.shufflePeers_perm _ _).append_right _).trans ?_
  rw [List.take_append_drop]
  exact (List.perm_insertionSort _ _).trans (env.shufflePeers_perm _ _)

theorem subscribed_graftAll {chosen : List PeerPtr} (subscribed : Subscribed topicHash state) :
    Subscribed topicHash (state.graftAll env topicHash chosen) := by
  have kept : ((state.graftAll env topicHash chosen).topics.lookup topicHash).map Topic.publishOnly =
      (state.topics.lookup topicHash).map Topic.publishOnly :=
    foldl_field (fun state : State R => (state.topics.lookup topicHash).map Topic.publishOnly)
      fun state peer => graft_field Topic.publishOnly fun _ _ => rfl
  exact kept.trans subscribed

theorem Subscribed.outside_of_eligible (subscribed : Subscribed topicHash state)
    (eligible : state.eligible env topicHash peer) : peer ∉ state.meshOf topicHash := by
  obtain ⟨topic, found, -⟩ := Option.map_eq_some_iff.mp subscribed
  rw [meshOf_of_lookup found]
  exact Gossip.outside_of_eligible found eligible

theorem chain_balanceMesh (subscribed : Subscribed topicHash state) :
    Chain env event state (state.balanceMesh env topicHash) ∧
      Subscribed topicHash (state.balanceMesh env topicHash) := by
  unfold balanceMesh
  dsimp only
  split_ifs
  · exact ⟨chain_chooseGraft subscribed (fun peer => subscribed.outside_of_eligible) fun peer => rested_of_eligible,
      subscribed_graftAll subscribed⟩
  · have shuffled : Chain env event state (state.pruneOrder env topicHash).2 :=
      (Ledger.shuffled state (state.random + 2)).chain
    have order : (state.pruneOrder env topicHash).1.Perm (state.meshOf topicHash).elements := perm_pruneOrder
    have members : ∀ peer ∈ (state.pruneOrder env topicHash).1,
        peer ∈ (state.pruneOrder env topicHash).2.meshOf topicHash :=
      fun peer member => order.mem_iff.mp member
    exact (chain_pruneExcess (order.nodup_iff.mpr (state.meshOf topicHash).nodup) members subscribed).imp_left
      shuffled.trans
  · exact ⟨.refl, subscribed⟩

theorem chain_balanceOutbound (subscribed : Subscribed topicHash state) :
    Chain env event state (state.balanceOutbound env topicHash) ∧
      Subscribed topicHash (state.balanceOutbound env topicHash) := by
  unfold balanceOutbound
  dsimp only
  split_ifs
  · refine ⟨chain_chooseGraft subscribed (fun peer wanted => ?_) fun peer wanted => ?_,
      subscribed_graftAll subscribed⟩
    · rw [Bool.and_eq_true] at wanted
      exact subscribed.outside_of_eligible wanted.2
    · rw [Bool.and_eq_true] at wanted
      exact rested_of_eligible wanted.2
  · exact ⟨.refl, subscribed⟩
  · exact ⟨.refl, subscribed⟩

theorem chain_graftOpportunistically (subscribed : Subscribed topicHash state) :
    Chain env event state (state.graftOpportunistically env topicHash) := by
  unfold graftOpportunistically
  dsimp only
  split_ifs
  · refine chain_chooseGraft subscribed (fun peer wanted => ?_) fun peer wanted topic found => ?_
    · simp only [Bool.and_eq_true, decide_eq_true_eq] at wanted
      exact wanted.1.1
    · simp only [found, Option.any_some, isBackoffWithSlack, Bool.and_eq_true, Bool.not_eq_true',
        decide_eq_false_iff_not, Nat.pos_iff_ne_zero, not_not] at wanted
      exact wanted.1.2
  · exact .refl
  · exact .refl

theorem chain_maintainTopic : Chain env event state (state.maintainTopic env topicHash) := by
  unfold maintainTopic
  split
  · exact .refl
  · next topic found =>
    split_ifs with publishOnly
    · exact chain_maintainFanout (by rw [found, Option.map_some, publishOnly])
    · have subscribed : Subscribed topicHash state := by
        rw [Subscribed, found, Option.map_some, Bool.eq_false_of_not_eq_true publishOnly]
      obtain ⟨pruning, subscribed⟩ : Chain env event state _ ∧ _ := chain_pruneNegative subscribed
      obtain ⟨balancing, subscribed⟩ : Chain env event _ _ ∧ _ := chain_balanceMesh subscribed
      obtain ⟨outbound, subscribed⟩ : Chain env event _ _ ∧ _ := chain_balanceOutbound subscribed
      exact ((pruning.trans balancing).trans outbound).trans (chain_graftOpportunistically subscribed)

/-- Every advertised id comes from the part of the history that is advertised. -/
theorem recent_advertised {messageIds : List MessageId} {random count : ℕ}
    (window : messageIds = ((state.topics.lookup topicHash).map fun topic =>
      topic.history.get env.config.historyGossip).getD []) :
    ∀ messageId ∈ (env.shuffleIds random messageIds).take count, ∃ topic,
      state.topics.lookup topicHash = some topic ∧ messageId ∈ topic.history.get env.config.historyGossip := by
  intro messageId member
  have inside := (env.shuffleIds_perm _ _).mem_iff.mp (List.mem_of_mem_take member)
  cases found : state.topics.lookup topicHash with
  | none =>
    rw [window, found] at inside
    cases inside
  | some topic =>
    rw [window, found] at inside
    exact ⟨topic, rfl, inside⟩

theorem chain_emitGossipFor : Chain env event state (state.emitGossipFor env topicHash) := by
  unfold emitGossipFor
  dsimp only
  split_ifs
  · exact .refl
  · refine chain_chooseCount.trans (chain_foldl (fun current : State R => current.topics = state.topics ∧
      ∀ peer, (current.heap peer).isGossipsub = (state.heap peer).isGossipsub) ?_ ?_).1
    swap
    · exact ⟨rfl, fun _ => rfl⟩
    rintro current peer chosen ⟨topics, kinds⟩
    have capable : (current.heap peer).isGossipsub := by
      rw [kinds]
      exact (mem_chooseCount chosen).2.1
    refine ⟨(Ledger.shuffled current (current.random + 1)).chain.tail
      (.queued _ peer (.ihave topicHash _ capable (recent_advertised ?_))), ?_, ?_⟩
    · simp only [topics]
    · exact (enqueue_frame peer _ _).1.trans topics
    · intro other
      rw [← kinds other, advertise, Peer.isGossipsub, Peer.supports, (enqueue_peer peer _ _).2.2.1]
      rfl

theorem chain_forTopics {act : TopicHash → State R → State R}
    (iteration : ∀ topicHash state, Chain env event state (act topicHash state)) :
    Chain env event state (state.forTopics env act) :=
  (Ledger.shuffled state (state.random + 1)).chain.trans
    (chain_foldl_of_body fun state topicHash _ => iteration topicHash state)

theorem chain_startHeartbeat (source : event = .heartbeat) : Chain env event state (state.startHeartbeat env) := by
  have shifting : ∀ state : State R, Chain env event state state.shiftBackoffs :=
    fun state => chain_foldl_of_body fun state topicHash _ =>
      (Micro.incidental state topicHash (.shifted source)).chain
  have counting : ∀ state : State R, Chain env event state
      { state with countReceivedIhave := ∅, countSentIwant := ∅ } :=
    fun state => (Ledger.counted state ∅ ∅ (.inl source)).chain
  have penalizing : ∀ state : State R, Chain env event state (state.applyIwantPenalties env) := by
    intro state
    have settled : Chain env event state.tick
        { state.tick with gossipPromises := (state.tick.gossipPromises.clearExpired (state.now env)).1 } :=
      (Ledger.settled state.tick (state.now env) source).chain
    refine ((Ledger.ticked state).chain.trans settled).trans (chain_foldl_of_body fun state entry _ => ?_)
    exact (Ledger.penalized state (state.heap entry.1).peerId entry.2).chain
  have beating : Chain env event state { state with heartbeatTicks := state.heartbeatTicks + 1 } :=
    (Ledger.beat state source).chain
  exact ((beating.trans (shifting _)).trans (counting _)).trans (penalizing _)

/-- Balancing meshes and advertising messages, in any event. -/
theorem chain_maintenance :
    Chain env event state ((state.forTopics env (maintainTopic env)).forTopics env (emitGossipFor env)) := by
  have maintaining : Chain env event state (state.forTopics env (maintainTopic env)) :=
    chain_forTopics fun topicHash state => chain_maintainTopic
  exact maintaining.trans (chain_forTopics fun topicHash state => chain_emitGossipFor)

theorem chain_clearRefusals : Chain env event state (state.clearRefusals env) := by
  refine (Ledger.ticked state).chain.trans (chain_foldl_of_body fun state entry _ => ?_)
  exact (Micro.inner state entry.2 (.cleared _)).chain

theorem chain_heartbeat (source : event = .heartbeat) : Chain env event state (state.heartbeat env) := by
  have expiring : ∀ state : State R, Chain env event state (state.expireTopics env) :=
    fun state => chain_foldl_of_body fun state topicHash _ => (Micro.expired state topicHash source).chain
  have aging : ∀ state : State R, Chain env event state (state.forTopics env shiftHistory) :=
    fun state => chain_forTopics fun topicHash state => (Micro.aged state topicHash source).chain
  exact (((chain_startHeartbeat source).trans (expiring _)).trans chain_maintenance).trans
    ((aging _).trans chain_clearRefusals)

end Maintaining

section Stepping

theorem chain_findOrRegister (peerId : PeerId) (out : Bool) :
    Chain env event state (state.findOrRegister peerId out) := by
  unfold findOrRegister
  split_ifs with known
  · exact .refl
  · exact (Micro.registered state peerId out known).chain

theorem chain_onPeerConnected (peerId : PeerId) (out : Bool) (source : event.dials) :
    Chain env event state (state.onPeerConnected peerId out) := by
  unfold onPeerConnected
  dsimp only
  split_ifs
  · exact (chain_findOrRegister peerId out).tail (.inner _ _ (.dialing true source))
  · exact chain_findOrRegister peerId out

theorem chain_onStreamOpened {peer : PeerPtr} {stream : Option Stream} (source : event = .streamOpened peer stream) :
    Chain env event state (state.onStreamOpened env peer stream) := by
  have dialed : Chain env event state (state.modifyPeer peer fun peer => { peer with isConnecting := false }) :=
    (Micro.inner state peer (.dialing false (by rw [source]; rfl))).chain
  cases stream with
  | none => exact dialed
  | some stream => exact dialed.tail (.opened _ peer stream source)

/-- Every step of the node is a chain of guarded updates. -/
theorem chain_of_step (sound : MeshSound state) (stepped : state.step env event = some after) :
    Chain env event state after := by
  cases event with
  | connected peerId out =>
    obtain rfl := Option.some.inj stepped
    exact chain_onPeerConnected peerId out rfl
  | streamOpened peer stream =>
    obtain ⟨-, ⟨⟩⟩ := Option.ite_none_right_eq_some.mp stepped
    exact chain_onStreamOpened rfl
  | handle peerId protocol =>
    obtain ⟨-, ⟨⟩⟩ := Option.ite_none_right_eq_some.mp stepped
    exact (chain_findOrRegister peerId false).tail (.typed _ _ protocol)
  | message peer encoded =>
    obtain ⟨allocated, ⟨⟩⟩ := Option.ite_none_right_eq_some.mp stepped
    exact chain_onMessage rfl allocated
  | disconnected peerId =>
    obtain rfl := Option.some.inj stepped
    exact (Micro.disconnected state peerId rfl).chain
  | subscribe topicHash =>
    obtain rfl := Option.some.inj stepped
    exact chain_getOrCreateTopic sound (fun _ => rfl) (.inl rfl)
  | publish topicHash data =>
    obtain rfl := Option.some.inj stepped
    exact chain_publish rfl
  | publishTopic topicHash data =>
    obtain ⟨subscribed, ⟨⟩⟩ := Option.ite_none_right_eq_some.mp stepped
    refine chain_publishTopic ?_ (.inr rfl)
    obtain ⟨topic, found, -⟩ := (Option.any_eq_true _ _).mp subscribed
    exact UnorderedMap.mem_of_lookup found
  | heartbeat =>
    obtain rfl := Option.some.inj stepped
    exact chain_heartbeat rfl
  | decay =>
    obtain rfl := Option.some.inj stepped
    exact (Ledger.decayed state).chain
  | resumeWriter peer =>
    obtain ⟨-, ⟨⟩⟩ := Option.ite_none_right_eq_some.mp stepped
    exact (Micro.resumed state peer rfl).chain
  | written peer ok =>
    simp only [step] at stepped
    split at stepped
    · obtain rfl := Option.some.inj stepped
      exact (Micro.written state peer _ _ rfl).chain
    · cases stepped

end Stepping

end Libp2p.Gossip
