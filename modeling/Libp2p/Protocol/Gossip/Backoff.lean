import Libp2p.Protocol.Gossip.Announcements

/-! # Backoffs

The wheel of a topic stores every peer in the slot of its horizon, and a shift releases the slot whose turn it is. What
the code reads of it is the number of slots that remain for a peer. Over a wheel in which every listed peer stands in
the slot of its horizon and no horizon is further away than one round, an update raises that number, a shift lowers it
by one, and nothing else changes it.
-/

namespace Libp2p.Gossip

open Library State

namespace TopicBackoff

variable {backoff : TopicBackoff} {peer other : PeerPtr} {slots : ℕ}

/-- The number of slots of the wheel. -/
def round (backoff : TopicBackoff) : ℕ := backoff.slots.length

/-- Every listed peer stands once, in the slot of its horizon, and horizons are at most one round ahead. -/
structure Sound (backoff : TopicBackoff) : Prop where
  nodup : ∀ (index : ℕ) (list : List PeerPtr), backoff.slots[index]? = some list → list.Nodup
  listed : ∀ (index : ℕ) (list : List PeerPtr), backoff.slots[index]? = some list → ∀ peer ∈ list, ∃ horizon,
    backoff.peers.lookup peer = some horizon ∧ horizon % backoff.round = index
  near : ∀ peer horizon, backoff.peers.lookup peer = some horizon → horizon ≤ backoff.slot + (backoff.round - 1)

theorem sound_new {R : Type} {config : Config R} : (TopicBackoff.new config).Sound := by
  have empty : ∀ (index : ℕ) (list : List PeerPtr), (TopicBackoff.new config).slots[index]? = some list → list = [] := by
    intro index list found
    rw [new, List.getElem?_replicate] at found
    split_ifs at found
    exact (Option.some.inj found).symm
  refine ⟨?_, ?_, ?_⟩
  · intro index list found
    rw [empty index list found]
    exact List.nodup_nil
  · intro index list found peer member
    rw [empty index list found] at member
    cases member
  · intro peer horizon found
    cases found

@[simp] theorem get_new {R : Type} {config : Config R} : (TopicBackoff.new config).get peer = 0 := rfl

@[simp] theorem round_update : (backoff.update peer slots).round = backoff.round := by
  unfold update round
  split_ifs
  · rfl
  · dsimp only
    split
    · split_ifs
      · rfl
      · simp only [List.length_modify]
    · simp only [List.length_modify]

@[simp] theorem round_shift : backoff.shift.round = backoff.round := by
  simp only [shift, round, List.length_modify]

/-- What is modified in one slot of a wheel. -/
private theorem getElem?_modify_eq {wheel : List (List PeerPtr)} {index place : ℕ} {change : List PeerPtr → List PeerPtr}
    {list : List PeerPtr} (found : (wheel.modify place change)[index]? = some list) :
    ∃ earlier, wheel[index]? = some earlier ∧ list = if place = index then change earlier else earlier := by
  rw [List.getElem?_modify] at found
  obtain ⟨earlier, there, changed⟩ := Option.map_eq_some_iff.mp found
  exact ⟨earlier, there, changed.symm⟩

/-- The wheel after a peer has moved to a later slot. -/
private theorem sound_moved (sound : backoff.Sound) {horizon : ℕ} {wheel : List (List PeerPtr)}
    (bound : horizon ≤ backoff.slot + (backoff.round - 1)) (length : wheel.length = backoff.round)
    (removed : ∀ (index : ℕ) (list : List PeerPtr), wheel[index]? = some list →
      ∃ earlier, backoff.slots[index]? = some earlier ∧ list.Sublist earlier ∧ peer ∉ list) :
    ({ backoff with
      slots := wheel.modify (horizon % backoff.round) (· ++ [peer])
      peers := backoff.peers.insert peer horizon } : TopicBackoff).Sound := by
  have round : ∀ place (change : List PeerPtr → List PeerPtr), (wheel.modify place change).length = backoff.round :=
    fun place change => by rw [List.length_modify, length]
  refine ⟨?_, ?_, ?_⟩
  · intro index list found
    obtain ⟨kept, there, rfl⟩ := getElem?_modify_eq found
    obtain ⟨earlier, before, fewer, gone⟩ := removed index kept there
    have distinct := (sound.nodup index earlier before).sublist fewer
    split_ifs
    · exact distinct.append (List.nodup_singleton _) (by simpa using gone)
    · exact distinct
  · intro index list found candidate member
    obtain ⟨kept, there, rfl⟩ := getElem?_modify_eq found
    obtain ⟨earlier, before, fewer, gone⟩ := removed index kept there
    simp only [TopicBackoff.round, round, UnorderedMap.lookup_insert_eq]
    have old : candidate ∈ kept → ∃ found, (if candidate = peer then some horizon else
        backoff.peers.lookup candidate) = some found ∧ found % backoff.round = index := by
      intro inside
      have different : candidate ≠ peer := by
        rintro rfl
        exact gone inside
      rw [if_neg different]
      exact sound.listed index earlier before candidate (fewer.subset inside)
    split_ifs at member with here
    · rcases List.mem_append.mp member with inside | new
      · exact old inside
      · rw [List.mem_singleton.mp new]
        exact ⟨horizon, if_pos rfl, here⟩
    · exact old member
  · intro candidate later found
    simp only [TopicBackoff.round, round]
    simp only [UnorderedMap.lookup_insert_eq] at found
    split_ifs at found
    · rw [← Option.some.inj found]
      exact bound
    · exact sound.near candidate later found

theorem sound_update (sound : backoff.Sound) : (backoff.update peer slots).Sound := by
  unfold update
  split_ifs
  · exact sound
  · have bound : backoff.slot + min slots (backoff.slots.length - 1) ≤ backoff.slot + (backoff.round - 1) :=
      Nat.add_le_add_left (min_le_right _ _) _
    dsimp only
    split
    · next previous known =>
      split_ifs
      · exact sound
      · refine sound_moved sound bound (List.length_modify ..) fun index list found => ?_
        obtain ⟨earlier, there, rfl⟩ := getElem?_modify_eq found
        refine ⟨earlier, there, ?_, ?_⟩
        · split_ifs
          · exact List.erase_sublist
          · exact List.Sublist.refl _
        · split_ifs with here
          · exact (sound.nodup index earlier there).not_mem_erase
          · -- A peer that is listed stands in the slot of its horizon, which is another one.
            intro member
            obtain ⟨horizon, found, place⟩ := sound.listed index earlier there peer member
            rw [known] at found
            rw [← Option.some.inj found] at place
            exact here place
    · next unknown =>
      refine sound_moved sound bound rfl fun index list found => ⟨list, found, List.Sublist.refl _, ?_⟩
      intro member
      obtain ⟨horizon, known, -⟩ := sound.listed index list found peer member
      rw [unknown] at known
      cases known

/-- An update raises the remaining slots of its peer, up to one round less one. -/
theorem get_update : (backoff.update peer slots).get other =
    if other = peer then max (backoff.get peer) (min slots (backoff.round - 1)) else backoff.get other := by
  unfold update
  split_ifs with none same same
  · simp [none, same]
  · rfl
  · subst same
    dsimp only
    simp only [get]
    cases known : backoff.peers.lookup other with
    | none => simp [round]
    | some previous =>
      dsimp only
      split_ifs with earlier
      · simp only [known, round]
        omega
      · simp only [AList.lookup_insert, round]
        omega
  · dsimp only
    simp only [get]
    cases known : backoff.peers.lookup peer with
    | none => simp only [AList.lookup_insert_ne same]
    | some previous =>
      dsimp only
      split_ifs
      · rfl
      · simp only [AList.lookup_insert_ne same]

theorem sound_shift (sound : backoff.Sound) : backoff.shift.Sound := by
  refine ⟨?_, ?_, ?_⟩
  · intro index list found
    obtain ⟨earlier, there, rfl⟩ := getElem?_modify_eq found
    split_ifs
    · exact List.nodup_nil
    · exact sound.nodup index earlier there
  · intro index list found peer member
    obtain ⟨earlier, there, rfl⟩ := getElem?_modify_eq found
    split_ifs at member with here
    · cases member
    · obtain ⟨horizon, known, place⟩ := sound.listed index earlier there peer member
      refine ⟨horizon, ?_, by rw [round_shift, place]⟩
      simp only [shift]
      rw [UnorderedMap.lookup_foldl_erase, if_neg, known]
      intro released
      -- The peer would be listed in two slots.
      rw [List.getD_eq_getElem?_getD] at released
      cases current : backoff.slots[backoff.slot % backoff.slots.length]? with
      | none =>
        rw [current] at released
        cases released
      | some due =>
        rw [current] at released
        obtain ⟨horizon', known', place'⟩ := sound.listed _ due current peer released
        rw [known] at known'
        rw [← Option.some.inj known', place] at place'
        exact here place'.symm
  · intro peer horizon found
    simp only [shift] at found
    rw [UnorderedMap.lookup_foldl_erase] at found
    split_ifs at found
    have bound := sound.near peer horizon found
    rw [round_shift]
    simp only [shift]
    omega

/-- A horizon in the slot whose turn it is has been reached. -/
theorem le_of_mod_eq {horizon slot round : ℕ} (same : horizon % round = slot % round)
    (near : horizon ≤ slot + (round - 1)) : horizon ≤ slot := by
  by_contra later
  rcases Nat.eq_zero_or_pos round with rfl | positive
  · simp only [Nat.mod_zero] at same
    omega
  · have difference : round ∣ horizon - slot := Nat.dvd_of_mod_eq_zero (Nat.sub_mod_eq_zero_of_mod_eq same)
    have := Nat.le_of_dvd (by omega) difference
    omega

/-- A shift lowers the remaining slots of every peer by one. -/
theorem get_shift (sound : backoff.Sound) : backoff.shift.get peer = backoff.get peer - 1 := by
  simp only [get, shift]
  rw [UnorderedMap.lookup_foldl_erase]
  split_ifs with released
  · rw [List.getD_eq_getElem?_getD] at released
    cases current : backoff.slots[backoff.slot % backoff.slots.length]? with
    | none =>
      rw [current] at released
      cases released
    | some due =>
      rw [current] at released
      obtain ⟨horizon, known, place⟩ := sound.listed _ due current peer released
      have reached := le_of_mod_eq place (sound.near peer horizon known)
      simp only [known]
      omega
  · cases backoff.peers.lookup peer with
    | none => rfl
    | some horizon =>
      dsimp only
      omega

/-- No more remains than one round less one. -/
theorem get_le (sound : backoff.Sound) : backoff.get peer ≤ backoff.round - 1 := by
  unfold get
  split
  · exact Nat.zero_le _
  · next horizon known =>
    have := sound.near peer horizon known
    omega

end TopicBackoff

variable {R : Type} [Double R] {env : Env R} {event : Event} {state before after : State R}

/-- The wheel of a topic that exists. -/
def State.backoffs (state : State R) (topicHash : TopicHash) : Option TopicBackoff :=
  (state.topics.lookup topicHash).map Topic.backoff

/-- Why a backoff of a peer is renewed: it is told to leave the mesh, or it says that it leaves. -/
def Renewed (event : Event) (before after : State R) (topicHash : TopicHash) (peer : PeerPtr) : Prop :=
  (∃ backoff, after.log = .queued peer (.prune topicHash backoff) :: before.log) ∨
    ∃ rpc, event.Carries peer rpc ∧ (topicHash ∈ rpc.leaves ∨ ∃ backoff, (topicHash, backoff) ∈ rpc.prunes)

/-- What an update does to the wheel of a topic, other than advancing or dropping it. -/
inductive BackoffStep (env : Env R) (event : Event) (before after : State R) (topicHash : TopicHash) : Prop
  | kept (same : after.backoffs topicHash = before.backoffs topicHash)
  | created (absent : before.backoffs topicHash = none)
      (fresh : after.backoffs topicHash = some (TopicBackoff.new env.config))
  | renewed {backoff : TopicBackoff} (peer : PeerPtr) (slots : ℕ) (found : before.backoffs topicHash = some backoff)
      (updated : after.backoffs topicHash = some (backoff.update peer slots))
      (cause : Renewed event before after topicHash peer)

section Wheels

variable {topicHash other : TopicHash} {peer : PeerPtr}

theorem backoffs_modifyTopic {change : Topic → Topic} (kept : ∀ topic, (change topic).backoff = topic.backoff) :
    (state.modifyTopic topicHash change).backoffs other = state.backoffs other :=
  modifyTopic_field Topic.backoff kept

theorem backoffs_updateBackoff {backoff : Backoff} : (state.updateBackoff env topicHash peer backoff).backoffs other =
    if other = topicHash then
      (state.backoffs topicHash).map (·.update peer (backoffSlots env.config backoff env.config.backoffSlack))
    else state.backoffs other := by
  unfold State.backoffs updateBackoff
  rw [lookup_modifyTopic]
  split_ifs
  · rw [Option.map_map, Option.map_map]
    rfl
  · rfl

theorem backoffs_graft : (state.graft env topicHash peer).backoffs other = state.backoffs other := by
  unfold State.backoffs
  rw [graft_topics]
  exact backoffs_modifyTopic fun _ => rfl

theorem isGossipsub_of_v1_1 {peer : Peer} (recent : peer.isGossipsubv1_1) : peer.isGossipsub := by
  unfold Peer.isGossipsubv1_1 Peer.supports at recent
  unfold Peer.isGossipsub Peer.supports
  cases kind : peer.peerKind with
  | none => simp [kind] at recent
  | some own => cases own <;> simp_all [PeerKind.rank]

/-- Only a v1.1 peer that is told to leave a mesh gets a backoff. -/
theorem backoffs_makePrune : (state.makePrune env topicHash peer).backoffs other =
    if (state.heap peer).isGossipsubv1_1 then
      (state.updateBackoff env topicHash peer env.config.pruneBackoff).backoffs other
    else state.backoffs other := by
  unfold State.backoffs
  by_cases recent : (state.heap peer).isGossipsubv1_1
  · have capable := isGossipsub_of_v1_1 recent
    simp only [makePrune, modifyScore, capable, recent, not_true, if_true, if_false, enqueue_frame]
    rfl
  · by_cases capable : (state.heap peer).isGossipsub
    · simp only [makePrune, modifyScore, capable, recent, not_true, if_false, enqueue_frame, Bool.false_eq_true]
    · simp only [makePrune, capable, recent, not_false_iff, if_true, Bool.false_eq_true, if_false]

theorem backoffs_removePeerFromMesh {backoff : Option Backoff} {always : Bool} :
    (state.removePeerFromMesh env topicHash peer backoff always).backoffs other =
      if always ∨ peer ∈ state.meshOf topicHash then
        (state.updateBackoff env topicHash peer (backoff.getD env.config.pruneBackoff)).backoffs other
      else state.backoffs other := by
  unfold removePeerFromMesh
  split
  · next absent =>
    have nothing : (state.updateBackoff env topicHash peer (backoff.getD env.config.pruneBackoff)).backoffs other =
        state.backoffs other := by
      rw [backoffs_updateBackoff]
      split_ifs with same
      · rw [same, State.backoffs, absent]
        rfl
      · rfl
    rw [nothing, ite_self]
  · next topic found =>
    have erased : ∀ place, (state.modifyTopic topicHash fun topic =>
        { topic with meshPeers := topic.meshPeers.erase peer }).backoffs place = state.backoffs place :=
      fun place => backoffs_modifyTopic fun _ => rfl
    have scored : ∀ (state : State R) (change : Score R → Score R) place,
        (state.modifyScore change).backoffs place = state.backoffs place := fun _ _ _ => rfl
    rw [meshOf_of_lookup found]
    dsimp only
    split_ifs <;> simp only [backoffs_updateBackoff, scored, erased]

theorem log_makePrune {topicHash : TopicHash} {peer : PeerPtr} : (state.makePrune env topicHash peer).log =
    if (state.heap peer).isGossipsub then .queued peer (.prune topicHash
      (if (state.heap peer).isGossipsubv1_1 then some env.config.pruneBackoff else none)) :: state.log
    else state.log := by
  by_cases capable : (state.heap peer).isGossipsub
  · by_cases recent : (state.heap peer).isGossipsubv1_1
    · simp only [makePrune, modifyScore, capable, recent, not_true, if_true, if_false, enqueue_frame]
      rfl
    · simp only [makePrune, modifyScore, capable, recent, not_true, if_true, if_false, enqueue_frame,
        Bool.false_eq_true]
  · simp only [makePrune, capable, not_false_iff, if_true, Bool.false_eq_true, if_false]

/-- What being told to leave a mesh does to the wheel. -/
theorem step_makePrune {later : State R} (heap : later.heap = before.heap) (log : later.log = before.log)
    (wheels : ∀ place, later.backoffs place = before.backoffs place) (place : TopicHash) :
    BackoffStep env event before (later.makePrune env topicHash peer) place := by
  by_cases recent : (before.heap peer).isGossipsubv1_1
  · have updated : (later.makePrune env topicHash peer).backoffs place =
        if place = topicHash then (before.backoffs topicHash).map
          (·.update peer (backoffSlots env.config env.config.pruneBackoff env.config.backoffSlack))
        else before.backoffs place := by
      rw [backoffs_makePrune, heap, if_pos recent, backoffs_updateBackoff, wheels, wheels]
    split_ifs at updated with same
    · cases found : before.backoffs topicHash with
      | none =>
        rw [found, Option.map_none] at updated
        exact .kept (updated.trans (by rw [same, found]))
      | some backoff =>
        rw [found, Option.map_some] at updated
        refine .renewed peer _ (by rw [same, found]) updated (.inl ?_)
        rw [log_makePrune, heap, if_pos (isGossipsub_of_v1_1 recent), log, same]
        exact ⟨_, rfl⟩
    · exact .kept updated
  · exact .kept (by rw [backoffs_makePrune, heap, if_neg recent, wheels])

/-- What leaving a mesh does to the wheel. -/
theorem step_removePeerFromMesh {later : State R} {backoff : Option Backoff} {always : Bool} {rpc : Pb.RPC}
    (wheels : ∀ place, later.backoffs place = before.backoffs place) (carried : event.Carries peer rpc)
    (named : topicHash ∈ rpc.leaves ∨ ∃ backoff, (topicHash, backoff) ∈ rpc.prunes) (place : TopicHash) :
    BackoffStep env event before (later.removePeerFromMesh env topicHash peer backoff always) place := by
  have updated := @backoffs_removePeerFromMesh R _ env later topicHash place peer backoff always
  split_ifs at updated
  · rw [backoffs_updateBackoff, wheels, wheels] at updated
    split_ifs at updated with same
    · cases found : before.backoffs topicHash with
      | none =>
        rw [found, Option.map_none] at updated
        exact .kept (updated.trans (by rw [same, found]))
      | some backoff =>
        rw [found, Option.map_some] at updated
        exact .renewed peer _ (by rw [same, found]) updated (.inr ⟨rpc, carried, by rwa [same]⟩)
    · exact .kept updated
  · exact .kept (updated.trans (wheels place))

theorem backoffs_announceUpgrade : (state.announceUpgrade topicHash).backoffs other = state.backoffs other := by
  have told : ∀ (peers : List PeerPtr) (state : State R),
      (peers.foldl (fun state peer => state.enqueue peer (.subscribe topicHash true)) state).backoffs = state.backoffs :=
    fun _ _ => foldl_field State.backoffs fun state peer => by
      unfold State.backoffs
      rw [(enqueue_frame peer _ state).1]
  unfold announceUpgrade
  rw [backoffs_modifyTopic (by exact fun _ => rfl)]
  refine (congrFun (told _ _) other).trans (backoffs_modifyTopic fun _ => rfl)

theorem backoffs_onPeerDisconnected {peerId : PeerId} :
    (state.onPeerDisconnected env peerId).backoffs other = state.backoffs other := by
  unfold onPeerDisconnected
  dsimp only
  split
  · rfl
  · next peer found =>
    have kept : ∀ (state : State R) topicHash, (forgetInTopic peer state topicHash).backoffs = state.backoffs :=
      fun state topicHash => funext fun place => backoffs_modifyTopic fun _ => rfl
    exact congrFun (foldl_field State.backoffs kept) other

/-- Outside of a heartbeat a wheel is created, renewed for one peer or kept. -/
theorem Micro.backed (micro : Micro env event before after) (calm : event ≠ .heartbeat) (place : TopicHash) :
    BackoffStep env event before after place := by
  cases micro with
  | ledger ledger =>
    cases ledger with
    | duplicated => exact .kept (by rw [countDuplicate_eq]; rfl)
    | _ => exact .kept rfl
  | incidental topicHash only =>
    cases only with
    | stamped time => exact .kept (backoffs_modifyTopic fun _ => rfl)
    | shifted source => exact absurd source calm
  | batched peer => exact .kept (by unfold State.backoffs; rw [(getBatch_frame peer before).1])
  | queued peer => exact .kept (by unfold State.backoffs; rw [(enqueue_frame peer _ before).1])
  | grafted => exact .kept backoffs_graft
  | expelled topicHash peer =>
    have step := @step_makePrune R _ env event before topicHash peer before rfl rfl (fun _ => rfl) place
    have erased : ((before.makePrune env topicHash peer).eraseFromMesh topicHash peer).backoffs place =
        (before.makePrune env topicHash peer).backoffs place := backoffs_modifyTopic fun _ => rfl
    cases step with
    | kept same => exact .kept (erased.trans same)
    | created absent fresh => exact .created absent (erased.trans fresh)
    | renewed peer slots found updated cause => exact .renewed peer slots found (erased.trans updated) cause
  | cut topicHash peer =>
    have erased : ∀ place, (before.eraseFromMesh topicHash peer).backoffs place = before.backoffs place :=
      fun place => backoffs_modifyTopic fun _ => rfl
    exact step_makePrune (by rfl) (by rfl) erased place
  | refused topicHash peer => exact step_makePrune rfl rfl (fun _ => rfl) place
  | joined => exact .kept (by unfold acceptGraft; exact backoffs_modifyTopic fun _ => rfl)
  | announced => exact .kept (by unfold addToTopic; exact backoffs_modifyTopic fun _ => rfl)
  | @left topicHash peer _ _ _ carried named =>
    have erased : ∀ place, ((before.modifyPeer peer fun peer =>
        { peer with topics := peer.topics.erase topicHash }).modifyTopic topicHash fun topic =>
          { topic with peers := topic.peers.erase peer }).backoffs place = before.backoffs place :=
      fun place => backoffs_modifyTopic fun _ => rfl
    exact step_removePeerFromMesh erased carried (.inl named) place
  | pruned topicHash peer backoff carried named =>
    exact step_removePeerFromMesh (fun _ => rfl) carried (.inr ⟨backoff, named⟩) place
  | fannedOut => exact .kept (backoffs_modifyTopic fun topic => by split_ifs <;> rfl)
  | trimmed => exact .kept (backoffs_modifyTopic fun _ => rfl)
  | created topicHash publishOnly absent =>
    by_cases same : place = topicHash
    · refine .created ?_ ?_
      · rw [same, State.backoffs, AList.lookup_eq_none.mpr absent]
        rfl
      · rw [same, State.backoffs, createTopic, AList.lookup_insert]
        rfl
    · refine .kept ?_
      rw [State.backoffs, createTopic, AList.lookup_insert_ne same]
      rfl
  | upgraded topicHash =>
    exact .kept backoffs_announceUpgrade
  | admitted => exact .kept (by rw [deliver_eq]; exact backoffs_modifyTopic fun _ => rfl)
  | originated => exact .kept (by rw [originate_eq]; exact backoffs_modifyTopic fun _ => rfl)
  | opened peer stream => exact .kept (by rw [openStream_eq]; rfl)
  | disconnected => exact .kept backoffs_onPeerDisconnected
  | expired topicHash source => exact absurd source calm
  | aged topicHash source => exact absurd source calm
  | resumed => exact .kept (by rw [resumeWriter_eq]; rfl)
  | written => exact .kept (by rw [onWritten_eq]; rfl)
  | _ => exact .kept rfl

end Wheels

end Libp2p.Gossip
