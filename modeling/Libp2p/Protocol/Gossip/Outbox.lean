import Libp2p.Protocol.Gossip.Backoff

/-! # What is queued, and for whom

Every entry of a batch is recorded when it is queued. The entries that a guarded update adds are listed here once, with
what the code had established about the peer: grafts go to gossipsub peers outside the mesh whose backoff has run out,
prunes to gossipsub peers of the topic, and the rest is a subscription or something that may be queued on its own.
-/

namespace Libp2p.Gossip

open Library State

variable {R : Type} [Double R] {env : Env R} {event : Event} {state before after : State R}

/-- Why an entry is queued to a peer. -/
inductive Queued (env : Env R) (event : Event) (state : State R) (peer : PeerPtr) : BatchOp → Prop
  | subscribe (topicHash : TopicHash) : Queued env event state peer (.subscribe topicHash true)
  | graft (topicHash : TopicHash) (candidate : Candidate topicHash false peer state)
      (rested : Rested topicHash peer state) : Queued env event state peer (.graft topicHash)
  | prune (topicHash : TopicHash) (member : peer ∈ state.peersOf topicHash)
      (capable : (state.heap peer).isGossipsub) : Queued env event state peer (.prune topicHash
        (if (state.heap peer).isGossipsubv1_1 then some env.config.pruneBackoff else none))
  | permitted {op : BatchOp} (permitted : Permitted env event state peer op) : Queued env event state peer op

theorem Queued.member_of_prune {peer : PeerPtr} {op : BatchOp} {topicHash : TopicHash} {backoff : Option Backoff}
    (queued : Queued env event state peer op) (told : op = .prune topicHash backoff) :
    peer ∈ state.peersOf topicHash := by
  cases queued with
  | prune place member =>
    obtain ⟨rfl, -⟩ := BatchOp.prune.inj told
    exact member
  | permitted permitted =>
    subst told
    cases permitted
  | _ => cases told

theorem Queued.candidate_of_graft {peer : PeerPtr} {topicHash : TopicHash}
    (queued : Queued env event state peer (.graft topicHash)) :
    Candidate topicHash false peer state ∧ Rested topicHash peer state := by
  cases queued with
  | graft place candidate rested => exact ⟨candidate, rested⟩
  | permitted permitted => cases permitted

/-- The observation is that an entry was queued. -/
def Observation.isQueued : Observation → Bool
  | .queued .. => true
  | _ => false

/-- An update logs nothing but subscriptions and what is not an entry of a batch, or it queues one entry that the state
before it justifies; a peer that is told to back off then does. -/
inductive Logs (env : Env R) (event : Event) (before after : State R) : Prop
  | quiet (extra : List Observation) (log : after.log = extra ++ before.log)
      (calm : ∀ peer op, .queued peer op ∈ extra → ∃ topicHash, op = .subscribe topicHash true)
  | single (peer : PeerPtr) (op : BatchOp) (queued : Queued env event before peer op)
      (log : after.log = .queued peer op :: before.log)
      (rests : ∀ topicHash backoff, op = .prune topicHash (some backoff) → after.backoffs topicHash =
        (before.backoffs topicHash).map
          (·.update peer (backoffSlots env.config env.config.pruneBackoff env.config.backoffSlack)))

theorem Logs.same (log : after.log = before.log) : Logs env event before after :=
  .quiet [] log fun _ _ member => by cases member

theorem Logs.silent {observation : Observation} (silent : observation.isQueued = false)
    (log : after.log = observation :: before.log) : Logs env event before after := by
  refine .quiet [observation] log fun peer op member => ?_
  rw [← List.mem_singleton.mp member] at silent
  cases silent

theorem log_graft {topicHash : TopicHash} {peer : PeerPtr} (candidate : Candidate topicHash false peer state) :
    (state.graft env topicHash peer).log = .queued peer (.graft topicHash) :: state.log := by
  unfold graft
  rw [(enqueue_frame _ _ _).2.2.2.2.2.2.2.2]
  split
  · next topic found =>
    have outside := candidate.outside
    rw [meshOf_of_lookup found] at outside
    rw [if_neg outside]
    rfl
  · rfl

/-- Loops that announce topics queue subscriptions only. -/
theorem Logs.subscriptions {extra : List Observation} (log : after.log = extra ++ before.log)
    (only : ∀ observation ∈ extra, observation.isQueued → ∃ peer topicHash,
      observation = .queued peer (.subscribe topicHash true)) : Logs env event before after := by
  refine .quiet extra log fun peer op member => ?_
  obtain ⟨other, topicHash, same⟩ := only _ member rfl
  exact ⟨topicHash, (Observation.queued.inj same).2⟩

theorem logs_announceUpgrade {topicHash : TopicHash} : Logs env event state (state.announceUpgrade topicHash) := by
  set told := state.modifyTopic topicHash fun topic => { topic with publishOnly := false }
  have log : ((told.peersOf topicHash).elements.foldl
      (fun state peer => state.enqueue peer (.subscribe topicHash true)) told).log = _ :=
    log_foldl (fun peer => some (.queued peer (.subscribe topicHash true))) fun state peer =>
      (enqueue_frame peer _ state).2.2.2.2.2.2.2.2
  refine .subscriptions log fun observation member _ => ?_
  obtain ⟨peer, -, said⟩ := List.mem_filterMap.mp (List.mem_reverse.mp member)
  exact ⟨peer, topicHash, (Option.some.inj said).symm⟩

theorem logs_openStream {peer : PeerPtr} {stream : Stream} : Logs env event state (state.openStream env peer stream) := by
  unfold openStream
  dsimp only
  split_ifs
  · exact .silent rfl rfl
  · set opened := ((state.updatePeerKind env peer stream.protocol).modifyPeer peer fun peer =>
      { peer with streamOut := some stream }).record (.opened peer)
    have log : ((opened.getBatch peer).announceTopics peer).log = _ :=
      log_foldl (fun entry => if entry.2.publishOnly then none else some (.queued peer (.subscribe entry.1 true)))
        fun state entry => by
          split_ifs
          · rfl
          · exact (enqueue_frame peer _ state).2.2.2.2.2.2.2.2
    rw [(getBatch_frame peer opened).2.2.2.2.2.2.2.2] at log
    refine .subscriptions (log.trans (List.append_cons _ _ _)) fun observation member queued => ?_
    rcases List.mem_append.mp member with announced | first
    · obtain ⟨entry, -, said⟩ := List.mem_filterMap.mp (List.mem_reverse.mp announced)
      obtain ⟨-, ⟨⟩⟩ := Option.ite_none_left_eq_some.mp said
      exact ⟨peer, entry.1, rfl⟩
    · rw [List.mem_singleton.mp first] at queued
      cases queued

/-- Telling a peer to leave a mesh queues a prune, and a v1.1 peer backs off. -/
theorem logs_makePrune {topicHash : TopicHash} {peer : PeerPtr} {later : State R}
    (member : peer ∈ before.peersOf topicHash) (heap : later.heap = before.heap) (log : later.log = before.log)
    (wheels : ∀ place, later.backoffs place = before.backoffs place) :
    Logs env event before (later.makePrune env topicHash peer) := by
  have logged := @log_makePrune R _ env later topicHash peer
  rw [heap, log] at logged
  by_cases capable : (before.heap peer).isGossipsub
  · rw [if_pos capable] at logged
    refine .single peer _ (.prune topicHash member capable) logged fun place backoff told => ?_
    obtain ⟨rfl, some_⟩ := BatchOp.prune.inj told
    obtain ⟨recent, -⟩ := Option.ite_none_right_eq_some.mp some_
    rw [backoffs_makePrune, heap, if_pos recent, backoffs_updateBackoff, if_pos rfl, wheels]
  · exact .same (logged.trans (if_neg capable))

theorem Logs.erased {later : State R} (logs : Logs env event before after) (log : later.log = after.log)
    (wheels : ∀ place, later.backoffs place = after.backoffs place) : Logs env event before later := by
  cases logs with
  | quiet extra logged calm => exact .quiet extra (log.trans logged) calm
  | single peer op queued logged rests =>
    refine .single peer op queued (log.trans logged) fun topicHash backoff told => ?_
    rw [wheels, rests topicHash backoff told]

/-- What every guarded update queues. -/
theorem Micro.logs (micro : Micro env event before after) (sound : before.roster.Sound) :
    Logs env event before after := by
  have erased : ∀ (state : State R) topicHash peer place,
      (state.eraseFromMesh topicHash peer).backoffs place = state.backoffs place :=
    fun state topicHash peer place => backoffs_modifyTopic fun _ => rfl
  cases micro with
  | ledger ledger =>
    cases ledger with
    | penalized peerId count => exact .silent rfl rfl
    | duplicated peer messageId topicHash => exact .same (by rw [countDuplicate_eq])
    | decayed => exact .same rfl
    | _ => exact .same rfl
  | batched peer => exact .same (getBatch_frame peer before).2.2.2.2.2.2.2.2
  | queued peer permitted =>
    refine .single peer _ (.permitted permitted) (enqueue_frame peer _ before).2.2.2.2.2.2.2.2 ?_
    rintro topicHash backoff rfl
    cases permitted
  | grafted topicHash peer candidate rested =>
    exact .single peer _ (.graft topicHash candidate rested) (log_graft candidate) (by simp)
  | expelled topicHash peer member =>
    exact (logs_makePrune (sound.inside topicHash peer member).1 rfl rfl fun _ => rfl).erased rfl (erased _ _ _)
  | cut topicHash peer member =>
    exact logs_makePrune (sound.inside topicHash peer member).1 (by rfl) (by rfl) (erased before topicHash peer)
  | refused topicHash peer outside source member => exact logs_makePrune member rfl rfl fun _ => rfl
  | left => exact .same (by rw [leaveTopic_eq])
  | pruned => exact .same (by rw [removePeerFromMesh_eq])
  | upgraded topicHash => exact logs_announceUpgrade
  | admitted =>
    rw [deliver_eq]
    refine .quiet [_, _, _] rfl fun peer op member => ?_
    simp at member
  | originated =>
    rw [originate_eq]
    refine .quiet [_, _] rfl fun peer op member => ?_
    simp at member
  | opened peer stream => exact logs_openStream
  | disconnected => exact .same (by rw [onPeerDisconnected_eq])
  | expired => exact .same (by rw [expireTopic_eq])
  | aged => exact .same (by rw [shiftHistory_eq])
  | resumed peer =>
    unfold resumeWriter
    dsimp only
    split_ifs
    · exact .same rfl
    · exact .silent rfl rfl
  | written peer frame rest =>
    unfold onWritten
    dsimp only
    split_ifs
    · exact .silent rfl rfl
    · exact .silent rfl rfl
    · exact .silent rfl rfl
    · exact .same rfl
  | _ => exact .same rfl

end Libp2p.Gossip
