import Libp2p.Protocol.Gossip.Annotations
import Libp2p.Protocol.Gossip.Handling
import Libp2p.Protocol.Gossip.Pacing

/-! # What a node remembers about the messages it asks for

The counters of a heartbeat, the promises and the duplicate cache are only touched by a few operations: messages that
arrive or are published, the advertisements of an RPC, and the start of a heartbeat. Everything else leaves this view
of a state alone, which is stated here once for every part of an RPC and for every other event.
-/

namespace Libp2p.Gossip

open Library State

/-- The counters, the promises and the known ids. -/
@[ext]
structure Requests where
  received : UnorderedMap PeerPtr ℕ
  sent : UnorderedMap PeerPtr ℕ
  promises : GossipPromises MessageId PeerPtr
  duplicates : DuplicateCache MessageId

variable {R : Type} [Double R] {env : Env R} {event : Event} {state before after : State R} {peer : PeerPtr}
  {topicHash : TopicHash} {messageId : MessageId} {message : Message}

def State.requests (state : State R) : Requests where
  received := state.countReceivedIhave
  sent := state.countSentIwant
  promises := state.gossipPromises
  duplicates := state.duplicateCache

section Primitives

theorem requests_enqueue {op : BatchOp} : (state.enqueue peer op).requests = state.requests := by
  rw [enqueue_eq]
  rfl

theorem requests_getBatch : (state.getBatch peer).requests = state.requests := by
  rw [getBatch_eq]
  rfl

theorem requests_graft : (state.graft env topicHash peer).requests = state.requests := by
  rw [graft_eq]
  rfl

theorem requests_makePrune : (state.makePrune env topicHash peer).requests = state.requests := by
  rw [makePrune_eq]
  rfl

theorem requests_removePeerFromMesh {backoff : Option Backoff} {always : Bool} :
    (state.removePeerFromMesh env topicHash peer backoff always).requests = state.requests := by
  rw [removePeerFromMesh_eq]
  rfl

/-- Entries are put into batches, and nothing is asked for. -/
structure Handed (before after : State R) : Prop where
  requests : after.requests = before.requests
  log : ∃ more, after.log = more ++ before.log ∧ ∀ observation ∈ more, ∃ peer op, observation = .queued peer op

theorem Handed.same (requests : after.requests = before.requests) (log : after.log = before.log) :
    Handed before after :=
  ⟨requests, [], log, by simp⟩

theorem Handed.trans {middle : State R} (first : Handed before middle) (second : Handed middle after) :
    Handed before after := by
  obtain ⟨early, logged, queued⟩ := first.log
  obtain ⟨late, logged', queued'⟩ := second.log
  refine ⟨second.requests.trans first.requests, late ++ early, ?_, ?_⟩
  · rw [logged', logged, List.append_assoc]
  · intro observation member
    rcases List.mem_append.mp member with here | here
    · exact queued' observation here
    · exact queued observation here

theorem handed_getBatch : Handed state (state.getBatch peer) :=
  .same requests_getBatch (by rw [getBatch_eq])

theorem handed_enqueue {op : BatchOp} : Handed state (state.enqueue peer op) := by
  refine ⟨requests_enqueue, [.queued peer op], by rw [enqueue_eq]; rfl, ?_⟩
  intro observation member
  exact ⟨peer, op, List.mem_singleton.mp member⟩

theorem handed_foldl {α : Type} {body : State R → α → State R} {entries : List α}
    (each : ∀ state entry, Handed state (body state entry)) : Handed state (entries.foldl body state) := by
  induction entries generalizing state with
  | nil => exact .same rfl rfl
  | cons entry rest ih => exact (each state entry).trans ih

theorem handed_addPeer {from_ : Option PeerId} : Handed state (addPeer env from_ messageId message state peer) := by
  unfold addPeer
  dsimp only
  split_ifs
  · exact .same rfl rfl
  · exact .same rfl rfl
  · exact .same rfl rfl
  · exact (handed_getBatch.trans handed_enqueue).trans handed_enqueue
  · exact handed_getBatch.trans handed_enqueue

theorem handed_addPeers {from_ : Option PeerId} {peers : List PeerPtr} :
    Handed state (peers.foldl (addPeer env from_ messageId message) state) :=
  handed_foldl fun _ _ => handed_addPeer

theorem handed_addFanout {from_ : Option PeerId} {peers : List PeerPtr} :
    Handed state (state.addFanout env topicHash from_ messageId message peers) := by
  refine handed_foldl fun state peer => ?_
  have given : Handed state (addPeer env from_ messageId message state peer) := handed_addPeer
  exact given.trans (.same rfl rfl)

theorem handed_stamp {time : Time} :
    Handed state (state.modifyTopic topicHash fun topic => { topic with lastPublish := time }).tick :=
  .same rfl rfl

theorem handed_broadcastMesh {from_ : Option PeerId} :
    Handed state (state.broadcastMesh env topicHash from_ messageId message) := by
  unfold broadcastMesh
  set flooded := ((state.peersOf topicHash).elements.filter fun peer => (state.heap peer).isFloodsub).foldl
    (addPeer env from_ messageId message) state
  set meshed := (flooded.meshOf topicHash).elements.foldl (addPeer env from_ messageId message) flooded
  have both : Handed state meshed := handed_addPeers.trans handed_addPeers
  dsimp only
  split_ifs
  · refine Handed.trans ?_ handed_stamp
    refine Handed.trans ?_ handed_addFanout
    refine both.trans ?_
    unfold choose chooseCount
    exact .same rfl rfl
  · exact both.trans handed_stamp
  · exact both

/-- Handing a message to its recipients asks for nothing. -/
theorem handed_spread {from_ : Option PeerId} : Handed state (state.spread env topicHash from_ messageId message) := by
  have told : ∀ (peers : List PeerPtr) (state : State R), Handed state (peers.foldl
      (fun state peer => state.enqueue peer (.idontwant messageId)) state) :=
    fun _ _ => handed_foldl fun _ _ => handed_enqueue
  unfold spread
  dsimp only
  split_ifs
  · exact (told _ _).trans handed_addPeers
  · exact handed_addPeers
  · exact (told _ _).trans handed_broadcastMesh
  · exact handed_broadcastMesh

end Primitives

section Parts

theorem requests_onSubscription {pbSubscribe : Pb.SubOpts} :
    (state.onSubscription env peer pbSubscribe).requests = state.requests := by
  unfold onSubscription
  dsimp only
  split_ifs
  · unfold graftOnSubscribe
    split
    · rfl
    · split_ifs
      · exact requests_graft
      · rfl
  · exact requests_removePeerFromMesh

theorem requests_onGraft {pbGraft : Pb.ControlGraft} : (state.onGraft env peer pbGraft).requests = state.requests := by
  unfold onGraft
  dsimp only
  split
  · rfl
  · next topic found =>
    have decided : ∀ state : State R,
        (state.graftDecision env peer (pbGraft.topicId.getD []) topic).2.requests = state.requests := fun state =>
      @graftDecision_induction R _ env (fun after => after.requests = state.requests) _ _ _ _ rfl fun _ same => same
    split_ifs
    · rfl
    · rfl
    · exact decided _
    · exact requests_makePrune.trans (decided _)

theorem requests_onPrune {pbPrune : Pb.ControlPrune} : (state.onPrune env peer pbPrune).requests = state.requests :=
  requests_removePeerFromMesh

theorem requests_serveMessage : (state.serveMessage env peer messageId).requests = state.requests := by
  unfold serveMessage
  split
  · rfl
  · dsimp only
    split_ifs
    · rfl
    · rfl
    · exact requests_enqueue

theorem requests_onIdontwant {pbIdontwant : Pb.ControlIDontWant} :
    (state.onIdontwant env peer pbIdontwant).requests = state.requests :=
  foldl_field State.requests fun _ _ => rfl

/-- The observation says that the node has taken a message as new. -/
def Observation.admitted : Observation → Option MessageId
  | .accepted _ messageId _ _ _ => some messageId
  | .published messageId _ _ _ => some messageId
  | _ => none

/-- What the node has taken as new on the way from one state to another, oldest first. -/
def State.admitted (before after : State R) : List MessageId := (before.gained after).filterMap Observation.admitted

theorem admitted_same (log : after.log = before.log) : before.admitted after = [] := by
  rw [State.admitted, gained_same log]
  rfl

/-- Handing a message out admits nothing. -/
theorem Handed.admitted {middle : State R} (handed : Handed middle after) {more : List Observation}
    (log : middle.log = more ++ before.log) : before.admitted after = before.admitted middle := by
  obtain ⟨late, logged, queued⟩ := handed.log
  have silent : late.reverse.filterMap Observation.admitted = [] := by
    rw [List.filterMap_eq_nil_iff]
    intro observation member
    obtain ⟨peer, op, rfl⟩ := queued observation (List.mem_reverse.mp member)
    rfl
  rw [log, ← List.append_assoc] at logged
  rw [State.admitted, State.admitted, gained_append logged, gained_append log, List.reverse_append,
    List.filterMap_append, silent, List.append_nil]

/-- A message is new to the node: nobody is waited for any more and its id is known. -/
def Requests.accept (env : Env R) (state : State R) (messageId : MessageId) : Requests :=
  { state.requests with
    promises := state.gossipPromises.remove messageId
    duplicates := (state.duplicateCache.insert messageId (state.now env) (state.tick.now env)).1 }

/-- A message of an RPC is dropped, found to be a duplicate, or accepted. -/
inductive Arrival (env : Env R) (before after : State R) : Prop
  | dropped (requests : after.requests = before.requests) (none : before.admitted after = [])
  | duplicate (messageId : MessageId)
      (known : (before.duplicateCache.insert messageId (before.now env) (before.tick.now env)).2 = false)
      (requests : after.requests = { before.requests with
        duplicates := (before.duplicateCache.insert messageId (before.now env) (before.tick.now env)).1 })
      (none : before.admitted after = [])
  | accepted (messageId : MessageId) (requests : after.requests = .accept env before messageId)
      (one : before.admitted after = [messageId])

theorem arrival_onPublish (pbPublish : Pb.Message) : Arrival env state (state.onPublish env peer pbPublish) := by
  unfold onPublish
  split
  · exact .dropped rfl (admitted_same rfl)
  · next message valid =>
    unfold receiveMessage
    split_ifs with topic
    · dsimp only
      split_ifs with fresh
      · have spreading := @handed_spread R _ env ((state.dateMessage env (env.config.messageIdFn message)).deliver env peer
          (env.config.messageIdFn message) message (state.now env) (state.tick.now env)) message.topic
          (env.config.messageIdFn message) message (some (state.heap peer).peerId)
        refine .accepted (env.config.messageIdFn message) ?_ ?_
        · refine spreading.requests.trans ?_
          rw [deliver_eq]
          rfl
        · have log : ((state.dateMessage env (env.config.messageIdFn message)).deliver env peer
              (env.config.messageIdFn message) message (state.now env) (state.tick.now env)).log =
              [.broadcast message.topic (some (state.heap peer).peerId) (env.config.messageIdFn message) message,
                .delivered message.topic (env.config.messageIdFn message) message (state.now env) (state.tick.now env),
                .accepted peer (env.config.messageIdFn message) message (state.now env) (state.tick.now env)] ++
              state.log := by
            rw [deliver_eq]
            rfl
          refine (spreading.admitted log).trans ?_
          rw [State.admitted, gained_append log]
          rfl
      · refine .duplicate (env.config.messageIdFn message) (Bool.eq_false_of_not_eq_true fresh) ?_ (admitted_same ?_)
        · rw [countDuplicate_eq]
          rfl
        · rw [countDuplicate_eq]
          rfl
    · exact .dropped rfl (admitted_same rfl)

/-- A publication is a duplicate, or new. -/
inductive Publication (env : Env R) (before after : State R) : Prop
  | duplicate (requests : after.requests = before.requests) (none : before.admitted after = [])
  | published (messageId : MessageId) (requests : after.requests = .accept env before messageId)
      (one : before.admitted after = [messageId])

theorem publication_publishTopic (data : Bytes) : Publication env state (state.publishTopic env topicHash data) := by
  obtain ⟨message, lastSeqNo, made⟩ := @createMessage_eq R _ env topicHash state data
  unfold publishTopic
  rw [made]
  dsimp only
  split_ifs with duplicate
  · exact .duplicate rfl (admitted_same rfl)
  · have spreading := @handed_spread R _ env (State.originate env topicHash message { state with lastSeqNo }) topicHash
      (env.config.messageIdFn message) message none
    refine .published (env.config.messageIdFn message) ?_ ?_
    · refine spreading.requests.trans ?_
      rw [originate_eq]
      rfl
    · have log : (State.originate env topicHash message { state with lastSeqNo }).log =
          [.broadcast topicHash none (env.config.messageIdFn message) message,
            .published (env.config.messageIdFn message) message (state.now env) (state.tick.now env)] ++ state.log := by
        rw [originate_eq]
        rfl
      refine (spreading.admitted log).trans ?_
      rw [State.admitted, gained_append log]
      rfl

theorem publication_publish (data : Bytes) : Publication env state (state.publish env topicHash data) := by
  unfold publish
  rw [getOrCreateTopic_publishOnly]
  split_ifs
  · exact publication_publishTopic data
  · have created : Publication env (state.createTopic env topicHash true)
        ((state.createTopic env topicHash true).publishTopic env topicHash data) := publication_publishTopic data
    cases created with
    | duplicate requests none => exact .duplicate requests none
    | published messageId requests one => exact .published messageId requests one

end Parts

/-- Events that are neither a frame, a heartbeat nor a publication leave the view alone. -/
theorem Micro.requests (micro : Micro env event before after) (calm : event ≠ .heartbeat)
    (deaf : event.receives = false) (quiet : event.publishes = false) : after.requests = before.requests := by
  have unheard : ∀ peer encoded, event ≠ .message peer encoded := by
    rintro peer encoded rfl
    cases deaf
  cases micro with
  | ledger ledger =>
    cases ledger with
    | counted received sent source =>
      rcases source with source | source
      · exact absurd source calm
      · exact absurd source (by simp [deaf])
    | promised messageId peer now source => exact absurd source (by simp [deaf])
    | settled now source => exact absurd source calm
    | duplicated peer messageId topicHash => rw [countDuplicate_eq]; rfl
    | _ => rfl
  | batched => exact requests_getBatch
  | queued => exact requests_enqueue
  | grafted => exact requests_graft
  | expelled => exact requests_makePrune
  | cut => exact requests_makePrune
  | refused => exact requests_makePrune
  | left => rw [leaveTopic_eq]; rfl
  | pruned => exact requests_removePeerFromMesh
  | upgraded => rw [announceUpgrade_eq]; rfl
  | dated messageId known source => exact absurd source (by simp [deaf])
  | admitted source => exact absurd source (unheard _ _)
  | originated source => rcases source with rfl | rfl <;> cases quiet
  | opened => rw [openStream_eq]; rfl
  | disconnected => rw [onPeerDisconnected_eq]; rfl
  | expired place source => exact absurd source calm
  | aged place source => exact absurd source calm
  | resumed => rw [resumeWriter_eq]; rfl
  | written => rw [onWritten_eq]; rfl
  | _ => rfl

theorem requests_quiet (chain : Chain env .decay before after) : after.requests = before.requests :=
  chain_preserves (fun state : State R => state.requests = before.requests) chain
    (fun _ _ micro same => (micro.requests (by simp) rfl rfl).trans same) rfl

/-- After its start, a heartbeat leaves the view alone. -/
theorem requests_heartbeat : (state.heartbeat env).requests = (state.startHeartbeat env).requests := by
  have expired : ((state.startHeartbeat env).expireTopics env).requests = (state.startHeartbeat env).requests :=
    foldl_field State.requests fun state place => by rw [expireTopic_eq]; rfl
  have maintained := requests_quiet (@chain_maintenance R _ env .decay ((state.startHeartbeat env).expireTopics env))
  have aged : ∀ state : State R, (state.forTopics env shiftHistory).requests = state.requests := by
    intro state
    refine foldl_field State.requests fun state place => ?_
    unfold shiftHistory
    split <;> rfl
  have cleared := fun state : State R => requests_quiet (@chain_clearRefusals R _ env .decay state)
  exact (cleared _).trans ((aged _).trans (maintained.trans expired))

end Libp2p.Gossip
