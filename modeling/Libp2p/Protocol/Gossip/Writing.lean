import Libp2p.Protocol.Gossip.Defaults
import Libp2p.Protocol.Gossip.Lane
import Libp2p.Protocol.Gossip.Outbox

/-! # The writers of a node

The node keeps one writer per peer object. Every run of the node looks, from a single peer object, like a run of the
lane of that object, in which the coroutines are a pool; so what holds for all interleavings of a lane holds for every
peer object of a node. A batch is written as soon as there is a stream, with one exception: nothing starts the writer
of a batch that was filled before its stream opened, if the node has no topic when it opens.
-/

namespace Libp2p.Gossip

open Library State

variable {R : Type} [Double R] {env : Env R} {event : Event} {state before after : State R} {lastSeqNo : Seqno}
  {events : List Event} {peer other : PeerPtr}

section Heap

theorem heap_getBatch_of_ne (different : other ≠ peer) : (state.getBatch peer).heap other = state.heap other := by
  unfold getBatch checkWrite
  split_ifs <;> simp only [heap_modifyPeer, if_neg different]

theorem heap_getBatch_self : (state.getBatch peer).heap peer =
    if (state.heap peer).writing ∨ (state.heap peer).streamOut = none then
      { state.heap peer with batch := some ((state.heap peer).batch.getD {}) }
    else { state.heap peer with
      batch := some ((state.heap peer).batch.getD {}), writing := true, writer := .yielding } := by
  unfold getBatch checkWrite
  simp only [heap_modifyPeer, if_pos]
  split_ifs <;> simp_all [heap_modifyPeer]

theorem heap_enqueue {op : BatchOp} : (state.enqueue peer op).heap other =
    if other = peer then
      { (state.getBatch peer).heap peer with batch := ((state.getBatch peer).heap peer).batch.map (·.apply op) }
    else state.heap other := by
  unfold enqueue
  simp only [record, heap_modifyPeer]
  split_ifs with same
  · rfl
  · exact heap_getBatch_of_ne same

/-- The stream of a peer has opened, and nothing was announced on it. -/
def State.attachStream (env : Env R) (peer : PeerPtr) (stream : Stream) (state : State R) : State R :=
  (((state.modifyPeer peer fun own => { own with isConnecting := false }).updatePeerKind env peer stream.protocol).modifyPeer
    peer fun own => { own with streamOut := some stream }).record (.opened peer)

theorem onStreamOpened_some {stream : Stream} : state.onStreamOpened env peer (some stream) =
    if state.topics.entries = [] then state.attachStream env peer stream
    else ((state.attachStream env peer stream).getBatch peer).announceTopics peer := rfl

theorem heap_attachStream {stream : Stream} : (state.attachStream env peer stream).heap other =
    if other = peer then { state.heap peer with
      isConnecting := false
      peerKind := (state.heap peer).peerKind.orElse fun _ => env.config.protocolVersions.lookup stream.protocol
      streamOut := some stream }
    else state.heap other := by
  simp only [attachStream, record, updatePeerKind, heap_modifyPeer]
  split_ifs <;> rfl

end Heap

section Filling

/-- The observation comes from the writer of a peer. -/
def Observation.ofWriter (peer : PeerPtr) : Observation → Bool
  | .wrote other _ | .writerAsserted other => other = peer
  | _ => false

/-- Two states of a peer object have the same outbound side, and a gossipsub peer stays one. -/
structure Peer.Alike (before after : Peer) : Prop where
  streamOut : after.streamOut = before.streamOut
  batch : after.batch = before.batch
  writing : after.writing = before.writing
  writer : after.writer = before.writer
  isConnecting : after.isConnecting = before.isConnecting
  capable : before.isGossipsub → after.isGossipsub

theorem Peer.Alike.refl (own : Peer) : own.Alike own := ⟨rfl, rfl, rfl, rfl, rfl, id⟩

/-- An entry that suits a peer: control entries are for gossipsub peers. Messages and refusals only come from events that
may broadcast. -/
def BatchOp.Suits (event : Event) (own : Peer) : BatchOp → Prop
  | .subscribe .. => True
  | .publish _ | .idontwant _ => event.spreads
  | .graft _ | .prune .. | .ihave .. | .iwant _ => own.isGossipsub

/-- What happens to the outbound sides of peer objects while no stream opens and no writer makes progress: they are
filled, or an object is created. -/
inductive Fills (event : Event) (before : State R) : State R → Prop
  | kept {after : State R} {extra : List Observation} (alike : ∀ peer, (before.heap peer).Alike (after.heap peer))
      (log : after.log = extra ++ before.log) (silent : ∀ observation ∈ extra, ∀ peer, observation.ofWriter peer = false)
      (allocated : after.allocated = before.allocated)
      (peers : ∀ peerId peer, after.peers.lookup peerId = some peer → before.peers.lookup peerId = some peer) :
      Fills event before after
  | batched (peer : PeerPtr) : Fills event before (before.getBatch peer)
  | queued (peer : PeerPtr) {op : BatchOp} (suits : op.Suits event (before.heap peer)) :
      Fills event before (before.enqueue peer op)
  | registered (peerId : PeerId) (out : Bool) : Fills event before (before.register peerId out)

abbrev Filling (event : Event) : State R → State R → Prop := Relation.ReflTransGen (Fills event)

theorem Fills.same (heap : after.heap = before.heap) (log : after.log = before.log)
    (allocated : after.allocated = before.allocated) (peers : after.peers = before.peers) : Fills event before after := by
  have unlogged : after.log = [] ++ before.log := log
  exact .kept (fun peer => heap ▸ .refl _) unlogged (by simp) allocated fun _ _ found => peers ▸ found

theorem Fills.modified {change : Peer → Peer} (alike : ∀ own : Peer, own.Alike (change own)) :
    Fills event state (state.modifyPeer peer change) := by
  have unlogged : (state.modifyPeer peer change).log = [] ++ state.log := rfl
  refine .kept (fun other => ?_) unlogged (by simp) rfl fun _ _ found => found
  rw [heap_modifyPeer]
  split_ifs with same
  · exact same ▸ alike _
  · exact .refl _

theorem Fills.recorded {observation : Observation} (silent : ∀ peer, observation.ofWriter peer = false) :
    Fills event state (state.record observation) := by
  have log : (state.record observation).log = [observation] ++ state.log := rfl
  refine .kept (fun _ => .refl _) log (fun added member => ?_) rfl fun _ _ found => found
  rwa [List.mem_singleton.mp member]

theorem filling_makePrune {topicHash : TopicHash} : Filling event state (state.makePrune env topicHash peer) := by
  unfold makePrune
  dsimp only
  split_ifs with capable recent
  · refine .tail (.single ?_) (.queued peer (by exact capable))
    exact .same rfl rfl rfl rfl
  · refine .tail (.single ?_) (.queued peer (by exact capable))
    exact .same rfl rfl rfl rfl
  · exact .refl

theorem filling_graft {topicHash : TopicHash} (capable : (state.heap peer).isGossipsub) :
    Filling event state (state.graft env topicHash peer) := by
  unfold graft
  refine .tail ?_ (.queued peer ?_)
  rotate_left
  · change Peer.isGossipsub _
    split
    · split_ifs <;> exact capable
    · exact capable
  split
  · split_ifs
    · have asserted : Fills event state (state.record (.graftAsserted topicHash peer)) := .recorded fun _ => rfl
      exact .tail (.single asserted) (.same rfl rfl rfl rfl)
    · exact .single (.same rfl rfl rfl rfl)
  · exact .single (.same rfl rfl rfl rfl)

theorem filling_foldl {α : Type} {body : State R → α → State R} {entries : List α}
    (each : ∀ state entry, Filling event state (body state entry)) : Filling event state (entries.foldl body state) := by
  induction entries generalizing state with
  | nil => exact .refl
  | cons entry rest ih => exact (each state entry).trans ih

theorem filling_announceTopics : Filling event state (state.announceTopics peer) := by
  refine filling_foldl fun state entry => ?_
  split_ifs
  · exact .refl
  · exact .single (.queued peer trivial)

theorem isGossipsub_orElse {own : Peer} {kind : Unit → Option PeerKind} (capable : own.isGossipsub) :
    ({ own with peerKind := own.peerKind.orElse kind } : Peer).isGossipsub := by
  cases known : own.peerKind with
  | none => simp [Peer.isGossipsub, Peer.supports, known] at capable
  | some old => simpa [Peer.isGossipsub, Peer.supports, known] using capable

theorem lookup_of_onPeerDisconnected {peerId otherId : PeerId}
    (found : (state.onPeerDisconnected env peerId).peers.lookup otherId = some peer) :
    state.peers.lookup otherId = some peer := by
  have forgotten : ∀ (gone : PeerPtr) (topics : List TopicHash) (state : State R),
      (topics.foldl (forgetInTopic gone) state).peers = state.peers :=
    fun gone topics state => foldl_field State.peers fun _ _ => rfl
  unfold onPeerDisconnected at found
  dsimp only at found
  split at found
  · exact found
  · by_cases same : otherId = peerId
    · subst same
      rw [AList.lookup_erase] at found
      cases found
    · rw [AList.lookup_erase_ne same, forgotten] at found
      exact found

/-- Events that work on streams or writers. -/
def Event.works : Event → Bool
  | .connected .. | .streamOpened .. | .resumeWriter .. | .written .. => true
  | _ => false

/-- The guarded updates of all other events at most fill batches. -/
theorem Micro.filling (micro : Micro env event before after) (idle : event.works = false) : Filling event before after := by
  cases micro with
  | ledger ledger =>
    cases ledger with
    | penalized peerId count =>
      have scored : Fills event before (before.modifyScore fun score => score.addPenalty peerId count) := .same rfl rfl rfl rfl
      exact .tail (.single scored) (.recorded fun _ => rfl)
    | duplicated peer messageId topicHash =>
      rw [countDuplicate_eq]
      exact .single (.same rfl rfl rfl rfl)
    | _ => exact .single (.same rfl rfl rfl rfl)
  | inner peer only =>
    cases only with
    | dialing flag source => cases event <;> simp [Event.dials, Event.works] at source idle
    | marked => exact .single (.modified fun _ => ⟨rfl, rfl, rfl, rfl, rfl, id⟩)
    | cleared => exact .single (.modified fun _ => ⟨rfl, rfl, rfl, rfl, rfl, id⟩)
  | batched peer => exact .single (.batched peer)
  | queued peer permitted =>
    refine .single (.queued peer ?_)
    cases permitted with
    | relayed started source => exact source
    | served cached source =>
      subst source
      rfl
    | ihave topicHash messageIds capable => exact capable
    | iwant messageId capable => exact capable
    | idontwant messageId source => exact source
  | grafted topicHash peer candidate => exact filling_graft candidate.capable
  | expelled => exact filling_makePrune.tail (.same rfl rfl rfl rfl)
  | cut topicHash peer =>
    have erased : Fills event before (before.eraseFromMesh topicHash peer) := .same rfl rfl rfl rfl
    exact .head erased filling_makePrune
  | refused => exact filling_makePrune
  | @announced topicHash peer =>
    have known : Fills event before (before.modifyPeer peer fun own => { own with topics := own.topics.insert topicHash }) :=
      .modified fun _ => ⟨rfl, rfl, rfl, rfl, rfl, id⟩
    exact .tail (.single known) (.same rfl rfl rfl rfl)
  | @left topicHash peer =>
    have forgotten : Fills event before (before.modifyPeer peer fun own => { own with topics := own.topics.erase topicHash }) :=
      .modified fun _ => ⟨rfl, rfl, rfl, rfl, rfl, id⟩
    unfold leaveTopic
    rw [removePeerFromMesh_eq]
    exact .tail (.single forgotten) (.same rfl rfl rfl rfl)
  | pruned =>
    rw [removePeerFromMesh_eq]
    exact .single (.same rfl rfl rfl rfl)
  | upgraded topicHash =>
    have subscribed : Fills event before (before.modifyTopic topicHash fun topic => { topic with publishOnly := false }) :=
      .same rfl rfl rfl rfl
    have told : ∀ (state : State R) (peer : PeerPtr),
        Filling event state (state.enqueue peer (.subscribe topicHash true)) := fun _ peer => .single (.queued peer trivial)
    exact .tail (.head subscribed (filling_foldl told)) (.same rfl rfl rfl rfl)
  | admitted =>
    rw [deliver_eq]
    exact .single (.kept (fun _ => .refl _) (List.append_assoc [_, _, _] [] _).symm (by simp [Observation.ofWriter]) rfl
      fun _ _ found => found)
  | originated =>
    rw [originate_eq]
    exact .single (.kept (fun _ => .refl _) (List.append_assoc [_, _] [] _).symm (by simp [Observation.ofWriter]) rfl
      fun _ _ found => found)
  | registered peerId out => exact .single (.registered peerId out)
  | typed peer protocol =>
    refine .single (.modified fun own => ⟨rfl, rfl, rfl, rfl, rfl, fun capable => ?_⟩)
    exact isGossipsub_orElse capable
  | opened peer stream source =>
    subst source
    cases idle
  | disconnected peerId =>
    have log : (before.onPeerDisconnected env peerId).log = [] ++ before.log := by
      rw [onPeerDisconnected_eq]
      rfl
    refine .single (.kept (fun peer => ?_) log (by simp) (by rw [onPeerDisconnected_eq]) fun other peer found => ?_)
    · rw [onPeerDisconnected_eq]
      exact .refl _
    · exact lookup_of_onPeerDisconnected found
  | expired =>
    rw [expireTopic_eq]
    exact .single (.same rfl rfl rfl rfl)
  | aged =>
    rw [shiftHistory_eq]
    exact .single (.same rfl rfl rfl rfl)
  | resumed peer source =>
    subst source
    cases idle
  | written peer frame rest source =>
    subst source
    cases idle
  | _ => exact .single (.same rfl rfl rfl rfl)

end Filling

/-- A writer as the node keeps it. -/
def Suspension.writer : Suspension → Writer
  | .yielding => .yielding
  | .writing frames => .writing frames

/-- The pool of writers as the node keeps it. -/
def Lane.writer (lane : Lane) : Writer := (lane.writers.head?.map Suspension.writer).getD .idle

/-- The lane holds what the peer object holds. -/
structure Lane.Shows (lane : Lane) (peer : Peer) : Prop where
  streamOut : peer.streamOut = lane.streamOut
  batch : peer.batch = lane.batch
  writing : peer.writing = lane.writing
  writer : peer.writer = lane.writer
  isConnecting : peer.isConnecting = lane.isConnecting

namespace Lane

variable {lane : Lane}

theorem Shows.congr {own later : Peer} (shows_ : lane.Shows own) (alike : own.Alike later) : lane.Shows later where
  streamOut := alike.streamOut.trans shows_.streamOut
  batch := alike.batch.trans shows_.batch
  writing := alike.writing.trans shows_.writing
  writer := alike.writer.trans shows_.writer
  isConnecting := alike.isConnecting.trans shows_.isConnecting

theorem Sound.writers_nil (sound : lane.Sound) (idle : lane.writing = false) : lane.writers = [] := by
  by_contra busy
  rw [sound.running.mp busy] at idle
  cases idle

theorem Sound.dialers_pos (sound : lane.Sound) (connecting : lane.isConnecting) : 0 < lane.dialers := by
  rw [sound.dialing, if_pos connecting]
  exact Nat.one_pos

theorem getBatch_eq : lane.getBatch =
    if lane.writing ∨ lane.streamOut = none then { lane with batch := some (lane.batch.getD {}) }
    else { lane with
      batch := some (lane.batch.getD {}), writing := true, writers := lane.writers ++ [.yielding] } := by
  unfold getBatch checkWrite
  split_ifs <;> simp_all

/-- Filling a batch touches neither the stream nor the dialer nor what was written. -/
theorem fill_frame (lane : Lane) (ops : List BatchOp) : (lane.getBatch.putAll ops).streamOut = lane.streamOut ∧
    (lane.getBatch.putAll ops).isConnecting = lane.isConnecting ∧ (lane.getBatch.putAll ops).written = lane.written ∧
    (lane.getBatch.putAll ops).queued = lane.queued ++ ops := by
  have put : ∀ (ops : List BatchOp) (lane : Lane), (lane.putAll ops).streamOut = lane.streamOut ∧
      (lane.putAll ops).isConnecting = lane.isConnecting ∧ (lane.putAll ops).written = lane.written ∧
      (lane.putAll ops).queued = lane.queued ++ ops := by
    intro ops
    induction ops with
    | nil => exact fun lane => ⟨rfl, rfl, rfl, (List.append_nil _).symm⟩
    | cons op rest ih =>
      intro lane
      obtain ⟨streamOut, isConnecting, written, queued⟩ := ih (lane.put op)
      exact ⟨streamOut, isConnecting, written, queued.trans (List.append_assoc lane.queued [op] rest)⟩
  obtain ⟨streamOut, isConnecting, written, queued⟩ := put ops lane.getBatch
  rw [streamOut, isConnecting, written, queued, getBatch_eq]
  split_ifs <;> exact ⟨rfl, rfl, rfl, rfl⟩

theorem Shows.getBatch (shows_ : lane.Shows (state.heap peer)) (sound : lane.Sound) :
    lane.getBatch.Shows ((state.getBatch peer).heap peer) := by
  obtain ⟨streamOut, batch, writing, writer, isConnecting⟩ := shows_
  rw [heap_getBatch_self, getBatch_eq, writing, streamOut, batch]
  split_ifs with busy
  · exact ⟨streamOut, rfl, writing, writer, isConnecting⟩
  · have none_ : lane.writers = [] := sound.writers_nil (by simpa using fun wrote => busy (.inl wrote))
    exact ⟨streamOut, rfl, rfl, by simp [Lane.writer, none_, Suspension.writer], isConnecting⟩

theorem Shows.enqueue {op : BatchOp} (shows_ : lane.Shows (state.heap peer)) (sound : lane.Sound) :
    (lane.getBatch.putAll [op]).Shows ((state.enqueue peer op).heap peer) := by
  obtain ⟨streamOut, batch, writing, writer, isConnecting⟩ := shows_.getBatch sound
  rw [heap_enqueue, if_pos rfl]
  refine ⟨streamOut, ?_, writing, writer, isConnecting⟩
  simp [Lane.putAll, Lane.put, batch]

end Lane

/-- The frames that were written to a peer, oldest first. -/
def State.writtenTo (peer : PeerPtr) (state : State R) : List Bytes :=
  state.log.reverse.filterMap fun
    | .wrote other frame => if other = peer then some frame else none
    | _ => none

/-- Some run of a lane explains what a peer object holds and what was queued and written to it. Nothing was ever written
to an object that does not exist yet. -/
inductive Shown (state : State R) (peer : PeerPtr) : Prop
  | intro {events : List Lane.Event} {lane : Lane} (run : Lane.Runs events lane) (shows_ : lane.Shows (state.heap peer))
      (written : state.writtenTo peer = lane.written) (queued : ∀ op ∈ lane.queued, .queued peer op ∈ state.log)
      (unasserted : .writerAsserted peer ∉ state.log)
      (fresh : state.allocated ≤ peer → lane.streamOut = none ∧ lane.isConnecting = false ∧ lane.written = [])

section Simulation

theorem writtenTo_append {extra : List Observation} (log : after.log = extra ++ before.log)
    (silent : ∀ observation ∈ extra, observation.ofWriter peer = false) : after.writtenTo peer = before.writtenTo peer := by
  unfold writtenTo
  rw [log, List.reverse_append, List.filterMap_append]
  refine List.append_right_eq_self.mpr (List.filterMap_eq_nil_iff.mpr fun observation member => ?_)
  have quiet := silent observation (List.mem_reverse.mp member)
  cases observation with
  | wrote other frame => exact if_neg (of_decide_eq_false quiet)
  | _ => rfl

theorem unasserted_append {extra : List Observation} (log : after.log = extra ++ before.log)
    (silent : ∀ observation ∈ extra, observation.ofWriter peer = false) (unasserted : .writerAsserted peer ∉ before.log) :
    .writerAsserted peer ∉ after.log := by
  rw [log, List.mem_append, not_or]
  exact ⟨fun member => of_decide_eq_false (silent _ member) rfl, unasserted⟩

/-- Updates that leave the outbound side of a peer object alone. -/
theorem Shown.congr {extra : List Observation} (shown : Shown before peer)
    (same : ∀ lane : Lane, lane.Shows (before.heap peer) → lane.Shows (after.heap peer))
    (log : after.log = extra ++ before.log) (silent : ∀ observation ∈ extra, observation.ofWriter peer = false)
    (allocated : before.allocated ≤ after.allocated) : Shown after peer := by
  obtain ⟨run, shows_, written, queued, unasserted, fresh⟩ := shown
  exact .intro run (same _ shows_) ((writtenTo_append log silent).trans written)
    (fun op member => log ▸ List.mem_append_right _ (queued op member)) (unasserted_append log silent unasserted)
    fun late => fresh (allocated.trans late)

theorem Shown.record {observation : Observation} (shown : Shown state peer)
    (silent : observation.ofWriter peer = false) : Shown (state.record observation) peer := by
  have log : (state.record observation).log = [observation] ++ state.log := rfl
  refine shown.congr (fun _ shows_ => shows_) log (fun added member => ?_) le_rfl
  rwa [List.mem_singleton.mp member]

/-- One more event of the lane, which touches neither the stream nor the dialer. -/
theorem Shown.batched (ops : List BatchOp) {extra : List Observation} (shown : Shown before peer)
    (same : ∀ lane : Lane, lane.Sound → lane.Shows (before.heap peer) →
      (lane.getBatch.putAll ops).Shows (after.heap peer))
    (log : after.log = extra ++ before.log) (told : ∀ op ∈ ops, .queued peer op ∈ extra)
    (silent : ∀ observation ∈ extra, observation.ofWriter peer = false)
    (allocated : after.allocated = before.allocated) : Shown after peer := by
  obtain @⟨events, lane, run, shows_, written, queued, unasserted, fresh⟩ := shown
  obtain ⟨streamOut, isConnecting, unwritten, entries⟩ := Lane.fill_frame lane ops
  refine .intro (run.snoc (rfl : lane.step (.getBatch ops) = some _)) (same lane (Lane.sound_of_runs run) shows_)
    ((writtenTo_append log silent).trans (written.trans unwritten.symm)) ?_ (unasserted_append log silent unasserted) ?_
  · intro op member
    rw [entries] at member
    rw [log]
    rcases List.mem_append.mp member with old | new
    · exact List.mem_append_right _ (queued op old)
    · exact List.mem_append_left _ (told op new)
  intro late
  rw [streamOut, isConnecting, unwritten]
  exact fresh (allocated ▸ late)

theorem Shown.getBatch (shown : Shown state other) : Shown (state.getBatch peer) other := by
  have log : (state.getBatch peer).log = [] ++ state.log := (getBatch_frame peer state).2.2.2.2.2.2.2.2
  have allocated := (getBatch_frame peer state).2.2.1
  by_cases same : other = peer
  · subst same
    refine shown.batched [] (fun lane sound shows_ => ?_) log (by simp) (by simp) allocated
    change lane.getBatch.Shows _
    exact shows_.getBatch sound
  · have heap : (state.getBatch peer).heap other = state.heap other := heap_getBatch_of_ne same
    exact shown.congr (fun lane shows_ => heap.symm ▸ shows_) log (by simp) allocated.ge

theorem Shown.enqueue {op : BatchOp} (shown : Shown state other) : Shown (state.enqueue peer op) other := by
  have log : (state.enqueue peer op).log = [.queued peer op] ++ state.log := (enqueue_frame peer op state).2.2.2.2.2.2.2.2
  have silent : ∀ observation ∈ [Observation.queued peer op], observation.ofWriter other = false := by
    intro observation member
    rw [List.mem_singleton.mp member]
    rfl
  have allocated := (enqueue_frame peer op state).2.2.1
  by_cases same : other = peer
  · subst same
    exact shown.batched [op] (fun lane sound shows_ => shows_.enqueue sound) log (by simp) silent allocated
  · have heap : (state.enqueue peer op).heap other = state.heap other := by rw [heap_enqueue, if_neg same]
    exact shown.congr (fun lane shows_ => heap.symm ▸ shows_) log silent allocated.ge

/-- A new object has a new lane. -/
theorem Shown.register {peerId : PeerId} {out : Bool} (shown : Shown state other) :
    Shown (state.register peerId out) other := by
  have log : (state.register peerId out).log = [] ++ state.log := rfl
  by_cases new : other = state.allocated
  · obtain ⟨-, -, written, -, unasserted, fresh⟩ := shown
    have unwritten : state.writtenTo other = [] := written.trans (fresh new.ge).2.2
    have heap : (state.register peerId out).heap other = { peerId, out } := by simp [State.register, new]
    have empty : Lane.Runs [] {} := .nil
    refine .intro empty ?_ unwritten (by simp) unasserted fun _ => ⟨rfl, rfl, rfl⟩
    rw [heap]
    exact ⟨rfl, rfl, rfl, rfl, rfl⟩
  · have heap : (state.register peerId out).heap other = state.heap other := Function.update_of_ne new _ _
    exact shown.congr (fun lane shows_ => heap.symm ▸ shows_) log (by simp) (Nat.le_succ _)

theorem Fills.shown (fills : Fills event before after) (shown : Shown before peer) : Shown after peer := by
  cases fills with
  | kept alike log silent allocated =>
    exact shown.congr (fun lane shows_ => shows_.congr (alike peer)) log (fun _ member => silent _ member peer) allocated.ge
  | batched => exact shown.getBatch
  | queued => exact shown.enqueue
  | registered => exact shown.register

theorem Filling.shown (filling : Filling event before after) (shown : Shown before peer) : Shown after peer := by
  induction filling with
  | refl => exact shown
  | tail _ fills ih => exact fills.shown ih

/-- An event of the writer or the dialer of a peer object is an event of its lane. -/
theorem Shown.advance (laneEvent : Lane.Event) (frames : List Bytes) (shown : Shown before peer)
    (exists_ : peer < before.allocated)
    (same : ∀ lane : Lane, lane.Sound → lane.Shows (before.heap peer) → ∃ later, lane.step laneEvent = some later ∧
      later.Shows (after.heap peer) ∧ later.written = lane.written ++ frames ∧ later.queued = lane.queued)
    (log : before.log ⊆ after.log) (written : after.writtenTo peer = before.writtenTo peer ++ frames)
    (unasserted : .writerAsserted peer ∉ before.log → .writerAsserted peer ∉ after.log)
    (allocated : after.allocated = before.allocated) : Shown after peer := by
  obtain ⟨run, shows_, wrote, queued, quiet, -⟩ := shown
  obtain ⟨later, taken, seen, more, entries⟩ := same _ (Lane.sound_of_runs run) shows_
  refine .intro (run.snoc taken) seen ?_ (fun op member => log (queued op (entries ▸ member))) (unasserted quiet)
    fun late => absurd exists_ (not_lt.mpr (allocated ▸ late))
  rw [written, wrote, more]

/-- An object that has a stream or a dialer exists. -/
theorem Shown.exists_of_active (shown : Shown state peer)
    (active : (state.heap peer).streamOut.isSome ∨ (state.heap peer).isConnecting) : peer < state.allocated := by
  obtain ⟨run, shows_, -, -, -, fresh⟩ := shown
  by_contra late
  obtain ⟨closed, idle, -⟩ := fresh (not_lt.mp late)
  rw [shows_.streamOut, shows_.isConnecting, closed, idle] at active
  simp at active

theorem Shown.modifyOther {change : Peer → Peer} (shown : Shown state other) (different : other ≠ peer) :
    Shown (state.modifyPeer peer change) other := by
  have log : (state.modifyPeer peer change).log = [] ++ state.log := rfl
  refine shown.congr (fun lane shows_ => ?_) log (by simp) le_rfl
  rwa [heap_modifyPeer, if_neg different]

theorem Shown.onPeerConnected {peerId : PeerId} {out : Bool} (shown : Shown state other) (sound : state.roster.Sound) :
    Shown (state.onPeerConnected peerId out) other := by
  have found : Shown (state.findOrRegister peerId out) other := by
    unfold findOrRegister
    split_ifs
    · exact shown
    · exact shown.register
  have exists_ : (state.findOrRegister peerId out).peerOf peerId < (state.findOrRegister peerId out).allocated := by
    unfold findOrRegister
    split_ifs with present
    · obtain ⟨peer, registered⟩ := Option.isSome_iff_exists.mp (AList.lookup_isSome.mpr present)
      have allocated := sound.registered peerId peer registered
      rwa [peerOf, registered]
    · simp [peerOf, State.register]
  unfold State.onPeerConnected
  dsimp only
  set registered := state.findOrRegister peerId out
  split_ifs with closed
  · by_cases same : other = registered.peerOf peerId
    · subst same
      refine found.advance .connect [] exists_ ?_ (fun _ member => member) (List.append_nil _).symm id rfl
      intro lane sound shows_
      have idle : lane.streamOut.isNone ∧ ¬ lane.isConnecting := by rwa [← shows_.streamOut, ← shows_.isConnecting]
      have dialed : lane.connect = { lane with isConnecting := true, dialers := lane.dialers + 1 } := if_pos idle
      refine ⟨lane.connect, rfl, ?_, ?_⟩
      · rw [dialed, heap_modifyPeer, if_pos rfl]
        exact ⟨shows_.streamOut, shows_.batch, shows_.writing, shows_.writer, rfl⟩
      · rw [dialed, List.append_nil]
        exact ⟨rfl, rfl⟩
    · exact found.modifyOther same
  · exact found

theorem Shown.onStreamOpened {stream : Option Stream} (shown : Shown state other)
    (dialing : (state.heap peer).isConnecting) : Shown (state.onStreamOpened env peer stream) other := by
  cases stream with
  | none =>
    have closed : state.onStreamOpened env peer none =
      state.modifyPeer peer fun own => { own with isConnecting := false } := rfl
    rw [closed]
    by_cases same : other = peer
    · subst same
      refine shown.advance (.opened none none) [] (shown.exists_of_active (.inr dialing)) ?_ (fun _ member => member)
        (List.append_nil _).symm id rfl
      intro lane sound shows_
      have some_ := sound.dialers_pos (shows_.isConnecting ▸ dialing)
      refine ⟨_, if_pos some_, ?_, (List.append_nil _).symm, rfl⟩
      rw [heap_modifyPeer, if_pos rfl]
      exact ⟨shows_.streamOut, shows_.batch, shows_.writing, shows_.writer, rfl⟩
    · exact shown.modifyOther same
  | some stream =>
    have opened : Shown (state.attachStream env peer stream) other := by
      by_cases same : other = peer
      · subst same
        have logged : ∀ observation ∈ [Observation.opened other], observation.ofWriter other = false := by
          simp [Observation.ofWriter]
        refine shown.advance (.opened (some stream) none) [] (shown.exists_of_active (.inr dialing)) ?_
          (fun _ member => List.mem_cons_of_mem _ member) ((writtenTo_append rfl logged).trans (List.append_nil _).symm)
          (unasserted_append rfl logged) rfl
        intro lane sound shows_
        have some_ := sound.dialers_pos (shows_.isConnecting ▸ dialing)
        refine ⟨_, if_pos some_, ?_, (List.append_nil _).symm, rfl⟩
        simp only [attachStream, State.record, updatePeerKind, heap_modifyPeer, if_pos]
        exact ⟨rfl, shows_.batch, shows_.writing, shows_.writer, rfl⟩
      · exact Shown.record (((shown.modifyOther same).modifyOther same).modifyOther same) rfl
    rw [onStreamOpened_some]
    split_ifs
    · exact opened
    · have announced : Filling (.streamOpened peer (some stream)) _
          (State.announceTopics peer ((state.attachStream env peer stream).getBatch peer)) := filling_announceTopics
      exact announced.shown opened.getBatch

/-- The writer of a lane takes the next batch as that of the node does. -/
theorem Lane.Shows.nextBatch {lane : Lane} {suspension : Suspension} (shows_ : lane.Shows (state.heap peer))
    (only : lane.writers = [suspension]) : (lane.nextBatch 0).Shows ((state.writeBatch peer).heap peer) := by
  obtain ⟨streamOut, batch, writing, writer, isConnecting⟩ := shows_
  have finished : ∀ lane : Lane, lane.writers = [suspension] → (lane.finish 0).writer = .idle := by
    intro lane only
    simp [Lane.writer, Lane.finish, only]
  unfold writeBatch
  rw [heap_modifyPeer, if_pos rfl, batch]
  unfold Lane.nextBatch
  cases pending : lane.batch with
  | none => exact ⟨streamOut, pending.symm, rfl, (finished lane only).symm, isConnecting⟩
  | some rpc =>
    simp only [Option.map_some, Option.getD_some]
    cases frames : rpc.splitBatch with
    | nil => exact ⟨streamOut, rfl, rfl, (finished _ only).symm, isConnecting⟩
    | cons frame rest =>
      exact ⟨streamOut, rfl, writing, by simp [Lane.writer, Lane.startWrite, only, Suspension.writer], isConnecting⟩

theorem Lane.nextBatch_frame {lane : Lane} :
    (lane.nextBatch 0).written = lane.written ∧ (lane.nextBatch 0).queued = lane.queued := by
  unfold Lane.nextBatch
  split
  · exact ⟨rfl, rfl⟩
  · dsimp only
    split <;> exact ⟨rfl, rfl⟩

/-- A writer of the node is the only one of its lane. -/
theorem Lane.Shows.only {lane : Lane} {own : Peer} (suspension : Suspension) (shows_ : lane.Shows own)
    (sound : lane.Sound) (suspended : own.writer = suspension.writer) : lane.writers = [suspension] := by
  rw [shows_.writer] at suspended
  unfold Lane.writer at suspended
  cases all : lane.writers with
  | nil =>
    rw [all] at suspended
    cases suspension <;> cases suspended
  | cons first rest =>
    have found : lane.writers[0]? = some first := by rw [all]; rfl
    obtain ⟨-, alone⟩ := sound.writers_eq found
    rw [all] at suspended alone
    rw [alone]
    cases first <;> cases suspension <;> cases suspended <;> rfl

theorem Shown.busy (suspension : Suspension) (shown : Shown state peer)
    (suspended : (state.heap peer).writer = suspension.writer) :
    (state.heap peer).writing = true ∧ (state.heap peer).streamOut.isSome ∧ peer < state.allocated := by
  obtain @⟨events, lane, run, shows_, written, queued, unasserted, fresh⟩ := shown
  have sound := Lane.sound_of_runs run
  have alone := shows_.only suspension sound suspended
  have open_ := sound.streaming (by simp [alone])
  refine ⟨shows_.writing.trans (sound.running.mp (by simp [alone])), shows_.streamOut ▸ open_, ?_⟩
  exact Shown.exists_of_active (.intro run shows_ written queued unasserted fresh) (.inl (shows_.streamOut ▸ open_))

theorem Shown.resumeWriter (shown : ∀ other, Shown state other) (suspended : (state.heap peer).writer = .yielding) :
    Shown (state.resumeWriter peer) other := by
  obtain ⟨writing, open_, exists_⟩ := (shown peer).busy .yielding suspended
  have resumed : state.resumeWriter peer = state.writeBatch peer := by
    unfold State.resumeWriter
    rw [if_pos ⟨writing, open_⟩]
  rw [resumed]
  by_cases same : other = peer
  · subst same
    refine (shown other).advance (.resume 0) [] exists_ ?_ (fun _ member => member) (List.append_nil _).symm id rfl
    intro lane sound shows_
    have alone := shows_.only .yielding sound suspended
    have found : lane.writers[0]? = some .yielding := by rw [alone]; rfl
    refine ⟨lane.resume 0, if_pos found, ?_, ?_⟩
    · exact Lane.Shows.nextBatch ⟨shows_.1, shows_.2, shows_.3, shows_.4, shows_.5⟩ alone
    · rw [List.append_nil]
      exact Lane.nextBatch_frame
  · exact (shown other).modifyOther same

/-- What a peer object does after a successful write: the next frame, or the next batch. -/
theorem onWritten_true {frame : Bytes} {rest : List Bytes} (open_ : (state.heap peer).streamOut.isSome) :
    state.onWritten peer frame rest true = if rest ≠ [] then
      (state.record (.wrote peer frame)).modifyPeer peer fun own => { own with writer := .writing rest }
    else (state.record (.wrote peer frame)).writeBatch peer := by
  have kept : ((state.record (.wrote peer frame)).heap peer).streamOut.isNone = false :=
    Option.isNone_eq_false_iff.mpr open_
  simp only [State.onWritten, if_pos, kept, Bool.false_eq_true, if_false]

theorem Lane.onWritten_true {lane : Lane} {frame : Bytes} {rest : List Bytes} (open_ : lane.streamOut.isSome) :
    lane.onWritten 0 frame rest true = if rest ≠ [] then
      ({ lane with written := lane.written ++ [frame] } : Lane).startWrite 0 rest
    else ({ lane with written := lane.written ++ [frame] } : Lane).nextBatch 0 := by
  have kept : lane.streamOut.isNone = false := Option.isNone_eq_false_iff.mpr open_
  simp only [Lane.onWritten, if_pos, kept, Bool.false_eq_true, if_false]

/-- After a successful write the lane shows the peer object. -/
theorem Lane.Shows.onWritten_true {lane : Lane} {frame : Bytes} {rest : List Bytes}
    (shows_ : lane.Shows (state.heap peer)) (open_ : (state.heap peer).streamOut.isSome)
    (only : lane.writers = [.writing (frame :: rest)]) :
    (lane.onWritten 0 frame rest true).Shows ((state.onWritten peer frame rest true).heap peer) ∧
      (lane.onWritten 0 frame rest true).written = lane.written ++ [frame] ∧
      (lane.onWritten 0 frame rest true).queued = lane.queued := by
  rw [Gossip.onWritten_true open_, Lane.onWritten_true (shows_.streamOut ▸ open_)]
  split_ifs with more
  · refine ⟨?_, rfl, rfl⟩
    rw [heap_modifyPeer, if_pos rfl]
    exact ⟨shows_.streamOut, shows_.batch, shows_.writing,
      by simp [Lane.startWrite, Lane.writer, only, Suspension.writer], shows_.isConnecting⟩
  · have noted : ({ lane with written := lane.written ++ [frame] } : Lane).Shows
        ((state.record (.wrote peer frame)).heap peer) := ⟨shows_.1, shows_.2, shows_.3, shows_.4, shows_.5⟩
    exact ⟨noted.nextBatch only, Lane.nextBatch_frame⟩

theorem Shown.onWritten {frame : Bytes} {rest : List Bytes} (ok : Bool) (shown : ∀ other, Shown state other)
    (suspended : (state.heap peer).writer = .writing (frame :: rest)) :
    Shown (state.onWritten peer frame rest ok) other := by
  obtain ⟨writing, open_, exists_⟩ := (shown peer).busy (.writing (frame :: rest)) suspended
  have taken : ∀ lane : Lane, lane.writers = [.writing (frame :: rest)] →
      lane.step (.written 0 ok) = some (lane.onWritten 0 frame rest ok) := by
    intro lane only
    simp [Lane.step, only]
  cases ok with
  | false =>
    have ended : state.onWritten peer frame rest false = state.modifyPeer peer fun own =>
      { own with streamOut := none, writing := false, writer := .idle } := if_neg Bool.false_ne_true
    rw [ended]
    by_cases same : other = peer
    · subst same
      refine (shown other).advance (.written 0 false) [] exists_ ?_ (fun _ member => member) (List.append_nil _).symm id rfl
      intro lane sound shows_
      have only := shows_.only (.writing (frame :: rest)) sound suspended
      refine ⟨_, taken lane only, ?_, (List.append_nil _).symm, rfl⟩
      rw [heap_modifyPeer, if_pos rfl]
      exact ⟨rfl, shows_.batch, rfl, by simp [Lane.onWritten, Lane.finish, Lane.writer, only], shows_.isConnecting⟩
    · exact (shown other).modifyOther same
  | true =>
    have log : (state.onWritten peer frame rest true).log = .wrote peer frame :: state.log := by
      rw [Gossip.onWritten_true open_]
      split_ifs <;> rfl
    by_cases same : other = peer
    · subst same
      refine (shown other).advance (.written 0 true) [frame] exists_ ?_ (log ▸ List.subset_cons_self _ _) ?_ ?_
        (by rw [onWritten_eq])
      · intro lane sound shows_
        have only := shows_.only (.writing (frame :: rest)) sound suspended
        exact ⟨_, taken lane only, shows_.onWritten_true open_ only⟩
      · simp [writtenTo, log]
      · simp [log]
    · have heap : (state.onWritten peer frame rest true).heap other = state.heap other := by
        rw [Gossip.onWritten_true open_]
        split_ifs <;> exact heap_modifyPeer.trans (if_neg same)
      have logged : (state.onWritten peer frame rest true).log = [.wrote peer frame] ++ state.log := log
      refine (shown other).congr (fun lane shows_ => heap.symm ▸ shows_) logged ?_ (by rw [onWritten_eq])
      intro observation member
      rw [List.mem_singleton.mp member]
      exact decide_eq_false (Ne.symm same)

/-- Every event of the node is a few events of the lane of each peer object. -/
theorem shown_of_step (sound : before.roster.Sound) (stepped : before.step env event = some after)
    (shown : ∀ peer, Shown before peer) (peer : PeerPtr) : Shown after peer := by
  by_cases works : event.works
  · cases event with
    | connected peerId out =>
      obtain rfl := Option.some.inj stepped
      exact (shown peer).onPeerConnected sound
    | streamOpened dialed stream =>
      obtain ⟨⟨connecting, -⟩, ⟨⟩⟩ := Option.ite_none_right_eq_some.mp stepped
      exact (shown peer).onStreamOpened connecting
    | resumeWriter resumed =>
      obtain ⟨suspended, ⟨⟩⟩ := Option.ite_none_right_eq_some.mp stepped
      exact Shown.resumeWriter shown suspended
    | written wrote ok =>
      simp only [State.step] at stepped
      split at stepped
      · next frame rest suspended =>
        obtain rfl := Option.some.inj stepped
        exact Shown.onWritten ok shown suspended
      · cases stepped
    | _ => cases works
  · exact step_preserves (fun state => Shown state peer)
      (fun _ _ micro shown => (micro.filling (Bool.not_eq_true _ ▸ works)).shown shown) sound stepped (shown peer)

theorem shown_initial : Shown (State.initial env lastSeqNo) peer := by
  have empty : Lane.Runs [] {} := .nil
  exact .intro empty ⟨rfl, rfl, rfl, rfl, rfl⟩ rfl (by simp) List.not_mem_nil fun _ => ⟨rfl, rfl, rfl⟩

/-- From a single peer object every run of the node is a run of a lane. -/
theorem shown_of_runs (run : Runs env lastSeqNo events state) (peer : PeerPtr) : Shown state peer := by
  have both : state.roster.Sound ∧ ∀ peer, Shown state peer := by
    refine run.preserves (fun state => state.roster.Sound ∧ ∀ peer, Shown state peer)
      ⟨roster_initial.1, fun _ => shown_initial⟩ ?_
    rintro event before after ⟨sound, shown⟩ stepped
    exact ⟨sound_of_step sound stepped, shown_of_step sound stepped shown⟩
  exact both.2 peer

/-- In every run a peer object has a writer while `writing_` is set, the writer has a stream, and what the source asserts
of it holds. -/
theorem writer_of_runs (run : Runs env lastSeqNo events state) (peer : PeerPtr) :
    ((state.heap peer).writer ≠ .idle ↔ (state.heap peer).writing = true) ∧
      ((state.heap peer).writing = true → (state.heap peer).streamOut.isSome) ∧ .writerAsserted peer ∉ state.log := by
  obtain @⟨events, lane, ran, shows_, -, -, unasserted, -⟩ := shown_of_runs run peer
  have sound := Lane.sound_of_runs ran
  rw [shows_.writer, shows_.writing, shows_.streamOut]
  refine ⟨?_, fun writing => sound.streaming (sound.running.mpr writing), unasserted⟩
  rw [← sound.running]
  unfold Lane.writer
  cases lane.writers with
  | nil => simp
  | cons first rest => cases first <;> simp [Suspension.writer]

end Simulation

section Stranding

/-- A batch that could be written has a writer. -/
def Peer.Flowing (own : Peer) : Prop := own.batch.isSome → own.streamOut.isSome → own.writing = true

/-- No batch of a registered peer is stranded. -/
def State.Unstranded (state : State R) : Prop :=
  ∀ peerId peer, state.peers.lookup peerId = some peer → (state.heap peer).Flowing

/-- If the stream of a registered peer opens while a batch is waiting for it, then there are topics to announce. -/
def Timely (before : State R) (event : Event) : Prop :=
  ∀ peerId peer stream, event = .streamOpened peer (some stream) → before.peers.lookup peerId = some peer →
    (before.heap peer).batch.isSome → before.topics.entries ≠ []

/-- Runs in which no stream opens too late. -/
abbrev TimelyRuns (env : Env R) (lastSeqNo : Seqno) : List Event → State R → Prop :=
  Run (fun before event after => before.step env event = some after ∧ Timely before event) (State.initial env lastSeqNo)

/-- Runs in which no batch is ever stranded. -/
abbrev UnstrandedRuns (env : Env R) (lastSeqNo : Seqno) : List Event → State R → Prop :=
  Run (fun before event after => before.step env event = some after ∧ after.Unstranded) (State.initial env lastSeqNo)

theorem Peer.Flowing.congr {own later : Peer} (flowing : own.Flowing) (alike : own.Alike later) : later.Flowing := by
  intro filled open_
  rw [alike.writing]
  exact flowing (alike.batch ▸ filled) (alike.streamOut ▸ open_)

/-- Whoever fills a batch checks for a writer. -/
theorem flowing_getBatch : ((state.getBatch peer).heap peer).Flowing := by
  intro _ open_
  rw [heap_getBatch_self] at open_ ⊢
  split_ifs at open_ ⊢ with busy
  · rcases busy with writing | closed
    · exact writing
    · rw [closed] at open_
      cases open_
  · rfl

theorem flowing_enqueue {op : BatchOp} : ((state.enqueue peer op).heap peer).Flowing := by
  rw [heap_enqueue, if_pos rfl]
  intro filled open_
  exact flowing_getBatch (by simpa using filled) open_

theorem Fills.unstranded (fills : Fills event before after) (unstranded : before.Unstranded) : after.Unstranded := by
  intro peerId peer found
  cases fills with
  | kept alike log silent allocated peers => exact (unstranded peerId peer (peers peerId peer found)).congr (alike peer)
  | batched filled =>
    by_cases same : peer = filled
    · exact same ▸ flowing_getBatch
    · rw [heap_getBatch_of_ne same]
      exact unstranded peerId peer ((getBatch_frame filled before).2.1 ▸ found)
  | @queued filled op suits =>
    by_cases same : peer = filled
    · exact same ▸ flowing_enqueue
    · rw [heap_enqueue, if_neg same]
      exact unstranded peerId peer ((enqueue_frame filled op before).2.1 ▸ found)
  | registered newId out =>
    by_cases same : peer = before.allocated
    · have heap : (before.register newId out).heap peer = { peerId := newId, out } := by simp [register, same]
      rw [heap]
      intro filled
      cases filled
    · have heap : (before.register newId out).heap peer = before.heap peer := Function.update_of_ne same _ _
      rw [heap]
      refine unstranded peerId peer ?_
      by_cases new : peerId = newId
      · subst new
        rw [show (before.register peerId out).peers = before.peers.insert peerId before.allocated from rfl,
          AList.lookup_insert] at found
        exact absurd (Option.some.inj found).symm same
      · rwa [show (before.register newId out).peers = before.peers.insert newId before.allocated from rfl,
          AList.lookup_insert_ne new] at found

theorem Filling.unstranded (filling : Filling event before after) (unstranded : before.Unstranded) : after.Unstranded := by
  induction filling with
  | refl => exact unstranded
  | tail _ fills ih => exact fills.unstranded ih

/-- An update of one object that leaves it flowing. -/
theorem Unstranded.modifyPeer {change : Peer → Peer} (unstranded : before.Unstranded)
    (flowing : ∀ peerId, before.peers.lookup peerId = some peer → (before.heap peer).Flowing →
      (change (before.heap peer)).Flowing) : (before.modifyPeer peer change).Unstranded := by
  intro peerId other found
  have kept := unstranded peerId other found
  rw [heap_modifyPeer]
  split_ifs with same
  · subst same
    exact flowing peerId found kept
  · exact kept

/-- A writer that takes a batch leaves none behind. -/
theorem Unstranded.writeBatch (unstranded : state.Unstranded) : (state.writeBatch peer).Unstranded := by
  refine Unstranded.modifyPeer unstranded fun peerId found flowing filled => ?_
  split at filled <;> cases filled

theorem Unstranded.onWritten {frame : Bytes} {rest : List Bytes} {ok : Bool} (unstranded : state.Unstranded) :
    (state.onWritten peer frame rest ok).Unstranded := by
  unfold State.onWritten
  dsimp only
  split_ifs with wrote more gone
  · exact Unstranded.modifyPeer unstranded fun peerId found flowing => flowing
  · refine Unstranded.modifyPeer unstranded fun peerId found flowing filled open_ => ?_
    exact absurd open_ (by simpa using gone)
  · exact Unstranded.writeBatch unstranded
  · refine Unstranded.modifyPeer unstranded fun peerId found flowing filled open_ => ?_
    cases open_

/-- A stream that opens strands exactly the batch that waits for it. -/
theorem unstranded_attachStream {stream : Stream} (unstranded : state.Unstranded) (idle : (state.heap peer).writing = false) :
    (state.attachStream env peer stream).Unstranded ↔
      ∀ peerId, state.peers.lookup peerId = some peer → (state.heap peer).batch = none := by
  constructor
  · intro flowing peerId found
    have moving := flowing peerId peer found
    rw [heap_attachStream, if_pos rfl] at moving
    by_contra some_
    have wrote : (state.heap peer).writing = true := moving (Option.isSome_iff_ne_none.mpr some_) rfl
    rw [idle] at wrote
    cases wrote
  · intro empty peerId other found
    rw [heap_attachStream]
    split_ifs with same
    · subst same
      intro filled
      rw [empty peerId found] at filled
      cases filled
    · exact unstranded peerId other found

/-- Announcing topics starts the writer. -/
theorem unstranded_announced {stream : Stream} (unstranded : state.Unstranded) :
    (((state.attachStream env peer stream).getBatch peer).announceTopics peer).Unstranded := by
  have announced : Filling (.streamOpened peer (some stream)) _
      (((state.attachStream env peer stream).getBatch peer).announceTopics peer) := filling_announceTopics
  refine announced.unstranded fun peerId other found => ?_
  by_cases same : other = peer
  · exact same ▸ flowing_getBatch
  · rw [heap_getBatch_of_ne same, heap_attachStream, if_neg same]
    exact unstranded peerId other ((getBatch_frame peer (state.attachStream env peer stream)).2.1 ▸ found)

theorem Shown.idle_of_dialing (shown : Shown state peer) (dialing : (state.heap peer).isConnecting) :
    (state.heap peer).writing = false := by
  obtain ⟨run, shows_, -, -, -, -⟩ := shown
  have sound := Lane.sound_of_runs run
  rw [shows_.isConnecting] at dialing
  rw [shows_.writing]
  by_contra writing
  have open_ := sound.streaming (sound.running.mpr (by simpa using writing))
  rw [sound.closed dialing] at open_
  cases open_

/-- A step of a run strands a batch exactly when a stream opens too late. -/
theorem unstranded_step_iff (sound : before.roster.Sound) (shown : ∀ peer, Shown before peer)
    (stepped : before.step env event = some after) (unstranded : before.Unstranded) :
    after.Unstranded ↔ Timely before event := by
  have trivially : (∀ peer stream, event ≠ .streamOpened peer (some stream)) → Timely before event :=
    fun other peerId peer stream opens => absurd opens (other peer stream)
  by_cases works : event.works
  · cases event with
    | connected peerId out =>
      obtain rfl := Option.some.inj stepped
      refine iff_of_true ?_ (trivially (by simp))
      have found : (before.findOrRegister peerId out).Unstranded := by
        unfold findOrRegister
        split_ifs
        · exact unstranded
        · have new : Fills (.connected peerId out) before (before.register peerId out) := .registered peerId out
          exact new.unstranded unstranded
      unfold State.onPeerConnected
      dsimp only
      split_ifs
      · exact Unstranded.modifyPeer found fun _ _ flowing => flowing
      · exact found
    | streamOpened peer stream =>
      obtain ⟨⟨dialing, -⟩, ⟨⟩⟩ := Option.ite_none_right_eq_some.mp stepped
      cases stream with
      | none => exact iff_of_true (Unstranded.modifyPeer unstranded fun _ _ flowing => flowing) (trivially (by simp))
      | some stream =>
        rw [onStreamOpened_some]
        split_ifs with empty
        · rw [unstranded_attachStream unstranded ((shown peer).idle_of_dialing dialing)]
          constructor
          · rintro none_ peerId other opened ⟨⟩ found filled
            rw [none_ peerId found] at filled
            cases filled
          · intro timely peerId found
            by_contra some_
            exact timely peerId peer stream rfl found (Option.isSome_iff_ne_none.mpr some_) empty
        · refine iff_of_true (unstranded_announced unstranded) ?_
          intro peerId other opened _ _ _
          exact empty
    | resumeWriter peer =>
      obtain ⟨suspended, ⟨⟩⟩ := Option.ite_none_right_eq_some.mp stepped
      refine iff_of_true ?_ (trivially (by simp))
      unfold State.resumeWriter
      dsimp only
      split_ifs <;> exact Unstranded.writeBatch unstranded
    | written peer ok =>
      simp only [State.step] at stepped
      split at stepped
      · obtain rfl := Option.some.inj stepped
        exact iff_of_true (Unstranded.onWritten unstranded) (trivially (by simp))
      · cases stepped
    | _ => cases works
  · refine iff_of_true ?_ (trivially ?_)
    · exact step_preserves State.Unstranded
        (fun _ _ micro => (micro.filling (Bool.not_eq_true _ ▸ works)).unstranded) sound stepped unstranded
    · rintro peer stream rfl
      exact works rfl

theorem unstranded_initial : (State.initial env lastSeqNo).Unstranded := by
  intro peerId peer found
  cases found

/-- In every state of a run no batch is stranded, exactly if no stream of a registered peer ever opens while a batch
waits for it and there is no topic to announce. -/
theorem unstrandedRuns_iff : UnstrandedRuns env lastSeqNo events state ↔ TimelyRuns env lastSeqNo events state := by
  constructor
  · intro run
    have both : TimelyRuns env lastSeqNo events state ∧ state.Unstranded := by
      refine run.preserves_history (fun events state => TimelyRuns env lastSeqNo events state ∧ state.Unstranded)
        ⟨.nil, unstranded_initial⟩ ?_
      rintro events event before after ⟨timely, unstranded⟩ ⟨stepped, kept⟩
      have plain : Runs env lastSeqNo events before := timely.mono fun _ _ _ taken => taken.1
      have iff_ := unstranded_step_iff (sound_of_runs plain) (shown_of_runs plain) stepped unstranded
      exact ⟨timely.snoc ⟨stepped, iff_.mp kept⟩, kept⟩
    exact both.1
  · intro run
    have both : UnstrandedRuns env lastSeqNo events state ∧ state.Unstranded := by
      refine run.preserves_history (fun events state => UnstrandedRuns env lastSeqNo events state ∧ state.Unstranded)
        ⟨.nil, unstranded_initial⟩ ?_
      rintro events event before after ⟨kept, unstranded⟩ ⟨stepped, timely⟩
      have plain : Runs env lastSeqNo events before := kept.mono fun _ _ _ taken => taken.1
      have flowing := (unstranded_step_iff (sound_of_runs plain) (shown_of_runs plain) stepped unstranded).mpr timely
      exact ⟨kept.snoc ⟨stepped, flowing⟩, flowing⟩
    exact both.1

/-- A message is published for a peer whose stream is not open yet, and the topic expires before it opens. -/
def strandingEvents : List Event :=
  [.connected (samplePeerId 1) false, .handle (samplePeerId 1) kProtocolGossipsubv1_1,
    .message 0 (Pb.RPC.encode { subscriptions := [{ subscribe := some true, topicId := some [0x74] }] }),
    .publish [0x74] [0x01], .heartbeat, .streamOpened 0 (some ⟨0, kProtocolGossipsubv1_1⟩)]

/-- The message then stays in the batch, with an open stream and no writer. -/
theorem expired_topic_strands_batch : ∃ state, Runs (sampleEnv true (10 ^ 6)) 0 strandingEvents state ∧
    state.peers.lookup (samplePeerId 1) = some 0 ∧ (state.heap 0).batch.isSome ∧ (state.heap 0).streamOut.isSome ∧
    (state.heap 0).writing = false := by
  have followed : (strandingEvents.foldlM (State.step (sampleEnv true (10 ^ 6))) (State.initial (sampleEnv true (10 ^ 6)) 0)).map
      (fun state => decide (state.peers.lookup (samplePeerId 1) = some 0) && (state.heap 0).batch.isSome &&
        (state.heap 0).streamOut.isSome && ! (state.heap 0).writing) = some true := by
    decide +kernel
  obtain ⟨state, ran, observed⟩ := Option.map_eq_some_iff.mp followed
  simp only [Bool.and_eq_true, decide_eq_true_eq, Bool.not_eq_true'] at observed
  obtain ⟨⟨⟨registered, filled⟩, open_⟩, idle⟩ := observed
  exact ⟨state, Run.of_foldlM ran, registered, filled, open_, idle⟩

end Stranding

end Libp2p.Gossip
