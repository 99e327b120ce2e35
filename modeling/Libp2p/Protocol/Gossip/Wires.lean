import Libp2p.Protocol.Gossip.Integrity
import Libp2p.Protocol.Gossip.Writing

/-! # A network without outsiders

If nothing arrives but frames that some node has written, then no signature is needed: whatever a node holds was created
in the network, however often frames are repeated, reordered or brought to the wrong node.
-/

namespace Libp2p.Gossip

open Library State

section Writes

variable {R : Type} [Double R] {env : Env R} {event : Event} {state before after : State R} {peer : PeerPtr}
  {origin other : Message → Prop}

/-- The frames that a writer still has to write. -/
def Writer.frames : Writer → List Bytes
  | .writing frames => frames
  | _ => []

/-- A frame of a batch whose messages have an origin. -/
def Carries (origin : Message → Prop) (frame : Bytes) : Prop :=
  ∃ rpc : Rpc, frame ∈ rpc.splitBatch ∧ ∀ message ∈ rpc.publish, origin message

theorem Carries.mono {frame : Bytes} (carries : Carries origin frame)
    (weaker : ∀ message, origin message → other message) : Carries other frame := by
  obtain ⟨rpc, member, messages⟩ := carries
  exact ⟨rpc, member, fun message inside => weaker message (messages message inside)⟩

/-- What a reader finds in such a frame. -/
theorem Carries.decoded {frame : Bytes} {rpc : Pb.RPC} {pbPublish : Pb.Message} (carries : Carries origin frame)
    (short : frame.length ≤ maxSize) (decoded : Pb.RPC.decode frame = some rpc) (entry : pbPublish ∈ rpc.publish) :
    ∃ message, origin message ∧ pbPublish = toProtobuf message := by
  have small : frame.length < 2 ^ 35 := short.trans_lt (by decide)
  obtain ⟨batch, member, messages⟩ := carries
  rcases List.mem_append.mp member with control | message
  · split_ifs at control
    · obtain rfl := List.mem_singleton.mp control
      rw [Pb.RPC.decode_encode small (by simp [Rpc.controlRpc])] at decoded
      obtain rfl := Option.some.inj decoded
      cases entry
    · cases control
  · obtain ⟨sent, inside, rfl⟩ := List.mem_map.mp message
    rw [Pb.RPC.decode_encode small (by simp [toProtobuf])] at decoded
    obtain rfl := Option.some.inj decoded
    exact ⟨sent, messages sent inside, List.mem_singleton.mp entry⟩

/-- All frames that were written, or wait to be, have messages of an origin. -/
structure Writes (origin : Message → Prop) (state : State R) : Prop where
  written : ∀ peer frame, .wrote peer frame ∈ state.log → Carries origin frame
  waiting : ∀ peer, ∀ frame ∈ (state.heap peer).writer.frames, Carries origin frame

theorem Writes.mono (writes : Writes origin state) (weaker : ∀ message, origin message → other message) :
    Writes other state :=
  ⟨fun peer frame logged => (writes.written peer frame logged).mono weaker,
    fun peer frame member => (writes.waiting peer frame member).mono weaker⟩

theorem Writes.congr (writes : Writes origin before)
    (frames : ∀ peer, ∀ frame ∈ (after.heap peer).writer.frames, frame ∈ (before.heap peer).writer.frames)
    (log : ∀ peer frame, .wrote peer frame ∈ after.log → .wrote peer frame ∈ before.log) : Writes origin after :=
  ⟨fun peer frame logged => writes.written peer frame (log peer frame logged),
    fun peer frame member => writes.waiting peer frame (frames peer frame member)⟩

/-- A change of an object that keeps its writer. -/
theorem Writes.modifyPeer {change : Peer → Peer} (writes : Writes origin state)
    (kept : (change (state.heap peer)).writer = (state.heap peer).writer) :
    Writes origin (state.modifyPeer peer change) := by
  refine writes.congr (fun other frame member => ?_) fun _ _ logged => logged
  rwa [modifyPeer_field Peer.writer kept] at member

theorem Writes.getBatch (writes : Writes origin state) : Writes origin (state.getBatch peer) := by
  refine writes.congr (fun other frame member => ?_) fun other frame logged => ?_
  · by_cases same : other = peer
    · subst same
      rw [heap_getBatch_self] at member
      split_ifs at member
      · exact member
      · cases member
    · rwa [heap_getBatch_of_ne same] at member
  · rwa [(getBatch_frame peer state).2.2.2.2.2.2.2.2] at logged

theorem Writes.enqueue {op : BatchOp} (writes : Writes origin state) : Writes origin (state.enqueue peer op) := by
  have batched : Writes origin (state.getBatch peer) := writes.getBatch
  refine batched.congr (fun other frame member => ?_) fun other frame logged => ?_
  · rw [heap_enqueue] at member
    split_ifs at member with same
    · exact same ▸ member
    · rwa [heap_getBatch_of_ne same]
  · rw [(enqueue_frame peer op state).2.2.2.2.2.2.2.2] at logged
    rw [(getBatch_frame peer state).2.2.2.2.2.2.2.2]
    simpa using logged

theorem Writes.register {peerId : PeerId} {out : Bool} (writes : Writes origin state) :
    Writes origin (state.register peerId out) := by
  refine writes.congr (fun other frame member => ?_) fun _ _ logged => logged
  simp only [State.register, Function.update_apply] at member
  split_ifs at member
  · cases member
  · exact member

theorem Fills.writes (fills : Fills event before after) (writes : Writes origin before) : Writes origin after := by
  cases fills with
  | kept alike log silent =>
    refine writes.congr (fun peer frame member => (alike peer).writer ▸ member) fun peer frame logged => ?_
    rw [log] at logged
    refine (List.mem_append.mp logged).resolve_left fun new => ?_
    exact of_decide_eq_false (silent _ new peer) rfl
  | batched => exact writes.getBatch
  | queued => exact writes.enqueue
  | registered => exact writes.register

theorem Filling.writes (filling : Filling event before after) (writes : Writes origin before) : Writes origin after := by
  induction filling with
  | refl => exact writes
  | tail _ fills ih => exact fills.writes ih

/-- A writer takes the messages that wait in the batch. -/
theorem Writes.writeBatch (writes : Writes origin state)
    (pending : ∀ batch, (state.heap peer).batch = some batch → ∀ message ∈ batch.publish, origin message) :
    Writes origin (state.writeBatch peer) := by
  refine ⟨writes.written, fun other frame member => ?_⟩
  rw [State.writeBatch, heap_modifyPeer] at member
  split_ifs at member with same
  · cases batch : (state.heap peer).batch with
    | none =>
      rw [batch] at member
      cases member
    | some rpc =>
      rw [batch, Option.map_some, Option.getD_some] at member
      cases frames : rpc.splitBatch with
      | nil =>
        rw [frames] at member
        cases member
      | cons first rest =>
        rw [frames] at member
        exact ⟨rpc, frames ▸ member, pending rpc batch⟩
  · exact writes.waiting other frame member

theorem Writes.resumeWriter (writes : Writes origin state)
    (pending : ∀ batch, (state.heap peer).batch = some batch → ∀ message ∈ batch.publish, origin message) :
    Writes origin (state.resumeWriter peer) := by
  have asserted : Writes origin (state.record (.writerAsserted peer)) :=
    writes.congr (fun _ _ member => member) fun _ _ logged => by simpa [State.record] using logged
  unfold State.resumeWriter
  dsimp only
  split_ifs
  · exact writes.writeBatch pending
  · exact asserted.writeBatch pending

theorem Writes.onWritten {frame : Bytes} {rest : List Bytes} {ok : Bool} (writes : Writes origin state)
    (suspended : (state.heap peer).writer = .writing (frame :: rest))
    (pending : ∀ batch, (state.heap peer).batch = some batch → ∀ message ∈ batch.publish, origin message) :
    Writes origin (state.onWritten peer frame rest ok) := by
  have carried : ∀ other ∈ frame :: rest, Carries origin other := fun other member =>
    writes.waiting peer other (by rw [suspended]; exact member)
  have wrote : Writes origin (state.record (.wrote peer frame)) := by
    refine ⟨fun other written logged => ?_, writes.waiting⟩
    rcases List.mem_cons.mp logged with new | earlier
    · obtain ⟨-, rfl⟩ := Observation.wrote.inj new
      exact carried written List.mem_cons_self
    · exact writes.written other written earlier
  have advanced : ∀ {state : State R} (change : Peer → Peer), Writes origin state →
      (∀ other ∈ (change (state.heap peer)).writer.frames, other ∈ frame :: rest) →
      Writes origin (state.modifyPeer peer change) := by
    intro state change writes inside
    refine ⟨writes.written, fun other written member => ?_⟩
    rw [heap_modifyPeer] at member
    split_ifs at member
    · exact carried written (inside written member)
    · exact writes.waiting other written member
  unfold State.onWritten
  dsimp only
  split_ifs
  · exact advanced _ wrote fun other member => List.mem_cons_of_mem _ member
  · exact advanced _ wrote fun other member => by cases member
  · exact wrote.writeBatch pending
  · exact advanced _ writes fun other member => by cases member

theorem Writes.onStreamOpened {stream : Option Stream} (writes : Writes origin state) :
    Writes origin (state.onStreamOpened env peer stream) := by
  cases stream with
  | none =>
    have closed : Writes origin (state.modifyPeer peer fun own => { own with isConnecting := false }) :=
      writes.modifyPeer rfl
    exact closed
  | some stream =>
    have opened : Writes origin (state.attachStream env peer stream) := by
      refine writes.congr (fun other frame member => ?_) fun other frame logged => ?_
      · rw [heap_attachStream] at member
        split_ifs at member with same
        · exact same ▸ member
        · exact member
      · exact (List.mem_cons.mp logged).resolve_left fun new => by cases new
    rw [onStreamOpened_some]
    split_ifs
    · exact opened
    · have announced : Filling (.streamOpened peer (some stream)) _
          (State.announceTopics peer ((state.attachStream env peer stream).getBatch peer)) := filling_announceTopics
      exact announced.writes opened.getBatch

theorem Writes.onPeerConnected {peerId : PeerId} {out : Bool} (writes : Writes origin state) :
    Writes origin (state.onPeerConnected peerId out) := by
  have found : Writes origin (state.findOrRegister peerId out) := by
    unfold State.findOrRegister
    split_ifs
    · exact writes
    · exact writes.register
  unfold State.onPeerConnected
  dsimp only
  split_ifs
  · exact found.modifyPeer rfl
  · exact found

/-- A step keeps this if the messages of the batches have the origin. -/
theorem writes_of_step (sound : before.roster.Sound) (stepped : before.step env event = some after)
    (pending : ∀ peer batch, (before.heap peer).batch = some batch → ∀ message ∈ batch.publish, origin message)
    (writes : Writes origin before) : Writes origin after := by
  by_cases works : event.works
  · cases event with
    | connected peerId out =>
      obtain rfl := Option.some.inj stepped
      exact writes.onPeerConnected
    | streamOpened dialed stream =>
      obtain ⟨-, ⟨⟩⟩ := Option.ite_none_right_eq_some.mp stepped
      exact writes.onStreamOpened
    | resumeWriter resumed =>
      obtain ⟨-, ⟨⟩⟩ := Option.ite_none_right_eq_some.mp stepped
      exact writes.resumeWriter (pending resumed)
    | written wrote ok =>
      simp only [State.step] at stepped
      split at stepped
      · next frame rest suspended =>
        obtain rfl := Option.some.inj stepped
        exact writes.onWritten suspended (pending wrote)
      · cases stepped
    | _ => cases works
  · exact step_preserves (fun state => Writes origin state)
      (fun _ _ micro writes => (micro.filling (Bool.not_eq_true _ ▸ works)).writes writes) sound stepped writes

end Writes

variable {ι R : Type} [DecidableEq ι] [Double R] {env : ι → Env R} {first : ι → Seqno}
  {before after network : Network ι R} {event : ι × Event} {events : List (ι × Event)}

/-- A message says what some created message says. -/
def Known (created : List (ι × Message)) (message : Message) : Prop :=
  ∃ author original, (author, original) ∈ created ∧ Copies message original

/-- Only frames arrive that some node has written to some peer. -/
def Wired (before : Network ι R) (event : ι × Event) : Prop :=
  ∀ peer encoded, event.2 = .message peer encoded →
    encoded.length ≤ maxSize ∧ ∃ node other, .wrote other encoded ∈ (before.1 node).log

/-- What holds of a network without outsiders at every moment. -/
structure Network.Closed (env : ι → Env R) (network : Network ι R) : Prop where
  recorded : network.Recorded
  authors : ∀ entry ∈ network.2, entry.2.from_ = none ∨ entry.2.from_ = some (env entry.1).hostId
  sourced : ∀ node, (network.1 node).records.Sourced (env node) (Known network.2)
  writes : ∀ node, Writes (Known network.2) (network.1 node)

omit [DecidableEq ι] in
theorem Network.Closed.known (closed : network.Closed env) {node : ι} {message : Message}
    (held : (network.1 node).Holds message) : Known network.2 message := by
  rcases (closed.sourced node).holds held with known | ⟨messageId, now, later, logged⟩
  · exact known
  · exact ⟨node, message, closed.recorded.published node messageId message now later logged, .refl message⟩

theorem creation_from {env : Env R} {event : Event} {state : State R} {message : Message}
    (created : event.creation env state = some message) : message.from_ = none ∨ message.from_ = some env.hostId := by
  have made : ∀ topicHash data, (state.createMessage env topicHash data).1.from_ = none ∨
      (state.createMessage env topicHash data).1.from_ = some env.hostId := by
    intro topicHash data
    unfold createMessage
    cases env.config.messageAuthenticity with
    | signed => exact .inr rfl
    | anonymous => exact .inl rfl
  cases event with
  | publish topicHash data => exact Option.some.inj created ▸ made topicHash data
  | publishTopic topicHash data => exact Option.some.inj created ▸ made topicHash data
  | _ => cases created

omit [DecidableEq ι] in
theorem Known.mono {created : List (ι × Message)} {message : Message} (known : Known created message)
    (more : List (ι × Message)) : Known (created ++ more) message := by
  obtain ⟨author, original, member, copies⟩ := known
  exact ⟨author, original, List.mem_append_left _ member, copies⟩

theorem Network.Closed.step (vectors : ∀ node, PeerId.fromBytes (env node).hostId.toVector = .ok (env node).hostId)
    (closed : before.Closed env) (step : Network.Step env before event after) (wired : Wired before event) :
    after.Closed env := by
  have weaker : ∀ message, Known before.2 message → Known after.2 message := by
    intro message known
    rw [step.created]
    exact known.mono _
  -- What arrives was written by a node, and what a node writes is known.
  have received : ∀ peer encoded rpc sender pbPublish message, event.2 = .message peer encoded →
      Pb.RPC.decode encoded = some rpc → pbPublish ∈ rpc.publish →
      validate (env event.1).config.validationMode (env event.1).rsaBits (env event.1).verify sender pbPublish =
        some message → Known before.2 message := by
    intro peer encoded rpc sender pbPublish message source decoded entry valid
    obtain ⟨short, writer, other, wrote⟩ := wired peer encoded source
    obtain ⟨sent, ⟨author, original, created, copies⟩, rfl⟩ :=
      ((closed.writes writer).written other encoded wrote).decoded short decoded entry
    have vector : ∀ from_, sent.from_ = some from_ → PeerId.fromBytes from_.toVector = .ok from_ := by
      intro from_ named
      rcases closed.authors _ created with anonymous | host
      · rw [copies.from_, anonymous] at named
        cases named
      · rw [copies.from_, host] at named
        exact Option.some.inj named ▸ vectors author
    obtain ⟨from_, data, seqno, topic, -⟩ := validate_toProtobuf vector valid
    exact ⟨author, original, created, Copies.trans ⟨from_, data, seqno, topic⟩ copies⟩
  refine ⟨closed.recorded.step step, fun entry member => ?_, ?_, ?_⟩
  · rw [step.created] at member
    rcases List.mem_append.mp member with earlier | new
    · exact closed.authors entry earlier
    · obtain ⟨message, created, rfl⟩ := List.mem_map.mp new
      exact creation_from (Option.mem_toList.mp created)
  · refine Interleaved.forall_party (fun node state => state.records.Sourced (env node) (Known before.2))
      (fun node state => state.records.Sourced (env node) (Known after.2)) step.1 closed.sourced
      (fun node state sourced => sourced.mono weaker) fun next stepped sourced => ?_
    exact (sourced_of_step (closed.recorded.sound _) stepped sourced received).mono weaker
  · refine Interleaved.forall_party (fun _ state => Writes (Known before.2) state)
      (fun _ state => Writes (Known after.2) state) step.1 closed.writes (fun node state writes => writes.mono weaker)
      fun next stepped writes => ?_
    refine (writes_of_step (closed.recorded.sound _) stepped ?_ writes).mono weaker
    exact fun peer batch pending message member => closed.known (.waiting pending member)

theorem Network.closed_of_runs (vectors : ∀ node, PeerId.fromBytes (env node).hostId.toVector = .ok (env node).hostId)
    (run : Network.Runs env first Wired events network) : network.Closed env := by
  refine run.preserves (fun network => network.Closed env) ?_
    fun event before after closed taken => closed.step vectors taken.1 taken.2
  have fresh : ∀ node, Writes (Known ([] : List (ι × Message))) (State.initial (env node) (first node)) := by
    intro node
    constructor
    · intro peer frame logged
      cases logged
    · intro peer frame member
      cases member
  exact ⟨Network.recorded_initial, fun entry member => (List.not_mem_nil member).elim, fun _ => sourced_initial, fresh⟩

/-- In every run of a network in which only written frames arrive, in whatever order, how often and at whatever node,
everything that any node holds is a copy of a message that a node created, whether messages are signed or not. -/
theorem closed_network_integrity
    (vectors : ∀ node, PeerId.fromBytes (env node).hostId.toVector = .ok (env node).hostId)
    (run : Network.Runs env first Wired events network) (node : ι) (message : Message)
    (held : (network.1 node).Holds message) : Known network.2 message :=
  (Network.closed_of_runs vectors run).known held

theorem closed_network_integrity_published : ∃ network, Network.Runs sampleNetwork (fun _ => 0) Wired sampleEvents network ∧
    ∃ message, (network.1 false).Holds message ∧ message.data = [0x68] ∧ Known network.2 message := by
  obtain ⟨network, run, ⟨message, held, -, data⟩, -⟩ := sample_run
  have wired : Network.Runs sampleNetwork (fun _ => 0) Wired sampleEvents network := by
    refine run.mono fun event before after taken => ⟨taken.1, fun peer encoded source => ?_⟩
    rcases sampleCondition_message taken.2 source with ⟨rfl, wrote⟩ | ⟨rfl, wrote, -⟩
    · exact ⟨by decide +kernel, false, 0, wrote⟩
    · exact ⟨by decide +kernel, true, 0, wrote⟩
  have vectors : ∀ node, PeerId.fromBytes (sampleNetwork node).hostId.toVector = .ok (sampleNetwork node).hostId := by
    decide +kernel
  exact ⟨network, wired, message, held, data, closed_network_integrity vectors wired false message held⟩

end Libp2p.Gossip
