import Libp2p.Protocol.Gossip.Handling
import Libp2p.Protocol.Gossip.Relay
import Libp2p.Protocol.Gossip.RoundTrip
import Libp2p.Protocol.Gossip.Spreading
import Libp2p.Protocol.Gossip.Writing

/-! # Two nodes that agree on a kind

A node ends the reader of a peer without gossipsub as soon as that peer sends a control entry. What a node queues is
therefore compared with what the other side takes: grafts, prunes, advertisements and requests are only queued to
gossipsub peers, in every run. A refusal goes to every recipient of a large message, so two nodes stay together in the
runs in which no broadcast that sends refusals reaches a peer without gossipsub.
-/

namespace Libp2p.Gossip

open Library State

variable {R : Type} [Double R] {env : Env R} {event : Event} {state before after : State R} {lastSeqNo : Seqno}
  {events : List Event} {peer other : PeerPtr}

section Receiving

variable {encoded : Bytes} {rpc : Pb.RPC}

/-- The reader of a peer goes on after an RPC that its kind allows. -/
theorem onMessage_accepts (decoded : Pb.RPC.decode encoded = some rpc) (exists_ : peer < state.allocated)
    (allowed : (state.heap peer).isGossipsub ∨ rpc.control = {}) : (state.onMessage env peer encoded).2 = true := by
  unfold onMessage
  rw [decoded]
  dsimp only
  split_ifs
  · rfl
  · rcases allowed with capable | empty
    · rw [onRpc_eq rfl decoded exists_ capable]
    · unfold onRpc
      rw [empty]
      rfl

end Receiving

section Sending

/-- Grafts, prunes, advertisements or requests are pending. -/
def Rpc.gossips (rpc : Rpc) : Bool :=
  rpc.graft.elements ≠ [] || rpc.prune.entries ≠ [] || rpc.ihave.entries ≠ [] || rpc.iwant.elements ≠ []

/-- Entries are pending that only gossipsub peers accept. -/
def Rpc.needsGossipsub (rpc : Rpc) : Bool := rpc.gossips || rpc.idontwant.elements ≠ []

theorem Rpc.control_eq_empty {rpc : Rpc} (plain : rpc.needsGossipsub = false) : rpc.controlRpc.control = {} := by
  simp only [needsGossipsub, gossips, Bool.or_eq_false_iff, decide_eq_false_iff_not, not_not] at plain
  obtain ⟨⟨⟨⟨graft, prune⟩, ihave⟩, iwant⟩, idontwant⟩ := plain
  simp [controlRpc, graft, prune, ihave, iwant, idontwant]

/-- A frame of a batch is read back, and without entries for gossipsub peers it has no control part. -/
theorem Rpc.decode_of_mem {rpc : Rpc} {frame : Bytes} (member : frame ∈ rpc.splitBatch) (short : frame.length ≤ maxSize) :
    ∃ read, Pb.RPC.decode frame = some read ∧ (rpc.needsGossipsub = false → read.control = {}) := by
  have small : frame.length < 2 ^ 35 := short.trans_lt (by decide)
  rcases List.mem_append.mp member with control | message
  · split_ifs at control
    · obtain rfl := List.mem_singleton.mp control
      exact ⟨rpc.controlRpc, Pb.RPC.decode_encode small (by simp [Rpc.controlRpc]), Rpc.control_eq_empty⟩
    · cases control
  · obtain ⟨sent, -, rfl⟩ := List.mem_map.mp message
    exact ⟨_, Pb.RPC.decode_encode small (by simp [toProtobuf]), fun _ => rfl⟩

/-- A part of a batch is only pending for gossipsub peers. -/
def Sober (part : Rpc → Bool) (state : State R) : Prop :=
  ∀ peer batch, (state.heap peer).batch = some batch → part batch → (state.heap peer).isGossipsub

theorem isGossipsub_congr {own later : Peer} (kind : later.peerKind = own.peerKind) : later.isGossipsub = own.isGossipsub := by
  unfold Peer.isGossipsub Peer.supports
  rw [kind]

variable {part : Rpc → Bool}

theorem Sober.congr (sober : Sober part before) (batch : ∀ peer, (after.heap peer).batch = (before.heap peer).batch)
    (capable : ∀ peer, (before.heap peer).isGossipsub → (after.heap peer).isGossipsub) : Sober part after :=
  fun peer pending filled holds => capable peer (sober peer pending (batch peer ▸ filled) holds)

/-- An update of one object that keeps or drops its batch. -/
theorem Sober.modifyPeer {change : Peer → Peer} (sober : Sober part state)
    (batch : ∀ own : Peer, (change own).batch = own.batch ∨ (change own).batch = none)
    (capable : ∀ own : Peer, own.isGossipsub → (change own).isGossipsub) : Sober part (state.modifyPeer peer change) := by
  intro other pending filled holds
  rw [heap_modifyPeer] at filled ⊢
  split_ifs at filled ⊢ with same
  · subst same
    rcases batch (state.heap other) with kept | dropped
    · exact capable _ (sober other pending (kept ▸ filled) holds)
    · rw [dropped] at filled
      cases filled
  · exact sober other pending filled holds

theorem Fills.sober (fills : Fills event before after) (sober : Sober part before) (empty : part {} = false)
    (queued : ∀ rpc op own, op.Suits event own → part (rpc.apply op) → part rpc ∨ own.isGossipsub) :
    Sober part after := by
  -- What is pending before counts as empty if there is no batch.
  have pending : ∀ peer, part ((before.heap peer).batch.getD {}) → (before.heap peer).isGossipsub := by
    intro peer holds
    cases filled : (before.heap peer).batch with
    | none =>
      rw [filled, Option.getD_none, empty] at holds
      cases holds
    | some batch =>
      rw [filled] at holds
      exact sober peer batch filled holds
  intro peer batch filled holds
  cases fills with
  | kept alike => exact (alike peer).capable (sober peer batch ((alike peer).batch ▸ filled) holds)
  | batched told =>
    rw [isGossipsub_congr (getBatch_peer told before).2.2.1]
    rw [getBatch_batch] at filled
    split_ifs at filled with same
    · obtain rfl := Option.some.inj filled
      exact same ▸ pending told holds
    · exact sober peer batch filled holds
  | @queued told op suits =>
    rw [isGossipsub_congr (enqueue_peer told op before).2.2.1]
    rw [enqueue_batch] at filled
    split_ifs at filled with same
    · obtain rfl := Option.some.inj filled
      rcases queued _ op _ suits holds with earlier | capable
      · exact same ▸ pending told earlier
      · exact same ▸ capable
    · exact sober peer batch filled holds
  | registered peerId out =>
    by_cases same : peer = before.allocated
    · have heap : (before.register peerId out).heap peer = { peerId, out } := by simp [register, same]
      rw [heap] at filled
      cases filled
    · have heap : (before.register peerId out).heap peer = before.heap peer := Function.update_of_ne same _ _
      rw [heap] at filled ⊢
      exact sober peer batch filled holds

/-- Grafts, prunes, advertisements and requests suit gossipsub peers only. -/
theorem gossips_apply (rpc : Rpc) (op : BatchOp) (own : Peer) (suits : op.Suits event own)
    (holds : (rpc.apply op).gossips) : rpc.gossips ∨ own.isGossipsub := by
  cases op with
  | subscribe topicHash subscribe => exact .inl holds
  | publish message => exact .inl holds
  | idontwant messageId => exact .inl holds
  | graft topicHash => exact .inr suits
  | prune topicHash backoff => exact .inr suits
  | ihave topicHash messageIds => exact .inr suits
  | iwant messageId => exact .inr suits

/-- Events that broadcast nothing queue no refusals. -/
theorem needsGossipsub_apply (silent : event.spreads = false) (rpc : Rpc) (op : BatchOp) (own : Peer)
    (suits : op.Suits event own) (holds : (rpc.apply op).needsGossipsub) : rpc.needsGossipsub ∨ own.isGossipsub := by
  cases op with
  | subscribe topicHash subscribe => exact .inl holds
  | publish message => exact .inl holds
  | idontwant messageId =>
    have spreads : event.spreads = true := suits
    rw [silent] at spreads
    cases spreads
  | graft topicHash => exact .inr suits
  | prune topicHash backoff => exact .inr suits
  | ihave topicHash messageIds => exact .inr suits
  | iwant messageId => exact .inr suits

theorem Filling.sober (filling : Filling event before after) (sober : Sober part before) (empty : part {} = false)
    (queued : ∀ rpc op own, op.Suits event own → part (rpc.apply op) → part rpc ∨ own.isGossipsub) :
    Sober part after := by
  induction filling with
  | refl => exact sober
  | tail _ fills ih => exact fills.sober ih empty queued

theorem sober_writeBatch (sober : Sober part state) : Sober part (state.writeBatch peer) := by
  refine Sober.modifyPeer sober (fun own => .inr ?_) fun own capable => ?_
  · split <;> rfl
  · split <;> exact capable

theorem sober_onWritten {frame : Bytes} {rest : List Bytes} {ok : Bool} (sober : Sober part state) :
    Sober part (state.onWritten peer frame rest ok) := by
  unfold State.onWritten
  dsimp only
  split_ifs
  · exact Sober.modifyPeer sober (fun _ => .inl rfl) fun _ capable => capable
  · exact Sober.modifyPeer sober (fun _ => .inl rfl) fun _ capable => capable
  · exact sober_writeBatch sober
  · exact Sober.modifyPeer sober (fun _ => .inl rfl) fun _ capable => capable

theorem sober_onStreamOpened {stream : Option Stream} (sober : Sober Rpc.needsGossipsub state) :
    Sober Rpc.needsGossipsub (state.onStreamOpened env peer stream) := by
  cases stream with
  | none =>
    have ended : Sober Rpc.needsGossipsub (state.modifyPeer peer fun own => { own with isConnecting := false }) :=
      Sober.modifyPeer sober (fun _ => .inl rfl) fun _ capable => capable
    exact ended
  | some stream =>
    have attached : Sober Rpc.needsGossipsub (state.attachStream env peer stream) := by
      refine sober.congr (fun other => ?_) fun other capable => ?_
      · rw [heap_attachStream]
        split_ifs with same
        · rw [same]
        · rfl
      · rw [heap_attachStream]
        split_ifs with same
        · rw [same] at capable
          exact isGossipsub_orElse capable
        · exact capable
    rw [onStreamOpened_some]
    split_ifs
    · exact attached
    · have announced : Filling (.streamOpened peer (some stream)) (state.attachStream env peer stream)
          (((state.attachStream env peer stream).getBatch peer).announceTopics peer) :=
        .head (.batched peer) filling_announceTopics
      exact announced.sober attached rfl (needsGossipsub_apply rfl)

theorem sober_onPeerConnected {peerId : PeerId} {out : Bool} (sober : Sober Rpc.needsGossipsub state) :
    Sober Rpc.needsGossipsub (state.onPeerConnected peerId out) := by
  have found : Sober Rpc.needsGossipsub (state.findOrRegister peerId out) := by
    unfold findOrRegister
    split_ifs
    · exact sober
    · have new : Fills (.connected peerId out) state (state.register peerId out) := .registered peerId out
      exact new.sober sober rfl (needsGossipsub_apply rfl)
  unfold State.onPeerConnected
  dsimp only
  split_ifs
  · exact Sober.modifyPeer found (fun _ => .inl rfl) fun _ capable => capable
  · exact found

/-- Every recipient of a broadcast that sends refusals is a gossipsub peer. -/
def Discreet (env : Env R) (before : State R) (event : Event) : Prop :=
  ∀ call ∈ before.calls env event, sendIdontwant env call.from_ call.message →
    ∀ peer ∈ call.recipients env, (call.state.heap peer).isGossipsub

instance (env : Env R) (before : State R) (event : Event) : Decidable (Discreet env before event) :=
  inferInstanceAs (Decidable (∀ call ∈ before.calls env event, sendIdontwant env call.from_ call.message →
    ∀ peer ∈ call.recipients env, (call.state.heap peer).isGossipsub))

/-- Runs in which refusals are sent to gossipsub peers only. -/
abbrev DiscreetRuns (env : Env R) (lastSeqNo : Seqno) : List Event → State R → Prop :=
  Run (fun before event after => before.step env event = some after ∧ Discreet env before event)
    (State.initial env lastSeqNo)

/-- A discreet broadcast leaves refusals for gossipsub peers only. -/
theorem capable_of_refusals (keyed : Keyed env before.messageCache) (spreads : event.spreads)
    (stepped : before.step env event = some after) (discreet : Discreet env before event)
    (sober : Sober Rpc.needsGossipsub before) (some_ : (after.heap peer).refusals ≠ []) :
    (after.heap peer).isGossipsub := by
  obtain ⟨middle, traced, ⟨-, batch, peerKind⟩⟩ := traced_of_step keyed spreads stepped
  have same : (after.heap peer).isGossipsub = (before.heap peer).isGossipsub :=
    (isGossipsub_congr (peerKind peer)).trans (isGossipsub_congr (traced.settled peer).peerKind)
  have refused : (middle.heap peer).refusals ≠ [] := by
    unfold Peer.refusals at some_ ⊢
    rwa [batch] at some_
  rw [same]
  by_cases earlier : (before.heap peer).refusals = []
  · obtain ⟨call, called, sends, reached⟩ := traced.refusals peer earlier refused
    rw [← isGossipsub_congr (traced.called call called peer).peerKind]
    exact discreet call called sends peer reached
  · cases filled : (before.heap peer).batch with
    | none =>
      have nothing : (before.heap peer).refusals = [] := by
        unfold Peer.refusals
        rw [filled]
        rfl
      exact absurd nothing earlier
    | some pending =>
      refine sober peer pending filled ?_
      have left : pending.idontwant.elements ≠ [] := by simpa [Peer.refusals, filled] using earlier
      simp [Rpc.needsGossipsub, left]

theorem sober_of_step (sound : before.roster.Sound) (keyed : Keyed env before.messageCache)
    (stepped : before.step env event = some after) (discreet : Discreet env before event)
    (sober : Sober Rpc.needsGossipsub before) : Sober Rpc.needsGossipsub after := by
  by_cases works : event.works
  · cases event with
    | connected peerId out =>
      obtain rfl := Option.some.inj stepped
      exact sober_onPeerConnected sober
    | streamOpened peer stream =>
      obtain ⟨-, ⟨⟩⟩ := Option.ite_none_right_eq_some.mp stepped
      exact sober_onStreamOpened sober
    | resumeWriter peer =>
      obtain ⟨-, ⟨⟩⟩ := Option.ite_none_right_eq_some.mp stepped
      unfold State.resumeWriter
      dsimp only
      split_ifs <;> exact sober_writeBatch sober
    | written peer ok =>
      simp only [State.step] at stepped
      split at stepped
      · obtain rfl := Option.some.inj stepped
        exact sober_onWritten sober
      · cases stepped
    | _ => cases works
  · have idle : event.works = false := Bool.eq_false_of_not_eq_true works
    cases spreads : event.spreads with
    | false =>
      exact step_preserves (Sober Rpc.needsGossipsub)
        (fun _ _ micro kept => (micro.filling idle).sober kept rfl (needsGossipsub_apply spreads)) sound stepped sober
    | true =>
      have gossip : Sober Rpc.gossips before :=
        fun peer batch filled holds => sober peer batch filled (by simp [Rpc.needsGossipsub, holds])
      have kept : Sober Rpc.gossips after := step_preserves (Sober Rpc.gossips)
        (fun _ _ micro kept => (micro.filling idle).sober kept rfl gossips_apply) sound stepped gossip
      intro peer batch filled holds
      rcases Bool.or_eq_true_iff.mp holds with gossips | refuses
      · exact kept peer batch filled gossips
      · refine capable_of_refusals keyed spreads stepped discreet sober ?_
        simpa [Peer.refusals, filled] using refuses

theorem sober_of_runs (run : DiscreetRuns env lastSeqNo events state) : Sober Rpc.needsGossipsub state := by
  have both : Runs env lastSeqNo events state ∧ Sober Rpc.needsGossipsub state := by
    refine run.preserves_history (fun events state => Runs env lastSeqNo events state ∧ Sober Rpc.needsGossipsub state)
      ⟨.nil, fun _ _ filled => by cases filled⟩ ?_
    rintro events event before after ⟨plain, sober⟩ ⟨stepped, discreet⟩
    exact ⟨plain.snoc stepped, sober_of_step (sound_of_runs plain) (keyed_of_runs plain) stepped discreet sober⟩
  exact both.2

/-- In a run whose refusals go to gossipsub peers only, control entries wait for gossipsub peers only, and every frame that
the node encodes for a peer is handled to its end by a node that knows the sender with the same kind, whatever that node
is configured to do and whatever its state is. -/
theorem accepted_of_runs (run : DiscreetRuns env lastSeqNo events state) {batch : Rpc}
    (filled : (state.heap peer).batch = some batch) :
    (batch.needsGossipsub → (state.heap peer).isGossipsub) ∧
      ∀ (R' : Type) [Double R'] (receiving : Env R') (receiver : State R') (sender : PeerPtr),
        sender < receiver.allocated → (receiver.heap sender).peerKind = (state.heap peer).peerKind →
        ∀ frame ∈ batch.splitBatch, frame.length ≤ maxSize → (receiver.onMessage receiving sender frame).2 = true := by
  have sober : batch.needsGossipsub → (state.heap peer).isGossipsub := sober_of_runs run peer batch filled
  refine ⟨sober, ?_⟩
  intro R' _ receiving receiver sender exists_ kind frame member short
  obtain ⟨read, decoded, plain⟩ := Rpc.decode_of_mem member short
  refine onMessage_accepts decoded exists_ ?_
  cases needs : batch.needsGossipsub with
  | false => exact .inr (plain needs)
  | true => exact .inl ((isGossipsub_congr kind).trans (sober needs))

/-- A subscribed gossipsub peer is grafted and gets a message. -/
def greetingEvents : List Event :=
  [.subscribe [0x74], .connected (samplePeerId 1) false, .handle (samplePeerId 1) kProtocolGossipsubv1_1,
    .message 0 (Pb.RPC.encode { subscriptions := [{ subscribe := some true, topicId := some [0x74] }] }),
    .publish [0x74] [0x68, 0x69]]

/-- The node that the greeting is for, once it knows the sender. -/
def greetedState : State Rational :=
  (State.initial (sampleEnv false (10 ^ 6)) 0).handle (sampleEnv false (10 ^ 6)) (samplePeerId 0) kProtocolGossipsubv1_1

theorem accepted_of_runs_greeting : ∃ state batch, DiscreetRuns (sampleEnv true (10 ^ 6)) 0 greetingEvents state ∧
    (state.heap 0).batch = some batch ∧ batch.needsGossipsub ∧ batch.splitBatch.length = 2 ∧
    ∀ frame ∈ batch.splitBatch, (greetedState.onMessage (sampleEnv false (10 ^ 6)) 0 frame).2 = true := by
  have followed : (greetingEvents.foldlM (fun state event =>
      if Discreet (sampleEnv true (10 ^ 6)) state event then state.step (sampleEnv true (10 ^ 6)) event else none)
      (State.initial (sampleEnv true (10 ^ 6)) 0)).map (fun state =>
        ((state.heap 0).batch.any fun batch => batch.needsGossipsub && decide (batch.splitBatch.length = 2) &&
          decide (∀ frame ∈ batch.splitBatch, frame.length ≤ maxSize)) &&
        decide ((state.heap 0).peerKind = (greetedState.heap 0).peerKind)) = some true := by
    decide +kernel
  obtain ⟨state, ran, observed⟩ := Option.map_eq_some_iff.mp followed
  obtain ⟨contents, kind⟩ := Bool.and_eq_true_iff.mp observed
  obtain ⟨batch, filled, checked⟩ := (Option.any_eq_true _ _).mp contents
  simp only [Bool.and_eq_true, decide_eq_true_eq] at checked kind
  obtain ⟨⟨needs, two⟩, short⟩ := checked
  have run := Run.of_foldlM_guarded ran
  have known : 0 < greetedState.allocated := by decide
  exact ⟨state, batch, run, filled, needs, two, fun frame member =>
    (accepted_of_runs run filled).2 Rational (sampleEnv false (10 ^ 6)) greetedState 0 known kind.symm frame member
      (short frame member)⟩

/-- A floodsub peer and a message that is larger than the threshold for refusals. -/
def floodsubEvents : List Event :=
  [.subscribe [0x74], .connected (samplePeerId 1) false, .handle (samplePeerId 1) kProtocolFloodsub,
    .message 0 (Pb.RPC.encode { subscriptions := [{ subscribe := some true, topicId := some [0x74] }] }),
    .connected (samplePeerId 3) false, .handle (samplePeerId 3) kProtocolGossipsubv1_2,
    .message 1 (Pb.RPC.encode { publish := [sampleMessage 2 7 [0x74] (List.replicate 1000 0x68)] })]

/-- The floodsub peer, once it knows the node. -/
def floodsubState : State Rational :=
  (State.initial (sampleEnv true (10 ^ 6)) 0).handle (sampleEnv true (10 ^ 6)) (samplePeerId 0) kProtocolFloodsub

/-- The node queues a refusal to the floodsub peer, which then stops to read from the node. -/
theorem floodsub_peer_cut_off : ∃ state batch, Runs (sampleEnv true (10 ^ 6)) 0 floodsubEvents state ∧
    (state.heap 0).batch = some batch ∧ (floodsubState.heap 0).peerKind = (state.heap 0).peerKind ∧
    0 < floodsubState.allocated ∧ ∃ frame ∈ batch.splitBatch, frame.length ≤ maxSize ∧
      (floodsubState.onMessage (sampleEnv true (10 ^ 6)) 0 frame).2 = false := by
  have followed : (floodsubEvents.foldlM (State.step (sampleEnv true (10 ^ 6)))
      (State.initial (sampleEnv true (10 ^ 6)) 0)).map (fun state =>
        ((state.heap 0).batch.any fun batch => decide (∃ frame ∈ batch.splitBatch, frame.length ≤ maxSize ∧
          (floodsubState.onMessage (sampleEnv true (10 ^ 6)) 0 frame).2 = false)) &&
        decide ((floodsubState.heap 0).peerKind = (state.heap 0).peerKind)) = some true := by
    decide +kernel
  obtain ⟨state, ran, observed⟩ := Option.map_eq_some_iff.mp followed
  obtain ⟨contents, kind⟩ := Bool.and_eq_true_iff.mp observed
  obtain ⟨batch, filled, cut⟩ := (Option.any_eq_true _ _).mp contents
  exact ⟨state, batch, Run.of_foldlM ran, filled, of_decide_eq_true kind, by decide +kernel, of_decide_eq_true cut⟩

end Sending

end Libp2p.Gossip
