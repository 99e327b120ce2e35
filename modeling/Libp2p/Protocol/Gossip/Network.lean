import Libp2p.Library.Interleaving
import Libp2p.Protocol.Gossip.Authenticity
import Libp2p.Protocol.Gossip.Batches
import Libp2p.Protocol.Gossip.Creation
import Libp2p.Protocol.Gossip.MessageIds

/-! # A network of nodes

Nodes take their steps in any order, each with its own configuration, clock and keys, and receive frames that anyone
may have made up. The network remembers which messages were created in it, and where. If nobody can make a signature in
the name of a node that the node did not make, then whatever a node holds in the name of another was created by that
one, and an id stands for one content everywhere.
-/

namespace Libp2p.Gossip

open Library State WireFormat

variable {ι R : Type} [DecidableEq ι] [Double R]

/-- The states of the nodes and the messages that were created, oldest first. -/
abbrev Network (ι R : Type) [Double R] := (ι → State R) × List (ι × Message)

namespace Network

def initial (env : ι → Env R) (first : ι → Seqno) : Network ι R := (fun node => .initial (env node) (first node), [])

/-- What an event creates. -/
def creations (env : ι → Env R) (states : ι → State R) (event : ι × Event) : List (ι × Message) :=
  (event.2.creation (env event.1) (states event.1)).toList.map (event.1, ·)

/-- One node handles one event. -/
def Step (env : ι → Env R) : Network ι R → ι × Event → Network ι R → Prop :=
  Collecting (Interleaved fun node before event after => before.step (env node) event = some after) (creations env)

/-- Runs whose steps satisfy a condition. -/
abbrev Runs (env : ι → Env R) (first : ι → Seqno) (condition : Network ι R → ι × Event → Prop) :
    List (ι × Event) → Network ι R → Prop :=
  Run (fun before event after => Step env before event after ∧ condition before event) (initial env first)

end Network

/-- A node holds a message: it was delivered or queued, is cached, or waits in a batch. -/
inductive State.Holds (state : State R) (message : Message) : Prop
  | delivered {topicHash : TopicHash} {messageId : MessageId} {now later : Time}
      (logged : .delivered topicHash messageId message now later ∈ state.log)
  | queued {peer : PeerPtr} (logged : .queued peer (.publish message) ∈ state.log)
  | cached {messageId : MessageId} {entry : MessageCacheEntry}
      (found : state.messageCache.lookup messageId = some entry) (same : entry.message = message)
  | waiting {peer : PeerPtr} {batch : Rpc} (pending : (state.heap peer).batch = some batch)
      (member : message ∈ batch.publish)

/-- Two messages have the same author, number, topic and data. -/
structure Copies (copy original : Message) : Prop where
  from_ : copy.from_ = original.from_
  data : copy.data = original.data
  seqno : copy.seqno = original.seqno
  topic : copy.topic = original.topic

theorem Copies.refl (message : Message) : Copies message message := ⟨rfl, rfl, rfl, rfl⟩

theorem Copies.trans {first second third : Message} (left : Copies first second) (right : Copies second third) :
    Copies first third :=
  ⟨left.from_.trans right.from_, left.data.trans right.data, left.seqno.trans right.seqno,
    left.topic.trans right.topic⟩

theorem Copies.symm {copy original : Message} (copies : Copies copy original) : Copies original copy :=
  ⟨copies.from_.symm, copies.data.symm, copies.seqno.symm, copies.topic.symm⟩

section Sources

variable {env : Env R} {event : Event} {before after : Records} {origin other : Message → Prop}

/-- Every message in the records has the origin, or the node published it. -/
def Records.Sourced (env : Env R) (origin : Message → Prop) (records : Records) : Prop :=
  records.From env fun message => origin message ∨
    ∃ messageId now later, .published messageId message now later ∈ records.log

theorem Records.Step.log_subset (step : Records.Step env event before after) : before.log ⊆ after.log := by
  cases step with
  | queued => exact List.subset_cons_self _ _
  | admitted =>
    intro observation member
    simp [member]
  | originated =>
    intro observation member
    simp [member]
  | _ => exact fun _ member => member

theorem Records.Sourced.mono (sourced : before.Sourced env origin) (weaker : ∀ message, origin message → other message) :
    before.Sourced env other :=
  From.mono sourced fun message holds => holds.imp_left (weaker message)

theorem Records.Sourced.step (sourced : before.Sourced env origin) (step : Records.Step env event before after)
    (received : ∀ peer encoded rpc sender pbPublish message, event = .message peer encoded →
      Pb.RPC.decode encoded = some rpc → pbPublish ∈ rpc.publish →
      validate env.config.validationMode env.rsaBits env.verify sender pbPublish = some message → origin message) :
    after.Sourced env origin := by
  have grown := step.log_subset
  refine From.step (From.mono sourced ?_) step ?_ ?_
  · rintro message (known | ⟨messageId, now, later, logged⟩)
    · exact .inl known
    · exact .inr ⟨messageId, now, later, grown logged⟩
  · intro peer encoded rpc sender pbPublish message source decoded entry valid
    exact .inl (received peer encoded rpc sender pbPublish message source decoded entry valid)
  · intro topicHash data message source made messageId now later logged
    exact .inr ⟨messageId, now, later, logged⟩

theorem sourced_of_step {before after : State R} (sound : before.roster.Sound)
    (stepped : before.step env event = some after) (sourced : before.records.Sourced env origin)
    (received : ∀ peer encoded rpc sender pbPublish message, event = .message peer encoded →
      Pb.RPC.decode encoded = some rpc → pbPublish ∈ rpc.publish →
      validate env.config.validationMode env.rsaBits env.verify sender pbPublish = some message → origin message) :
    after.records.Sourced env origin :=
  step_preserves (fun state => state.records.Sourced env origin)
    (fun _ _ micro sourced => sourced.step micro.records received) sound stepped sourced

theorem sourced_initial {lastSeqNo : Seqno} : (State.initial env lastSeqNo).records.Sourced env origin := by
  refine ⟨?_, ?_, ?_, ?_⟩ <;> simp [records, State.initial, Peer.pending]

/-- What a node holds has the origin, or the node published it. -/
theorem Records.Sourced.holds {state : State R} {message : Message} (sourced : state.records.Sourced env origin)
    (held : state.Holds message) :
    origin message ∨ ∃ messageId now later, .published messageId message now later ∈ state.log := by
  have known : origin message ∨ ∃ messageId now later,
      .published messageId message now later ∈ state.records.log := by
    cases held with
    | delivered logged => exact sourced.logged _ (List.mem_filter.mpr ⟨logged, rfl⟩) message rfl
    | queued logged => exact sourced.logged _ (List.mem_filter.mpr ⟨logged, rfl⟩) message rfl
    | cached found same => exact same ▸ sourced.cached _ _ found
    | @waiting peer batch pending member =>
      refine sourced.pending peer message ?_
      simpa only [records, Peer.pending, pending, Option.map_some, Option.getD_some] using member
  rcases known with original | ⟨messageId, now, later, logged⟩
  · exact .inl original
  · exact .inr ⟨messageId, now, later, (List.mem_filter.mp logged).1⟩

end Sources

section Steps

variable {env : ι → Env R} {first : ι → Seqno} {condition : Network ι R → ι × Event → Prop}
  {before after network : Network ι R} {event : ι × Event} {events : List (ι × Event)}

/-- Created messages are remembered. -/
theorem Network.Step.created (step : Network.Step env before event after) :
    after.2 = before.2 ++ Network.creations env before.1 event := step.2

/-- What holds of the nodes of a network at every moment, whatever they receive. -/
structure Network.Recorded (network : Network ι R) : Prop where
  sound : ∀ node, (network.1 node).roster.Sound
  published : ∀ node messageId message now later,
    .published messageId message now later ∈ (network.1 node).log → (node, message) ∈ network.2

omit [DecidableEq ι] in
theorem Network.recorded_initial : (Network.initial env first).Recorded where
  sound _ := roster_initial.1
  published _ _ _ _ _ logged := by cases logged

theorem Network.Recorded.step (recorded : before.Recorded) (step : Network.Step env before event after) :
    after.Recorded := by
  have both : ∀ node, (after.1 node).roster.Sound ∧ ∀ messageId message now later,
      .published messageId message now later ∈ (after.1 node).log → (node, message) ∈ after.2 := by
    refine Interleaved.forall_party
      (fun node state => state.roster.Sound ∧ ∀ messageId message now later,
        .published messageId message now later ∈ state.log → (node, message) ∈ before.2)
      (fun node state => state.roster.Sound ∧ ∀ messageId message now later,
        .published messageId message now later ∈ state.log → (node, message) ∈ after.2) step.1 ?_ ?_ ?_
    · exact fun node => ⟨recorded.sound node, recorded.published node⟩
    · rintro node state ⟨sound, published⟩
      refine ⟨sound, fun messageId message now later logged => ?_⟩
      rw [step.created]
      exact List.mem_append_left _ (published messageId message now later logged)
    · rintro next stepped ⟨sound, published⟩
      refine ⟨sound_of_step sound stepped, fun messageId message now later logged => ?_⟩
      rw [step.created]
      rcases published_of_step sound stepped logged with earlier | created
      · exact List.mem_append_left _ (published messageId message now later earlier)
      · refine List.mem_append_right _ ?_
        rw [Network.creations, created]
        exact List.mem_singleton_self _
  exact ⟨fun node => (both node).1, fun node => (both node).2⟩

theorem Network.recorded_of_runs (run : Network.Runs env first condition events network) : network.Recorded :=
  run.preserves Network.Recorded Network.recorded_initial fun _ _ _ recorded taken => recorded.step taken.1

/-- What arrives has an origin that later steps do not take away. -/
theorem Network.sourced_of_runs (origin : List (ι × Message) → Message → Prop)
    (grows : ∀ created more message, origin created message → origin (created ++ more) message)
    (received : ∀ events before event, Network.Runs env first condition events before → condition before event →
      ∀ peer encoded rpc sender pbPublish message, event.2 = .message peer encoded →
      Pb.RPC.decode encoded = some rpc → pbPublish ∈ rpc.publish →
      validate (env event.1).config.validationMode (env event.1).rsaBits (env event.1).verify sender pbPublish =
        some message → origin before.2 message)
    (run : Network.Runs env first condition events network) :
    ∀ node, (network.1 node).records.Sourced (env node) (origin network.2) := by
  have both : Network.Runs env first condition events network ∧
      ∀ node, (network.1 node).records.Sourced (env node) (origin network.2) := by
    refine run.preserves_history (fun events network => Network.Runs env first condition events network ∧
      ∀ node, (network.1 node).records.Sourced (env node) (origin network.2)) ⟨.nil, fun _ => sourced_initial⟩ ?_
    rintro events event before after ⟨earlier, sourced⟩ ⟨step, allowed⟩
    refine ⟨earlier.snoc ⟨step, allowed⟩, ?_⟩
    have weaker : ∀ message, origin before.2 message → origin after.2 message := by
      intro message known
      rw [step.created]
      exact grows _ _ message known
    refine Interleaved.forall_party (fun node state => state.records.Sourced (env node) (origin before.2))
      (fun node state => state.records.Sourced (env node) (origin after.2)) step.1 sourced
      (fun node state held => held.mono weaker) fun next stepped held => ?_
    refine (sourced_of_step ((Network.recorded_of_runs earlier).sound _) stepped held ?_).mono weaker
    exact received events before event earlier allowed
  exact both.2

end Steps

end Libp2p.Gossip
