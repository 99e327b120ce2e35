import Libp2p.Protocol.Gossip.Network
import Libp2p.Protocol.Gossip.Relay

/-! # Integrity and agreement

Signatures bind a message to its author, and sequence numbers bind an id to a message. Both survive any number of
relays and any frames that others make up.
-/

namespace Libp2p.Gossip

open Library State WireFormat

variable {ι R : Type} [DecidableEq ι] [Double R] {env : ι → Env R} {first : ι → Seqno}
  {before after network : Network ι R} {event : ι × Event} {events : List (ι × Event)}

section Integrity

/-- What is said in the name of a node was created by it. -/
def Attributed (env : ι → Env R) (created : List (ι × Message)) (message : Message) : Prop :=
  ∀ node, message.from_ = some (env node).hostId →
    ∃ author original, (author, original) ∈ created ∧ (env author).hostId = (env node).hostId ∧
      Copies message original

/-- Nobody receives a signature in the name of a node over anything but what the node has signed. Frames are as large as
a reader accepts, and published messages are as small as protocol buffers have to be. -/
structure Unforged (env : ι → Env R) (before : Network ι R) (event : ι × Event) : Prop where
  sized : ∀ topicHash data, event.2 = .publish topicHash data ∨ event.2 = .publishTopic topicHash data →
    topicHash.length + data.length < 2 ^ 31
  framed : ∀ peer encoded, event.2 = .message peer encoded → encoded.length ≤ maxSize
  signed : ∀ peer encoded rpc pbPublish message node, event.2 = .message peer encoded →
    Pb.RPC.decode encoded = some rpc → pbPublish ∈ rpc.publish → Verified (env event.1) pbPublish message →
    message.from_ = some (env node).hostId →
      ∃ author original, (author, original) ∈ before.2 ∧ (env author).hostId = (env node).hostId ∧
        getSignable pbPublish = getSignable (toProtobuf original)

/-- A created message that is signed. -/
structure Signed (env : ι → Env R) (entry : ι × Message) : Prop where
  from_ : entry.2.from_ = some (env entry.1).hostId
  seqno : ∃ seqno, entry.2.seqno = some seqno
  small : entry.2.topic.length + entry.2.data.length < 2 ^ 31

omit [DecidableEq ι] in
theorem Network.mem_creations {states : ι → State R} {entry : ι × Message}
    (member : entry ∈ Network.creations env states event) :
    entry.1 = event.1 ∧ event.2.creation (env event.1) (states event.1) = some entry.2 := by
  obtain ⟨message, created, rfl⟩ := List.mem_map.mp member
  exact ⟨rfl, Option.mem_toList.mp created⟩

theorem signed_of_runs (signs : ∀ node, (env node).config.messageAuthenticity = .signed)
    (run : Network.Runs env first (Unforged env) events network) : ∀ entry ∈ network.2, Signed env entry := by
  refine run.preserves (fun network => ∀ entry ∈ network.2, Signed env entry) (fun entry member => by cases member) ?_
  rintro event before after signed ⟨step, unforged⟩ entry member
  rw [step.created] at member
  rcases List.mem_append.mp member with earlier | new
  · exact signed entry earlier
  · obtain ⟨node, created⟩ := Network.mem_creations new
    obtain ⟨author, number⟩ := creation_signed (signs event.1) created
    refine ⟨node ▸ author, ⟨_, number⟩, ?_⟩
    exact unforged.sized _ _ (creation_content created)

/-- What is signed in a message that a node created determines the fields of a received one. -/
theorem content_of_signable {pbPublish : Pb.Message} {original : Message} {author : PeerId} {seqno : Seqno}
    (bounded : pbPublish.Bounded maxSize) (hasTopic : pbPublish.topic.isSome)
    (present : pbPublish.from_ = some (pbPublish.from_.getD []))
    (number : pbPublish.seqno = some (pbPublish.seqno.getD [])) (named : original.from_ = some author)
    (numbered : original.seqno = some seqno) (small : original.topic.length + original.data.length < 2 ^ 31)
    (same : getSignable pbPublish = getSignable (toProtobuf original)) :
    pbPublish.data = some original.data ∧ pbPublish.seqno = some (storeBigU64 seqno) ∧
      pbPublish.topic = some original.topic := by
  simp only [Pb.Message.Bounded, List.forall_mem_cons] at bounded
  obtain ⟨fromShort, dataShort, seqnoShort, topicShort, -⟩ := bounded
  have flat : ∀ (number : ℕ) (data : Bytes), 0 < number → number < 2 ^ 29 → data.length < 2 ^ 31 →
      Field.Flat ⟨number, .bytes data⟩ :=
    fun number data positive bound short => ⟨positive, bound, .inr ⟨data, rfl, short.trans (by decide)⟩⟩
  have received : ∀ (number : ℕ) (data : Bytes), 0 < number → number < 2 ^ 29 → data.length ≤ maxSize →
      Field.Flat ⟨number, .bytes data⟩ := fun number data positive bound short => flat_bytes number positive bound short
  have short : author.toVector.length < 2 ^ 31 := (PeerId.toVector_length_le _).trans_lt (by decide)
  have written : toProtobuf original = { from_ := some author.toVector, data := some original.data
                                         seqno := some (storeBigU64 seqno), topic := some original.topic
                                         signature := original.signature } := by
    rw [toProtobuf, named, numbered]
    rfl
  rw [getSignable_eq, getSignable_eq, written, present, number] at same
  simp only [encodeFields_optional] at same
  obtain ⟨-, second⟩ := Field.encode_append_inj (received 1 _ (by decide) (by decide) fromShort)
    (flat 1 _ (by decide) (by decide) short) (List.append_cancel_left same)
  cases present : pbPublish.data with
  | none =>
    -- The author wrote data before the sequence number.
    rw [present] at second
    obtain ⟨fields, -⟩ := Field.encode_append_inj (received 3 _ (by decide) (by decide) seqnoShort)
      (flat 2 _ (by decide) (by decide) (by omega)) second
    simp at fields
  | some data =>
    rw [present] at second dataShort
    rw [encodeFields_optional] at second
    obtain ⟨contents, third⟩ := Field.encode_append_inj (received 2 data (by decide) (by decide) dataShort)
      (flat 2 _ (by decide) (by decide) (by omega)) second
    obtain ⟨numbers, fourth⟩ := Field.encode_append_inj (received 3 _ (by decide) (by decide) seqnoShort)
      (flat 3 (storeBigU64 seqno) (by decide) (by decide) (by simp [storeBigU64])) third
    obtain ⟨topic, named⟩ := Option.isSome_iff_exists.mp hasTopic
    rw [named, encodeFields_optional] at fourth
    rw [named] at topicShort
    obtain ⟨topics, -⟩ := Field.encode_append_inj (received 4 topic (by decide) (by decide) topicShort)
      (flat 4 _ (by decide) (by decide) (by omega)) fourth
    simp only [Field.mk.injEq, Value.bytes.injEq, true_and] at contents numbers topics
    rw [contents, number, numbers, named, topics]
    exact ⟨rfl, rfl, rfl⟩

omit [DecidableEq ι] in
/-- A verified entry says what its author has created. -/
theorem attributed_of_verified {peer : PeerPtr} {encoded : Bytes} {rpc : Pb.RPC} {pbPublish : Pb.Message}
    {message : Message} (signed : ∀ entry ∈ before.2, Signed env entry) (unforged : Unforged env before event)
    (source : event.2 = .message peer encoded) (decoded : Pb.RPC.decode encoded = some rpc)
    (entry : pbPublish ∈ rpc.publish) (verified : Verified (env event.1) pbPublish message) :
    Attributed env before.2 message := by
  intro node from_
  obtain ⟨author, original, created, same, signable⟩ :=
    unforged.signed peer encoded rpc pbPublish message node source decoded entry verified from_
  refine ⟨author, original, created, same, ?_⟩
  obtain ⟨named, ⟨seqno, numbered⟩, small⟩ := signed _ created
  obtain ⟨hasTopic, inside⟩ := Pb.RPC.mem_publish_decode decoded entry
  have bounded : pbPublish.Bounded maxSize :=
    fun part member => (inside part member).trans (unforged.framed peer encoded source)
  obtain ⟨sender, key, accepted, read, -⟩ := verified.author
  have present : pbPublish.from_ = some (pbPublish.from_.getD []) := by
    cases there : pbPublish.from_ with
    | none =>
      rw [there] at accepted
      cases accepted
    | some bytes => rfl
  have number : pbPublish.seqno = some (pbPublish.seqno.getD []) := by
    cases there : pbPublish.seqno with
    | none =>
      have size := verified.seqno.1
      rw [there] at size
      cases size
    | some bytes => rfl
  obtain ⟨data, numbers, topic⟩ := content_of_signable bounded hasTopic present number named numbered small signable
  refine ⟨?_, ?_, ?_, ?_⟩
  · rw [from_, named, same]
  · rw [verified.content.1, data, Option.getD_some]
  · rw [verified.seqno.2, numbers, Option.getD_some, loadBigU64_storeBigU64, numbered]
  · rw [verified.content.2, topic, Option.getD_some]

/-- What a node holds was received in a message that verified, or created by the node itself. -/
theorem Network.attributed_of_runs (strict : ∀ node, (env node).config.validationMode = .strict)
    (signs : ∀ node, (env node).config.messageAuthenticity = .signed)
    (run : Network.Runs env first (Unforged env) events network) {node : ι} {message : Message}
    (held : (network.1 node).Holds message) : Attributed env network.2 message := by
  have sourced := Network.sourced_of_runs (Attributed env)
    (fun created more message known author from_ => by
      obtain ⟨other, original, member, rest⟩ := known author from_
      exact ⟨other, original, List.mem_append_left _ member, rest⟩)
    (fun events before event earlier unforged peer encoded rpc sender pbPublish message source decoded entry valid => by
      rw [strict] at valid
      exact attributed_of_verified (signed_of_runs signs earlier) unforged source decoded entry
        (verified_of_validate valid)) run
  rcases (sourced node).holds held with received | ⟨messageId, now, later, logged⟩
  · exact received
  · have created := (Network.recorded_of_runs run).published node messageId message now later logged
    intro author from_
    have own := (signed_of_runs signs run _ created).from_
    exact ⟨node, message, created, Option.some.inj (own.symm.trans from_), .refl message⟩

/-- In every run of a network of nodes that sign and verify, whatever frames they receive in whatever order, everything
that a node holds in the name of a node was created by that node, with the same data, topic and number, unless a
signature was forged. -/
theorem integrity_of_network (strict : ∀ node, (env node).config.validationMode = .strict)
    (signs : ∀ node, (env node).config.messageAuthenticity = .signed)
    (run : Network.Runs env first (Unforged env) events network) (node : ι) (message : Message)
    (held : (network.1 node).Holds message) : Attributed env network.2 message :=
  Network.attributed_of_runs strict signs run held

section Sample

/-- Two nodes with the default configuration that differ in their keys. -/
def sampleNetwork (node : Bool) : Env Rational :=
  let author : UInt8 := if node then 1 else 2
  { sampleEnv true 1 with
    hostId := samplePeerId author
    sign := fun signable => sampleKey author ++ signable }

def sampleSubscription : Bytes :=
  Pb.RPC.encode { subscriptions := [{ subscribe := some true, topicId := some [0x74] }] }

def samplePublication : Bytes := Pb.RPC.encode { publish := [sampleMessage 1 0 [0x74] [0x68]] }

/-- One node subscribes and tells the other, which publishes and sends what it has published. -/
def sampleEvents : List (Bool × Event) :=
  [(false, .subscribe [0x74]), (false, .connected (samplePeerId 1) true),
    (false, .streamOpened 0 (some ⟨1, kProtocolGossipsubv1_1⟩)), (false, .resumeWriter 0), (false, .written 0 true),
    (true, .connected (samplePeerId 2) true), (true, .streamOpened 0 (some ⟨1, kProtocolGossipsubv1_1⟩)),
    (true, .message 0 sampleSubscription), (true, .publish [0x74] [0x68]), (true, .resumeWriter 0),
    (true, .written 0 true), (false, .message 0 samplePublication)]

def sampleOriginal : Message :=
  ((State.initial (sampleNetwork true) 0).createMessage (sampleNetwork true) [0x74] [0x68]).1

/-- Only these two frames arrive, once they have been written. -/
def sampleCondition (before : Network Bool Rational) (event : Bool × Event) : Bool :=
  match event.2 with
  | .message _ encoded =>
    encoded = sampleSubscription && .wrote 0 encoded ∈ (before.1 false).log ||
      encoded = samplePublication && .wrote 0 encoded ∈ (before.1 true).log && (true, sampleOriginal) ∈ before.2
  | .publish topicHash data | .publishTopic topicHash data => topicHash.length + data.length < 2 ^ 31
  | _ => true

theorem sampleCondition_message {before : Network Bool Rational} {event : Bool × Event} {peer : PeerPtr}
    {encoded : Bytes} (allowed : sampleCondition before event) (source : event.2 = .message peer encoded) :
    encoded = sampleSubscription ∧ .wrote 0 encoded ∈ (before.1 false).log ∨
      encoded = samplePublication ∧ .wrote 0 encoded ∈ (before.1 true).log ∧ (true, sampleOriginal) ∈ before.2 := by
  obtain ⟨node, event⟩ := event
  obtain rfl : event = .message peer encoded := source
  simpa [sampleCondition, and_assoc] using allowed

theorem decode_samplePublication :
    Pb.RPC.decode samplePublication = some { publish := [sampleMessage 1 0 [0x74] [0x68]] } := by decide +kernel

theorem unforged_of_sampleCondition {before : Network Bool Rational} {event : Bool × Event}
    (allowed : sampleCondition before event) : Unforged sampleNetwork before event := by
  constructor
  · obtain ⟨node, event⟩ := event
    rintro topicHash data (source | source)
    · obtain rfl : event = .publish topicHash data := source
      exact of_decide_eq_true allowed
    · obtain rfl : event = .publishTopic topicHash data := source
      exact of_decide_eq_true allowed
  · intro peer encoded source
    rcases sampleCondition_message allowed source with ⟨rfl, -⟩ | ⟨rfl, -⟩
    · decide +kernel
    · decide +kernel
  · intro peer encoded rpc pbPublish message node source decoded entry verified from_
    rcases sampleCondition_message allowed source with ⟨rfl, -⟩ | ⟨rfl, -, created⟩
    · have read : Pb.RPC.decode sampleSubscription =
          some { subscriptions := [{ subscribe := some true, topicId := some [0x74] }] } := by decide +kernel
      obtain rfl := Option.some.inj (read.symm.trans decoded)
      cases entry
    · obtain rfl := Option.some.inj (decode_samplePublication.symm.trans decoded)
      obtain rfl := List.mem_singleton.mp entry
      obtain ⟨author, key, accepted, named, -⟩ := verified.author
      have read : PeerId.fromBytes ((sampleMessage 1 0 [0x74] [0x68]).from_.getD []) = .ok (samplePeerId 1) := by
        decide +kernel
      have same : author = samplePeerId 1 := Except.ok.inj (accepted.symm.trans read)
      refine ⟨true, sampleOriginal, created, ?_, by decide⟩
      exact same.symm.trans (Option.some.inj (named.symm.trans from_))

def isSampleDelivery : Observation → Bool
  | .delivered _ _ message _ _ => message.from_ = some (samplePeerId 1) && message.data = [0x68]
  | _ => false

/-- The first node receives what the second has published. -/
theorem sample_run : ∃ network, Network.Runs sampleNetwork (fun _ => 0)
    (fun before event => sampleCondition before event) sampleEvents network ∧
      (∃ message, (network.1 false).Holds message ∧ message.from_ = some (samplePeerId 1) ∧ message.data = [0x68]) ∧
      (network.1 true).Holds sampleOriginal := by
  have followed : (sampleEvents.foldlM (fun before event => if sampleCondition before event then
      collectM (interleaveM fun node => State.step (sampleNetwork node)) (Network.creations sampleNetwork) before event
      else none) (Network.initial sampleNetwork fun _ => 0)).map (fun network =>
        (network.1 false).log.any isSampleDelivery && .queued 0 (.publish sampleOriginal) ∈ (network.1 true).log) =
      some true := by
    decide +kernel
  obtain ⟨network, ran, observed⟩ := Option.map_eq_some_iff.mp followed
  obtain ⟨received, queued⟩ := (Bool.and_eq_true _ _).mp observed
  obtain ⟨observation, logged, content⟩ := List.any_eq_true.mp received
  refine ⟨network, ?_, ?_, .queued (of_decide_eq_true queued)⟩
  · refine (Run.of_foldlM_guarded ran).mono fun event before after taken => ⟨?_, taken.2⟩
    obtain ⟨next, stepped, rfl⟩ := Option.map_eq_some_iff.mp taken.1
    exact ⟨Interleaved.of_interleaveM stepped, rfl⟩
  · cases observation with
    | delivered topicHash messageId message now later =>
      obtain ⟨author, data⟩ := (Bool.and_eq_true _ _).mp content
      exact ⟨message, .delivered logged, of_decide_eq_true author, of_decide_eq_true data⟩
    | _ => cases content

end Sample

theorem integrity_of_network_published : ∃ network, Network.Runs sampleNetwork (fun _ => 0) (Unforged sampleNetwork)
    sampleEvents network ∧ ∃ message, (network.1 false).Holds message ∧ message.from_ = some (samplePeerId 1) ∧
      Attributed sampleNetwork network.2 message := by
  obtain ⟨network, run, ⟨message, held, author, -⟩, -⟩ := sample_run
  have unforged : Network.Runs sampleNetwork (fun _ => 0) (Unforged sampleNetwork) sampleEvents network :=
    run.mono fun event before after taken => ⟨taken.1, unforged_of_sampleCondition taken.2⟩
  exact ⟨network, unforged, message, held, author,
    integrity_of_network (fun _ => rfl) (fun _ => rfl) unforged false message held⟩

end Integrity

section Agreement

/-- What one node created, oldest first. -/
def Network.createdBy (network : Network ι R) (node : ι) : List Message :=
  (network.2.filter fun entry => entry.1 = node).map Prod.snd

theorem Network.Step.createdBy (step : Network.Step env before event after) (node : ι) :
    after.createdBy node = before.createdBy node ++
      if event.1 = node then (event.2.creation (env event.1) (before.1 event.1)).toList else [] := by
  unfold Network.createdBy
  rw [step.created, List.filter_append, List.map_append, Network.creations]
  congr 1
  cases event.2.creation (env event.1) (before.1 event.1) with
  | none => simp
  | some message =>
    split_ifs with same <;> simp [same]

/-- The messages of a node are numbered in the order in which it created them. -/
structure Network.Numbered (first : ι → Seqno) (network : Network ι R) : Prop where
  next : ∀ node, (network.1 node).lastSeqNo = first node + UInt64.ofNat (network.createdBy node).length
  number : ∀ node index message, (network.createdBy node)[index]? = some message →
    message.seqno = some (first node + UInt64.ofNat index)

theorem Network.Numbered.step (signs : ∀ node, (env node).config.messageAuthenticity = .signed)
    (recorded : before.Recorded) (numbered : before.Numbered first) (step : Network.Step env before event after) :
    after.Numbered first := by
  obtain ⟨next, number⟩ := numbered
  obtain ⟨state, stepped, states⟩ := step.1
  constructor
  · intro node
    rw [step.createdBy node, List.length_append, UInt64.ofNat_add, ← UInt64.add_assoc, ← next node, states]
    by_cases same : node = event.1
    · subst same
      rw [Function.update_self, if_pos rfl, lastSeqNo_of_step (signs event.1) (recorded.sound event.1) stepped]
    · rw [Function.update_of_ne same, if_neg (Ne.symm same)]
      exact (UInt64.add_zero _).symm
  · intro node index message found
    rw [step.createdBy node] at found
    rcases Nat.lt_or_ge index (before.createdBy node).length with earlier | new
    · rw [List.getElem?_append_left earlier] at found
      exact number node index message found
    · rw [List.getElem?_append_right new] at found
      split_ifs at found with same
      · subst same
        cases created : event.2.creation (env event.1) (before.1 event.1) with
        | none =>
          rw [created] at found
          cases found
        | some made =>
          rw [created, Option.toList_some, List.getElem?_singleton] at found
          obtain ⟨last, ⟨⟩⟩ := Option.ite_none_right_eq_some.mp found
          rw [(creation_signed (signs event.1) created).2, next event.1]
          have same : index = (before.createdBy event.1).length := by omega
          rw [same]
      · cases found

theorem Network.numbered_of_runs {condition : Network ι R → ι × Event → Prop}
    (signs : ∀ node, (env node).config.messageAuthenticity = .signed)
    (run : Network.Runs env first condition events network) : network.Numbered first := by
  have both : network.Recorded ∧ network.Numbered first := by
    refine run.preserves (fun network => network.Recorded ∧ network.Numbered first)
      ⟨Network.recorded_initial, fun _ => (UInt64.add_zero _).symm, fun _ _ _ found => by cases found⟩ ?_
    rintro event before after ⟨recorded, numbered⟩ ⟨step, -⟩
    exact ⟨recorded.step step, numbered.step signs recorded step⟩
  exact both.2

/-- An event creates at most one message. -/
theorem Network.created_le_of_runs {condition : Network ι R → ι × Event → Prop}
    (run : Network.Runs env first condition events network) : network.2.length ≤ events.length := by
  refine run.preserves_history (fun events network => network.2.length ≤ events.length) le_rfl ?_
  rintro events event before after bound ⟨step, -⟩
  have one : (Network.creations env before.1 event).length ≤ 1 := by
    rw [Network.creations, List.length_map]
    cases event.2.creation (env event.1) (before.1 event.1) <;> simp
  rw [step.created, List.length_append, List.length_append, List.length_singleton]
  exact Nat.add_le_add bound one

/-- A node does not number two messages alike before it has used all numbers. -/
theorem Network.Numbered.unique {node : ι} {message other : Message} (numbered : network.Numbered first)
    (fewer : network.2.length < 2 ^ 64) (created : (node, message) ∈ network.2) (created' : (node, other) ∈ network.2)
    (same : message.seqno = other.seqno) : message = other := by
  have own : ∀ message, (node, message) ∈ network.2 → message ∈ network.createdBy node := fun message member =>
    List.mem_map.mpr ⟨(node, message), List.mem_filter.mpr ⟨member, decide_eq_true rfl⟩, rfl⟩
  have short : (network.createdBy node).length < 2 ^ 64 := by
    unfold Network.createdBy
    rw [List.length_map]
    exact (List.length_filter_le _ _).trans_lt fewer
  obtain ⟨index, bound, found⟩ := List.mem_iff_getElem.mp (own message created)
  obtain ⟨index', bound', found'⟩ := List.mem_iff_getElem.mp (own other created')
  rw [numbered.number node index message (List.getElem?_eq_some_iff.mpr ⟨bound, found⟩),
    numbered.number node index' other (List.getElem?_eq_some_iff.mpr ⟨bound', found'⟩)] at same
  have equal : UInt64.ofNat index = UInt64.ofNat index' := (UInt64.add_right_inj _).mp (Option.some.inj same)
  have indices : index = index' := by
    have values := congrArg UInt64.toNat equal
    rwa [UInt64.toNat_ofNat_of_lt' (bound.trans short), UInt64.toNat_ofNat_of_lt' (bound'.trans short)] at values
  subst indices
  exact found.symm.trans found'

/-- In every such run with fewer than 2^64 events, messages in the names of nodes that are held anywhere in the network
and have the same default id are copies of each other. -/
theorem agreement_of_network {sha256 : Bytes → Hash256} (strict : ∀ node, (env node).config.validationMode = .strict)
    (signs : ∀ node, (env node).config.messageAuthenticity = .signed)
    (distinct : Function.Injective fun node => (env node).hostId)
    (authored : ∀ node, Authored sha256 (some (env node).hostId)) (fewer : events.length < 2 ^ 64)
    (run : Network.Runs env first (Unforged env) events network) {node node' : ι} {message message' : Message}
    (held : (network.1 node).Holds message) (held' : (network.1 node').Holds message') (author author' : ι)
    (from_ : message.from_ = some (env author).hostId) (from_' : message'.from_ = some (env author').hostId)
    (same : defaultMessageIdFn message = defaultMessageIdFn message') : Copies message message' := by
  obtain ⟨writer, original, created, host, copies⟩ :=
    Network.attributed_of_runs strict signs run held author from_
  obtain ⟨writer', original', created', host', copies'⟩ :=
    Network.attributed_of_runs strict signs run held' author' from_'
  unfold defaultMessageIdFn at same
  rw [from_, from_', prefixCode_authorTexts.append_inj ⟨_, authored author, rfl⟩ ⟨_, authored author', rfl⟩,
    toBase58_getD_inj (authored author) (authored author'), toDecimal_inj] at same
  obtain ⟨authors, numbers⟩ := same
  have hosts : (env writer).hostId = (env writer').hostId := by rw [host, host', Option.some.inj authors]
  obtain rfl := distinct hosts
  have signed := signed_of_runs signs run
  obtain ⟨seqno, numbered⟩ := (signed _ created).seqno
  obtain ⟨seqno', numbered'⟩ := (signed _ created').seqno
  rw [copies.seqno, copies'.seqno, numbered, numbered', Option.getD_some, Option.getD_some] at numbers
  have one : original = original' := by
    have short := (Network.created_le_of_runs run).trans_lt fewer
    refine (Network.numbered_of_runs signs run).unique short created created' ?_
    rw [numbered, numbered', numbers]
  exact copies.trans (one ▸ copies'.symm)

theorem agreement_of_network_published : ∃ network, Network.Runs sampleNetwork (fun _ => 0) (Unforged sampleNetwork)
    sampleEvents network ∧ (network.1 true).Holds sampleOriginal ∧ ∃ message, (network.1 false).Holds message ∧
      message.data = [0x68] ∧
      (defaultMessageIdFn message = defaultMessageIdFn sampleOriginal → Copies message sampleOriginal) := by
  obtain ⟨network, run, ⟨message, held, author, data⟩, original⟩ := sample_run
  have unforged : Network.Runs sampleNetwork (fun _ => 0) (Unforged sampleNetwork) sampleEvents network :=
    run.mono fun event before after taken => ⟨taken.1, unforged_of_sampleCondition taken.2⟩
  have distinct : Function.Injective fun node => (sampleNetwork node).hostId := by
    intro node other same
    cases node <;> cases other <;> first | rfl | exact absurd same (by decide)
  have authored : ∀ node, Authored (fun _ => Vector.replicate 32 0) (some (sampleNetwork node).hostId) := by
    intro node
    cases node with
    | false =>
      rintro _ ⟨⟩
      exact ⟨⟨.secp256k1, sampleKey 2⟩, by decide, .inr ⟨rfl, by decide⟩⟩
    | true =>
      rintro _ ⟨⟩
      exact ⟨⟨.secp256k1, sampleKey 1⟩, by decide, .inr ⟨rfl, by decide⟩⟩
  exact ⟨network, unforged, original, message, held, data,
    agreement_of_network (fun _ => rfl) (fun _ => rfl) distinct authored (by decide) unforged held original true true
      author rfl⟩

end Agreement

end Libp2p.Gossip
