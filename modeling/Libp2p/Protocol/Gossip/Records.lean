import Libp2p.Protocol.Gossip.Membership

/-! # Records: what a node remembers about messages

A second view of a node, of everything that holds messages or their ids: the duplicate cache, the message cache, the
histories of the topics, the messages that wait in batches, and the log of what happened to messages. The clock is
part of the view, since entries are dated. Again every guarded update is one of a few steps.
-/

namespace Libp2p.Gossip

open Library State

/-- An effect that concerns a message. -/
def Observation.isMessage : Observation → Bool
  | .queued _ (.publish _) => true
  | .accepted .. => true
  | .delivered .. => true
  | .published .. => true
  | .broadcast .. => true
  | _ => false

/-- The messages of a batch. -/
def Peer.pending (peer : Peer) : List Message := (peer.batch.map Rpc.publish).getD []

@[ext]
structure Records where
  duplicateCache : DuplicateCache MessageId
  messageCache : UnorderedMap MessageId MessageCacheEntry
  history : TopicHash → Option History
  pending : PeerPtr → List Message
  readings : ℕ
  log : List Observation

/-- The view of a state. -/
def State.records {R : Type} [Double R] (state : State R) : Records where
  duplicateCache := state.duplicateCache
  messageCache := state.messageCache
  history topicHash := (state.topics.lookup topicHash).map Topic.history
  pending peer := (state.heap peer).pending
  readings := state.readings
  log := state.log.filter Observation.isMessage

namespace Records

variable {R : Type} [Double R] (env : Env R)

/-- The next reading of the clock and the one after it. -/
def now (records : Records) : Time := env.clock records.readings

def later (records : Records) : Time := env.clock (records.readings + 1)

/-- `DuplicateCache::insert` with the next two readings. -/
def date (records : Records) (messageId : MessageId) : DuplicateCache MessageId × Bool :=
  records.duplicateCache.insert messageId (records.now env) (records.later env)

/-- A message enters the cache and the history of its topic. -/
def cache (records : Records) (topicHash : TopicHash) (messageId : MessageId) (message : Message) : Records :=
  { records with
    messageCache := UnorderedMap.emplace records.messageCache messageId { message }
    history := Function.update records.history topicHash ((records.history topicHash).map (·.add messageId)) }

/-- A message that may be queued: one that is broadcast or cached. -/
def Known (records : Records) (message : Message) : Prop :=
  (∃ topicHash from_ messageId, .broadcast topicHash from_ messageId message ∈ records.log) ∨
    ∃ messageId entry, records.messageCache.lookup messageId = some entry ∧ entry.message = message

/-- The ways in which the records change while an event is handled. -/
inductive Step (event : Event) : Records → Records → Prop
  | quiet (records : Records) (readings : ℕ) (forward : records.readings ≤ readings) :
      Step event records { records with readings }
  | queued (records : Records) (peer : PeerPtr) (message : Message) (known : records.Known message) :
      Step event records { records with
        pending := Function.update records.pending peer (records.pending peer ++ [message])
        log := .queued peer (.publish message) :: records.log }
  | flushed (records : Records) (peer : PeerPtr) :
      Step event records { records with pending := Function.update records.pending peer [] }
  | dated (records : Records) (messageId : MessageId) (known : (records.date env messageId).2 = false) :
      Step event records { records with
        duplicateCache := (records.date env messageId).1
        readings := records.readings + 2 }
  | admitted (records : Records) {peer : PeerPtr} {sender : PeerId} {encoded : Bytes} {rpc : Pb.RPC}
      {pbPublish : Pb.Message} {message : Message} (source : event = .message peer encoded)
      (decoded : Pb.RPC.decode encoded = some rpc) (entry : pbPublish ∈ rpc.publish)
      (valid : validate env.config.validationMode env.rsaBits env.verify sender pbPublish = some message)
      (topic : (records.history message.topic).isSome)
      (fresh : (records.date env (env.config.messageIdFn message)).2 = true) :
      Step event records { records.cache message.topic (env.config.messageIdFn message) message with
        duplicateCache := (records.date env (env.config.messageIdFn message)).1
        readings := records.readings + 5
        log := .broadcast message.topic (some sender) (env.config.messageIdFn message) message ::
          .delivered message.topic (env.config.messageIdFn message) message (records.now env) (records.later env) ::
          .accepted peer (env.config.messageIdFn message) message (records.now env) (records.later env) ::
          records.log }
  | originated (records : Records) {topicHash : TopicHash} {data : Bytes} {message : Message}
      (source : event = .publish topicHash data ∨ event = .publishTopic topicHash data)
      (made : ∃ state : State R, message = (state.createMessage env topicHash data).1)
      (topic : (records.history topicHash).isSome)
      (fresh : ¬ records.duplicateCache.contains (env.config.messageIdFn message)) :
      Step event records { records.cache topicHash (env.config.messageIdFn message) message with
        duplicateCache := (records.date env (env.config.messageIdFn message)).1
        readings := records.readings + 2
        log := .broadcast topicHash none (env.config.messageIdFn message) message ::
          .published (env.config.messageIdFn message) message (records.now env) (records.later env) ::
          records.log }
  | served (records : Records) (messageId : MessageId) {entry : MessageCacheEntry} (iwant : UnorderedMap PeerId ℕ)
      (cached : records.messageCache.lookup messageId = some entry) :
      Step event records { records with
        messageCache := records.messageCache.insert messageId { entry with iwant } }
  | created (records : Records) (topicHash : TopicHash) (absent : records.history topicHash = none) :
      Step event records { records with
        history := Function.update records.history topicHash
          (some (History.new env.config.historyLength env.config.historyPositive)) }
  | expired (records : Records) (topicHash : TopicHash) (source : event = .heartbeat) :
      Step event records { records with
        history := Function.update records.history topicHash none
        readings := records.readings + 1 }
  | aged (records : Records) {topicHash : TopicHash} {history : History} (source : event = .heartbeat)
      (found : records.history topicHash = some history) :
      Step event records { records with
        history := Function.update records.history topicHash (some history.shift.1)
        messageCache := history.shift.2.foldl (fun cache messageId => cache.erase messageId) records.messageCache }

variable {env}

/-- Nothing happened to the records. -/
theorem Step.same {event : Event} (records : Records) : Step env event records records :=
  .quiet records records.readings le_rfl

end Records

variable {R : Type} [Double R] {env : Env R} {event : Event} {state before after : State R}

section Primitives

variable {topicHash : TopicHash} {peer : PeerPtr}

theorem records_modifyPeer {change : Peer → Peer} {messages : List Message}
    (pending : (change (state.heap peer)).pending = messages) :
    (state.modifyPeer peer change).records =
      { state.records with pending := Function.update state.records.pending peer messages } := by
  ext other : 2
  · rfl
  · rfl
  · rfl
  · by_cases same : other = peer
    · simp only [records, same, heap_modifyPeer, if_pos, Function.update_self, pending]
    · simp only [records, heap_modifyPeer, if_neg same, Function.update_of_ne same]
  · rfl
  · rfl

/-- A change of an object that keeps its messages. -/
theorem records_modifyPeer_quiet {change : Peer → Peer}
    (pending : (change (state.heap peer)).pending = (state.heap peer).pending) :
    (state.modifyPeer peer change).records = state.records := by
  rw [records_modifyPeer pending]
  ext other : 2 <;> simp [records]

theorem records_modifyTopic {change : Topic → Topic} (history : ∀ topic, (change topic).history = topic.history) :
    (state.modifyTopic topicHash change).records = state.records := by
  ext other : 2
  iterate 2 rfl
  · exact modifyTopic_field Topic.history history
  iterate 3 rfl

theorem records_record {observation : Observation} (other : observation.isMessage = false) :
    (state.record observation).records = state.records := by
  ext peer : 2
  iterate 5 rfl
  simp [records, record, other]

theorem records_record_message {observation : Observation} (message : observation.isMessage = true) :
    (state.record observation).records = { state.records with log := observation :: state.records.log } := by
  simp [records, record, message]

@[simp] theorem records_modifyScore {change : Score R → Score R} :
    (state.modifyScore change).records = state.records := rfl

@[simp] theorem records_tick :
    state.tick.records = { state.records with readings := state.readings + 1 } := rfl

@[simp] theorem records_updateBackoff {backoff : Backoff} :
    (state.updateBackoff env topicHash peer backoff).records = state.records :=
  records_modifyTopic fun _ => rfl

@[simp] theorem records_getBatch : (state.getBatch peer).records = state.records := by
  have created : (state.modifyPeer peer fun peer => { peer with batch := some (peer.batch.getD {}) }).records =
      state.records := by
    refine records_modifyPeer_quiet ?_
    cases batch : (state.heap peer).batch <;> simp [Peer.pending, batch]
  unfold getBatch checkWrite
  split_ifs
  · exact created
  · exact created
  · exact created
  · rw [records_modifyPeer_quiet (by rfl), created]

/-- The messages that an entry of a batch adds. -/
def BatchOp.messages : BatchOp → List Message
  | .publish message => [message]
  | _ => []

private theorem records_applyBatch {op : BatchOp} : ((state.getBatch peer).modifyPeer peer
    fun peer => { peer with batch := peer.batch.map (·.apply op) }).records = { state.records with
      pending := Function.update state.records.pending peer (state.records.pending peer ++ op.messages) } := by
  have applied : ∀ (rpc : Rpc), (rpc.apply op).publish = rpc.publish ++ op.messages := by
    intro rpc
    cases op <;> simp [Rpc.apply, Rpc.subscribe, BatchOp.messages]
  have pending : Peer.pending { (state.getBatch peer).heap peer with
      batch := ((state.getBatch peer).heap peer).batch.map (·.apply op) } =
        state.records.pending peer ++ op.messages := by
    rw [Peer.pending, getBatch_batch, if_pos rfl, Option.map_some, Option.map_some, Option.getD_some, applied]
    congr 1
    cases batch : (state.heap peer).batch <;> simp [records, Peer.pending, batch]
  rw [records_modifyPeer pending, records_getBatch]

/-- Entries other than messages do not concern the records. -/
@[simp] theorem records_enqueue {op : BatchOp} (control : op.messages = []) :
    (state.enqueue peer op).records = state.records := by
  have silent : (Observation.queued peer op).isMessage = false := by
    cases op <;> simp_all [BatchOp.messages, Observation.isMessage]
  unfold enqueue
  rw [records_record silent, records_applyBatch, control, List.append_nil, Function.update_eq_self]

theorem records_enqueue_publish {message : Message} : (state.enqueue peer (.publish message)).records =
    { state.records with
      pending := Function.update state.records.pending peer (state.records.pending peer ++ [message])
      log := .queued peer (.publish message) :: state.records.log } := by
  unfold enqueue
  rw [records_record_message rfl, records_applyBatch]
  rfl

end Primitives

section Quiet

variable {topicHash : TopicHash} {peer : PeerPtr}

theorem records_makePrune : (state.makePrune env topicHash peer).records = state.records := by
  unfold makePrune
  dsimp only
  split_ifs
  · rw [records_enqueue rfl, records_updateBackoff, records_modifyScore]
  · rw [records_enqueue rfl, records_modifyScore]
  · rfl

theorem records_eraseFromMesh : (state.eraseFromMesh topicHash peer).records = state.records :=
  records_modifyTopic fun _ => rfl

theorem records_removePeerFromMesh {backoff : Option Backoff} {always : Bool} :
    (state.removePeerFromMesh env topicHash peer backoff always).records = state.records := by
  have erased : (state.modifyTopic topicHash fun topic =>
      { topic with meshPeers := topic.meshPeers.erase peer }).records = state.records := records_eraseFromMesh
  unfold removePeerFromMesh
  split
  · rfl
  · dsimp only
    split_ifs <;> simp only [records_updateBackoff, records_modifyScore, erased]

theorem records_graft : (state.graft env topicHash peer).records =
    { state.records with readings := state.readings + 1 } := by
  have inserted : ∀ state : State R, (state.modifyTopic topicHash fun topic =>
      { topic with meshPeers := topic.meshPeers.insert peer }).records = state.records :=
    fun state => records_modifyTopic fun _ => rfl
  have asserted : (state.record (.graftAsserted topicHash peer)).records = state.records := records_record rfl
  unfold graft
  dsimp only
  rw [records_enqueue rfl, records_tick, records_modifyScore, inserted]
  split
  · split_ifs
    · rw [asserted]
      rfl
    · rfl
  · rfl

theorem records_addToTopic : (state.addToTopic peer topicHash).records = state.records := by
  unfold addToTopic
  rw [records_modifyTopic (by exact fun _ => rfl), records_modifyPeer_quiet (by rfl)]

theorem records_leaveTopic : (state.leaveTopic env peer topicHash).records = state.records := by
  unfold leaveTopic
  dsimp only
  rw [records_removePeerFromMesh, records_modifyTopic (by exact fun _ => rfl), records_modifyPeer_quiet (by rfl)]

theorem records_announceUpgrade : (state.announceUpgrade topicHash).records = state.records := by
  have told : ∀ (peers : List PeerPtr) (state : State R), (peers.foldl
      (fun state peer => state.enqueue peer (.subscribe topicHash true)) state).records = state.records :=
    fun _ _ => foldl_field State.records fun state peer => records_enqueue rfl
  have emptied : ∀ (state : State R) (random : ℕ), (({ state with random } : State R).modifyTopic topicHash
      fun topic => { topic with meshPeers := ∅ }).records = state.records := by
    intro state random
    rw [records_modifyTopic (by exact fun _ => rfl)]
    rfl
  unfold announceUpgrade
  dsimp only
  rw [emptied, told, records_modifyTopic (by exact fun _ => rfl)]

theorem records_announceTopics : (state.announceTopics peer).records = state.records := by
  refine foldl_field State.records fun state entry => ?_
  split_ifs
  · rfl
  · exact records_enqueue rfl

theorem records_openStream {stream : Stream} : (state.openStream env peer stream).records = state.records := by
  have opened : ((((state.updatePeerKind env peer stream.protocol).modifyPeer peer
      fun peer => { peer with streamOut := some stream }).record (.opened peer))).records = state.records := by
    rw [records_record rfl, records_modifyPeer_quiet (by rfl), updatePeerKind, records_modifyPeer_quiet (by rfl)]
  unfold openStream
  dsimp only
  split_ifs
  · exact opened
  · rw [records_announceTopics, records_getBatch, opened]

theorem records_onPeerDisconnected {peerId : PeerId} : (state.onPeerDisconnected env peerId).records =
    { state.records with readings := state.readings + 1 } := by
  have forgotten : ∀ (peer : PeerPtr) (topics : List TopicHash) (state : State R),
      (topics.foldl (forgetInTopic peer) state).records = state.records :=
    fun _ _ _ => foldl_field State.records fun state topicHash => records_modifyTopic fun _ => rfl
  unfold onPeerDisconnected
  dsimp only
  split
  · rfl
  · next peer found => exact forgotten peer _ _

end Quiet

section Changing

variable {topicHash : TopicHash} {peer : PeerPtr} {messageId : MessageId} {message : Message}

theorem records_createTopic {publishOnly : Bool} : (state.createTopic env topicHash publishOnly).records =
    { state.records with
      history := Function.update state.records.history topicHash
        (some (History.new env.config.historyLength env.config.historyPositive)) } := by
  ext other : 2
  iterate 2 rfl
  · by_cases same : other = topicHash
    · simp only [records, createTopic, same, AList.lookup_insert, Function.update_self, Option.map_some]
    · simp only [records, createTopic, AList.lookup_insert_ne same, Function.update_of_ne same]
  iterate 3 rfl

theorem records_register {peerId : PeerId} {out : Bool} : (state.register peerId out).records =
    { state.records with pending := Function.update state.records.pending state.allocated [] } := by
  ext other : 2
  iterate 3 rfl
  · simp only [records, register, Function.update_apply]
    split_ifs <;> rfl
  iterate 2 rfl

theorem records_cacheMessage : (state.cacheMessage topicHash messageId message).records =
    state.records.cache topicHash messageId message := by
  ext other : 2
  iterate 2 rfl
  · simp only [records, Records.cache, cacheMessage, lookup_modifyTopic]
    by_cases same : other = topicHash
    · simp only [same, if_pos, Function.update_self, Option.map_map]
      rfl
    · simp only [if_neg same, Function.update_of_ne same]
  iterate 3 rfl

theorem records_deliver {now later : Time} : (state.deliver env peer messageId message now later).records =
    { state.records.cache message.topic messageId message with
      readings := state.readings + 3
      log := .broadcast message.topic (some (state.heap peer).peerId) messageId message ::
        .delivered message.topic messageId message now later :: .accepted peer messageId message now later ::
          state.records.log } := by
  rw [deliver_eq]
  change ({ (state.cacheMessage message.topic messageId message).records with
    readings := _, log := List.filter _ (_ :: _ :: _ :: state.log) } : Records) = _
  rw [records_cacheMessage]
  rfl

theorem records_originate : (state.originate env topicHash message).records =
    { state.records.cache topicHash (env.config.messageIdFn message) message with
      duplicateCache := (state.records.date env (env.config.messageIdFn message)).1
      readings := state.readings + 2
      log := .broadcast topicHash none (env.config.messageIdFn message) message ::
        .published (env.config.messageIdFn message) message (state.now env) (state.tick.now env) ::
          state.records.log } := by
  rw [originate_eq]
  change ({ (state.cacheMessage topicHash (env.config.messageIdFn message) message).records with
    duplicateCache := _, readings := _, log := List.filter _ (_ :: _ :: state.log) } : Records) = _
  rw [records_cacheMessage]
  rfl

theorem records_shiftHistory {history : History} (found : state.records.history topicHash = some history) :
    (state.shiftHistory topicHash).records = { state.records with
      history := Function.update state.records.history topicHash (some history.shift.1)
      messageCache := history.shift.2.foldl (fun cache messageId => cache.erase messageId)
        state.records.messageCache } := by
  obtain ⟨topic, lookup, rfl⟩ := Option.map_eq_some_iff.mp found
  unfold shiftHistory
  rw [lookup]
  ext other : 2
  iterate 2 rfl
  · simp only [records, lookup_modifyTopic]
    by_cases same : other = topicHash
    · simp only [same, if_pos, Function.update_self, lookup, Option.map_some]
    · simp only [if_neg same, Function.update_of_ne same]
  iterate 3 rfl

theorem records_shiftHistory_absent (absent : state.records.history topicHash = none) :
    (state.shiftHistory topicHash).records = state.records := by
  have missing : state.topics.lookup topicHash = none := Option.map_eq_none_iff.mp absent
  unfold shiftHistory
  rw [missing]

theorem records_eraseTopic : ({ state with topics := state.topics.erase topicHash } : State R).records =
    { state.records with history := Function.update state.records.history topicHash none } := by
  ext other : 2
  iterate 2 rfl
  · simp only [records, UnorderedMap.lookup_erase_eq, Function.update_apply]
    split_ifs <;> rfl
  iterate 3 rfl

end Changing

section Writing

variable {peer : PeerPtr}

theorem records_writeBatch : (state.writeBatch peer).records =
    { state.records with pending := Function.update state.records.pending peer [] } := by
  apply records_modifyPeer
  split <;> rfl

theorem step_resumeWriter : Records.Step env event state.records (state.resumeWriter peer).records := by
  have asserted : (state.record (.writerAsserted peer)).records = state.records := records_record rfl
  unfold resumeWriter
  dsimp only
  split_ifs
  · rw [records_writeBatch]
    exact .flushed _ peer
  · rw [records_writeBatch, asserted]
    exact .flushed _ peer

theorem step_onWritten {frame : Bytes} {rest : List Bytes} {ok : Bool} :
    Records.Step env event state.records (state.onWritten peer frame rest ok).records := by
  have wrote : (state.record (.wrote peer frame)).records = state.records := records_record rfl
  unfold onWritten
  dsimp only
  split_ifs
  · rw [records_modifyPeer_quiet (by rfl), wrote]
    exact .same _
  · rw [records_modifyPeer_quiet (by rfl), wrote]
    exact .same _
  · rw [records_writeBatch, wrote]
    exact .flushed _ peer
  · rw [records_modifyPeer_quiet (by rfl)]
    exact .same _

end Writing

theorem Incidental.records {change : Topic → Topic} {topicHash : TopicHash} (only : Incidental event change) :
    (state.modifyTopic topicHash change).records = state.records := by
  cases only <;> exact records_modifyTopic fun _ => rfl

theorem Private.records {change : Peer → Peer} {peer : PeerPtr} (only : Private event change) :
    (state.modifyPeer peer change).records = state.records := by
  cases only <;> exact records_modifyPeer_quiet rfl

/-- Bookkeeping at most reads the clock. -/
theorem Ledger.records (ledger : Ledger env event before after) : Records.Step env event before.records after.records := by
  cases ledger with
  | ticked => exact .quiet _ _ (Nat.le_succ _)
  | penalized peerId count =>
    rw [records_record rfl, records_modifyScore]
    exact .same _
  | duplicated peer messageId topicHash =>
    simp only [countDuplicate, records_tick, records_modifyScore]
    exact .quiet _ _ (Nat.le_add_right _ 2)
  | decayed =>
    simp only [onDecay, records_tick, records_modifyScore]
    exact .quiet _ _ (Nat.le_succ _)
  | _ => exact .same _

theorem Permitted.step {op : BatchOp} {peer : PeerPtr} (permitted : Permitted env event state peer op) :
    Records.Step env event state.records (state.enqueue peer op).records := by
  cases permitted with
  | relayed started =>
    rw [records_enqueue_publish]
    exact .queued _ peer _ (.inl ⟨_, _, _, List.mem_filter.mpr ⟨started, rfl⟩⟩)
  | served cached =>
    rw [records_enqueue_publish]
    exact .queued _ peer _ (.inr ⟨_, _, cached, rfl⟩)
  | ihave topicHash messageIds =>
    rw [records_enqueue rfl]
    exact .same _
  | iwant messageId =>
    rw [records_enqueue rfl]
    exact .same _
  | idontwant messageId =>
    rw [records_enqueue rfl]
    exact .same _

/-- Every guarded update is a step of the records. -/
theorem Micro.records (micro : Micro env event before after) :
    Records.Step env event before.records after.records := by
  cases micro with
  | ledger ledger => exact ledger.records
  | incidental topicHash only =>
    rw [only.records]
    exact .same _
  | inner peer only =>
    rw [only.records]
    exact .same _
  | batched =>
    rw [records_getBatch]
    exact .same _
  | queued peer permitted => exact permitted.step
  | grafted =>
    rw [records_graft]
    exact .quiet _ _ (Nat.le_succ _)
  | expelled =>
    rw [records_eraseFromMesh, records_makePrune]
    exact .same _
  | cut =>
    rw [records_makePrune, records_eraseFromMesh]
    exact .same _
  | refused =>
    rw [records_makePrune]
    exact .same _
  | joined topicHash peer =>
    have inserted : (before.modifyTopic topicHash fun topic =>
        { topic with meshPeers := topic.meshPeers.insert peer }).records = before.records :=
      records_modifyTopic fun _ => rfl
    simp only [acceptGraft, records_tick, records_modifyScore, inserted]
    exact .quiet _ _ (Nat.le_succ _)
  | announced =>
    rw [records_addToTopic]
    exact .same _
  | left =>
    rw [records_leaveTopic]
    exact .same _
  | pruned =>
    rw [records_removePeerFromMesh]
    exact .same _
  | fannedOut =>
    rw [records_modifyTopic (by intro topic; split_ifs <;> rfl)]
    exact .same _
  | trimmed =>
    rw [records_modifyTopic (by exact fun _ => rfl)]
    exact .same _
  | created topicHash publishOnly absent =>
    rw [records_createTopic]
    exact .created _ topicHash (Option.map_eq_none_iff.mpr (AList.lookup_eq_none.mpr absent))
  | upgraded =>
    rw [records_announceUpgrade]
    exact .same _
  | dated messageId known => exact .dated _ messageId known
  | admitted source decoded entry valid topic fresh =>
    rw [records_deliver]
    refine .admitted before.records source decoded entry valid ?_ fresh
    exact Option.isSome_map.trans (AList.lookup_isSome.mpr topic)
  | originated source made topic fresh =>
    rw [records_originate]
    refine .originated before.records source ⟨_, made⟩ ?_ fresh
    exact Option.isSome_map.trans (AList.lookup_isSome.mpr topic)
  | served messageId iwant cached => exact .served _ messageId iwant cached
  | registered =>
    rw [records_register]
    exact .flushed _ _
  | typed =>
    rw [updatePeerKind, records_modifyPeer_quiet (by rfl)]
    exact .same _
  | opened =>
    rw [records_openStream]
    exact .same _
  | disconnected =>
    rw [records_onPeerDisconnected]
    exact .quiet _ _ (Nat.le_succ _)
  | expired topicHash source =>
    unfold expireTopic
    split
    · exact .same _
    · split_ifs
      · exact .quiet _ _ (Nat.le_succ _)
      · have erased : ({ before.tick with topics := before.topics.erase topicHash } : State R).records = _ :=
          records_eraseTopic
        rw [erased]
        exact .expired _ topicHash source
      · exact .same _
  | aged topicHash source =>
    cases found : before.records.history topicHash with
    | none =>
      rw [records_shiftHistory_absent found]
      exact .same _
    | some history =>
      rw [records_shiftHistory found]
      exact .aged _ source found
  | resumed => exact step_resumeWriter
  | written => exact step_onWritten

end Libp2p.Gossip
