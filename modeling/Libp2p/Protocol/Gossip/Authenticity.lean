import Libp2p.Protocol.Gossip.Delivery

/-! # Authenticity in Strict mode

Every place that holds a message or its id was filled either by a local publication or by an entry of a received RPC
that passed validation. An entry that fails validation is skipped, so that runs with and without such entries reach
the same states.
-/

namespace Libp2p.Gossip

open Library State

variable {R : Type} [Double R] {env : Env R}

/-- A received entry carries an author whose key verifies the signature over what was received, and a sequence number
of eight bytes. -/
structure Verified (env : Env R) (pbPublish : Pb.Message) (message : Message) : Prop where
  author : ∃ from_ key, PeerId.fromBytes (pbPublish.from_.getD []) = .ok from_ ∧ message.from_ = some from_ ∧
    from_.publicKey env.rsaBits = some key ∧
    env.verify (getSignable pbPublish) (pbPublish.signature.getD []) key = true
  signature : message.signature = some (pbPublish.signature.getD [])
  seqno : (pbPublish.seqno.getD []).length = 8 ∧ message.seqno = some (loadBigU64 (pbPublish.seqno.getD []))
  content : message.data = pbPublish.data.getD [] ∧ message.topic = pbPublish.topic.getD []

theorem verified_of_validate {sender : PeerId} {pbPublish : Pb.Message} {message : Message}
    (valid : validate .strict env.rsaBits env.verify sender pbPublish = some message) :
    Verified env pbPublish message := by
  obtain ⟨call, called, checked⟩ := Option.bind_eq_some_iff.mp valid
  obtain ⟨verified, rfl⟩ : env.verify call.signable call.signature call.publicKey = true ∧ _ :=
    Option.ite_none_right_eq_some.mp checked |>.imp_right Option.some.inj
  obtain ⟨accepted, size, seqno, signable, signature, key⟩ := verifyCall_eq_some called
  rw [signable, signature] at verified
  exact ⟨⟨call.from_, call.publicKey, accepted, rfl, key, verified⟩, congrArg some signature,
    ⟨size, congrArg some seqno⟩, rfl, rfl⟩

/-- Where a message may come from in a run: a local publication or a verified entry of a received frame. -/
inductive Authentic (env : Env R) (events : List Event) (message : Message) : Prop
  | published {topicHash : TopicHash} {data : Bytes}
      (asked : .publish topicHash data ∈ events ∨ .publishTopic topicHash data ∈ events)
      (made : ∃ state : State R, message = (state.createMessage env topicHash data).1)
  | received {peer : PeerPtr} {encoded : Bytes} {rpc : Pb.RPC} {pbPublish : Pb.Message}
      (frame : .message peer encoded ∈ events) (decoded : Pb.RPC.decode encoded = some rpc)
      (entry : pbPublish ∈ rpc.publish) (verified : Verified env pbPublish message)

theorem Authentic.mono {first second : List Event} {message : Message} (authentic : Authentic env first message)
    (subset : first ⊆ second) : Authentic env second message := by
  cases authentic with
  | published asked made => exact .published (asked.imp (fun member => subset member) fun member => subset member) made
  | received frame decoded entry verified => exact .received (subset frame) decoded entry verified

/-- The message that an effect concerns. -/
def Observation.message : Observation → Option Message
  | .queued _ (.publish message) => some message
  | .accepted _ _ message _ _ => some message
  | .delivered _ _ message _ _ => some message
  | .published _ message _ _ => some message
  | .broadcast _ _ _ message => some message
  | _ => none

namespace Records

variable {event : Event} {records before after : Records} {origin : Message → Prop}

/-- Every message in the records, and a message of every dated id, has the origin. -/
structure From (env : Env R) (origin : Message → Prop) (records : Records) : Prop where
  logged : ∀ observation ∈ records.log, ∀ message, observation.message = some message → origin message
  cached : ∀ messageId entry, records.messageCache.lookup messageId = some entry → origin entry.message
  pending : ∀ peer, ∀ message ∈ records.pending peer, origin message
  dated : ∀ messageId ∈ records.duplicateCache.cache.map,
    ∃ message, messageId = env.config.messageIdFn message ∧ origin message

theorem From.mono {other : Message → Prop} (from_ : From env origin records)
    (weaker : ∀ message, origin message → other message) : From env other records := by
  obtain ⟨logged, cached, pending, dated⟩ := from_
  refine ⟨?_, ?_, ?_, ?_⟩
  · exact fun observation member message read => weaker _ (logged observation member message read)
  · exact fun messageId entry found => weaker _ (cached messageId entry found)
  · exact fun peer message member => weaker _ (pending peer message member)
  · intro messageId member
    obtain ⟨message, same, holds⟩ := dated messageId member
    exact ⟨message, same, weaker _ holds⟩

/-- A message may be queued only if it has the origin. -/
theorem From.known (from_ : From env origin records) {message : Message} (known : records.Known message) :
    origin message := by
  rcases known with ⟨topicHash, sender, messageId, logged⟩ | ⟨messageId, entry, cached, rfl⟩
  · exact from_.logged _ logged message rfl
  · exact from_.cached messageId entry cached

theorem From.dated_insert (from_ : From env origin records) {message : Message} (holds : origin message) :
    ∀ messageId ∈ (records.date env (env.config.messageIdFn message)).1.cache.map,
      ∃ message, messageId = env.config.messageIdFn message ∧ origin message := by
  intro messageId member
  rcases DuplicateCache.mem_insert_or member with rfl | earlier
  · exact ⟨message, rfl, holds⟩
  · exact from_.dated messageId earlier

theorem From.cached_emplace (from_ : From env origin records) {messageId : MessageId} {message : Message}
    (holds : origin message) : ∀ other entry,
      (UnorderedMap.emplace records.messageCache messageId { message }).lookup other = some entry →
        origin entry.message := by
  intro other entry found
  rw [UnorderedMap.lookup_emplace] at found
  split_ifs at found with same
  · cases cached : records.messageCache.lookup messageId with
    | none =>
      rw [cached] at found
      rw [← Option.some.inj found]
      exact holds
    | some old =>
      rw [cached] at found
      rw [← Option.some.inj found]
      exact from_.cached messageId old cached
  · exact from_.cached other entry found

/-- A step keeps the origin if what it admits or originates has it. -/
theorem From.step (from_ : From env origin before) (step : Step env event before after)
    (received : ∀ peer encoded rpc sender pbPublish message, event = .message peer encoded →
      Pb.RPC.decode encoded = some rpc → pbPublish ∈ rpc.publish →
      validate env.config.validationMode env.rsaBits env.verify sender pbPublish = some message → origin message)
    (published : ∀ topicHash data message,
      (event = .publish topicHash data ∨ event = .publishTopic topicHash data) →
      (∃ state : State R, message = (state.createMessage env topicHash data).1) →
      ∀ messageId now later, .published messageId message now later ∈ after.log → origin message) :
    From env origin after := by
  have ⟨logged, cached, pending, dated⟩ := from_
  cases step with
  | queued peer message known =>
    have holds := from_.known known
    refine ⟨?_, cached, ?_, dated⟩
    · intro observation member other read
      rcases List.mem_cons.mp member with rfl | earlier
      · rw [← Option.some.inj read]
        exact holds
      · exact logged observation earlier other read
    · intro other waiting member
      simp only [Function.update_apply] at member
      split_ifs at member with same
      · rcases List.mem_append.mp member with earlier | new
        · exact pending peer waiting earlier
        · rw [List.mem_singleton.mp new]
          exact holds
      · exact pending other waiting member
  | flushed peer =>
    refine ⟨logged, cached, ?_, dated⟩
    intro other waiting member
    simp only [Function.update_apply] at member
    split_ifs at member
    · cases member
    · exact pending other waiting member
  | dated messageId known =>
    refine ⟨logged, cached, pending, ?_⟩
    -- The id was found, so it was in the cache before.
    have found : messageId ∈ before.duplicateCache.cache.map := by
      by_contra absent
      refine absurd (DuplicateCache.insert_fresh_iff.mpr fun present => absent ?_) (ne_true_of_eq_false known)
      exact TimeCache.mem_of_mem_clearExpired present
    intro other member
    rcases DuplicateCache.mem_insert_or member with rfl | earlier
    · exact dated other found
    · exact dated other earlier
  | admitted source decoded entry valid topic fresh =>
    have holds := received _ _ _ _ _ _ source decoded entry valid
    refine ⟨?_, from_.cached_emplace holds, pending, from_.dated_insert holds⟩
    intro observation member other read
    simp only [List.mem_cons] at member
    rcases member with rfl | rfl | rfl | earlier
    · rwa [← Option.some.inj read]
    · rwa [← Option.some.inj read]
    · rwa [← Option.some.inj read]
    · exact logged observation earlier other read
  | originated source made topic fresh =>
    have holds := published _ _ _ source made _ _ _ (List.mem_cons_of_mem _ List.mem_cons_self)
    refine ⟨?_, from_.cached_emplace holds, pending, from_.dated_insert holds⟩
    intro observation member other read
    simp only [List.mem_cons] at member
    rcases member with rfl | rfl | earlier
    · rwa [← Option.some.inj read]
    · rwa [← Option.some.inj read]
    · exact logged observation earlier other read
  | @served messageId old iwant found =>
    refine ⟨logged, ?_, pending, dated⟩
    intro other entry lookup
    simp only [UnorderedMap.lookup_insert_eq] at lookup
    split_ifs at lookup with same
    · rw [← Option.some.inj lookup]
      exact cached messageId old found
    · exact cached other entry lookup
  | aged source found =>
    refine ⟨logged, ?_, pending, dated⟩
    intro other entry lookup
    simp only [UnorderedMap.lookup_foldl_erase] at lookup
    split_ifs at lookup
    exact cached other entry lookup
  | _ => exact ⟨logged, cached, pending, dated⟩

end Records

section Skipping

variable {peer : PeerPtr}

/-- An entry that passes validation, whoever sent it. -/
def accepts (env : Env R) (pbPublish : Pb.Message) : Bool :=
  (validate env.config.validationMode env.rsaBits env.verify env.hostId pbPublish).isSome

theorem validate_isSome {sender : PeerId} {pbPublish : Pb.Message} :
    (validate env.config.validationMode env.rsaBits env.verify sender pbPublish).isSome = accepts env pbPublish := by
  unfold accepts validate
  cases env.config.validationMode with
  | strict =>
    cases verifyCall env.rsaBits pbPublish with
    | none => rfl
    | some call => simp only [Option.bind_some]; split_ifs <;> rfl
  | anonymous => dsimp only; split_ifs <;> rfl

/-- The RPC without the entries that fail validation. -/
def withoutInvalid (env : Env R) (rpc : Pb.RPC) : Pb.RPC := { rpc with publish := rpc.publish.filter (accepts env) }

theorem onPublish_of_invalid {state : State R} {pbPublish : Pb.Message} (invalid : accepts env pbPublish = false) :
    state.onPublish env peer pbPublish = state := by
  have none_ : validate env.config.validationMode env.rsaBits env.verify (state.heap peer).peerId pbPublish = none := by
    rw [← Option.not_isSome_iff_eq_none, validate_isSome, invalid]
    exact Bool.false_ne_true
  rw [onPublish, none_]

theorem onRpc_withoutInvalid {state : State R} {rpc : Pb.RPC} :
    state.onRpc env peer (withoutInvalid env rpc) = state.onRpc env peer rpc := by
  have skipped : ∀ (entries : List Pb.Message) (state : State R),
      (entries.filter (accepts env)).foldl (onPublish env peer) state = entries.foldl (onPublish env peer) state := by
    intro entries
    induction entries with
    | nil => exact fun _ => rfl
    | cons entry rest ih =>
      intro state
      cases valid : accepts env entry with
      | true => rw [List.filter_cons_of_pos valid, List.foldl_cons, List.foldl_cons, ih]
      | false =>
        rw [List.filter_cons_of_neg (by simp [valid]), List.foldl_cons, ih, onPublish_of_invalid valid]
  simp only [onRpc, withoutInvalid, skipped]

/-- The first event is the second, or the frame of the second without entries that fail validation. -/
inductive Purged (env : Env R) : Event → Event → Prop
  | same (event : Event) : Purged env event event
  | frame {peer : PeerPtr} {encoded purged : Bytes} {rpc : Pb.RPC} (decoded : Pb.RPC.decode encoded = some rpc)
      (removed : Pb.RPC.decode purged = some (withoutInvalid env rpc)) :
      Purged env (.message peer purged) (.message peer encoded)

theorem step_purged {state : State R} {other event : Event} (purged : Purged env other event) :
    state.step env other = state.step env event := by
  cases purged with
  | same => rfl
  | frame decoded removed => simp only [step, onMessage, decoded, removed, onRpc_withoutInvalid]

/-- Runs with and without the entries that fail validation reach the same states. -/
theorem runs_purged {lastSeqNo : Seqno} {events others : List Event} {state : State R}
    (purged : List.Forall₂ (Purged env) others events) :
    Runs env lastSeqNo others state ↔ Runs env lastSeqNo events state := by
  constructor
  · intro run
    refine run.replace (flip (Purged env)) ?_ purged.flip
    intro event other before after purged stepped
    rwa [← step_purged purged]
  · intro run
    refine run.replace (Purged env) ?_ purged
    intro other event before after purged stepped
    rwa [step_purged purged]

end Skipping

variable {lastSeqNo : Seqno} {events : List Event} {state : State R}

theorem from_of_runs (strict : env.config.validationMode = .strict) (run : Runs env lastSeqNo events state) :
    state.records.From env (Authentic env events) := by
  have both : state.roster.Sound ∧ state.records.From env (Authentic env events) := by
    refine run.preserves_history
      (fun events state => state.roster.Sound ∧ state.records.From env (Authentic env events)) ⟨roster_initial.1, ?_⟩ ?_
    · refine ⟨?_, ?_, ?_, ?_⟩ <;> simp [records, State.initial, Peer.pending]
    · rintro events event before after ⟨sound, holds⟩ stepped
      have grown := holds.mono fun message (authentic : Authentic env events message) =>
        authentic.mono (List.subset_append_left events [event])
      refine ⟨sound_of_step sound stepped, step_preserves
        (fun state => state.records.From env (Authentic env (events ++ [event]))) ?_ sound stepped grown⟩
      intro before after micro holds
      refine holds.step micro.records ?_ ?_
      · intro peer encoded rpc sender pbPublish message source decoded entry valid
        rw [strict] at valid
        exact .received (by rw [← source]; simp) decoded entry (verified_of_validate valid)
      · rintro topicHash data message (source | source) made - - - -
        · exact .published (.inl (by rw [← source]; simp)) made
        · exact .published (.inr (by rw [← source]; simp)) made
  exact both.2

/-- In Strict mode, in every run, every message that was delivered, is cached, waits in a batch or was ever queued, and
a message of every id in the duplicate cache, was published locally or verified; and removing entries that fail
validation from an RPC, or from the frames of a whole run, changes no state. -/
theorem authenticity_of_runs (strict : env.config.validationMode = .strict) (run : Runs env lastSeqNo events state) :
    (∀ topicHash messageId message now later, .delivered topicHash messageId message now later ∈ state.log →
      Authentic env events message) ∧
    (∀ messageId entry, state.messageCache.lookup messageId = some entry → Authentic env events entry.message) ∧
    (∀ peer rpc, (state.heap peer).batch = some rpc → ∀ message ∈ rpc.publish, Authentic env events message) ∧
    (∀ peer message, .queued peer (.publish message) ∈ state.log → Authentic env events message) ∧
    (∀ messageId, state.duplicateCache.contains messageId →
      ∃ message, messageId = env.config.messageIdFn message ∧ Authentic env events message) ∧
    (∀ peer rpc, state.onRpc env peer (withoutInvalid env rpc) = state.onRpc env peer rpc) ∧
    ∀ others final, List.Forall₂ (Purged env) others events →
      (Runs env lastSeqNo others final ↔ Runs env lastSeqNo events final) := by
  obtain ⟨logged, cached, pending, dated⟩ := from_of_runs strict run
  refine ⟨?_, cached, ?_, ?_, ?_, fun _ _ => onRpc_withoutInvalid,
    fun others final purged => runs_purged purged⟩
  · intro topicHash messageId message now later delivered
    exact logged _ (List.mem_filter.mpr ⟨delivered, rfl⟩) message rfl
  · intro peer rpc waiting message member
    refine pending peer message ?_
    simpa only [records, Peer.pending, waiting, Option.map_some, Option.getD_some] using member
  · intro peer message queued
    exact logged _ (List.mem_filter.mpr ⟨queued, rfl⟩) message rfl
  · intro messageId present
    rw [DuplicateCache.contains, TimeCache.contains, decide_eq_true_eq] at present
    exact dated messageId present

/-- A message with a signature that its author did not make, and the message itself. -/
def forgedEvents (entries : List Pb.Message) : List Event :=
  [.subscribe [0x74], .connected (samplePeerId 1) false, .handle (samplePeerId 1) kProtocolGossipsubv1_1,
    .message 0 (Pb.RPC.encode { publish := entries })]

theorem authenticity_of_runs_forged :
    let genuine := sampleMessage 2 7 [0x74] [0x68, 0x69]
    let forged := { genuine with signature := some [0x00] }
    ∃ state, Runs (sampleEnv true (10 ^ 6)) 0 (forgedEvents [forged, genuine]) state ∧
      (state.log.filterMap Observation.arrival).length = 1 ∧
      (∀ messageId entry, state.messageCache.lookup messageId = some entry →
        Authentic (sampleEnv true (10 ^ 6)) (forgedEvents [forged, genuine]) entry.message) ∧
      Runs (sampleEnv true (10 ^ 6)) 0 (forgedEvents [genuine]) state := by
  intro genuine forged
  have followed : ((forgedEvents [forged, genuine]).foldlM (State.step (sampleEnv true (10 ^ 6)))
      (State.initial (sampleEnv true (10 ^ 6)) 0)).map
      (fun state => (state.log.filterMap Observation.arrival).length) = some 1 := by
    decide +kernel
  obtain ⟨state, ran, observed⟩ := Option.map_eq_some_iff.mp followed
  have run : Runs (sampleEnv true (10 ^ 6)) 0 (forgedEvents [forged, genuine]) state := Run.of_foldlM ran
  have frame : Purged (sampleEnv true (10 ^ 6)) (.message 0 (Pb.RPC.encode { publish := [genuine] }))
      (.message 0 (Pb.RPC.encode { publish := [forged, genuine] })) := by
    have decoded : Pb.RPC.decode (Pb.RPC.encode { publish := [forged, genuine] }) =
        some { publish := [forged, genuine] } := by decide +kernel
    have removed : Pb.RPC.decode (Pb.RPC.encode { publish := [genuine] }) =
        some (withoutInvalid (sampleEnv true (10 ^ 6)) { publish := [forged, genuine] }) := by decide +kernel
    exact .frame decoded removed
  have purged : List.Forall₂ (Purged (sampleEnv true (10 ^ 6))) (forgedEvents [genuine])
      (forgedEvents [forged, genuine]) :=
    .cons (.same _) (.cons (.same _) (.cons (.same _) (.cons frame .nil)))
  obtain ⟨-, cached, -, -, -, -, same⟩ := authenticity_of_runs rfl run
  exact ⟨state, run, observed, cached, (same _ state purged).mpr run⟩

end Libp2p.Gossip
