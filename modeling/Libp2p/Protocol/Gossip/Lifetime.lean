import Libp2p.Protocol.Gossip.Delivery

/-! # How long messages stay cached

Cached messages are erased when their ids fall out of the history of a topic. A publish-only topic that expires takes
its history with it, and ids that were only there stay cached forever. Otherwise every cached id is in the history of
a topic that exists, in the slot that says how many heartbeats ago it was broadcast.
-/

namespace Libp2p.Gossip

open Library State

namespace History

variable {history : History} {messageId other : MessageId} {age : ℕ}

/-- An id is in the slot of some age. -/
def At (history : History) (age : ℕ) (messageId : MessageId) : Prop :=
  ∃ slot, history.slots[age]? = some slot ∧ messageId ∈ slot

theorem mem_ids_iff : messageId ∈ history.ids ↔ ∃ age, history.At age messageId := by
  rw [ids, List.mem_flatten]
  constructor
  · rintro ⟨slot, member, inside⟩
    obtain ⟨age, found⟩ := List.mem_iff_getElem?.mp member
    exact ⟨age, slot, found, inside⟩
  · rintro ⟨age, slot, found, inside⟩
    exact ⟨slot, List.mem_of_getElem? found, inside⟩

theorem At.lt_length (here : history.At age messageId) : age < history.slots.length := by
  obtain ⟨slot, found, -⟩ := here
  exact (List.getElem?_eq_some_iff.mp found).1

/-- A new history is empty. -/
theorem not_at_new {slots : ℕ} {positive : 0 < slots} : ¬ (History.new slots positive).At age messageId := by
  rintro ⟨slot, found, inside⟩
  rw [new, List.getElem?_replicate] at found
  split_ifs at found
  rw [← Option.some.inj found] at inside
  cases inside

/-- An id that is added enters the newest slot. -/
theorem at_add_iff : (history.add messageId).At age other ↔ (age = 0 ∧ other = messageId) ∨ history.At age other := by
  obtain ⟨newest, rest, slots⟩ := List.exists_cons_of_ne_nil history.positive
  cases age with
  | zero => simp [At, add, slots, or_comm]
  | succ age => simp [At, add, slots]

/-- A shift makes every id that it keeps one heartbeat older. -/
theorem at_shift (here : history.shift.1.At age messageId) : ∃ younger, age = younger + 1 ∧ history.At younger messageId := by
  obtain ⟨slot, found, inside⟩ := here
  cases age with
  | zero =>
    rw [shift, List.getElem?_cons_zero] at found
    rw [← Option.some.inj found] at inside
    cases inside
  | succ younger =>
    rw [shift, List.getElem?_cons_succ, List.getElem?_dropLast] at found
    split_ifs at found
    exact ⟨younger, rfl, slot, found, inside⟩

/-- A shift keeps an id or reports it as removed. -/
theorem mem_shift_or (member : messageId ∈ history.ids) :
    messageId ∈ history.shift.1.ids ∨ messageId ∈ history.shift.2 := by
  have split := List.dropLast_append_getLast history.positive
  have removed : history.shift.2 = history.slots.getLast history.positive := by
    rw [shift, List.getLastD_eq_getLast?, List.getLast?_eq_some_getLast history.positive, Option.getD_some]
  rw [ids, ← split, List.flatten_append, List.mem_append] at member
  rcases member with kept | last
  · refine .inl ?_
    rw [shift, ids, List.flatten_cons, List.nil_append]
    exact kept
  · refine .inr ?_
    rw [removed]
    simpa using last

@[simp] theorem length_new {slots : ℕ} {positive : 0 < slots} : (History.new slots positive).slots.length = slots :=
  List.length_replicate

@[simp] theorem length_add : (history.add messageId).slots.length = history.slots.length := by
  obtain ⟨newest, rest, slots⟩ := List.exists_cons_of_ne_nil history.positive
  simp [add, slots]

@[simp] theorem length_shift : history.shift.1.slots.length = history.slots.length := by
  have positive := List.length_pos_of_ne_nil history.positive
  rw [shift, List.length_cons, List.length_dropLast]
  omega

end History

/-- The effect is a broadcast of an id. -/
def Observation.broadcasts (messageId : MessageId) : Observation → Bool
  | .broadcast _ _ other _ => other = messageId
  | _ => false

/-- How often an id was broadcast. -/
def State.broadcasts {R : Type} [Double R] (state : State R) (messageId : MessageId) : ℕ :=
  state.log.countP (·.broadcasts messageId)

namespace Records

variable {R : Type} [Double R] {env : Env R} {event : Event} {origin records before after : Records}

def broadcasts (records : Records) (messageId : MessageId) : ℕ := records.log.countP (·.broadcasts messageId)

/-- Every cached id is in the history of a topic. -/
def Retained (records : Records) : Prop := ∀ messageId ∈ records.messageCache,
  ∃ topicHash history, records.history topicHash = some history ∧ messageId ∈ history.ids

theorem Retained.cache (retained : Retained records) {topicHash : TopicHash} {messageId : MessageId}
    {message : Message} (topic : (records.history topicHash).isSome) :
    Retained (records.cache topicHash messageId message) := by
  obtain ⟨history, found⟩ := Option.isSome_iff_exists.mp topic
  have updated : (records.cache topicHash messageId message).history topicHash = some (history.add messageId) := by
    simp [Records.cache, found]
  intro other cached
  by_cases new : other = messageId
  · exact ⟨topicHash, _, updated, History.mem_ids_iff.mpr ⟨0, History.at_add_iff.mpr (.inl ⟨rfl, new⟩)⟩⟩
  · have earlier : other ∈ records.messageCache := by
      rw [← AList.lookup_isSome] at cached ⊢
      simpa [Records.cache, UnorderedMap.lookup_emplace, new] using cached
    obtain ⟨otherTopic, otherHistory, otherFound, member⟩ := retained other earlier
    by_cases same : otherTopic = topicHash
    · rw [same, found] at otherFound
      rw [← Option.some.inj otherFound] at member
      obtain ⟨age, here⟩ := History.mem_ids_iff.mp member
      exact ⟨topicHash, _, updated, History.mem_ids_iff.mpr ⟨age, History.at_add_iff.mpr (.inr here)⟩⟩
    · refine ⟨otherTopic, otherHistory, ?_, member⟩
      simpa [Records.cache, Function.update_of_ne same] using otherFound

/-- Only the expiry of a topic loses ids. -/
theorem Retained.step (retained : Retained before) (step : Step env event before after)
    (beating : event ≠ .heartbeat) : Retained after := by
  cases step with
  | admitted source decoded entry valid topic fresh => exact retained.cache topic
  | originated source made topic fresh => exact retained.cache topic
  | @served messageId entry iwant cached =>
    intro other member
    refine retained other ?_
    rcases (AList.mem_insert _).mp member with rfl | earlier
    · exact UnorderedMap.mem_of_lookup cached
    · exact earlier
  | created topicHash absent =>
    intro other member
    obtain ⟨otherTopic, history, found, inside⟩ := retained other member
    refine ⟨otherTopic, history, ?_, inside⟩
    have different : otherTopic ≠ topicHash := by
      rintro rfl
      rw [absent] at found
      cases found
    simpa only [Function.update_of_ne different] using found
  | expired topicHash source => exact absurd source beating
  | aged source found => exact absurd source beating
  | _ => exact retained

/-- Aging a history erases exactly what falls out of it. -/
theorem Retained.aged (retained : Retained before) {topicHash : TopicHash} {history : History}
    (found : before.history topicHash = some history) : Retained { before with
      history := Function.update before.history topicHash (some history.shift.1)
      messageCache := history.shift.2.foldl (fun cache messageId => cache.erase messageId) before.messageCache } := by
  intro messageId cached
  rw [← AList.lookup_isSome, UnorderedMap.lookup_foldl_erase] at cached
  split_ifs at cached with removed
  · cases cached
  · obtain ⟨other, otherHistory, otherFound, member⟩ := retained messageId (AList.lookup_isSome.mp cached)
    by_cases same : other = topicHash
    · rw [same, found] at otherFound
      rw [← Option.some.inj otherFound] at member
      exact ⟨topicHash, history.shift.1, Function.update_self .., (History.mem_shift_or member).resolve_right removed⟩
    · exact ⟨other, otherHistory, (Function.update_of_ne same ..).trans otherFound, member⟩

/-- Every slot holds only ids that are old enough, or that were broadcast since `origin`. -/
structure Tracked (env : Env R) (old : ℕ → MessageId → Prop) (origin records : Records) : Prop where
  forward : ∀ messageId, origin.broadcasts messageId ≤ records.broadcasts messageId
  length : ∀ topicHash history, records.history topicHash = some history →
    history.slots.length = env.config.historyLength
  slots : ∀ topicHash history, records.history topicHash = some history → ∀ age messageId,
    history.At age messageId →
      old age messageId ∨ (age = 0 ∧ origin.broadcasts messageId < records.broadcasts messageId)

/-- A broadcast enters the newest slot of its topic. -/
theorem Tracked.cache {old : ℕ → MessageId → Prop} (tracked : Tracked env old origin records)
    (topicHash : TopicHash) (messageId : MessageId) (message : Message) {after : Records}
    (history : after.history = (records.cache topicHash messageId message).history)
    (kept : ∀ other, records.broadcasts other ≤ after.broadcasts other)
    (counted : records.broadcasts messageId < after.broadcasts messageId) : Tracked env old origin after := by
  obtain ⟨forward, length, slots⟩ := tracked
  refine ⟨fun other => (forward other).trans (kept other), ?_, ?_⟩
  · intro other found lookup
    rw [history] at lookup
    simp only [Records.cache, Function.update_apply] at lookup
    split_ifs at lookup
    · obtain ⟨before, earlier, rfl⟩ := Option.map_eq_some_iff.mp lookup
      rw [History.length_add]
      exact length topicHash before earlier
    · exact length other found lookup
  · intro other found lookup age candidate here
    have older : ∀ topicHash history, records.history topicHash = some history → history.At age candidate →
        old age candidate ∨ (age = 0 ∧ origin.broadcasts candidate < after.broadcasts candidate) := by
      intro topicHash history lookup here
      exact (slots topicHash history lookup age candidate here).imp_right
        fun new => ⟨new.1, new.2.trans_le (kept candidate)⟩
    rw [history] at lookup
    simp only [Records.cache, Function.update_apply] at lookup
    split_ifs at lookup
    · obtain ⟨before, earlier, rfl⟩ := Option.map_eq_some_iff.mp lookup
      rcases History.at_add_iff.mp here with ⟨rfl, rfl⟩ | here
      · exact .inr ⟨rfl, (forward candidate).trans_lt counted⟩
      · exact older topicHash before earlier here
    · exact older other found lookup here

theorem Tracked.step {old : ℕ → MessageId → Prop} (tracked : Tracked env old origin before)
    (step : Step env event before after) (beating : event ≠ .heartbeat) : Tracked env old origin after := by
  have ⟨forward, length, slots⟩ := tracked
  cases step with
  | queued peer message known => exact ⟨forward, length, slots⟩
  | @admitted peer sender encoded rpc pbPublish message source decoded entry valid topic fresh =>
    refine tracked.cache message.topic (env.config.messageIdFn message) message rfl ?_ ?_
    · intro other
      simp [broadcasts, List.countP_cons, Observation.broadcasts]
    · simp [broadcasts, Observation.broadcasts]
  | @originated topicHash data message source made topic fresh =>
    refine tracked.cache topicHash (env.config.messageIdFn message) message rfl ?_ ?_
    · intro other
      simp [broadcasts, List.countP_cons, Observation.broadcasts]
    · simp [broadcasts, Observation.broadcasts]
  | created topicHash absent =>
    refine ⟨forward, ?_, ?_⟩
    · intro other history found
      simp only [Function.update_apply] at found
      split_ifs at found
      · rw [← Option.some.inj found, History.length_new]
      · exact length other history found
    · intro other history found age messageId here
      simp only [Function.update_apply] at found
      split_ifs at found
      · rw [← Option.some.inj found] at here
        exact absurd here History.not_at_new
      · exact slots other history found age messageId here
  | expired topicHash source => exact absurd source beating
  | aged source found => exact absurd source beating
  | _ => exact ⟨forward, length, slots⟩

end Records

variable {R : Type} [Double R] {env : Env R} {event : Event} {state before after : State R}

section Heartbeat

/-- The topics that the expiry loop drops, with the clock reading that it takes for every publish-only topic. -/
def overdue (env : Env R) (topics : UnorderedMap TopicHash Topic) : ℕ → List TopicHash → List TopicHash
  | _, [] => []
  | readings, topicHash :: rest =>
    match topics.lookup topicHash with
    | none => overdue env topics readings rest
    | some topic =>
      if topic.publishOnly then
        if env.clock readings < topic.lastPublish + env.config.fanoutTtl then overdue env topics (readings + 1) rest
        else topicHash :: overdue env topics (readings + 1) rest
      else overdue env topics readings rest

theorem overdue_congr {first second : UnorderedMap TopicHash Topic} {readings : ℕ} {keys : List TopicHash}
    (same : ∀ topicHash ∈ keys, first.lookup topicHash = second.lookup topicHash) :
    overdue env first readings keys = overdue env second readings keys := by
  induction keys generalizing readings with
  | nil => rfl
  | cons topicHash rest ih =>
    have later : ∀ readings, overdue env first readings rest = overdue env second readings rest :=
      fun readings => ih fun other member => same other (by simp [member])
    simp only [overdue, same topicHash (by simp), later]

/-- The expiry loop drops the overdue topics and keeps the others as they are. -/
theorem lookup_foldl_expireTopic {keys : List TopicHash} (distinct : keys.Nodup) (other : TopicHash) :
    (keys.foldl (expireTopic env) state).topics.lookup other =
      if other ∈ overdue env state.topics state.readings keys then none else state.topics.lookup other := by
  induction keys generalizing state with
  | nil => simp [overdue]
  | cons topicHash rest ih =>
    obtain ⟨fresh, distinct⟩ := List.nodup_cons.mp distinct
    rw [List.foldl_cons, ih distinct]
    cases found : state.topics.lookup topicHash with
    | none => simp only [expireTopic, overdue, found]
    | some topic =>
      by_cases publishOnly : topic.publishOnly
      · by_cases early : env.clock state.readings < topic.lastPublish + env.config.fanoutTtl
        · simp only [expireTopic, overdue, found, publishOnly, if_pos, State.now, early, tick]
        · have same : overdue env (state.topics.erase topicHash) (state.readings + 1) rest =
              overdue env state.topics (state.readings + 1) rest := by
            refine overdue_congr fun member inside => AList.lookup_erase_ne ?_
            rintro rfl
            exact fresh inside
          have dropped : state.expireTopic env topicHash =
              { state.tick with topics := state.topics.erase topicHash } := by
            simp only [expireTopic, found, publishOnly, State.now, early, if_true, if_false]
          have listed : overdue env state.topics state.readings (topicHash :: rest) =
              topicHash :: overdue env state.topics (state.readings + 1) rest := by
            simp only [overdue, found, publishOnly, early, if_true, if_false]
          rw [dropped, listed]
          simp only [tick, same, UnorderedMap.lookup_erase_eq, List.mem_cons]
          by_cases this : other = topicHash
          · simp [this]
          · simp [this]
      · simp only [expireTopic, overdue, found, if_neg publishOnly]

theorem expireTopics_frame : (state.expireTopics env).messageCache = state.messageCache ∧
    (state.expireTopics env).log = state.log :=
  ⟨foldl_field State.messageCache fun state topicHash => by rw [expireTopic_eq],
    foldl_field State.log fun state topicHash => by rw [expireTopic_eq]⟩

/-- Before the expiry loop, histories, the message cache and the log are as they were. -/
theorem records_startHeartbeat (env : Env R) (state : State R) : ∃ readings,
    (state.startHeartbeat env).records = { state.records with readings } := by
  have shifted : ∀ state : State R, state.shiftBackoffs.records = state.records :=
    fun state => foldl_field State.records fun state topicHash => records_modifyTopic fun _ => rfl
  have penalized : ∀ (entries : List (Sigma fun _ : PeerPtr => ℕ)) (state : State R),
      (entries.foldl (fun state entry =>
        (state.modifyScore fun score => score.addPenalty (state.heap entry.1).peerId entry.2).record
          (.penalized (state.heap entry.1).peerId entry.2)) state).records = state.records := by
    refine fun _ _ => foldl_field State.records fun state entry => ?_
    rw [records_record rfl, records_modifyScore]
  have beaten : ({ state with heartbeatTicks := state.heartbeatTicks + 1 } : State R).shiftBackoffs.records =
      state.records := shifted _
  refine ⟨(state.startHeartbeat env).records.readings, ?_⟩
  unfold startHeartbeat applyIwantPenalties
  dsimp only
  rw [penalized, ← beaten]
  rfl

/-- A history that is shifted gets older; other topics stay. -/
theorem history_foldl_shift {keys : List TopicHash} (distinct : keys.Nodup) (other : TopicHash) :
    (keys.foldl (fun state topicHash => state.shiftHistory topicHash) state).records.history other =
      if other ∈ keys then (state.records.history other).map (·.shift.1) else state.records.history other := by
  induction keys generalizing state with
  | nil => rfl
  | cons topicHash rest ih =>
    obtain ⟨fresh, distinct⟩ := List.nodup_cons.mp distinct
    rw [List.foldl_cons, ih distinct]
    have shifted : ∀ other, (state.shiftHistory topicHash).records.history other =
        if other = topicHash then (state.records.history other).map (·.shift.1) else state.records.history other := by
      intro other
      cases found : state.records.history topicHash with
      | none =>
        rw [records_shiftHistory_absent found]
        split_ifs with same
        · rw [same, found]
          rfl
        · rfl
      | some history =>
        rw [records_shiftHistory found]
        simp only [Function.update_apply]
        split_ifs with same
        · rw [same, found]
          rfl
        · rfl
    rw [shifted]
    by_cases same : other = topicHash
    · simp [same, fresh]
    · simp [same]

theorem history_forTopics_shift (other : TopicHash) : (state.forTopics env shiftHistory).records.history other =
    (state.records.history other).map (·.shift.1) := by
  have order := env.shuffleIds_perm state.random state.topics.keys
  unfold forTopics
  dsimp only
  rw [history_foldl_shift (order.nodup_iff.mpr state.topics.keys_nodup)]
  split_ifs with member
  · rfl
  · have absent : state.topics.lookup other = none := by
      rw [AList.lookup_eq_none, AList.mem_keys]
      exact fun present => member (order.mem_iff.mpr present)
    simp [records, absent]

theorem retained_forTopics_shift (retained : state.records.Retained) :
    (state.forTopics env shiftHistory).records.Retained := by
  unfold forTopics
  dsimp only
  generalize env.shuffleIds state.random state.topics.keys = order
  have start : ({ state with random := state.random + 1 } : State R).records.Retained := retained
  generalize ({ state with random := state.random + 1 } : State R) = current at start
  induction order generalizing current with
  | nil => exact start
  | cons topicHash rest ih =>
    refine ih (current.shiftHistory topicHash) ?_
    cases found : current.records.history topicHash with
    | none =>
      rw [records_shiftHistory_absent found]
      exact start
    | some history =>
      rw [records_shiftHistory found]
      exact start.aged found

/-- What the heartbeat's expiry loop is about to drop. -/
def dropped (env : Env R) (state : State R) : List TopicHash :=
  let start := state.startHeartbeat env
  overdue env start.topics start.readings start.topics.keys

/-- Cached ids in the history of a topic that is about to be dropped are also in the history of one that stays. -/
def Covered (env : Env R) (state : State R) : Prop :=
  ∀ messageId ∈ state.messageCache, ∀ topicHash ∈ dropped env state, ∀ topic,
    state.topics.lookup topicHash = some topic → messageId ∈ topic.history.ids →
      ∃ other ∉ dropped env state, ∃ topic, state.topics.lookup other = some topic ∧ messageId ∈ topic.history.ids

theorem history_expireTopics (other : TopicHash) :
    ((state.startHeartbeat env).expireTopics env).records.history other =
      if other ∈ dropped env state then none else state.records.history other := by
  obtain ⟨readings, started⟩ := records_startHeartbeat env state
  have kept : (state.startHeartbeat env).records.history other = state.records.history other := by rw [started]
  change (((state.startHeartbeat env).topics.keys.foldl (expireTopic env) (state.startHeartbeat env)).topics.lookup
    other).map Topic.history = _
  rw [lookup_foldl_expireTopic (AList.keys_nodup _), ← kept]
  unfold dropped
  dsimp only
  split_ifs <;> rfl

theorem messageCache_expireTopics :
    ((state.startHeartbeat env).expireTopics env).messageCache = state.messageCache := by
  obtain ⟨readings, started⟩ := records_startHeartbeat env state
  rw [expireTopics_frame.1]
  exact congrArg Records.messageCache started

theorem retained_heartbeat (retained : state.records.Retained) (covered : Covered env state) :
    (state.heartbeat env).records.Retained := by
  have quiet : ∀ {before after : State R}, Chain env .decay before after → before.records.Retained →
      after.records.Retained := fun chain => chain_preserves (fun state : State R => state.records.Retained) chain
    fun _ _ micro holds => holds.step micro.records (by simp)
  have expired : ((state.startHeartbeat env).expireTopics env).records.Retained := by
    intro messageId cached
    have cached : messageId ∈ state.messageCache := by rwa [← messageCache_expireTopics]
    obtain ⟨topicHash, history, found, member⟩ := retained messageId cached
    by_cases gone : topicHash ∈ dropped env state
    · obtain ⟨topic, lookup, rfl⟩ := Option.map_eq_some_iff.mp found
      obtain ⟨other, stays, otherTopic, otherLookup, inside⟩ := covered messageId cached topicHash gone topic lookup member
      refine ⟨other, otherTopic.history, ?_, inside⟩
      rw [history_expireTopics, if_neg stays]
      exact Option.map_eq_some_iff.mpr ⟨otherTopic, otherLookup, rfl⟩
    · refine ⟨topicHash, history, ?_, member⟩
      rw [history_expireTopics, if_neg gone, found]
  exact quiet chain_clearRefusals (retained_forTopics_shift (quiet chain_maintenance expired))

/-- Nothing is broadcast while the node does not handle a frame or a publication. -/
theorem Records.Step.broadcasts_eq {before after : Records} (step : Records.Step env .decay before after)
    (messageId : MessageId) : after.broadcasts messageId = before.broadcasts messageId := by
  cases step with
  | queued peer message known => simp [Records.broadcasts, Observation.broadcasts]
  | admitted source => cases source
  | originated source => rcases source with source | source <;> cases source
  | _ => rfl

/-- Histories have their configured length, and every slot holds ids of its age. -/
structure Records.Dated (env : Env R) (old : ℕ → MessageId → Prop) (records : Records) : Prop where
  length : ∀ topicHash history, records.history topicHash = some history →
    history.slots.length = env.config.historyLength
  slots : ∀ topicHash history, records.history topicHash = some history → ∀ age messageId,
    history.At age messageId → old age messageId

theorem dated_of_quiet {old : ℕ → MessageId → Prop} (chain : Chain env .decay before after)
    (dated : before.records.Dated env old) : after.records.Dated env old := by
  have final : Records.Tracked env old before.records after.records ∧
      ∀ messageId, after.records.broadcasts messageId = before.records.broadcasts messageId := by
    refine chain_preserves (fun state : State R => Records.Tracked env old before.records state.records ∧
      ∀ messageId, state.records.broadcasts messageId = before.records.broadcasts messageId) chain ?_
      ⟨⟨fun _ => le_rfl, dated.length, fun topicHash history found age messageId here =>
        .inl (dated.slots topicHash history found age messageId here)⟩, fun _ => rfl⟩
    rintro first second micro ⟨tracked, same⟩
    exact ⟨tracked.step micro.records (by simp), fun messageId =>
      (micro.records.broadcasts_eq messageId).trans (same messageId)⟩
  obtain ⟨⟨-, length, slots⟩, same⟩ := final
  refine ⟨length, ?_⟩
  intro topicHash history found age messageId here
  refine (slots topicHash history found age messageId here).resolve_right ?_
  rintro ⟨-, more⟩
  exact absurd (same messageId) more.ne'

/-- A heartbeat makes every id one heartbeat older. -/
theorem dated_heartbeat {old : ℕ → MessageId → Prop} (dated : state.records.Dated env old) :
    (state.heartbeat env).records.Dated env fun age messageId => ∃ younger, age = younger + 1 ∧ old younger messageId := by
  have expired : ((state.startHeartbeat env).expireTopics env).records.Dated env old := by
    refine ⟨?_, ?_⟩
    · intro topicHash history found
      rw [history_expireTopics] at found
      split_ifs at found
      exact dated.length topicHash history found
    · intro topicHash history found
      rw [history_expireTopics] at found
      split_ifs at found
      exact dated.slots topicHash history found
  have maintained := dated_of_quiet chain_maintenance expired
  refine dated_of_quiet chain_clearRefusals ⟨?_, ?_⟩
  · intro topicHash history found
    rw [history_forTopics_shift] at found
    obtain ⟨earlier, lookup, rfl⟩ := Option.map_eq_some_iff.mp found
    rw [History.length_shift]
    exact maintained.length topicHash earlier lookup
  · intro topicHash history found age messageId here
    rw [history_forTopics_shift] at found
    obtain ⟨earlier, lookup, rfl⟩ := Option.map_eq_some_iff.mp found
    obtain ⟨younger, same, there⟩ := History.at_shift here
    exact ⟨younger, same, maintained.slots topicHash earlier lookup younger messageId there⟩

end Heartbeat

variable {lastSeqNo : Seqno} {events : List Event}

/-- The run broadcast an id that many heartbeats ago. -/
def BroadcastAgo (env : Env R) (lastSeqNo : Seqno) (events : List Event) (age : ℕ) (messageId : MessageId) : Prop :=
  ∃ first last rest, events = first ++ last :: rest ∧ rest.count .heartbeat = age ∧
    ∃ middle next : State R, Runs env lastSeqNo first middle ∧ middle.step env last = some next ∧
      middle.broadcasts messageId < next.broadcasts messageId

theorem BroadcastAgo.snoc {age : ℕ} {messageId : MessageId} (ago : BroadcastAgo env lastSeqNo events age messageId)
    (event : Event) :
    BroadcastAgo env lastSeqNo (events ++ [event]) (age + [event].count .heartbeat) messageId := by
  obtain ⟨first, last, rest, rfl, rfl, broadcast⟩ := ago
  refine ⟨first, last, rest ++ [event], by simp, ?_, broadcast⟩
  rw [List.count_append]

theorem broadcasts_records (messageId : MessageId) : state.records.broadcasts messageId = state.broadcasts messageId := by
  simp only [Records.broadcasts, State.broadcasts, records, List.countP_filter]
  congr 1
  funext observation
  cases observation <;> simp [Observation.broadcasts, Observation.isMessage]

/-- In every run, the slots of the histories say how many heartbeats ago an id was broadcast. -/
theorem dated_of_runs (run : Runs env lastSeqNo events state) :
    state.records.Dated env (BroadcastAgo env lastSeqNo events) := by
  have all : Runs env lastSeqNo events state ∧ state.records.Dated env (BroadcastAgo env lastSeqNo events) := by
    refine run.preserves_history (fun events state =>
      Runs env lastSeqNo events state ∧ state.records.Dated env (BroadcastAgo env lastSeqNo events)) ⟨.nil, ?_⟩ ?_
    · refine ⟨?_, ?_⟩ <;> simp [records, State.initial]
    · rintro events event before after ⟨run, dated⟩ stepped
      refine ⟨run.snoc stepped, ?_⟩
      by_cases beating : event = .heartbeat
      · subst beating
        obtain rfl := Option.some.inj stepped
        obtain ⟨length, slots⟩ := dated_heartbeat dated
        refine ⟨length, ?_⟩
        intro topicHash history found age messageId here
        obtain ⟨younger, rfl, ago⟩ := slots topicHash history found age messageId here
        exact ago.snoc .heartbeat
      · have tracked : Records.Tracked env (BroadcastAgo env lastSeqNo events) before.records after.records := by
          refine step_preserves (fun state =>
            Records.Tracked env (BroadcastAgo env lastSeqNo events) before.records state.records)
            (fun _ _ micro holds => holds.step micro.records beating) (sound_of_runs run) stepped ?_
          exact ⟨fun _ => le_rfl, dated.length, fun topicHash history found age messageId here =>
            .inl (dated.slots topicHash history found age messageId here)⟩
        refine ⟨tracked.length, ?_⟩
        intro topicHash history found age messageId here
        rcases tracked.slots topicHash history found age messageId here with ago | ⟨rfl, more⟩
        · have later := ago.snoc event
          rwa [List.count_singleton, if_neg (by simpa using beating)] at later
        · rw [broadcasts_records, broadcasts_records] at more
          exact ⟨events, event, [], rfl, rfl, before, after, run, stepped, more⟩
  exact all.2

/-- Runs in which no heartbeat drops the only history of a cached id. -/
abbrev CoveredRuns (env : Env R) (lastSeqNo : Seqno) : List Event → State R → Prop :=
  Run (fun before event after => before.step env event = some after ∧ (event = .heartbeat → Covered env before))
    (State.initial env lastSeqNo)

/-- In every run in which no heartbeat drops the only history of a cached id, every cached id is in the history of a
topic that exists, and was broadcast fewer heartbeats ago than histories have slots. -/
theorem retained_of_coveredRuns (run : CoveredRuns env lastSeqNo events state) :
    ∀ messageId ∈ state.messageCache,
      (∃ topicHash topic, state.topics.lookup topicHash = some topic ∧ messageId ∈ topic.history.ids) ∧
      ∃ age < env.config.historyLength, BroadcastAgo env lastSeqNo events age messageId := by
  have all : Runs env lastSeqNo events state := run.mono fun _ _ _ taken => taken.1
  have both : state.roster.Sound ∧ state.records.Retained := by
    refine run.preserves (fun state => state.roster.Sound ∧ state.records.Retained) ⟨roster_initial.1, ?_⟩ ?_
    · intro messageId cached
      simp [records, State.initial] at cached
    · rintro event before after ⟨sound, retained⟩ ⟨stepped, covered⟩
      refine ⟨sound_of_step sound stepped, ?_⟩
      by_cases beating : event = .heartbeat
      · subst beating
        obtain rfl := Option.some.inj stepped
        exact retained_heartbeat retained (covered rfl)
      · exact step_preserves (fun state => state.records.Retained)
          (fun _ _ micro holds => holds.step micro.records beating) sound stepped retained
  intro messageId cached
  obtain ⟨topicHash, history, found, member⟩ := both.2 messageId cached
  obtain ⟨topic, lookup, rfl⟩ := Option.map_eq_some_iff.mp found
  obtain ⟨age, here⟩ := History.mem_ids_iff.mp member
  have dated := dated_of_runs all
  refine ⟨⟨topicHash, topic, lookup, member⟩, age, ?_, dated.slots topicHash _ found age messageId here⟩
  rw [← dated.length topicHash _ found]
  exact here.lt_length

/-- A step that refuses heartbeats that drop a topic. -/
def State.stepKeeping (env : Env R) (state : State R) (event : Event) : Option (State R) :=
  if event = .heartbeat ∧ dropped env state ≠ [] then none else state.step env event

theorem coveredRuns_of_foldlM
    (followed : events.foldlM (stepKeeping env) (State.initial env lastSeqNo) = some state) :
    CoveredRuns env lastSeqNo events state := by
  refine (Run.of_foldlM followed).mono ?_
  intro event before after taken
  obtain ⟨keeps, stepped⟩ := Option.ite_none_left_eq_some.mp taken
  refine ⟨stepped, ?_⟩
  intro beating messageId cached topicHash gone
  have none : dropped env before = [] := not_not.mp fun some => keeps ⟨beating, some⟩
  rw [none] at gone
  cases gone

/-- The node publishes to a topic that it has not subscribed to, and its heartbeat fires. -/
def fanoutEvents : List Event := [.publish [0x74] [0x68, 0x69], .heartbeat]

/-- Without flooding, the topic has just been used and stays. -/
theorem retained_of_coveredRuns_fanout : ∃ state : State Rational,
    CoveredRuns (sampleEnv false (10 ^ 6)) 0 fanoutEvents state ∧ state.messageCache.keys.length = 1 ∧
      ∀ messageId ∈ state.messageCache,
        ∃ topicHash topic, state.topics.lookup topicHash = some topic ∧ messageId ∈ topic.history.ids := by
  have followed : (fanoutEvents.foldlM (stepKeeping (sampleEnv false (10 ^ 6)))
      (State.initial (sampleEnv false (10 ^ 6)) 0)).map (fun state => state.messageCache.keys.length) = some 1 := by
    decide +kernel
  obtain ⟨state, ran, observed⟩ := Option.map_eq_some_iff.mp followed
  have run := coveredRuns_of_foldlM ran
  exact ⟨state, run, observed, fun messageId cached => (retained_of_coveredRuns run messageId cached).1⟩

/-- With flooding, the time of the publication is not noted: the topic counts as never used, and its message stays
cached without it. -/
theorem flood_publish_leaks : ∃ (state : State Rational) (messageId : MessageId),
    Runs (sampleEnv true (10 ^ 6)) 0 fanoutEvents state ∧ messageId ∈ state.messageCache ∧
      ¬ ∃ topicHash topic, state.topics.lookup topicHash = some topic ∧ messageId ∈ topic.history.ids := by
  have followed : (fanoutEvents.foldlM (State.step (sampleEnv true (10 ^ 6)))
      (State.initial (sampleEnv true (10 ^ 6)) 0)).map
      (fun state => (state.messageCache.keys.length, state.topics.keys)) = some (1, []) := by
    decide
  obtain ⟨state, ran, observed⟩ := Option.map_eq_some_iff.mp followed
  obtain ⟨cached, topics⟩ := Prod.mk.inj observed
  obtain ⟨messageId, member⟩ := List.exists_mem_of_length_pos (cached ▸ Nat.one_pos)
  refine ⟨state, messageId, Run.of_foldlM ran, AList.mem_keys.mpr member, ?_⟩
  rintro ⟨topicHash, topic, found, -⟩
  have present := AList.mem_keys.mp (UnorderedMap.mem_of_lookup found)
  rw [topics] at present
  cases present

end Libp2p.Gossip
