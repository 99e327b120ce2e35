import Libp2p.Protocol.Gossip.Pacing

/-! # Advertised messages can be served

A heartbeat advertises the ids in the newest slots of the histories and then shifts every history by one slot; an id
leaves the message cache when it falls out of the last slot of any topic. As long as no id is broadcast again while a
history still has it, all slots that hold an id have one age. So an id that is advertised has as many heartbeats left in
the cache as histories are longer than what is advertised of them.
-/

namespace Libp2p.Gossip

open Library State

variable {R : Type} [Double R] {env : Env R} {event : Event} {state before after : State R} {lastSeqNo : Seqno}
  {events : List Event} {messageId : MessageId}

/-- What a shift reports was in the oldest slot. -/
theorem History.at_of_mem_shift {history : History} (removed : messageId ∈ history.shift.2) :
    history.At (history.slots.length - 1) messageId := by
  refine ⟨history.slots.getLast history.positive, ?_, ?_⟩
  · rw [← List.getLast?_eq_getElem?, List.getLast?_eq_some_getLast history.positive]
  · rwa [History.shift, List.getLastD_eq_getLast?, List.getLast?_eq_some_getLast history.positive,
      Option.getD_some] at removed

/-- What is advertised is younger than the number of slots that are advertised. -/
theorem History.at_of_mem_get {history : History} {slots : ℕ} (recent : messageId ∈ history.get slots) :
    ∃ age < slots, history.At age messageId := by
  obtain ⟨slot, member, inside⟩ := List.mem_flatten.mp recent
  obtain ⟨age, found⟩ := List.mem_iff_getElem?.mp member
  rw [List.getElem?_take] at found
  split_ifs at found with young
  exact ⟨age, young, slot, found, inside⟩

namespace Records

variable {records first second : Records}

/-- Everything in a history is cached. -/
def Stored (records : Records) : Prop :=
  ∀ topicHash history, records.history topicHash = some history → ∀ age messageId, history.At age messageId →
    messageId ∈ records.messageCache

/-- Only a heartbeat removes from the cache. -/
theorem Step.cached (step : Step env event first second) (beating : event ≠ .heartbeat)
    (cached : messageId ∈ first.messageCache) : messageId ∈ second.messageCache := by
  have emplaced : ∀ other message, messageId ∈ UnorderedMap.emplace first.messageCache other { message } := by
    intro other message
    rw [← AList.lookup_isSome, UnorderedMap.lookup_emplace]
    split_ifs
    · rfl
    · exact AList.lookup_isSome.mpr cached
  cases step with
  | admitted => exact emplaced _ _
  | originated => exact emplaced _ _
  | served => exact (AList.mem_insert _).mpr (.inr cached)
  | aged source => exact absurd source beating
  | _ => exact cached

theorem Stored.cache (stored : Stored records) {topicHash : TopicHash} {message : Message} :
    Stored (records.cache topicHash messageId message) := by
  have emplaced : ∀ other, other = messageId ∨ other ∈ records.messageCache →
      other ∈ (records.cache topicHash messageId message).messageCache := by
    rintro other known
    rw [← AList.lookup_isSome]
    simp only [Records.cache, UnorderedMap.lookup_emplace]
    split_ifs with same
    · rfl
    · exact AList.lookup_isSome.mpr (known.resolve_left same)
  intro other history found age candidate here
  apply emplaced
  simp only [Records.cache, Function.update_apply] at found
  split_ifs at found
  · obtain ⟨earlier, lookup, rfl⟩ := Option.map_eq_some_iff.mp found
    rcases History.at_add_iff.mp here with ⟨-, new⟩ | here
    · exact .inl new
    · exact .inr (stored topicHash earlier lookup age candidate here)
  · exact .inr (stored other history found age candidate here)

theorem Stored.step (stored : Stored first) (step : Step env event first second) (beating : event ≠ .heartbeat) :
    Stored second := by
  cases step with
  | admitted => exact stored.cache
  | originated => exact stored.cache
  | served messageId iwant cached =>
    intro topicHash history found age other here
    exact (AList.mem_insert _).mpr (.inr (stored topicHash history found age other here))
  | created topicHash absent =>
    intro other history found age messageId here
    simp only [Function.update_apply] at found
    split_ifs at found
    · rw [← Option.some.inj found] at here
      exact absurd here History.not_at_new
    · exact stored other history found age messageId here
  | expired topicHash source => exact absurd source beating
  | aged source found => exact absurd source beating
  | _ => exact stored

end Records

section Shifting

/-- An id that is in no oldest slot stays cached while the histories are shifted. -/
theorem cached_foldl_shift {keys : List TopicHash} (distinct : keys.Nodup) (cached : messageId ∈ state.messageCache)
    (safe : ∀ topicHash ∈ keys, ∀ history, state.records.history topicHash = some history →
      messageId ∉ history.shift.2) :
    messageId ∈ (keys.foldl (fun state topicHash => state.shiftHistory topicHash) state).messageCache := by
  induction keys generalizing state with
  | nil => exact cached
  | cons topicHash rest ih =>
    obtain ⟨fresh, distinct⟩ := List.nodup_cons.mp distinct
    rw [List.foldl_cons]
    cases found : state.records.history topicHash with
    | none =>
      have same := records_shiftHistory_absent found
      apply ih distinct
      · have cache : (state.shiftHistory topicHash).messageCache = state.messageCache := congrArg Records.messageCache same
        rwa [cache]
      · intro other member history lookup
        rw [same] at lookup
        exact safe other (List.mem_cons_of_mem _ member) history lookup
    | some history =>
      have shifted := records_shiftHistory found
      apply ih distinct
      · have cache : (state.shiftHistory topicHash).messageCache = history.shift.2.foldl
            (fun cache messageId => cache.erase messageId) state.messageCache := congrArg Records.messageCache shifted
        rw [cache, ← AList.lookup_isSome, UnorderedMap.lookup_foldl_erase,
          if_neg (safe topicHash List.mem_cons_self history found)]
        exact AList.lookup_isSome.mpr cached
      · intro other member later lookup
        have different : other ≠ topicHash := by
          rintro rfl
          exact fresh member
        rw [shifted] at lookup
        exact safe other (List.mem_cons_of_mem _ member) later ((Function.update_of_ne different ..).symm.trans lookup)

theorem cached_forTopics_shift (cached : messageId ∈ state.messageCache)
    (safe : ∀ topicHash history, state.records.history topicHash = some history → messageId ∉ history.shift.2) :
    messageId ∈ (state.forTopics env shiftHistory).messageCache := by
  have order := env.shuffleIds_perm state.random state.topics.keys
  apply cached_foldl_shift (order.nodup_iff.mpr state.topics.keys_nodup)
  · exact cached
  · exact fun topicHash _ history found => safe topicHash history found

/-- Up to its shift, a heartbeat removes nothing from the cache. -/
theorem cached_of_quiet (chain : Chain env .decay before after) (cached : messageId ∈ before.messageCache) :
    messageId ∈ after.messageCache :=
  chain_preserves (fun state : State R => messageId ∈ state.messageCache) chain
    (fun _ _ micro => micro.records.cached (by simp)) cached

theorem cached_expired (cached : messageId ∈ state.messageCache) : messageId ∈ (state.expired env).messageCache := by
  have same : (state.expired env).messageCache = state.messageCache := messageCache_expireTopics
  rwa [same]

theorem cached_maintained (cached : messageId ∈ state.messageCache) : messageId ∈ (state.maintained env).messageCache :=
  cached_of_quiet chain_maintenance (cached_expired cached)

theorem dated_expired {old : ℕ → MessageId → Prop} (dated : state.records.Dated env old) :
    (state.expired env).records.Dated env old := by
  have kept : ∀ topicHash history, (state.expired env).records.history topicHash = some history →
      state.records.history topicHash = some history := by
    intro topicHash history found
    rw [State.expired, history_expireTopics] at found
    split_ifs at found
    exact found
  exact ⟨fun topicHash history found => dated.length topicHash history (kept topicHash history found),
    fun topicHash history found => dated.slots topicHash history (kept topicHash history found)⟩

theorem dated_maintained {old : ℕ → MessageId → Prop} (dated : state.records.Dated env old) :
    (state.maintained env).records.Dated env old :=
  dated_of_quiet chain_maintenance (dated_expired dated)

/-- A heartbeat ends with the shift of all histories; refusals are cleared then. -/
theorem cached_heartbeat (cached : messageId ∈ state.messageCache)
    (safe : ∀ topicHash history, (state.maintained env).records.history topicHash = some history →
      messageId ∉ history.shift.2) : messageId ∈ (state.heartbeat env).messageCache :=
  cached_of_quiet chain_clearRefusals (cached_forTopics_shift (cached_maintained cached) safe)

end Shifting

section Life

/-- An id is cached and will survive that many more heartbeats. -/
structure Kept (env : Env R) (messageId : MessageId) (life : ℕ) (state : State R) : Prop where
  bounded : life < env.config.historyLength
  cached : messageId ∈ state.messageCache
  young : state.records.Dated env fun age other => other = messageId → age + life < env.config.historyLength

variable {life : ℕ}

theorem Kept.heartbeat (kept : Kept env messageId (life + 1) state) : Kept env messageId life (state.heartbeat env) := by
  obtain ⟨bounded, cached, young⟩ := kept
  refine ⟨by omega, ?_, ?_⟩
  · apply cached_heartbeat cached
    intro topicHash history found removed
    have maintained := dated_maintained young
    have length := maintained.length topicHash history found
    have last := maintained.slots topicHash history found _ messageId (History.at_of_mem_shift removed) rfl
    omega
  · obtain ⟨length, slots⟩ := dated_heartbeat young
    refine ⟨length, ?_⟩
    intro topicHash history found age other here same
    obtain ⟨younger, rfl, old⟩ := slots topicHash history found age other here
    have left := old same
    omega

/-- Other events only add to the newest slots. -/
theorem Kept.step (kept : Kept env messageId life before) (sound : before.roster.Sound) (beating : event ≠ .heartbeat)
    (stepped : before.step env event = some after) : Kept env messageId life after := by
  obtain ⟨bounded, cached, young⟩ := kept
  have tracked : Records.Tracked env (fun age other => other = messageId → age + life < env.config.historyLength)
      before.records after.records := by
    refine step_preserves (fun state => Records.Tracked env _ before.records state.records)
      (fun _ _ micro holds => holds.step micro.records beating) sound stepped ?_
    exact ⟨fun _ => le_rfl, young.length, fun topicHash history found age other here =>
      .inl (young.slots topicHash history found age other here)⟩
  refine ⟨bounded, ?_, tracked.length, ?_⟩
  · exact step_preserves (fun state => messageId ∈ state.messageCache)
      (fun _ _ micro => micro.records.cached beating) sound stepped cached
  · intro topicHash history found age other here same
    rcases tracked.slots topicHash history found age other here with old | ⟨rfl, -⟩
    · exact old same
    · omega

/-- What is kept survives as many heartbeats as it has left. -/
theorem Kept.run {later : List Event} {final : State R} (kept : Kept env messageId life state)
    (sound : state.roster.Sound) (run : Run (fun before event after => before.step env event = some after) state later final)
    (few : later.count .heartbeat ≤ life) : Kept env messageId (life - later.count .heartbeat) final := by
  have both : final.roster.Sound ∧
      (later.count .heartbeat ≤ life → Kept env messageId (life - later.count .heartbeat) final) := by
    refine run.preserves_history (fun events state => state.roster.Sound ∧
      (events.count .heartbeat ≤ life → Kept env messageId (life - events.count .heartbeat) state))
      ⟨sound, fun _ => kept⟩ ?_
    rintro events event before after ⟨sound, kept⟩ stepped
    refine ⟨sound_of_step sound stepped, ?_⟩
    intro few
    rw [List.count_append] at few ⊢
    by_cases beating : event = .heartbeat
    · subst beating
      obtain rfl := Option.some.inj stepped
      rw [List.count_singleton_self] at few ⊢
      have earlier := kept (by omega)
      have split : life - events.count .heartbeat = life - (events.count .heartbeat + 1) + 1 := by omega
      rw [split] at earlier
      exact earlier.heartbeat
    · rw [List.count_singleton, if_neg (by simpa using beating), Nat.add_zero] at few ⊢
      exact (kept few).step sound beating stepped
  exact both.2 few

end Life

section Alignment

/-- Everything in a history is cached, and all slots that hold an id have one age. -/
structure Aligned (env : Env R) (state : State R) : Prop where
  stored : state.records.Stored
  aged : ∃ age : MessageId → ℕ, state.records.Dated env fun slot messageId => slot = age messageId

/-- No id is broadcast that is still in the history of some topic. -/
def Fresh (before after : State R) : Prop :=
  ∀ messageId, before.broadcasts messageId < after.broadcasts messageId → ∀ topicHash topic,
    before.topics.lookup topicHash = some topic → messageId ∉ topic.history.ids

/-- Runs in which no id is accepted or published again while it is in a history. -/
abbrev FreshRuns (env : Env R) (lastSeqNo : Seqno) : List Event → State R → Prop :=
  Run (fun before event after => before.step env event = some after ∧ Fresh before after) (State.initial env lastSeqNo)

theorem stored_maintained (stored : state.records.Stored) : (state.maintained env).records.Stored := by
  have expired : (state.expired env).records.Stored := by
    intro topicHash history found age messageId here
    rw [State.expired, history_expireTopics] at found
    split_ifs at found
    exact cached_expired (stored topicHash history found age messageId here)
  have maintained : Chain env .decay (state.expired env) (state.maintained env) := chain_maintenance
  exact chain_preserves (fun state : State R => state.records.Stored) maintained
    (fun _ _ micro holds => holds.step micro.records (by simp)) expired

/-- An id that stays in one history cannot be in the oldest slot of another. -/
theorem Aligned.heartbeat (aligned : Aligned env state) : Aligned env (state.heartbeat env) := by
  obtain ⟨stored, age, dated⟩ := aligned
  have maintained := dated_maintained dated
  have shifted : ((state.maintained env).forTopics env shiftHistory).records.Stored := by
    intro topicHash history found slot messageId here
    rw [history_forTopics_shift] at found
    obtain ⟨earlier, lookup, rfl⟩ := Option.map_eq_some_iff.mp found
    obtain ⟨younger, rfl, there⟩ := History.at_shift here
    apply cached_forTopics_shift (stored_maintained stored topicHash earlier lookup younger messageId there)
    intro other history found removed
    have oldest := maintained.slots other history found _ messageId (History.at_of_mem_shift removed)
    have young := maintained.slots topicHash earlier lookup younger messageId there
    have inside := here.lt_length
    rw [History.length_shift, maintained.length topicHash earlier lookup] at inside
    have length := maintained.length other history found
    omega
  have cleared : Chain env .decay ((state.maintained env).forTopics env shiftHistory) (state.heartbeat env) :=
    chain_clearRefusals
  refine ⟨?_, fun messageId => age messageId + 1, ?_⟩
  · exact chain_preserves (fun state : State R => state.records.Stored) cleared
      (fun _ _ micro holds => holds.step micro.records (by simp)) shifted
  · obtain ⟨length, slots⟩ := dated_heartbeat dated
    refine ⟨length, ?_⟩
    intro topicHash history found slot messageId here
    obtain ⟨younger, rfl, same⟩ := slots topicHash history found slot messageId here
    rw [same]

/-- A broadcast of an id that is in no history gives it a new age. -/
theorem Aligned.step (aligned : Aligned env before) (sound : before.roster.Sound) (beating : event ≠ .heartbeat)
    (fresh : Fresh before after) (stepped : before.step env event = some after) : Aligned env after := by
  obtain ⟨stored, age, dated⟩ := aligned
  have tracked : Records.Tracked env (fun slot messageId => slot = age messageId ∧
      ∃ topicHash topic, before.topics.lookup topicHash = some topic ∧ messageId ∈ topic.history.ids)
      before.records after.records := by
    refine step_preserves (fun state => Records.Tracked env _ before.records state.records)
      (fun _ _ micro holds => holds.step micro.records beating) sound stepped ?_
    refine ⟨fun _ => le_rfl, dated.length, ?_⟩
    intro topicHash history found slot messageId here
    obtain ⟨topic, lookup, rfl⟩ := Option.map_eq_some_iff.mp found
    exact .inl ⟨dated.slots topicHash topic.history found slot messageId here, topicHash, topic, lookup,
      History.mem_ids_iff.mpr ⟨slot, here⟩⟩
  refine ⟨?_, fun messageId => if before.broadcasts messageId < after.broadcasts messageId then 0 else age messageId,
    tracked.length, ?_⟩
  · exact step_preserves (fun state => state.records.Stored)
      (fun _ _ micro holds => holds.step micro.records beating) sound stepped stored
  · intro topicHash history found slot messageId here
    rcases tracked.slots topicHash history found slot messageId here with ⟨same, place, topic, lookup, member⟩ | ⟨rfl, more⟩
    · have still : ¬ before.broadcasts messageId < after.broadcasts messageId :=
        fun more => fresh messageId more place topic lookup member
      exact same.trans (if_neg still).symm
    · rw [broadcasts_records, broadcasts_records] at more
      exact (if_pos more).symm

theorem aligned_of_runs (run : FreshRuns env lastSeqNo events state) : Aligned env state := by
  have both : state.roster.Sound ∧ Aligned env state := by
    refine run.preserves (fun state => state.roster.Sound ∧ Aligned env state) ⟨roster_initial.1, ?_⟩ ?_
    · refine ⟨?_, fun _ => 0, ?_, ?_⟩ <;> simp [records, State.initial, Records.Stored]
    · rintro event before after ⟨sound, aligned⟩ ⟨stepped, fresh⟩
      refine ⟨sound_of_step sound stepped, ?_⟩
      by_cases beating : event = .heartbeat
      · subst beating
        obtain rfl := Option.some.inj stepped
        exact aligned.heartbeat
      · exact aligned.step sound beating fresh stepped
  exact both.2

end Alignment

section Gossiping

/-- The state of a heartbeat in which `emit_gossip` starts. -/
def State.gossiping (env : Env R) (state : State R) : State R := (state.expired env).forTopics env (maintainTopic env)

/-- What is advertised while an event is handled was in the newest slots. -/
theorem advertised_of_quiet {old : ℕ → MessageId → Prop} (chain : Chain env .decay before after)
    (sound : before.roster.Sound) (dated : before.records.Dated env old) : ∃ extra, after.log = extra ++ before.log ∧
      ∀ peer topicHash messageIds, .queued peer (.ihave topicHash messageIds) ∈ extra → ∀ messageId ∈ messageIds,
        ∃ age < env.config.historyGossip, old age messageId := by
  have all : after.roster.Sound ∧ after.records.Dated env old ∧ ∃ extra, after.log = extra ++ before.log ∧
      ∀ peer topicHash messageIds, .queued peer (.ihave topicHash messageIds) ∈ extra → ∀ messageId ∈ messageIds,
        ∃ age < env.config.historyGossip, old age messageId := by
    refine chain_preserves (fun state : State R => state.roster.Sound ∧ state.records.Dated env old ∧
      ∃ extra, state.log = extra ++ before.log ∧ ∀ peer topicHash messageIds,
        .queued peer (.ihave topicHash messageIds) ∈ extra → ∀ messageId ∈ messageIds,
          ∃ age < env.config.historyGossip, old age messageId) chain ?_ ⟨sound, dated, [], rfl, by simp⟩
    rintro first second micro ⟨sound, dated, extra, log, recent⟩
    refine ⟨sound.step micro.roster, dated_of_quiet micro.chain dated, ?_⟩
    cases micro.logs sound with
    | quiet more logged calm =>
      refine ⟨more ++ extra, by rw [logged, log, List.append_assoc], ?_⟩
      intro peer topicHash messageIds member
      rcases List.mem_append.mp member with new | earlier
      · obtain ⟨other, impossible⟩ := calm peer _ new
        cases impossible
      · exact recent peer topicHash messageIds earlier
    | single told op queued logged =>
      refine ⟨.queued told op :: extra, by rw [logged, log, List.cons_append], ?_⟩
      intro peer topicHash messageIds member
      rcases List.mem_cons.mp member with new | earlier
      · obtain ⟨rfl, rfl⟩ := Observation.queued.inj new
        cases queued with
        | permitted permitted =>
          cases permitted with
          | ihave _ _ capable window =>
            intro messageId inside
            obtain ⟨topic, lookup, newest⟩ := window messageId inside
            obtain ⟨age, young, here⟩ := History.at_of_mem_get newest
            exact ⟨age, young, dated.slots topicHash topic.history (by simp [records, lookup]) age messageId here⟩
      · exact recent peer topicHash messageIds earlier
  exact all.2.2

/-- In every run in which no id is broadcast again while a history has it, and whose heartbeats advertise no more slots
than histories have: every id that a heartbeat advertises is cached while it is advertised and when the heartbeat shifts
the histories, and it stays cached, whatever happens next, until as many heartbeats later as histories are longer than
what is advertised of them the histories are shifted again. -/
theorem servable_of_runs (window : env.config.historyGossip ≤ env.config.historyLength)
    (run : FreshRuns env lastSeqNo events before) :
    ∃ extra, (before.maintained env).log = extra ++ (before.gossiping env).log ∧ ∀ peer topicHash messageIds,
      .queued peer (.ihave topicHash messageIds) ∈ extra → ∀ messageId ∈ messageIds,
        messageId ∈ (before.gossiping env).messageCache ∧ messageId ∈ (before.maintained env).messageCache ∧
        ∀ later final, Run (fun before event after => before.step env event = some after) (before.heartbeat env) later final →
          later.count .heartbeat < env.config.historyLength - env.config.historyGossip →
          messageId ∈ final.messageCache ∧ messageId ∈ (final.maintained env).messageCache := by
  obtain ⟨stored, age, dated⟩ := aligned_of_runs run
  have plain : Runs env lastSeqNo events before := run.mono fun _ _ _ taken => taken.1
  have sound := sound_of_runs plain
  have balancing : Chain env .decay (before.expired env) (before.gossiping env) :=
    chain_forTopics fun topicHash state => chain_maintainTopic
  have emitting : Chain env .decay (before.gossiping env) (before.maintained env) :=
    chain_forTopics fun topicHash state => chain_emitGossipFor
  -- Ages are looked up together with the cache, since an id is only in a history while it is cached.
  have known : before.records.Dated env fun slot messageId => slot = age messageId ∧ messageId ∈ before.messageCache :=
    ⟨dated.length, fun topicHash history found slot messageId here =>
      ⟨dated.slots topicHash history found slot messageId here, stored topicHash history found slot messageId here⟩⟩
  have gossipSound : (before.gossiping env).roster.Sound :=
    chain_preserves (fun state : State R => state.roster.Sound) balancing (fun _ _ micro sound => sound.step micro.roster)
      (sound_expired sound)
  obtain ⟨extra, log, recent⟩ :=
    advertised_of_quiet emitting gossipSound (dated_of_quiet balancing (dated_expired known))
  refine ⟨extra, log, ?_⟩
  intro peer topicHash messageIds queued messageId inside
  obtain ⟨slot, young, same, cached⟩ := recent peer topicHash messageIds queued messageId inside
  refine ⟨cached_of_quiet balancing (cached_expired cached), cached_maintained cached, ?_⟩
  intro later final continued few
  have kept : Kept env messageId (env.config.historyLength - env.config.historyGossip - 1 + 1) before := by
    refine ⟨by omega, cached, dated.length, ?_⟩
    intro place history found other candidate here same'
    have aged := dated.slots place history found other candidate here
    subst same'
    omega
  have beaten : Runs env lastSeqNo (events ++ [.heartbeat]) (before.heartbeat env) := plain.snoc rfl
  have survived := (kept.heartbeat.run (sound_of_runs beaten) continued (by omega)).cached
  exact ⟨survived, cached_maintained survived⟩

/-- The id that an effect broadcasts. -/
def Observation.broadcastId : Observation → Option MessageId
  | .broadcast _ _ messageId _ => some messageId
  | _ => none

/-- Only the ids that were broadcast need to be looked up in the topics. -/
theorem fresh_iff : Fresh before after ↔ ∀ messageId ∈ after.log.filterMap Observation.broadcastId,
    before.broadcasts messageId < after.broadcasts messageId →
      ∀ entry ∈ before.topics.entries, messageId ∉ entry.2.history.ids := by
  constructor
  · rintro fresh messageId - more ⟨topicHash, topic⟩ member
    exact fresh messageId more topicHash topic (AList.mem_lookup_iff.mpr member)
  · intro listed messageId more topicHash topic found
    refine listed messageId ?_ more ⟨topicHash, topic⟩ (AList.mem_lookup_iff.mp found)
    obtain ⟨observation, member, named⟩ := List.countP_pos_iff.mp (Nat.zero_lt_of_lt more)
    refine List.mem_filterMap.mpr ⟨observation, member, ?_⟩
    cases observation with
    | broadcast _ _ other _ => exact congrArg some (of_decide_eq_true named)
    | _ => cases named

instance (before after : State R) : Decidable (Fresh before after) := decidable_of_iff' _ fresh_iff

/-- A step that refuses to broadcast an id that a history still has. -/
def State.stepFresh (env : Env R) (state : State R) (event : Event) : Option (State R) :=
  (state.step env event).filter fun next => Fresh state next

theorem freshRuns_of_foldlM (followed : events.foldlM (stepFresh env) (State.initial env lastSeqNo) = some state) :
    FreshRuns env lastSeqNo events state := by
  refine (Run.of_foldlM followed).mono ?_
  intro event before after taken
  obtain ⟨stepped, fresh⟩ := Option.filter_eq_some_iff.mp taken
  exact ⟨stepped, of_decide_eq_true fresh⟩

/-- A mesh peer leaves the mesh, and a message is published that it therefore does not get. -/
def advertisingEvents : List Event :=
  meetingEvents ++ [.message 0 (pruning 60), .publishTopic [0x74] [0x68, 0x69]]

/-- What a heartbeat adds to the log begins with one id for the peer. -/
def advertisesOne (before : State Rational) : Bool :=
  match (before.maintained (sampleEnv false (10 ^ 6))).log with
  | .queued 0 (.ihave [0x74] [_]) :: rest => decide (rest = (before.gossiping (sampleEnv false (10 ^ 6))).log)
  | _ => false

theorem servable_of_runs_advertising : ∃ before messageIds messageId extra,
    FreshRuns (sampleEnv false (10 ^ 6)) 0 advertisingEvents before ∧
      (before.maintained (sampleEnv false (10 ^ 6))).log = extra ++ (before.gossiping (sampleEnv false (10 ^ 6))).log ∧
      .queued 0 (.ihave [0x74] messageIds) ∈ extra ∧ messageId ∈ messageIds ∧
      messageId ∈ (before.maintained (sampleEnv false (10 ^ 6))).messageCache := by
  have followed : (advertisingEvents.foldlM (stepFresh (sampleEnv false (10 ^ 6)))
      (State.initial (sampleEnv false (10 ^ 6)) 0)).map advertisesOne = some true := by
    decide +kernel
  obtain ⟨before, ran, observed⟩ := Option.map_eq_some_iff.mp followed
  have run := freshRuns_of_foldlM ran
  obtain ⟨extra, logged, served⟩ := servable_of_runs (by decide) run
  unfold advertisesOne at observed
  split at observed
  · next messageId rest log =>
    rw [log, of_decide_eq_true observed] at logged
    have emitted : [Observation.queued 0 (.ihave [0x74] [messageId])] ++ (before.gossiping (sampleEnv false (10 ^ 6))).log =
        extra ++ (before.gossiping (sampleEnv false (10 ^ 6))).log := logged
    obtain rfl := List.append_cancel_right emitted
    have queued := served 0 [0x74] [messageId] List.mem_cons_self messageId List.mem_cons_self
    refine ⟨before, [messageId], messageId, [.queued 0 (.ihave [0x74] [messageId])], run, ?_, List.mem_cons_self,
      List.mem_cons_self, queued.2.1⟩
    rw [log, of_decide_eq_true observed, List.singleton_append]
  · cases observed

end Gossiping

end Libp2p.Gossip
