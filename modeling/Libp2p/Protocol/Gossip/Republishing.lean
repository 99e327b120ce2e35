import Libp2p.Protocol.Gossip.Delivery
import Libp2p.Protocol.Gossip.Requests

/-! # Publishing an id again

A message that is received purges the duplicate cache before its id is looked up. A message that is published does not:
its id is looked up as the last insertion left the cache, so that an id that has expired suppresses a publication until
something else has been inserted.
-/

namespace Libp2p.Gossip

open Library State

namespace Records

variable {R : Type} [Double R] {env : Env R} {event : Event} {before after : Records}

/-- Whatever is queued in the duplicate cache was dated by a delivery or a publication. -/
def Grounded (records : Records) : Prop :=
  ∀ time messageId, (time, messageId) ∈ records.duplicateCache.cache.expirations →
    ∃ observation ∈ records.log, ∃ later, observation.dated = some (messageId, later) ∧
      time = later + records.duplicateCache.cache.ttl

theorem Grounded.onward (grounded : Grounded before) (cache : after.duplicateCache = before.duplicateCache)
    (log : before.log ⊆ after.log) : Grounded after := by
  intro time messageId queued
  rw [cache] at queued ⊢
  obtain ⟨observation, member, dated⟩ := grounded time messageId queued
  exact ⟨observation, log member, dated⟩

/-- An insertion of an id keeps the queue grounded, if a new id is dated by its second reading. -/
theorem Grounded.insert (grounded : Grounded before) {inserted : MessageId}
    (cache : after.duplicateCache = (before.date env inserted).1) (log : before.log ⊆ after.log)
    (new : (before.date env inserted).2 = true → ∃ observation ∈ after.log,
      observation.dated = some (inserted, before.later env)) : Grounded after := by
  intro time messageId queued
  have ttl : after.duplicateCache.cache.ttl = before.duplicateCache.cache.ttl := by
    rw [cache]
    exact DuplicateCache.insert_ttl
  rw [cache] at queued
  rw [ttl]
  rcases DuplicateCache.queued_of_insert queued with kept | ⟨fresh, rfl, rfl⟩
  · obtain ⟨observation, member, dated⟩ := grounded time messageId kept
    exact ⟨observation, log member, dated⟩
  · obtain ⟨observation, member, dated⟩ := new fresh
    exact ⟨observation, member, _, dated, rfl⟩

theorem Grounded.step (grounded : Grounded before) (step : Step env event before after) : Grounded after := by
  cases step with
  | quiet readings later => exact grounded.onward rfl (List.Subset.refl _)
  | queued peer message => exact grounded.onward rfl (List.subset_cons_self _ _)
  | flushed => exact grounded.onward rfl (List.Subset.refl _)
  | served => exact grounded.onward rfl (List.Subset.refl _)
  | created => exact grounded.onward rfl (List.Subset.refl _)
  | aged => exact grounded.onward rfl (List.Subset.refl _)
  | expired => exact grounded.onward rfl (List.Subset.refl _)
  | dated messageId known =>
    exact grounded.insert rfl (List.Subset.refl _) fun fresh => absurd (known.symm.trans fresh) Bool.false_ne_true
  | admitted source decoded entry valid topic fresh =>
    refine grounded.insert rfl (fun _ member => by simp [member]) fun _ => ?_
    exact ⟨_, List.mem_cons_of_mem _ List.mem_cons_self, rfl⟩
  | originated source made topic fresh =>
    refine grounded.insert rfl (fun _ member => by simp [member]) fun _ => ?_
    exact ⟨_, List.mem_cons_of_mem _ List.mem_cons_self, rfl⟩

end Records

variable {R : Type} [Double R] {env : Env R} {lastSeqNo : Seqno} {events : List Event} {state result : State R}
  {topicHash : TopicHash}

/-- A publication is broadcast exactly if the duplicate cache does not hold its id. -/
theorem broadcasts_publishTopic (data : Bytes) :
    (.broadcast topicHash none (env.config.messageIdFn (state.createMessage env topicHash data).1)
        (state.createMessage env topicHash data).1 ∈ state.gained (state.publishTopic env topicHash data)) ↔
      ¬ state.duplicateCache.contains (env.config.messageIdFn (state.createMessage env topicHash data).1) := by
  obtain ⟨message, lastSeqNo, made⟩ := @createMessage_eq R _ env topicHash state data
  unfold publishTopic
  rw [made]
  dsimp only
  split_ifs with duplicate
  · have silent : state.gained { state with lastSeqNo } = [] := gained_same rfl
    rw [silent]
    exact iff_of_false List.not_mem_nil (not_not.mpr duplicate)
  · have log : (State.originate env topicHash message { state with lastSeqNo }).log =
        [.broadcast topicHash none (env.config.messageIdFn message) message,
          .published (env.config.messageIdFn message) message (state.now env) (state.tick.now env)] ++ state.log := by
      rw [originate_eq]
      rfl
    obtain ⟨-, more, spread, -⟩ := @handed_spread R _ env (State.originate env topicHash message { state with lastSeqNo })
      topicHash (env.config.messageIdFn message) message none
    rw [log, ← List.append_assoc] at spread
    rw [gained_append spread]
    exact iff_of_true (by simp) duplicate

/-- The id of a message that is being published was dated so recently that the duplicate cache should hold it. -/
def State.Recent (env : Env R) (messageId : MessageId) (state : State R) : Prop :=
  ∃ observation ∈ state.log, ∃ later, observation.dated = some (messageId, later) ∧
    state.now env < later + env.config.duplicateCacheTime

instance {messageId : MessageId} : Decidable (state.Recent env messageId) :=
  decidable_of_iff ((state.log.filterMap Observation.dated).any fun date =>
      date.1 = messageId && state.now env < date.2 + env.config.duplicateCacheTime) (by
    simp only [List.any_eq_true, List.mem_filterMap, Bool.and_eq_true, decide_eq_true_eq]
    constructor
    · rintro ⟨⟨dated, later⟩, ⟨observation, member, found⟩, rfl, recent⟩
      exact ⟨observation, member, later, found, recent⟩
    · rintro ⟨observation, member, later, found, recent⟩
      exact ⟨(messageId, later), ⟨observation, member, found⟩, rfl, recent⟩)

/-- In every run, either overload of `publish` broadcasts its message unless the id was accepted or published later than
`duplicate_cache_time` ago, exactly if the duplicate cache holds no entry of the id that has expired. -/
theorem publish_unless_recent_iff (run : Runs env lastSeqNo events state) (data : Bytes)
    (published : result = state.publish env topicHash data ∨ result = state.publishTopic env topicHash data) :
    let message := (state.createMessage env topicHash data).1
    let messageId := env.config.messageIdFn message
    (¬ state.Recent env messageId → .broadcast topicHash none messageId message ∈ state.gained result) ↔
      ∀ time, (time, messageId) ∈ state.duplicateCache.cache.expirations → state.now env < time := by
  have punctual : state.records.Punctual env := by
    refine records_of_runs (Records.Punctual env) ⟨rfl, ?_, ?_⟩ (fun _ _ _ step holds => holds.step step) run
    · simp [records, State.initial]
    · simp [records, State.initial]
  have grounded : state.records.Grounded := by
    refine records_of_runs Records.Grounded ?_ (fun _ _ _ step holds => holds.step step) run
    intro time messageId queued
    cases queued
  dsimp only
  set message := (state.createMessage env topicHash data).1
  set messageId := env.config.messageIdFn message
  have broadcast : .broadcast topicHash none messageId message ∈ state.gained result ↔
      ¬ state.duplicateCache.contains messageId := by
    rcases published with rfl | rfl
    · unfold publish
      rw [getOrCreateTopic_publishOnly]
      split_ifs
      · exact broadcasts_publishTopic data
      · have same : ((state.createTopic env topicHash true).createMessage env topicHash data).1 = message := by
          simp only [message]
          unfold createMessage
          cases env.config.messageAuthenticity <;> rfl
        have created := @broadcasts_publishTopic R _ env (state.createTopic env topicHash true) topicHash data
        rw [same] at created
        exact created
    · exact broadcasts_publishTopic data
  have present : state.duplicateCache.contains messageId = true ↔
      ∃ time, (time, messageId) ∈ state.duplicateCache.cache.expirations := by
    rw [← TimeCache.mem_map_iff_queued]
    simp [DuplicateCache.contains, TimeCache.contains]
  rw [broadcast, present]
  constructor
  · intro unsuppressed time queued
    by_contra expired
    refine unsuppressed (fun recent => ?_) ⟨time, queued⟩
    obtain ⟨observation, member, later, dated, recent⟩ := recent
    have recorded : observation ∈ state.records.log := by
      refine List.mem_filter.mpr ⟨member, ?_⟩
      cases observation <;> first | rfl | cases dated
    rcases punctual.kept observation recorded messageId later dated with kept | past
    · exact expired (TimeCache.queued_unique queued kept ▸ recent)
    · exact absurd recent (not_lt.mpr past)
  · rintro fresh old ⟨time, queued⟩
    obtain ⟨observation, member, later, dated, expires⟩ := grounded time messageId queued
    rw [punctual.ttl] at expires
    exact old ⟨observation, (List.mem_filter.mp member).1, later, dated, expires ▸ fresh time queued⟩

section Samples

/-- A node without signatures whose messages are known by their data. -/
def contentEnv : Env Rational :=
  { sampleEnv true (10 ^ 11) with
    config := { Config.default true with messageIdFn := Message.data, messageAuthenticity := .anonymous } }

/-- A message with other data is published after the first one. -/
theorem publish_unless_recent_other : ∃ state, Runs contentEnv 0 [.publish [0x74] [0x68, 0x69]] state ∧
    ¬ state.Recent contentEnv [0x01] ∧
    .broadcast [0x74] none [0x01] { data := [0x01], topic := [0x74] } ∈
      state.gained (state.publish contentEnv [0x74] [0x01]) := by
  have followed : (([.publish [0x74] [0x68, 0x69]] : List Event).foldlM (State.step contentEnv)
      (State.initial contentEnv 0)).map (fun state => decide (¬ state.Recent contentEnv [0x01]) &&
        state.duplicateCache.cache.expirations.all fun entry => entry.2 ≠ [0x01]) = some true := by
    decide
  obtain ⟨state, ran, observed⟩ := Option.map_eq_some_iff.mp followed
  simp only [Bool.and_eq_true, List.all_eq_true, decide_eq_true_eq] at observed
  obtain ⟨old, unqueued⟩ := observed
  have run : Runs contentEnv 0 [.publish [0x74] [0x68, 0x69]] state := Run.of_foldlM ran
  refine ⟨state, run, old, (publish_unless_recent_iff run [0x01] (.inl rfl)).mpr (fun time queued => ?_) old⟩
  exact absurd rfl (unqueued _ queued)

/-- The same data are not published again, although their only publication has long expired. -/
theorem stale_id_suppresses : ∃ state, Runs contentEnv 0 [.publish [0x74] [0x68, 0x69]] state ∧
    ¬ state.Recent contentEnv [0x68, 0x69] ∧
    (state.createMessage contentEnv [0x74] [0x68, 0x69]).1 = { data := [0x68, 0x69], topic := [0x74] } ∧
    .broadcast [0x74] none [0x68, 0x69] { data := [0x68, 0x69], topic := [0x74] } ∉
      state.gained (state.publish contentEnv [0x74] [0x68, 0x69]) := by
  have followed : (([.publish [0x74] [0x68, 0x69]] : List Event).foldlM (State.step contentEnv)
      (State.initial contentEnv 0)).map (fun state => decide (¬ state.Recent contentEnv [0x68, 0x69]) &&
        decide ((state.createMessage contentEnv [0x74] [0x68, 0x69]).1 = { data := [0x68, 0x69], topic := [0x74] }) &&
        decide (.broadcast [0x74] none [0x68, 0x69] { data := [0x68, 0x69], topic := [0x74] } ∉
          state.gained (state.publish contentEnv [0x74] [0x68, 0x69]))) = some true := by
    decide
  obtain ⟨state, ran, observed⟩ := Option.map_eq_some_iff.mp followed
  simp only [Bool.and_eq_true, decide_eq_true_eq] at observed
  obtain ⟨⟨old, made⟩, unsent⟩ := observed
  exact ⟨state, Run.of_foldlM ran, old, made, unsent⟩

end Samples

end Libp2p.Gossip
