import Libp2p.Protocol.Gossip.Records

/-! # At-most-once delivery

Every id that is delivered or published is dated by the second clock reading of its insertion into the duplicate
cache, and it stays in the queue of expirations until a reading that is not before its date plus the time the cache
keeps ids. A later delivery of the id therefore comes at least that much later, by the first reading of its insertion.
-/

namespace Libp2p.Gossip

open Library State

/-- The id that an effect dates, with the second reading of its insertion. -/
def Observation.dated : Observation → Option (MessageId × Time)
  | .delivered _ messageId _ _ later => some (messageId, later)
  | .published messageId _ _ later => some (messageId, later)
  | _ => none

/-- The id that an effect delivers, with the first reading of its insertion. -/
def Observation.delivery : Observation → Option (MessageId × Time)
  | .delivered _ messageId _ now _ => some (messageId, now)
  | _ => none

/-- An acceptance, with what it accepts and when. -/
def Observation.acceptance : Observation → Option (MessageId × Message × Time × Time)
  | .accepted _ messageId message now later => some (messageId, message, now, later)
  | _ => none

/-- A delivery, with what it delivers and when. -/
def Observation.arrival : Observation → Option (MessageId × Message × Time × Time)
  | .delivered _ messageId message now later => some (messageId, message, now, later)
  | _ => none

/-- The broadcast of a received message. -/
def Observation.relay : Observation → Option (MessageId × Message)
  | .broadcast _ (some _) messageId message => some (messageId, message)
  | _ => none

/-- Two effects on one id, newest first: the newer one delivers only after the older one has expired. -/
def Apart (ttl : Ttl) (newer older : Observation) : Prop :=
  ∀ messageId now later, newer.delivery = some (messageId, now) → older.dated = some (messageId, later) →
    later + ttl ≤ now

namespace Records

variable {R : Type} [Double R] {env : Env R} {event : Event} {before after : Records}

/-- Dates are remembered until they expire, and deliveries of one id are apart. -/
structure Punctual (env : Env R) (records : Records) : Prop where
  ttl : records.duplicateCache.cache.ttl = env.config.duplicateCacheTime
  kept : ∀ observation ∈ records.log, ∀ messageId later, observation.dated = some (messageId, later) →
    (later + env.config.duplicateCacheTime, messageId) ∈ records.duplicateCache.cache.expirations ∨
      later + env.config.duplicateCacheTime ≤ records.now env
  apart : records.log.Pairwise (Apart env.config.duplicateCacheTime)

/-- What an insertion removed has expired by its second reading. -/
theorem Punctual.kept_date (punctual : Punctual env before) {messageId : MessageId} {readings : ℕ}
    (forward : before.readings + 1 ≤ readings) {observation : Observation} (member : observation ∈ before.log)
    {dated : MessageId} {later : Time} (date : observation.dated = some (dated, later)) :
    (later + env.config.duplicateCacheTime, dated) ∈ (before.date env messageId).1.cache.expirations ∨
      later + env.config.duplicateCacheTime ≤ env.clock readings := by
  have ordered : before.now env ≤ before.later env := env.monotone (Nat.le_succ _)
  have final : before.later env ≤ env.clock readings := env.monotone forward
  rcases punctual.kept observation member dated later date with queued | expired
  · rcases DuplicateCache.queued_insert_or ordered queued with kept | expired
    · exact .inl kept
    · exact .inr (expired.trans final)
  · exact .inr ((expired.trans ordered).trans final)

/-- A new insertion finds only ids whose earlier dates have expired. -/
theorem Punctual.expired_of_fresh (punctual : Punctual env before) {messageId : MessageId}
    (fresh : (before.date env messageId).2 = true) {observation : Observation} (member : observation ∈ before.log)
    {later : Time} (date : observation.dated = some (messageId, later)) :
    later + env.config.duplicateCacheTime ≤ before.now env := by
  rcases punctual.kept observation member messageId later date with queued | expired
  · rcases TimeCache.mem_clearExpired_or (before.now env) queued with kept | expired
    · exact absurd (TimeCache.mem_map_of_queued kept) (DuplicateCache.insert_fresh_iff.mp fresh)
    · exact expired
  · exact expired

/-- The date of a new id is remembered. -/
theorem Punctual.kept_fresh (punctual : Punctual env before) {messageId : MessageId}
    (fresh : (before.date env messageId).2 = true) :
    (before.later env + env.config.duplicateCacheTime, messageId) ∈ (before.date env messageId).1.cache.expirations := by
  rw [← punctual.ttl]
  exact DuplicateCache.queued_insert fresh

/-- What delivers nothing is apart from everything. -/
theorem apart_of_silent {ttl : Ttl} {newer older : Observation} (silent : newer.delivery = none) :
    Apart ttl newer older := by
  intro messageId now later delivers
  rw [silent] at delivers
  cases delivers

theorem Punctual.step (punctual : Punctual env before) (step : Step env event before after) :
    Punctual env after := by
  have forward : ∀ readings, before.readings ≤ readings → before.now env ≤ env.clock readings :=
    fun readings le => env.monotone le
  have ⟨ttl, kept, apart⟩ := punctual
  cases step with
  | quiet readings later =>
    refine ⟨ttl, ?_, apart⟩
    intro observation member messageId date dated
    exact (kept observation member messageId date dated).imp_right fun expired => expired.trans (forward _ later)
  | queued peer message =>
    refine ⟨ttl, ?_, List.pairwise_cons.mpr ⟨fun _ _ => apart_of_silent rfl, apart⟩⟩
    intro observation member messageId date dated
    rcases List.mem_cons.mp member with rfl | earlier
    · cases dated
    · exact kept observation earlier messageId date dated
  | flushed => exact ⟨ttl, kept, apart⟩
  | served => exact ⟨ttl, kept, apart⟩
  | created => exact ⟨ttl, kept, apart⟩
  | aged => exact ⟨ttl, kept, apart⟩
  | expired topicHash =>
    refine ⟨ttl, ?_, apart⟩
    intro observation member messageId date dated
    exact (kept observation member messageId date dated).imp_right
      fun expired => expired.trans (forward _ (Nat.le_succ _))
  | dated messageId known =>
    refine ⟨DuplicateCache.insert_ttl.trans ttl, ?_, apart⟩
    intro observation member dated date found
    exact punctual.kept_date (Nat.le_succ _) member found
  | admitted source decoded entry valid topic fresh =>
    refine ⟨DuplicateCache.insert_ttl.trans ttl, ?_, ?_⟩
    · intro observation member dated date found
      simp only [List.mem_cons] at member
      rcases member with rfl | rfl | rfl | earlier
      · cases found
      · cases found
        exact .inl (punctual.kept_fresh fresh)
      · cases found
      · exact punctual.kept_date (by simp) earlier found
    · refine List.pairwise_cons.mpr ⟨fun _ _ => apart_of_silent rfl, List.pairwise_cons.mpr ⟨?_,
        List.pairwise_cons.mpr ⟨fun _ _ => apart_of_silent rfl, apart⟩⟩⟩
      intro older member messageId now later delivers dated
      rcases List.mem_cons.mp member with rfl | earlier
      · cases dated
      · cases delivers
        exact punctual.expired_of_fresh fresh earlier dated
  | @originated topicHash data message source made topic fresh =>
    have new : (before.date env (env.config.messageIdFn message)).2 = true := by
      refine DuplicateCache.insert_fresh_iff.mpr fun present => fresh ?_
      simpa [DuplicateCache.contains, TimeCache.contains] using TimeCache.mem_of_mem_clearExpired present
    refine ⟨DuplicateCache.insert_ttl.trans ttl, ?_, ?_⟩
    · intro observation member dated date found
      simp only [List.mem_cons] at member
      rcases member with rfl | rfl | earlier
      · cases found
      · cases found
        exact .inl (punctual.kept_fresh new)
      · exact punctual.kept_date (Nat.le_succ _) earlier found
    · exact List.pairwise_cons.mpr ⟨fun _ _ => apart_of_silent rfl,
        List.pairwise_cons.mpr ⟨fun _ _ => apart_of_silent rfl, apart⟩⟩

/-- Acceptances, deliveries and relays are the same sequence. -/
structure Once (records : Records) : Prop where
  arrivals : records.log.filterMap Observation.arrival = records.log.filterMap Observation.acceptance
  relays : records.log.filterMap Observation.relay =
    (records.log.filterMap Observation.acceptance).map fun accepted => (accepted.1, accepted.2.1)
  ordered : ∀ accepted ∈ records.log.filterMap Observation.acceptance, accepted.2.2.1 ≤ accepted.2.2.2

theorem Once.step (once : Once before) (step : Step env event before after) : Once after := by
  have ⟨arrivals, relays, ordered⟩ := once
  cases step with
  | queued peer message => exact ⟨arrivals, relays, ordered⟩
  | originated source made topic fresh => exact ⟨arrivals, relays, ordered⟩
  | admitted source decoded entry valid topic fresh =>
    have forward : before.now env ≤ before.later env := env.monotone (Nat.le_succ _)
    refine ⟨?_, ?_, ?_⟩
    · exact congrArg (List.cons _) arrivals
    · exact congrArg (List.cons _) relays
    · simp only [Observation.acceptance, List.filterMap_cons, List.mem_cons]
      rintro accepted (rfl | earlier)
      · exact forward
      · exact ordered accepted earlier
  | _ => exact ⟨arrivals, relays, ordered⟩

end Records

variable {R : Type} [Double R] {env : Env R} {lastSeqNo : Seqno} {events : List Event} {state : State R}

/-- What every step of the records keeps holds in every run. -/
theorem records_of_runs (invariant : Records → Prop) (initial : invariant (State.initial env lastSeqNo).records)
    (kept : ∀ event before after, Records.Step env event before after → invariant before → invariant after)
    (run : Runs env lastSeqNo events state) : invariant state.records := by
  have both : state.roster.Sound ∧ invariant state.records := by
    refine run.preserves (fun state => state.roster.Sound ∧ invariant state.records) ⟨roster_initial.1, initial⟩ ?_
    rintro event before after ⟨sound, holds⟩ stepped
    refine ⟨sound_of_step sound stepped, step_preserves (fun state => invariant state.records) ?_ sound stepped holds⟩
    exact fun before after micro => kept event _ _ micro.records
  exact both.2

/-- The records keep every effect that an effect on messages may be read from. -/
theorem filterMap_records {α : Type} {read : Observation → Option α}
    (message : ∀ observation, observation.isMessage = false → read observation = none) :
    state.records.log.filterMap read = state.log.filterMap read := by
  simp only [records, List.filterMap_filter]
  congr 1
  funext observation
  split_ifs with isMessage
  · rfl
  · exact (message observation (by simpa using isMessage)).symm

/-- In every run, a delivery comes at least the duplicate cache time after every earlier delivery or publication of
the same id, and every accepted message is delivered once and relayed once. -/
theorem delivery_of_runs (run : Runs env lastSeqNo events state) :
    (state.log.Pairwise fun newer older => ∀ topicHash messageId message now later,
      newer = .delivered topicHash messageId message now later → ∀ topicHash' message' now' later',
      (older = .delivered topicHash' messageId message' now' later' ∨
        older = .published messageId message' now' later') →
      later' + env.config.duplicateCacheTime ≤ now) ∧
    state.log.filterMap Observation.arrival = state.log.filterMap Observation.acceptance ∧
    (state.log.filterMap Observation.relay =
      (state.log.filterMap Observation.acceptance).map fun accepted => (accepted.1, accepted.2.1)) ∧
    ∀ accepted ∈ state.log.filterMap Observation.acceptance, accepted.2.2.1 ≤ accepted.2.2.2 := by
  have punctual : state.records.Punctual env := by
    refine records_of_runs (Records.Punctual env) ⟨rfl, ?_, ?_⟩ (fun _ _ _ step holds => holds.step step) run
    · simp [records, State.initial]
    · simp [records, State.initial]
  have once : state.records.Once := by
    refine records_of_runs Records.Once ⟨?_, ?_, ?_⟩ (fun _ _ _ step holds => holds.step step) run <;>
      simp [records, State.initial]
  obtain ⟨arrivals, relays, ordered⟩ := once
  have acceptances : state.records.log.filterMap Observation.acceptance = state.log.filterMap Observation.acceptance :=
    filterMap_records fun observation => by cases observation <;> simp [Observation.isMessage, Observation.acceptance]
  rw [acceptances] at arrivals relays ordered
  refine ⟨?_, ?_, ?_, ordered⟩
  · have apart := List.pairwise_filter.mp punctual.apart
    refine apart.imp ?_
    rintro newer older holds topicHash messageId message now later rfl topicHash' message' now' later' (rfl | rfl)
    · exact holds rfl rfl messageId now later' rfl rfl
    · exact holds rfl rfl messageId now later' rfl rfl
  · rw [← arrivals]
    refine (filterMap_records ?_).symm
    intro observation
    cases observation <;> simp [Observation.isMessage, Observation.arrival]
  · rw [← relays]
    refine (filterMap_records ?_).symm
    intro observation
    cases observation <;> simp [Observation.isMessage, Observation.relay]

/-- One message arrives three times: the second copy is a duplicate, at the third its id has expired. -/
def repeatedEvents : List Event :=
  let frame := Pb.RPC.encode { publish := [sampleMessage 2 7 [0x74] [0x68, 0x69]] }
  [.subscribe [0x74], .connected (samplePeerId 1) false, .handle (samplePeerId 1) kProtocolGossipsubv1_1,
    .message 0 frame, .message 0 frame, .message 0 frame]

theorem delivery_of_runs_repeated : ∃ state, Runs (sampleEnv true (10 ^ 10)) 0 repeatedEvents state ∧
    (state.log.filterMap Observation.arrival).length = 2 ∧
    (state.log.Pairwise fun newer older => ∀ topicHash messageId message now later,
      newer = .delivered topicHash messageId message now later → ∀ topicHash' message' now' later',
      (older = .delivered topicHash' messageId message' now' later' ∨
        older = .published messageId message' now' later') →
      later' + 60 * 10 ^ 9 ≤ now) := by
  have followed : (repeatedEvents.foldlM (State.step (sampleEnv true (10 ^ 10)))
      (State.initial (sampleEnv true (10 ^ 10)) 0)).map
      (fun state => (state.log.filterMap Observation.arrival).length) = some 2 := by
    decide +kernel
  obtain ⟨state, ran, observed⟩ := Option.map_eq_some_iff.mp followed
  have run : Runs (sampleEnv true (10 ^ 10)) 0 repeatedEvents state := Run.of_foldlM ran
  exact ⟨state, run, observed, (delivery_of_runs run).1⟩

end Libp2p.Gossip
