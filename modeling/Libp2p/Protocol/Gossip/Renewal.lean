import Libp2p.Protocol.Gossip.Regrafting
import Mathlib.Data.UInt

/-! # The backoff that a prune asks for

A received backoff is an unsigned number of seconds. The code reads it as a signed duration, divides it, adds the slack
as an unsigned count and cuts the result to the wheel. Below `2 ^ 63` seconds that is what the sender asked for, up to the
configured backoff. Above, the duration is negative, and the slots are those of the configured backoff, or nearly none.
-/

namespace Libp2p.Gossip

open Library State

variable {R : Type} [Double R] {env : Env R} {event : Event} {lastSeqNo : Seqno} {events : List Event}
  {start state : State R} {topicHash : TopicHash} {peer : PeerPtr} {backoff smaller : UInt64}

/-- A prune for a topic that asks for a backoff. -/
def Pb.ControlPrune.asking (topicHash : TopicHash) (backoff : UInt64) : Pb.ControlPrune :=
  { topicId := some topicHash, backoff := some backoff }

/-- The slots that remain once a prune with the backoff is handled. -/
def State.renewed (env : Env R) (state : State R) (topicHash : TopicHash) (peer : PeerPtr) (backoff : UInt64) : ℕ :=
  (state.onPrune env peer (.asking topicHash backoff)).remaining topicHash peer

/-- What remains is the pause that was asked for, unless more remained before, and less is never gained by asking for
more. -/
structure Applied (env : Env R) (state : State R) (topicHash : TopicHash) (peer : PeerPtr) (backoff : UInt64) : Prop where
  raised : (state.renewed env topicHash peer backoff : ℤ) =
    max (state.remaining topicHash peer : ℤ) (env.config.pause backoff.toNat)
  monotone : ∀ smaller ≤ backoff, state.renewed env topicHash peer smaller ≤ state.renewed env topicHash peer backoff

/-- The heartbeats of the configured backoff. -/
def Config.beats (config : Config R) : ℤ := config.pruneBackoff / config.heartbeatInterval

/-- The heartbeats by which the duration of a backoff of at least `2 ^ 63` seconds is negative. -/
def Config.deficit (config : Config R) (backoff : UInt64) : ℤ := (2 ^ 64 - backoff.toNat) / config.heartbeatInterval

/-- The slots of a wheel fit into a signed count, and the duration is positive, or its slots wrap around to more than
the wheel has, or there is nothing to wrap, or the peer rests as long as it can. -/
def Config.Unwrapped (config : Config R) (previous : ℕ) (backoff : UInt64) : Prop :=
  config.beats + config.backoffSlack + 1 < 2 ^ 63 ∧
    (backoff.toNat < 2 ^ 63 ∨ config.backoffSlack < config.deficit backoff ∨
      config.beats = 0 ∧ config.deficit backoff = 0 ∨ previous = config.beats + config.backoffSlack)

/-- A configuration with which a topic can be created: heartbeats take time, the backoff is a number of seconds that is
not negative, and a vector can hold the slots of a wheel. -/
structure Config.Allocatable (config : Config R) : Prop where
  interval : (1 : ℤ) ≤ config.heartbeatInterval
  backoff : 0 ≤ config.pruneBackoff ∧ config.pruneBackoff < 2 ^ 63
  round : (TopicBackoff.new config).round < 2 ^ 63

section Slots

variable {R : Type} {config : Config R}

theorem beats_eq (allocatable : config.Allocatable) :
    config.beats = config.pruneBackoff.tdiv config.heartbeatInterval ∧ 0 ≤ config.beats ∧ config.beats < 2 ^ 63 := by
  obtain ⟨interval, ⟨nonneg, bound⟩, -⟩ := allocatable
  refine ⟨(Int.tdiv_eq_ediv_of_nonneg nonneg).symm, Int.ediv_nonneg nonneg (by omega), ?_⟩
  exact (Int.ediv_le_self _ nonneg).trans_lt bound

theorem round_new :
    (TopicBackoff.new config).round = backoffSlots config config.pruneBackoff (config.backoffSlack + 1) :=
  List.length_replicate

/-- The slots of a wheel are the configured ones and the current one, unless they are so many that the wheel is short. -/
theorem round_cases (allocatable : config.Allocatable) :
    ((TopicBackoff.new config).round : ℤ) = config.beats + config.backoffSlack + 1 ∨
      2 ^ 63 ≤ (config.backoffSlack : ℤ) ∧ ¬ config.beats + config.backoffSlack + 1 < 2 ^ 63 := by
  obtain ⟨same, nonneg, bound⟩ := beats_eq allocatable
  have allocated := allocatable.round
  have round : ((TopicBackoff.new config).round : ℤ) = (config.beats + config.backoffSlack + 1) % 2 ^ 64 := by
    rw [round_new, backoffSlots, Int.toNat_of_nonneg (Int.emod_nonneg _ (by decide)), same]
    push_cast
    rw [add_assoc]
  by_cases fits : config.beats + config.backoffSlack + 1 < 2 ^ 64
  · rw [Int.emod_eq_of_lt (by omega) fits] at round
    exact .inl round
  · exact .inr ⟨by omega, by omega⟩

/-- A backoff of at least `2 ^ 63` seconds asks for no less than the configured one. -/
theorem pause_of_large (allocatable : config.Allocatable) (large : 2 ^ 63 ≤ backoff.toNat) :
    config.pause backoff.toNat = config.beats + config.backoffSlack := by
  obtain ⟨same, -, -⟩ := beats_eq allocatable
  obtain ⟨interval, ⟨nonneg, bound⟩, -⟩ := allocatable
  have more : config.pruneBackoff.tdiv config.heartbeatInterval ≤ (backoff.toNat : ℤ).tdiv config.heartbeatInterval := by
    rw [Int.tdiv_eq_ediv_of_nonneg nonneg, Int.tdiv_eq_ediv_of_nonneg (Int.natCast_nonneg _)]
    exact Int.ediv_le_ediv (by omega) (bound.le.trans (by exact_mod_cast large))
  unfold Config.pause
  rw [min_eq_right more, same]

theorem pause_mono (allocatable : config.Allocatable) (less : smaller ≤ backoff) :
    config.pause smaller.toNat ≤ config.pause backoff.toNat := by
  have le : smaller.toNat ≤ backoff.toNat := less
  have quotient : (smaller.toNat : ℤ).tdiv config.heartbeatInterval ≤ (backoff.toNat : ℤ).tdiv config.heartbeatInterval := by
    rw [Int.tdiv_eq_ediv_of_nonneg (Int.natCast_nonneg _), Int.tdiv_eq_ediv_of_nonneg (Int.natCast_nonneg _)]
    exact Int.ediv_le_ediv (by have := allocatable.interval; omega) (by omega)
  unfold Config.pause
  exact add_le_add_left (min_le_min_right _ quotient) _

/-- The slots of a backoff that fits into a signed count are not cut short. -/
theorem slots_of_small (allocatable : config.Allocatable) (fits : config.beats + config.backoffSlack + 1 < 2 ^ 63)
    (small : backoff.toNat < 2 ^ 63) :
    (backoffSlots config backoff.toInt64.toInt config.backoffSlack : ℤ) =
      (backoff.toNat : ℤ).tdiv config.heartbeatInterval + config.backoffSlack := by
  obtain ⟨-, nonneg, -⟩ := beats_eq allocatable
  have quotient : (backoff.toNat : ℤ).tdiv config.heartbeatInterval = backoff.toNat / config.heartbeatInterval :=
    Int.tdiv_eq_ediv_of_nonneg (Int.natCast_nonneg _)
  have bound : (backoff.toNat : ℤ) / config.heartbeatInterval ≤ backoff.toNat := Int.ediv_le_self _ (Int.natCast_nonneg _)
  have positive : 0 ≤ (backoff.toNat : ℤ) / config.heartbeatInterval :=
    Int.ediv_nonneg (Int.natCast_nonneg _) (by have := allocatable.interval; omega)
  unfold backoffSlots
  rw [toInt_toInt64, if_pos small, quotient, Int.toNat_of_nonneg (Int.emod_nonneg _ (by decide)),
    Int.emod_eq_of_lt (by omega) (by omega)]

theorem deficit_range (allocatable : config.Allocatable) (large : 2 ^ 63 ≤ backoff.toNat) :
    0 ≤ config.deficit backoff ∧ config.deficit backoff ≤ 2 ^ 63 := by
  have range := backoff.toNat_lt
  have positive : (0 : ℤ) ≤ 2 ^ 64 - backoff.toNat := by omega
  exact ⟨Int.ediv_nonneg positive (by have := allocatable.interval; omega),
    (Int.ediv_le_self _ positive).trans (by omega)⟩

/-- The slots of a larger one are short of the slack by its deficit, and wrap around where the slack does not cover it. -/
theorem slots_of_large (allocatable : config.Allocatable) (fits : config.beats + config.backoffSlack + 1 < 2 ^ 63)
    (large : 2 ^ 63 ≤ backoff.toNat) :
    (backoffSlots config backoff.toInt64.toInt config.backoffSlack : ℤ) =
      if config.backoffSlack < config.deficit backoff then config.backoffSlack - config.deficit backoff + 2 ^ 64
      else config.backoffSlack - config.deficit backoff := by
  obtain ⟨-, nonneg, -⟩ := beats_eq allocatable
  have range := backoff.toNat_lt
  have positive : (0 : ℤ) ≤ 2 ^ 64 - backoff.toNat := by omega
  have quotient : (backoff.toNat - 2 ^ 64 : ℤ).tdiv config.heartbeatInterval = - config.deficit backoff := by
    rw [← neg_sub, Int.neg_tdiv, Int.tdiv_eq_ediv_of_nonneg positive]
    rfl
  obtain ⟨least, most⟩ := deficit_range allocatable large
  unfold backoffSlots
  rw [toInt_toInt64, if_neg (by omega), quotient, Int.toNat_of_nonneg (Int.emod_nonneg _ (by decide))]
  split_ifs with short
  · rw [← Int.add_emod_right, Int.emod_eq_of_lt (by omega) (by omega)]
    omega
  · rw [Int.emod_eq_of_lt (by omega) (by omega)]
    omega

end Slots

section Renewal

/-- A handled prune raises what remains to its slots, as far as the wheel goes. -/
theorem renewed_eq (sane : Sane env state) (present : topicHash ∈ state.topics) :
    state.renewed env topicHash peer backoff = max (state.remaining topicHash peer)
      (min (backoffSlots env.config backoff.toInt64.toInt env.config.backoffSlack)
        ((TopicBackoff.new env.config).round - 1)) := by
  obtain ⟨topic, found⟩ := UnorderedMap.exists_lookup_of_mem present
  have wheel : state.backoffs topicHash = some topic.backoff := by
    rw [State.backoffs, found]
    rfl
  have round : topic.backoff.round = (TopicBackoff.new env.config).round := by
    rw [(sane.wheeled topicHash _ wheel).2, round_new]
  have updated : (state.onPrune env peer (.asking topicHash backoff)).backoffs topicHash =
      some (topic.backoff.update peer (backoffSlots env.config backoff.toInt64.toInt env.config.backoffSlack)) := by
    unfold onPrune
    rw [backoffs_removePeerFromMesh, if_pos (.inl rfl), Pb.ControlPrune.asking, backoffs_updateBackoff]
    simp only [Option.getD_some, if_true, wheel, Option.map_some, State.pruneBackoff]
  rw [State.renewed, State.remaining, updated, Option.map_some, Option.getD_some, TopicBackoff.get_update, if_pos rfl,
    round, State.remaining, wheel, Option.map_some, Option.getD_some]

/-- What remains of a backoff is less than the round of the wheel. -/
theorem remaining_le_round (sane : Sane env state) :
    state.remaining topicHash peer ≤ (TopicBackoff.new env.config).round - 1 := by
  unfold State.remaining
  cases found : state.backoffs topicHash with
  | none => exact Nat.zero_le _
  | some wheel =>
    obtain ⟨sound, round⟩ := sane.wheeled topicHash wheel found
    have bound : wheel.get peer ≤ wheel.round - 1 := TopicBackoff.get_le sound
    rwa [round, ← round_new] at bound

/-- No prune gives more than a whole turn of the wheel. -/
theorem renewed_le_round (sane : Sane env state) (present : topicHash ∈ state.topics) :
    state.renewed env topicHash peer backoff ≤ (TopicBackoff.new env.config).round - 1 := by
  rw [renewed_eq sane present]
  exact max_le (remaining_le_round sane) (min_le_right _ _)

/-- Of a wheel that did not wrap, a duration that is positive gives its pause. -/
theorem raised_of_small (sane : Sane env state) (allocatable : env.config.Allocatable)
    (present : topicHash ∈ state.topics) (fits : env.config.beats + env.config.backoffSlack + 1 < 2 ^ 63)
    (small : backoff.toNat < 2 ^ 63) : (state.renewed env topicHash peer backoff : ℤ) =
      max (state.remaining topicHash peer : ℤ) (env.config.pause backoff.toNat) := by
  obtain ⟨same, nonneg, -⟩ := beats_eq allocatable
  have round := (round_cases allocatable).resolve_right fun wrapped => wrapped.2 fits
  have slots := slots_of_small allocatable fits small
  rw [renewed_eq sane present, Config.pause, ← same]
  push_cast
  omega

/-- Of a wheel that did not wrap, a negative duration gives its pause exactly in the listed cases. -/
theorem raised_of_large (sane : Sane env state) (allocatable : env.config.Allocatable)
    (present : topicHash ∈ state.topics) (fits : env.config.beats + env.config.backoffSlack + 1 < 2 ^ 63)
    (large : 2 ^ 63 ≤ backoff.toNat) : (state.renewed env topicHash peer backoff : ℤ) =
      max (state.remaining topicHash peer : ℤ) (env.config.pause backoff.toNat) ↔
        env.config.backoffSlack < env.config.deficit backoff ∨
          env.config.beats = 0 ∧ env.config.deficit backoff = 0 ∨
            (state.remaining topicHash peer : ℤ) = env.config.beats + env.config.backoffSlack := by
  obtain ⟨-, nonneg, -⟩ := beats_eq allocatable
  have round := (round_cases allocatable).resolve_right fun wrapped => wrapped.2 fits
  have previous : state.remaining topicHash peer ≤ _ := remaining_le_round sane
  have slots := slots_of_large allocatable fits large
  obtain ⟨least, most⟩ := deficit_range allocatable large
  rw [renewed_eq sane present, pause_of_large allocatable large]
  push_cast
  split_ifs at slots <;> omega

/-- What remains after any prune is at most what a large backoff is said to give. -/
theorem renewed_le_pause (sane : Sane env state) (allocatable : env.config.Allocatable)
    (present : topicHash ∈ state.topics) (fits : env.config.beats + env.config.backoffSlack + 1 < 2 ^ 63)
    (large : 2 ^ 63 ≤ backoff.toNat) :
    (state.renewed env topicHash peer smaller : ℤ) ≤ env.config.pause backoff.toNat := by
  have round := (round_cases allocatable).resolve_right fun wrapped => wrapped.2 fits
  obtain ⟨-, nonneg, -⟩ := beats_eq allocatable
  have bound : state.renewed env topicHash peer smaller ≤ _ := renewed_le_round sane present
  rw [pause_of_large allocatable large]
  omega

/-- A received backoff is applied as it was asked for exactly where nothing wraps around. -/
theorem applied_iff {encoded : Bytes} (allocatable : env.config.Allocatable) (run : Runs env lastSeqNo events start)
    (handling : Chain env (.message peer encoded) start state) (present : topicHash ∈ state.topics) :
    Applied env state topicHash peer backoff ↔
      env.config.Unwrapped (state.remaining topicHash peer) backoff := by
  have sane : Sane env state := (sane_of_runs run).chain handling (by simp)
  constructor
  · rintro ⟨raised, -⟩
    have fits : env.config.beats + env.config.backoffSlack + 1 < 2 ^ 63 := by
      rcases round_cases allocatable with round | ⟨slack, wrapped⟩
      · have := allocatable.round
        omega
      · -- the wheel is shorter than the slack alone
        have bound : state.renewed env topicHash peer backoff ≤ _ := renewed_le_round sane present
        have asked : (env.config.backoffSlack : ℤ) ≤ env.config.pause backoff.toNat := by
          have less : (0 : ℤ) ≤ (backoff.toNat : ℤ).tdiv env.config.heartbeatInterval :=
            Int.tdiv_nonneg (Int.natCast_nonneg _) (by have := allocatable.interval; omega)
          obtain ⟨same, nonneg, -⟩ := beats_eq allocatable
          unfold Config.pause
          omega
        have := allocatable.round
        omega
    refine ⟨fits, ?_⟩
    by_cases small : backoff.toNat < 2 ^ 63
    · exact .inl small
    · exact .inr ((raised_of_large sane allocatable present fits (by omega)).mp raised)
  · rintro ⟨fits, cases_⟩
    by_cases small : backoff.toNat < 2 ^ 63
    · have raised : (state.renewed env topicHash peer backoff : ℤ) = _ :=
        raised_of_small sane allocatable present fits small
      refine ⟨raised, fun smaller less => ?_⟩
      have lower : (state.renewed env topicHash peer smaller : ℤ) = _ :=
        raised_of_small sane allocatable present fits (lt_of_le_of_lt less small)
      have pauses := pause_mono allocatable less
      omega
    · have large : 2 ^ 63 ≤ backoff.toNat := by omega
      have raised := (raised_of_large sane allocatable present fits large).mpr (cases_.resolve_left small)
      refine ⟨raised, fun smaller less => ?_⟩
      have bound : (state.renewed env topicHash peer smaller : ℤ) ≤ _ :=
        renewed_le_pause sane allocatable present fits large
      omega

/-- A peer that asks for two seconds gets the one that is configured, and the slack. -/
theorem applied_brief : ∃ state, Runs briefEnv 0 meetingEvents state ∧
    Applied briefEnv state [0x74] 0 2 := by
  have followed : (meetingEvents.foldlM (State.step briefEnv) (State.initial briefEnv 0)).map
      (fun state => decide ([0x74] ∈ state.topics)) = some true := by
    decide +kernel
  obtain ⟨state, ran, present⟩ := Option.map_eq_some_iff.mp followed
  have run := Run.of_foldlM ran
  have allocatable : briefEnv.config.Allocatable := ⟨by decide, ⟨by decide, by decide⟩, by decide⟩
  have handling : Chain briefEnv (.message 0 (pruning 2)) state state := .refl
  exact ⟨state, run, (applied_iff allocatable run handling (of_decide_eq_true present)).mpr
    ⟨by decide, .inl (by decide)⟩⟩

/-- With the default configuration a peer that asks for the longest backoff gets none. -/
theorem longest_backoff_lost : ∃ state, Runs (sampleEnv true (10 ^ 6)) 0 meetingEvents state ∧
    state.renewed (sampleEnv true (10 ^ 6)) [0x74] 0 (2 ^ 64 - 1) = 0 ∧
      (sampleEnv true (10 ^ 6)).config.pause (2 ^ 64 - 1) = 61 ∧
      ¬ Applied (sampleEnv true (10 ^ 6)) state [0x74] 0 (2 ^ 64 - 1) := by
  have followed : (meetingEvents.foldlM (State.step (sampleEnv true (10 ^ 6))) (State.initial (sampleEnv true (10 ^ 6)) 0)).map
      (fun state => decide (state.renewed (sampleEnv true (10 ^ 6)) [0x74] 0 (2 ^ 64 - 1) = 0)) = some true := by
    decide +kernel
  obtain ⟨state, ran, lost⟩ := Option.map_eq_some_iff.mp followed
  have lost := of_decide_eq_true lost
  have pause : (sampleEnv true (10 ^ 6)).config.pause (2 ^ 64 - 1) = 61 := by decide
  refine ⟨state, Run.of_foldlM ran, lost, pause, fun applied => ?_⟩
  have asked : (((2 ^ 64 - 1 : UInt64).toNat : ℕ) : ℤ) = 2 ^ 64 - 1 := by decide +kernel
  have raised := applied.raised
  rw [lost, asked, pause] at raised
  omega

end Renewal

end Libp2p.Gossip
