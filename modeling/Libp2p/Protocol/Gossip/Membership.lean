import Libp2p.Protocol.Gossip.Defaults
import Libp2p.Protocol.Gossip.Roster

/-! # Mesh and subscription bookkeeping

The same relation is stored three times: in the topics of a peer object, in the peers of a topic and in its mesh.
The invariants are stated for the roster, where every update is one of ten steps, and lifted to runs of the node.
In every run meshes hold gossipsub peers of their topic. As long as frames are only handled for registered peers,
the peers of a topic are exactly the registered ones that announced it.
-/

namespace Libp2p.Gossip

open Library State

namespace Roster

variable {event : Event} {roster before after : Roster}

/-- A set in an updated family. -/
theorem mem_update {α β : Type} [DecidableEq α] {family : α → Set β} {key other : α} {set : Set β} {value : β} :
    value ∈ Function.update family key set other ↔
      (other = key ∧ value ∈ set) ∨ (other ≠ key ∧ value ∈ family other) := by
  by_cases same : other = key
  · subst same
    simp
  · simp [same]

/-- Meshes hold gossipsub members of topics that exist, and members and registrations are objects that exist. -/
structure Sound (roster : Roster) : Prop where
  present : ∀ topicHash, ∀ peer ∈ roster.members topicHash, topicHash ∈ roster.topics
  inside : ∀ topicHash, ∀ peer ∈ roster.mesh topicHash, peer ∈ roster.members topicHash ∧ peer ∈ roster.capable
  allocated : ∀ topicHash, ∀ peer ∈ roster.members topicHash, peer < roster.allocated
  registered : ∀ peerId peer, roster.registered peerId = some peer → peer < roster.allocated

theorem Sound.step (sound : Sound before) (step : Step event before after) : Sound after := by
  obtain ⟨present, inside, allocated, registered⟩ := sound
  cases step with
  | quiet => exact ⟨present, inside, allocated, registered⟩
  | grown topicHash peer member capable =>
    refine ⟨present, ?_, allocated, registered⟩
    intro other peer
    simp only [withMesh, mem_update, Set.mem_insert_iff]
    grind
  | shrunk topicHash mesh smaller =>
    refine ⟨present, ?_, allocated, registered⟩
    intro other peer
    simp only [withMesh, mem_update]
    grind
  | announced topicHash source new =>
    refine ⟨?_, ?_, ?_, registered⟩ <;> intro other peer <;>
      simp only [withAnnounced, withMembers, mem_update, Set.mem_ofPred]
    · grind
    · intro member
      have earlier := inside other peer member
      have exists_ := present other peer earlier.1
      grind
    · grind
  | left topicHash source =>
    refine ⟨?_, ?_, ?_, registered⟩ <;> intro other peer <;>
      simp only [withAnnounced, withMembers, withMesh, mem_update, Set.mem_sdiff] <;> grind
  | created topicHash =>
    refine ⟨?_, ?_, ?_, registered⟩ <;> intro other peer <;>
      simp only [withMembers, withMesh, mem_update, Set.mem_ofPred, Set.mem_empty_iff_false, Set.mem_insert_iff] <;>
      grind
  | removed topicHash =>
    refine ⟨?_, ?_, ?_, registered⟩ <;> intro other peer <;>
      simp only [withMembers, withMesh, mem_update, Set.mem_empty_iff_false, Set.mem_sdiff,
        Set.mem_singleton_iff] <;> grind
  | registered peerId absent =>
    refine ⟨present, ?_, ?_, ?_⟩
    · intro topicHash peer member
      have old := allocated topicHash peer (inside topicHash peer member).1
      exact ⟨(inside topicHash peer member).1, (inside topicHash peer member).2, old.ne⟩
    · intro topicHash peer member
      exact (allocated topicHash peer member).trans (Nat.lt_succ_self _)
    · intro other peer
      simp only [Function.update_apply]
      grind
  | typed capable larger =>
    refine ⟨present, ?_, allocated, registered⟩
    intro topicHash peer member
    exact ⟨(inside topicHash peer member).1, larger (inside topicHash peer member).2⟩
  | disconnected source found =>
    refine ⟨?_, ?_, ?_, ?_⟩
    · intro topicHash peer member
      exact present topicHash peer member.1
    · intro topicHash peer member
      exact ⟨⟨(inside topicHash peer member.1).1, member.2⟩, (inside topicHash peer member.1).2⟩
    · intro topicHash peer member
      exact allocated topicHash peer member.1
    · intro other peer
      simp only [Function.update_apply]
      grind

/-- The members of a topic are the registered objects that announced it, and the sender of the frame that is being
handled is registered. -/
structure Exact (event : Event) (roster : Roster) : Prop where
  identity : ∀ peerId peer, roster.registered peerId = some peer → roster.identity peer = peerId
  members_iff : ∀ topicHash ∈ roster.topics, ∀ peer,
    peer ∈ roster.members topicHash ↔ roster.Active peer ∧ topicHash ∈ roster.announced peer
  sender : ∀ peer encoded, event = .message peer encoded → roster.Active peer

/-- A registered object is the one registered for its id. -/
theorem Exact.active_iff (exact_ : Exact event roster) {peer : PeerPtr} :
    roster.Active peer ↔ ∃ peerId, roster.registered peerId = some peer := by
  constructor
  · exact fun active => ⟨_, active⟩
  · rintro ⟨peerId, found⟩
    rw [Active, exact_.identity peerId peer found, found]

theorem Exact.step (exact_ : Exact event before) (sound : Sound before) (step : Step event before after) :
    Exact event after := by
  have activeIff : ∀ peer, before.Active peer ↔ ∃ peerId, before.registered peerId = some peer :=
    fun peer => exact_.active_iff
  obtain ⟨identity, members, sender⟩ := exact_
  cases step with
  | quiet => exact ⟨identity, members, sender⟩
  | grown => exact ⟨identity, members, sender⟩
  | shrunk => exact ⟨identity, members, sender⟩
  | typed => exact ⟨identity, members, sender⟩
  | announced topicHash source new =>
    have active := sender _ _ source
    refine ⟨identity, ?_, sender⟩
    intro other (exists_ : other ∈ before.topics) peer
    have known := members other exists_ peer
    change _ ↔ before.Active peer ∧ _
    simp only [withAnnounced, withMembers, mem_update, Set.mem_ofPred, Set.mem_insert_iff]
    grind
  | left topicHash source =>
    refine ⟨identity, ?_, sender⟩
    intro other (exists_ : other ∈ before.topics) peer
    have known := members other exists_ peer
    change _ ↔ before.Active peer ∧ _
    simp only [withAnnounced, withMembers, withMesh, mem_update, Set.mem_sdiff, Set.mem_singleton_iff]
    grind
  | created topicHash =>
    refine ⟨identity, ?_, sender⟩
    intro other (exists_ : other ∈ insert topicHash before.topics) peer
    have known := members other
    rw [Set.mem_insert_iff] at exists_
    change _ ↔ before.Active peer ∧ _
    simp only [withMembers, withMesh, mem_update, Set.mem_ofPred]
    grind
  | removed topicHash =>
    refine ⟨identity, ?_, sender⟩
    rintro other ⟨exists_, different⟩ peer
    have known := members other exists_ peer
    rw [Set.mem_singleton_iff] at different
    change _ ↔ before.Active peer ∧ _
    simp only [withMembers, withMesh, mem_update, Set.mem_empty_iff_false]
    grind
  | registered peerId absent =>
    -- The new object is registered and has announced nothing; the others are as registered as before.
    have old : ∀ peer, before.Active peer → peer ≠ before.allocated := by
      intro peer active
      obtain ⟨other, found⟩ := (activeIff peer).mp active
      exact (sound.registered other peer found).ne
    have activeIff' : ∀ peer, peer ≠ before.allocated →
        (Function.update before.registered peerId (some before.allocated)
          (Function.update before.identity before.allocated peerId peer) = some peer ↔ before.Active peer) := by
      intro peer different
      rw [Function.update_of_ne different, Function.update_apply, Active]
      split_ifs with same
      · rw [same, absent]
        simp [different.symm]
      · rfl
    refine ⟨?_, ?_, ?_⟩
    · intro other peer found
      simp only [Function.update_apply] at found ⊢
      have earlier := identity other peer
      have bound := sound.registered other peer
      grind
    · intro topicHash exists_ peer
      have known := members topicHash exists_ peer
      change _ ↔ _ = _ ∧ _
      by_cases same : peer = before.allocated
      · subst same
        simp only [Function.update_self, Set.mem_empty_iff_false, and_false, iff_false]
        exact fun member => absurd (sound.allocated topicHash _ member) (lt_irrefl _)
      · rw [activeIff' peer same]
        dsimp only
        rw [Function.update_of_ne same]
        exact known
    · intro peer encoded source
      have active := sender peer encoded source
      exact (activeIff' peer (old peer active)).mpr active
  | @disconnected peerId gone source found =>
    have only : ∀ peer, before.Active peer → before.identity peer = peerId → peer = gone := by
      intro peer active same
      rw [Active, same, found] at active
      exact (Option.some.inj active).symm
    have goneId := identity peerId gone found
    refine ⟨?_, ?_, ?_⟩
    · intro other peer
      simp only [Function.update_apply]
      have earlier := identity other peer
      grind
    · intro topicHash exists_ peer
      have known := members topicHash exists_ peer
      change _ ∧ _ ↔ Function.update _ _ _ _ = _ ∧ _
      rw [known, Function.update_apply]
      have := only peer
      simp only [Active] at *
      grind
    · intro peer encoded received
      rw [source] at received
      cases received

section Steps

variable {peer : PeerPtr} {topicHash : TopicHash}

theorem Step.allocated_le (step : Step event before after) : before.allocated ≤ after.allocated := by
  cases step with
  | registered => exact Nat.le_succ _
  | _ => exact le_rfl

/-- The identity of an object never changes. -/
theorem Step.identity_eq (step : Step event before after) (allocated : peer < before.allocated) :
    after.identity peer = before.identity peer := by
  cases step with
  | registered => exact Function.update_of_ne allocated.ne _ _
  | _ => rfl

/-- How an object comes into a topic: it was there, it announces the topic, or the topic is created with it. -/
theorem Step.member_or (step : Step event before after) (member : peer ∈ after.members topicHash) :
    peer ∈ before.members topicHash ∨
      (∃ rpc, event.Carries peer rpc ∧ topicHash ∈ rpc.announces ∧ topicHash ∈ before.topics) ∨
      (event.creates topicHash ∧ topicHash ∉ before.topics ∧ ∃ peerId, before.registered peerId = some peer) := by
  cases step with
  | announced place source allocated carried named =>
    simp only [withAnnounced, withMembers, mem_update] at member
    rcases member with ⟨rfl, present, rfl | old⟩ | ⟨-, old⟩
    · exact .inr (.inl ⟨_, carried, named, present⟩)
    · exact .inl old
    · exact .inl old
  | left place source =>
    simp only [withAnnounced, withMembers, withMesh, mem_update] at member
    rcases member with ⟨rfl, old⟩ | ⟨-, old⟩
    · exact .inl old.1
    · exact .inl old
  | created place absent source =>
    simp only [withMembers, withMesh, mem_update] at member
    rcases member with ⟨rfl, registered, -⟩ | ⟨-, old⟩
    · exact .inr (.inr ⟨source, absent, registered⟩)
    · exact .inl old
  | removed place =>
    simp only [withMembers, withMesh, mem_update] at member
    rcases member with ⟨rfl, ⟨⟩⟩ | ⟨-, old⟩
    exact .inl old
  | disconnected source found => exact .inl member.1
  | _ => exact .inl member

/-- Registrations name objects of their peer id. -/
def Named (roster : Roster) : Prop := ∀ peerId peer, roster.registered peerId = some peer → roster.identity peer = peerId

theorem Named.step (named : Named before) (sound : Sound before) (step : Step event before after) : Named after := by
  cases step with
  | registered peerId absent =>
    intro other peer found
    simp only [Function.update_apply] at found ⊢
    split_ifs at found with same
    · rw [← Option.some.inj found, if_pos rfl, same]
    · rw [if_neg (sound.registered other peer found).ne]
      exact named other peer found
  | disconnected source found =>
    intro other peer later
    simp only [Function.update_apply] at later
    split_ifs at later
    exact named other peer later
  | _ => exact named

theorem Step.capable_of (step : Step event before after) (allocated : peer < before.allocated)
    (capable : peer ∈ before.capable) : peer ∈ after.capable := by
  cases step with
  | registered => exact ⟨capable, allocated.ne⟩
  | typed all larger => exact larger capable
  | _ => exact capable

end Steps

/-- No update makes an assertion fail. -/
theorem Step.clash_eq (step : Step event before after) : after.clash = before.clash := by
  cases step <;> rfl

end Roster

variable {R : Type} [Double R] {env : Env R} {event : Event} {lastSeqNo : Seqno} {events : List Event}
  {state before after : State R}

theorem meshSound_of_roster (sound : state.roster.Sound) : MeshSound state :=
  ⟨sound.inside, sound.allocated, sound.registered⟩

theorem roster_initial :
    (State.initial env lastSeqNo).roster.Sound ∧ ¬ (State.initial env lastSeqNo).roster.clash := by
  refine ⟨⟨?_, ?_, ?_, ?_⟩, ?_⟩ <;> simp [roster, State.initial, peersOf_eq, meshOf_eq]

/-- A step keeps what its guarded updates keep. -/
theorem step_preserves (invariant : State R → Prop)
    (kept : ∀ before after, Micro env event before after → invariant before → invariant after)
    (sound : before.roster.Sound) (stepped : before.step env event = some after) (holds : invariant before) :
    invariant after :=
  chain_preserves invariant (chain_of_step (meshSound_of_roster sound) stepped) kept holds

theorem sound_of_step (sound : before.roster.Sound) (stepped : before.step env event = some after) :
    after.roster.Sound :=
  step_preserves (fun state => state.roster.Sound) (fun _ _ micro sound => sound.step micro.roster) sound stepped
    sound

/-- Meshes are sound in every run. -/
theorem sound_of_runs (run : Runs env lastSeqNo events state) : state.roster.Sound :=
  run.preserves (fun state => state.roster.Sound) roster_initial.1 fun _ _ _ sound stepped => sound_of_step sound stepped

/-- No assertion about a mesh fails in any run. -/
theorem not_clash_of_runs (run : Runs env lastSeqNo events state) : ¬ state.roster.clash := by
  have both : state.roster.Sound ∧ ¬ state.roster.clash := by
    refine run.preserves (fun state => state.roster.Sound ∧ ¬ state.roster.clash)
      roster_initial ?_
    rintro event before after ⟨sound, unclashed⟩ stepped
    refine ⟨sound_of_step sound stepped, step_preserves (fun state => ¬ state.roster.clash) ?_ sound stepped unclashed⟩
    intro before after micro unclashed
    rwa [micro.roster.clash_eq]
  exact both.2

/-- Runs in which frames are only handled for peers that are registered. -/
abbrev RegisteredRuns (env : Env R) (lastSeqNo : Seqno) : List Event → State R → Prop :=
  Run (fun before event after => before.step env event = some after ∧
    ∀ peer encoded, event = .message peer encoded → before.Registered peer) (State.initial env lastSeqNo)

/-- Between two events, the members of a topic are the registered objects that announced it. -/
structure Bookkeeping (state : State R) : Prop where
  identity : ∀ peerId peer, state.peers.lookup peerId = some peer → (state.heap peer).peerId = peerId
  members_iff : ∀ topicHash topic, state.topics.lookup topicHash = some topic →
    ∀ peer, peer ∈ topic.peers ↔ state.Registered peer ∧ topicHash ∈ (state.heap peer).topics

theorem bookkeeping_iff : Bookkeeping state ↔ state.roster.Exact .decay := by
  constructor
  · rintro ⟨identity, members⟩
    refine ⟨identity, ?_, ?_⟩
    · intro topicHash exists_ peer
      obtain ⟨topic, found⟩ := UnorderedMap.exists_lookup_of_mem exists_
      have known := members topicHash topic found peer
      rwa [← peersOf_of_lookup found] at known
    · intro peer encoded source
      cases source
  · rintro ⟨identity, members, -⟩
    refine ⟨identity, ?_⟩
    intro topicHash topic found peer
    rw [← peersOf_of_lookup found]
    exact members topicHash (UnorderedMap.mem_of_lookup found) peer

theorem bookkeeping_step (sound : before.roster.Sound) (kept : Bookkeeping before)
    (stepped : before.step env event = some after)
    (registered : ∀ peer encoded, event = .message peer encoded → before.Registered peer) : Bookkeeping after := by
  obtain ⟨identity, members, -⟩ := bookkeeping_iff.mp kept
  have handled : after.roster.Sound ∧ after.roster.Exact event := by
    refine step_preserves (fun state => state.roster.Sound ∧ state.roster.Exact event) ?_ sound stepped
      ⟨sound, identity, members, registered⟩
    rintro before after micro ⟨sound, exact_⟩
    exact ⟨sound.step micro.roster, exact_.step sound micro.roster⟩
  obtain ⟨-, identity, members, -⟩ := handled
  refine bookkeeping_iff.mpr ⟨identity, members, ?_⟩
  intro peer encoded source
  cases source

theorem bookkeeping_of_runs (run : RegisteredRuns env lastSeqNo events state) : Bookkeeping state := by
  have both : state.roster.Sound ∧ Bookkeeping state := by
    refine run.preserves (fun state => state.roster.Sound ∧ Bookkeeping state)
      ⟨roster_initial.1, ?_⟩ ?_
    · refine ⟨?_, ?_⟩ <;> simp [State.initial]
    · rintro event before after ⟨sound, kept⟩ ⟨stepped, registered⟩
      exact ⟨sound_of_step sound stepped, bookkeeping_step sound kept stepped registered⟩
  exact both.2

/-- In every run in which frames come from registered peers, for every topic, its peers are the registered peers that
announced it, its mesh consists of gossipsub peers among them, no assertion of `graft` has failed, and an object that
is not registered is in no topic and in no mesh. -/
theorem membership_of_runs (run : RegisteredRuns env lastSeqNo events state) :
    (∀ peerId peer, state.peers.lookup peerId = some peer → (state.heap peer).peerId = peerId) ∧
    (∀ topicHash topic, state.topics.lookup topicHash = some topic →
      (∀ peer, peer ∈ topic.peers ↔ state.Registered peer ∧ topicHash ∈ (state.heap peer).topics) ∧
      (∀ peer ∈ topic.meshPeers, peer ∈ topic.peers ∧ (state.heap peer).isGossipsub) ∧
      ∀ peer, ¬ state.Registered peer → peer ∉ topic.peers ∧ peer ∉ topic.meshPeers) ∧
    ∀ topicHash peer, .graftAsserted topicHash peer ∉ state.log := by
  obtain ⟨identity, members⟩ := bookkeeping_of_runs run
  have all : Runs env lastSeqNo events state := run.mono fun _ _ _ taken => taken.1
  refine ⟨identity, ?_, ?_⟩
  · intro topicHash topic found
    have inside : ∀ peer ∈ topic.meshPeers, peer ∈ topic.peers ∧ (state.heap peer).isGossipsub := by
      intro peer member
      rw [← meshOf_of_lookup found] at member
      rw [← peersOf_of_lookup found]
      exact (sound_of_runs all).inside topicHash peer member
    refine ⟨members topicHash topic found, inside, ?_⟩
    intro peer gone
    have outside : peer ∉ topic.peers := fun member => gone ((members topicHash topic found peer).mp member).1
    exact ⟨outside, fun member => outside (inside peer member).1⟩
  · intro topicHash peer failed
    exact not_clash_of_runs all ⟨topicHash, peer, failed⟩

instance (state : State R) (peer : PeerPtr) : Decidable (state.Registered peer) :=
  inferInstanceAs (Decidable (state.peers.lookup (state.heap peer).peerId = some peer))

/-- A step that refuses frames of peers that are not registered. -/
def State.stepRegistered (env : Env R) (state : State R) (event : Event) : Option (State R) :=
  match event with
  | .message peer _ => if state.Registered peer then state.step env event else none
  | _ => state.step env event

theorem registeredRuns_of_foldlM
    (followed : events.foldlM (stepRegistered env) (State.initial env lastSeqNo) = some state) :
    RegisteredRuns env lastSeqNo events state := by
  refine (Run.of_foldlM followed).mono ?_
  intro event before after taken
  cases event with
  | message peer encoded =>
    obtain ⟨registered, stepped⟩ := Option.ite_none_right_eq_some.mp taken
    refine ⟨stepped, ?_⟩
    rintro _ _ ⟨⟩
    exact registered
  | _ => exact ⟨taken, by simp⟩

/-- A peer opens a stream, subscribes to a topic of ours and grafts itself. -/
def graftingEvents : List Event :=
  [.subscribe [0x74], .connected (samplePeerId 1) false, .handle (samplePeerId 1) kProtocolGossipsubv1_1,
    .message 0 (Pb.RPC.encode
      { subscriptions := [{ subscribe := some true, topicId := some [0x74] }]
        control := { graft := [{ topicId := some [0x74] }] } }),
    .heartbeat]

theorem membership_of_runs_grafting : ∃ state topic,
    RegisteredRuns (sampleEnv true (10 ^ 6)) 0 graftingEvents state ∧ state.topics.lookup [0x74] = some topic ∧
      topic.meshPeers.elements = [0] ∧
      (∀ peer, peer ∈ topic.peers ↔ state.Registered peer ∧ [0x74] ∈ (state.heap peer).topics) ∧
      ∀ topicHash peer, .graftAsserted topicHash peer ∉ state.log := by
  have followed : (graftingEvents.foldlM (stepRegistered (sampleEnv true (10 ^ 6)))
      (State.initial (sampleEnv true (10 ^ 6)) 0)).map
      (fun state => (state.topics.lookup [0x74]).map fun topic => topic.meshPeers.elements) = some (some [0]) := by
    decide +kernel
  obtain ⟨state, ran, observed⟩ := Option.map_eq_some_iff.mp followed
  obtain ⟨topic, found, mesh⟩ := Option.map_eq_some_iff.mp observed
  have run := registeredRuns_of_foldlM ran
  obtain ⟨-, topics, unasserted⟩ := membership_of_runs run
  exact ⟨state, topic, run, found, mesh, (topics [0x74] topic found).1, unasserted⟩

end Libp2p.Gossip
