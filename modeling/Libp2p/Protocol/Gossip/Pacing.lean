import Libp2p.Protocol.Gossip.Handling
import Libp2p.Protocol.Gossip.Lifetime
import Libp2p.Protocol.Gossip.Outbox

/-! # Backoffs are kept

A peer that was told to leave a mesh, or that said it leaves, must not be grafted before its backoff has run out. The
code keeps backoffs in the topic and by peer object, so the promise is about peer ids only as long as no second object
of a peer id enters a topic in which the first one rests, and as long as no topic is dropped with a backoff in it.
-/

namespace Libp2p.Gossip

open Library State

variable {R : Type} [Double R] {env : Env R} {event : Event} {lastSeqNo : Seqno} {events : List Event}
  {state before after : State R} {topicHash : TopicHash} {peer other : PeerPtr}

/-- The slots that remain of a peer's backoff in a topic. -/
def State.remaining (state : State R) (topicHash : TopicHash) (peer : PeerPtr) : ℕ :=
  ((state.backoffs topicHash).map (·.get peer)).getD 0

/-- No other object of the same peer id is in a topic or rests in it. -/
def State.Sole (state : State R) (topicHash : TopicHash) (peer : PeerPtr) : Prop :=
  ∀ other ≠ peer, (state.heap other).peerId = (state.heap peer).peerId →
    other ∉ state.peersOf topicHash ∧ state.remaining topicHash other = 0

/-- The topics in which the sender of an RPC appears or begins to rest. -/
def Pb.RPC.Concerns (rpc : Pb.RPC) (topicHash : TopicHash) : Prop :=
  topicHash ∈ rpc.announces ∨ ∃ backoff, (topicHash, backoff) ∈ rpc.prunes

section Remaining

theorem remaining_of_rested (rested : Rested topicHash peer state) : state.remaining topicHash peer = 0 := by
  unfold State.remaining State.backoffs
  cases found : state.topics.lookup topicHash with
  | none => rfl
  | some topic => exact rested topic found

theorem present_of_remaining (rests : 0 < state.remaining topicHash peer) : topicHash ∈ state.topics := by
  unfold State.remaining State.backoffs at rests
  cases found : state.topics.lookup topicHash with
  | none => simp [found] at rests
  | some topic => exact UnorderedMap.mem_of_lookup found

theorem BackoffStep.remaining_le (step : BackoffStep env event before after topicHash) (peer : PeerPtr) :
    before.remaining topicHash peer ≤ after.remaining topicHash peer := by
  unfold State.remaining
  cases step with
  | kept same => rw [same]
  | created absent fresh =>
    rw [absent]
    exact Nat.zero_le _
  | renewed renewed slots found updated cause =>
    rw [found, updated, Option.map_some, Option.map_some, Option.getD_some, Option.getD_some,
      TopicBackoff.get_update]
    split_ifs with same
    · rw [same]
      exact le_max_left _ _
    · exact le_rfl

/-- Only a renewed backoff grows. -/
theorem BackoffStep.remaining_or (step : BackoffStep env event before after topicHash) (peer : PeerPtr) :
    after.remaining topicHash peer = before.remaining topicHash peer ∨ Renewed event before after topicHash peer := by
  unfold State.remaining
  cases step with
  | kept same => rw [same]; exact .inl rfl
  | created absent fresh => rw [absent, fresh]; exact .inl rfl
  | renewed renewed slots found updated cause =>
    by_cases same : peer = renewed
    · exact .inr (same ▸ cause)
    · rw [found, updated, Option.map_some, Option.map_some, TopicBackoff.get_update, if_neg same]
      exact .inl rfl

/-- A backoff is renewed for a peer of the topic or for the sender of the frame that is being handled. -/
theorem Renewed.source (renewed : Renewed event before after topicHash peer) (logs : Logs env event before after) :
    peer ∈ before.peersOf topicHash ∨ ∃ rpc, event.Carries peer rpc := by
  rcases renewed with ⟨backoff, log⟩ | ⟨rpc, carried, -⟩
  · cases logs with
    | quiet extra logged calm =>
      rw [logged, ← List.singleton_append] at log
      obtain ⟨place, said⟩ := calm peer (.prune topicHash backoff) (by rw [List.append_cancel_right log]; simp)
      cases said
    | single one op queued logged rests =>
      obtain ⟨rfl, told⟩ := Observation.queued.inj (List.cons.inj (log.symm.trans logged)).1
      exact .inl (queued.member_of_prune told.symm)
  · exact .inr ⟨rpc, carried⟩

end Remaining

/-- No guarded update outside of a heartbeat counts one. -/
theorem Micro.ticks_eq (micro : Micro env event before after) (calm : event ≠ .heartbeat) :
    after.heartbeatTicks = before.heartbeatTicks := by
  cases micro with
  | ledger ledger =>
    cases ledger with
    | duplicated => rw [countDuplicate_eq]
    | beat source => exact absurd source calm
    | _ => rfl
  | batched => rw [getBatch_eq]
  | queued => rw [enqueue_eq]
  | grafted => rw [graft_eq]
  | expelled => rw [eraseFromMesh, modifyTopic, makePrune_eq]
  | cut => rw [makePrune_eq]; rfl
  | refused => rw [makePrune_eq]
  | left => rw [leaveTopic_eq]
  | pruned => rw [removePeerFromMesh_eq]
  | upgraded => rw [announceUpgrade_eq]
  | admitted => rw [deliver_eq]; rfl
  | originated => rw [originate_eq]; rfl
  | opened => rw [openStream_eq]
  | disconnected => rw [onPeerDisconnected_eq]
  | expired => rw [expireTopic_eq]
  | aged => rw [shiftHistory_eq]
  | resumed => rw [resumeWriter_eq]
  | written => rw [onWritten_eq]
  | _ => rfl

/-- The wheels of all topics are sound and have the configured number of slots. -/
def Wheeled (env : Env R) (state : State R) : Prop := ∀ topicHash backoff, state.backoffs topicHash = some backoff →
  backoff.Sound ∧ backoff.round = backoffSlots env.config env.config.pruneBackoff (env.config.backoffSlack + 1)

theorem Wheeled.update (wheeled : Wheeled env before) (micro : Micro env event before after) (calm : event ≠ .heartbeat) :
    Wheeled env after := by
  intro topicHash backoff found
  cases micro.backed calm topicHash with
  | kept unchanged => exact wheeled topicHash backoff (unchanged.symm.trans found)
  | created absent fresh =>
    rw [fresh] at found
    rw [← Option.some.inj found]
    exact ⟨TopicBackoff.sound_new, List.length_replicate⟩
  | renewed peer slots earlier updated cause =>
    rw [updated] at found
    rw [← Option.some.inj found, TopicBackoff.round_update]
    obtain ⟨sound, round⟩ := wheeled topicHash _ earlier
    exact ⟨TopicBackoff.sound_update sound, round⟩

/-- Objects of one peer id do not meet in a topic, and wheels are sound, of the configured size, and hold objects that
exist. -/
structure Paced (env : Env R) (state : State R) : Prop where
  sound : state.roster.Sound
  named : state.roster.Named
  distinct : ∀ topicHash, ∀ peer ∈ state.peersOf topicHash, ∀ other ∈ state.peersOf topicHash,
    (state.heap peer).peerId = (state.heap other).peerId → peer = other
  wheels : Wheeled env state
  bounded : ∀ topicHash peer, 0 < state.remaining topicHash peer → peer < state.allocated

/-- The sender of the frame that is being handled exists and is alone in the topics that the frame is about. -/
def Courteous (event : Event) (state : State R) : Prop := ∀ peer rpc, event.Carries peer rpc →
  peer < state.allocated ∧ ∀ topicHash, rpc.Concerns topicHash → state.Sole topicHash peer

/-- Until a number of heartbeats have run, one object of a peer id rests in a topic and no other one is in it. -/
def Due (topicHash : TopicHash) (peerId : PeerId) (deadline : ℤ) (state : State R) : Prop :=
  (state.heartbeatTicks : ℤ) < deadline → ∃ peer < state.allocated, (state.heap peer).peerId = peerId ∧
    deadline ≤ state.heartbeatTicks + state.remaining topicHash peer ∧
    ∀ other ∈ state.peersOf topicHash, (state.heap other).peerId = peerId → other = peer

theorem Event.Carries.unique {rpc rpc' : Pb.RPC} (carried : event.Carries peer rpc) (other' : event.Carries other rpc') :
    other = peer := by
  obtain ⟨encoded, source, -⟩ := carried
  obtain ⟨encoded', source', -⟩ := other'
  rw [source] at source'
  exact (Event.message.inj source').1.symm

theorem Event.Carries.not_creates {rpc : Pb.RPC} (carried : event.Carries peer rpc) : ¬ event.creates topicHash := by
  obtain ⟨encoded, rfl, -⟩ := carried
  rintro (created | ⟨data, created⟩) <;> cases created

section Updates

variable (micro : Micro env event before after) (calm : event ≠ .heartbeat)

include micro calm

theorem Paced.update (paced : Paced env before) (courteous : Courteous event before) : Paced env after := by
  have step := micro.roster
  have logs := micro.logs paced.sound
  have same : ∀ {topicHash peer}, peer ∈ before.peersOf topicHash → (after.heap peer).peerId = (before.heap peer).peerId :=
    fun member => step.identity_eq (paced.sound.allocated _ _ member)
  have sender : ∀ {peer rpc}, event.Carries peer rpc → (after.heap peer).peerId = (before.heap peer).peerId :=
    fun carried => step.identity_eq (courteous _ _ carried).1
  refine ⟨paced.sound.step step, paced.named.step paced.sound step, ?_, ?_, ?_⟩
  · intro topicHash peer member other member' equal
    rcases step.member_or member with old | ⟨rpc, carried, announces, present⟩ | ⟨creates, absent, peerId, registered⟩ <;>
      rcases step.member_or member' with
        old' | ⟨rpc', carried', announces', present'⟩ | ⟨creates', absent', peerId', registered'⟩
    · rw [same old, same old'] at equal
      exact paced.distinct topicHash peer old other old' equal
    · by_contra different
      rw [same old, sender carried'] at equal
      exact ((courteous other rpc' carried').2 topicHash (.inl announces') peer different equal).1 old
    · exact absurd (paced.sound.present topicHash peer old) absent'
    · by_contra different
      rw [sender carried, same old'] at equal
      exact ((courteous peer rpc carried).2 topicHash (.inl announces) other (Ne.symm different) equal.symm).1 old'
    · exact carried'.unique carried
    · exact absurd creates' carried.not_creates
    · exact absurd (paced.sound.present topicHash other old') absent
    · exact absurd creates carried'.not_creates
    · have first := paced.named peerId peer registered
      have second := paced.named peerId' other registered'
      have kept := step.identity_eq (paced.sound.registered peerId peer registered)
      have kept' := step.identity_eq (paced.sound.registered peerId' other registered')
      have identical : peerId = peerId' := by rw [← first, ← second, ← kept, ← kept']; exact equal
      rw [identical, registered'] at registered
      exact (Option.some.inj registered).symm
  · exact paced.wheels.update micro calm
  · intro topicHash peer rests
    rcases (micro.backed calm topicHash).remaining_or peer with kept | renewed
    · rw [kept] at rests
      exact (paced.bounded topicHash peer rests).trans_le step.allocated_le
    · rcases renewed.source logs with member | ⟨rpc, carried⟩
      · exact (paced.sound.allocated topicHash peer member).trans_le step.allocated_le
      · exact (courteous peer rpc carried).1.trans_le step.allocated_le

theorem Courteous.update (courteous : Courteous event before) (paced : Paced env before) : Courteous event after := by
  have step := micro.roster
  intro peer rpc carried
  obtain ⟨allocated, sole⟩ := courteous peer rpc carried
  refine ⟨allocated.trans_le step.allocated_le, ?_⟩
  intro topicHash concerns other different equal
  have apart : other < before.allocated → other ∉ before.peersOf topicHash ∧ before.remaining topicHash other = 0 := by
    intro exists_
    refine sole topicHash concerns other different ?_
    have kept := step.identity_eq exists_
    have kept' := step.identity_eq allocated
    exact kept.symm.trans (Eq.trans equal kept')
  refine ⟨?_, ?_⟩
  · intro member
    rcases step.member_or member with old | ⟨rpc', carried', -⟩ | ⟨creates, -⟩
    · exact (apart (paced.sound.allocated topicHash other old)).1 old
    · exact different (carried.unique carried')
    · exact carried.not_creates creates
  · rcases (micro.backed calm topicHash).remaining_or other with kept | renewed
    · rw [kept]
      by_contra rests
      have exists_ := paced.bounded topicHash other (Nat.pos_of_ne_zero rests)
      exact rests (apart exists_).2
    · rcases renewed.source (micro.logs paced.sound) with member | ⟨rpc', carried'⟩
      · exact absurd member (apart (paced.sound.allocated topicHash other member)).1
      · exact absurd (carried.unique carried') different

theorem Due.update {peerId : PeerId} {deadline : ℤ} (due : Due topicHash peerId deadline before)
    (paced : Paced env before) (courteous : Courteous event before) : Due topicHash peerId deadline after := by
  have step := micro.roster
  have ticks := micro.ticks_eq calm
  intro early
  rw [ticks] at early ⊢
  obtain ⟨peer, allocated, identity, rests, only⟩ := due early
  have longer := (micro.backed calm topicHash).remaining_le peer
  have kept := step.identity_eq allocated
  refine ⟨peer, allocated.trans_le step.allocated_le, kept.trans identity, by omega, ?_⟩
  intro other member same
  rcases step.member_or member with old | ⟨rpc, carried, announces, -⟩ | ⟨-, absent, -⟩
  · exact only other old ((step.identity_eq (paced.sound.allocated topicHash other old)).symm.trans same)
  · -- The sender announces the topic, so no other object of its id rests there.
    by_contra different
    have sender := step.identity_eq (courteous other rpc carried).1
    have nothing := ((courteous other rpc carried).2 topicHash (.inl announces) peer (Ne.symm different)
      (identity.trans (same.symm.trans sender))).2
    omega
  · have resting : 0 < before.remaining topicHash peer := by omega
    exact absurd (present_of_remaining resting) absent

omit calm in
/-- What is grafted before the deadline has another peer id. -/
theorem Due.grafted {peerId : PeerId} {deadline : ℤ} (due : Due topicHash peerId deadline before)
    (paced : Paced env before) (log : after.log = .queued peer (.graft topicHash) :: before.log)
    (same : (before.heap peer).peerId = peerId) : deadline ≤ before.heartbeatTicks := by
  by_contra early
  obtain ⟨resting, -, -, rests, only⟩ := due (by omega)
  cases micro.logs paced.sound with
  | quiet extra logged calm =>
    rw [logged, ← List.singleton_append] at log
    obtain ⟨place, said⟩ := calm peer (.graft topicHash) (by rw [List.append_cancel_right log]; simp)
    cases said
  | single one op queued logged =>
    obtain ⟨rfl, rfl⟩ := Observation.queued.inj (List.cons.inj (logged.symm.trans log)).1
    obtain ⟨candidate, rested⟩ := queued.candidate_of_graft
    rw [← only _ candidate.member same, remaining_of_rested rested] at rests
    omega

end Updates

section Chains

/-- Where an observation stands that is in an extended log. -/
theorem split_log {extra log newer older : List Observation} {observation : Observation}
    (split : extra ++ log = newer ++ observation :: older) :
    (∃ rest, extra = newer ++ observation :: rest ∧ older = rest ++ log) ∨
      ∃ rest, newer = extra ++ rest ∧ log = rest ++ observation :: older := by
  rcases List.append_eq_append_iff.mp split with ⟨rest, first, second⟩ | ⟨rest, first, second⟩
  · exact .inr ⟨rest, first, second⟩
  · cases rest with
    | nil => exact .inr ⟨[], by simpa using first.symm, by simpa using second.symm⟩
    | cons head rest =>
      obtain ⟨same, ended⟩ := List.cons.inj second
      exact .inl ⟨rest, by rw [first, same], ended⟩

/-- A chain can be cut where it queued an entry that is not a subscription. -/
theorem Chain.cut (chain : Chain env event before after) (sound : before.roster.Sound) {op : BatchOp}
    (special : ∀ topicHash, op ≠ .subscribe topicHash true) {newer older : List Observation}
    (log : after.log = newer ++ .queued peer op :: older) (fresh : before.log.length ≤ older.length) :
    ∃ first second : State R, Chain env event before first ∧ Micro env event first second ∧
      Chain env event second after ∧ first.log = older ∧ second.log = .queued peer op :: older := by
  induction chain generalizing newer with
  | refl =>
    rw [log] at fresh
    simp at fresh
    omega
  | @tail middle after chain micro ih =>
    have sound' : middle.roster.Sound :=
      chain_preserves (fun state : State R => state.roster.Sound) chain (fun _ _ micro sound => sound.step micro.roster)
        sound
    have earlier : ∀ {rest}, middle.log = rest ++ .queued peer op :: older → ∃ first second : State R,
        Chain env event before first ∧ Micro env event first second ∧ Chain env event second after ∧
          first.log = older ∧ second.log = .queued peer op :: older := by
      intro rest logged
      obtain ⟨first, second, start, update, finish, ends⟩ := ih logged
      exact ⟨first, second, start, update, finish.tail micro, ends⟩
    cases micro.logs sound' with
    | quiet extra logged calm =>
      rcases split_log (logged.symm.trans log) with ⟨rest, rfl, -⟩ | ⟨rest, -, logged'⟩
      · obtain ⟨place, said⟩ := calm peer op (by simp)
        exact absurd said (special place)
      · exact earlier logged'
    | single one other queued logged =>
      rcases newer with _ | ⟨newest, newer⟩
      · obtain ⟨same, rfl⟩ := List.cons.inj (logged.symm.trans log)
        exact ⟨middle, after, chain, micro, .refl, rfl, by rw [logged, same]⟩
      · exact earlier (List.cons.inj (logged.symm.trans log)).2

/-- What was grafted in a topic since the log was `base`, in terms of a deadline for a peer id. -/
def Watched (topicHash : TopicHash) (peerId : PeerId) (deadline : ℤ) (base : List Observation) (state : State R) : Prop :=
  ∃ extra, state.log = extra ++ base ∧ ∀ peer, .queued peer (.graft topicHash) ∈ extra →
    peer < state.allocated ∧ ((state.heap peer).peerId = peerId → deadline ≤ state.heartbeatTicks)

theorem Watched.update {peerId : PeerId} {deadline : ℤ} {base : List Observation}
    (watched : Watched topicHash peerId deadline base before) (micro : Micro env event before after)
    (calm : event ≠ .heartbeat) (due : Due topicHash peerId deadline before) (paced : Paced env before) :
    Watched topicHash peerId deadline base after := by
  obtain ⟨earlier, log, grafts⟩ := watched
  have step := micro.roster
  have ticks := micro.ticks_eq calm
  have old : ∀ peer, .queued peer (.graft topicHash) ∈ earlier → peer < after.allocated ∧
      ((after.heap peer).peerId = peerId → deadline ≤ after.heartbeatTicks) := by
    intro peer queued
    obtain ⟨allocated, late⟩ := grafts peer queued
    refine ⟨allocated.trans_le step.allocated_le, fun same => ?_⟩
    rw [ticks]
    exact late ((step.identity_eq allocated).symm.trans same)
  cases micro.logs paced.sound with
  | quiet extra logged silent =>
    refine ⟨extra ++ earlier, by rw [logged, log, List.append_assoc], fun peer queued => ?_⟩
    rcases List.mem_append.mp queued with new | queued
    · obtain ⟨place, said⟩ := silent peer _ new
      cases said
    · exact old peer queued
  | single one op queued logged =>
    refine ⟨.queued one op :: earlier, by rw [logged, log, List.cons_append], fun peer graft => ?_⟩
    rcases List.mem_cons.mp graft with new | graft
    · obtain ⟨rfl, rfl⟩ := Observation.queued.inj new
      have allocated : peer < before.allocated :=
        paced.sound.allocated _ _ queued.candidate_of_graft.1.member
      refine ⟨allocated.trans_le step.allocated_le, fun same => ?_⟩
      rw [ticks]
      exact due.grafted micro paced logged ((step.identity_eq allocated).symm.trans same)
    · exact old peer graft

/-- What holds of a chain outside of a heartbeat from the moment at which a deadline is set. -/
structure Pausing (env : Env R) (event : Event) (topicHash : TopicHash) (peerId : PeerId) (deadline : ℤ)
    (base : List Observation) (state : State R) : Prop where
  paced : Paced env state
  courteous : Courteous event state
  due : Due topicHash peerId deadline state
  watched : Watched topicHash peerId deadline base state

theorem Pausing.chain {peerId : PeerId} {deadline : ℤ} {base : List Observation}
    (pausing : Pausing env event topicHash peerId deadline base before) (chain : Chain env event before after)
    (calm : event ≠ .heartbeat) : Pausing env event topicHash peerId deadline base after := by
  refine chain_preserves (fun state : State R => Pausing env event topicHash peerId deadline base state) chain ?_ pausing
  rintro before after micro ⟨paced, courteous, due, watched⟩
  exact ⟨paced.update micro calm courteous, courteous.update micro calm paced, due.update micro calm paced courteous,
    watched.update micro calm due paced⟩

theorem Paced.chain (paced : Paced env before) (courteous : Courteous event before) (chain : Chain env event before after)
    (calm : event ≠ .heartbeat) : Paced env after ∧ Courteous event after := by
  refine chain_preserves (fun state : State R => Paced env state ∧ Courteous event state) chain ?_ ⟨paced, courteous⟩
  rintro before after micro ⟨paced, courteous⟩
  exact ⟨paced.update micro calm courteous, courteous.update micro calm paced⟩

end Chains

section Heartbeat

/-- The part of a heartbeat that comes before the topics are maintained. -/
def State.expired (env : Env R) (state : State R) : State R := (state.startHeartbeat env).expireTopics env

theorem shiftBackoffs_eq : state.shiftBackoffs = { state with topics := state.shiftBackoffs.topics } := by
  have shifted : ∀ (keys : List TopicHash) (state : State R),
      keys.foldl (fun state topicHash => state.modifyTopic topicHash fun topic =>
        { topic with backoff := topic.backoff.shift }) state = { state with
          topics := (keys.foldl (fun state topicHash => state.modifyTopic topicHash fun topic =>
            { topic with backoff := topic.backoff.shift }) state).topics } := by
    intro keys
    induction keys with
    | nil => exact fun _ => rfl
    | cons topicHash rest ih =>
      intro state
      rw [List.foldl_cons, ih]
      rfl
  exact shifted _ _

theorem lookup_shiftBackoffs : state.shiftBackoffs.topics.lookup topicHash =
    (state.topics.lookup topicHash).map fun topic => { topic with backoff := topic.backoff.shift } := by
  have folded : ∀ (keys : List TopicHash) (state : State R),
      (keys.foldl (fun state topicHash => state.modifyTopic topicHash fun topic =>
        { topic with backoff := topic.backoff.shift }) state).topics =
      keys.foldl (fun topics topicHash => UnorderedMap.modify topics topicHash fun topic =>
        { topic with backoff := topic.backoff.shift }) state.topics := by
    intro keys
    induction keys with
    | nil => exact fun _ => rfl
    | cons topicHash rest ih => exact fun state => ih _
  unfold shiftBackoffs
  rw [folded]
  refine (UnorderedMap.lookup_foldl_modify (AList.keys_nodup state.topics) fun _ (topic : Topic) =>
    { topic with backoff := topic.backoff.shift }).trans ?_
  split_ifs with member
  · rfl
  · have absent : state.topics.lookup topicHash = none :=
      AList.lookup_eq_none.mpr fun present => member (AList.mem_keys.mpr present)
    rw [absent]
    rfl

/-- Penalties change the score and the log only. -/
theorem applyIwantPenalties_eq : state.applyIwantPenalties env = { state with
    gossipPromises := (state.applyIwantPenalties env).gossipPromises
    score := (state.applyIwantPenalties env).score
    readings := state.readings + 1
    log := (state.applyIwantPenalties env).log } := by
  have penalized : ∀ (entries : List (Sigma fun _ : PeerPtr => ℕ)) (state : State R),
      entries.foldl (fun state entry =>
        (state.modifyScore fun score => score.addPenalty (state.heap entry.1).peerId entry.2).record
          (.penalized (state.heap entry.1).peerId entry.2)) state = { state with
        score := (entries.foldl (fun state entry =>
          (state.modifyScore fun score => score.addPenalty (state.heap entry.1).peerId entry.2).record
            (.penalized (state.heap entry.1).peerId entry.2)) state).score
        log := (entries.foldl (fun state entry =>
          (state.modifyScore fun score => score.addPenalty (state.heap entry.1).peerId entry.2).record
            (.penalized (state.heap entry.1).peerId entry.2)) state).log } := by
    intro entries
    induction entries with
    | nil => exact fun _ => rfl
    | cons entry rest ih =>
      intro state
      rw [List.foldl_cons, ih]
      rfl
  unfold applyIwantPenalties
  dsimp only
  rw [penalized]
  rfl

theorem log_applyIwantPenalties : ∃ extra, (state.applyIwantPenalties env).log = extra ++ state.log ∧
    ∀ observation ∈ extra, observation.isQueued = false := by
  unfold applyIwantPenalties
  dsimp only
  generalize (state.gossipPromises.clearExpired (state.now env)).2.entries = entries
  generalize start : ({ state.tick with
    gossipPromises := (state.gossipPromises.clearExpired (state.now env)).1 } : State R) = current
  have log : current.log = state.log := by rw [← start]; rfl
  rw [← log]
  clear start log
  induction entries generalizing current with
  | nil => exact ⟨[], rfl, by simp⟩
  | cons entry rest ih =>
    obtain ⟨extra, logged, silent⟩ := ih ((current.modifyScore fun score =>
      score.addPenalty (current.heap entry.1).peerId entry.2).record (.penalized (current.heap entry.1).peerId entry.2))
    refine ⟨extra ++ [.penalized (current.heap entry.1).peerId entry.2], by
      rw [List.foldl_cons, logged, List.append_assoc]; rfl, ?_⟩
    intro observation member
    rcases List.mem_append.mp member with later | first
    · exact silent observation later
    · rw [List.mem_singleton.mp first]
      rfl

/-- What the first part of a heartbeat leaves: fewer topics, whose wheels have advanced by one. -/
structure Beaten (env : Env R) (before after : State R) : Prop where
  heap : after.heap = before.heap
  peers : after.peers = before.peers
  allocated : after.allocated = before.allocated
  ticks : after.heartbeatTicks = before.heartbeatTicks + 1
  log : ∃ extra, after.log = extra ++ before.log ∧ ∀ observation ∈ extra, observation.isQueued = false
  topics : ∀ topicHash, after.topics.lookup topicHash = if topicHash ∈ dropped env before then none
    else (before.topics.lookup topicHash).map fun topic => { topic with backoff := topic.backoff.shift }

/-- The state before the penalties of a heartbeat are applied. -/
private def unpenalized (state : State R) : State R :=
  { ({ state with heartbeatTicks := state.heartbeatTicks + 1 } : State R).shiftBackoffs with
    countReceivedIhave := ∅, countSentIwant := ∅ }

private theorem startHeartbeat_frame : state.startHeartbeat env = { state with
    topics := ({ state with heartbeatTicks := state.heartbeatTicks + 1 } : State R).shiftBackoffs.topics
    gossipPromises := (state.startHeartbeat env).gossipPromises
    score := (state.startHeartbeat env).score
    heartbeatTicks := state.heartbeatTicks + 1
    countReceivedIhave := ∅
    countSentIwant := ∅
    readings := (state.startHeartbeat env).readings
    log := (state.startHeartbeat env).log } := by
  have frame : (unpenalized state).applyIwantPenalties env = _ := applyIwantPenalties_eq
  have started : (unpenalized state).applyIwantPenalties env = state.startHeartbeat env := rfl
  rw [started, unpenalized, shiftBackoffs_eq] at frame
  rw [frame]

theorem lookup_startHeartbeat : (state.startHeartbeat env).topics.lookup topicHash =
    (state.topics.lookup topicHash).map fun topic => { topic with backoff := topic.backoff.shift } := by
  rw [startHeartbeat_frame]
  exact lookup_shiftBackoffs

theorem beaten_expired : Beaten env state (state.expired env) := by
  have frame := @startHeartbeat_frame R _ env state
  obtain ⟨extra, log, silent⟩ := @log_applyIwantPenalties R _ env (unpenalized state)
  have unlogged : (unpenalized state).log = state.log := by rw [unpenalized, shiftBackoffs_eq]
  rw [unlogged] at log
  refine ⟨?_, ?_, ?_, ?_, ⟨extra, ?_, silent⟩, ?_⟩
  · exact (foldl_field State.heap fun state topicHash => by rw [expireTopic_eq]).trans (by rw [frame])
  · exact (foldl_field State.peers fun state topicHash => by rw [expireTopic_eq]).trans (by rw [frame])
  · exact (foldl_field State.allocated fun state topicHash => by rw [expireTopic_eq]).trans (by rw [frame])
  · exact (foldl_field State.heartbeatTicks fun state topicHash => by rw [expireTopic_eq]).trans (by rw [frame])
  · exact expireTopics_frame.2.trans log
  · intro topicHash
    unfold State.expired expireTopics
    rw [lookup_foldl_expireTopic (AList.keys_nodup _)]
    change (if topicHash ∈ dropped env state then none else _) = _
    rw [lookup_startHeartbeat]

/-- The state of a heartbeat in which all topics have been maintained and advertised. -/
def State.maintained (env : Env R) (state : State R) : State R :=
  ((state.expired env).forTopics env (maintainTopic env)).forTopics env (emitGossipFor env)

/-- After the maintenance, a heartbeat only ages the histories and clears refusals. -/
theorem finish_preserves (invariant : State R → Prop)
    (kept : ∀ before after, Micro env .decay before after → invariant before → invariant after)
    (aged : ∀ (state : State R) topicHash, invariant state → invariant (state.shiftHistory topicHash))
    (maintained : invariant (state.maintained env)) : invariant (state.heartbeat env) := by
  have older : ∀ (keys : List TopicHash) (state : State R), invariant state →
      invariant (keys.foldl (fun state topicHash => state.shiftHistory topicHash) state) := by
    intro keys
    induction keys with
    | nil => exact fun _ holds => holds
    | cons topicHash rest ih => exact fun state holds => ih _ (aged state topicHash holds)
  have shuffled : ∀ state : State R, invariant state → invariant { state with random := state.random + 1 } :=
    fun state holds => kept _ _ (.ledger (.shuffled state _)) holds
  exact chain_preserves invariant chain_clearRefusals kept (older _ _ (shuffled _ maintained))

/-- A step keeps what guarded updates outside of a heartbeat keep, if the first part of a heartbeat leaves it and aging a
history keeps it. -/
theorem step_phases (invariant : State R → Prop) (sound : before.roster.Sound)
    (stepped : before.step env event = some after)
    (kept : ∀ cause : Event, cause = event ∨ cause = .decay → cause ≠ .heartbeat →
      ∀ first second, Micro env cause first second → invariant first → invariant second)
    (aged : ∀ (state : State R) topicHash, invariant state → invariant (state.shiftHistory topicHash))
    (beat : event = .heartbeat → invariant (before.expired env)) (holds : invariant before) : invariant after := by
  by_cases source : event = .heartbeat
  · subst source
    obtain rfl := Option.some.inj stepped
    have quiet := kept .decay (.inr rfl) (by simp)
    exact finish_preserves invariant quiet aged (chain_preserves invariant chain_maintenance quiet (beat rfl))
  · exact step_preserves invariant (kept event (.inl rfl) source) sound stepped holds

theorem log_heartbeat : (state.heartbeat env).log = (state.maintained env).log := by
  have cleared : ∀ (entries : List (Sigma fun _ : PeerId => PeerPtr)) (now : Time) (state : State R),
      (entries.foldl (fun state entry => state.modifyPeer entry.2 fun peer =>
        { peer with dontSend := peer.dontSend.clearExpired now }) state).log = state.log :=
    fun _ _ _ => foldl_field State.log fun _ _ => rfl
  have aged : ∀ (keys : List TopicHash) (state : State R),
      (keys.foldl (fun state topicHash => state.shiftHistory topicHash) state).log = state.log :=
    fun _ _ => foldl_field State.log fun state topicHash => by rw [shiftHistory_eq]
  exact (cleared _ _ _).trans (aged _ _)

theorem Beaten.backoffs (beaten : Beaten env before after) : after.backoffs topicHash =
    if topicHash ∈ dropped env before then none else (before.backoffs topicHash).map TopicBackoff.shift := by
  unfold State.backoffs
  rw [beaten.topics]
  split_ifs
  · rfl
  · rw [Option.map_map, Option.map_map]
    rfl

theorem Beaten.member (beaten : Beaten env before after) (member : peer ∈ after.peersOf topicHash) :
    peer ∈ before.peersOf topicHash := by
  rw [peersOf_eq, beaten.topics] at member
  split_ifs at member
  · exact absurd member (UnorderedSet.not_mem_empty peer)
  · rw [Option.map_map] at member
    exact member

/-- A heartbeat takes one slot from every backoff of the topics that stay. -/
theorem Beaten.remaining (beaten : Beaten env before after) (wheeled : Wheeled env before) :
    after.remaining topicHash peer =
      if topicHash ∈ dropped env before then 0 else before.remaining topicHash peer - 1 := by
  unfold State.remaining
  rw [beaten.backoffs]
  split_ifs
  · rfl
  · cases found : before.backoffs topicHash with
    | none => rfl
    | some backoff => exact TopicBackoff.get_shift (wheeled topicHash backoff found).1

theorem Beaten.wheeled (beaten : Beaten env before after) (wheeled : Wheeled env before) : Wheeled env after := by
  intro topicHash backoff found
  rw [beaten.backoffs] at found
  split_ifs at found
  obtain ⟨earlier, known, rfl⟩ := Option.map_eq_some_iff.mp found
  obtain ⟨sound, round⟩ := wheeled topicHash earlier known
  exact ⟨TopicBackoff.sound_shift sound, by rw [TopicBackoff.round_shift, round]⟩

theorem sound_expired (sound : state.roster.Sound) : (state.expired env).roster.Sound := by
  have expiring : Chain env .heartbeat (state.startHeartbeat env) (state.expired env) :=
    chain_foldl_of_body fun state topicHash _ => (Micro.expired state topicHash rfl).chain
  exact chain_preserves (fun state : State R => state.roster.Sound) ((chain_startHeartbeat rfl).trans expiring)
    (fun _ _ micro sound => sound.step micro.roster) sound

theorem Paced.expired (paced : Paced env state) : Paced env (state.expired env) := by
  have beaten := @beaten_expired R _ env state
  refine ⟨sound_expired paced.sound, ?_, ?_, ?_, ?_⟩
  · intro peerId peer registered
    change ((state.expired env).heap peer).peerId = peerId
    rw [beaten.heap]
    refine paced.named peerId peer ?_
    rw [← registered]
    exact congrArg (AList.lookup peerId) beaten.peers.symm
  · intro topicHash peer member other member' same
    rw [beaten.heap] at same
    exact paced.distinct topicHash peer (beaten.member member) other (beaten.member member') same
  · exact beaten.wheeled paced.wheels
  · intro topicHash peer rests
    rw [beaten.remaining paced.wheels] at rests
    rw [beaten.allocated]
    split_ifs at rests
    · exact absurd rests (lt_irrefl 0)
    · exact paced.bounded topicHash peer (by omega)

theorem Due.expired {peerId : PeerId} {deadline : ℤ} (due : Due topicHash peerId deadline state)
    (paced : Paced env state)
    (kept : ∀ topicHash ∈ dropped env state, ∀ peer, state.remaining topicHash peer ≤ 1) :
    Due topicHash peerId deadline (state.expired env) := by
  have beaten := @beaten_expired R _ env state
  intro early
  rw [beaten.ticks] at early
  obtain ⟨peer, allocated, identity, rests, only⟩ := due (by push_cast at early; omega)
  refine ⟨peer, by rwa [beaten.allocated], by rwa [beaten.heap], ?_, ?_⟩
  · rw [beaten.remaining paced.wheels, beaten.ticks]
    push_cast at early ⊢
    split_ifs with gone
    · -- The topic would be dropped although the peer still rests in it.
      have short := kept topicHash gone peer
      omega
    · omega
  · intro other member same
    rw [beaten.heap] at same
    exact only other (beaten.member member) same

/-- Aging a history leaves the rest of every topic alone. -/
theorem shiftHistory_field {α : Type} {place : TopicHash} (field : Topic → α)
    (unaffected : ∀ topic history, field { topic with history } = field topic) :
    ((state.shiftHistory place).topics.lookup topicHash).map field = (state.topics.lookup topicHash).map field := by
  unfold shiftHistory
  split
  · rfl
  · exact modifyTopic_field field fun topic => unaffected topic _

theorem backoffs_shiftHistory {place : TopicHash} :
    (state.shiftHistory place).backoffs topicHash = state.backoffs topicHash :=
  shiftHistory_field Topic.backoff fun _ _ => rfl

/-- Aging a history concerns neither peers nor backoffs. -/
theorem Pausing.aged {peerId : PeerId} {deadline : ℤ} {base : List Observation} {place : TopicHash}
    (pausing : Pausing env event topicHash peerId deadline base state) :
    Pausing env event topicHash peerId deadline base (state.shiftHistory place) := by
  have heap : (state.shiftHistory place).heap = state.heap := by rw [shiftHistory_eq]
  have allocated : (state.shiftHistory place).allocated = state.allocated := by rw [shiftHistory_eq]
  have ticks : (state.shiftHistory place).heartbeatTicks = state.heartbeatTicks := by rw [shiftHistory_eq]
  have log : (state.shiftHistory place).log = state.log := by rw [shiftHistory_eq]
  have members : ∀ other, (state.shiftHistory place).peersOf other = state.peersOf other := fun other => by
    rw [peersOf_eq, peersOf_eq, shiftHistory_field Topic.peers fun _ _ => rfl]
  have wheels : ∀ other, (state.shiftHistory place).backoffs other = state.backoffs other :=
    fun other => backoffs_shiftHistory
  have remaining : ∀ other peer, (state.shiftHistory place).remaining other peer = state.remaining other peer :=
    fun other peer => by rw [State.remaining, State.remaining, wheels]
  obtain ⟨⟨sound, named, distinct, sized, bounded⟩, courteous, due, watched⟩ := pausing
  refine ⟨⟨?_, ?_, ?_, ?_, ?_⟩, ?_, ?_, ?_⟩
  · rwa [roster_shiftHistory]
  · rwa [roster_shiftHistory]
  · simpa only [heap, members] using distinct
  · simpa only [Wheeled, wheels] using sized
  · simpa only [remaining, allocated] using bounded
  · simpa only [Courteous, State.Sole, heap, members, remaining, allocated] using courteous
  · simpa only [Due, heap, members, remaining, allocated, ticks] using due
  · simpa only [Watched, heap, log, allocated, ticks] using watched

theorem courteous_decay : Courteous .decay state := by
  rintro peer rpc ⟨encoded, source, -⟩
  cases source

/-- A pause that holds after the maintenance holds after the heartbeat. -/
theorem Pausing.finish {peerId : PeerId} {deadline : ℤ} {base : List Observation}
    (pausing : Pausing env .decay topicHash peerId deadline base (state.maintained env)) :
    Pausing env .decay topicHash peerId deadline base (state.heartbeat env) :=
  finish_preserves (fun state => Pausing env .decay topicHash peerId deadline base state)
    (fun _ _ micro pausing => pausing.chain micro.chain (by simp)) (fun _ _ pausing => pausing.aged) pausing

end Heartbeat

/-- The configuration makes sense: heartbeats take time, and the wheel of a topic can be allocated. -/
structure Config.Practical (config : Config R) : Prop where
  positive : 0 < config.heartbeatInterval
  backoff : 0 ≤ config.pruneBackoff
  small : config.pruneBackoff.tdiv config.heartbeatInterval + config.backoffSlack + 1 < 2 ^ 63

/-- The backoff of a received PRUNE as its sender wrote it. -/
def Config.asked (config : Config R) (pbPrune : Pb.ControlPrune) : ℤ :=
  match pbPrune.backoff with
  | none => config.pruneBackoff
  | some backoff => backoff.toNat

/-- The backoff of a received PRUNE fits into a signed count, or what it becomes as one wraps around to a large number
of slots. -/
def Config.Readable (config : Config R) (pbPrune : Pb.ControlPrune) : Prop := ∀ backoff, pbPrune.backoff = some backoff →
  backoff.toNat < 2 ^ 63 ∨ backoff.toInt64.toInt.tdiv config.heartbeatInterval + config.backoffSlack < 0

/-- The number of heartbeats that a backoff lasts, at most as many as the configured one. -/
def Config.pause (config : Config R) (backoff : ℤ) : ℤ :=
  min (backoff.tdiv config.heartbeatInterval) (config.pruneBackoff.tdiv config.heartbeatInterval) + config.backoffSlack

/-- What a step must respect for backoffs to hold by peer id: whoever appears or begins to rest in a topic is the only
object of its peer id there, a backoff that is read is what was written, and no topic is dropped in which a peer would
still rest after the heartbeat. -/
structure Steady (env : Env R) (state : State R) (event : Event) : Prop where
  sole : ∀ peer rpc, event.Carries peer rpc → ¬ state.below peer env.config.score.graylistThreshold →
    ∀ topicHash, rpc.Concerns topicHash → state.Sole topicHash peer
  readable : ∀ peer rpc, event.Carries peer rpc → ¬ state.below peer env.config.score.graylistThreshold →
    ∀ pbPrune ∈ rpc.control.prune, env.config.Readable pbPrune
  kept : event = .heartbeat → ∀ topicHash ∈ dropped env state, ∀ peer, state.remaining topicHash peer ≤ 1

section Steps

theorem pause_le {slots : ℕ} (practical : env.config.Practical) {backoff : ℤ}
    (enough : min (backoff.tdiv env.config.heartbeatInterval)
      (env.config.pruneBackoff.tdiv env.config.heartbeatInterval) + env.config.backoffSlack ≤ slots) :
    env.config.pause backoff ≤ (min slots
      (backoffSlots env.config env.config.pruneBackoff (env.config.backoffSlack + 1) - 1) : ℕ) := by
  obtain ⟨positive, nonneg, small⟩ := practical
  have quotient := Int.tdiv_nonneg nonneg positive.le
  unfold backoffSlots Config.pause
  rw [Int.emod_eq_of_lt (by push_cast; omega) (by push_cast; omega)]
  push_cast
  omega

theorem slots_own (practical : env.config.Practical) :
    env.config.pruneBackoff.tdiv env.config.heartbeatInterval + env.config.backoffSlack ≤
      backoffSlots env.config env.config.pruneBackoff env.config.backoffSlack := by
  obtain ⟨positive, nonneg, small⟩ := practical
  have quotient := Int.tdiv_nonneg nonneg positive.le
  unfold backoffSlots
  rw [Int.emod_eq_of_lt (by omega) (by omega)]
  omega

/-- An unsigned value that is read as a signed one is negative from `2 ^ 63` on. -/
theorem toInt_toInt64 (backoff : UInt64) : backoff.toInt64.toInt =
    if backoff.toNat < 2 ^ 63 then (backoff.toNat : ℤ) else backoff.toNat - 2 ^ 64 := by
  change backoff.toBitVec.toInt = _
  rw [BitVec.toInt_eq_toNat_cond]
  simp only [UInt64.toNat_toBitVec]
  split_ifs <;> omega

/-- A readable backoff takes at least the slots that its sender asked for, up to the configured ones. -/
theorem slots_asked (practical : env.config.Practical) {pbPrune : Pb.ControlPrune}
    (readable : env.config.Readable pbPrune) :
    min ((env.config.asked pbPrune).tdiv env.config.heartbeatInterval)
      (env.config.pruneBackoff.tdiv env.config.heartbeatInterval) + env.config.backoffSlack ≤
      backoffSlots env.config ((State.pruneBackoff pbPrune).getD env.config.pruneBackoff) env.config.backoffSlack := by
  have own := slots_own practical
  obtain ⟨positive, nonneg, small⟩ := practical
  have quotient := Int.tdiv_nonneg nonneg positive.le
  unfold Config.asked State.pruneBackoff
  cases written : pbPrune.backoff with
  | none =>
    simp only [Option.map_none, Option.getD_none]
    omega
  | some backoff =>
    simp only [Option.map_some, Option.getD_some]
    have range := backoff.toNat_lt
    have signed := toInt_toInt64 backoff
    have bound := Int.natAbs_tdiv_le_natAbs backoff.toInt64.toInt env.config.heartbeatInterval
    unfold backoffSlots
    by_cases small_ : backoff.toNat < 2 ^ 63
    · rw [if_pos small_] at signed
      rw [signed] at bound ⊢
      have quotient' : 0 ≤ (backoff.toNat : ℤ).tdiv env.config.heartbeatInterval :=
        Int.tdiv_nonneg (Int.natCast_nonneg _) positive.le
      rw [Int.emod_eq_of_lt (by omega) (by omega)]
      omega
    · have negative := (readable backoff written).resolve_left small_
      rw [if_neg small_] at signed
      rw [← Int.add_emod_right, Int.emod_eq_of_lt (by omega) (by omega)]
      omega

/-- A backoff that has just been renewed sets a deadline. -/
theorem due_of_renewal {backoff : TopicBackoff} {slots : ℕ} {pause : ℤ}
    (updated : after.backoffs topicHash = some (backoff.update peer slots))
    (enough : pause ≤ (min slots (backoff.round - 1) : ℕ)) (allocated : peer < after.allocated)
    (only : ∀ other ∈ after.peersOf topicHash, (after.heap other).peerId = (after.heap peer).peerId → other = peer) :
    Due topicHash (after.heap peer).peerId (after.heartbeatTicks + pause) after := by
  have rests : min slots (backoff.round - 1) ≤ after.remaining topicHash peer := by
    unfold State.remaining
    rw [updated, Option.map_some, Option.getD_some, TopicBackoff.get_update, if_pos rfl]
    exact le_max_right _ _
  intro _
  exact ⟨peer, allocated, rfl, by omega, only⟩

/-- A v1.1 peer that is told to leave a mesh rests. -/
theorem due_of_prune (practical : env.config.Practical) (paced : Paced env before) (courteous : Courteous event before)
    (micro : Micro env event before after) {backoff : Backoff}
    (log : after.log = .queued peer (.prune topicHash (some backoff)) :: before.log) :
    peer < after.allocated ∧ Due topicHash (after.heap peer).peerId
      (after.heartbeatTicks + env.config.pause env.config.pruneBackoff) after := by
  have step := micro.roster
  cases micro.logs paced.sound with
  | quiet extra logged calm =>
    rw [logged, ← List.singleton_append] at log
    obtain ⟨place, said⟩ := calm peer (.prune topicHash (some backoff)) (by rw [List.append_cancel_right log]; simp)
    cases said
  | single one op queued logged rests =>
    obtain ⟨rfl, told⟩ := Observation.queued.inj (List.cons.inj (log.symm.trans logged)).1
    have member := queued.member_of_prune told.symm
    have present := paced.sound.present topicHash peer member
    obtain ⟨topic, found⟩ := UnorderedMap.exists_lookup_of_mem present
    have wheel : before.backoffs topicHash = some topic.backoff := by
      rw [State.backoffs, found]
      rfl
    have updated := rests topicHash backoff told.symm
    rw [wheel, Option.map_some] at updated
    have allocated := paced.sound.allocated topicHash peer member
    have kept := step.identity_eq allocated
    refine ⟨allocated.trans_le step.allocated_le, due_of_renewal updated ?_ (allocated.trans_le step.allocated_le) ?_⟩
    · rw [(paced.wheels topicHash _ wheel).2]
      exact pause_le practical (by have := slots_own practical; omega)
    · intro other member' same
      rcases step.member_or member' with old | ⟨rpc, carried, announces, -⟩ | ⟨-, absent, -⟩
      · refine paced.distinct topicHash other old peer member ?_
        exact (step.identity_eq (paced.sound.allocated topicHash other old)).symm.trans (same.trans kept)
      · by_contra different
        have sender := step.identity_eq (courteous other rpc carried).1
        exact ((courteous other rpc carried).2 topicHash (.inl announces) peer (Ne.symm different)
          (kept.symm.trans (same.symm.trans sender))).1 member
      · exact absurd present absent

theorem Watched.refl {peerId : PeerId} {deadline : ℤ} : Watched topicHash peerId deadline state.log state :=
  ⟨[], rfl, fun _ member => by cases member⟩

/-- The sender of a frame that is handled is alone where the frame says it must be. -/
theorem Steady.courteous (steady : Steady env before event) (stepped : before.step env event = some after)
    (heard : ∀ peer encoded, event = .message peer encoded →
      ¬ before.below peer env.config.score.graylistThreshold) : Courteous event before := by
  intro peer rpc carried
  obtain ⟨encoded, source, decoded⟩ := id carried
  refine ⟨?_, steady.sole peer rpc carried (heard peer encoded source)⟩
  rw [source] at stepped
  exact (Option.ite_none_right_eq_some.mp stepped).1

/-- A frame of a graylisted peer is dropped. -/
theorem heard_or_same (stepped : before.step env event = some after) : after = before ∨
    ∀ peer encoded, event = .message peer encoded → ¬ before.below peer env.config.score.graylistThreshold := by
  cases event with
  | message peer encoded =>
    obtain ⟨-, ⟨⟩⟩ := Option.ite_none_right_eq_some.mp stepped
    by_cases ignored : before.below peer env.config.score.graylistThreshold
    · left
      unfold onMessage
      split
      · rfl
      · rw [if_pos ignored]
    · right
      rintro _ _ ⟨⟩
      exact ignored
  | _ => exact .inr (by simp)

/-- A step that respects the condition keeps every deadline, and grafts nobody of that peer id before it. -/
theorem Steady.step (steady : Steady env before event) (paced : Paced env before)
    (stepped : before.step env event = some after) {peerId : PeerId} {deadline : ℤ}
    (due : Due topicHash peerId deadline before) :
    Paced env after ∧ Due topicHash peerId deadline after ∧ Watched topicHash peerId deadline before.log after := by
  by_cases beat : event = .heartbeat
  · subst beat
    obtain rfl := Option.some.inj stepped
    have beaten := @beaten_expired R _ env before
    have start : Pausing env .decay topicHash peerId deadline before.log (before.expired env) := by
      refine ⟨paced.expired, courteous_decay, due.expired paced (steady.kept rfl), ?_⟩
      obtain ⟨extra, log, silent⟩ := beaten.log
      exact ⟨extra, log, fun peer queued => by cases silent _ queued⟩
    have final := (start.chain chain_maintenance (by simp)).finish
    exact ⟨final.paced, final.due, final.watched⟩
  · rcases heard_or_same stepped with same | heard
    · rw [same]
      exact ⟨paced, due, .refl⟩
    · have start : Pausing env event topicHash peerId deadline before.log before :=
        ⟨paced, steady.courteous stepped heard, due, .refl⟩
      have final := start.chain (chain_of_step (meshSound_of_roster paced.sound) stepped) beat
      exact ⟨final.paced, final.due, final.watched⟩

theorem Chain.identity_eq (chain : Chain env event before after) (allocated : peer < before.allocated) :
    (after.heap peer).peerId = (before.heap peer).peerId := by
  induction chain with
  | refl => rfl
  | tail chain micro ih => exact (micro.roster.identity_eq (allocated.trans_le (Chain.allocated_le chain))).trans ih

theorem Chain.ticks_eq (chain : Chain env event before after) (calm : event ≠ .heartbeat) :
    after.heartbeatTicks = before.heartbeatTicks := by
  induction chain with
  | refl => rfl
  | tail _ micro ih => exact (micro.ticks_eq calm).trans ih

/-- A pause for the peer id of an object, since the log was `base`. -/
abbrev Resting (env : Env R) (event : Event) (topicHash : TopicHash) (peer : PeerPtr) (pause : ℤ)
    (base : List Observation) (state : State R) : Prop :=
  peer < state.allocated ∧
    Pausing env event topicHash (state.heap peer).peerId (state.heartbeatTicks + pause) base state

theorem Resting.chain {pause : ℤ} {base : List Observation} (resting : Resting env event topicHash peer pause base before)
    (chain : Chain env event before after) (calm : event ≠ .heartbeat) :
    Resting env event topicHash peer pause base after := by
  obtain ⟨allocated, pausing⟩ := resting
  refine ⟨allocated.trans_le chain.allocated_le, ?_⟩
  rw [chain.identity_eq allocated, chain.ticks_eq calm]
  exact pausing.chain chain calm

theorem Resting.finish {pause : ℤ} {base : List Observation}
    (resting : Resting env .decay topicHash peer pause base (state.maintained env)) :
    Resting env .decay topicHash peer pause base (state.heartbeat env) := by
  refine finish_preserves (fun state => Resting env .decay topicHash peer pause base state)
    (fun _ _ micro resting => resting.chain micro.chain (by simp)) ?_ resting
  rintro state place ⟨allocated, pausing⟩
  have heap : (state.shiftHistory place).heap = state.heap := by rw [shiftHistory_eq]
  have ticks : (state.shiftHistory place).heartbeatTicks = state.heartbeatTicks := by rw [shiftHistory_eq]
  refine ⟨by rw [shiftHistory_eq]; exact allocated, ?_⟩
  rw [heap, ticks]
  exact pausing.aged

theorem Chain.log_suffix (chain : Chain env event before after) (sound : before.roster.Sound) :
    ∃ extra, after.log = extra ++ before.log := by
  have both : after.roster.Sound ∧ ∃ extra, after.log = extra ++ before.log := by
    refine chain_preserves (fun state : State R => state.roster.Sound ∧ ∃ extra, state.log = extra ++ before.log) chain
      ?_ ⟨sound, [], rfl⟩
    rintro first second micro ⟨sound, extra, log⟩
    refine ⟨sound.step micro.roster, ?_⟩
    cases micro.logs sound with
    | quiet more logged => exact ⟨more ++ extra, by rw [logged, log, List.append_assoc]⟩
    | single one op queued logged => exact ⟨.queued one op :: extra, by rw [logged, log, List.cons_append]⟩
  exact both.2

/-- Topics are dropped by heartbeats only. -/
theorem Chain.present (chain : Chain env event before after) (calm : event ≠ .heartbeat)
    (present : topicHash ∈ before.topics) : topicHash ∈ after.topics := by
  have wheeled : ∀ state : State R, topicHash ∈ state.topics ↔ ∃ backoff, state.backoffs topicHash = some backoff := by
    intro state
    rw [← AList.lookup_isSome, Option.isSome_iff_exists]
    simp [State.backoffs]
  refine chain_preserves (fun state : State R => topicHash ∈ state.topics) chain ?_ present
  intro first second micro present
  obtain ⟨backoff, found⟩ := (wheeled first).mp present
  rw [wheeled]
  cases micro.backed calm topicHash with
  | kept same => exact ⟨backoff, same.trans found⟩
  | created absent fresh => exact ⟨_, fresh⟩
  | renewed one slots known updated cause => exact ⟨_, updated⟩

/-- The chain of an event that queued a prune makes the peer rest from there on. -/
theorem resting_of_sent (practical : env.config.Practical) (paced : Paced env before) (courteous : Courteous event before)
    (chain : Chain env event before after) (calm : event ≠ .heartbeat) {backoff : Backoff}
    {newer older : List Observation} (log : after.log = newer ++ .queued peer (.prune topicHash (some backoff)) :: older)
    (fresh : before.log.length ≤ older.length) :
    Resting env event topicHash peer (env.config.pause env.config.pruneBackoff)
      (.queued peer (.prune topicHash (some backoff)) :: older) after := by
  obtain ⟨first, second, start, micro, finish, ended, queued⟩ := chain.cut paced.sound (by simp) log fresh
  obtain ⟨paced, courteous⟩ := paced.chain courteous start calm
  rw [← ended] at queued
  obtain ⟨allocated, due⟩ := due_of_prune practical paced courteous micro queued
  rw [← ended, ← queued]
  have resting : Resting env event topicHash peer (env.config.pause env.config.pruneBackoff) second.log second :=
    ⟨allocated, paced.update micro calm courteous, courteous.update micro calm paced, due, .refl⟩
  exact resting.chain finish calm

/-- The handling of a prune makes its sender rest from there on. -/
theorem resting_of_received (practical : env.config.Practical) (paced : Paced env state)
    (courteous : Courteous event state) {rpc : Pb.RPC} (carried : event.Carries peer rpc) {pbPrune : Pb.ControlPrune}
    (entry : pbPrune ∈ rpc.control.prune) (readable : env.config.Readable pbPrune)
    (present : pbPrune.topicId.getD [] ∈ state.topics) :
    Resting env event (pbPrune.topicId.getD []) peer (env.config.pause (env.config.asked pbPrune)) state.log
      (state.onPrune env peer pbPrune) := by
  obtain ⟨encoded, source, decoded⟩ := id carried
  have calm : event ≠ .heartbeat := by simp [source]
  have micro : Micro env event state (state.onPrune env peer pbPrune) :=
    .pruned state _ peer _ carried (List.mem_map_of_mem entry)
  have log : (state.onPrune env peer pbPrune).log = state.log := by
    unfold onPrune
    rw [removePeerFromMesh_eq]
  have paced' := paced.update micro calm courteous
  have courteous' := courteous.update micro calm paced
  obtain ⟨allocated, sole⟩ := courteous' peer rpc carried
  obtain ⟨topic, found⟩ := UnorderedMap.exists_lookup_of_mem present
  have wheel : state.backoffs (pbPrune.topicId.getD []) = some topic.backoff := by
    rw [State.backoffs, found]
    rfl
  have updated : (state.onPrune env peer pbPrune).backoffs (pbPrune.topicId.getD []) = some (topic.backoff.update peer
      (backoffSlots env.config ((State.pruneBackoff pbPrune).getD env.config.pruneBackoff) env.config.backoffSlack)) := by
    unfold onPrune
    rw [backoffs_removePeerFromMesh, if_pos (.inl rfl), backoffs_updateBackoff, if_pos rfl, wheel]
    rfl
  refine ⟨allocated, paced', courteous', due_of_renewal updated ?_ allocated ?_, ?_⟩
  · rw [(paced.wheels _ _ wheel).2]
    exact pause_le practical (slots_asked practical readable)
  · intro other member same
    by_contra different
    exact (sole _ (.inr ⟨_, List.mem_map_of_mem entry⟩) other different same).1 member
  · rw [← log]
    exact .refl

/-- What a step has logged after it handled or sent a prune for a topic, with the backoff that was asked for. -/
inductive Prunes (env : Env R) (before : State R) (event : Event) (after : State R) (topicHash : TopicHash)
    (peer : PeerPtr) : ℤ → List Observation → Prop
  | received {encoded : Bytes} {rpc : Pb.RPC} {pbPrune : Pb.ControlPrune} {newer : List Observation}
      (source : event = .message peer encoded) (decoded : Pb.RPC.decode encoded = some rpc)
      (heard : ¬ before.below peer env.config.score.graylistThreshold) (capable : (before.heap peer).isGossipsub)
      (entry : pbPrune ∈ rpc.control.prune) (about : pbPrune.topicId.getD [] = topicHash)
      (present : topicHash ∈ before.topics) (log : after.log = newer ++ (before.afterGrafts env peer rpc).log) :
      Prunes env before event after topicHash peer (env.config.asked pbPrune) newer
  | sent {backoff : Backoff} {newer older : List Observation}
      (log : after.log = newer ++ .queued peer (.prune topicHash (some backoff)) :: (older ++ before.log)) :
      Prunes env before event after topicHash peer env.config.pruneBackoff newer

/-- What a step leaves that handled or sent a prune. -/
structure Rests (env : Env R) (topicHash : TopicHash) (peer : PeerPtr) (pause : ℤ) (newer : List Observation)
    (state : State R) : Prop where
  paced : Paced env state
  allocated : peer < state.allocated
  due : Due topicHash (state.heap peer).peerId (state.heartbeatTicks + pause) state
  grafts : ∀ other, .queued other (.graft topicHash) ∈ newer →
    (state.heap other).peerId = (state.heap peer).peerId → pause ≤ 0

theorem Resting.rests {pause : ℤ} {base newer : List Observation}
    (resting : Resting env event topicHash peer pause base state) (log : state.log = newer ++ base) :
    Rests env topicHash peer pause newer state := by
  obtain ⟨allocated, paced, -, due, extra, logged, grafts⟩ := resting
  refine ⟨paced, allocated, due, fun other queued same => ?_⟩
  rw [log] at logged
  rw [List.append_cancel_right logged] at queued
  have late := (grafts other queued).2 same
  omega

/-- After a step that handled or sent a prune the peer rests, and nothing was grafted for it since. -/
theorem Prunes.rests {backoff : ℤ} {newer : List Observation}
    (prunes : Prunes env before event after topicHash peer backoff newer) (practical : env.config.Practical)
    (steady : Steady env before event) (paced : Paced env before) (stepped : before.step env event = some after) :
    Rests env topicHash peer (env.config.pause backoff) newer after := by
  cases prunes with
  | @received encoded rpc pbPrune newer source decoded heard capable entry about present log =>
    subst source about
    obtain ⟨allocated, ⟨⟩⟩ := Option.ite_none_right_eq_some.mp stepped
    have courteous : Courteous (.message peer encoded) before := by
      refine steady.courteous stepped ?_
      rintro _ _ ⟨⟩
      exact heard
    have carried : Event.Carries (.message peer encoded) peer rpc := ⟨encoded, rfl, decoded⟩
    obtain ⟨middle, reached, unchanged, finish⟩ := exists_onPrune rfl decoded allocated capable heard entry
    obtain ⟨paced', courteous'⟩ := paced.chain courteous reached (by simp)
    have topics : pbPrune.topicId.getD [] ∈ middle.topics := Chain.present reached (by simp) present
    have resting := resting_of_received practical paced' courteous' carried entry
      (steady.readable peer rpc carried heard pbPrune entry) topics
    exact (resting.chain finish (by simp)).rests (by rw [log, unchanged])
  | @sent written newer older log =>
    by_cases beat : event = .heartbeat
    · subst beat
      obtain rfl := Option.some.inj stepped
      obtain ⟨extra, logged, silent⟩ := (@beaten_expired R _ env before).log
      have chain : Chain env .decay (before.expired env) (before.maintained env) := chain_maintenance
      obtain ⟨more, continued⟩ := chain.log_suffix (sound_expired paced.sound)
      have resting : Resting env .decay topicHash peer (env.config.pause env.config.pruneBackoff)
          (.queued peer (.prune topicHash (some written)) :: (older ++ before.log)) (before.maintained env) := by
        refine resting_of_sent practical paced.expired courteous_decay chain (by simp)
          (log_heartbeat.symm.trans log) ?_
        have same : more ++ extra = newer ++ .queued peer (.prune topicHash (some written)) :: older := by
          rw [log_heartbeat, continued, logged, ← List.append_assoc, ← List.cons_append, ← List.append_assoc] at log
          exact List.append_cancel_right log
        rcases split_log same with ⟨rest, -, rfl⟩ | ⟨rest, -, rfl⟩
        · rw [logged]
          simp
        · cases silent (.queued peer (.prune topicHash (some written))) (by simp)
      exact resting.finish.rests log
    · rcases heard_or_same stepped with same | heard
      · exfalso
        rw [same] at log
        have length := congrArg List.length log
        simp at length
        omega
      · have resting := resting_of_sent practical paced (steady.courteous stepped heard)
          (chain_of_step (meshSound_of_roster paced.sound) stepped) beat log (by simp)
        exact resting.rests log

end Steps

/-- A step counts a heartbeat exactly when it is one. -/
theorem ticks_of_step (sound : before.roster.Sound) (stepped : before.step env event = some after) :
    after.heartbeatTicks = before.heartbeatTicks + [event].count .heartbeat := by
  by_cases beat : event = .heartbeat
  · subst beat
    obtain rfl := Option.some.inj stepped
    have ticks : (before.maintained env).heartbeatTicks = before.heartbeatTicks + 1 := by
      have chain : Chain env .decay (before.expired env) (before.maintained env) := chain_maintenance
      rw [chain.ticks_eq (by simp), beaten_expired.ticks]
    refine finish_preserves (fun state => state.heartbeatTicks = before.heartbeatTicks + 1)
      (fun _ _ micro ticks => (micro.ticks_eq (by simp)).trans ticks) (fun state topicHash ticks => ?_) ticks
    rw [shiftHistory_eq]
    exact ticks
  · rw [(chain_of_step (meshSound_of_roster sound) stepped).ticks_eq beat]
    simp [beat]

/-- One step of a run in which backoffs hold by peer id. -/
def SteadyStep (env : Env R) (before : State R) (event : Event) (after : State R) : Prop :=
  before.step env event = some after ∧ Steady env before event

/-- Runs in which every step respects the condition. -/
abbrev SteadyRuns (env : Env R) (lastSeqNo : Seqno) : List Event → State R → Prop :=
  Run (SteadyStep env) (State.initial env lastSeqNo)

theorem SteadyStep.paced (step : SteadyStep env before event after) (paced : Paced env before) : Paced env after := by
  have nothing : Due [] env.hostId 0 before := fun early => absurd early (by omega)
  exact (step.2.step paced step.1 nothing).1

theorem paced_of_steadyRuns (run : SteadyRuns env lastSeqNo events state) : Paced env state := by
  refine run.preserves (fun state => Paced env state) ?_ fun _ _ _ paced step => step.paced paced
  refine ⟨roster_initial.1, ?_, ?_, ?_, ?_⟩ <;>
    simp [Roster.Named, roster, State.initial, peersOf_eq, Wheeled, State.backoffs, State.remaining]

/-- A deadline lasts, and the heartbeats are counted. -/
theorem due_of_steadySteps {peerId : PeerId} {deadline : ℤ} (paced : Paced env before)
    (due : Due topicHash peerId deadline before) (run : Run (SteadyStep env) before events after) :
    Paced env after ∧ Due topicHash peerId deadline after ∧
      after.heartbeatTicks = before.heartbeatTicks + events.count .heartbeat := by
  refine run.preserves_history (fun events state => Paced env state ∧ Due topicHash peerId deadline state ∧
    state.heartbeatTicks = before.heartbeatTicks + events.count .heartbeat) ⟨paced, due, rfl⟩ ?_
  rintro events event first second ⟨paced, due, ticks⟩ ⟨stepped, steady⟩
  obtain ⟨paced', due', -⟩ := steady.step paced stepped due
  refine ⟨paced', due', ?_⟩
  rw [ticks_of_step paced.sound stepped, ticks, List.count_append, add_assoc]

/-- The promise of a backoff: after a step that handled a prune for an existing topic, or queued one to a v1.1 peer,
nothing is grafted for the peer id in that topic, neither in the rest of that step nor in a later one, before the
heartbeats of the backoff have run. The heartbeat that grafts counts. -/
def BackoffHonoured (step : State R → Event → State R → Prop) (env : Env R) (lastSeqNo : Seqno) : Prop :=
  ∀ events before event after topicHash peer backoff newer, Run step (State.initial env lastSeqNo) events before →
    step before event after → Prunes env before event after topicHash peer backoff newer →
      (∀ other, .queued other (.graft topicHash) ∈ newer → (after.heap other).peerId = (after.heap peer).peerId →
        env.config.pause backoff ≤ 0) ∧
      ∀ later middle last final recent, Run step after later middle → step middle last final →
        final.log = recent ++ middle.log → ∀ other, .queued other (.graft topicHash) ∈ recent →
          (final.heap other).peerId = (after.heap peer).peerId →
            env.config.pause backoff ≤ (later ++ [last]).count .heartbeat

/-- Every run whose steps respect the condition honours backoffs. -/
theorem backoff_of_steadyRuns (practical : env.config.Practical) : BackoffHonoured (SteadyStep env) env lastSeqNo := by
  intro events before event after topicHash peer backoff newer run step prunes
  have rests := prunes.rests practical step.2 (paced_of_steadyRuns run) step.1
  refine ⟨rests.grafts, ?_⟩
  intro later middle last final recent run' step' log other queued same
  obtain ⟨paced, due, ticks⟩ := due_of_steadySteps rests.paced rests.due run'
  obtain ⟨-, -, extra, logged, grafts⟩ := step'.2.step paced step'.1 due
  have counted := ticks_of_step paced.sound step'.1
  rw [log] at logged
  rw [List.append_cancel_right logged] at queued
  have late := (grafts other queued).2 same
  rw [List.count_append]
  push_cast
  omega

section Examples

/-- No other object of the same peer id is in a topic or rests in it, among those that exist. -/
def State.isSole (state : State R) (peer : PeerPtr) (topicHash : TopicHash) : Bool :=
  (List.range state.allocated).all fun other => other = peer ||
    (state.heap other).peerId ≠ (state.heap peer).peerId ||
      (other ∉ state.peersOf topicHash && state.remaining topicHash other = 0)

theorem sole_of_isSole (paced : Paced env state) (checked : state.isSole peer topicHash) : state.Sole topicHash peer := by
  intro other different same
  by_cases allocated : other < state.allocated
  · have found := List.all_eq_true.mp checked other (List.mem_range.mpr allocated)
    simpa [different, same] using found
  · refine ⟨fun member => allocated (paced.sound.allocated topicHash other member), ?_⟩
    by_contra rests
    exact allocated (paced.bounded topicHash other (Nat.pos_of_ne_zero rests))

/-- A step that refuses what may break the promise. -/
def State.stepSteady (env : Env R) (state : State R) (event : Event) : Option (State R) :=
  match event with
  | .message peer encoded =>
    if (Pb.RPC.decode encoded).any fun rpc => (rpc.announces ++ rpc.prunes.map Prod.fst).all (state.isSole peer) &&
        rpc.control.prune.all fun pbPrune => (pbPrune.backoff.getD 0).toNat < 2 ^ 63 then state.step env event
    else none
  | .heartbeat => if dropped env state = [] then state.step env event else none
  | _ => state.step env event

theorem steadyStep_of_stepSteady (paced : Paced env before) (taken : before.stepSteady env event = some after) :
    SteadyStep env before event after := by
  cases event with
  | message peer encoded =>
    obtain ⟨checked, stepped⟩ := Option.ite_none_right_eq_some.mp taken
    obtain ⟨rpc, decoded, checked⟩ := (Option.any_eq_true _ _).mp checked
    obtain ⟨alone, small⟩ := Bool.and_eq_true_iff.mp checked
    have only : ∀ other rpc', Event.Carries (.message peer encoded) other rpc' → other = peer ∧ rpc' = rpc := by
      rintro other rpc' ⟨_, ⟨⟩, decoded'⟩
      exact ⟨rfl, Option.some.inj (decoded'.symm.trans decoded)⟩
    refine ⟨stepped, ?_, ?_, by simp⟩
    · intro other rpc' carried _ topicHash concerns
      obtain ⟨rfl, rfl⟩ := only other rpc' carried
      refine sole_of_isSole paced (List.all_eq_true.mp alone topicHash (List.mem_append.mpr ?_))
      exact concerns.imp id fun ⟨backoff, named⟩ => List.mem_map_of_mem named
    · intro other rpc' carried _ pbPrune entry backoff written
      obtain ⟨rfl, rfl⟩ := only other rpc' carried
      have bound := List.all_eq_true.mp small pbPrune entry
      rw [written] at bound
      exact .inl (by simpa using bound)
  | heartbeat =>
    obtain ⟨none, stepped⟩ := Option.ite_none_right_eq_some.mp taken
    refine ⟨stepped, ?_, ?_, ?_⟩
    · rintro peer rpc ⟨encoded, ⟨⟩, -⟩
    · rintro peer rpc ⟨encoded, ⟨⟩, -⟩
    · intro _ topicHash gone
      rw [none] at gone
      cases gone
  | _ =>
    refine ⟨taken, ?_, ?_, by simp⟩
    · rintro peer rpc ⟨encoded, ⟨⟩, -⟩
    · rintro peer rpc ⟨encoded, ⟨⟩, -⟩

theorem steadySteps_of_foldlM (paced : Paced env before) (followed : events.foldlM (stepSteady env) before = some after) :
    Run (SteadyStep env) before events after ∧ Paced env after := by
  induction events using List.reverseRecOn generalizing after with
  | nil =>
    obtain rfl := Option.some.inj followed
    exact ⟨.nil, paced⟩
  | append_singleton events event ih =>
    rw [List.foldlM_append, Option.bind_eq_bind, Option.bind_eq_some_iff] at followed
    obtain ⟨middle, ran, taken⟩ := followed
    simp only [List.foldlM_cons, List.foldlM_nil, bind_pure] at taken
    obtain ⟨run, paced⟩ := ih ran
    have step := steadyStep_of_stepSteady paced taken
    exact ⟨run.snoc step, step.paced paced⟩

/-- A node with a backoff of one second. -/
def briefEnv : Env Rational :=
  let env := sampleEnv true (10 ^ 6)
  { env with config := { env.config with pruneBackoff := 1 } }

/-- A peer subscribes to a topic of ours, is grafted and prunes itself. -/
def subscribing : Bytes := Pb.RPC.encode { subscriptions := [{ subscribe := some true, topicId := some [0x74] }] }

def leaving (backoff : UInt64) : Pb.ControlPrune := { topicId := some [0x74], backoff := some backoff }

def pruning (backoff : UInt64) : Bytes := Pb.RPC.encode { control := { prune := [leaving backoff] } }

def meetingEvents : List Event :=
  [.subscribe [0x74], .connected (samplePeerId 1) false, .handle (samplePeerId 1) kProtocolGossipsubv1_1,
    .message 0 subscribing]

theorem log_suffix_of_step (sound : before.roster.Sound) (stepped : before.step env event = some after) :
    ∃ recent, after.log = recent ++ before.log :=
  (chain_of_step (meshSound_of_roster sound) stepped).log_suffix sound

/-- A prune that arrives is handled. -/
theorem prunes_received {encoded : Bytes} {rpc : Pb.RPC} {pbPrune : Pb.ControlPrune} (sound : before.roster.Sound)
    (stepped : before.step env (.message peer encoded) = some after) (decoded : Pb.RPC.decode encoded = some rpc)
    (heard : ¬ before.below peer env.config.score.graylistThreshold) (capable : (before.heap peer).isGossipsub)
    (entry : pbPrune ∈ rpc.control.prune) (present : pbPrune.topicId.getD [] ∈ before.topics) : ∃ newer,
    Prunes env before (.message peer encoded) after (pbPrune.topicId.getD []) peer (env.config.asked pbPrune) newer := by
  obtain ⟨allocated, ⟨⟩⟩ := Option.ite_none_right_eq_some.mp stepped
  have final := onMessage_eq rfl decoded allocated capable heard
  have first : Chain env (.message peer encoded) before (before.afterGrafts env peer rpc) :=
    chain_afterGrafts rfl decoded allocated capable
  have second : Chain env (.message peer encoded) (before.afterGrafts env peer rpc)
      ((before.afterPrunes env peer rpc).handleGossip env peer rpc) :=
    (chain_afterPrunes rfl decoded).trans (chain_handleGossip rfl)
  obtain ⟨newer, log⟩ := second.log_suffix (chain_preserves (fun state : State R => state.roster.Sound) first
    (fun _ _ micro sound => sound.step micro.roster) sound)
  exact ⟨newer, .received rfl decoded heard capable entry rfl present (by rw [final, log])⟩

/-- With a backoff of one second and one slot of slack, the peer is grafted again by the second heartbeat. -/
theorem backoff_of_steadyRuns_brief : ∃ before after middle final : State Rational,
    SteadyRuns briefEnv 0 meetingEvents before ∧ SteadyStep briefEnv before (.message 0 (pruning 1)) after ∧
      Run (SteadyStep briefEnv) after [.heartbeat] middle ∧ SteadyStep briefEnv middle .heartbeat final ∧
      .queued 0 (.graft [0x74]) ∈ final.log.take 1 ∧
      briefEnv.config.pause 1 ≤ ([.heartbeat] ++ [.heartbeat] : List Event).count .heartbeat := by
  have followed : ((meetingEvents.foldlM (stepSteady briefEnv) (State.initial briefEnv 0)).bind fun before =>
      (before.stepSteady briefEnv (.message 0 (pruning 1))).bind fun after =>
        ([.heartbeat].foldlM (stepSteady briefEnv) after).bind fun middle =>
          (middle.stepSteady briefEnv .heartbeat).map fun final =>
            ! before.below 0 briefEnv.config.score.graylistThreshold && (before.heap 0).isGossipsub &&
              decide ([0x74] ∈ before.topics) && decide (.queued 0 (.graft [0x74]) ∈ final.log.take 1) &&
              decide (final.log.length = middle.log.length + 1) &&
              decide ((final.heap 0).peerId = (after.heap 0).peerId)) = some true := by
    decide +kernel
  obtain ⟨before, ran, followed⟩ := Option.bind_eq_some_iff.mp followed
  obtain ⟨after, taken, followed⟩ := Option.bind_eq_some_iff.mp followed
  obtain ⟨middle, ran', followed⟩ := Option.bind_eq_some_iff.mp followed
  obtain ⟨final, taken', observed⟩ := Option.map_eq_some_iff.mp followed
  simp only [Bool.and_eq_true, decide_eq_true_eq, Bool.not_eq_true'] at observed
  obtain ⟨⟨⟨⟨⟨heard, capable⟩, present⟩, queued⟩, length⟩, same⟩ := observed
  obtain ⟨run, paced⟩ := steadySteps_of_foldlM (paced_of_steadyRuns .nil) ran
  have step := steadyStep_of_stepSteady paced taken
  obtain ⟨run', paced'⟩ := steadySteps_of_foldlM (step.paced paced) ran'
  have step' := steadyStep_of_stepSteady paced' taken'
  have decoded : Pb.RPC.decode (pruning 1) = some { control := { prune := [leaving 1] } } := by decide +kernel
  obtain ⟨newer, prunes⟩ := prunes_received paced.sound step.1 decoded (ne_true_of_eq_false heard) capable
    (List.mem_singleton_self (leaving 1)) present
  obtain ⟨recent, log⟩ := log_suffix_of_step paced'.sound step'.1
  have one : recent.length = 1 := by
    rw [log, List.length_append] at length
    omega
  have practical : briefEnv.config.Practical := ⟨by decide, by decide, by decide⟩
  refine ⟨before, after, middle, final, run, step, run', step', queued, ?_⟩
  rw [log, List.take_left' one] at queued
  exact (backoff_of_steadyRuns practical _ _ _ _ _ _ _ _ run step prunes).2 _ _ _ _ recent run' step' log 0 queued same

/-- A peer that reconnects before its backoff has run out is grafted again at once. -/
theorem reconnection_forgets_backoff :
    ¬ BackoffHonoured (fun before event after => before.step (sampleEnv true (10 ^ 6)) event = some after)
      (sampleEnv true (10 ^ 6)) 0 := by
  intro honoured
  have followed : ((meetingEvents.foldlM (State.step (sampleEnv true (10 ^ 6)))
      (State.initial (sampleEnv true (10 ^ 6)) 0)).bind fun before =>
      (before.step (sampleEnv true (10 ^ 6)) (.message 0 (pruning 60))).bind fun after =>
        ([.disconnected (samplePeerId 1), .connected (samplePeerId 1) false,
          .handle (samplePeerId 1) kProtocolGossipsubv1_1].foldlM (State.step (sampleEnv true (10 ^ 6))) after).bind
          fun middle => (middle.step (sampleEnv true (10 ^ 6)) (.message 1 subscribing)).map fun final =>
            ! before.below 0 (sampleEnv true (10 ^ 6)).config.score.graylistThreshold && (before.heap 0).isGossipsub &&
              decide ([0x74] ∈ before.topics) && decide (.queued 1 (.graft [0x74]) ∈ final.log.take 1) &&
              decide (final.log.length = middle.log.length + 1) &&
              decide ((final.heap 1).peerId = (after.heap 0).peerId)) = some true := by
    decide +kernel
  obtain ⟨before, ran, followed⟩ := Option.bind_eq_some_iff.mp followed
  obtain ⟨after, taken, followed⟩ := Option.bind_eq_some_iff.mp followed
  obtain ⟨middle, ran', followed⟩ := Option.bind_eq_some_iff.mp followed
  obtain ⟨final, taken', observed⟩ := Option.map_eq_some_iff.mp followed
  simp only [Bool.and_eq_true, decide_eq_true_eq, Bool.not_eq_true'] at observed
  obtain ⟨⟨⟨⟨⟨heard, capable⟩, present⟩, queued⟩, length⟩, same⟩ := observed
  have run := Run.of_foldlM ran
  have run' := Run.of_foldlM ran'
  have decoded : Pb.RPC.decode (pruning 60) = some { control := { prune := [leaving 60] } } := by decide +kernel
  obtain ⟨newer, prunes⟩ := prunes_received (sound_of_runs run) taken decoded (ne_true_of_eq_false heard) capable
    (List.mem_singleton_self (leaving 60)) present
  obtain ⟨recent, log⟩ := log_suffix_of_step (sound_of_runs ((run.snoc taken).append run')) taken'
  have one : recent.length = 1 := by
    rw [log, List.length_append] at length
    omega
  rw [log, List.take_left' one] at queued
  have bound := (honoured _ _ _ _ _ _ _ _ run taken prunes).2 _ _ _ _ recent run' taken' log 1 queued same
  revert bound
  decide

end Examples

end Libp2p.Gossip
