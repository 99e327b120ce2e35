import Libp2p.Network.Intake

/-! # Which connections the accept loops lose

In every run, a listener accepts every established connection exactly when its accept loop first runs after its socket is
bound and no failed handshake comes before an established connection. A loop that `listen` itself runs, or that runs before
`start`, has ended before the first connection; a loop that receives an error ends with the connections behind it.
-/

namespace Libp2p.Network

open Library Relation ListenerManager

variable {Address : Type} {state before after : ListenerManager Address} {listener other : ListenerPtr} {began : Prop}

section Runs

variable [DecidableEq Address] {supported : Address → Bool} {events : List (Event Address)} {event : Event Address}

/-- The accept loop of a listener was first resumed when the listener had a channel. -/
def BeganServing (supported : Address → Bool) (events : List (Event Address)) (listener : ListenerPtr) : Prop :=
  ∃ first rest middle, events = first ++ .run listener :: rest ∧ Runs supported first middle ∧
    (middle.heap listener).server.isSome

theorem beganServing_snoc (run : Runs supported events state) :
    BeganServing supported (events ++ [event]) listener ↔
      BeganServing supported events listener ∨ (event = .run listener ∧ (state.heap listener).server.isSome) := by
  constructor
  · rintro ⟨first, rest, middle, same, early, serving⟩
    rcases List.eq_nil_or_concat rest with rfl | ⟨rest, last, rfl⟩
    · obtain rfl := List.append_inj_left' same rfl
      obtain rfl := run.unique early
      exact .inr ⟨List.singleton_inj.mp (List.append_cancel_left same), serving⟩
    · rw [List.concat_eq_append, ← List.cons_append, ← List.append_assoc] at same
      exact .inl ⟨first, rest, middle, List.append_inj_left' same rfl, early, serving⟩
  · rintro (⟨first, rest, middle, rfl, early, serving⟩ | ⟨rfl, serving⟩)
    · exact ⟨first, rest ++ [event], middle, by simp, early, serving⟩
    · exact ⟨events, [], state, rfl, run, serving⟩

/-- What holds in every state that a run reaches. -/
structure Valid (supported : Address → Bool) (events : List (Event Address)) (state : ListenerManager Address) :
    Prop where
  run : Runs supported events state
  fresh : ∀ listener, state.allocated ≤ listener → state.heap listener = {}
  registered : ∀ address listener, state.listeners.lookup address = some listener → listener < state.allocated
  sound : ∀ listener, (state.intake (BeganServing supported events listener) listener).Sound
  numbered : ∀ listener connection, .ok connection ∈ state.sent listener → connection.id < state.established
  distinct : ∀ listener, Intake.Distinct (state.sent listener)
  held : ∀ listener, ∀ connection ∈ state.handled listener,
    ∃ known, state.connections.lookup connection.remotePeer = some known ∧ connection ∈ known

theorem valid_initial : Valid supported [] {} := by
  refine ⟨.nil, fun _ _ => rfl, ?_, ?_, ?_, ?_, ?_⟩
  · intro address listener found
    cases found
  · intro listener
    refine ⟨?_, rfl, rfl⟩
    rintro ⟨first, rest, middle, same, -⟩
    simp at same
  · intro listener connection member
    cases member
  · intro listener
    exact List.Pairwise.nil
  · intro listener connection member
    cases member

/-- The changes of one event, listener by listener. -/
def Advances (supported : Address → Bool) (events : List (Event Address)) (event : Event Address)
    (before after : ListenerManager Address) : Prop :=
  ∀ listener, ReflTransGen Intake.Step (before.intake (BeganServing supported events listener) listener)
    (after.intake (BeganServing supported (events ++ [event]) listener) listener)

/-- An event that resumes no accept loop for the first time. -/
theorem advances_of_intake (run : Runs supported events before) (other : ∀ listener, event ≠ .run listener)
    (chain : ∀ listener began, ReflTransGen Intake.Step (before.intake began listener) (after.intake began listener)) :
    Advances supported events event before after := by
  intro listener
  have same : BeganServing supported (events ++ [event]) listener = BeganServing supported events listener := by
    rw [beganServing_snoc run]
    simp [other listener]
  rw [same]
  exact chain listener _

/-- An event after which nothing was sent or handed on. -/
theorem Valid.silent (valid : Valid supported events before) (stepped : before.step supported event = some after)
    (fresh : ∀ listener, after.allocated ≤ listener → after.heap listener = {})
    (registered : ∀ address listener, after.listeners.lookup address = some listener → listener < after.allocated)
    (advances : Advances supported events event before after) (log : after.log = before.log)
    (connections : after.connections = before.connections) (established : after.established = before.established) :
    Valid supported (events ++ [event]) after := by
  have sent : ∀ listener, after.sent listener = before.sent listener := fun listener => by
    rw [ListenerManager.sent, log]
    rfl
  have handled : ∀ listener, after.handled listener = before.handled listener := fun listener => by
    rw [ListenerManager.handled, log]
    rfl
  refine ⟨valid.run.snoc stepped, fresh, registered, ?_, ?_, ?_, ?_⟩
  · intro listener
    exact chain_preserves Intake.Sound (advances listener) (fun _ _ step sound => sound.step step)
      (valid.sound listener)
  · intro listener connection member
    rw [sent] at member
    rw [established]
    exact valid.numbered listener connection member
  · intro listener
    rw [sent]
    exact valid.distinct listener
  · intro listener connection member
    rw [handled] at member
    rw [connections]
    exact valid.held listener connection member

/-- What `listen` does: nothing, or a new listener that is registered unless it should have been bound and was not. -/
theorem listen_cases {address : Address} {immediate bound : Bool} :
    (state.listen supported address immediate bound).1 = state ∨
      (state.listen supported address immediate bound).1 = state.createListener immediate ∨
      (∃ changed, ((state.createListener immediate).heap state.allocated).listen bound = .ok changed ∧
        (state.listen supported address immediate bound).1 =
          { (state.createListener immediate).modify state.allocated fun _ => changed with
            listeners := (state.createListener immediate).listeners.insert address state.allocated }) ∨
      (state.listen supported address immediate bound).1 = { state.createListener immediate with
        listeners := (state.createListener immediate).listeners.insert address state.allocated } := by
  unfold ListenerManager.listen
  dsimp only
  split_ifs
  · exact .inl rfl
  · split
    · exact .inr (.inl rfl)
    · next changed listened => exact .inr (.inr (.inl ⟨changed, listened, rfl⟩))
  · exact .inr (.inr (.inr rfl))
  · exact .inl rfl

theorem Valid.listen {address : Address} {immediate bound : Bool} (valid : Valid supported events before) :
    Valid supported (events ++ [.listen address immediate bound])
      (before.listen supported address immediate bound).1 := by
  set created := before.createListener immediate with isCreated
  have chained : ∀ listener began, ReflTransGen Intake.Step (before.intake began listener)
      (created.intake began listener) := fun listener began => chain_createListener (valid.fresh _ le_rfl)
  have frame : created.log = before.log ∧ _ := frame_createListener
  obtain ⟨log, connections, established, allocated, listeners, heap⟩ := frame
  have fresh : ∀ listener, created.allocated ≤ listener → created.heap listener = {} := by
    intro listener beyond
    rw [allocated] at beyond
    rw [heap listener (by omega)]
    exact valid.fresh listener (by omega)
  have inserted : ∀ other listener, (created.listeners.insert address before.allocated).lookup other = some listener →
      listener < created.allocated := by
    intro other listener found
    rw [UnorderedMap.lookup_insert_eq, listeners] at found
    rw [allocated]
    split_ifs at found
    · rw [← Option.some.inj found]
      exact Nat.lt_succ_self _
    · exact (valid.registered other listener found).trans (Nat.lt_succ_self _)
  have stepped : before.step supported (.listen address immediate bound) =
      some (before.listen supported address immediate bound).1 := rfl
  have cases : (before.listen supported address immediate bound).1 = before ∨ _ := listen_cases
  rcases cases with same | same | ⟨changed, listened, same⟩ | same
  · rw [same] at stepped ⊢
    exact valid.silent stepped valid.fresh valid.registered
      (advances_of_intake valid.run (by simp) fun _ _ => .refl) rfl rfl rfl
  · rw [same] at stepped ⊢
    refine valid.silent stepped fresh ?_ (advances_of_intake valid.run (by simp) chained) log connections established
    intro other listener found
    rw [← isCreated, listeners] at found
    rw [← isCreated, allocated]
    exact (valid.registered other listener found).trans (Nat.lt_succ_self _)
  · rw [same] at stepped ⊢
    refine valid.silent stepped ?_ inserted (advances_of_intake valid.run (by simp) ?_) log connections established
    · intro listener beyond
      have beyond : created.allocated ≤ listener := beyond
      have different : listener ≠ before.allocated := by
        rw [allocated] at beyond
        omega
      exact (Function.update_of_ne different ..).trans (fresh listener beyond)
    · intro listener began
      exact (chained listener began).trans (chain_bound listened)
  · rw [same] at stepped ⊢
    exact valid.silent stepped fresh inserted (advances_of_intake valid.run (by simp) chained) log connections
      established

theorem frame_startListener {unbound : List Address} {entry : Sigma fun _ : Address => ListenerPtr} :
    (state.startListener unbound entry).log = state.log ∧
    (state.startListener unbound entry).connections = state.connections ∧
    (state.startListener unbound entry).established = state.established ∧
    (state.startListener unbound entry).allocated = state.allocated ∧
    (∀ other, other ≠ entry.2 → (state.startListener unbound entry).heap other = state.heap other) ∧
    ∀ address listener, (state.startListener unbound entry).listeners.lookup address = some listener →
      state.listeners.lookup address = some listener := by
  unfold startListener
  split
  · refine ⟨rfl, rfl, rfl, rfl, fun _ _ => rfl, ?_⟩
    intro address listener found
    rw [UnorderedMap.lookup_erase_eq] at found
    split_ifs at found
    exact found
  · exact ⟨rfl, rfl, rfl, rfl, fun other different => Function.update_of_ne different .., fun _ _ found => found⟩

theorem chain_startListener {unbound : List Address} {entry : Sigma fun _ : Address => ListenerPtr} :
    ReflTransGen Intake.Step (state.intake began other) ((state.startListener unbound entry).intake began other) := by
  unfold startListener
  split
  · exact .refl
  · next changed listened => exact chain_bound listened

/-- The loop of `start` over the registered listeners. -/
theorem start_loop {unbound : List Address} {entries : List (Sigma fun _ : Address => ListenerPtr)}
    (known : ∀ entry ∈ entries, entry.2 < state.allocated) :
    (entries.foldl (startListener unbound) state).log = state.log ∧
    (entries.foldl (startListener unbound) state).connections = state.connections ∧
    (entries.foldl (startListener unbound) state).established = state.established ∧
    (entries.foldl (startListener unbound) state).allocated = state.allocated ∧
    (∀ other, state.allocated ≤ other → (entries.foldl (startListener unbound) state).heap other = state.heap other) ∧
    (∀ address listener, (entries.foldl (startListener unbound) state).listeners.lookup address = some listener →
      state.listeners.lookup address = some listener) ∧
    ∀ other began, ReflTransGen Intake.Step (state.intake began other)
      ((entries.foldl (startListener unbound) state).intake began other) := by
  induction entries generalizing state with
  | nil => exact ⟨rfl, rfl, rfl, rfl, fun _ _ => rfl, fun _ _ found => found, fun _ _ => .refl⟩
  | cons entry rest ih =>
    have frame : (state.startListener unbound entry).log = state.log ∧ _ := frame_startListener
    obtain ⟨log, connections, established, allocated, heap, listeners⟩ := frame
    obtain ⟨log', connections', established', allocated', heap', listeners', chain⟩ :=
      ih fun other member => by rw [allocated]; exact known other (by simp [member])
    have first := known entry (by simp)
    refine ⟨log'.trans log, connections'.trans connections, established'.trans established,
      allocated'.trans allocated, ?_, ?_, ?_⟩
    · intro other beyond
      rw [List.foldl_cons, heap' other (by rw [allocated]; exact beyond), heap other (first.trans_le beyond).ne']
    · intro address listener found
      exact listeners address listener (listeners' address listener found)
    · intro other began
      exact chain_startListener.trans (chain other began)

theorem Valid.start {unbound : List Address} (valid : Valid supported events before) :
    Valid supported (events ++ [.start unbound]) (before.start unbound) := by
  have stepped : before.step supported (.start unbound) = some (before.start unbound) := rfl
  unfold ListenerManager.start at stepped ⊢
  split_ifs at stepped ⊢ with started
  · exact valid.silent stepped valid.fresh valid.registered
      (advances_of_intake valid.run (by simp) fun _ _ => .refl) rfl rfl rfl
  · have known : ∀ entry ∈ before.listeners.entries, entry.2 < before.allocated :=
      fun entry member => valid.registered entry.1 entry.2 (AList.mem_lookup_iff.mpr member)
    have loop : (before.listeners.entries.foldl (startListener unbound) before).log = before.log ∧ _ :=
      start_loop known
    obtain ⟨log, connections, established, allocated, heap, listeners, chain⟩ := loop
    refine valid.silent stepped ?_ ?_ (advances_of_intake valid.run (by simp) chain) log connections established
    · intro listener beyond
      have beyond : before.allocated ≤ listener := allocated ▸ beyond
      exact (heap listener beyond).trans (valid.fresh listener beyond)
    · intro address listener found
      exact (valid.registered address listener (listeners address listener found)).trans_eq allocated.symm

theorem Valid.run_loop (valid : Valid supported events before) (created : listener < before.allocated)
    (spawned : (before.heap listener).accepting = .spawned)
    (stepped : before.step supported (.run listener) = some (before.asyncAccept listener)) :
    Valid supported (events ++ [.run listener]) (before.asyncAccept listener) := by
  have frame : (before.asyncAccept listener).log = before.log ∧ _ := frame_asyncAccept
  obtain ⟨log, connections, established, allocated, listeners, -, heap⟩ := frame
  refine valid.silent stepped ?_ ?_ ?_ log connections established
  · intro other beyond
    rw [allocated] at beyond
    rw [heap other (created.trans_le beyond).ne']
    exact valid.fresh other beyond
  · intro address other found
    rw [listeners] at found
    rw [allocated]
    exact valid.registered address other found
  · intro other
    have same : BeganServing supported (events ++ [.run listener]) other =
        (BeganServing supported events other ∨ (other = listener ∧ (before.heap listener).server.isSome)) := by
      rw [beganServing_snoc valid.run]
      simp only [Event.run.injEq, eq_iff_iff]
      refine or_congr_right ?_
      constructor
      · rintro ⟨rfl, serving⟩
        exact ⟨rfl, serving⟩
      · rintro ⟨rfl, serving⟩
        exact ⟨rfl, serving⟩
    rw [same]
    exact chain_asyncAccept spawned

theorem Valid.handshake {ok : Bool} {identity : Except TlsError PeerId} (valid : Valid supported events before)
    (created : listener < before.allocated) (serving : (before.heap listener).server.isSome)
    (stepped : before.step supported (.handshake listener ok identity) =
      some (before.handshake listener ok identity)) :
    Valid supported (events ++ [.handshake listener ok identity]) (before.handshake listener ok identity) := by
  set result := onHskDone ok identity before.established with isResult
  have sent : ∀ other, (before.handshake listener ok identity).sent other =
      if other = listener then before.sent other ++ [result] else before.sent other := fun other => sent_record_sent
  have handled : ∀ other, (before.handshake listener ok identity).handled other = before.handled other := fun other => by
    simp [ListenerManager.handshake, send, record, ListenerManager.modify, ListenerManager.handled,
      Observation.handledBy]
  have number : ∀ connection, result = .ok connection → connection.id = before.established := by
    intro connection same
    rw [isResult] at same
    unfold onHskDone at same
    split_ifs at same
    split at same
    · cases same
    · rw [← Except.ok.inj same]
  have advances : Advances supported events (.handshake listener ok identity) before
      (before.handshake listener ok identity) := by
    refine advances_of_intake valid.run (by simp) fun other began => ?_
    let counted : ListenerManager Address := { before with established := before.established + 1 }
    have chain : ReflTransGen Intake.Step (counted.intake began other)
        ((counted.send listener result).intake began other) := chain_send serving
    exact chain
  refine ⟨valid.run.snoc stepped, ?_, valid.registered, ?_, ?_, ?_, ?_⟩
  · intro other beyond
    have different : other ≠ listener := (created.trans_le beyond).ne'
    exact (Function.update_of_ne different ..).trans (valid.fresh other beyond)
  · intro other
    exact chain_preserves Intake.Sound (advances other) (fun _ _ step sound => sound.step step) (valid.sound other)
  · intro other connection member
    change connection.id < before.established + 1
    rw [sent] at member
    split_ifs at member
    · rcases List.mem_append.mp member with earlier | new
      · exact (valid.numbered other connection earlier).trans (Nat.lt_succ_self _)
      · rw [number connection (List.mem_singleton.mp new).symm]
        exact Nat.lt_succ_self _
    · exact (valid.numbered other connection member).trans (Nat.lt_succ_self _)
  · intro other
    rw [sent]
    split_ifs
    · refine List.pairwise_append.mpr ⟨valid.distinct other, List.pairwise_singleton .., ?_⟩
      rintro earlier member new isNew connection rfl repeated
      have old := valid.numbered other connection member
      rw [number connection ((List.mem_singleton.mp isNew).symm.trans repeated)] at old
      exact absurd old (lt_irrefl _)
    · exact valid.distinct other
  · intro other connection member
    rw [handled] at member
    exact valid.held other connection member

theorem Valid.receive {result : AcceptResult} {rest : List AcceptResult} (valid : Valid supported events before)
    (receiving : (before.heap listener).accepting = .receiving)
    (serving : (before.heap listener).server = some (result :: rest))
    (stepped : before.step supported (.receive listener) = some (before.onReceived listener result rest)) :
    Valid supported (events ++ [.receive listener]) (before.onReceived listener result rest) := by
  have created : listener < before.allocated := by
    by_contra beyond
    rw [valid.fresh listener (not_lt.mp beyond)] at receiving
    cases receiving
  have advances : Advances supported events (.receive listener) before (before.onReceived listener result rest) :=
    advances_of_intake valid.run (by simp) fun other began => chain_onReceived receiving serving
  cases result with
  | error error =>
    refine valid.silent stepped ?_ valid.registered advances rfl rfl rfl
    intro other beyond
    have different : other ≠ listener := (created.trans_le beyond).ne'
    simp only [onReceived, heap_modify, if_neg different]
    exact valid.fresh other beyond
  | ok connection =>
    set handed := ((before.modify listener fun listener => { listener with server := some rest }).onConnection
      (.ok connection)).record (.handled listener connection) with isHanded
    have frame : (handed.asyncAccept listener).log = handed.log ∧ _ := frame_asyncAccept
    obtain ⟨log, connections, established, allocated, listeners, -, heap⟩ := frame
    have sent : ∀ other, (before.onReceived listener (.ok connection) rest).sent other = before.sent other := by
      intro other
      change ((handed.asyncAccept listener).log.filterMap _).reverse = _
      rw [log]
      rfl
    have handled : ∀ other, (before.onReceived listener (.ok connection) rest).handled other =
        if other = listener then before.handled other ++ [connection] else before.handled other := by
      intro other
      change ((handed.asyncAccept listener).log.filterMap _).reverse = _
      rw [log]
      exact handled_record_handled
    refine ⟨valid.run.snoc stepped, ?_, ?_, ?_, ?_, ?_, ?_⟩
    · intro other beyond
      have beyond : before.allocated ≤ other := allocated ▸ beyond
      have different : other ≠ listener := (created.trans_le beyond).ne'
      exact (heap other different).trans ((Function.update_of_ne different ..).trans (valid.fresh other beyond))
    · intro address other found
      have found : before.listeners.lookup address = some other := listeners ▸ found
      exact (valid.registered address other found).trans_eq allocated.symm
    · intro other
      exact chain_preserves Intake.Sound (advances other) (fun _ _ step sound => sound.step step) (valid.sound other)
    · intro other connection member
      rw [sent] at member
      exact (valid.numbered other connection member).trans_eq established.symm
    · intro other
      rw [sent]
      exact valid.distinct other
    · intro other old member
      change ∃ known, (handed.asyncAccept listener).connections.lookup _ = some known ∧ _
      rw [connections]
      refine held_addConnectionToPeer ?_
      rw [handled] at member
      split_ifs at member
      · rcases List.mem_append.mp member with earlier | new
        · exact .inr (valid.held other old earlier)
        · rw [List.mem_singleton.mp new]
          exact .inl ⟨rfl, rfl⟩
      · exact .inr (valid.held other old member)

theorem step_receive_eq_some (stepped : before.step supported (.receive listener) = some after) :
    ∃ result rest, (before.heap listener).accepting = .receiving ∧
      (before.heap listener).server = some (result :: rest) ∧ after = before.onReceived listener result rest := by
  simp only [ListenerManager.step] at stepped
  split at stepped
  · next result rest receiving serving => exact ⟨result, rest, receiving, serving, (Option.some.inj stepped).symm⟩
  · cases stepped

theorem valid_of_runs (run : Runs supported events state) : Valid supported events state := by
  refine run.preserves_history (Valid supported) valid_initial ?_
  intro events event before after valid stepped
  cases event with
  | listen address immediate bound =>
    obtain rfl := Option.some.inj stepped
    exact valid.listen
  | start unbound =>
    obtain rfl := Option.some.inj stepped
    exact valid.start
  | handshake listener ok identity =>
    obtain ⟨⟨created, serving⟩, same⟩ := Option.ite_none_right_eq_some.mp stepped
    obtain rfl := Option.some.inj same
    exact valid.handshake created serving stepped
  | run listener =>
    obtain ⟨⟨created, spawned⟩, same⟩ := Option.ite_none_right_eq_some.mp stepped
    obtain rfl := Option.some.inj same
    exact valid.run_loop created spawned stepped
  | receive listener =>
    obtain ⟨result, rest, receiving, serving, rfl⟩ := step_receive_eq_some stepped
    exact valid.receive receiving serving stepped

/-- The executor resumes an accept loop. -/
def Event.isResumption : Event Address → Bool
  | .run _ => true
  | .receive _ => true
  | _ => false

/-- No accept loop can be resumed. -/
def ListenerManager.Quiet (supported : Address → Bool) (state : ListenerManager Address) : Prop :=
  ∀ listener < state.allocated, (state.step supported (.run listener)).isNone ∧
    (state.step supported (.receive listener)).isNone

instance (state : ListenerManager Address) : Decidable (state.Quiet supported) :=
  inferInstanceAs (Decidable (∀ listener < state.allocated, (state.step supported (.run listener)).isNone ∧
    (state.step supported (.receive listener)).isNone))

/-- What is not quiet can be resumed, and gets closer to being quiet. -/
theorem exists_resumption (busy : ¬ state.Quiet supported) : ∃ event next, event.isResumption ∧
    state.step supported event = some next ∧ next.pending < state.pending := by
  simp only [ListenerManager.Quiet, not_forall] at busy
  obtain ⟨listener, created, enabled⟩ := busy
  rw [Option.isNone_iff_eq_none, Option.isNone_iff_eq_none, not_and_or] at enabled
  rcases enabled with resumable | resumable
  · obtain ⟨next, stepped⟩ := Option.ne_none_iff_exists'.mp resumable
    obtain ⟨⟨-, spawned⟩, same⟩ := Option.ite_none_right_eq_some.mp stepped
    obtain rfl := Option.some.inj same
    exact ⟨.run listener, _, rfl, stepped, pending_asyncAccept created spawned⟩
  · obtain ⟨next, stepped⟩ := Option.ne_none_iff_exists'.mp resumable
    obtain ⟨result, rest, receiving, serving, rfl⟩ := step_receive_eq_some stepped
    exact ⟨.receive listener, _, rfl, stepped, pending_onReceived created receiving serving⟩

/-- The executor runs out of accept loops to resume. -/
theorem exists_quiet (run : Runs supported events state) : ∃ more final, (∀ event ∈ more, event.isResumption) ∧
    Runs supported (events ++ more) final ∧ final.Quiet supported := by
  induction count : state.pending using Nat.strongRecOn generalizing events state with
  | ind count ih =>
    by_cases quiet : state.Quiet supported
    · exact ⟨[], state, by simp, by simpa using run, quiet⟩
    · obtain ⟨event, next, resumes, stepped, fewer⟩ := exists_resumption quiet
      obtain ⟨more, final, resumptions, onward, quiet⟩ := ih next.pending (count ▸ fewer) (run.snoc stepped) rfl
      refine ⟨event :: more, final, ?_, by simpa using onward, quiet⟩
      intro other member
      rcases List.mem_cons.mp member with rfl | later
      · exact resumes
      · exact resumptions other later

theorem Valid.quiet_intake (valid : Valid supported events state) (quiet : state.Quiet supported)
    (created : listener < state.allocated) :
    (state.intake (BeganServing supported events listener) listener).Quiet := by
  obtain ⟨idle, drained⟩ := quiet listener created
  constructor
  · intro spawned
    have spawned : (state.heap listener).accepting = .spawned := spawned
    simp [ListenerManager.step, created, spawned] at idle
  · intro receiving
    have receiving : (state.heap listener).accepting = .receiving := receiving
    have sound := valid.sound listener
    simp only [Intake.Sound, intake, receiving] at sound
    obtain ⟨-, queue, serving, -⟩ := sound
    cases queue with
    | nil => exact serving
    | cons result rest => simp [ListenerManager.step, receiving, serving] at drained

/-- In every run, the executor runs out of accept loops to resume, and then a registered listener has handed on and
registered every established connection exactly when, if there is one, its accept loop was first resumed after its socket
was bound and no failed handshake came before an established connection. -/
theorem accepted_iff (run : Runs supported events state) :
    (∃ more final, (∀ event ∈ more, event.isResumption) ∧ Runs supported (events ++ more) final ∧
      final.Quiet supported) ∧
    (state.Quiet supported → ∀ address listener, state.listeners.lookup address = some listener →
      ((∀ connection, .ok connection ∈ state.sent listener → connection ∈ state.handled listener ∧
          ∃ known, state.connections.lookup connection.remotePeer = some known ∧ connection ∈ known) ↔
        ((∃ connection, .ok connection ∈ state.sent listener) →
          BeganServing supported events listener ∧ Intake.Orderly (state.sent listener)))) := by
  refine ⟨exists_quiet run, ?_⟩
  intro quiet address listener registered
  have valid := valid_of_runs run
  have created := valid.registered address listener registered
  have handled := Intake.handled_iff (valid.sound listener) (valid.distinct listener)
    (valid.quiet_intake quiet created)
  refine Iff.trans ?_ handled
  constructor
  · intro all connection sent
    exact (all connection sent).1
  · intro all connection sent
    exact ⟨all connection sent, valid.held listener connection (all connection sent)⟩

end Runs

/-- The manager listens before it is started, the accept loop runs after that, and a peer connects. -/
def servedEvents : List (Event ℕ) :=
  [.listen 0 false true, .start [], .run 0, .handshake 0 true (.ok samplePeer), .receive 0]

theorem accepted_iff_served : ∃ state : ListenerManager ℕ, Runs (fun _ => true) servedEvents state ∧
    state.Quiet (fun _ => true) ∧ state.listeners.lookup 0 = some 0 ∧
    .ok { id := 0, remotePeer := samplePeer } ∈ state.sent 0 ∧
    ((∀ connection, .ok connection ∈ state.sent 0 → connection ∈ state.handled 0 ∧
        ∃ known, state.connections.lookup connection.remotePeer = some known ∧ connection ∈ known) ↔
      ((∃ connection, .ok connection ∈ state.sent 0) →
        BeganServing (fun _ => true) servedEvents 0 ∧ Intake.Orderly (state.sent 0))) := by
  have followed : (servedEvents.foldlM (ListenerManager.step fun _ => true) {}).map (fun state =>
      (decide (state.Quiet fun _ => true), state.listeners.lookup 0, state.sent 0)) =
      some (true, some 0, [.ok { id := 0, remotePeer := samplePeer }]) := by
    decide
  obtain ⟨state, ran, observed⟩ := Option.map_eq_some_iff.mp followed
  simp only [Prod.mk.injEq, decide_eq_true_eq] at observed
  obtain ⟨quiet, registered, sent⟩ := observed
  have run : Runs (fun _ => true) servedEvents state := Run.of_foldlM ran
  exact ⟨state, run, quiet, registered, by simp [sent], (accepted_iff run).2 quiet 0 0 registered⟩

/-- A handshake fails before a peer connects. -/
def disturbedEvents : List (Event ℕ) :=
  [.listen 0 false true, .start [], .run 0, .handshake 0 true (.error .tlsNoCertificate),
    .handshake 0 true (.ok samplePeer), .receive 0]

/-- The failed handshake ends the accept loop; the connection that follows waits in the channel forever. -/
theorem failed_handshake_loses_connection : ∃ (state : ListenerManager ℕ) (connection : Connection),
    Runs (fun _ => true) disturbedEvents state ∧ state.Quiet (fun _ => true) ∧ state.listeners.lookup 0 = some 0 ∧
      .ok connection ∈ state.sent 0 ∧ connection ∉ state.handled 0 ∧
      ¬ ∃ known, state.connections.lookup connection.remotePeer = some known ∧ connection ∈ known := by
  have followed : (disturbedEvents.foldlM (ListenerManager.step fun _ => true) {}).map (fun state =>
      (decide (state.Quiet fun _ => true), state.listeners.lookup 0, (state.sent 0).getLast?,
        (state.handled 0).isEmpty && (state.connections.lookup samplePeer).isNone)) =
      some (true, some 0, some (.ok { id := 1, remotePeer := samplePeer }), true) := by
    decide
  obtain ⟨state, ran, observed⟩ := Option.map_eq_some_iff.mp followed
  simp only [Prod.mk.injEq, decide_eq_true_eq, Bool.and_eq_true, List.isEmpty_iff, Option.isNone_iff_eq_none]
    at observed
  obtain ⟨quiet, registered, sent, handled, unknown⟩ := observed
  refine ⟨state, { id := 1, remotePeer := samplePeer }, Run.of_foldlM ran, quiet, registered,
    List.mem_of_getLast? sent, by simp [handled], ?_⟩
  rintro ⟨known, found, -⟩
  rw [show state.connections.lookup samplePeer = some known from found] at unknown
  cases unknown

end Libp2p.Network
