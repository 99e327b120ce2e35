import Libp2p.Library.Loop
import Libp2p.Network.ListenerManager
import Mathlib.Algebra.Order.BigOperators.Group.Finset

/-! # Listeners one by one

An abstract view of a listener as a channel and the coroutine that takes results from it. The coroutine fails for good
when it runs before there is a channel and when it receives an error, and it hands on whatever it receives in between.
Every operation of the listener manager is a chain of such changes for each listener.
-/

namespace Libp2p.Network

open Library Relation

/-- One listener: what was sent to it, what waits, what its accept loop handed on, and whether the loop began with a
channel. -/
structure Intake where
  server : Option (List AcceptResult)
  accepting : Accepting
  sent : List AcceptResult
  handled : List Connection
  began : Prop

namespace Intake

/-- The ways in which a listener changes. -/
inductive Step : Intake → Intake → Prop
  | bound (intake : Intake) (closed : intake.server = none) : Step intake { intake with server := some [] }
  | sent (intake : Intake) (result : AcceptResult) {queue : List AcceptResult} (serving : intake.server = some queue) :
      Step intake { intake with server := some (queue ++ [result]), sent := intake.sent ++ [result] }
  | missed (intake : Intake) (spawned : intake.accepting = .spawned) (closed : intake.server = none) :
      Step intake { intake with accepting := .ended }
  | began (intake : Intake) {queue : List AcceptResult} (spawned : intake.accepting = .spawned)
      (serving : intake.server = some queue) : Step intake { intake with accepting := .receiving, began := True }
  | taken (intake : Intake) {connection : Connection} {rest : List AcceptResult}
      (receiving : intake.accepting = .receiving) (serving : intake.server = some (.ok connection :: rest)) :
      Step intake { intake with server := some rest, handled := intake.handled ++ [connection] }
  | failed (intake : Intake) {error : AcceptError} {rest : List AcceptResult}
      (receiving : intake.accepting = .receiving) (serving : intake.server = some (.error error :: rest)) :
      Step intake { intake with server := some rest, accepting := .ended }

/-- What was sent is what was handed on, then the error that ended the loop, then what waits. -/
def Sound (intake : Intake) : Prop :=
  match intake.accepting with
  | .spawned => ¬ intake.began ∧ intake.handled = [] ∧ intake.sent = intake.server.getD []
  | .receiving => intake.began ∧ ∃ queue, intake.server = some queue ∧
      intake.sent = intake.handled.map .ok ++ queue
  | .ended => (¬ intake.began ∧ intake.handled = []) ∨
      (intake.began ∧ ∃ error rest, intake.sent = intake.handled.map .ok ++ .error error :: rest)

variable {before after intake : Intake}

theorem Sound.step (sound : before.Sound) (step : Step before after) : after.Sound := by
  cases step with
  | bound closed =>
    cases place : before.accepting with
    | spawned =>
      simp only [Sound, place, closed] at sound ⊢
      exact sound
    | receiving =>
      simp only [Sound, place, closed] at sound
      obtain ⟨-, queue, ⟨⟩, -⟩ := sound
    | ended =>
      simp only [Sound, place] at sound ⊢
      exact sound
  | @sent result queue serving =>
    cases place : before.accepting with
    | spawned =>
      simp only [Sound, place, serving, Option.getD_some] at sound ⊢
      obtain ⟨waiting, handled, same⟩ := sound
      exact ⟨waiting, handled, by rw [same]⟩
    | receiving =>
      simp only [Sound, place, serving] at sound ⊢
      obtain ⟨began, _, ⟨⟩, same⟩ := sound
      exact ⟨began, _, rfl, by rw [same, List.append_assoc]⟩
    | ended =>
      simp only [Sound, place] at sound ⊢
      refine sound.imp id ?_
      rintro ⟨began, error, rest, same⟩
      exact ⟨began, error, rest ++ [result], by rw [same, List.append_assoc, List.cons_append]⟩
  | missed spawned closed =>
    simp only [Sound, spawned] at sound ⊢
    exact .inl ⟨sound.1, sound.2.1⟩
  | began spawned serving =>
    simp only [Sound, spawned, serving, Option.getD_some] at sound ⊢
    obtain ⟨-, handled, same⟩ := sound
    exact ⟨trivial, _, rfl, by rw [same, handled]; rfl⟩
  | taken receiving serving =>
    simp only [Sound, receiving, serving] at sound ⊢
    obtain ⟨began, _, ⟨⟩, same⟩ := sound
    exact ⟨began, _, rfl, by rw [same, List.map_append, List.append_assoc]; rfl⟩
  | failed receiving serving =>
    simp only [Sound, receiving, serving] at sound ⊢
    obtain ⟨began, _, ⟨⟩, same⟩ := sound
    exact .inr ⟨began, _, _, same⟩

/-- No failure comes before an established connection. -/
def Orderly (sent : List AcceptResult) : Prop :=
  sent.Pairwise fun earlier later => ∀ error connection, earlier = .error error → later ≠ .ok connection

/-- No connection is established twice. -/
def Distinct (sent : List AcceptResult) : Prop :=
  sent.Pairwise fun earlier later => ∀ connection, earlier = .ok connection → later ≠ .ok connection

theorem orderly_map_ok (connections : List Connection) : Orderly (connections.map .ok) := by
  refine List.pairwise_map.mpr (List.pairwise_of_forall ?_)
  rintro earlier later error connection ⟨⟩

/-- Nothing can happen to the accept loop: it is over, or it waits and nothing is there. -/
def Quiet (intake : Intake) : Prop :=
  intake.accepting ≠ .spawned ∧ (intake.accepting = .receiving → intake.server = some [])

/-- In a quiet state, every established connection was handed on exactly when the loop began with a channel and no
failure came before an established connection. -/
theorem handled_iff (sound : intake.Sound) (distinct : Distinct intake.sent) (quiet : intake.Quiet) :
    (∀ connection, .ok connection ∈ intake.sent → connection ∈ intake.handled) ↔
      ((∃ connection, .ok connection ∈ intake.sent) → intake.began ∧ Orderly intake.sent) := by
  cases place : intake.accepting with
  | spawned => exact absurd place quiet.1
  | receiving =>
    simp only [Sound, place] at sound
    obtain ⟨began, queue, serving, same⟩ := sound
    rw [quiet.2 place] at serving
    obtain rfl := Option.some.inj serving
    rw [List.append_nil] at same
    refine iff_of_true ?_ fun _ => ⟨began, ?_⟩
    · intro connection sent
      rw [same] at sent
      simpa using sent
    · rw [same]
      exact orderly_map_ok _
  | ended =>
    simp only [Sound, place] at sound
    rcases sound with ⟨missed, nothing⟩ | ⟨began, error, rest, same⟩
    · constructor
      · rintro all ⟨connection, sent⟩
        have member := all connection sent
        rw [nothing] at member
        cases member
      · intro condition connection sent
        exact absurd (condition ⟨connection, sent⟩).1 missed
    · rw [same] at distinct ⊢
      have later := (List.pairwise_append.mp distinct).2.2
      constructor
      · intro all _
        refine ⟨began, List.pairwise_append.mpr ⟨orderly_map_ok _, ?_, ?_⟩⟩
        · have none : ∀ connection, .ok connection ∉ rest := by
            intro connection member
            have handled := all connection (by simp [member])
            exact later _ (List.mem_map.mpr ⟨connection, handled, rfl⟩) _ (List.mem_cons_of_mem _ member) connection
              rfl rfl
          refine List.pairwise_cons.mpr ⟨?_, ?_⟩
          · rintro result member _ connection - rfl
            exact none connection member
          · refine List.pairwise_of_forall_mem_list ?_
            rintro earlier _ result member _ connection - rfl
            exact none connection member
        · intro earlier member result _ error connection failed
          obtain ⟨_, -, rfl⟩ := List.mem_map.mp member
          cases failed
      · intro condition connection sent
        rcases List.mem_append.mp sent with handled | after
        · simpa using handled
        · have orderly := (List.pairwise_append.mp (condition ⟨connection, sent⟩).2).2.1
          rcases List.mem_cons.mp after with failed | after
          · cases failed
          · exact absurd rfl ((List.pairwise_cons.mp orderly).1 _ after error connection rfl)

end Intake

/-- A result that was sent to a listener. -/
def Observation.sentTo (listener : ListenerPtr) : Observation → Option AcceptResult
  | .sent other result => if other = listener then some result else none
  | .handled _ _ => none

/-- A connection that a listener's accept loop handed on. -/
def Observation.handledBy (listener : ListenerPtr) : Observation → Option Connection
  | .sent _ _ => none
  | .handled other connection => if other = listener then some connection else none

namespace ListenerManager

variable {Address : Type}

/-- The results that were sent to a listener, in order. -/
def sent (state : ListenerManager Address) (listener : ListenerPtr) : List AcceptResult :=
  (state.log.filterMap (·.sentTo listener)).reverse

/-- The connections that the accept loop of a listener handed on, in order. -/
def handled (state : ListenerManager Address) (listener : ListenerPtr) : List Connection :=
  (state.log.filterMap (·.handledBy listener)).reverse

/-- The view of one listener. -/
def intake (state : ListenerManager Address) (began : Prop) (listener : ListenerPtr) : Intake where
  server := (state.heap listener).server
  accepting := (state.heap listener).accepting
  sent := state.sent listener
  handled := state.handled listener
  began

end ListenerManager

open ListenerManager

variable {Address : Type} {state before after : ListenerManager Address} {listener other : ListenerPtr} {began : Prop}

section Views

theorem heap_modify {change : QuicListener → QuicListener} : (state.modify listener change).heap other =
    if other = listener then change (state.heap listener) else state.heap other := by
  simp only [ListenerManager.modify, Function.update_apply]

theorem sent_record_sent {result : AcceptResult} : (state.record (.sent listener result)).sent other =
    if other = listener then state.sent other ++ [result] else state.sent other := by
  split_ifs with same
  · simp [sent, record, Observation.sentTo, same]
  · simp [sent, record, Observation.sentTo, Ne.symm same]

theorem handled_record_handled {connection : Connection} :
    (state.record (.handled listener connection)).handled other =
      if other = listener then state.handled other ++ [connection] else state.handled other := by
  split_ifs with same
  · simp [handled, record, Observation.handledBy, same]
  · simp [handled, record, Observation.handledBy, Ne.symm same]

/-- A change of one listener leaves the others. -/
theorem intake_modify_other {change : QuicListener → QuicListener} (different : other ≠ listener) :
    (state.modify listener change).intake began other = state.intake began other := by
  simp only [intake, heap_modify, if_neg different]
  rfl

theorem chain_bound {changed : QuicListener} {bound : Bool}
    (listened : (state.heap listener).listen bound = .ok changed) :
    ReflTransGen Intake.Step (state.intake began other) ((state.modify listener fun _ => changed).intake began other) := by
  by_cases same : other = listener
  · subst same
    unfold QuicListener.listen at listened
    split_ifs at listened with serving free
    obtain rfl := Except.ok.inj listened
    have step := Intake.Step.bound (state.intake began other) (Option.not_isSome_iff_eq_none.mp serving)
    convert ReflTransGen.single step using 1
    simp only [intake, heap_modify, if_true]
    rfl
  · rw [intake_modify_other same]

/-- The first iteration of an accept loop. -/
theorem chain_asyncAccept (spawned : (state.heap listener).accepting = .spawned) :
    ReflTransGen Intake.Step (state.intake began other) ((state.asyncAccept listener).intake
      (began ∨ (other = listener ∧ (state.heap listener).server.isSome)) other) := by
  unfold asyncAccept
  split
  · next closed =>
    rw [closed]
    by_cases same : other = listener
    · subst same
      convert ReflTransGen.single (Intake.Step.missed (state.intake began other) spawned closed) using 1
      simp [intake, sent, handled, ListenerManager.modify]
    · rw [intake_modify_other same]
      simpa [same] using .refl
  · next queue serving =>
    rw [serving]
    by_cases same : other = listener
    · subst same
      convert ReflTransGen.single (Intake.Step.began (state.intake began other) spawned serving) using 1
      simp [intake, sent, handled, ListenerManager.modify]
    · rw [intake_modify_other same]
      simpa [same] using .refl

/-- The channel of a listener takes a result. -/
theorem chain_send {result : AcceptResult} (serving : (state.heap listener).server.isSome) :
    ReflTransGen Intake.Step (state.intake began other) ((state.send listener result).intake began other) := by
  obtain ⟨queue, serving⟩ := Option.isSome_iff_exists.mp serving
  by_cases same : other = listener
  · subst same
    convert ReflTransGen.single (Intake.Step.sent (state.intake began other) result serving) using 1
    simp only [intake, send, sent_record_sent, if_true]
    simp [record, ListenerManager.modify, handled, sent, Observation.handledBy, serving]
  · have kept : (state.send listener result).intake began other = state.intake began other := by
      simp only [intake, send, sent_record_sent, if_neg same]
      simp [record, ListenerManager.modify, handled, sent, Observation.handledBy, Function.update_of_ne same]
    rw [kept]

/-- The accept loop takes a result from the channel. -/
theorem chain_onReceived {result : AcceptResult} {rest : List AcceptResult}
    (receiving : (state.heap listener).accepting = .receiving)
    (serving : (state.heap listener).server = some (result :: rest)) :
    ReflTransGen Intake.Step (state.intake began other)
      ((state.onReceived listener result rest).intake began other) := by
  cases result with
  | error error =>
    by_cases same : other = listener
    · subst same
      convert ReflTransGen.single (Intake.Step.failed (state.intake began other) receiving serving) using 1
      simp [intake, onReceived, ListenerManager.modify, sent, handled]
    · have kept : (state.onReceived listener (.error error) rest).intake began other = state.intake began other := by
        simp only [onReceived, intake_modify_other same]
      rw [kept]
  | ok connection =>
    by_cases same : other = listener
    · subst same
      convert ReflTransGen.single (Intake.Step.taken (state.intake began other) receiving serving) using 1
      simp [intake, onReceived, asyncAccept, onConnection, addConnectionToPeer, record, ListenerManager.modify, sent,
        handled, Observation.sentTo, Observation.handledBy, receiving]
    · have kept : (state.onReceived listener (.ok connection) rest).intake began other = state.intake began other := by
        simp [intake, onReceived, asyncAccept, onConnection, addConnectionToPeer, record, ListenerManager.modify, sent,
          handled, Observation.sentTo, Observation.handledBy, Function.update_of_ne same, Ne.symm same]
      rw [kept]

theorem frame_asyncAccept : (state.asyncAccept listener).log = state.log ∧
    (state.asyncAccept listener).connections = state.connections ∧
    (state.asyncAccept listener).established = state.established ∧
    (state.asyncAccept listener).allocated = state.allocated ∧
    (state.asyncAccept listener).listeners = state.listeners ∧
    (state.asyncAccept listener).started = state.started ∧
    ∀ other, other ≠ listener → (state.asyncAccept listener).heap other = state.heap other := by
  unfold asyncAccept
  split
  · exact ⟨rfl, rfl, rfl, rfl, rfl, rfl, fun other different => Function.update_of_ne different ..⟩
  · exact ⟨rfl, rfl, rfl, rfl, rfl, rfl, fun other different => Function.update_of_ne different ..⟩

/-- A new listener is as its object was before. -/
theorem chain_createListener {immediate : Bool} (fresh : state.heap state.allocated = {}) :
    ReflTransGen Intake.Step (state.intake began other) ((state.createListener immediate).intake began other) := by
  set created : ListenerManager Address := { state with
    heap := Function.update state.heap state.allocated {}, allocated := state.allocated + 1 } with isCreated
  have same : created.heap = state.heap := by rw [isCreated, ← fresh, Function.update_eq_self]
  have view : created.intake began other = state.intake began other := by
    simp only [intake, same]
    rfl
  rw [← view]
  unfold createListener
  dsimp only
  rw [← isCreated]
  split_ifs
  · have spawned : (created.heap state.allocated).accepting = .spawned := by rw [same, fresh]
    have closed : (created.heap state.allocated).server = none := by rw [same, fresh]
    have chain : ReflTransGen Intake.Step (created.intake began other) _ := chain_asyncAccept spawned
    simpa only [closed, Option.isSome_none, Bool.false_eq_true, and_false, or_false] using chain
  · exact .refl

theorem frame_createListener {immediate : Bool} : (state.createListener immediate).log = state.log ∧
    (state.createListener immediate).connections = state.connections ∧
    (state.createListener immediate).established = state.established ∧
    (state.createListener immediate).allocated = state.allocated + 1 ∧
    (state.createListener immediate).listeners = state.listeners ∧
    ∀ other, other ≠ state.allocated → (state.createListener immediate).heap other = state.heap other := by
  unfold createListener
  dsimp only
  split_ifs
  · set created : ListenerManager Address := { state with
      heap := Function.update state.heap state.allocated {}, allocated := state.allocated + 1 }
    have frame : (created.asyncAccept state.allocated).log = created.log ∧ _ := frame_asyncAccept
    obtain ⟨log, connections, established, allocated, listeners, -, heap⟩ := frame
    refine ⟨log, connections, established, allocated, listeners, ?_⟩
    intro other different
    rw [heap other different]
    exact Function.update_of_ne different ..
  · exact ⟨rfl, rfl, rfl, rfl, rfl, fun other different => Function.update_of_ne different ..⟩

/-- A connection that is added is known, and the others stay known. -/
theorem held_addConnectionToPeer {connection : Connection} {peerId : PeerId} {added : Connection}
    (held : added = connection ∧ peerId = connection.remotePeer ∨
      ∃ known, state.connections.lookup connection.remotePeer = some known ∧ connection ∈ known) :
    ∃ known, (state.addConnectionToPeer peerId added).connections.lookup connection.remotePeer = some known ∧
      connection ∈ known := by
  unfold addConnectionToPeer
  dsimp only
  rw [UnorderedMap.lookup_insert_eq]
  rcases held with ⟨rfl, rfl⟩ | ⟨known, found, member⟩
  · exact ⟨_, if_pos rfl, by simp⟩
  · split_ifs with same
    · refine ⟨_, rfl, ?_⟩
      rw [← same, found]
      simp [member]
    · exact ⟨known, found, member⟩

end Views

section Progress

/-- How often the accept loop of a listener can still be resumed. -/
def QuicListener.weight (listener : QuicListener) : ℕ :=
  match listener.accepting with
  | .spawned => 1 + (listener.server.getD []).length
  | .receiving => (listener.server.getD []).length
  | .ended => 0

def ListenerManager.pending (state : ListenerManager Address) : ℕ :=
  ∑ listener ∈ Finset.range state.allocated, (state.heap listener).weight

theorem pending_lt (created : listener < before.allocated) (allocated : after.allocated = before.allocated)
    (heap : ∀ other, other ≠ listener → after.heap other = before.heap other)
    (lighter : (after.heap listener).weight < (before.heap listener).weight) : after.pending < before.pending := by
  rw [ListenerManager.pending, ListenerManager.pending, allocated]
  refine Finset.sum_lt_sum ?_ ⟨listener, Finset.mem_range.mpr created, lighter⟩
  intro other _
  by_cases same : other = listener
  · rw [same]
    exact lighter.le
  · rw [heap other same]

theorem pending_asyncAccept (created : listener < state.allocated)
    (spawned : (state.heap listener).accepting = .spawned) : (state.asyncAccept listener).pending < state.pending := by
  have frame : (state.asyncAccept listener).log = state.log ∧ _ := frame_asyncAccept
  obtain ⟨-, -, -, allocated, -, -, heap⟩ := frame
  refine pending_lt created allocated heap ?_
  unfold asyncAccept
  split
  · next closed => simp [heap_modify, QuicListener.weight, spawned]
  · next queue serving => simp [heap_modify, QuicListener.weight, spawned, serving]

theorem pending_onReceived {result : AcceptResult} {rest : List AcceptResult} (created : listener < state.allocated)
    (receiving : (state.heap listener).accepting = .receiving)
    (serving : (state.heap listener).server = some (result :: rest)) :
    (state.onReceived listener result rest).pending < state.pending := by
  cases result with
  | error error =>
    refine pending_lt created rfl ?_ ?_
    · intro other different
      simp only [onReceived, heap_modify, if_neg different]
    · simp [onReceived, heap_modify, QuicListener.weight, receiving, serving]
  | ok connection =>
    set handed := ((state.modify listener fun listener => { listener with server := some rest }).onConnection
      (.ok connection)).record (.handled listener connection) with isHanded
    have frame : (handed.asyncAccept listener).log = handed.log ∧ _ := frame_asyncAccept
    obtain ⟨-, -, -, allocated, -, -, heap⟩ := frame
    refine pending_lt created allocated ?_ ?_
    · intro other different
      exact (heap other different).trans (Function.update_of_ne different ..)
    · simp [onReceived, onConnection, addConnectionToPeer, record, asyncAccept, ListenerManager.modify,
        QuicListener.weight, receiving, serving]

end Progress

end Libp2p.Network
