import Libp2p.Network.ListenerManager

/-! # Dialing a peer over its addresses

A call of `dial` that finds neither a connection nor a context for its peer creates a context with a queue of addresses
and works through it with `rotate`, one address after the other. It is suspended while a transport dials; other calls
for the same peer then only add addresses to the queue. What happens for a call is logged, and its history is
read back from there.
-/

namespace Libp2p.Network

open Library

namespace Dialer

inductive Error where
  | anotherDialInProgress
  | stateInconsistency
  | noDestinationAddress
  | addressFamilyNotSupported
  | hostUnreachable
deriving DecidableEq, Repr

/-- An error of the dialer, or one that a transport reports. -/
inductive DialError (Failure : Type) where
  | dialer (error : Error)
  | transport (failure : Failure)
deriving DecidableEq

abbrev DialResult (Failure : Type) := Except (DialError Failure) Connection

/-- Calls of `dial`, in the order in which they are made. -/
abbrev CallPtr := ℕ

/-- A context; the call that created it is not part of the source. -/
structure DialCtx (Address Failure : Type) where
  addrQueue : List Address
  addrSeen : UnorderedSet Address
  result : Option (DialResult Failure) := none
  dialled : Bool := false
  creator : CallPtr

/-- Where a call is: inside `rotate`, suspended while a transport dials, or over. -/
inductive Progress (Address Failure : Type) where
  | rotating
  | dialing (peerId : PeerId) (address : Address)
  | returned (result : DialResult Failure)
deriving DecidableEq

inductive Observation (Address Failure : Type) where
  | queued (call : CallPtr) (address : Address)
  | taken (call : CallPtr) (address : Address)
  | dialing (call : CallPtr) (address : Address)
  | outcome (call : CallPtr) (result : DialResult Failure)
  | dialFailed (peerId : PeerId) (address : Address)
  | connected (connection : Connection)

inductive Event (Address Failure : Type) where
  | dial (peerId : PeerId) (addresses : List Address) (best : Option Connection)
  | outcome (call : CallPtr) (result : Except Failure Connection)

end Dialer

/-- The contexts, where every call is, and what happened, the newest first. -/
structure Dialer (Address Failure : Type) where
  dialingPeers : UnorderedMap PeerId (Dialer.DialCtx Address Failure) := ∅
  calls : Dialer.CallPtr → Dialer.Progress Address Failure := fun _ => .rotating
  allocated : ℕ := 0
  log : List (Dialer.Observation Address Failure) := []

namespace Dialer

section Operations

variable {Address Failure : Type} [DecidableEq Address]

def record (observation : Observation Address Failure) (state : Dialer Address Failure) : Dialer Address Failure :=
  { state with log := observation :: state.log }

def proceed (call : CallPtr) (progress : Progress Address Failure) (state : Dialer Address Failure) :
    Dialer Address Failure :=
  { state with calls := Function.update state.calls call progress }

def modifyCtx (peerId : PeerId) (change : DialCtx Address Failure → DialCtx Address Failure)
    (state : Dialer Address Failure) : Dialer Address Failure :=
  { state with dialingPeers := UnorderedMap.modify state.dialingPeers peerId change }

def completeDial (peerId : PeerId) (state : Dialer Address Failure) : Dialer Address Failure :=
  { state with dialingPeers := state.dialingPeers.erase peerId }

/-- An empty queue ends the call. -/
def exhaust (call : CallPtr) (peerId : PeerId) (ctx : DialCtx Address Failure) (state : Dialer Address Failure) :
    Dialer Address Failure :=
  if ¬ ctx.dialled then
    (state.completeDial peerId).proceed call (.returned (.error (.dialer .addressFamilyNotSupported)))
  else
    match ctx.result with
    | some result => (state.completeDial peerId).proceed call (.returned result)
    | none => (state.completeDial peerId).proceed call (.returned (.error (.dialer .hostUnreachable)))

/-- `rotate` until the call is suspended or over, with one invocation per unit of `room`. A transport is found for the
addresses that the environment supports. -/
def rotate (supported : Address → Bool) (call : CallPtr) (peerId : PeerId) :
    ℕ → Dialer Address Failure → Dialer Address Failure
  | 0, state => state
  | room + 1, state =>
    match state.dialingPeers.lookup peerId with
    | none => state.proceed call (.returned (.error (.dialer .stateInconsistency)))
    | some ctx =>
      match ctx.addrQueue with
      | [] => state.exhaust call peerId ctx
      | address :: rest =>
        let state := (state.modifyCtx peerId fun ctx => { ctx with addrQueue := rest }).record (.taken call address)
        if supported address then
          ((state.modifyCtx peerId fun ctx => { ctx with dialled := true }).record (.dialing call address)).proceed call
            (.dialing peerId address)
        else rotate supported call peerId room state

/-- `rotate` with room for all addresses in the queue. -/
def rotateAll (supported : Address → Bool) (call : CallPtr) (peerId : PeerId) (state : Dialer Address Failure) :
    Dialer Address Failure :=
  state.rotate supported call peerId (((state.dialingPeers.lookup peerId).elim 0 fun ctx => ctx.addrQueue.length) + 1)

/-- Another call offers an address to a context; one that was seen is not queued again. -/
def offer (peerId : PeerId) (state : Dialer Address Failure) (address : Address) : Dialer Address Failure :=
  match state.dialingPeers.lookup peerId with
  | none => state
  | some ctx =>
    if address ∈ ctx.addrSeen then state
    else (state.modifyCtx peerId fun ctx => { ctx with
      addrSeen := ctx.addrSeen.insert address
      addrQueue := ctx.addrQueue ++ [address] }).record (.queued ctx.creator address)

/-- A new context with all addresses of the call. -/
def createCtx (call : CallPtr) (peerId : PeerId) (addresses : List Address) (state : Dialer Address Failure) :
    Dialer Address Failure :=
  let ctx : DialCtx Address Failure := {
    addrQueue := addresses
    addrSeen := addresses.foldl UnorderedSet.insert ∅
    creator := call }
  addresses.foldl (fun state address => state.record (.queued call address))
    { state with dialingPeers := UnorderedMap.emplace state.dialingPeers peerId ctx }

/-- `dial`, with the best connection that the connection manager has for the peer. -/
def dial (supported : Address → Bool) (peerId : PeerId) (addresses : List Address) (best : Option Connection)
    (state : Dialer Address Failure) : Dialer Address Failure :=
  let call := state.allocated
  let state := { state with allocated := state.allocated + 1 }
  match best with
  | some connection => state.proceed call (.returned (.ok connection))
  | none =>
    if peerId ∈ state.dialingPeers then
      (addresses.foldl (offer peerId) state).proceed call (.returned (.error (.dialer .anotherDialInProgress)))
    else if addresses = [] then state.proceed call (.returned (.error (.dialer .noDestinationAddress)))
    else (state.createCtx call peerId addresses).rotateAll supported call peerId

/-- A transport dial is over and its call resumes. -/
def resume (supported : Address → Bool) (call : CallPtr) (peerId : PeerId) (address : Address)
    (result : Except Failure Connection) (state : Dialer Address Failure) : Dialer Address Failure :=
  let outcome : DialResult Failure := result.mapError .transport
  let state := (state.proceed call .rotating).record (.outcome call outcome)
  if peerId ∉ state.dialingPeers then state.proceed call (.returned (.error (.dialer .stateInconsistency)))
  else
    match result with
    | .ok connection =>
      ((state.record (.connected connection)).completeDial peerId).proceed call (.returned (.ok connection))
    | .error _ =>
      ((state.record (.dialFailed peerId address)).modifyCtx peerId fun ctx =>
        { ctx with result := some outcome }).rotateAll supported call peerId

/-- One event; `none` when it cannot happen. -/
def step (supported : Address → Bool) (state : Dialer Address Failure) :
    Event Address Failure → Option (Dialer Address Failure)
  | .dial peerId addresses best => some (state.dial supported peerId addresses best)
  | .outcome call result =>
    if call < state.allocated then
      match state.calls call with
      | .dialing peerId address => some (state.resume supported call peerId address result)
      | _ => none
    else none

end Operations

section Histories

variable {Address Failure : Type}

/-- What happened for a call: the addresses that entered its queue, those that `rotate` took from it, those that were
given to a transport, and how these dials ended. -/
structure History (Address Failure : Type) where
  queued : List Address := []
  taken : List Address := []
  dialed : List Address := []
  outcomes : List (DialResult Failure) := []

def History.note (call : CallPtr) (history : History Address Failure) :
    Observation Address Failure → History Address Failure
  | .queued other address => if other = call then { history with queued := history.queued ++ [address] } else history
  | .taken other address => if other = call then { history with taken := history.taken ++ [address] } else history
  | .dialing other address => if other = call then { history with dialed := history.dialed ++ [address] } else history
  | .outcome other result => if other = call then { history with outcomes := history.outcomes ++ [result] } else history
  | _ => history

def history (call : CallPtr) (state : Dialer Address Failure) : History Address Failure :=
  state.log.foldr (fun observation history => history.note call observation) {}

def isOk : DialResult Failure → Bool
  | .ok _ => true
  | .error _ => false

/-- What a call should return for the outcomes of its dials: the first connection, else the last error. -/
def verdict (outcomes : List (DialResult Failure)) : DialResult Failure :=
  (outcomes.find? isOk).getD (outcomes.getLast?.getD (.error (.dialer .addressFamilyNotSupported)))

/-- How a call that created a context has ended: it dialed addresses in the order of the queue as long as dials failed,
the whole queue if all of them did. -/
structure Concluded (supported : Address → Bool) (history : History Address Failure) (result : DialResult Failure) :
    Prop where
  taken : history.taken <+: history.queued
  dialed : history.dialed = history.taken.filter supported
  paired : history.outcomes.length = history.dialed.length
  failed : ∀ outcome ∈ history.outcomes.dropLast, ∃ failure, outcome = .error (.transport failure)
  ended : ∀ outcome ∈ history.outcomes,
    (∃ connection, outcome = .ok connection) ∨ ∃ failure, outcome = .error (.transport failure)
  all : isOk result = false → history.taken = history.queued
  result : result = verdict history.outcomes

/-- A context of a call that has not returned, `pending` dials of which are not over. -/
structure Ongoing (supported : Address → Bool) (pending : ℕ) (history : History Address Failure)
    (ctx : DialCtx Address Failure) : Prop where
  entered : history.queued ≠ []
  queue : history.queued = history.taken ++ ctx.addrQueue
  dialed : history.dialed = history.taken.filter supported
  paired : history.outcomes.length + pending = history.dialed.length
  failed : ∀ outcome ∈ history.outcomes, ∃ failure, outcome = .error (.transport failure)
  result : ctx.result = history.outcomes.getLast?
  dialled : ctx.dialled = false ↔ history.dialed = []

/-- A call returned without a context of its own, or concluded its context. -/
def Returned (supported : Address → Bool) (history : History Address Failure) (result : DialResult Failure) : Prop :=
  if history.queued = [] then
    isOk result = true ∨ result = .error (.dialer .anotherDialInProgress) ∨ result = .error (.dialer .noDestinationAddress)
  else Concluded supported history result

/-- The context of a peer belongs to a call that waits for a dial to it. -/
def PeerSound (supported : Address → Bool) (bound : ℕ) (peerId : PeerId) (state : Dialer Address Failure) : Prop :=
  ∀ ctx, state.dialingPeers.lookup peerId = some ctx → ctx.creator < bound ∧
    (∃ address, state.calls ctx.creator = .dialing peerId address) ∧
    Ongoing supported 1 (state.history ctx.creator) ctx

/-- A call that waits for a dial has a context, and one that has returned was right to do so. -/
def CallSound (supported : Address → Bool) (call : CallPtr) (state : Dialer Address Failure) : Prop :=
  match state.calls call with
  | .rotating => False
  | .dialing peerId _ => ∃ ctx, state.dialingPeers.lookup peerId = some ctx ∧ ctx.creator = call
  | .returned result => Returned supported (state.history call) result

/-- The calls below the bound are sound and account for all contexts. -/
structure Sound (supported : Address → Bool) (bound : ℕ) (state : Dialer Address Failure) : Prop where
  peers : ∀ peerId, state.PeerSound supported bound peerId
  calls : ∀ call < bound, state.CallSound supported call
  fresh : ∀ call, bound ≤ call → state.history call = {}

end Histories

variable {Address Failure : Type} {supported : Address → Bool} {state before after : Dialer Address Failure}
  {call other : CallPtr} {peerId : PeerId} {ctx : DialCtx Address Failure} {history : History Address Failure}

section Conclusions

theorem verdict_failed {outcomes : List (DialResult Failure)}
    (failed : ∀ outcome ∈ outcomes, ∃ failure, outcome = .error (.transport failure)) :
    verdict outcomes = outcomes.getLast?.getD (.error (.dialer .addressFamilyNotSupported)) := by
  have none : outcomes.find? isOk = none := by
    rw [List.find?_eq_none]
    intro outcome member
    obtain ⟨failure, rfl⟩ := failed outcome member
    simp [isOk]
  rw [verdict, none, Option.getD_none]

theorem verdict_connected {outcomes : List (DialResult Failure)} {connection : Connection}
    (failed : ∀ outcome ∈ outcomes, ∃ failure, outcome = .error (.transport failure)) :
    verdict (outcomes ++ [.ok connection]) = .ok connection := by
  have none : outcomes.find? isOk = none := by
    rw [List.find?_eq_none]
    intro outcome member
    obtain ⟨failure, rfl⟩ := failed outcome member
    simp [isOk]
  rw [verdict, List.find?_append, none]
  rfl

/-- A context with an empty queue and no pending dial is ready for its verdict. -/
theorem Ongoing.concluded (ongoing : Ongoing supported 0 history ctx) (empty : ctx.addrQueue = []) :
    Concluded supported history (verdict history.outcomes) where
  taken := ⟨ctx.addrQueue, ongoing.queue.symm⟩
  dialed := ongoing.dialed
  paired := ongoing.paired
  failed outcome member := ongoing.failed outcome (List.dropLast_subset _ member)
  ended outcome member := .inr (ongoing.failed outcome member)
  all _ := by rw [ongoing.queue, empty, List.append_nil]
  result := rfl

/-- A dial that succeeds concludes its call. -/
theorem Ongoing.connected {connection : Connection} (ongoing : Ongoing supported 1 history ctx) :
    Concluded supported { history with outcomes := history.outcomes ++ [.ok connection] } (.ok connection) where
  taken := ⟨ctx.addrQueue, ongoing.queue.symm⟩
  dialed := ongoing.dialed
  paired := by
    rw [List.length_append]
    exact ongoing.paired
  failed outcome member := by
    rw [List.dropLast_concat] at member
    exact ongoing.failed outcome member
  ended outcome member := by
    rcases List.mem_append.mp member with earlier | last
    · exact .inr (ongoing.failed outcome earlier)
    · exact .inl ⟨connection, List.mem_singleton.mp last⟩
  all failed := by cases failed
  result := (verdict_connected ongoing.failed).symm

/-- What `exhaust` returns is the verdict. -/
theorem exhaust_eq (ongoing : Ongoing supported 0 history ctx) : state.exhaust call peerId ctx =
    (state.completeDial peerId).proceed call (.returned (verdict history.outcomes)) := by
  have paired : history.outcomes.length = history.dialed.length := ongoing.paired
  rw [verdict_failed ongoing.failed, ← ongoing.result]
  unfold exhaust
  by_cases dialled : ctx.dialled
  · have some_ : history.outcomes ≠ [] := by
      intro empty
      rw [empty, List.length_nil] at paired
      have undialled := ongoing.dialled.mpr (List.length_eq_zero_iff.mp paired.symm)
      rw [dialled] at undialled
      cases undialled
    rw [if_neg (not_not.mpr dialled), ongoing.result, List.getLast?_eq_some_getLast some_]
    rfl
  · have none : history.dialed = [] := ongoing.dialled.mp (Bool.eq_false_of_not_eq_true dialled)
    rw [none, List.length_nil, List.length_eq_zero_iff] at paired
    rw [if_pos dialled, ongoing.result, paired]
    rfl

/-- What a concluded call returns is never an error that stands for a broken context. -/
theorem Concluded.regular {history : History Address Failure} {result : DialResult Failure}
    (concluded : Concluded supported history result) :
    result ≠ .error (.dialer .stateInconsistency) ∧ result ≠ .error (.dialer .hostUnreachable) := by
  have cases : isOk result = true ∨ result = .error (.dialer .addressFamilyNotSupported) ∨
      ∃ failure, result = .error (.transport failure) := by
    rw [concluded.result, verdict]
    cases connected : history.outcomes.find? isOk with
    | some outcome => exact .inl (List.find?_some connected)
    | none =>
      cases last : history.outcomes.getLast? with
      | none => exact .inr (.inl rfl)
      | some outcome =>
        rcases concluded.ended outcome (List.mem_of_getLast? last) with ⟨connection, rfl⟩ | ⟨failure, rfl⟩
        · exact .inl rfl
        · exact .inr (.inr ⟨failure, rfl⟩)
  rcases cases with ok | rfl | ⟨failure, rfl⟩
  · constructor
    · rintro rfl
      cases ok
    · rintro rfl
      cases ok
  · simp
  · simp

end Conclusions

section Rotation

/-- A change that only concerns one call and the context of one peer. -/
structure Elsewhere (call : CallPtr) (peerId : PeerId) (before after : Dialer Address Failure) : Prop where
  allocated : after.allocated = before.allocated
  calls : ∀ other, other ≠ call → after.calls other = before.calls other
  histories : ∀ other, other ≠ call → after.history other = before.history other
  contexts : ∀ other, other ≠ peerId → after.dialingPeers.lookup other = before.dialingPeers.lookup other

theorem Elsewhere.trans {middle : Dialer Address Failure} (first : Elsewhere call peerId before middle)
    (second : Elsewhere call peerId middle after) : Elsewhere call peerId before after where
  allocated := second.allocated.trans first.allocated
  calls other different := (second.calls other different).trans (first.calls other different)
  histories other different := (second.histories other different).trans (first.histories other different)
  contexts other different := (second.contexts other different).trans (first.contexts other different)

/-- A call that worked through its queue: it waits for a dial, or its context is gone and it has returned. -/
inductive Settled (supported : Address → Bool) (call : CallPtr) (peerId : PeerId) (state : Dialer Address Failure) : Prop
  | waiting (address : Address) (ctx : DialCtx Address Failure) (progress : state.calls call = .dialing peerId address)
      (found : state.dialingPeers.lookup peerId = some ctx) (creator : ctx.creator = call)
      (ongoing : Ongoing supported 1 (state.history call) ctx)
  | over (result : DialResult Failure) (progress : state.calls call = .returned result)
      (gone : state.dialingPeers.lookup peerId = none) (entered : (state.history call).queued ≠ [])
      (concluded : Concluded supported (state.history call) result)

theorem lookup_modifyCtx {peer : PeerId} {change : DialCtx Address Failure → DialCtx Address Failure} :
    (state.modifyCtx peerId change).dialingPeers.lookup peer =
      if peer = peerId then (state.dialingPeers.lookup peerId).map change else state.dialingPeers.lookup peer :=
  UnorderedMap.lookup_modify change

/-- The call gives up its context and returns. -/
theorem elsewhere_complete {result : DialResult Failure} :
    Elsewhere call peerId state ((state.completeDial peerId).proceed call (.returned result)) where
  allocated := rfl
  calls _ different := Function.update_of_ne different _ _
  histories _ _ := rfl
  contexts other different := by
    change (state.dialingPeers.erase peerId).lookup other = _
    rw [UnorderedMap.lookup_erase_eq, if_neg different]

/-- The context of the peer changes, and something is noted for the call. -/
theorem elsewhere_modify {change : DialCtx Address Failure → DialCtx Address Failure}
    {observation : Observation Address Failure}
    (own : ∀ other, other ≠ call → ∀ history : History Address Failure, history.note other observation = history) :
    Elsewhere call peerId state ((state.modifyCtx peerId change).record observation) where
  allocated := rfl
  calls _ _ := rfl
  histories other different := own other different _
  contexts other different := by
    change (state.modifyCtx peerId change).dialingPeers.lookup other = _
    rw [lookup_modifyCtx, if_neg different]

theorem elsewhere_proceed {progress : Progress Address Failure} :
    Elsewhere call peerId state (state.proceed call progress) where
  allocated := rfl
  calls _ different := Function.update_of_ne different _ _
  histories _ _ := rfl
  contexts _ _ := rfl

theorem Ongoing.take {address : Address} {rest : List Address} (ongoing : Ongoing supported 0 history ctx)
    (queue : ctx.addrQueue = address :: rest) (unsupported : supported address = false) :
    Ongoing supported 0 { history with taken := history.taken ++ [address] } { ctx with addrQueue := rest } where
  entered := ongoing.entered
  queue := by rw [ongoing.queue, queue, List.append_assoc]; rfl
  dialed := by rw [List.filter_append, ongoing.dialed]; simp [unsupported]
  paired := ongoing.paired
  failed := ongoing.failed
  result := ongoing.result
  dialled := ongoing.dialled

theorem Ongoing.start {address : Address} {rest : List Address} (ongoing : Ongoing supported 0 history ctx)
    (queue : ctx.addrQueue = address :: rest) (chosen : supported address = true) :
    Ongoing supported 1 { history with taken := history.taken ++ [address], dialed := history.dialed ++ [address] }
      { ctx with addrQueue := rest, dialled := true } where
  entered := ongoing.entered
  queue := by rw [ongoing.queue, queue, List.append_assoc]; rfl
  dialed := by rw [List.filter_append, ongoing.dialed]; simp [chosen]
  paired := by
    have paired : history.outcomes.length = history.dialed.length := ongoing.paired
    rw [List.length_append, paired]
    rfl
  failed := ongoing.failed
  result := ongoing.result
  dialled := by simp

/-- `rotate` takes addresses until a transport dials or the queue is empty, which its room allows for. -/
theorem rotate_spec {room : ℕ} (found : state.dialingPeers.lookup peerId = some ctx) (creator : ctx.creator = call)
    (ongoing : Ongoing supported 0 (state.history call) ctx) (enough : ctx.addrQueue.length < room) :
    Elsewhere call peerId state (state.rotate supported call peerId room) ∧
      Settled supported call peerId (state.rotate supported call peerId room) := by
  induction room generalizing state ctx with
  | zero => exact absurd enough (Nat.not_lt_zero _)
  | succ room ih =>
    unfold rotate
    simp only [found]
    split
    · next empty =>
      rw [exhaust_eq ongoing]
      refine ⟨elsewhere_complete, .over (verdict (state.history call).outcomes) (Function.update_self ..) ?_
        ongoing.entered (ongoing.concluded empty)⟩
      exact AList.lookup_erase _ _
    · next address rest queue =>
      have taken : Elsewhere call peerId state ((state.modifyCtx peerId fun ctx =>
          { ctx with addrQueue := rest }).record (.taken call address)) :=
        elsewhere_modify fun other different history => if_neg different.symm
      have history : ((state.modifyCtx peerId fun ctx => { ctx with addrQueue := rest }).record
          (.taken call address)).history call = { state.history call with
            taken := (state.history call).taken ++ [address] } := if_pos rfl
      have context : ((state.modifyCtx peerId fun ctx => { ctx with addrQueue := rest }).record
          (.taken call address)).dialingPeers.lookup peerId = some { ctx with addrQueue := rest } :=
        lookup_modifyCtx.trans (by rw [if_pos rfl, found]; rfl)
      generalize ((state.modifyCtx peerId fun ctx => { ctx with addrQueue := rest }).record
          (.taken call address)) = next at taken history context
      split_ifs with chosen
      · have started : Elsewhere call peerId next ((next.modifyCtx peerId fun ctx =>
            { ctx with dialled := true }).record (.dialing call address)) :=
          elsewhere_modify fun other different history => if_neg different.symm
        refine ⟨(taken.trans started).trans elsewhere_proceed, .waiting address
          { ctx with addrQueue := rest, dialled := true } (Function.update_self ..) ?_ creator ?_⟩
        · exact lookup_modifyCtx.trans (by rw [if_pos rfl, context]; rfl)
        · have noted : (((next.modifyCtx peerId fun ctx => { ctx with dialled := true }).record
              (.dialing call address)).proceed call (.dialing peerId address)).history call = { next.history call with
                dialed := (next.history call).dialed ++ [address] } := if_pos rfl
          rw [noted, history]
          exact ongoing.start queue chosen
      · have remaining : rest.length < room := by
          rw [queue, List.length_cons] at enough
          omega
        obtain ⟨elsewhere, settled⟩ := ih context creator
          (by rw [history]; exact ongoing.take queue (Bool.eq_false_of_not_eq_true chosen)) remaining
        exact ⟨taken.trans elsewhere, settled⟩

theorem rotateAll_spec (found : state.dialingPeers.lookup peerId = some ctx) (creator : ctx.creator = call)
    (ongoing : Ongoing supported 0 (state.history call) ctx) :
    Elsewhere call peerId state (state.rotateAll supported call peerId) ∧
      Settled supported call peerId (state.rotateAll supported call peerId) := by
  unfold rotateAll
  exact rotate_spec found creator ongoing (by simp [found])

end Rotation

section Steps

variable {bound : ℕ}

/-- A call that settles leaves the others as they are. -/
theorem sound_settled (sound : before.Sound supported bound) (later : bound ≤ after.allocated)
    (within : call < after.allocated) (rest : ∀ other < after.allocated, other ≠ call → other < bound)
    (apart : ∀ peer ctx, peer ≠ peerId → before.dialingPeers.lookup peer = some ctx → ctx.creator ≠ call)
    (alone : ∀ other address, other < bound → other ≠ call → before.calls other ≠ .dialing peerId address)
    (elsewhere : Elsewhere call peerId before after) (settled : Settled supported call peerId after) :
    after.Sound supported after.allocated := by
  refine ⟨fun peer ctx found => ?_, fun other below => ?_, fun other above => ?_⟩
  · by_cases same : peer = peerId
    · subst same
      cases settled with
      | waiting address ctx' progress found' creator ongoing =>
        obtain rfl := Option.some.inj (found.symm.trans found')
        rw [creator]
        exact ⟨within, ⟨address, progress⟩, ongoing⟩
      | «over» result progress gone => rw [found] at gone; cases gone
    · rw [elsewhere.contexts peer same] at found
      have different := apart peer ctx same found
      obtain ⟨below, waiting, ongoing⟩ := sound.peers peer ctx found
      rw [elsewhere.calls _ different, elsewhere.histories _ different]
      exact ⟨below.trans_le later, waiting, ongoing⟩
  · by_cases same : other = call
    · subst same
      cases settled with
      | waiting address ctx progress found creator ongoing =>
        rw [CallSound, progress]
        exact ⟨ctx, found, creator⟩
      | «over» result progress gone entered concluded =>
        rw [CallSound, progress]
        dsimp only
        rwa [Returned, if_neg entered]
    · have earlier : other < bound := rest other below same
      have kept := sound.calls other earlier
      have free := fun address => alone other address earlier same
      unfold CallSound at kept ⊢
      rw [elsewhere.calls other same, elsewhere.histories other same]
      cases progress : before.calls other with
      | rotating => rwa [progress] at kept
      | returned result => rwa [progress] at kept
      | dialing peer address =>
        rw [progress] at kept
        have away : peer ≠ peerId := by
          rintro rfl
          exact free address progress
        dsimp only at kept ⊢
        rwa [elsewhere.contexts peer away]
  · have away : other ≠ call := (within.trans_le above).ne'
    rw [elsewhere.histories other away]
    exact sound.fresh other (later.trans above)

/-- A call that returns without a context of its own. -/
theorem sound_returned {result : DialResult Failure} (sound : state.Sound supported bound)
    (right : isOk result = true ∨ result = .error (.dialer .anotherDialInProgress) ∨
      result = .error (.dialer .noDestinationAddress)) :
    (state.proceed bound (.returned result)).Sound supported (bound + 1) := by
  have others : ∀ other, other ≠ bound → (state.proceed bound (.returned result)).calls other = state.calls other :=
    fun other different => Function.update_of_ne different _ _
  have own : (state.proceed bound (.returned result)).calls bound = .returned result := Function.update_self ..
  refine ⟨fun peer ctx found => ?_, fun other below => ?_, fun other above => ?_⟩
  · obtain ⟨below, waiting, ongoing⟩ := sound.peers peer ctx found
    rw [others _ below.ne]
    exact ⟨Nat.lt_succ_of_lt below, waiting, ongoing⟩
  · by_cases same : other = bound
    · subst same
      have none : (state.proceed other (.returned result)).history other = {} := sound.fresh other le_rfl
      rw [CallSound, own]
      dsimp only
      rw [Returned, none, if_pos rfl]
      exact right
    · have kept := sound.calls other (Nat.lt_of_le_of_ne (Nat.lt_succ_iff.mp below) same)
      unfold CallSound at kept ⊢
      rw [others other same]
      exact kept
  · exact sound.fresh other ((Nat.le_succ bound).trans above)

theorem Ongoing.offer {address : Address} {seen : UnorderedSet Address} {pending : ℕ}
    (ongoing : Ongoing supported pending history ctx) :
    Ongoing supported pending { history with queued := history.queued ++ [address] }
      { ctx with addrSeen := seen, addrQueue := ctx.addrQueue ++ [address] } where
  entered := by simp
  queue := by rw [ongoing.queue, List.append_assoc]
  dialed := ongoing.dialed
  paired := ongoing.paired
  failed := ongoing.failed
  result := ongoing.result
  dialled := ongoing.dialled

theorem Ongoing.fail {failure : Failure} (ongoing : Ongoing supported 1 history ctx) :
    Ongoing supported 0 { history with outcomes := history.outcomes ++ [.error (.transport failure)] }
      { ctx with result := some (.error (.transport failure)) } where
  entered := ongoing.entered
  queue := ongoing.queue
  dialed := ongoing.dialed
  paired := by
    rw [List.length_append]
    exact ongoing.paired
  failed outcome member := by
    rcases List.mem_append.mp member with earlier | last
    · exact ongoing.failed outcome earlier
    · exact ⟨failure, List.mem_singleton.mp last⟩
  result := by rw [List.getLast?_concat]
  dialled := ongoing.dialled

/-- A call that resumes notes how the dial ended. -/
def noteOutcome (call : CallPtr) (outcome : DialResult Failure) (state : Dialer Address Failure) :
    Dialer Address Failure :=
  (state.proceed call .rotating).record (.outcome call outcome)

theorem resume_ok {address : Address} {connection : Connection} (present : peerId ∈ state.dialingPeers) :
    state.resume supported call peerId address (.ok connection) =
      (((state.noteOutcome call (.ok connection)).record (.connected connection)).completeDial peerId).proceed call
        (.returned (.ok connection)) :=
  if_neg (not_not.mpr present)

theorem resume_error {address : Address} {failure : Failure} (present : peerId ∈ state.dialingPeers) :
    state.resume supported call peerId address (.error failure) =
      (((state.noteOutcome call (.error (.transport failure))).record (.dialFailed peerId address)).modifyCtx peerId
        fun ctx => { ctx with result := some (.error (.transport failure)) }).rotateAll supported call peerId :=
  if_neg (not_not.mpr present)

/-- A call that resumes keeps the dialer sound. -/
theorem sound_resume {address : Address} {result : Except Failure Connection}
    (sound : state.Sound supported state.allocated) (below : call < state.allocated)
    (progress : state.calls call = .dialing peerId address) :
    (state.resume supported call peerId address result).Sound supported
      (state.resume supported call peerId address result).allocated := by
  have waiting := sound.calls call below
  rw [CallSound, progress] at waiting
  obtain ⟨ctx, found, rfl⟩ := waiting
  obtain ⟨-, -, ongoing⟩ := sound.peers peerId ctx found
  have finish : ∀ after, Elsewhere ctx.creator peerId state after → Settled supported ctx.creator peerId after →
      after.Sound supported after.allocated := by
    intro after elsewhere settled
    have allocated := elsewhere.allocated
    refine sound_settled sound allocated.ge (allocated ▸ below) ?_ ?_ ?_ elsewhere settled
    · intro other within _
      rwa [allocated] at within
    · intro peer ctx' different found' same
      obtain ⟨address', progress'⟩ := (sound.peers peer ctx' found').2.1
      rw [same, progress] at progress'
      exact different (Progress.dialing.inj progress').1.symm
    · intro other address' within different progress'
      have kept := sound.calls other within
      rw [CallSound, progress'] at kept
      obtain ⟨ctx', found', creator⟩ := kept
      obtain rfl := Option.some.inj (found.symm.trans found')
      exact different creator.symm
  have resumed : ∀ outcome : DialResult Failure,
      Elsewhere ctx.creator peerId state (state.noteOutcome ctx.creator outcome) := fun outcome =>
    ⟨rfl, fun other different => Function.update_of_ne different _ _, fun other different => if_neg different.symm,
      fun _ _ => rfl⟩
  have noted : ∀ outcome : DialResult Failure, (state.noteOutcome ctx.creator outcome).history ctx.creator =
      { state.history ctx.creator with outcomes := (state.history ctx.creator).outcomes ++ [outcome] } :=
    fun outcome => if_pos rfl
  have present : peerId ∈ state.dialingPeers := UnorderedMap.mem_of_lookup found
  cases result with
  | ok connection =>
    rw [resume_ok present]
    refine finish _ ((resumed (.ok connection)).trans ⟨rfl, fun other different => Function.update_of_ne different _ _,
      fun _ _ => rfl, fun peer different => ?_⟩) (.over (.ok connection) (Function.update_self ..)
        (AList.lookup_erase _ _) ?_ ?_)
    · exact (UnorderedMap.lookup_erase_eq).trans (if_neg different)
    · change ((state.noteOutcome ctx.creator (.ok connection)).history ctx.creator).queued ≠ []
      rw [noted]
      exact ongoing.entered
    · change Concluded supported ((state.noteOutcome ctx.creator (.ok connection)).history ctx.creator) _
      rw [noted]
      exact ongoing.connected
  | error failure =>
    rw [resume_error present]
    set failed := ((state.noteOutcome ctx.creator (.error (.transport failure))).record
      (.dialFailed peerId address)).modifyCtx peerId fun ctx => { ctx with result := some (.error (.transport failure)) }
      with failing
    have elsewhere : Elsewhere ctx.creator peerId state failed :=
      (resumed (.error (.transport failure))).trans ⟨rfl, fun _ _ => rfl, fun _ _ => rfl,
        fun peer different => lookup_modifyCtx.trans (if_neg different)⟩
    have context : failed.dialingPeers.lookup peerId =
        some { ctx with result := some (.error (.transport failure)) } :=
      lookup_modifyCtx.trans (by
        rw [if_pos rfl]
        change (state.dialingPeers.lookup peerId).map _ = _
        rw [found]
        rfl)
    have history : failed.history ctx.creator = { state.history ctx.creator with
        outcomes := (state.history ctx.creator).outcomes ++ [.error (.transport failure)] } := noted _
    obtain ⟨rotated, settled⟩ := @rotateAll_spec Address Failure supported failed ctx.creator peerId _ context rfl
      (by rw [history]; exact ongoing.fail)
    exact finish _ (elsewhere.trans rotated) settled

/-- All addresses of a call are noted as queued. -/
theorem queue_addresses {addresses : List Address} :
    let next := addresses.foldl (fun (state : Dialer Address Failure) address => state.record (.queued call address)) state
    next.dialingPeers = state.dialingPeers ∧ next.calls = state.calls ∧ next.allocated = state.allocated ∧
      next.history call = { state.history call with queued := (state.history call).queued ++ addresses } ∧
      ∀ other, other ≠ call → next.history other = state.history other := by
  induction addresses generalizing state with
  | nil => simp
  | cons address rest ih =>
    obtain ⟨peers, calls, allocated, own, others⟩ := @ih (state.record (.queued call address))
    refine ⟨peers, calls, allocated, own.trans ?_, fun other different => (others other different).trans ?_⟩
    · have noted : (state.record (.queued call address)).history call = { state.history call with
          queued := (state.history call).queued ++ [address] } := if_pos rfl
      rw [noted, List.append_assoc]
      rfl
    · exact if_neg different.symm

end Steps

section Calls

variable [DecidableEq Address] {bound : ℕ}

/-- An address that is offered enters the queue of the call that owns the context. -/
theorem sound_offer (sound : state.Sound supported bound) (address : Address) :
    (state.offer peerId address).Sound supported bound := by
  unfold offer
  split
  · exact sound
  · next ctx found =>
    split_ifs with seen
    · exact sound
    · set offered := (state.modifyCtx peerId fun ctx => { ctx with
        addrSeen := ctx.addrSeen.insert address
        addrQueue := ctx.addrQueue ++ [address] }).record (.queued ctx.creator address) with made
      have own : offered.history ctx.creator = { state.history ctx.creator with
          queued := (state.history ctx.creator).queued ++ [address] } := if_pos rfl
      have others : ∀ other, other ≠ ctx.creator → offered.history other = state.history other :=
        fun other different => if_neg different.symm
      have contexts : ∀ peer, offered.dialingPeers.lookup peer = if peer = peerId then
          some { ctx with addrSeen := ctx.addrSeen.insert address, addrQueue := ctx.addrQueue ++ [address] }
          else state.dialingPeers.lookup peer := by
        intro peer
        refine lookup_modifyCtx.trans ?_
        rw [found]
        rfl
      obtain ⟨below, ⟨address', progress⟩, ongoing⟩ := sound.peers peerId ctx found
      refine ⟨fun peer ctx' found' => ?_, fun other within => ?_, fun other above => ?_⟩
      · rw [contexts] at found'
        split_ifs at found' with same
        · subst same
          obtain rfl := Option.some.inj found'
          refine ⟨below, ⟨address', progress⟩, ?_⟩
          rw [own]
          exact ongoing.offer
        · obtain ⟨below', ⟨address'', progress'⟩, ongoing'⟩ := sound.peers peer ctx' found'
          have different : ctx'.creator ≠ ctx.creator := by
            intro equal
            rw [equal, progress] at progress'
            exact same (Progress.dialing.inj progress').1.symm
          rw [others _ different]
          exact ⟨below', ⟨address'', progress'⟩, ongoing'⟩
      · have kept := sound.calls other within
        unfold CallSound at kept ⊢
        change match state.calls other with
          | .rotating => False
          | .dialing peer _ => ∃ ctx, offered.dialingPeers.lookup peer = some ctx ∧ ctx.creator = other
          | .returned result => Returned supported (offered.history other) result
        cases standing : state.calls other with
        | rotating => rwa [standing] at kept
        | dialing peer address =>
          rw [standing] at kept
          dsimp only at kept ⊢
          obtain ⟨ctx', found', creator⟩ := kept
          rw [contexts]
          split_ifs with same
          · subst same
            obtain rfl := Option.some.inj (found.symm.trans found')
            exact ⟨_, rfl, creator⟩
          · exact ⟨ctx', found', creator⟩
        | returned result =>
          rw [standing] at kept
          dsimp only at kept ⊢
          have different : other ≠ ctx.creator := by
            rintro rfl
            rw [progress] at standing
            cases standing
          rwa [others other different]
      · rw [others other (below.trans_le above).ne']
        exact sound.fresh other above

theorem sound_offers {addresses : List Address} (sound : state.Sound supported bound) :
    (addresses.foldl (offer peerId) state).Sound supported bound := by
  induction addresses generalizing state with
  | nil => exact sound
  | cons address rest ih => exact ih (sound_offer sound address)

theorem allocated_offers {addresses : List Address} :
    (addresses.foldl (offer peerId) state).allocated = state.allocated := by
  induction addresses generalizing state with
  | nil => rfl
  | cons address rest ih =>
    rw [List.foldl_cons, ih]
    unfold offer
    split
    · rfl
    · split_ifs <;> rfl

/-- A new context is only about its call and its peer. -/
theorem createCtx_spec {addresses : List Address} (some_ : addresses ≠ []) (absent : peerId ∉ state.dialingPeers)
    (fresh : state.history call = {}) : Elsewhere call peerId state (state.createCtx call peerId addresses) ∧
      ∃ ctx, (state.createCtx call peerId addresses).dialingPeers.lookup peerId = some ctx ∧ ctx.creator = call ∧
        Ongoing supported 0 ((state.createCtx call peerId addresses).history call) ctx := by
  set ctx : DialCtx Address Failure := {
    addrQueue := addresses
    addrSeen := addresses.foldl UnorderedSet.insert ∅
    creator := call } with context
  obtain ⟨peers, calls, allocated, own, others⟩ := @queue_addresses Address Failure
    { state with dialingPeers := UnorderedMap.emplace state.dialingPeers peerId ctx } call addresses
  have found : ∀ peer, (UnorderedMap.emplace state.dialingPeers peerId ctx).lookup peer =
      if peer = peerId then some ctx else state.dialingPeers.lookup peer := by
    intro peer
    rw [UnorderedMap.lookup_emplace, AList.lookup_eq_none.mpr absent]
    rfl
  have history : (state.createCtx call peerId addresses).history call = { queued := addresses } := by
    refine own.trans ?_
    change ({ state.history call with queued := (state.history call).queued ++ addresses } : History Address Failure) = _
    rw [fresh]
    rfl
  refine ⟨⟨allocated, fun other _ => congrFun calls other, others, fun peer different => ?_⟩, ctx, ?_, rfl, ?_⟩
  · exact (congrArg (AList.lookup peer) peers).trans ((found peer).trans (if_neg different))
  · exact (congrArg (AList.lookup peerId) peers).trans ((found peerId).trans (if_pos rfl))
  · rw [history]
    exact {
      entered := some_
      queue := rfl
      dialed := rfl
      paired := rfl
      failed := by simp
      result := rfl
      dialled := by simp [context] }

/-- A call of `dial` keeps the dialer sound. -/
theorem sound_dial {addresses : List Address} {best : Option Connection}
    (sound : state.Sound supported state.allocated) : (state.dial supported peerId addresses best).Sound supported
      (state.dial supported peerId addresses best).allocated := by
  have counted : ({ state with allocated := state.allocated + 1 } : Dialer Address Failure).Sound supported
      state.allocated := ⟨sound.peers, sound.calls, sound.fresh⟩
  unfold dial
  dsimp only
  split
  · exact sound_returned counted (.inl rfl)
  · split_ifs with busy nowhere
    · have offered := sound_returned (@sound_offers Address Failure supported _ peerId _ _ addresses counted)
        (.inr (.inl rfl))
      change Sound supported (addresses.foldl (offer peerId) _).allocated _
      rw [allocated_offers]
      exact offered
    · exact sound_returned counted (.inr (.inr rfl))
    · obtain ⟨created, ctx, found, creator, ongoing⟩ := @createCtx_spec Address Failure supported
        { state with allocated := state.allocated + 1 } state.allocated peerId _ addresses nowhere busy
        (sound.fresh state.allocated le_rfl)
      obtain ⟨rotated, settled⟩ := rotateAll_spec found creator ongoing
      have elsewhere := created.trans rotated
      have allocated := elsewhere.allocated
      refine sound_settled counted ?_ ?_ ?_ ?_ ?_ elsewhere settled
      · rw [allocated]
        exact Nat.le_succ _
      · rw [allocated]
        exact Nat.lt_succ_self _
      · intro other below different
        rw [allocated] at below
        exact Nat.lt_of_le_of_ne (Nat.lt_succ_iff.mp below) different
      · intro peer ctx _ found
        exact (sound.peers peer ctx found).1.ne
      · intro other address below _ progress
        have kept := sound.calls other below
        rw [CallSound, show state.calls other = .dialing peerId address from progress] at kept
        obtain ⟨ctx, found, -⟩ := kept
        exact busy (UnorderedMap.mem_of_lookup found)

end Calls

section Runs

variable [DecidableEq Address]

/-- The runs of a dialer from construction. -/
abbrev Runs (supported : Address → Bool) : List (Event Address Failure) → Dialer Address Failure → Prop :=
  Run (fun before event after => before.step supported event = some after) {}

theorem sound_of_run {events : List (Event Address Failure)} (run : Runs supported events state) :
    state.Sound supported state.allocated := by
  have initial : Sound supported 0 ({} : Dialer Address Failure) :=
    ⟨fun _ _ found => absurd found (by simp), fun _ below => absurd below (Nat.not_lt_zero _), fun _ _ => rfl⟩
  refine run.preserves (fun state => state.Sound supported state.allocated) initial ?_
  · intro event before after sound stepped
    cases event with
    | dial peerId addresses best =>
      obtain rfl := Option.some.inj stepped
      exact sound_dial sound
    | outcome call result =>
      obtain ⟨below, stepped⟩ := Option.ite_none_right_eq_some.mp stepped
      split at stepped
      · next peerId address progress =>
        obtain rfl := Option.some.inj stepped
        exact sound_resume sound below progress
      · cases stepped

/-- In every run, the context of a peer belongs to a call that waits for a dial to that peer, and a call waits, with its
context, or has returned, without one; it never ends with an error that stands for a broken context. A call that
created a context took its addresses in the order of the queue, each of them once, and returned the first connection,
or else, with the whole queue taken, the last error. -/
theorem dial_sound {events : List (Event Address Failure)} (run : Runs supported events state) :
    (∀ peerId ctx, state.dialingPeers.lookup peerId = some ctx →
      ctx.creator < state.allocated ∧ ∃ address, state.calls ctx.creator = .dialing peerId address) ∧
    (∀ call < state.allocated,
      (∃ peerId address ctx, state.calls call = .dialing peerId address ∧
        state.dialingPeers.lookup peerId = some ctx ∧ ctx.creator = call ∧
        (state.history call).queued = (state.history call).taken ++ ctx.addrQueue) ∨
      ∃ result, state.calls call = .returned result ∧
        (∀ peerId ctx, state.dialingPeers.lookup peerId = some ctx → ctx.creator ≠ call) ∧
        result ≠ .error (.dialer .stateInconsistency) ∧ result ≠ .error (.dialer .hostUnreachable) ∧
        ((state.history call).queued ≠ [] → Concluded supported (state.history call) result)) := by
  have sound := sound_of_run run
  refine ⟨fun peerId ctx found => ?_, fun call below => ?_⟩
  · obtain ⟨below, waiting, -⟩ := sound.peers peerId ctx found
    exact ⟨below, waiting⟩
  · have kept := sound.calls call below
    unfold CallSound at kept
    cases progress : state.calls call with
    | rotating => rw [progress] at kept; cases kept
    | dialing peerId address =>
      rw [progress] at kept
      obtain ⟨ctx, found, rfl⟩ := kept
      exact .inl ⟨peerId, address, ctx, rfl, found, rfl, (sound.peers peerId ctx found).2.2.queue⟩
    | returned result =>
      rw [progress] at kept
      have alone : ∀ peerId ctx, state.dialingPeers.lookup peerId = some ctx → ctx.creator ≠ call := by
        rintro peerId ctx found rfl
        obtain ⟨address, waiting⟩ := (sound.peers peerId ctx found).2.1
        rw [waiting] at progress
        cases progress
      refine .inr ⟨result, rfl, alone, ?_⟩
      dsimp only at kept
      unfold Returned at kept
      split_ifs at kept with empty
      · refine ⟨?_, ?_, fun entered => absurd empty entered⟩
        · rintro rfl
          simp [isOk] at kept
        · rintro rfl
          simp [isOk] at kept
      · exact ⟨kept.regular.1, kept.regular.2, fun _ => kept⟩

/-- A second call adds an address to the queue of the first, whose dials fail until that address is reached. -/
def assistedEvents : List (Event ℕ ℕ) :=
  [.dial samplePeer [0, 1, 2] none, .dial samplePeer [2, 3] none, .outcome 0 (.error 7), .outcome 0 (.error 8),
    .outcome 0 (.ok { id := 0, remotePeer := samplePeer })]

theorem dial_sound_assisted : ∃ state : Dialer ℕ ℕ, Runs (fun address => address ≠ 0) assistedEvents state ∧
    state.calls 0 = .returned (.ok { id := 0, remotePeer := samplePeer }) ∧
    state.calls 1 = .returned (.error (.dialer .anotherDialInProgress)) ∧
    (state.history 0).queued = [0, 1, 2, 3] ∧ (state.history 0).dialed = [1, 2, 3] ∧
    Concluded (fun address => address ≠ 0) (state.history 0) (.ok { id := 0, remotePeer := samplePeer }) := by
  have followed : (assistedEvents.foldlM (step fun address => address ≠ 0) {}).map (fun state : Dialer ℕ ℕ =>
      (state.allocated, state.calls 0, state.calls 1, (state.history 0).queued, (state.history 0).dialed)) =
      some (2, .returned (.ok { id := 0, remotePeer := samplePeer }),
        .returned (.error (.dialer .anotherDialInProgress)), [0, 1, 2, 3], [1, 2, 3]) := by
    decide
  obtain ⟨state, ran, observed⟩ := Option.map_eq_some_iff.mp followed
  simp only [Prod.mk.injEq] at observed
  obtain ⟨allocated, first, second, queued, dialed⟩ := observed
  have run : Runs (fun address => address ≠ 0) assistedEvents state := Run.of_foldlM ran
  refine ⟨state, run, first, second, queued, dialed, ?_⟩
  rcases (dial_sound run).2 0 (by omega) with ⟨peerId, address, ctx, waiting, -⟩ | ⟨result, returned, -, -, -, concluded⟩
  · rw [first] at waiting
    cases waiting
  · rw [first] at returned
    obtain rfl := Progress.returned.inj returned
    exact concluded (by simp [queued])

end Runs

end Dialer

end Libp2p.Network
