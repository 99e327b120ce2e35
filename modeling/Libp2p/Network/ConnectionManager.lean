import Libp2p.Network.ListenerManager

/-! # The connection manager and the disconnections it announces

`closeConnectionsToPeer` takes the connections of a peer out of the map, closes them one after the other and announces
the disconnection at its end, unless the peer has connected again. Closing a connection runs callbacks, so that other
calls of the manager may come in between; the call is modelled by the steps of one activation. That a connection
is closed is a fact of its own, which the environment changes at any time.
-/

namespace Libp2p.Network

open Library

namespace ConnectionManager

/-- What is published, and the calls of `close`. -/
inductive Observation where
  | newConnection (connection : Connection)
  | close (connection : Connection)
  | connectionClosed (connection : Connection)
  | peerDisconnected (peerId : PeerId)
deriving DecidableEq

/-- The peer whose disconnection is announced. -/
def Observation.disconnected : Observation → Option PeerId
  | peerDisconnected peerId => some peerId
  | _ => none

/-- A call of `closeConnectionsToPeer` that has not returned: its peer and the connections left to close. -/
structure Activation where
  peerId : PeerId
  connections : List Connection

inductive Event where
  | addConnectionToPeer (peerId : PeerId) (connection : Option Connection)
  | collectGarbage
  | closeConnectionsToPeer (peerId : PeerId)
  | closeNext
  | finishClosing
  | onConnectionClosed (peerId : PeerId) (connection : Option Connection)
  | closed (connection : Connection)
deriving DecidableEq

end ConnectionManager

/-- The manager, the activation of `closeConnectionsToPeer`, which connections are closed, and what was published, the
newest first. -/
structure ConnectionManager where
  connections : UnorderedMap PeerId (UnorderedSet Connection) := ∅
  closingConnectionsToPeer : Option PeerId := none
  activation : Option ConnectionManager.Activation := none
  isClosed : Connection → Bool := fun _ => false
  log : List ConnectionManager.Observation := []

namespace ConnectionManager

def publish (observation : Observation) (state : ConnectionManager) : ConnectionManager :=
  { state with log := observation :: state.log }

/-- The connections to a peer that are not closed. -/
def getConnectionsToPeer (peerId : PeerId) (state : ConnectionManager) : List Connection :=
  match state.connections.lookup peerId with
  | none => []
  | some known => known.elements.filter fun connection => ! state.isClosed connection

/-- `getBestConnectionForPeer`: the first connection that is not closed. -/
def getBestConnectionForPeer (peerId : PeerId) (state : ConnectionManager) : Option Connection :=
  (state.getConnectionsToPeer peerId).head?

/-- A null pointer is not added. -/
def addConnectionToPeer (peerId : PeerId) (connection : Option Connection) (state : ConnectionManager) :
    ConnectionManager :=
  match connection with
  | none => state
  | some connection =>
    let connections :=
      match state.connections.lookup peerId with
      | none => state.connections.insert peerId ((∅ : UnorderedSet Connection).insert connection)
      | some known => state.connections.insert peerId (known.insert connection)
    ({ state with connections } : ConnectionManager).publish (.newConnection connection)

/-- What `collectGarbage` does to one entry. -/
def collectEntry (isClosed : Connection → Bool) (connections : UnorderedMap PeerId (UnorderedSet Connection))
    (entry : Sigma fun _ : PeerId => UnorderedSet Connection) : UnorderedMap PeerId (UnorderedSet Connection) :=
  let left := entry.2.retain fun connection => ! isClosed connection
  if left.elements = [] then connections.erase entry.1 else connections.insert entry.1 left

def collectGarbage (state : ConnectionManager) : ConnectionManager :=
  { state with connections := state.connections.entries.foldl (collectEntry state.isClosed) state.connections }

/-- `closeConnectionsToPeer` up to its loop; an empty set ends it with an error. -/
def closeConnectionsToPeer (peerId : PeerId) (state : ConnectionManager) : ConnectionManager :=
  match state.connections.lookup peerId with
  | none => state
  | some known =>
    let state := { state with connections := state.connections.erase peerId }
    if known.elements = [] then state
    else { state with
      closingConnectionsToPeer := some peerId
      activation := some { peerId, connections := known.elements } }

/-- The loop of `closeConnectionsToPeer` goes on with its next connection. -/
def closeNext (peerId : PeerId) (connection : Connection) (rest : List Connection) (state : ConnectionManager) :
    ConnectionManager :=
  let state := if state.isClosed connection then state else state.publish (.close connection)
  ({ state with activation := some { peerId, connections := rest } } : ConnectionManager).publish
    (.connectionClosed connection)

/-- What follows the loop of `closeConnectionsToPeer`. -/
def finishClosing (peerId : PeerId) (state : ConnectionManager) : ConnectionManager :=
  let state := { state with closingConnectionsToPeer := none, activation := none }
  if peerId ∈ state.connections then state else state.publish (.peerDisconnected peerId)

def onConnectionClosed (peerId : PeerId) (connection : Option Connection) (state : ConnectionManager) :
    ConnectionManager :=
  if state.closingConnectionsToPeer = some peerId then state
  else
    match state.connections.lookup peerId with
    | none => state
    | some known =>
      let (left, state) :=
        match connection.filter (· ∈ known) with
        | none => (known, state)
        | some connection => (known.erase connection, state.publish (.connectionClosed connection))
      if left.elements = [] then
        ({ state with connections := state.connections.erase peerId } : ConnectionManager).publish
          (.peerDisconnected peerId)
      else { state with connections := state.connections.insert peerId left }

/-- One event; `none` when it cannot happen. While the manager closes the connections of a peer, everything else but
another such call may come in between. -/
def step (state : ConnectionManager) : Event → Option ConnectionManager
  | .addConnectionToPeer peerId connection => some (state.addConnectionToPeer peerId connection)
  | .collectGarbage => some state.collectGarbage
  | .closeConnectionsToPeer peerId =>
    if state.activation.isNone then some (state.closeConnectionsToPeer peerId) else none
  | .closeNext =>
    match state.activation with
    | some { peerId, connections := connection :: rest } => some (state.closeNext peerId connection rest)
    | _ => none
  | .finishClosing =>
    match state.activation with
    | some { peerId, connections := [] } => some (state.finishClosing peerId)
    | _ => none
  | .onConnectionClosed peerId connection => some (state.onConnectionClosed peerId connection)
  | .closed connection => some { state with isClosed := Function.update state.isClosed connection true }

/-- The peers with a stored connection, and the peer whose connections are being closed: to callers it is connected
until that call decides. -/
def connected (state : ConnectionManager) : List PeerId :=
  (state.connections.keys ++ (state.activation.map Activation.peerId).toList).dedup

/-- The peers that a change leaves without a connection. -/
def lost (before after : ConnectionManager) : List PeerId :=
  before.connected.filter (· ∉ after.connected)

/-- The peers that a step leaves without a connection. -/
def losses (state : ConnectionManager) (event : Event) : List PeerId :=
  ((state.step event).map state.lost).getD []

/-- The disconnections that were announced, oldest first. -/
def announced (state : ConnectionManager) : List PeerId := state.log.reverse.filterMap Observation.disconnected

/-- Every stored peer has an open connection, unless it is being disconnected. -/
def Attended (state : ConnectionManager) : Prop :=
  ∀ peerId known, state.connections.lookup peerId = some known →
    state.activation.map Activation.peerId ≠ some peerId → ∃ connection ∈ known, state.isClosed connection = false

/-- Steps of the manager. -/
abbrev Stepping (before : ConnectionManager) (event : Event) (after : ConnectionManager) : Prop :=
  before.step event = some after

/-- Whenever garbage was collected, every peer had an open connection. -/
def Tended (events : List Event) : Prop :=
  ∀ early late state, events = early ++ .collectGarbage :: late → Run Stepping {} early state → state.Attended

/-- No peer has an empty set of connections, and the flag names the peer whose connections are being closed. -/
structure Sound (state : ConnectionManager) : Prop where
  filled : ∀ peerId known, state.connections.lookup peerId = some known → known.elements ≠ []
  flag : state.closingConnectionsToPeer = state.activation.map Activation.peerId

variable {state before after : ConnectionManager} {peerId : PeerId} {event : Event} {events : List Event}
  {missing : List PeerId}

section Losses

theorem mem_connected : peerId ∈ state.connected ↔
    peerId ∈ state.connections ∨ state.activation.map Activation.peerId = some peerId := by
  simp [connected, AList.mem_keys, eq_comm]

/-- Nobody is lost by a change that keeps every peer. -/
theorem lost_eq_nil (kept : ∀ peerId ∈ before.connected, peerId ∈ after.connected) : before.lost after = [] := by
  rw [lost, List.filter_eq_nil_iff]
  simpa using kept

/-- One peer is lost by a change that keeps exactly the others. -/
theorem lost_eq_singleton (member : peerId ∈ before.connected)
    (others : ∀ other ∈ before.connected, other ∈ after.connected ↔ other ≠ peerId) :
    before.lost after = [peerId] := by
  have same : before.lost after = before.connected.filter (· = peerId) := by
    refine List.filter_congr fun other present => ?_
    simp [others other present]
  have distinct : before.connected.Nodup := List.nodup_dedup _
  rw [same, List.filter_eq, List.count_eq_one_of_mem distinct member]
  rfl

theorem announced_publish {observation : Observation} : (state.publish observation).announced =
    state.announced ++ observation.disconnected.toList := by
  rw [announced, publish, List.reverse_cons, List.filterMap_append, announced]
  cases observation <;> rfl

end Losses

section Steps

theorem sound_initial : Sound {} where
  filled _ _ found := by cases found
  flag := rfl

/-- Adding a connection stores it and loses nobody. -/
theorem addConnectionToPeer_spec (sound : before.Sound) (connection : Option Connection) :
    (before.addConnectionToPeer peerId connection).Sound ∧
      before.lost (before.addConnectionToPeer peerId connection) = [] ∧
      (before.addConnectionToPeer peerId connection).announced = before.announced := by
  obtain ⟨filled, flag⟩ := sound
  cases connection with
  | none => exact ⟨⟨filled, flag⟩, lost_eq_nil fun _ => id, rfl⟩
  | some connection =>
    have stored : ∃ known : UnorderedSet Connection, known.elements ≠ [] ∧
        before.addConnectionToPeer peerId (some connection) =
          ({ before with connections := before.connections.insert peerId known } : ConnectionManager).publish
            (.newConnection connection) := by
      have nonempty : ∀ known : UnorderedSet Connection, (known.insert connection).elements ≠ [] := fun known =>
        List.ne_nil_of_mem (UnorderedSet.mem_insert.mpr (.inl rfl))
      unfold addConnectionToPeer
      dsimp only
      split
      · exact ⟨_, nonempty ∅, rfl⟩
      · next known _ => exact ⟨_, nonempty known, rfl⟩
    obtain ⟨known, nonempty, added⟩ := stored
    rw [added]
    refine ⟨⟨fun other set found => ?_, flag⟩, lost_eq_nil fun other present => ?_, ?_⟩
    · change (before.connections.insert peerId known).lookup other = some set at found
      rw [UnorderedMap.lookup_insert_eq] at found
      split_ifs at found
      · rwa [← Option.some.inj found]
      · exact filled other set found
    · rw [mem_connected] at present ⊢
      exact present.imp_left fun present => (AList.mem_insert _).mpr (.inr present)
    · exact announced_publish.trans (List.append_nil _)

/-- `closeConnectionsToPeer` announces nothing before its end. -/
theorem closeConnectionsToPeer_spec (sound : before.Sound) (idle : before.activation = none) :
    (before.closeConnectionsToPeer peerId).Sound ∧ before.lost (before.closeConnectionsToPeer peerId) = [] ∧
      (before.closeConnectionsToPeer peerId).announced = before.announced := by
  obtain ⟨filled, flag⟩ := sound
  unfold closeConnectionsToPeer
  cases found : before.connections.lookup peerId with
  | none => exact ⟨⟨filled, flag⟩, lost_eq_nil fun _ => id, rfl⟩
  | some known =>
    dsimp only
    rw [if_neg (filled peerId known found)]
    refine ⟨⟨fun other set found => ?_, rfl⟩, lost_eq_nil fun other present => ?_, rfl⟩
    · change (before.connections.erase peerId).lookup other = some set at found
      rw [UnorderedMap.lookup_erase_eq] at found
      split_ifs at found
      exact filled other set found
    · rw [mem_connected, idle] at present
      rw [mem_connected]
      by_cases same : other = peerId
      · exact .inr (congrArg some same.symm)
      · rcases present with present | ⟨⟨⟩⟩
        exact .inl (AList.mem_erase.mpr ⟨same, present⟩)

theorem closeNext_spec {connection : Connection} {rest : List Connection} (sound : before.Sound)
    (active : before.activation = some ⟨peerId, connection :: rest⟩) :
    (before.closeNext peerId connection rest).Sound ∧ before.lost (before.closeNext peerId connection rest) = [] ∧
      (before.closeNext peerId connection rest).announced = before.announced := by
  obtain ⟨filled, flag⟩ := sound
  rw [active] at flag
  have closed : ∃ log, before.closeNext peerId connection rest =
      { before with activation := some ⟨peerId, rest⟩, log } ∧
      (before.closeNext peerId connection rest).announced = before.announced := by
    unfold closeNext
    dsimp only
    split_ifs
    · exact ⟨_, rfl, announced_publish.trans (List.append_nil _)⟩
    · exact ⟨_, rfl, announced_publish.trans ((List.append_nil _).trans (announced_publish.trans (List.append_nil _)))⟩
  obtain ⟨log, closed, silent⟩ := closed
  refine ⟨?_, lost_eq_nil fun other present => ?_, silent⟩
  · rw [closed]
    exact ⟨filled, flag⟩
  · rw [mem_connected, active] at present
    rw [mem_connected, closed]
    exact present

/-- The end of `closeConnectionsToPeer` loses the peer and announces it, unless the peer has connected again. -/
theorem finishClosing_spec (sound : before.Sound) (active : before.activation = some ⟨peerId, []⟩) :
    (before.finishClosing peerId).Sound ∧
      (before.finishClosing peerId).announced = before.announced ++ before.lost (before.finishClosing peerId) := by
  unfold finishClosing
  dsimp only
  split_ifs with again
  · have none : before.lost { before with closingConnectionsToPeer := none, activation := none } = [] := by
      refine lost_eq_nil fun other present => ?_
      rw [mem_connected, active] at present
      rw [mem_connected]
      rcases present with present | same
      · exact .inl present
      · obtain rfl := Option.some.inj same
        exact .inl again
    rw [none, List.append_nil]
    exact ⟨⟨sound.filled, rfl⟩, rfl⟩
  · have one : before.lost (({ before with closingConnectionsToPeer := none, activation := none } :
        ConnectionManager).publish (.peerDisconnected peerId)) = [peerId] := by
      refine lost_eq_singleton (mem_connected.mpr (.inr (by rw [active]; rfl))) fun other present => ?_
      rw [mem_connected, active] at present
      rw [mem_connected]
      constructor
      · rintro (stored | ⟨⟨⟩⟩) rfl
        exact again stored
      · intro different
        rcases present with present | same
        · exact .inl present
        · exact absurd (Option.some.inj same).symm different
    rw [one]
    exact ⟨⟨sound.filled, rfl⟩, announced_publish⟩

/-- A connection that has closed is removed; with the last one the peer is lost and announced. -/
theorem onConnectionClosed_spec (sound : before.Sound) (connection : Option Connection) :
    (before.onConnectionClosed peerId connection).Sound ∧ (before.onConnectionClosed peerId connection).announced =
      before.announced ++ before.lost (before.onConnectionClosed peerId connection) := by
  have unchanged : before.Sound ∧ before.announced = before.announced ++ before.lost before := by
    rw [lost_eq_nil fun _ => id, List.append_nil]
    exact ⟨sound, rfl⟩
  unfold onConnectionClosed
  split_ifs with closing
  · exact unchanged
  cases found : before.connections.lookup peerId with
  | none => exact unchanged
  | some known =>
    have stored : peerId ∈ before.connections := UnorderedMap.mem_of_lookup found
    -- Whether the connection was found only matters for its own announcement.
    have split : ∃ (left : UnorderedSet Connection) (state : ConnectionManager),
        (match connection.filter (· ∈ known) with
        | none => (known, before)
        | some connection => (known.erase connection, before.publish (.connectionClosed connection))) = (left, state) ∧
        state.connections = before.connections ∧ state.activation = before.activation ∧
        state.closingConnectionsToPeer = before.closingConnectionsToPeer ∧ state.announced = before.announced := by
      split
      · exact ⟨_, _, rfl, rfl, rfl, rfl, rfl⟩
      · exact ⟨_, _, rfl, rfl, rfl, rfl, announced_publish.trans (List.append_nil _)⟩
    obtain ⟨left, state, same, connections, activation, flag, announced⟩ := split
    dsimp only
    rw [same]
    dsimp only
    have idle : before.activation.map Activation.peerId ≠ some peerId := by
      rw [← sound.flag]
      exact closing
    split_ifs with empty
    · refine ⟨⟨fun other set found => ?_, by rw [publish]; exact flag.trans (by rw [sound.flag, activation])⟩, ?_⟩
      · change (state.connections.erase peerId).lookup other = some set at found
        rw [connections, UnorderedMap.lookup_erase_eq] at found
        split_ifs at found
        exact sound.filled other set found
      · have one : before.lost (({ state with connections := state.connections.erase peerId } :
            ConnectionManager).publish (.peerDisconnected peerId)) = [peerId] := by
          refine lost_eq_singleton (mem_connected.mpr (.inl stored)) fun other present => ?_
          rw [mem_connected] at present ⊢
          change (other ∈ state.connections.erase peerId ∨ state.activation.map Activation.peerId = some other) ↔ _
          rw [connections, activation, AList.mem_erase]
          constructor
          · rintro (⟨different, -⟩ | active) rfl
            · exact different rfl
            · exact idle active
          · exact fun different => present.imp_left fun present => ⟨different, present⟩
        rw [one]
        exact announced_publish.trans (congrArg (· ++ [peerId]) announced)
    · have none : before.lost { state with connections := state.connections.insert peerId left } = [] := by
        refine lost_eq_nil fun other present => ?_
        rw [mem_connected] at present ⊢
        change other ∈ state.connections.insert peerId left ∨ state.activation.map Activation.peerId = some other
        rw [connections, activation, AList.mem_insert]
        exact present.imp_left .inr
      rw [none, List.append_nil]
      refine ⟨⟨fun other set found => ?_, flag.trans (by rw [sound.flag, activation])⟩, announced⟩
      change (state.connections.insert peerId left).lookup other = some set at found
      rw [connections, UnorderedMap.lookup_insert_eq] at found
      split_ifs at found
      · rwa [← Option.some.inj found]
      · exact sound.filled other set found

/-- The entries of a map are collected one by one. -/
theorem lookup_collected {isClosed : Connection → Bool} {entries : List (Sigma fun _ : PeerId => UnorderedSet Connection)}
    {connections : UnorderedMap PeerId (UnorderedSet Connection)} (distinct : (entries.map Sigma.fst).Nodup)
    (held : ∀ entry ∈ entries, connections.lookup entry.1 = some entry.2) :
    (entries.foldl (collectEntry isClosed) connections).lookup peerId =
      if peerId ∈ entries.map Sigma.fst then ((connections.lookup peerId).map fun known =>
        known.retain fun connection => ! isClosed connection).filter fun left => left.elements ≠ []
      else connections.lookup peerId := by
  induction entries generalizing connections with
  | nil => simp
  | cons entry rest ih =>
    obtain ⟨fresh, distinct⟩ := List.nodup_cons.mp distinct
    have first : ∀ peerId, (collectEntry isClosed connections entry).lookup peerId =
        if peerId = entry.1 then ((connections.lookup peerId).map fun known =>
          known.retain fun connection => ! isClosed connection).filter fun left => left.elements ≠ []
        else connections.lookup peerId := by
      intro peerId
      unfold collectEntry
      dsimp only
      split_ifs with empty same same
      · rw [UnorderedMap.lookup_erase_eq, if_pos same, same, held entry (by simp), Option.map_some,
          Option.filter_some, if_neg (by simpa using empty)]
      · rw [UnorderedMap.lookup_erase_eq, if_neg same]
      · rw [UnorderedMap.lookup_insert_eq, if_pos same, same, held entry (by simp), Option.map_some,
          Option.filter_some, if_pos (by simpa using empty)]
      · rw [UnorderedMap.lookup_insert_eq, if_neg same]
    have later : ∀ other ∈ rest, (collectEntry isClosed connections entry).lookup other.1 = some other.2 := by
      intro other member
      have different : other.1 ≠ entry.1 := fun same => fresh (same ▸ List.mem_map_of_mem member)
      rw [first, if_neg different]
      exact held other (by simp [member])
    rw [List.foldl_cons, ih distinct later, first]
    by_cases same : peerId = entry.1
    · subst same
      rw [if_neg fresh, if_pos rfl, if_pos (by simp)]
    · simp only [List.map_cons, List.mem_cons, same, false_or, if_false]

/-- Garbage collection keeps the open connections of a peer, and the peer if there are any. -/
theorem lookup_collectGarbage : before.collectGarbage.connections.lookup peerId =
    ((before.connections.lookup peerId).map fun known =>
      known.retain fun connection => ! before.isClosed connection).filter fun left => left.elements ≠ [] := by
  refine (lookup_collected before.connections.nodupKeys fun entry member => AList.mem_lookup_iff.mpr member).trans ?_
  split_ifs with present
  · rfl
  · have absent : before.connections.lookup peerId = none := AList.lookup_eq_none.mpr fun member => present member
    rw [absent]
    rfl

/-- Garbage collection announces nothing. It loses somebody unless every peer has an open connection. -/
theorem collectGarbage_spec (sound : before.Sound) : before.collectGarbage.Sound ∧
    before.collectGarbage.announced = before.announced ∧ (before.lost before.collectGarbage = [] ↔ before.Attended) := by
  have open_iff : ∀ known : UnorderedSet Connection,
      (known.retain fun connection => ! before.isClosed connection).elements ≠ [] ↔
        ∃ connection ∈ known, before.isClosed connection = false := by
    intro known
    rw [ne_eq, List.eq_nil_iff_forall_not_mem]
    simp [UnorderedSet.mem_elements]
  refine ⟨⟨fun peerId known found => ?_, sound.flag⟩, rfl, ?_⟩
  · rw [lookup_collectGarbage, Option.filter_eq_some_iff] at found
    simpa using found.2
  constructor
  · intro none peerId known found idle
    have present : peerId ∈ before.connected := mem_connected.mpr (.inl (UnorderedMap.mem_of_lookup found))
    have kept : peerId ∈ before.collectGarbage.connected := by
      simpa using List.filter_eq_nil_iff.mp none peerId present
    rcases mem_connected.mp kept with stored | active
    · obtain ⟨left, collected⟩ := UnorderedMap.exists_lookup_of_mem stored
      rw [lookup_collectGarbage, found, Option.map_some, Option.filter_eq_some_iff] at collected
      obtain ⟨same, filled⟩ := collected
      rw [← open_iff, Option.some.inj same]
      simpa using filled
    · exact absurd active idle
  · intro attended
    refine lost_eq_nil fun peerId present => ?_
    rw [mem_connected] at present ⊢
    by_cases active : before.activation.map Activation.peerId = some peerId
    · exact .inr active
    · rcases present with stored | now
      · obtain ⟨known, found⟩ := UnorderedMap.exists_lookup_of_mem stored
        have left := (open_iff known).mpr (attended peerId known found active)
        have collected : before.collectGarbage.connections.lookup peerId =
            some (known.retain fun connection => ! before.isClosed connection) := by
          rw [lookup_collectGarbage, found, Option.map_some, Option.filter_some, if_pos (by simpa using left)]
        exact .inl (UnorderedMap.mem_of_lookup collected)
      · exact absurd now active

/-- Every other step announces whom it loses. -/
theorem step_spec (sound : before.Sound) (stepped : before.step event = some after) : after.Sound ∧
    after.announced = before.announced ++ if event = .collectGarbage then [] else before.losses event := by
  have lost : before.losses event = before.lost after := by rw [losses, stepped]; rfl
  have quiet : after.Sound ∧ before.lost after = [] ∧ after.announced = before.announced → after.Sound ∧
      after.announced = before.announced ++ before.lost after := by
    rintro ⟨sound, none, silent⟩
    rw [none, silent, List.append_nil]
    exact ⟨sound, rfl⟩
  rw [lost]
  cases event with
  | addConnectionToPeer peerId connection =>
    obtain rfl := Option.some.inj stepped
    exact quiet (addConnectionToPeer_spec sound connection)
  | collectGarbage =>
    obtain rfl := Option.some.inj stepped
    obtain ⟨kept, silent, -⟩ := collectGarbage_spec sound
    rw [if_pos rfl, List.append_nil]
    exact ⟨kept, silent⟩
  | closeConnectionsToPeer peerId =>
    obtain ⟨idle, ⟨⟩⟩ := Option.ite_none_right_eq_some.mp stepped
    exact quiet (closeConnectionsToPeer_spec sound (Option.isNone_iff_eq_none.mp idle))
  | closeNext =>
    simp only [step] at stepped
    split at stepped
    · next peerId connection rest active =>
      obtain rfl := Option.some.inj stepped
      exact quiet (closeNext_spec sound active)
    · cases stepped
  | finishClosing =>
    simp only [step] at stepped
    split at stepped
    · next peerId active =>
      obtain rfl := Option.some.inj stepped
      exact finishClosing_spec sound active
    · cases stepped
  | onConnectionClosed peerId connection =>
    obtain rfl := Option.some.inj stepped
    exact onConnectionClosed_spec sound connection
  | closed connection =>
    obtain rfl := Option.some.inj stepped
    exact quiet ⟨⟨sound.filled, sound.flag⟩, lost_eq_nil fun _ => id, rfl⟩

end Steps

section Runs

/-- Garbage that is collected last has to be collected in the state that is reached. -/
theorem tended_snoc (run : Run Stepping {} events state) :
    Tended (events ++ [event]) ↔ Tended events ∧ (event = .collectGarbage → state.Attended) := by
  constructor
  · intro tended
    refine ⟨fun early late middle same ran => ?_, ?_⟩
    · exact tended early (late ++ [event]) middle (by rw [same]; simp) ran
    · rintro rfl
      exact tended events [] state rfl run
  · rintro ⟨tended, last⟩ early late middle same ran
    rcases List.eq_nil_or_concat late with rfl | ⟨front, final, rfl⟩
    · obtain ⟨rfl, ended⟩ := List.append_inj' same rfl
      obtain rfl := run.unique ran
      exact last (List.head_eq_of_cons_eq ended)
    · have longer : events ++ [event] = (early ++ .collectGarbage :: front) ++ [final] := by rw [same]; simp
      obtain ⟨shorter, -⟩ := List.append_inj' longer rfl
      exact tended early front middle shorter ran

/-- In every run, no peer is stored with an empty set; and the disconnections that were announced are, in their order,
the peers that lost their last connection, exactly if every peer had an open connection whenever garbage was
collected. -/
theorem announced_iff (collected : Run (Collecting Stepping losses) ({}, []) events (state, missing)) :
    (∀ peerId known, state.connections.lookup peerId = some known → known.elements ≠ []) ∧
      (state.announced = missing ↔ Tended events) := by
  -- Once a loss was not announced, there are fewer announcements than losses for good.
  have invariant : state.Sound ∧ Run Stepping {} events state ∧ ((Tended events ∧ state.announced = missing) ∨
      (¬ Tended events ∧ state.announced.length < missing.length)) := by
    refine collected.preserves_history (fun events pair => pair.1.Sound ∧ Run Stepping {} events pair.1 ∧
      ((Tended events ∧ pair.1.announced = pair.2) ∨ (¬ Tended events ∧ pair.1.announced.length < pair.2.length)))
      ⟨sound_initial, .nil, .inl ⟨?_, rfl⟩⟩ ?_
    · intro early late state same
      simp at same
    · rintro events event ⟨before, missing⟩ ⟨after, more⟩ ⟨sound, run, kept⟩ ⟨stepped, rfl⟩
      dsimp only at sound run kept stepped
      obtain ⟨soundAfter, announced⟩ := step_spec sound stepped
      refine ⟨soundAfter, run.snoc stepped, ?_⟩
      dsimp only
      rw [tended_snoc run, announced]
      have lost : before.losses event = before.lost after := by rw [losses, stepped]; rfl
      by_cases collecting : event = .collectGarbage
      · subst collecting
        obtain rfl := Option.some.inj stepped
        obtain ⟨-, -, attended⟩ := collectGarbage_spec sound
        rw [if_pos rfl, List.append_nil, lost]
        by_cases fine : before.Attended
        · rw [attended.mpr fine, List.append_nil]
          simpa [fine] using kept
        · have missed : 0 < (before.lost before.collectGarbage).length :=
            List.length_pos_iff.mpr fun none => fine (attended.mp none)
          refine .inr ⟨fun both => fine (both.2 rfl), ?_⟩
          rw [List.length_append]
          rcases kept with ⟨-, same⟩ | ⟨-, fewer⟩
          · rw [same]
            omega
          · omega
      · rw [if_neg collecting]
        rcases kept with ⟨tended, same⟩ | ⟨untended, fewer⟩
        · exact .inl ⟨⟨tended, fun now => absurd now collecting⟩, by rw [same]⟩
        · refine .inr ⟨fun both => untended both.1, ?_⟩
          rw [List.length_append, List.length_append]
          omega
  obtain ⟨sound, -, ⟨tended, same⟩ | ⟨untended, fewer⟩⟩ := invariant
  · exact ⟨sound.filled, iff_of_true same tended⟩
  · refine ⟨sound.filled, iff_of_false (fun same => ?_) untended⟩
    rw [same] at fewer
    exact lt_irrefl _ fewer

/-- Two connections of a peer are closed, one of which reports its end meanwhile and once more afterwards; the peer
connects again, and garbage is collected. -/
def reportedEvents : List Event :=
  let connection (id : ℕ) : Connection := { id, remotePeer := samplePeer }
  [.addConnectionToPeer samplePeer (some (connection 0)), .addConnectionToPeer samplePeer (some (connection 1)),
    .closeConnectionsToPeer samplePeer, .closeNext, .closed (connection 0),
    .onConnectionClosed samplePeer (some (connection 0)), .closeNext, .finishClosing,
    .onConnectionClosed samplePeer (some (connection 0)), .addConnectionToPeer samplePeer (some (connection 2)),
    .collectGarbage, .onConnectionClosed samplePeer (some (connection 2))]

theorem announced_iff_reported : ∃ state, Run (Collecting Stepping losses) ({}, []) reportedEvents
      (state, [samplePeer, samplePeer]) ∧ state.announced = [samplePeer, samplePeer] ∧ Tended reportedEvents := by
  have followed : (reportedEvents.foldlM (collectM step losses) ({}, [])).map
      (fun pair : ConnectionManager × List PeerId => (pair.1.announced, pair.2)) =
      some ([samplePeer, samplePeer], [samplePeer, samplePeer]) := by
    decide +kernel
  obtain ⟨⟨state, missing⟩, collected, observed⟩ := Option.map_eq_some_iff.mp followed
  obtain ⟨announced, same⟩ := Prod.mk.inj observed
  obtain rfl : missing = [samplePeer, samplePeer] := same
  have run := Run.of_collectM collected
  exact ⟨state, run, announced, (announced_iff run).2.mp announced⟩

/-- A connection closes, and garbage is collected before the connection reports its end. -/
def collectedEvents : List Event :=
  let connection : Connection := { id := 0, remotePeer := samplePeer }
  [.addConnectionToPeer samplePeer (some connection), .closed connection, .collectGarbage,
    .onConnectionClosed samplePeer (some connection)]

/-- The peer is gone, and nobody is told. -/
theorem collected_peer_unannounced : ∃ state, Run (Collecting Stepping losses) ({}, []) collectedEvents
    (state, [samplePeer]) ∧ samplePeer ∉ state.connections ∧ state.announced = [] := by
  have followed : (collectedEvents.foldlM (collectM step losses) ({}, [])).map
      (fun pair : ConnectionManager × List PeerId =>
        (decide (samplePeer ∈ pair.1.connections), pair.1.announced, pair.2)) = some (false, [], [samplePeer]) := by
    decide +kernel
  obtain ⟨⟨state, missing⟩, collected, observed⟩ := Option.map_eq_some_iff.mp followed
  simp only [Prod.mk.injEq, decide_eq_false_iff_not] at observed
  obtain ⟨gone, announced, rfl⟩ := observed
  exact ⟨state, Run.of_collectM collected, gone, announced⟩

end Runs

end ConnectionManager

end Libp2p.Network
