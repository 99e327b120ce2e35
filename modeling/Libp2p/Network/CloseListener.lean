import Libp2p.Multi.Multiaddress
import Libp2p.Network.ListenerManager

/-! # Closing listeners

A listener is found by the address it was created with or, when there is none of that, by the address its engine is bound
to. The two lookups share one iterator, and it is that of the first lookup that is erased: the end of the map, when it is
the second one that finds a listener.
-/

namespace Libp2p.Network

open Library

inductive CloseError where
  | invalidArgument
deriving DecidableEq, Repr

namespace QuicListener

/-- The local address of the engine; an error without one. -/
def getListenMultiaddr {Address : Type} (bound : Address) (listener : QuicListener) : Option Address :=
  if listener.server.isNone then none else some bound

def isClosed (listener : QuicListener) : Bool := listener.server.isNone

def close (listener : QuicListener) : QuicListener := { listener with server := none }

theorem close_of_isClosed {listener : QuicListener} (closed : listener.isClosed) : listener.close = listener := by
  obtain ⟨server, accepting⟩ := listener
  rw [isClosed, Option.isNone_iff_eq_none] at closed
  obtain rfl : server = none := closed
  rfl

end QuicListener

namespace ListenerManager

variable {Address : Type} [DecidableEq Address]

/-- The key that an iterator stands at; none at the end. -/
abbrev Iterator (Address : Type) := Option Address

def find (state : ListenerManager Address) (ma : Address) : Iterator Address :=
  if ma ∈ state.listeners then some ma else none

/-- Absent for the end of the map, which may not be erased. -/
def eraseAt (it : Iterator Address) (state : ListenerManager Address) : Option (ListenerManager Address) :=
  it.map fun key => { state with listeners := state.listeners.erase key }

/-- Close a listener that is not in the map any more. -/
def closeRemoved (listener : ListenerPtr) (state : ListenerManager Address) : ListenerManager Address :=
  if ¬ (state.heap listener).isClosed then state.modify listener QuicListener.close else state

/-- The search across the addresses that the listeners are bound to. -/
def closeBound (localOf : ListenerPtr → Address) (ma : Address) (it : Iterator Address) (state : ListenerManager Address) :
    List (Sigma fun _ : Address => ListenerPtr) → Option (ListenerManager Address × Except CloseError Unit)
  | [] => some (state, .error .invalidArgument)
  | entry :: rest =>
    match (state.heap entry.2).getListenMultiaddr (localOf entry.2) with
    | none => closeBound localOf ma it state rest
    | some addr =>
      if addr = ma then (state.eraseAt it).map fun state => (state.closeRemoved entry.2, .ok ())
      else closeBound localOf ma it state rest

/-- `closeListener`; absent when the end of the map is erased. -/
def closeListener (localOf : ListenerPtr → Address) (ma : Address) (state : ListenerManager Address) :
    Option (ListenerManager Address × Except CloseError Unit) :=
  let it := state.find ma
  match it.bind state.listeners.lookup with
  | some listener => (state.eraseAt it).map fun state => (state.closeRemoved listener, .ok ())
  | none => closeBound localOf ma it state state.listeners.entries

/-- A listener of the map is bound to the address. -/
def Reports (localOf : ListenerPtr → Address) (ma : Address) (state : ListenerManager Address) (listener : ListenerPtr) :
    Prop :=
  (state.heap listener).getListenMultiaddr (localOf listener) = some ma

/-- What closing an address does: one entry is removed and its listener closed, that of the address itself if there is one
and otherwise one that is bound to it; or nothing happens, when there is none of either. -/
structure Closes (localOf : ListenerPtr → Address) (ma : Address) (state : ListenerManager Address)
    (after : ListenerManager Address × Except CloseError Unit) : Prop where
  succeeds : after.2 = .ok () ↔ ma ∈ state.listeners ∨
    ∃ entry ∈ state.listeners.entries, state.Reports localOf ma entry.2
  removes : after.2 = .ok () → ∃ key listener, state.listeners.lookup key = some listener ∧
    (key = ma ∨ ma ∉ state.listeners ∧ state.Reports localOf ma listener) ∧
    after.1 = { state with
      listeners := state.listeners.erase key
      heap := Function.update state.heap listener (state.heap listener).close }
  stays : after.2 ≠ .ok () → after.1 = state

variable {localOf : ListenerPtr → Address} {ma : Address} {state : ListenerManager Address}

omit [DecidableEq Address] in
theorem closeRemoved_eq (listener : ListenerPtr) (state : ListenerManager Address) : state.closeRemoved listener =
    { state with heap := Function.update state.heap listener (state.heap listener).close } := by
  unfold closeRemoved
  split_ifs with closed
  · rw [QuicListener.close_of_isClosed closed, Function.update_eq_self]
  · rfl

/-- The search fails when no listener is bound to the address; otherwise what it erases is the iterator it was given. -/
theorem closeBound_eq (entries : List (Sigma fun _ : Address => ListenerPtr)) :
    ((∀ entry ∈ entries, ¬ state.Reports localOf ma entry.2) →
      closeBound localOf ma none state entries = some (state, .error .invalidArgument)) ∧
    ((∃ entry ∈ entries, state.Reports localOf ma entry.2) → closeBound localOf ma none state entries = none) := by
  induction entries with
  | nil => exact ⟨fun _ => rfl, fun ⟨_, impossible, _⟩ => absurd impossible List.not_mem_nil⟩
  | cons entry rest ih =>
    obtain ⟨fails, finds⟩ := ih
    unfold closeBound
    rcases address : (state.heap entry.2).getListenMultiaddr (localOf entry.2) with _ | addr
    · have silent : ¬ state.Reports localOf ma entry.2 := by
        rw [Reports, address]
        exact fun impossible => by cases impossible
      dsimp only
      rw [List.forall_mem_cons, List.exists_mem_cons_iff, and_iff_right silent, or_iff_right silent]
      exact ⟨fails, finds⟩
    · have reports : state.Reports localOf ma entry.2 ↔ addr = ma := by
        rw [Reports, address, Option.some.injEq]
      dsimp only
      rw [List.forall_mem_cons, List.exists_mem_cons_iff, reports]
      by_cases same : addr = ma
      · rw [if_pos same]
        exact ⟨fun none => absurd same none.1, fun _ => rfl⟩
      · rw [if_neg same, and_iff_right same, or_iff_right same]
        exact ⟨fails, finds⟩

/-- Closing an address does what it has to exactly when a listener was created with it or none is bound to it. -/
theorem closeListener_iff (localOf : ListenerPtr → Address) (ma : Address) (state : ListenerManager Address) :
    (∃ after, state.closeListener localOf ma = some after ∧ Closes localOf ma state after) ↔
      ma ∈ state.listeners ∨ ∀ entry ∈ state.listeners.entries, ¬ state.Reports localOf ma entry.2 := by
  by_cases key : ma ∈ state.listeners
  · obtain ⟨listener, found⟩ := UnorderedMap.exists_lookup_of_mem key
    have closed : state.closeListener localOf ma =
        some (({ state with listeners := state.listeners.erase ma }).closeRemoved listener, .ok ()) := by
      unfold closeListener find
      rw [if_pos key]
      dsimp only
      rw [Option.bind_some, found]
      rfl
    refine iff_of_true ⟨_, closed, ?_, ?_, ?_⟩ (.inl key)
    · exact iff_of_true rfl (.inl key)
    · exact fun _ => ⟨ma, listener, found, .inl rfl, closeRemoved_eq _ _⟩
    · exact fun failed => absurd rfl failed
  · have searched : state.closeListener localOf ma = closeBound localOf ma none state state.listeners.entries := by
      unfold closeListener find
      rw [if_neg key]
      rfl
    obtain ⟨fails, finds⟩ := @closeBound_eq _ _ localOf ma state state.listeners.entries
    rw [or_iff_right key, searched]
    constructor
    · rintro ⟨after, closed, -⟩ entry member reports
      rw [finds ⟨entry, member, reports⟩] at closed
      cases closed
    · intro none
      refine ⟨_, fails none, ?_, ?_, fun _ => rfl⟩
      · refine iff_of_false (fun impossible => by cases impossible) ?_
        rintro (present | ⟨entry, member, reports⟩)
        · exact key present
        · exact none entry member reports
      · exact fun impossible => by cases impossible

/-- Any port, as an address to listen on. -/
def anyPort : Multi.Multiaddress :=
  ⟨Multi.ascii "/ip4/127.0.0.1/udp/0/quic-v1", [4, 127, 0, 0, 1, 0x91, 2, 0, 0, 0xcd, 3]⟩

/-- The address that the socket was bound to. -/
def boundPort : Multi.Multiaddress :=
  ⟨Multi.ascii "/ip4/127.0.0.1/udp/4001/quic-v1", [4, 127, 0, 0, 1, 0x91, 2, 0x0f, 0xa1, 0xcd, 3]⟩

/-- A listener on any port, which is listening. -/
def listening : ListenerManager Multi.Multiaddress where
  started := true
  listeners := AList.insert anyPort 0 ∅
  heap _ := { server := some [] }
  allocated := 1

/-- The listener is bound to the address that is closed, and the end of the map is erased. -/
theorem closeListener_boundPort : ⟨anyPort, 0⟩ ∈ listening.listeners.entries ∧
    listening.Reports (fun _ => boundPort) boundPort 0 ∧ listening.closeListener (fun _ => boundPort) boundPort = none := by
  have member : ⟨anyPort, 0⟩ ∈ listening.listeners.entries := List.mem_singleton_self _
  have other : boundPort ∉ listening.listeners := by
    intro present
    have same : boundPort = anyPort := List.mem_singleton.mp present
    exact absurd (congrArg Multi.Multiaddress.bytes same) (by decide)
  refine ⟨member, rfl, ?_⟩
  unfold closeListener find
  rw [if_neg other]
  exact (closeBound_eq listening.listeners.entries).2 ⟨_, member, rfl⟩

end ListenerManager

end Libp2p.Network
