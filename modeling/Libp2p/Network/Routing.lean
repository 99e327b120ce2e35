import Libp2p.Library.Unordered
import Libp2p.ProtocolMuxer.Agreement

/-! # Protocols and their handlers

The handlers are kept by protocol name. The first handler that is registered for a name stays. A name that is looked up
is first matched against its own beginnings; when none of them is the name itself, the longest name that has its first
two characters is taken. Negotiation offers exactly the names with a handler, and a name with a handler finds it, so a
negotiated stream never gets to the second case.
-/

namespace Libp2p.Network

open Library Multiselect

/-- Handler objects by address. -/
abbrev ProtocolPtr := ℕ

inductive RoutingError where
  | noHandlerFound
deriving DecidableEq, Repr

/-- `protocols_`. -/
abbrev Protocols := UnorderedMap ProtocolName ProtocolPtr

namespace Protocols

/-- Register a handler for each of its names. -/
def listenProtocol (ids : List ProtocolName) (protocol : ProtocolPtr) (protocols : Protocols) : Protocols :=
  ids.foldl (fun protocols id => UnorderedMap.emplace protocols id protocol) protocols

def getSupportedProtocols (protocols : Protocols) : List ProtocolName := protocols.keys

/-- The longest of the names that are a beginning of `p`. -/
def longestPrefix (protocols : Protocols) (p : ProtocolName) : Option ProtocolName :=
  (protocols.keys.filter (· <+: p)).argmax List.length

/-- The names that begin with the two characters at `p.data()`, where a zero follows the last one. -/
def equalPrefixRange (protocols : Protocols) (p : ProtocolName) : List ProtocolName :=
  protocols.keys.filter ((p ++ [0, 0]).take 2 <+: ·)

def value (protocols : Protocols) (key : ProtocolName) : Except RoutingError ProtocolPtr :=
  match protocols.lookup key with
  | none => .error .noHandlerFound
  | some protocol => .ok protocol

def getProtocol (protocols : Protocols) (p : ProtocolName) : Except RoutingError ProtocolPtr :=
  match protocols.longestPrefix p with
  | none => .error .noHandlerFound
  | some matched =>
    if matched = p then protocols.value matched
    else
      match (protocols.equalPrefixRange p).argmax List.length with
      | none => .error .noHandlerFound
      | some longest => protocols.value longest

variable {protocols : Protocols} {ids : List ProtocolName} {protocol : ProtocolPtr} {name : ProtocolName}

/-- A name that has a handler keeps it. -/
theorem lookup_listenProtocol : (protocols.listenProtocol ids protocol).lookup name =
    (protocols.lookup name).or (if name ∈ ids then some protocol else none) := by
  induction ids generalizing protocols with
  | nil => simp [listenProtocol]
  | cons id rest ih =>
    rw [listenProtocol, List.foldl_cons, ← listenProtocol, ih, UnorderedMap.lookup_emplace]
    by_cases same : name = id
    · subst same
      rw [if_pos rfl, if_pos (List.mem_cons_self ..)]
      cases protocols.lookup name <;> rfl
    · rw [if_neg same]
      simp only [List.mem_cons, same, false_or]

theorem mem_listenProtocol (member : name ∈ protocols) : name ∈ protocols.listenProtocol ids protocol := by
  obtain ⟨first, found⟩ := Option.isSome_iff_exists.mp (AList.lookup_isSome.mpr member)
  rw [← AList.lookup_isSome, lookup_listenProtocol, found]
  rfl

theorem value_of_lookup (found : protocols.lookup name = some protocol) : protocols.value name = .ok protocol := by
  rw [value, found]

/-- A registered name is its own longest beginning. -/
theorem longestPrefix_of_mem (member : name ∈ protocols) : protocols.longestPrefix name = some name := by
  have candidate : name ∈ protocols.keys.filter (· <+: name) :=
    List.mem_filter.mpr ⟨AList.mem_keys.mp member, by simp⟩
  obtain ⟨longest, found⟩ : ∃ longest, protocols.longestPrefix name = some longest :=
    Option.ne_none_iff_exists'.mp fun none => List.ne_nil_of_mem candidate (List.argmax_eq_none.mp none)
  have initial : longest <+: name := by simpa using (List.mem_filter.mp (List.argmax_mem found)).2
  have long : name.length ≤ longest.length := List.le_of_mem_argmax candidate found
  rw [found, initial.eq_of_length_le long]

/-- A registered name finds its handler, whatever else is registered. -/
theorem getProtocol_of_lookup (found : protocols.lookup name = some protocol) :
    protocols.getProtocol name = .ok protocol := by
  have member : name ∈ protocols := AList.lookup_isSome.mp (by rw [found]; rfl)
  rw [getProtocol, longestPrefix_of_mem member]
  dsimp only
  rw [if_pos rfl, value_of_lookup found]

end Protocols

end Libp2p.Network
