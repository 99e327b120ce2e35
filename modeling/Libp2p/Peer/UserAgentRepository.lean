import Libp2p.Library.Since
import Libp2p.Library.Unordered
import Libp2p.Peer.ExpirationTime
import Libp2p.Peer.PeerId

/-! # The user agent repository

The last user agent of every peer has an expiration time, which is only looked at when the garbage is collected. Until then
an expired user agent is returned, and its time to live can be renewed.
-/

namespace Libp2p

open Library

structure InmemUserAgentRepository where
  db : UnorderedMap PeerId (Bytes × TimePoint) := ∅

namespace InmemUserAgentRepository

def updateUserAgent (now : TimePoint) (p : PeerId) (ua : Bytes) (ttl : Milliseconds)
    (repository : InmemUserAgentRepository) : InmemUserAgentRepository :=
  { db := repository.db.insert p (ua, calculateExpirationTime now ttl) }

/-- A time to live that is not positive removes the user agent. -/
def updateTtl (now : TimePoint) (p : PeerId) (ttl : Milliseconds) (repository : InmemUserAgentRepository) :
    InmemUserAgentRepository :=
  if ttl > 0 then
    { db := UnorderedMap.modify repository.db p fun entry => (entry.1, calculateExpirationTime now ttl) }
  else { db := repository.db.erase p }

def getUserAgent (p : PeerId) (repository : InmemUserAgentRepository) : Option Bytes :=
  (repository.db.lookup p).map Prod.fst

def collectGarbage (now : TimePoint) (repository : InmemUserAgentRepository) : InmemUserAgentRepository :=
  { db := UnorderedMap.eraseIf repository.db fun entry => now ≥ entry.2 }

inductive Command where
  | updateUserAgent (now : TimePoint) (p : PeerId) (ua : Bytes) (ttl : Milliseconds)
  | updateTtl (now : TimePoint) (p : PeerId) (ttl : Milliseconds)
  | collectGarbage (now : TimePoint)

def step (repository : InmemUserAgentRepository) : Command → InmemUserAgentRepository
  | .updateUserAgent now p ua ttl => repository.updateUserAgent now p ua ttl
  | .updateTtl now p ttl => repository.updateTtl now p ttl
  | .collectGarbage now => repository.collectGarbage now

def run (commands : List Command) : InmemUserAgentRepository := commands.foldl step {}

section History

/-- The expiration time that a command gives to a peer. -/
def Command.Leases (p : PeerId) (t : TimePoint) (_ : List Command) : Command → Prop
  | .updateUserAgent now q _ ttl => q = p ∧ calculateExpirationTime now ttl = t
  | .updateTtl now q ttl => q = p ∧ ttl > 0 ∧ calculateExpirationTime now ttl = t
  | .collectGarbage _ => False

def Command.Concerns (p : PeerId) (_ : List Command) : Command → Prop
  | .updateUserAgent _ q _ _ => q = p
  | .updateTtl _ q _ => q = p
  | .collectGarbage _ => False

/-- The last command about the peer gave it this expiration time. -/
def Expires (p : PeerId) (t : TimePoint) : List Command → Prop := Since (Command.Leases p t) (Command.Concerns p)

def Command.Announces (p : PeerId) (ua : Bytes) (_ : List Command) : Command → Prop
  | .updateUserAgent _ q other _ => q = p ∧ other = ua
  | _ => False

def Command.Drops (p : PeerId) (history : List Command) : Command → Prop
  | .updateUserAgent _ q _ _ => q = p
  | .updateTtl _ q ttl => q = p ∧ ¬ ttl > 0
  | .collectGarbage now => ∃ t, Expires p t history ∧ now ≥ t

/-- The user agent was not replaced or removed since, and no garbage was collected when it had expired. -/
def Agent (p : PeerId) (ua : Bytes) : List Command → Prop := Since (Command.Announces p ua) (Command.Drops p)

end History

variable {repository : InmemUserAgentRepository} {p q : PeerId} {ua : Bytes} {history commands : List Command}
  {command : Command} {entry : Option (Bytes × TimePoint)} {t t' : TimePoint}

/-- What a command makes of the entry of one peer. -/
def effect (p : PeerId) (entry : Option (Bytes × TimePoint)) : Command → Option (Bytes × TimePoint)
  | .updateUserAgent now q ua ttl => if p = q then some (ua, calculateExpirationTime now ttl) else entry
  | .updateTtl now q ttl =>
    if p = q then if ttl > 0 then entry.map fun entry => (entry.1, calculateExpirationTime now ttl) else none else entry
  | .collectGarbage now => entry.filter fun entry => !decide (now ≥ entry.2)

/-- Every command acts on each peer alone. -/
theorem lookup_step : (repository.step command).db.lookup p = effect p (repository.db.lookup p) command := by
  cases command with
  | updateUserAgent now q ua ttl => exact UnorderedMap.lookup_insert_eq _
  | updateTtl now q ttl =>
    rw [step, updateTtl, effect]
    split_ifs with positive same same
    · rw [UnorderedMap.lookup_modify, if_pos same, same]
    · rw [UnorderedMap.lookup_modify, if_neg same]
    · rw [UnorderedMap.lookup_erase_eq, if_pos same]
    · rw [UnorderedMap.lookup_erase_eq, if_neg same]
  | collectGarbage now => exact UnorderedMap.lookup_eraseIf

theorem Expires.unique (first : Expires p t history) (second : Expires p t' history) : t = t' := by
  refine since_exclusive (fun _ event one other => ?_) (fun _ event leased => ?_) (fun _ event leased => ?_) first second
  · cases event with
    | updateUserAgent => exact one.2.symm.trans other.2
    | updateTtl => exact one.2.2.symm.trans other.2.2
    | collectGarbage => exact one.elim
  · cases event with
    | updateUserAgent => exact leased.1
    | updateTtl => exact leased.1
    | collectGarbage => exact leased
  · cases event with
    | updateUserAgent => exact leased.1
    | updateTtl => exact leased.1
    | collectGarbage => exact leased

/-- The entry of a peer is what the history tells of it. -/
structure Recorded (p : PeerId) (history : List Command) (entry : Option (Bytes × TimePoint)) : Prop where
  agent : ∀ ua, entry.map Prod.fst = some ua ↔ Agent p ua history
  expires : ∀ ua t, entry = some (ua, t) → Expires p t history

theorem recorded_nil : Recorded p [] none :=
  ⟨fun _ => iff_of_false nofun not_since_nil, nofun⟩

theorem Recorded.effect (recorded : Recorded p history entry) (command : Command) :
    Recorded p (history ++ [command]) (effect p entry command) := by
  obtain ⟨agent, expires⟩ := recorded
  cases command with
  | updateUserAgent now q ua ttl =>
    rw [InmemUserAgentRepository.effect]
    split_ifs with same
    · refine ⟨fun other => ?_, fun other t found => ?_⟩
      · rw [Agent, since_snoc, Option.map_some, Option.some.injEq]
        exact ⟨fun equal => .inl ⟨same.symm, equal⟩, Or.rec And.right fun kept => (kept.2 same.symm).elim⟩
      · obtain ⟨-, rfl⟩ := Prod.mk.inj (Option.some.inj found)
        exact since_snoc.mpr (.inl ⟨same.symm, rfl⟩)
    · refine ⟨fun other => (agent other).trans ?_, fun other t found => ?_⟩
      · rw [Agent, since_snoc_of_not_begins fun begun => same begun.1.symm]
        exact (and_iff_left fun ended => same (Eq.symm ended)).symm
      · exact since_snoc.mpr (.inr ⟨expires other t found, fun ended => same (Eq.symm ended)⟩)
  | updateTtl now q ttl =>
    rw [InmemUserAgentRepository.effect]
    split_ifs with same positive
    · refine ⟨fun other => ?_, fun other t found => ?_⟩
      · rw [Agent, since_snoc_of_not_begins id, Option.map_map]
        exact (agent other).trans (and_iff_left fun ended => ended.2 positive).symm
      · obtain ⟨entry, -, equal⟩ := Option.map_eq_some_iff.mp found
        obtain ⟨-, rfl⟩ := Prod.mk.inj equal
        exact since_snoc.mpr (.inl ⟨same.symm, positive, rfl⟩)
    · refine ⟨fun other => iff_of_false nofun ?_, nofun⟩
      rw [Agent, since_snoc_of_not_begins id]
      exact fun kept => kept.2 ⟨same.symm, positive⟩
    · refine ⟨fun other => (agent other).trans ?_, fun other t found => ?_⟩
      · rw [Agent, since_snoc_of_not_begins id]
        exact (and_iff_left fun ended => same ended.1.symm).symm
      · exact since_snoc.mpr (.inr ⟨expires other t found, fun ended => same (Eq.symm ended)⟩)
  | collectGarbage now =>
    rw [InmemUserAgentRepository.effect]
    have lasting (t : TimePoint) (leased : Expires p t history) : Expires p t (history ++ [.collectGarbage now]) :=
      since_snoc.mpr (.inr ⟨leased, fun ended => ended⟩)
    rcases entry with _ | ⟨ua, t⟩
    · refine ⟨fun other => iff_of_false nofun ?_, nofun⟩
      rw [Agent, since_snoc_of_not_begins id]
      exact fun kept => nomatch (agent other).mpr kept.1
    · have leased := expires ua t rfl
      have ended : Command.Drops p history (.collectGarbage now) ↔ now ≥ t := by
        constructor
        · rintro ⟨other, found, late⟩
          rwa [leased.unique found]
        · exact fun late => ⟨t, leased, late⟩
      by_cases late : now ≥ t
      · rw [Option.filter_some, if_neg (by simpa using late)]
        refine ⟨fun other => iff_of_false nofun ?_, nofun⟩
        rw [Agent, since_snoc_of_not_begins id]
        exact fun kept => kept.2 (ended.mpr late)
      · rw [Option.filter_some, if_pos (by simpa using late)]
        refine ⟨fun other => (agent other).trans ?_, fun other t found => lasting t (expires other t found)⟩
        rw [Agent, since_snoc_of_not_begins id]
        exact (and_iff_left (mt ended.mp late)).symm

theorem recorded_of_run (commands : List Command) : Recorded p commands ((run commands).db.lookup p) := by
  induction commands using List.reverseRecOn with
  | nil => exact recorded_nil
  | append_singleton commands command ih =>
    rw [run, List.foldl_append, List.foldl_cons, List.foldl_nil, lookup_step]
    exact ih.effect command

/-- After any commands a user agent is returned exactly when it is the last one that the peer was given, no update removed
it, and at every collection of garbage since then the expiration time of the last update was still to come. -/
theorem agents_of_run (commands : List Command) (p : PeerId) (ua : Bytes) :
    (run commands).getUserAgent p = some ua ↔ Agent p ua commands :=
  (recorded_of_run commands).agent ua

end InmemUserAgentRepository

end Libp2p
