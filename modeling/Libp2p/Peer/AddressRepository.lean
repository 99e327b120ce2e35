import Libp2p.Library.Unordered
import Libp2p.Multi.Multiaddress
import Libp2p.Peer.ExpirationTime
import Libp2p.Peer.PeerId

/-! # The address repository

Every address of a peer is kept twice: in a map with its expiration time, and in the list that says in which order the
addresses are dialed. Signals tell what is added and removed. Every operation keeps the list a permutation of the keys, and
an address is in the map exactly when the last signal about it was that it was added.
-/

namespace Libp2p

open Library Multi

inductive PeerError where
  | notFound
deriving DecidableEq, Repr

namespace InmemAddressRepository

/-- What the slots of the two signals are called with. -/
inductive Signal where
  | added (peer : PeerId) (address : Multiaddress)
  | removed (peer : PeerId) (address : Multiaddress)
deriving DecidableEq

structure Peer where
  expires : UnorderedMap Multiaddress TimePoint := ∅
  order : List Multiaddress := []

def Peer.eraseOrder (peer : Peer) (addr : Multiaddress) : Peer × Bool :=
  if addr ∈ peer.order then ({ peer with order := peer.order.erase addr }, true) else (peer, false)

end InmemAddressRepository

open InmemAddressRepository (Peer Signal)

/-- The peers, and the signals so far, the last one first. -/
structure InmemAddressRepository where
  db : UnorderedMap PeerId Peer := ∅
  signals : List Signal := []

namespace InmemAddressRepository

/-- Turn of the loops over the addresses that are added; the expiration time of one that is there already is renewed by
`upsertAddresses` only. -/
def emplaceAddress (renew : Bool) (p : PeerId) (expiresAt : TimePoint) (current : Peer × List Signal × Bool)
    (m : Multiaddress) : Peer × List Signal × Bool :=
  let (addresses, signals, added) := current
  if m ∈ addresses.expires then
    if renew then ({ addresses with expires := addresses.expires.insert m expiresAt }, signals, added)
    else (addresses, signals, added)
  else
    ({ expires := addresses.expires.insert m expiresAt, order := addresses.order ++ [m] }, .added p m :: signals, true)

/-- The shared body of `addAddresses` and `upsertAddresses`, with whether an address was added. -/
def emplaceAddresses (renew : Bool) (now : TimePoint) (p : PeerId) (ma : List Multiaddress) (ttl : Milliseconds)
    (repository : InmemAddressRepository) : InmemAddressRepository × Bool :=
  let addresses := (repository.db.lookup p).getD {}
  let expiresAt := calculateExpirationTime now ttl
  let (addresses, signals, added) := ma.foldl (emplaceAddress renew p expiresAt) (addresses, repository.signals, false)
  ({ db := repository.db.insert p addresses, signals }, added)

def addAddresses := emplaceAddresses false

def upsertAddresses := emplaceAddresses true

def updateAddresses (now : TimePoint) (p : PeerId) (ttl : Milliseconds) (repository : InmemAddressRepository) :
    InmemAddressRepository × Except PeerError Unit :=
  match repository.db.lookup p with
  | none => (repository, .error .notFound)
  | some addresses =>
    let expiresAt := calculateExpirationTime now ttl
    let expires := addresses.expires.keys.foldl (fun expires m => UnorderedMap.modify expires m fun _ => expiresAt)
      addresses.expires
    ({ repository with db := repository.db.insert p { addresses with expires } }, .ok ())

def dialFailed (peerId : PeerId) (addr : Multiaddress) (repository : InmemAddressRepository) : InmemAddressRepository :=
  match repository.db.lookup peerId with
  | none => repository
  | some peer =>
    if addr ∉ peer.expires then repository
    else
      match peer.eraseOrder addr with
      | (_, false) => repository
      | (peer, true) =>
        { repository with db := repository.db.insert peerId { peer with order := peer.order ++ [addr] } }

/-- One signal for every address. -/
def signalRemoved (p : PeerId) (signals : List Signal) (addresses : List Multiaddress) : List Signal :=
  addresses.foldl (fun signals m => .removed p m :: signals) signals

/-- The peer stays, without addresses. -/
def clear (p : PeerId) (repository : InmemAddressRepository) : InmemAddressRepository :=
  match repository.db.lookup p with
  | none => repository
  | some peer =>
    { db := repository.db.insert p {}, signals := signalRemoved p repository.signals peer.expires.keys }

/-- Turn of the loop over the addresses of a peer. -/
def collectAddress (now : TimePoint) (p : PeerId) (current : Peer × List Signal)
    (entry : Sigma fun _ : Multiaddress => TimePoint) : Peer × List Signal :=
  let (peer, signals) := current
  if now ≥ entry.2 then
    let peer := (peer.eraseOrder entry.1).1
    ({ peer with expires := peer.expires.erase entry.1 }, .removed p entry.1 :: signals)
  else (peer, signals)

/-- Turn of the loop over the peers. -/
def collectPeer (now : TimePoint) (repository : InmemAddressRepository) (p : PeerId) : InmemAddressRepository :=
  match repository.db.lookup p with
  | none => repository
  | some peer =>
    let (peer, signals) := peer.expires.entries.foldl (collectAddress now p) (peer, repository.signals)
    if peer.expires.keys = [] then { db := repository.db.erase p, signals }
    else { db := repository.db.insert p peer, signals }

def collectGarbage (now : TimePoint) (repository : InmemAddressRepository) : InmemAddressRepository :=
  repository.db.keys.foldl (collectPeer now) repository

inductive Command where
  | addAddresses (now : TimePoint) (p : PeerId) (ma : List Multiaddress) (ttl : Milliseconds)
  | upsertAddresses (now : TimePoint) (p : PeerId) (ma : List Multiaddress) (ttl : Milliseconds)
  | updateAddresses (now : TimePoint) (p : PeerId) (ttl : Milliseconds)
  | dialFailed (peerId : PeerId) (addr : Multiaddress)
  | clear (p : PeerId)
  | collectGarbage (now : TimePoint)

def step (repository : InmemAddressRepository) : Command → InmemAddressRepository
  | .addAddresses now p ma ttl => (repository.addAddresses now p ma ttl).1
  | .upsertAddresses now p ma ttl => (repository.upsertAddresses now p ma ttl).1
  | .updateAddresses now p ttl => (repository.updateAddresses now p ttl).1
  | .dialFailed peerId addr => repository.dialFailed peerId addr
  | .clear p => repository.clear p
  | .collectGarbage now => repository.collectGarbage now

def run (commands : List Command) : InmemAddressRepository := commands.foldl step {}

/-- When an address of a peer expires; absent if it is not stored. -/
def expiry (repository : InmemAddressRepository) (p : PeerId) (m : Multiaddress) : Option TimePoint :=
  (repository.db.lookup p).bind fun peer => peer.expires.lookup m

/-- The address was reported as added and not as removed since. -/
def Reported (p : PeerId) (m : Multiaddress) : List Signal → Prop
  | [] => False
  | .added peer address :: earlier => (peer = p ∧ address = m) ∨ Reported p m earlier
  | .removed peer address :: earlier => ¬ (peer = p ∧ address = m) ∧ Reported p m earlier

variable {repository : InmemAddressRepository} {peer : Peer} {p q : PeerId} {m addr : Multiaddress} {signals : List Signal}
  {now expiresAt : TimePoint} {ttl : Milliseconds}

/-- The list is one order of the keys. -/
def Peer.InStep (peer : Peer) : Prop := peer.order.Nodup ∧ ∀ m, m ∈ peer.order ↔ m ∈ peer.expires

/-- The two views of every peer, and the signals, agree. -/
structure InStep (repository : InmemAddressRepository) : Prop where
  orders : ∀ p peer, repository.db.lookup p = some peer → peer.InStep
  reported : ∀ p m, (∃ peer, repository.db.lookup p = some peer ∧ m ∈ peer.expires) ↔ Reported p m repository.signals

theorem Peer.InStep.perm (inStep : peer.InStep) : peer.order.Perm peer.expires.keys :=
  (List.perm_ext_iff_of_nodup inStep.1 peer.expires.keys_nodup).mpr fun m => by
    rw [inStep.2, AList.mem_keys]

theorem Peer.inStep_empty : Peer.InStep {} := ⟨List.nodup_nil, fun m => by simp⟩

theorem eraseOrder_order (peer : Peer) (addr : Multiaddress) :
    (peer.eraseOrder addr).1 = { peer with order := peer.order.erase addr } := by
  unfold Peer.eraseOrder
  split_ifs with present
  · rfl
  · rw [List.erase_of_not_mem present]

/-- A peer in step whose signals say what it stores, while nothing was said of the others. -/
structure Told (p : PeerId) (before : List Signal) (peer : Peer) (signals : List Signal) : Prop where
  inStep : peer.InStep
  stored : ∀ m, m ∈ peer.expires ↔ Reported p m signals
  others : ∀ q, q ≠ p → ∀ m, Reported q m signals ↔ Reported q m before

/-- The entry of a peer is replaced by one that its signals describe. -/
theorem InStep.insert (inStep : repository.InStep) (told : Told p repository.signals peer signals) :
    InStep { db := repository.db.insert p peer, signals } := by
  refine ⟨fun q other found => ?_, fun q m => ?_⟩
  · dsimp only at found
    rw [UnorderedMap.lookup_insert_eq] at found
    split_ifs at found with same
    · obtain rfl := Option.some.inj found
      exact told.inStep
    · exact inStep.orders q other found
  · dsimp only
    rw [UnorderedMap.lookup_insert_eq]
    split_ifs with same
    · subst same
      simp [told.stored]
    · rw [told.others q same, inStep.reported]

theorem emplaceAddress_told {before : List Signal} {renew added : Bool} (told : Told p before peer signals)
    (m : Multiaddress) :
    Told p before (emplaceAddress renew p expiresAt (peer, signals, added) m).1
      (emplaceAddress renew p expiresAt (peer, signals, added) m).2.1 := by
  obtain ⟨⟨nodup, views⟩, stored, others⟩ := told
  unfold emplaceAddress
  dsimp only
  split_ifs with present renewed
  · have same (n : Multiaddress) : n ∈ peer.expires.insert m expiresAt ↔ n ∈ peer.expires := by
      rw [AList.mem_insert]
      exact or_iff_right_of_imp fun equal => equal ▸ present
    exact ⟨⟨nodup, fun n => (views n).trans (same n).symm⟩, fun n => (same n).trans (stored n), others⟩
  · exact ⟨⟨nodup, views⟩, stored, others⟩
  · refine ⟨⟨?_, fun n => ?_⟩, fun n => ?_, fun q other n => ?_⟩
    · rw [List.nodup_append_comm]
      exact List.nodup_cons.mpr ⟨mt (views m).mp present, nodup⟩
    · rw [List.mem_append, List.mem_singleton, AList.mem_insert, views, or_comm]
    · rw [AList.mem_insert, Reported, stored, and_iff_right rfl, eq_comm]
    · rw [Reported, or_iff_right (fun same => other same.1.symm), others q other]

theorem emplaceAddresses_inStep {renew : Bool} {ma : List Multiaddress} (inStep : repository.InStep) :
    (repository.emplaceAddresses renew now p ma ttl).1.InStep := by
  have told (ma : List Multiaddress) (current : Peer × List Signal × Bool)
      (told : Told p repository.signals current.1 current.2.1) :
      Told p repository.signals (ma.foldl (emplaceAddress renew p (calculateExpirationTime now ttl)) current).1
        (ma.foldl (emplaceAddress renew p (calculateExpirationTime now ttl)) current).2.1 := by
    induction ma generalizing current with
    | nil => exact told
    | cons m rest ih => exact ih _ (emplaceAddress_told told m)
  unfold emplaceAddresses
  refine inStep.insert (told ma _ ⟨?_, fun m => ?_, fun q _ m => Iff.rfl⟩)
  · rcases found : repository.db.lookup p with _ | peer
    · exact Peer.inStep_empty
    · exact inStep.orders p peer found
  · rw [← inStep.reported]
    rcases found : repository.db.lookup p with _ | peer <;> simp

theorem updateAddresses_inStep (inStep : repository.InStep) : (repository.updateAddresses now p ttl).1.InStep := by
  unfold updateAddresses
  rcases found : repository.db.lookup p with _ | peer
  · exact inStep
  · have same (m : Multiaddress) (changed : UnorderedMap Multiaddress TimePoint)
        (lookups : changed.lookup m = (peer.expires.lookup m).map fun _ => calculateExpirationTime now ttl) :
        m ∈ changed ↔ m ∈ peer.expires := by
      rw [← AList.lookup_isSome, ← AList.lookup_isSome, lookups, Option.isSome_map]
    have renewed (m : Multiaddress) := @UnorderedMap.lookup_foldl_modify _ _ _ peer.expires m _
      peer.expires.keys_nodup fun _ _ => calculateExpirationTime now ttl
    have present (m : Multiaddress) : m ∈ peer.expires.keys.foldl (fun expires m =>
        UnorderedMap.modify expires m fun _ => calculateExpirationTime now ttl) peer.expires ↔ m ∈ peer.expires := by
      refine same m _ ?_
      rw [renewed m]
      split_ifs with key
      · rfl
      · rw [← AList.mem_keys, ← AList.lookup_eq_none] at key
        rw [key]
        rfl
    obtain ⟨nodup, views⟩ := inStep.orders p peer found
    refine inStep.insert ⟨⟨nodup, fun m => (views m).trans (present m).symm⟩, fun m => (present m).trans ?_,
      fun q _ m => Iff.rfl⟩
    rw [← inStep.reported, found]
    simp

/-- Only the place of the address in the list changes: it becomes the last one. -/
theorem dialFailed_lookup (inStep : repository.InStep) (peerId : PeerId) (addr : Multiaddress) :
    (repository.dialFailed peerId addr).signals = repository.signals ∧
    ∀ q, (repository.dialFailed peerId addr).db.lookup q = (repository.db.lookup q).map fun peer =>
      if q = peerId ∧ addr ∈ peer.expires then { peer with order := peer.order.erase addr ++ [addr] } else peer := by
  have unchanged (q : PeerId) (kept : ∀ peer, repository.db.lookup q = some peer → ¬ (q = peerId ∧ addr ∈ peer.expires)) :
      repository.db.lookup q = (repository.db.lookup q).map fun peer =>
        if q = peerId ∧ addr ∈ peer.expires then { peer with order := peer.order.erase addr ++ [addr] } else peer := by
    rcases found : repository.db.lookup q with _ | peer
    · rfl
    · rw [Option.map_some, if_neg (kept peer found)]
  unfold dialFailed
  rcases found : repository.db.lookup peerId with _ | peer
  · refine ⟨rfl, fun q => unchanged q fun other also same => ?_⟩
    rw [same.1, found] at also
    cases also
  · dsimp only
    by_cases known : addr ∈ peer.expires
    · have present : addr ∈ peer.order := ((inStep.orders peerId peer found).2 addr).mpr known
      rw [if_neg (not_not.mpr known), Peer.eraseOrder, if_pos present]
      refine ⟨rfl, fun q => ?_⟩
      dsimp only
      rw [UnorderedMap.lookup_insert_eq]
      split_ifs with same
      · subst same
        rw [found, Option.map_some, if_pos ⟨rfl, known⟩]
      · exact unchanged q fun _ _ both => same both.1
    · rw [if_pos known]
      refine ⟨rfl, fun q => unchanged q fun other also same => ?_⟩
      rw [same.1, found] at also
      obtain rfl := Option.some.inj also
      exact known same.2

theorem dialFailed_inStep (inStep : repository.InStep) : (repository.dialFailed p addr).InStep := by
  obtain ⟨signals, lookups⟩ := dialFailed_lookup inStep p addr
  refine ⟨fun q peer found => ?_, fun q m => ?_⟩
  · rw [lookups q] at found
    obtain ⟨before, stored, rfl⟩ := Option.map_eq_some_iff.mp found
    have views := inStep.orders q before stored
    split_ifs with moved
    · obtain ⟨nodup, members⟩ := views
      have old : addr ∈ before.order := (members addr).mpr moved.2
      have moved : (before.order.erase addr ++ [addr]).Perm before.order :=
        (List.perm_append_comm).trans (List.perm_cons_erase old).symm
      exact ⟨moved.nodup_iff.mpr nodup, fun m => moved.mem_iff.trans (members m)⟩
    · exact views
  · rw [signals, ← inStep.reported, lookups q]
    rcases repository.db.lookup q with _ | peer
    · rfl
    · simp only [Option.map_some, Option.some.injEq, exists_eq_left']
      split_ifs <;> rfl

/-- An address that was reported as removed is not reported any more. -/
theorem reported_removed (addresses : List Multiaddress) :
    Reported q m (signalRemoved p signals addresses) ↔ ¬ (p = q ∧ m ∈ addresses) ∧ Reported q m signals := by
  induction addresses generalizing signals with
  | nil => simp [signalRemoved]
  | cons first rest ih =>
    rw [signalRemoved, List.foldl_cons, ← signalRemoved, ih, Reported, List.mem_cons, ← and_assoc, eq_comm]
    refine and_congr_left fun _ => ?_
    rw [← not_or, ← and_or_left, or_comm, eq_comm (a := m)]

theorem clear_inStep (inStep : repository.InStep) : (repository.clear p).InStep := by
  unfold clear
  rcases found : repository.db.lookup p with _ | peer
  · exact inStep
  · refine inStep.insert ⟨Peer.inStep_empty, fun m => ?_, fun q other m => ?_⟩
    · rw [reported_removed, ← inStep.reported, found, ← AList.mem_keys]
      simp
    · rw [reported_removed]
      exact and_iff_right fun same => other same.1.symm

/-- The addresses whose time has come. -/
def lapsed (now : TimePoint) (entries : List (Sigma fun _ : Multiaddress => TimePoint)) : List Multiaddress :=
  (entries.filter fun entry => now ≥ entry.2).map Sigma.fst

/-- A peer without the addresses whose time has come. -/
def collected (now : TimePoint) (peer : Peer) : Peer where
  expires := (lapsed now peer.expires.entries).foldl (fun expires m => expires.erase m) peer.expires
  order := peer.order.diff (lapsed now peer.expires.entries)

theorem collectAddresses_eq (entries : List (Sigma fun _ : Multiaddress => TimePoint)) (peer : Peer)
    (signals : List Signal) :
    entries.foldl (collectAddress now p) (peer, signals) =
      ({ expires := (lapsed now entries).foldl (fun expires m => expires.erase m) peer.expires
         order := peer.order.diff (lapsed now entries) }, signalRemoved p signals (lapsed now entries)) := by
  induction entries generalizing peer signals with
  | nil => rfl
  | cons entry rest ih =>
    rw [List.foldl_cons, collectAddress]
    dsimp only
    by_cases late : now ≥ entry.2
    · have first : lapsed now (entry :: rest) = entry.1 :: lapsed now rest := by
        rw [lapsed, List.filter_cons_of_pos (by simpa using late), List.map_cons, lapsed]
      rw [if_pos late, ih, first, eraseOrder_order, List.diff_cons]
      rfl
    · have first : lapsed now (entry :: rest) = lapsed now rest := by
        rw [lapsed, List.filter_cons_of_neg (by simpa using late), lapsed]
      rw [if_neg late, ih, first]

theorem mem_lapsed {expires : UnorderedMap Multiaddress TimePoint} :
    m ∈ lapsed now expires.entries ↔ ∃ time, expires.lookup m = some time ∧ time ≤ now := by
  constructor
  · intro member
    obtain ⟨⟨_, time⟩, inside, rfl⟩ := List.mem_map.mp member
    obtain ⟨entry, late⟩ := List.mem_filter.mp inside
    exact ⟨time, AList.mem_lookup_iff.mpr entry, by simpa using late⟩
  · rintro ⟨time, found, late⟩
    exact List.mem_map.mpr ⟨⟨m, time⟩, List.mem_filter.mpr ⟨AList.mem_lookup_iff.mp found, by simpa using late⟩, rfl⟩

theorem collected_lookup (peer : Peer) (m : Multiaddress) :
    (collected now peer).expires.lookup m = (peer.expires.lookup m).filter fun time => now < time := by
  rw [collected, UnorderedMap.lookup_foldl_erase]
  split_ifs with late
  · obtain ⟨time, found, late⟩ := mem_lapsed.mp late
    rw [found, Option.filter_some, if_neg]
    rwa [decide_eq_true_iff, Int64.not_lt]
  · rcases found : peer.expires.lookup m with _ | time
    · rfl
    · have early : now < time := Int64.not_le.mp fun late' => late (mem_lapsed.mpr ⟨time, found, late'⟩)
      rw [Option.filter_some, if_pos (decide_eq_true early)]

theorem mem_collected : m ∈ (collected now peer).expires ↔ m ∈ peer.expires ∧ m ∉ lapsed now peer.expires.entries := by
  rw [← AList.lookup_isSome, collected, UnorderedMap.lookup_foldl_erase]
  split_ifs with late
  · simp [late]
  · rw [AList.lookup_isSome, and_iff_left late]

theorem collected_order (inStep : peer.InStep) :
    (collected now peer).order = peer.order.filter fun m => m ∈ (collected now peer).expires := by
  rw [collected, inStep.1.sdiff_eq_filter]
  refine List.filter_congr fun m member => ?_
  have stored := (inStep.2 m).mp member
  simp only [decide_eq_decide]
  exact ((and_iff_right stored).symm.trans mem_collected.symm)

theorem collected_inStep (inStep : peer.InStep) : (collected now peer).InStep := by
  refine ⟨?_, fun m => ?_⟩
  · rw [collected_order inStep]
    exact inStep.1.filter _
  · rw [collected_order inStep, List.mem_filter, inStep.2]
    simp only [decide_eq_true_eq]
    exact and_iff_right_of_imp fun stored => (mem_collected.mp stored).1

/-- What is left of a peer. -/
def survivors (now : TimePoint) (peer : Peer) : Option Peer :=
  if (collected now peer).expires.keys = [] then none else some (collected now peer)

theorem survivors_lookup (peer : Peer) (m : Multiaddress) :
    ((survivors now peer).bind fun peer => peer.expires.lookup m) =
      (peer.expires.lookup m).filter fun time => now < time := by
  rw [← collected_lookup, survivors]
  split_ifs with none
  · have gone : m ∉ (collected now peer).expires := by
      rw [AList.mem_keys, none]
      exact List.not_mem_nil
    rw [AList.lookup_eq_none.mpr gone]
    rfl
  · rfl

theorem survivors_isSome (peer : Peer) :
    (survivors now peer).isSome ↔ ∃ m time, peer.expires.lookup m = some time ∧ now < time := by
  have left (m : Multiaddress) : m ∈ (collected now peer).expires.keys ↔
      ∃ time, peer.expires.lookup m = some time ∧ now < time := by
    rw [← AList.mem_keys, ← AList.lookup_isSome, collected_lookup]
    rcases peer.expires.lookup m with _ | time <;> simp [Option.filter_some]
  rw [survivors]
  split_ifs with none
  · refine iff_of_false (by simp) ?_
    rintro ⟨m, early⟩
    have member := (left m).mpr early
    rw [none] at member
    exact List.not_mem_nil member
  · obtain ⟨m, member⟩ := List.exists_mem_of_ne_nil _ none
    exact iff_of_true rfl ⟨m, (left m).mp member⟩

theorem collectPeer_eq (found : repository.db.lookup p = some peer) : collectPeer now repository p =
    { db := if (collected now peer).expires.keys = [] then repository.db.erase p
        else repository.db.insert p (collected now peer)
      signals := signalRemoved p repository.signals (lapsed now peer.expires.entries) } := by
  have looped : peer.expires.entries.foldl (collectAddress now p) (peer, repository.signals) =
      (collected now peer, signalRemoved p repository.signals (lapsed now peer.expires.entries)) :=
    collectAddresses_eq _ _ _
  rw [collectPeer, found]
  dsimp only
  rw [looped]
  dsimp only
  by_cases none : (collected now peer).expires.keys = []
  · rw [if_pos none, if_pos none]
  · rw [if_neg none, if_neg none]

theorem collectPeer_lookup (now : TimePoint) (repository : InmemAddressRepository) (p q : PeerId) :
    (collectPeer now repository p).db.lookup q =
      if q = p then (repository.db.lookup p).bind (survivors now) else repository.db.lookup q := by
  rcases found : repository.db.lookup p with _ | peer
  · rw [collectPeer, found]
    split_ifs with same
    · rw [same, found]
      rfl
    · rfl
  · rw [collectPeer_eq found, Option.bind_some, survivors]
    dsimp only
    split_ifs with none same same
    · rw [same, AList.lookup_erase]
    · rw [AList.lookup_erase_ne same]
    · rw [same, AList.lookup_insert]
    · rw [AList.lookup_insert_ne same]

theorem collectPeer_inStep (inStep : repository.InStep) : (collectPeer now repository p).InStep := by
  rcases found : repository.db.lookup p with _ | peer
  · rw [collectPeer, found]
    exact inStep
  · have told : Told p repository.signals (collected now peer)
        (signalRemoved p repository.signals (lapsed now peer.expires.entries)) := by
      refine ⟨collected_inStep (inStep.orders p peer found), fun m => ?_, fun q other m => ?_⟩
      · rw [mem_collected, reported_removed, ← inStep.reported, found, and_iff_right rfl]
        simp [and_comm]
      · rw [reported_removed]
        exact and_iff_right fun same => other same.1.symm
    rw [collectPeer_eq found]
    split_ifs with none
    · refine ⟨fun q other stored => ?_, fun q m => ?_⟩
      · dsimp only at stored
        rw [UnorderedMap.lookup_erase_eq] at stored
        split_ifs at stored
        exact inStep.orders q other stored
      · dsimp only
        rw [UnorderedMap.lookup_erase_eq]
        split_ifs with same
        · subst same
          have gone : m ∉ (collected now peer).expires := by
            rw [AList.mem_keys, none]
            exact List.not_mem_nil
          rw [← told.stored]
          exact iff_of_false (fun ⟨_, impossible, _⟩ => by cases impossible) gone
        · rw [told.others q same, inStep.reported]
    · exact inStep.insert told

theorem collectPeers_lookup {peers : List PeerId} (distinct : peers.Nodup) (repository : InmemAddressRepository)
    (q : PeerId) : (peers.foldl (collectPeer now) repository).db.lookup q =
      if q ∈ peers then (repository.db.lookup q).bind (survivors now) else repository.db.lookup q := by
  induction peers generalizing repository with
  | nil => simp
  | cons first rest ih =>
    obtain ⟨fresh, distinct⟩ := List.nodup_cons.mp distinct
    rw [List.foldl_cons, ih distinct, collectPeer_lookup]
    by_cases same : q = first
    · subst same
      simp [fresh]
    · simp [same]

theorem collectGarbage_lookup (now : TimePoint) (repository : InmemAddressRepository) (q : PeerId) :
    (repository.collectGarbage now).db.lookup q = (repository.db.lookup q).bind (survivors now) := by
  rw [collectGarbage, collectPeers_lookup repository.db.keys_nodup]
  split_ifs with known
  · rfl
  · rw [← AList.mem_keys, ← AList.lookup_eq_none] at known
    rw [known]
    rfl

theorem collectGarbage_inStep (inStep : repository.InStep) : (repository.collectGarbage now).InStep := by
  have every (peers : List PeerId) : (peers.foldl (collectPeer now) repository).InStep := by
    induction peers generalizing repository with
    | nil => exact inStep
    | cons first rest ih => exact ih (collectPeer_inStep inStep)
  exact every repository.db.keys

theorem step_inStep (inStep : repository.InStep) (command : Command) : (repository.step command).InStep := by
  cases command with
  | addAddresses now p ma ttl => exact emplaceAddresses_inStep inStep
  | upsertAddresses now p ma ttl => exact emplaceAddresses_inStep inStep
  | updateAddresses now p ttl => exact updateAddresses_inStep inStep
  | dialFailed peerId addr => exact dialFailed_inStep inStep
  | clear p => exact clear_inStep inStep
  | collectGarbage now => exact collectGarbage_inStep inStep

theorem run_inStep (commands : List Command) : (run commands).InStep := by
  have every (repository : InmemAddressRepository) (inStep : repository.InStep) : (commands.foldl step repository).InStep := by
    induction commands generalizing repository with
    | nil => exact inStep
    | cons first rest ih => exact ih _ (step_inStep inStep first)
  have fresh : InStep {} :=
    ⟨fun p peer impossible => (by cases impossible), fun p m => iff_of_false (fun ⟨_, impossible, _⟩ => by cases impossible) id⟩
  exact every {} fresh

/-- What the loop over upserted addresses leaves in the map. -/
theorem lookup_foldl_emplaceAddress (ma : List Multiaddress) (current : Peer × List Signal × Bool) :
    (ma.foldl (emplaceAddress true p expiresAt) current).1.expires.lookup m =
      if m ∈ ma then some expiresAt else current.1.expires.lookup m := by
  induction ma generalizing current with
  | nil => simp
  | cons first rest ih =>
    obtain ⟨addresses, signals, added⟩ := current
    have one : (emplaceAddress true p expiresAt (addresses, signals, added) first).1.expires.lookup m =
        if m = first then some expiresAt else addresses.expires.lookup m := by
      unfold emplaceAddress
      dsimp only
      split_ifs <;> simp_all [UnorderedMap.lookup_insert_eq]
    rw [List.foldl_cons, ih, one]
    by_cases later : m ∈ rest
    · rw [if_pos later, if_pos (List.mem_cons_of_mem _ later)]
    · simp only [if_neg later, List.mem_cons, or_iff_left later]

/-- Upserted addresses expire at the new time, and nothing else changes. -/
theorem expiry_upsertAddresses (ma : List Multiaddress) :
    (repository.upsertAddresses now p ma ttl).1.expiry q m =
      if q = p ∧ m ∈ ma then some (calculateExpirationTime now ttl) else repository.expiry q m := by
  unfold upsertAddresses emplaceAddresses expiry
  dsimp only
  rw [UnorderedMap.lookup_insert_eq]
  by_cases same : q = p
  · rw [if_pos same, Option.bind_some, lookup_foldl_emplaceAddress, same]
    by_cases upserted : m ∈ ma
    · rw [if_pos upserted, if_pos ⟨rfl, upserted⟩]
    · rw [if_neg upserted, if_neg fun both => upserted both.2]
      rcases repository.db.lookup p with _ | peer
      · rfl
      · rfl
  · rw [if_neg same, if_neg fun both => same both.1]

/-- After any commands the list of every peer is a permutation of the keys of its map, a failed dial moves one address to
the end, the garbage collection removes the addresses whose time has come and the peers without any other, and stored is
what was reported as added and not removed since. -/
theorem views_agree (commands : List Command) :
    (∀ p peer, (run commands).db.lookup p = some peer → peer.order.Nodup ∧ peer.order.Perm peer.expires.keys) ∧
    (∀ p addr, ((run commands).dialFailed p addr).signals = (run commands).signals ∧
      ∀ q, ((run commands).dialFailed p addr).db.lookup q = ((run commands).db.lookup q).map fun peer =>
        if q = p ∧ addr ∈ peer.expires then { peer with order := peer.order.erase addr ++ [addr] } else peer) ∧
    (∀ now p,
      (p ∈ ((run commands).collectGarbage now).db ↔ ∃ m time, (run commands).expiry p m = some time ∧ now < time) ∧
      (∀ m, ((run commands).collectGarbage now).expiry p m = ((run commands).expiry p m).filter fun time => now < time) ∧
      ∀ peer, ((run commands).collectGarbage now).db.lookup p = some peer →
        ∃ before, (run commands).db.lookup p = some before ∧
          peer.order = before.order.filter fun m => m ∈ peer.expires) ∧
    ∀ p m, ((run commands).expiry p m).isSome ↔ Reported p m (run commands).signals := by
  have inStep := run_inStep commands
  refine ⟨fun p peer found => ?_, fun p addr => dialFailed_lookup inStep p addr, fun now p => ⟨?_, fun m => ?_, ?_⟩,
    fun p m => ?_⟩
  · have views := inStep.orders p peer found
    exact ⟨views.1, views.perm⟩
  · rw [← AList.lookup_isSome, collectGarbage_lookup]
    simp only [expiry]
    rcases (run commands).db.lookup p with _ | peer
    · simp
    · exact survivors_isSome peer
  · rw [expiry, collectGarbage_lookup, expiry]
    rcases (run commands).db.lookup p with _ | peer
    · rfl
    · exact survivors_lookup peer m
  · intro peer found
    rw [collectGarbage_lookup] at found
    obtain ⟨before, stored, left⟩ := Option.bind_eq_some_iff.mp found
    unfold survivors at left
    split_ifs at left
    obtain rfl := Option.some.inj left
    exact ⟨before, stored, collected_order (inStep.orders p before stored)⟩
  · rw [← inStep.reported, expiry]
    rcases (run commands).db.lookup p with _ | peer
    · simp
    · simp [AList.lookup_isSome]

end InmemAddressRepository

end Libp2p
