import Libp2p.Protocol.Gossip.Backoff

/-! # Backoffs and the nodes of their lists

The slots of a `TopicBackoff` are linked lists, and a peer is moved to a later slot by an erasure through the iterator
that was stored with its horizon. Here nodes have addresses and an iterator is the address of its node, so that an
erasure outside of the list of the node can be told. The wheel of the other modules is what the nodes hold. Both count
down the longest backoff that a peer was given.
-/

namespace Libp2p.Gossip

open Library

/-- A node of a list, which is known by its address. -/
structure Node where
  address : ℕ
  peer : PeerPtr
deriving DecidableEq

/-- `TopicBackoff`, with the address that the next node gets. -/
structure NodeBackoff where
  slots : List (List Node)
  slot : ℕ := 0
  peers : UnorderedMap PeerPtr (ℕ × ℕ) := ∅
  unused : ℕ := 0

/-- The calls that change a backoff. -/
inductive BackoffOp where
  | update (peer : PeerPtr) (slots : ℕ)
  | shift

namespace NodeBackoff

/-- The constructor; absent when it divides by zero. -/
def create {R : Type} (config : Config R) : Option NodeBackoff :=
  if config.heartbeatInterval = 0 then none
  else some { slots := List.replicate (backoffSlots config config.pruneBackoff (config.backoffSlack + 1)) [] }

/-- The remainder by the number of slots, which may not be zero. -/
def index (backoff : NodeBackoff) (slot : ℕ) : Option ℕ :=
  if backoff.slots.length = 0 then none else some (slot % backoff.slots.length)

def get (backoff : NodeBackoff) (peer : PeerPtr) : ℕ :=
  match backoff.peers.lookup peer with
  | none => 0
  | some (horizon, _) => horizon - backoff.slot

/-- A new node at the end of the list of a slot, and the entry that refers to it. -/
def insert (backoff : NodeBackoff) (peer : PeerPtr) (slot : ℕ) : Option NodeBackoff :=
  (backoff.index slot).map fun index =>
    { backoff with
      slots := backoff.slots.modify index (· ++ [⟨backoff.unused, peer⟩])
      peers := backoff.peers.insert peer (slot, backoff.unused)
      unused := backoff.unused + 1 }

/-- `erase` in the list of a slot; absent when the iterator does not refer to a node of it. -/
def erase (backoff : NodeBackoff) (slot address : ℕ) : Option NodeBackoff :=
  (backoff.index slot).bind fun index =>
    if ∃ node ∈ backoff.slots.getD index [], node.address = address then
      some { backoff with slots := backoff.slots.modify index (·.filter (·.address ≠ address)) }
    else none

def update (backoff : NodeBackoff) (peer : PeerPtr) (slots : ℕ) : Option NodeBackoff :=
  if slots = 0 then some backoff
  else
    let slots := min slots ((backoff.slots.length + (2 ^ 64 - 1)) % 2 ^ 64)
    let slot := backoff.slot + slots
    match backoff.peers.lookup peer with
    | some (previous, iterator) =>
      if slot ≤ previous then some backoff else (backoff.erase previous iterator).bind (·.insert peer slot)
    | none => backoff.insert peer slot

def shift (backoff : NodeBackoff) : Option NodeBackoff :=
  (backoff.index backoff.slot).map fun index =>
    { backoff with
      slots := backoff.slots.modify index fun _ => []
      slot := backoff.slot + 1
      peers := (backoff.slots.getD index []).foldl (fun peers node => peers.erase node.peer) backoff.peers }

def apply (backoff : NodeBackoff) : BackoffOp → Option NodeBackoff
  | .update peer slots => backoff.update peer slots
  | .shift => backoff.shift

def run {R : Type} (config : Config R) (ops : List BackoffOp) : Option NodeBackoff :=
  (create config).bind fun backoff => ops.foldlM apply backoff

end NodeBackoff

/-! The countdown. -/

/-- The number of shifts among some calls. -/
def shiftsOf : List BackoffOp → ℕ
  | [] => 0
  | .update _ _ :: rest => shiftsOf rest
  | .shift :: rest => shiftsOf rest + 1

/-- The greatest number of slots, at most `most`, that an update gave to a peer, each less the shifts that followed. -/
def countdown (most : ℕ) (peer : PeerPtr) : List BackoffOp → ℕ
  | [] => 0
  | .update other slots :: rest =>
    if other = peer then max (min slots most - shiftsOf rest) (countdown most peer rest) else countdown most peer rest
  | .shift :: rest => countdown most peer rest

section Countdown

variable {most slots : ℕ} {peer other : PeerPtr} {ops : List BackoffOp}

theorem shiftsOf_append (ops more : List BackoffOp) : shiftsOf (ops ++ more) = shiftsOf ops + shiftsOf more := by
  induction ops with
  | nil => simp [shiftsOf]
  | cons op rest ih =>
    cases op with
    | update => exact ih
    | shift =>
      rw [List.cons_append, shiftsOf, shiftsOf, ih]
      omega

/-- A further update raises the number of its peer. -/
theorem countdown_update : countdown most peer (ops ++ [.update other slots]) =
    if other = peer then max (countdown most peer ops) (min slots most) else countdown most peer ops := by
  induction ops with
  | nil => simp [countdown, shiftsOf]
  | cons op rest ih =>
    cases op with
    | update first given =>
      rw [List.cons_append, countdown, ih, countdown, shiftsOf_append]
      simp only [shiftsOf, Nat.add_zero]
      split_ifs
      · rw [max_assoc]
      · rfl
      · rfl
      · rfl
    | shift => exact ih

/-- A further shift lowers all of them. -/
theorem countdown_shift : countdown most peer (ops ++ [.shift]) = countdown most peer ops - 1 := by
  induction ops with
  | nil => rfl
  | cons op rest ih =>
    cases op with
    | update first given =>
      rw [List.cons_append, countdown, ih, countdown, shiftsOf_append]
      simp only [shiftsOf]
      split_ifs
      · omega
      · rfl
    | shift => exact ih

end Countdown

namespace NodeBackoff

variable {nodes after : NodeBackoff} {backoff : TopicBackoff} {peer : PeerPtr} {slot address : ℕ}

/-- The slots are what the nodes hold, and the entries have the same horizons. -/
structure Holds (nodes : NodeBackoff) (backoff : TopicBackoff) : Prop where
  slots : backoff.slots = nodes.slots.map (List.map Node.peer)
  slot : backoff.slot = nodes.slot
  peers : ∀ peer, backoff.peers.lookup peer = (nodes.peers.lookup peer).map Prod.fst

/-- Every node of a list belongs to one entry, in the slot of its horizon, and every entry to a node. No horizon has been
passed by a shift, or is further away than one round. -/
structure Tidy (nodes : NodeBackoff) : Prop where
  some_ : 0 < nodes.slots.length
  small : nodes.slots.length < 2 ^ 64
  once : ∀ (index : ℕ) (list : List Node), nodes.slots[index]? = some list → list.Nodup
  owned : ∀ (index : ℕ) (list : List Node), nodes.slots[index]? = some list → ∀ node ∈ list, ∃ horizon,
    nodes.peers.lookup node.peer = some (horizon, node.address) ∧ horizon % nodes.slots.length = index
  valid : ∀ peer horizon address, nodes.peers.lookup peer = some (horizon, address) → ∃ list,
    nodes.slots[horizon % nodes.slots.length]? = some list ∧ ⟨address, peer⟩ ∈ list
  apart : ∀ peer other horizon horizon' address, nodes.peers.lookup peer = some (horizon, address) →
    nodes.peers.lookup other = some (horizon', address) → peer = other
  used : ∀ peer horizon address, nodes.peers.lookup peer = some (horizon, address) → address < nodes.unused
  ahead : ∀ peer horizon address, nodes.peers.lookup peer = some (horizon, address) →
    nodes.slot ≤ horizon ∧ horizon ≤ nodes.slot + (nodes.slots.length - 1)

theorem get_holds (holds : nodes.Holds backoff) (peer : PeerPtr) : nodes.get peer = backoff.get peer := by
  unfold get TopicBackoff.get
  rw [holds.peers, holds.slot]
  cases nodes.peers.lookup peer with
  | none => rfl
  | some entry => rfl

theorem round_holds (holds : nodes.Holds backoff) : backoff.round = nodes.slots.length := by
  rw [TopicBackoff.round, holds.slots, List.length_map]

theorem index_eq (tidy : nodes.Tidy) (slot : ℕ) : nodes.index slot = some (slot % nodes.slots.length) :=
  if_neg tidy.some_.ne'

theorem last_eq (tidy : nodes.Tidy) : (nodes.slots.length + (2 ^ 64 - 1)) % 2 ^ 64 = nodes.slots.length - 1 := by
  have some_ := tidy.some_
  have small := tidy.small
  omega

/-- The node of an entry is the only one of its peer. -/
theorem node_iff (tidy : nodes.Tidy) {index horizon : ℕ} {list : List Node} {node : Node}
    (found : nodes.slots[index]? = some list) (member : node ∈ list)
    (known : nodes.peers.lookup peer = some (horizon, address)) : node.address = address ↔ node.peer = peer := by
  obtain ⟨own, entry, -⟩ := tidy.owned index list found node member
  constructor
  · rintro rfl
    exact tidy.apart _ _ _ _ _ entry known
  · rintro rfl
    rw [known] at entry
    exact (congrArg Prod.snd (Option.some.inj entry)).symm

/-- A list without the nodes of a peer. -/
def others (peer : PeerPtr) (list : List Node) : List Node := list.filter (·.peer ≠ peer)

theorem mem_others {node : Node} {list : List Node} : node ∈ others peer list ↔ node ∈ list ∧ node.peer ≠ peer := by
  rw [others, List.mem_filter, decide_eq_true_iff]

/-- A peer gets a node in the slot of a new horizon after its node, if it had one, is gone. -/
theorem tidy_moved (tidy : nodes.Tidy) {wheel : List (List Node)} {horizon : ℕ}
    (length : wheel.length = nodes.slots.length)
    (removed : ∀ index : ℕ, wheel[index]? = nodes.slots[index]?.map (others peer))
    (ahead : nodes.slot ≤ horizon ∧ horizon ≤ nodes.slot + (nodes.slots.length - 1)) :
    Tidy { nodes with
      slots := wheel.modify (horizon % nodes.slots.length) (· ++ [⟨nodes.unused, peer⟩])
      peers := nodes.peers.insert peer (horizon, nodes.unused)
      unused := nodes.unused + 1 } := by
  have round : (wheel.modify (horizon % nodes.slots.length) (· ++ [⟨nodes.unused, peer⟩])).length =
      nodes.slots.length := by rw [List.length_modify, length]
  have lists (index : ℕ) : (wheel.modify (horizon % nodes.slots.length) (· ++ [⟨nodes.unused, peer⟩]))[index]? =
      nodes.slots[index]?.map fun list =>
        if horizon % nodes.slots.length = index then others peer list ++ [⟨nodes.unused, peer⟩]
        else others peer list := by
    rw [List.getElem?_modify, removed]
    cases nodes.slots[index]? <;> rfl
  have fresh {index : ℕ} {list : List Node} (found : nodes.slots[index]? = some list) :
      ⟨nodes.unused, peer⟩ ∉ others peer list := fun member => (mem_others.mp member).2 rfl
  constructor
  case some_ => exact tidy.some_.trans_eq round.symm
  case small => exact round.trans_lt tidy.small
  case once =>
    intro index list found
    rw [lists] at found
    obtain ⟨earlier, there, rfl⟩ := Option.map_eq_some_iff.mp found
    have distinct : (others peer earlier).Nodup := (tidy.once index earlier there).filter _
    split_ifs
    · exact distinct.append (List.nodup_singleton _) (by simpa using fresh there)
    · exact distinct
  case owned =>
    intro index list found node member
    rw [lists] at found
    obtain ⟨earlier, there, rfl⟩ := Option.map_eq_some_iff.mp found
    dsimp only
    rw [round]
    have old (member : node ∈ others peer earlier) : ∃ horizon', (nodes.peers.insert peer (horizon, nodes.unused)).lookup
        node.peer = some (horizon', node.address) ∧ horizon' % nodes.slots.length = index := by
      obtain ⟨inside, different⟩ := mem_others.mp member
      rw [UnorderedMap.lookup_insert_eq, if_neg different]
      exact tidy.owned index earlier there node inside
    split_ifs at member with here
    · rcases List.mem_append.mp member with inside | new
      · exact old inside
      · rw [List.mem_singleton.mp new, UnorderedMap.lookup_insert_eq, if_pos rfl]
        exact ⟨horizon, rfl, here⟩
    · exact old member
  case valid =>
    intro other later address known
    dsimp only at known ⊢
    rw [round, lists]
    rw [UnorderedMap.lookup_insert_eq] at known
    split_ifs at known with same
    · obtain ⟨rfl, rfl⟩ := Prod.mk.inj (Option.some.inj known)
      have inside : horizon % nodes.slots.length < nodes.slots.length := Nat.mod_lt _ tidy.some_
      rw [List.getElem?_eq_getElem inside, Option.map_some, if_pos rfl, same]
      exact ⟨_, rfl, List.mem_append_right _ (List.mem_singleton_self _)⟩
    · obtain ⟨earlier, there, inside⟩ := tidy.valid other later address known
      have kept := mem_others.mpr ⟨inside, same⟩
      rw [there, Option.map_some]
      refine ⟨_, rfl, ?_⟩
      split_ifs
      · exact List.mem_append_left _ kept
      · exact kept
  case apart =>
    intro first second horizon₁ horizon₂ address known₁ known₂
    dsimp only at known₁ known₂
    rw [UnorderedMap.lookup_insert_eq] at known₁ known₂
    -- The new address is larger than those in use.
    have clash : ∀ other later earlier, (horizon, nodes.unused) = (later, address) →
        nodes.peers.lookup other = some (earlier, address) → False := by
      intro other later earlier new known
      have small := tidy.used _ _ _ known
      rw [← (Prod.mk.inj new).2] at small
      exact lt_irrefl _ small
    split_ifs at known₁ known₂ with one two two
    · rw [one, two]
    · exact (clash second horizon₁ _ (Option.some.inj known₁) known₂).elim
    · exact (clash first horizon₂ _ (Option.some.inj known₂) known₁).elim
    · exact tidy.apart _ _ _ _ _ known₁ known₂
  case used =>
    intro other later address known
    dsimp only at known ⊢
    rw [UnorderedMap.lookup_insert_eq] at known
    split_ifs at known
    · rw [← (Prod.mk.inj (Option.some.inj known)).2]
      exact Nat.lt_succ_self _
    · exact (tidy.used _ _ _ known).trans (Nat.lt_succ_self _)
  case ahead =>
    intro other later address known
    dsimp only at known ⊢
    rw [UnorderedMap.lookup_insert_eq] at known
    rw [round]
    split_ifs at known
    · rw [← (Prod.mk.inj (Option.some.inj known)).1]
      exact ahead
    · exact tidy.ahead _ _ _ known

/-- The same on both sides: the slots after the change of one list. -/
theorem map_modify {wheel : List (List Node)} {index : ℕ} {change : List Node → List Node}
    {listed : List PeerPtr → List PeerPtr}
    (same : ∀ list, wheel[index]? = some list → (change list).map Node.peer = listed (list.map Node.peer)) :
    (wheel.modify index change).map (List.map Node.peer) = (wheel.map (List.map Node.peer)).modify index listed := by
  refine List.ext_getElem? fun place => ?_
  rw [List.getElem?_map, List.getElem?_modify, List.getElem?_modify, List.getElem?_map]
  cases found : wheel[place]? with
  | none => rfl
  | some list =>
    by_cases here : index = place
    · subst here
      simpa using same list found
    · simp [here]

/-- What relates the nodes to the wheel in every state. -/
structure Represents (nodes : NodeBackoff) (backoff : TopicBackoff) : Prop where
  tidy : nodes.Tidy
  holds : nodes.Holds backoff
  sound : backoff.Sound

/-- `insert`, after the node of the peer is gone. -/
theorem insert_represents {wheel : List (List Node)} {lists : List (List PeerPtr)} {horizon : ℕ} {slots : ℕ}
    (represents : nodes.Represents backoff) (length : wheel.length = nodes.slots.length)
    (removed : ∀ index : ℕ, wheel[index]? = nodes.slots[index]?.map (others peer))
    (same : lists = wheel.map (List.map Node.peer))
    (ahead : nodes.slot ≤ horizon ∧ horizon ≤ nodes.slot + (nodes.slots.length - 1))
    (updated : backoff.update peer slots = { backoff with
      slots := lists.modify (horizon % backoff.slots.length) (· ++ [peer])
      peers := backoff.peers.insert peer horizon }) :
    ∃ after, insert { nodes with slots := wheel } peer horizon = some after ∧ after.Represents (backoff.update peer slots) := by
  have round : backoff.slots.length = nodes.slots.length := round_holds represents.holds
  have placed : index { nodes with slots := wheel } horizon = some (horizon % nodes.slots.length) := by
    rw [index, length]
    exact if_neg represents.tidy.some_.ne'
  refine ⟨_, by rw [insert, placed, Option.map_some], tidy_moved represents.tidy length removed ahead, ?_,
    TopicBackoff.sound_update represents.sound⟩
  rw [updated]
  refine ⟨?_, represents.holds.slot, fun other => ?_⟩
  · dsimp only
    rw [same, round]
    exact (map_modify fun list _ => by rw [List.map_append, List.map_singleton]).symm
  · dsimp only
    rw [UnorderedMap.lookup_insert_eq, UnorderedMap.lookup_insert_eq, represents.holds.peers]
    split_ifs <;> rfl

/-- The erasure finds the node of the entry, and nothing else is erased. -/
theorem erase_eq (tidy : nodes.Tidy) {horizon : ℕ} (known : nodes.peers.lookup peer = some (horizon, address)) :
    ∃ wheel, nodes.erase horizon address = some { nodes with slots := wheel } ∧
      wheel = nodes.slots.modify (horizon % nodes.slots.length) (others peer) ∧
      ∀ index : ℕ, wheel[index]? = nodes.slots[index]?.map (others peer) := by
  obtain ⟨list, found, inside⟩ := tidy.valid peer horizon address known
  have there : ∃ node ∈ nodes.slots.getD (horizon % nodes.slots.length) [], node.address = address := by
    rw [List.getD_eq_getElem?_getD, found]
    exact ⟨_, inside, rfl⟩
  have filtered {index : ℕ} {list : List Node} (found : nodes.slots[index]? = some list) :
      list.filter (·.address ≠ address) = others peer list :=
    List.filter_congr fun node member => by simp only [ne_eq, node_iff tidy found member known]
  have changed : nodes.slots.modify (horizon % nodes.slots.length) (·.filter (·.address ≠ address)) =
      nodes.slots.modify (horizon % nodes.slots.length) (others peer) := by
    refine List.ext_getElem? fun index => ?_
    rw [List.getElem?_modify, List.getElem?_modify]
    cases there : nodes.slots[index]? with
    | none => rfl
    | some list =>
      split_ifs
      · exact congrArg some (filtered there)
      · rfl
  refine ⟨_, by rw [erase, index_eq tidy, Option.bind_some, if_pos there], changed, fun index => ?_⟩
  rw [changed, List.getElem?_modify]
  cases there : nodes.slots[index]? with
  | none => rfl
  | some list =>
    split_ifs with here
    · rfl
    · -- No node of the peer is in another slot.
      refine congrArg some (List.filter_eq_self.mpr fun node member => decide_eq_true ?_).symm
      rintro rfl
      obtain ⟨own, entry, place⟩ := tidy.owned index list there node member
      rw [known] at entry
      obtain ⟨rfl, -⟩ := Prod.mk.inj (Option.some.inj entry)
      exact here place

theorem update_represents (represents : nodes.Represents backoff) (peer : PeerPtr) (slots : ℕ) :
    ∃ after, nodes.update peer slots = some after ∧ after.Represents (backoff.update peer slots) := by
  have round : backoff.slots.length = nodes.slots.length := round_holds represents.holds
  have entry := represents.holds.peers peer
  have ahead : nodes.slot ≤ nodes.slot + min slots (nodes.slots.length - 1) ∧
      nodes.slot + min slots (nodes.slots.length - 1) ≤ nodes.slot + (nodes.slots.length - 1) :=
    ⟨Nat.le_add_right _ _, Nat.add_le_add_left (min_le_right _ _) _⟩
  unfold update
  by_cases none : slots = 0
  · rw [if_pos none, TopicBackoff.update, if_pos none]
    exact ⟨nodes, rfl, represents⟩
  rw [if_neg none, last_eq represents.tidy]
  dsimp only
  cases known : nodes.peers.lookup peer with
  | none =>
    rw [known, Option.map_none] at entry
    refine insert_represents represents rfl (fun index => ?_) represents.holds.slots ahead ?_
    · cases found : nodes.slots[index]? with
      | none => rfl
      | some list =>
        refine congrArg some (List.filter_eq_self.mpr fun node member => decide_eq_true ?_).symm
        rintro rfl
        obtain ⟨own, entry, -⟩ := represents.tidy.owned index list found node member
        rw [known] at entry
        cases entry
    · rw [TopicBackoff.update, if_neg none]
      dsimp only
      rw [entry, round, represents.holds.slot]
  | some pair =>
    obtain ⟨previous, iterator⟩ := pair
    rw [known, Option.map_some] at entry
    dsimp only
    have updated : backoff.update peer slots = if nodes.slot + min slots (nodes.slots.length - 1) ≤ previous then backoff
        else { backoff with
          slots := (backoff.slots.modify (previous % nodes.slots.length) (·.erase peer)).modify
            ((nodes.slot + min slots (nodes.slots.length - 1)) % backoff.slots.length) (· ++ [peer])
          peers := backoff.peers.insert peer (nodes.slot + min slots (nodes.slots.length - 1)) } := by
      rw [TopicBackoff.update, if_neg none]
      dsimp only
      rw [entry, round, represents.holds.slot]
    by_cases sooner : nodes.slot + min slots (nodes.slots.length - 1) ≤ previous
    · rw [if_pos sooner, updated, if_pos sooner]
      exact ⟨nodes, rfl, represents⟩
    · obtain ⟨wheel, erased, rfl, removed⟩ := erase_eq represents.tidy known
      rw [if_neg sooner] at updated ⊢
      rw [erased, Option.bind_some]
      refine insert_represents represents (List.length_modify ..) removed ?_ ahead updated
      rw [represents.holds.slots]
      refine (map_modify fun list found => ?_).symm
      -- The list of the wheel has the peer once.
      have distinct : (list.map Node.peer).Nodup := by
        refine represents.sound.nodup (previous % nodes.slots.length) _ ?_
        rw [represents.holds.slots, List.getElem?_map, found, Option.map_some]
      rw [distinct.erase_eq_filter, others, List.filter_map]
      refine congrArg _ (List.filter_congr fun node _ => ?_)
      change decide (node.peer ≠ peer) = !decide (node.peer = peer)
      exact decide_not

/-- The peers that a shift releases are those whose horizon is reached. -/
theorem released_iff (tidy : nodes.Tidy) {horizon : ℕ} (known : nodes.peers.lookup peer = some (horizon, address)) :
    peer ∈ (nodes.slots.getD (nodes.slot % nodes.slots.length) []).map Node.peer ↔ horizon = nodes.slot := by
  have found := List.getElem?_eq_getElem (Nat.mod_lt nodes.slot tidy.some_)
  rw [List.getD_eq_getElem?_getD, found, Option.getD_some, List.mem_map]
  constructor
  · rintro ⟨node, member, rfl⟩
    obtain ⟨own, entry, place⟩ := tidy.owned _ _ found node member
    rw [known] at entry
    obtain ⟨rfl, -⟩ := Prod.mk.inj (Option.some.inj entry)
    obtain ⟨late, near⟩ := tidy.ahead _ _ _ known
    exact (TopicBackoff.le_of_mod_eq place near).antisymm late
  · rintro rfl
    obtain ⟨list, there, inside⟩ := tidy.valid _ _ _ known
    rw [found] at there
    obtain rfl := Option.some.inj there
    exact ⟨_, inside, rfl⟩

/-- The entries of the peers of some nodes are erased. -/
theorem lookup_erased (list : List Node) (peers : UnorderedMap PeerPtr (ℕ × ℕ)) :
    (list.foldl (fun peers node => peers.erase node.peer) peers).lookup peer =
      if peer ∈ list.map Node.peer then none else peers.lookup peer := by
  rw [← UnorderedMap.lookup_foldl_erase, List.foldl_map]

/-- What is left of the entries after a shift. -/
theorem lookup_released (tidy : nodes.Tidy) (peer : PeerPtr) :
    ((nodes.slots.getD (nodes.slot % nodes.slots.length) []).foldl (fun peers node => peers.erase node.peer)
      nodes.peers).lookup peer = (nodes.peers.lookup peer).filter (·.1 ≠ nodes.slot) := by
  rw [lookup_erased]
  cases known : nodes.peers.lookup peer with
  | none => rw [ite_self, Option.filter_none]
  | some entry =>
    obtain ⟨horizon, address⟩ := entry
    simp only [released_iff tidy known, Option.filter_some, decide_eq_true_eq, ne_eq, ite_not]

theorem tidy_shift (tidy : nodes.Tidy) : Tidy { nodes with
    slots := nodes.slots.modify (nodes.slot % nodes.slots.length) fun _ => []
    slot := nodes.slot + 1
    peers := (nodes.slots.getD (nodes.slot % nodes.slots.length) []).foldl (fun peers node => peers.erase node.peer)
      nodes.peers } := by
  have round : (nodes.slots.modify (nodes.slot % nodes.slots.length) fun _ => []).length = nodes.slots.length :=
    List.length_modify ..
  have lists (index : ℕ) : (nodes.slots.modify (nodes.slot % nodes.slots.length) fun _ => [])[index]? =
      nodes.slots[index]?.map fun list => if nodes.slot % nodes.slots.length = index then [] else list := by
    rw [List.getElem?_modify]
    cases nodes.slots[index]? <;> rfl
  have left {peer : PeerPtr} {horizon address : ℕ} (known : ((nodes.slots.getD (nodes.slot % nodes.slots.length) []).foldl
      (fun peers node => peers.erase node.peer) nodes.peers).lookup peer = some (horizon, address)) :
      nodes.peers.lookup peer = some (horizon, address) ∧ horizon ≠ nodes.slot := by
    rw [lookup_released tidy] at known
    simpa using Option.filter_eq_some_iff.mp known
  constructor
  case some_ => exact tidy.some_.trans_eq round.symm
  case small => exact round.trans_lt tidy.small
  case once =>
    intro index list found
    rw [lists] at found
    obtain ⟨earlier, there, rfl⟩ := Option.map_eq_some_iff.mp found
    split_ifs
    · exact List.nodup_nil
    · exact tidy.once index earlier there
  case owned =>
    intro index list found node member
    rw [lists] at found
    obtain ⟨earlier, there, rfl⟩ := Option.map_eq_some_iff.mp found
    split_ifs at member with here
    · cases member
    · obtain ⟨horizon, entry, place⟩ := tidy.owned index earlier there node member
      dsimp only
      rw [round]
      refine ⟨horizon, ?_, place⟩
      rw [lookup_released tidy, entry]
      refine Option.filter_some_pos (decide_eq_true ?_)
      rintro rfl
      exact here place
  case valid =>
    intro peer horizon address known
    obtain ⟨known, later⟩ := left known
    obtain ⟨list, there, inside⟩ := tidy.valid peer horizon address known
    obtain ⟨late, near⟩ := tidy.ahead peer horizon address known
    dsimp only
    rw [round, lists, there, Option.map_some]
    refine ⟨_, rfl, ?_⟩
    rw [if_neg fun same => later ((TopicBackoff.le_of_mod_eq same.symm near).antisymm late)]
    exact inside
  case apart =>
    intro first second horizon₁ horizon₂ address known₁ known₂
    exact tidy.apart _ _ _ _ _ (left known₁).1 (left known₂).1
  case used =>
    intro peer horizon address known
    exact tidy.used _ _ _ (left known).1
  case ahead =>
    intro peer horizon address known
    obtain ⟨known, later⟩ := left known
    obtain ⟨late, near⟩ := tidy.ahead peer horizon address known
    dsimp only
    rw [round]
    omega

theorem shift_represents (represents : nodes.Represents backoff) :
    ∃ after, nodes.shift = some after ∧ after.Represents backoff.shift := by
  have tidy := represents.tidy
  refine ⟨_, by rw [shift, index_eq tidy, Option.map_some], tidy_shift tidy, ?_,
    TopicBackoff.sound_shift represents.sound⟩
  refine ⟨?_, congrArg (· + 1) represents.holds.slot, fun other => ?_⟩
  · dsimp only [TopicBackoff.shift]
    rw [represents.holds.slots, represents.holds.slot, List.length_map]
    exact (map_modify fun _ _ => rfl).symm
  · dsimp only [TopicBackoff.shift]
    have list : backoff.slots.getD (backoff.slot % backoff.slots.length) [] =
        (nodes.slots.getD (nodes.slot % nodes.slots.length) []).map Node.peer := by
      rw [represents.holds.slots, represents.holds.slot, List.length_map, List.getD_eq_getElem?_getD, List.getElem?_map,
        List.getD_eq_getElem?_getD]
      cases nodes.slots[nodes.slot % nodes.slots.length]? <;> rfl
    rw [list, UnorderedMap.lookup_foldl_erase, lookup_erased, represents.holds.peers]
    split_ifs <;> rfl

end NodeBackoff

/-! Runs. -/

namespace TopicBackoff

def apply (backoff : TopicBackoff) : BackoffOp → TopicBackoff
  | .update peer slots => backoff.update peer slots
  | .shift => backoff.shift

variable {R : Type} {config : Config R}

/-- In every run the wheel counts down the longest backoff of a peer. -/
theorem countdown_run (config : Config R) (ops : List BackoffOp) : (ops.foldl apply (new config)).Sound ∧
    (ops.foldl apply (new config)).round = (new config).round ∧
    ∀ peer, (ops.foldl apply (new config)).get peer = countdown ((new config).round - 1) peer ops := by
  induction ops using List.reverseRecOn with
  | nil => exact ⟨sound_new, rfl, fun peer => get_new⟩
  | append_singleton ops op ih =>
    obtain ⟨sound, round, counts⟩ := ih
    rw [List.foldl_append, List.foldl_cons, List.foldl_nil]
    cases op with
    | update first slots =>
      refine ⟨sound_update sound, round_update.trans round, fun peer => ?_⟩
      rw [apply, get_update, countdown_update, round, counts, counts]
      by_cases same : peer = first
      · rw [if_pos same, if_pos same.symm, same]
      · rw [if_neg same, if_neg (Ne.symm same)]
    | shift =>
      refine ⟨sound_shift sound, round_shift.trans round, fun peer => ?_⟩
      rw [apply, get_shift sound, countdown_shift, counts]

end TopicBackoff

namespace NodeBackoff

variable {R : Type} {config : Config R} {nodes : NodeBackoff}

theorem backoffSlots_lt (config : Config R) (backoff : Backoff) (extra : ℕ) : backoffSlots config backoff extra < 2 ^ 64 := by
  have := Int.emod_lt_of_pos (backoff.tdiv config.heartbeatInterval + (extra : ℤ)) (show (0 : ℤ) < 2 ^ 64 by decide)
  unfold backoffSlots
  omega

/-- The constructor makes empty lists. -/
theorem create_represents (beating : config.heartbeatInterval ≠ 0)
    (slotted : backoffSlots config config.pruneBackoff (config.backoffSlack + 1) ≠ 0) :
    ∃ nodes, create config = some nodes ∧ nodes.Represents (TopicBackoff.new config) := by
  refine ⟨_, if_neg beating, ?_, ⟨?_, rfl, fun peer => rfl⟩, TopicBackoff.sound_new⟩
  · have empty {index : ℕ} {list : List Node} (found : (List.replicate (backoffSlots config config.pruneBackoff
        (config.backoffSlack + 1)) ([] : List Node))[index]? = some list) : list = [] :=
      List.eq_of_mem_replicate (List.mem_of_getElem? found)
    constructor
    case some_ => exact (Nat.pos_of_ne_zero slotted).trans_eq (List.length_replicate ..).symm
    case small => exact (List.length_replicate ..).trans_lt (backoffSlots_lt ..)
    case once =>
      intro index list found
      rw [empty found]
      exact List.nodup_nil
    case owned =>
      intro index list found node member
      rw [empty found] at member
      cases member
    case valid =>
      intro peer horizon address known
      cases known
    case apart =>
      intro peer other horizon horizon' address known
      cases known
    case used =>
      intro peer horizon address known
      cases known
    case ahead =>
      intro peer horizon address known
      cases known
  · rw [List.map_replicate]
    rfl

theorem apply_represents {backoff : TopicBackoff} (represents : nodes.Represents backoff) (op : BackoffOp) :
    ∃ after, nodes.apply op = some after ∧ after.Represents (backoff.apply op) := by
  cases op with
  | update peer slots => exact update_represents represents peer slots
  | shift => exact shift_represents represents

/-- The nodes represent the wheel along runs, and no step fails. -/
theorem foldlM_represents {backoff : TopicBackoff} (represents : nodes.Represents backoff) (ops : List BackoffOp) :
    ∃ after, ops.foldlM apply nodes = some after ∧ after.Represents (ops.foldl TopicBackoff.apply backoff) := by
  induction ops generalizing nodes backoff with
  | nil => exact ⟨nodes, rfl, represents⟩
  | cons op rest ih =>
    obtain ⟨next, applied, kept⟩ := apply_represents represents op
    obtain ⟨after, ran, holds⟩ := ih kept
    refine ⟨after, ?_, holds⟩
    rw [List.foldlM_cons, applied]
    exact ran

/-- A node of a list belongs to one entry. -/
theorem owner_unique (tidy : nodes.Tidy) {index : ℕ} {list : List Node} (found : nodes.slots[index]? = some list)
    {node : Node} (member : node ∈ list) : ∃! peer, ∃ horizon,
      nodes.peers.lookup peer = some (horizon, node.address) ∧ horizon % nodes.slots.length = index := by
  obtain ⟨horizon, entry, place⟩ := tidy.owned index list found node member
  exact ⟨node.peer, ⟨horizon, entry, place⟩, fun other ⟨_, known, _⟩ => tidy.apart _ _ _ _ _ known entry⟩

/-- No call fails, so that every erasure is valid, the backoffs are counted down, and every node of a list belongs to one
entry. -/
def CountsDown (config : Config R) (ops : List BackoffOp) : Prop :=
  ∃ nodes, run config ops = some nodes ∧
    (∀ peer, nodes.get peer = countdown (nodes.slots.length - 1) peer ops) ∧ nodes.Tidy ∧
    ∀ (index : ℕ) (list : List Node), nodes.slots[index]? = some list → ∀ node ∈ list, ∃! peer, ∃ horizon,
      nodes.peers.lookup peer = some (horizon, node.address) ∧ horizon % nodes.slots.length = index

theorem countsDown_of_config (config : Config R) (beating : config.heartbeatInterval ≠ 0)
    (slotted : backoffSlots config config.pruneBackoff (config.backoffSlack + 1) ≠ 0) (ops : List BackoffOp) :
    CountsDown config ops := by
  obtain ⟨start, created, represents⟩ := create_represents beating slotted
  obtain ⟨nodes, ran, represents⟩ := foldlM_represents represents ops
  obtain ⟨-, round, counts⟩ := TopicBackoff.countdown_run config ops
  refine ⟨nodes, by rw [run, created, Option.bind_some, ran], fun peer => ?_, represents.tidy,
    fun index list found node member => owner_unique represents.tidy found member⟩
  rw [get_holds represents.holds, counts, ← round_holds represents.holds, round]

theorem countsDown_default : CountsDown (Config.default true) [.update 0 3, .shift, .update 0 100, .update 1 1, .shift] :=
  countsDown_of_config _ (by decide) (by decide) _

/-- The number of slots may wrap around to zero, and without time between heartbeats there is none. -/
theorem not_countsDown_always :
    ¬ CountsDown { Config.default true with backoffSlack := 2 ^ 64 - 61 } [.shift] ∧
      ¬ CountsDown { Config.default true with heartbeatInterval := 0 } [] := by
  constructor
  · rintro ⟨nodes, ran, -⟩
    have failed : (run { Config.default true with backoffSlack := 2 ^ 64 - 61 } [.shift]).isNone = true := by
      decide
    rw [ran] at failed
    cases failed
  · rintro ⟨nodes, ran, -⟩
    cases ran

end NodeBackoff

end Libp2p.Gossip
