import Libp2p.Multi.Canonical

/-! # Looking into a multiaddress

The accessors search the text of an address and look its words up by name. They find its components unless a value looks
like something else: like a protocol, like the beginning of the legacy name of `p2p`, or like the end of an address.
-/

namespace Libp2p.Multi

open Protocol Converters Library

namespace Multiaddress

section Accessors

/-- The loop of `findSubstringOccurrences`, one occurrence per unit of `room`. -/
def occurrencesLoop (string substring : Bytes) : ℕ → Option ℕ → List ℕ
  | _, none => []
  | 0, some _ => []
  | room + 1, some occurrence =>
    occurrence :: occurrencesLoop string substring room (findFrom string substring (occurrence + substring.length))

def findSubstringOccurrences (string substring : Bytes) : List ℕ :=
  occurrencesLoop string substring (string.length + 1) (findFrom string substring 0)

/-- The word after the one that starts at a slash; the position after a slash that is not found is zero. -/
def valueAt (text : Bytes) (pos : ℕ) : Bytes :=
  let valuePos := match findFrom text [0x2f] (pos + 1) with
    | some slash => slash + 1
    | none => 0
  match findFrom text [0x2f] valuePos with
  | some valueEnd => (text.drop valuePos).take (valueEnd - valuePos)
  | none => text.drop valuePos

def getValuesForProtocol (self : Multiaddress) (proto : Code) : List Bytes :=
  match ProtocolList.getByCode proto.number with
  | none => []
  | some protocol =>
    let protoStr := 0x2f :: (protocol.name ++ [0x2f])
    let protoPositions := findSubstringOccurrences self.stringifiedAddress protoStr ++
      if proto = .p2p then findSubstringOccurrences self.stringifiedAddress (ascii "/ipfs") else []
    protoPositions.map (valueAt self.stringifiedAddress)

def getFirstValueForProtocol (self : Multiaddress) (proto : Code) : Except Error Bytes :=
  match self.getValuesForProtocol proto with
  | [] => .error .protocolNotFound
  | value :: _ => .ok value

def getPeerId (self : Multiaddress) : Option Bytes := (self.getValuesForProtocol .p2p).head?

def getProtocols (self : Multiaddress) : List Protocol :=
  if self.stringifiedAddress = [] then []
  else (self.stringifiedAddress.tail.splitOn 0x2f).filterMap ProtocolList.getByName

/-- What one token does to the protocols with values; there is no last one to add a value to at first. -/
def addToken (pvs : List (Protocol × Bytes)) (token : Bytes) : Option (List (Protocol × Bytes)) :=
  match ProtocolList.getByName token with
  | some p => some (pvs ++ [(p, [])])
  | none =>
    match pvs.getLast? with
    | none => none
    | some (p, s) => some (pvs.dropLast ++ [(p, (if s ≠ [] then s ++ [0x2f] else s) ++ token)])

def getProtocolsWithValues (self : Multiaddress) : Option (List (Protocol × Bytes)) :=
  if self.stringifiedAddress = [] then some []
  else (wordsOf self.stringifiedAddress.tail).foldlM addToken []

def hasProtocol (self : Multiaddress) (code : Code) : Bool :=
  match ProtocolList.getByCode code.number with
  | none => false
  | some p =>
    let text := self.stringifiedAddress
    if p.size = 0 ∧ p.name.isSuffixOf text ∧ p.name.length + 1 ≤ text.length ∧
        text.getD (text.length - (p.name.length + 1)) 0 ≠ 0 then true
    else (findFrom text (0x2f :: (p.name ++ [0x2f])) 0).isSome

end Accessors

/-- The accessors agree with the components of an address. -/
structure Agrees (ip : IpTexts) (address : Multiaddress) (cs : List Component) : Prop where
  protocols : address.getProtocols = cs.map Component.protocol
  withValues : address.getProtocolsWithValues =
    some (cs.map fun component => (component.protocol, component.value ip))
  values : ∀ code protocol, ProtocolList.getByCode code.number = some protocol → protocol.size ≠ 0 →
    address.getValuesForProtocol code =
      (cs.filter fun component => component.protocol.code = code).map (Component.value ip)
  has : ∀ code, address.hasProtocol code = true ↔ ∃ component ∈ cs, component.protocol.code = code
  peerId : address.getPeerId =
    ((cs.filter fun component => component.protocol.code = .p2p).map (Component.value ip)).head?

/-- No value looks like something else. -/
structure Telling (ip : IpTexts) (cs : List Component) : Prop where
  unnamed : ∀ component ∈ cs, component.protocol.size ≠ 0 → ProtocolList.getByName (component.value ip) = none
  newer : ∀ component ∈ cs, component.protocol.size ≠ 0 → ¬ ascii "ipfs" <+: component.value ip
  ended : ∀ last, cs.getLast? = some last → last.protocol.size ≠ 0 → ∀ p ∈ ProtocolList.protocols, p.size = 0 →
    p.name <:+ last.value ip → ∃ component ∈ cs, component.protocol = p

section Tokens

variable {ip : IpTexts} {self : Multiaddress} {cs : List Component} {component : Component}
  {pvs : List (Protocol × Bytes)}

theorem filterMap_words (printable : component.Printable) : (component.words ip).filterMap ProtocolList.getByName =
    component.protocol :: if component.protocol.size = 0 then [] else (ProtocolList.getByName (component.value ip)).toList := by
  unfold Component.words
  rw [List.filterMap_cons_some (ProtocolList.getByName_name _ printable.known)]
  by_cases bare : component.protocol.size = 0
  · rw [if_pos bare, if_pos bare]
    rfl
  · rw [if_neg bare, if_neg bare]
    cases found : ProtocolList.getByName (component.value ip) <;> simp [found]

theorem length_filterMap_words (printable : ∀ component ∈ cs, component.Printable) :
    cs.length ≤ ((cs.flatMap (Component.words ip)).filterMap ProtocolList.getByName).length := by
  induction cs with
  | nil => exact Nat.zero_le _
  | cons component rest ih =>
    obtain ⟨this, others⟩ := List.forall_mem_cons.mp printable
    have later := ih others
    rw [List.flatMap_cons, List.filterMap_append, filterMap_words this, List.length_append]
    simp only [List.length_cons]
    omega

/-- The words that are names are those of the protocols exactly when no value is a name. -/
theorem filterMap_flatMap (printable : ∀ component ∈ cs, component.Printable) :
    (cs.flatMap (Component.words ip)).filterMap ProtocolList.getByName = cs.map Component.protocol ↔
      ∀ component ∈ cs, component.protocol.size ≠ 0 → ProtocolList.getByName (component.value ip) = none := by
  induction cs with
  | nil => simp
  | cons component rest ih =>
    obtain ⟨this, others⟩ := List.forall_mem_cons.mp printable
    rw [List.flatMap_cons, List.filterMap_append, filterMap_words this, List.forall_mem_cons, ← ih others, List.map_cons,
      List.cons_append, List.cons_inj_right]
    by_cases bare : component.protocol.size = 0
    · simp [bare]
    · rw [if_neg bare]
      rcases found : ProtocolList.getByName (component.value ip) with _ | protocol
      · simp
      · refine iff_of_false (fun same => ?_) (by simp [bare])
        have more := @length_filterMap_words ip rest others
        have lengths := congrArg List.length same
        simp only [Option.toList_some, List.singleton_append, List.length_cons, List.length_map] at lengths
        omega

theorem flatMap_text_eq_nil : cs.flatMap (Component.text ip) = [] ↔ cs = [] := by
  rw [flatMap_text, joined_eq_nil]
  cases cs <;> simp [Component.words]

theorem getProtocols_eq (printable : ∀ component ∈ cs, component.Printable)
    (written : self.stringifiedAddress = cs.flatMap (Component.text ip)) :
    self.getProtocols = (cs.flatMap (Component.words ip)).filterMap ProtocolList.getByName := by
  unfold getProtocols
  rw [written]
  by_cases empty : cs = []
  · rw [if_pos (flatMap_text_eq_nil.mpr empty), empty]
    rfl
  · rw [if_neg (mt flatMap_text_eq_nil.mp empty), words_split printable empty]

/-- The tokens of components whose values are no names add the components. -/
theorem foldlM_words (printable : ∀ component ∈ cs, component.Printable)
    (unnamed : ∀ component ∈ cs, component.protocol.size ≠ 0 → ProtocolList.getByName (component.value ip) = none) :
    (cs.flatMap (Component.words ip)).foldlM addToken pvs =
      some (pvs ++ cs.map fun component => (component.protocol, component.value ip)) := by
  induction cs generalizing pvs with
  | nil => simp
  | cons component rest ih =>
    obtain ⟨this, others⟩ := List.forall_mem_cons.mp printable
    obtain ⟨here, later⟩ := List.forall_mem_cons.mp unnamed
    have added : (component.words ip).foldlM addToken pvs = some (pvs ++ [(component.protocol, component.value ip)]) := by
      have named : addToken pvs component.protocol.name = some (pvs ++ [(component.protocol, [])]) := by
        unfold addToken
        rw [ProtocolList.getByName_name _ this.known]
      unfold Component.words
      rw [List.foldlM_cons, named, Option.bind_eq_bind, Option.bind_some]
      by_cases bare : component.protocol.size = 0
      · have empty : component.value ip = [] := by
          have absent := (shape_eq_absent _ this.known).mpr bare
          unfold Component.value
          cases code : component.protocol.code <;> rw [code] at absent <;> first | rfl | cases absent
        rw [if_pos bare, empty]
        rfl
      · rw [if_neg bare]
        simp [addToken, here bare]
    rw [List.flatMap_cons, List.foldlM_append, added, Option.bind_eq_bind, Option.bind_some, ih others later]
    simp

theorem getProtocolsWithValues_eq (printable : ∀ component ∈ cs, component.Printable)
    (written : self.stringifiedAddress = cs.flatMap (Component.text ip))
    (unnamed : ∀ component ∈ cs, component.protocol.size ≠ 0 → ProtocolList.getByName (component.value ip) = none) :
    self.getProtocolsWithValues = some (cs.map fun component => (component.protocol, component.value ip)) := by
  unfold getProtocolsWithValues
  rw [written]
  rcases List.eq_nil_or_concat cs with rfl | ⟨front, last, rfl⟩
  · rfl
  rw [List.concat_eq_append] at printable unnamed ⊢
  have whole := @foldlM_words ip _ [] printable unnamed
  have spelled := @words_split ip _ printable (by simp)
  rw [if_neg (mt flatMap_text_eq_nil.mp (by simp))]
  obtain ⟨name, more, first⟩ : ∃ name more, (front ++ [last]).flatMap (Component.words ip) = name :: more := by
    cases front <;> exact ⟨_, _, rfl⟩
  have plain := @flatMap_words_plain ip _ printable
  rw [first] at plain
  have named : name ≠ [] := by
    rcases front with _ | ⟨head, front⟩ <;>
    · obtain ⟨rfl, -⟩ := List.cons.inj first
      exact (ProtocolList.name_plain _ (printable _ (by simp)).known).1
  rw [flatMap_text, first, joined_cons, List.tail_cons, wordsOf_joined plain named, ← first]
  split_ifs with empty
  -- An empty value at the end is dropped with its slash, and is there as the value that its protocol starts with.
  · have this := printable last (by simp)
    rw [List.flatMap_append, List.flatMap_singleton] at empty whole ⊢
    unfold Component.words at empty
    by_cases bare : last.protocol.size = 0
    · rw [if_pos bare, List.getLast?_concat] at empty
      exact absurd (Option.some.inj empty) (ProtocolList.name_plain _ this.known).1
    · rw [if_neg bare, List.append_cons, List.getLast?_concat] at empty
      have shorter := @foldlM_words ip front [] (fun other member => printable other (List.mem_append_left _ member))
        fun other member => unnamed other (List.mem_append_left _ member)
      have dropped : (front.flatMap (Component.words ip) ++ last.words ip).dropLast =
          front.flatMap (Component.words ip) ++ [last.protocol.name] := by
        unfold Component.words
        rw [if_neg bare, List.append_cons, List.dropLast_concat]
      rw [dropped, List.foldlM_append, shorter, Option.bind_eq_bind, Option.bind_some]
      simp [addToken, ProtocolList.getByName_name _ this.known, Option.some.inj empty]
  · simpa using whole

end Tokens

section Values

variable {ip : IpTexts} {self : Multiaddress} {cs : List Component} {component : Component}
  {front name word value text : Bytes} {ws rest : List Bytes} {room : ℕ}

/-- The words that follow a name, when a search goes on behind the name and its slash. -/
def following (name : Bytes) : List Bytes → List Bytes
  | [] => []
  | [_] => []
  | word :: value :: rest => if word = name then value :: following name rest else following name (value :: rest)

theorem following_other (other : word ≠ name) : following name (word :: ws) = following name ws := by
  cases ws with
  | nil => rfl
  | cons value rest => rw [following, if_neg other]

theorem following_append (absent : name ∉ rest) : following name (rest ++ ws) = following name ws := by
  induction rest with
  | nil => rfl
  | cons word rest ih =>
    rw [List.cons_append, following_other fun same => absent (by simp [same]),
      ih fun member => absent (List.mem_cons_of_mem _ member)]

/-- The value after a word is the next word. -/
theorem valueAt_joined (plain : 0x2f ∉ word) (plain_ : 0x2f ∉ value) :
    valueAt (front ++ joined 0x2f (word :: value :: rest)) front.length = value := by
  have spelled : front ++ joined 0x2f (word :: value :: rest) =
      front ++ joined 0x2f [word] ++ joined 0x2f (value :: rest) := by simp
  have after : (front ++ joined 0x2f [word] ++ joined 0x2f (value :: rest)).drop ((front ++ joined 0x2f [word]).length + 1) =
      value ++ joined 0x2f rest := by
    rw [← List.drop_drop, List.drop_left]
    rfl
  unfold valueAt
  rw [findFrom_joined plain, if_neg (List.cons_ne_nil _ _)]
  dsimp only
  rw [spelled, findFrom_joined plain_, after]
  rcases rest with _ | ⟨next, rest⟩
  · rw [if_pos rfl, joined_nil, List.append_nil]
  · rw [if_neg (List.cons_ne_nil _ _)]
    dsimp only
    have length : (front ++ joined 0x2f [word] ++ joined 0x2f [value]).length - ((front ++ joined 0x2f [word]).length + 1) =
        value.length := by
      simp only [List.length_append, joined_cons, joined_nil, List.length_cons, List.length_nil]
      omega
    rw [length, List.take_left]

/-- The values at the places of a name between slashes are the words that follow it. -/
theorem map_occurrences (named : 0x2f ∉ name) (plain : ∀ word ∈ ws, 0x2f ∉ word) (spelled : text = front ++ joined 0x2f ws)
    (enough : ws.length ≤ room) :
    (occurrencesLoop text (0x2f :: (name ++ [0x2f])) room
      (findFrom text (0x2f :: (name ++ [0x2f])) front.length)).map (valueAt text) = following name ws := by
  induction ws using following.induct name generalizing front room with
  | case1 =>
    have none : findFrom text (0x2f :: (name ++ [0x2f])) front.length = none := by
      unfold findFrom
      rw [spelled, List.drop_left]
      rfl
    rw [none]
    cases room <;> rfl
  | case2 word =>
    have none : findFrom text (0x2f :: (name ++ [0x2f])) front.length = none := by
      unfold findFrom
      rw [spelled, List.drop_left, findFirst_joined_later (plain word List.mem_cons_self)]
      · rfl
      · rw [word_joined_iff named (plain word List.mem_cons_self)]
        exact fun ⟨_, some_⟩ => some_ rfl
    rw [none]
    cases room <;> rfl
  | case3 value rest ih =>
    obtain ⟨-, later⟩ := List.forall_mem_cons.mp plain
    obtain ⟨plain_, others⟩ := List.forall_mem_cons.mp later
    obtain ⟨room, rfl⟩ : ∃ fewer, room = fewer + 1 := ⟨room - 1, by simp only [List.length_cons] at enough; omega⟩
    have here : findFrom text (0x2f :: (name ++ [0x2f])) front.length = some front.length := by
      rw [spelled]
      refine findFrom_here ?_
      rw [joined_cons, List.cons_prefix_cons, word_joined_iff named named]
      exact ⟨rfl, rfl, List.cons_ne_nil _ _⟩
    have parted : text = front ++ 0x2f :: (name ++ [0x2f]) ++ (value ++ joined 0x2f rest) := by
      rw [spelled]
      simp
    have further : findFrom text (0x2f :: (name ++ [0x2f])) (front.length + (0x2f :: (name ++ [0x2f])).length) =
        findFrom text (0x2f :: (name ++ [0x2f])) (front ++ 0x2f :: (name ++ [0x2f]) ++ value).length := by
      rw [parted, ← List.length_append, findFrom_append_plain plain_, List.append_assoc _ value]
    rw [here, occurrencesLoop, List.map_cons, further, following, if_pos rfl]
    congr 1
    · rw [spelled, valueAt_joined named plain_]
    · refine ih others ?_ (by simp only [List.length_cons] at enough; omega)
      rw [parted, List.append_assoc _ value]
  | case4 word value rest other ih =>
    obtain ⟨here, others⟩ := List.forall_mem_cons.mp plain
    have parted : text = front ++ 0x2f :: word ++ joined 0x2f (value :: rest) := by
      rw [spelled]
      simp
    have skipped : findFrom text (0x2f :: (name ++ [0x2f])) front.length =
        findFrom text (0x2f :: (name ++ [0x2f])) (front ++ 0x2f :: word).length := by
      unfold findFrom
      rw [parted, List.drop_left, List.append_assoc, List.drop_left]
      change (findFirst _ (joined 0x2f (word :: value :: rest))).map _ = _
      rw [findFirst_joined_later here fun start => other ((word_joined_iff named here).mp start).1, Option.map_map]
      congr 1
      funext position
      simp only [Function.comp_apply, List.length_append, List.length_cons]
      omega
    rw [skipped, following, if_neg other]
    exact ih others parted (by simp only [List.length_cons] at enough ⊢; omega)

theorem eq_of_name {first second : Protocol} (known : first ∈ ProtocolList.protocols)
    (known_ : second ∈ ProtocolList.protocols) (same : first.name = second.name) : first = second := by
  have found := ProtocolList.getByName_name first known
  rw [same, ProtocolList.getByName_name second known_] at found
  exact (Option.some.inj found).symm

theorem eq_of_code {first second : Protocol} (known : first ∈ ProtocolList.protocols)
    (known_ : second ∈ ProtocolList.protocols) (same : first.code = second.code) : first = second := by
  have found := ProtocolList.getByCode_number first known
  rw [same, ProtocolList.getByCode_number second known_] at found
  exact (Option.some.inj found).symm

theorem ne_name_of_unnamed {protocol : Protocol} (known : protocol ∈ ProtocolList.protocols)
    (unnamed : ProtocolList.getByName value = none) : value ≠ protocol.name := by
  rintro rfl
  rw [ProtocolList.getByName_name protocol known] at unnamed
  cases unnamed

/-- The words after the name of a protocol with values are its values, when no value is a name. -/
theorem following_words {protocol : Protocol} (known : protocol ∈ ProtocolList.protocols) (valued : protocol.size ≠ 0)
    (printable : ∀ component ∈ cs, component.Printable)
    (unnamed : ∀ component ∈ cs, component.protocol.size ≠ 0 → ProtocolList.getByName (component.value ip) = none) :
    following protocol.name (cs.flatMap (Component.words ip)) =
      (cs.filter fun component => component.protocol.code = protocol.code).map (Component.value ip) := by
  induction cs with
  | nil => rfl
  | cons component rest ih =>
    obtain ⟨this, others⟩ := List.forall_mem_cons.mp printable
    obtain ⟨here, later⟩ := List.forall_mem_cons.mp unnamed
    have rest_ := ih others later
    rw [List.flatMap_cons]
    unfold Component.words at rest_ ⊢
    by_cases same : component.protocol.code = protocol.code
    · have equal := eq_of_code this.known known same
      rw [List.filter_cons_of_pos (by simpa using same), List.map_cons, equal, if_neg valued, List.cons_append,
        List.singleton_append, following, if_pos rfl, rest_]
    · have other : component.protocol.name ≠ protocol.name := fun named =>
        same (congrArg Protocol.code (eq_of_name this.known known named))
      rw [List.filter_cons_of_neg (by simpa using same), List.cons_append, following_other other]
      by_cases bare : component.protocol.size = 0
      · rw [if_pos bare, List.nil_append, rest_]
      · rw [if_neg bare, List.singleton_append, following_other (ne_name_of_unnamed known (here bare)), rest_]

theorem findFrom_zero (text sub : Bytes) : findFrom text sub 0 = findFirst sub text := by
  unfold findFrom
  rw [List.drop_zero]
  simp

theorem findSubstringOccurrences_eq_nil {substring : Bytes} :
    findSubstringOccurrences text substring = [] ↔ findFirst substring text = none := by
  unfold findSubstringOccurrences
  rw [findFrom_zero]
  rcases findFirst substring text with _ | position
  · simp [occurrencesLoop]
  · simp [occurrencesLoop]

/-- The legacy name is found exactly in values that start with it. -/
theorem occurrences_ipfs (printable : ∀ component ∈ cs, component.Printable) :
    findSubstringOccurrences (cs.flatMap (Component.text ip)) (ascii "/ipfs") = [] ↔
      ∀ component ∈ cs, component.protocol.size ≠ 0 → ¬ ascii "ipfs" <+: component.value ip := by
  have searched := findFirst_joined_eq_none (show 0x2f ∉ ascii "ipfs" by decide) (@flatMap_words_plain ip cs printable)
  rw [findSubstringOccurrences_eq_nil, flatMap_text]
  refine searched.trans ⟨fun none component member valued => ?_, fun newer word member => ?_⟩
  · refine none _ (List.mem_flatMap.mpr ⟨component, member, ?_⟩)
    unfold Component.words
    rw [if_neg valued]
    simp
  · obtain ⟨component, listed, among⟩ := List.mem_flatMap.mp member
    unfold Component.words at among
    rcases List.mem_cons.mp among with rfl | among
    · exact ProtocolList.name_newer _ (printable component listed).known
    · split_ifs at among with bare
      · exact absurd among List.not_mem_nil
      · rw [List.mem_singleton.mp among]
        exact newer component listed bare

theorem getByCode_eq {code : Code} {protocol : Protocol} (found : ProtocolList.getByCode code.number = some protocol) :
    protocol.code = code := by
  have same := ProtocolList.getByCode_code code
  rw [found] at same
  exact Option.some.inj same

/-- The values of a protocol are the words that follow its name, and those that the legacy name brings in. -/
theorem getValuesForProtocol_words {code : Code} {protocol : Protocol}
    (found : ProtocolList.getByCode code.number = some protocol) (printable : ∀ component ∈ cs, component.Printable)
    (written : self.stringifiedAddress = cs.flatMap (Component.text ip)) :
    self.getValuesForProtocol code = following protocol.name (cs.flatMap (Component.words ip)) ++
      if code = .p2p then (findSubstringOccurrences self.stringifiedAddress (ascii "/ipfs")).map
        (valueAt self.stringifiedAddress) else [] := by
  have known := (ProtocolList.mem_of_getByCode found).1
  have named := (ProtocolList.name_plain protocol known).2
  have spelled : self.stringifiedAddress = [] ++ joined 0x2f (cs.flatMap (Component.words ip)) := by
    rw [written, flatMap_text, List.nil_append]
  have room : (cs.flatMap (Component.words ip)).length ≤ self.stringifiedAddress.length + 1 := by
    have short := @length_words_le _ 0x2f (cs.flatMap (Component.words ip))
    rw [spelled, List.nil_append]
    omega
  have searched := map_occurrences named (@flatMap_words_plain ip cs printable) spelled room
  unfold getValuesForProtocol
  rw [found]
  dsimp only
  rw [List.map_append]
  refine congrArg₂ (· ++ ·) searched ?_
  split_ifs <;> rfl

/-- When no value is a name, these words are the values of its components. -/
theorem getValuesForProtocol_eq {code : Code} {protocol : Protocol}
    (found : ProtocolList.getByCode code.number = some protocol) (valued : protocol.size ≠ 0)
    (printable : ∀ component ∈ cs, component.Printable)
    (written : self.stringifiedAddress = cs.flatMap (Component.text ip))
    (unnamed : ∀ component ∈ cs, component.protocol.size ≠ 0 → ProtocolList.getByName (component.value ip) = none) :
    self.getValuesForProtocol code =
      (cs.filter fun component => component.protocol.code = code).map (Component.value ip) ++
        if code = .p2p then (findSubstringOccurrences self.stringifiedAddress (ascii "/ipfs")).map
          (valueAt self.stringifiedAddress) else [] := by
  have known := (ProtocolList.mem_of_getByCode found).1
  rw [getValuesForProtocol_words found printable written, following_words known valued printable unnamed,
    getByCode_eq found]

end Values

section Presence

variable {ip : IpTexts} {self : Multiaddress} {cs : List Component} {code : Code} {protocol : Protocol}

theorem text_nonzero (printable : ∀ component ∈ cs, component.Printable) :
    ∀ c ∈ joined 0x2f (cs.flatMap (Component.words ip)), c ≠ 0 := by
  intro c member
  obtain ⟨word, listed, among⟩ := List.mem_flatMap.mp member
  rcases List.mem_cons.mp among with rfl | among
  · decide
  obtain ⟨component, present, spelled⟩ := List.mem_flatMap.mp listed
  have this := printable component present
  rcases List.mem_cons.mp spelled with rfl | spelled
  · rintro rfl
    exact ProtocolList.name_nonzero _ this.known among
  · split_ifs at spelled with bare
    · exact absurd spelled List.not_mem_nil
    · rw [List.mem_singleton.mp spelled] at among
      exact (valueText_plain this.fits this.shown c among).2

/-- A protocol is found at the end of the last word, when it has no value, or as a word before another one. -/
theorem hasProtocol_iff (found : ProtocolList.getByCode code.number = some protocol)
    (printable : ∀ component ∈ cs, component.Printable)
    (written : self.stringifiedAddress = cs.flatMap (Component.text ip)) : self.hasProtocol code = true ↔
      (protocol.size = 0 ∧ ∃ last, (cs.flatMap (Component.words ip)).getLast? = some last ∧ protocol.name <:+ last) ∨
        protocol.name ∈ (cs.flatMap (Component.words ip)).dropLast := by
  obtain ⟨some_, named⟩ := ProtocolList.name_plain protocol (ProtocolList.mem_of_getByCode found).1
  have inner := findFirst_joined_isSome named (@flatMap_words_plain ip cs printable)
  have nonzero := @text_nonzero ip cs printable
  unfold hasProtocol
  rw [found, written, flatMap_text]
  dsimp only
  rw [findFrom_zero]
  generalize cs.flatMap (Component.words ip) = words at inner nonzero
  -- The name ends the text exactly when it ends the last word, and the character before it is never a zero.
  have ended : (protocol.name.isSuffixOf (joined 0x2f words) ∧ protocol.name.length + 1 ≤ (joined 0x2f words).length ∧
      (joined 0x2f words).getD ((joined 0x2f words).length - (protocol.name.length + 1)) 0 ≠ 0) ↔
      ∃ last, words.getLast? = some last ∧ protocol.name <:+ last := by
    rw [List.isSuffixOf_iff_suffix]
    rcases List.eq_nil_or_concat words with rfl | ⟨front, last, rfl⟩
    · simp [some_]
    rw [List.concat_eq_append, List.getLast?_concat]
    have last_ : protocol.name <:+ joined 0x2f (front ++ [last]) ↔ protocol.name <:+ last := by
      rw [joined_append, joined_cons, joined_nil, List.append_nil, suffix_append_cons_iff named]
    constructor
    · rintro ⟨suffix, -⟩
      exact ⟨last, rfl, last_.mp suffix⟩
    · rintro ⟨_, same, suffix⟩
      obtain rfl := Option.some.inj same
      have long : protocol.name.length + 1 ≤ (joined 0x2f (front ++ [last])).length := by
        have := suffix.length_le
        simp only [joined_append, joined_cons, joined_nil, List.length_append, List.length_cons, List.length_nil]
        omega
      refine ⟨last_.mpr suffix, long, ?_⟩
      rw [List.concat_eq_append] at nonzero
      rw [List.getD_eq_getElem?_getD, List.getElem?_eq_getElem (by omega), Option.getD_some]
      exact nonzero _ (List.getElem_mem _)
  split_ifs with suffix
  · simp only [true_iff]
    exact .inl ⟨suffix.1, ended.mp suffix.2⟩
  · rw [inner]
    refine (or_iff_right fun bare => suffix ⟨bare.1, ended.mpr bare.2⟩).symm

/-- A word before another one is the name of a component, when no value is a name. -/
theorem exists_of_mem_dropLast (known : protocol ∈ ProtocolList.protocols)
    (printable : ∀ component ∈ cs, component.Printable)
    (unnamed : ∀ component ∈ cs, component.protocol.size ≠ 0 → ProtocolList.getByName (component.value ip) = none)
    (member : protocol.name ∈ (cs.flatMap (Component.words ip)).dropLast) :
    ∃ component ∈ cs, component.protocol = protocol := by
  obtain ⟨component, present, spelled⟩ := List.mem_flatMap.mp (List.mem_of_mem_dropLast member)
  rcases List.mem_cons.mp spelled with same | spelled
  · exact ⟨component, present, (eq_of_name known (printable component present).known same).symm⟩
  · split_ifs at spelled with bare
    · exact absurd spelled List.not_mem_nil
    · exact absurd (List.mem_singleton.mp spelled).symm (ne_name_of_unnamed known (unnamed component present bare))

theorem mem_dropLast_of_append {α : Type} {front back : List α} {item : α} (some_ : back ≠ []) :
    item ∈ (front ++ item :: back).dropLast := by
  rw [List.dropLast_append_of_ne_nil (List.cons_ne_nil _ _), List.dropLast_cons_of_ne_nil some_]
  simp

/-- The name of a component is a word before another one, or it is the last word. -/
theorem mem_dropLast_of_mem {component : Component} (member : component ∈ cs) :
    component.protocol.name ∈ (cs.flatMap (Component.words ip)).dropLast ∨
      component.protocol.size = 0 ∧ (cs.flatMap (Component.words ip)).getLast? = some component.protocol.name := by
  obtain ⟨front, back, rfl⟩ := List.append_of_mem member
  rw [List.flatMap_append, List.flatMap_cons]
  generalize front.flatMap (Component.words ip) = before
  have later : back ≠ [] → back.flatMap (Component.words ip) ≠ [] := by
    cases back <;> simp [Component.words]
  generalize back.flatMap (Component.words ip) = after at later
  unfold Component.words
  by_cases bare : component.protocol.size = 0
  · rw [if_pos bare, List.singleton_append]
    rcases after with _ | ⟨next, after⟩
    · exact .inr ⟨bare, List.getLast?_concat⟩
    · exact .inl (mem_dropLast_of_append (List.cons_ne_nil _ _))
  · rw [if_neg bare, List.cons_append]
    exact .inl (mem_dropLast_of_append (List.cons_ne_nil _ _))

/-- When no value is a name, protocols are told to be present rightly exactly when the last value does not end like one of
them that is not there. -/
theorem hasProtocol_exact (printable : ∀ component ∈ cs, component.Printable)
    (written : self.stringifiedAddress = cs.flatMap (Component.text ip))
    (unnamed : ∀ component ∈ cs, component.protocol.size ≠ 0 → ProtocolList.getByName (component.value ip) = none) :
    (∀ code, self.hasProtocol code = true ↔ ∃ component ∈ cs, component.protocol.code = code) ↔
      ∀ last, cs.getLast? = some last → last.protocol.size ≠ 0 → ∀ p ∈ ProtocolList.protocols, p.size = 0 →
        p.name <:+ last.value ip → ∃ component ∈ cs, component.protocol = p := by
  have last_word {front : List Component} {last : Component} (valued : last.protocol.size ≠ 0) :
      ((front ++ [last]).flatMap (Component.words ip)).getLast? = some (last.value ip) := by
    rw [List.flatMap_append, List.flatMap_singleton]
    unfold Component.words
    rw [if_neg valued, List.append_cons, List.getLast?_concat]
  constructor
  · intro agree last ended valued p known bare suffix
    obtain ⟨front, rfl⟩ := List.getLast?_eq_some_iff.mp ended
    have present := (hasProtocol_iff (ProtocolList.getByCode_number p known) printable written).mpr
      (.inl ⟨bare, _, last_word valued, suffix⟩)
    obtain ⟨component, member, same⟩ := (agree p.code).mp present
    exact ⟨component, member, eq_of_code (printable component member).known known same⟩
  · intro ended code
    obtain ⟨protocol, found, -⟩ := Option.map_eq_some_iff.mp (ProtocolList.getByCode_code code)
    have known := (ProtocolList.mem_of_getByCode found).1
    have coded := getByCode_eq found
    rw [hasProtocol_iff found printable written]
    constructor
    · intro either
      have present : ∃ component ∈ cs, component.protocol = protocol := by
        rcases either with ⟨bare, word, last, suffix⟩ | inner
        · rcases List.eq_nil_or_concat cs with rfl | ⟨front, final, rfl⟩
          · cases last
          rw [List.concat_eq_append] at printable ended last ⊢
          by_cases final_bare : final.protocol.size = 0
          · have this := printable final (by simp)
            rw [List.flatMap_append, List.flatMap_singleton] at last
            unfold Component.words at last
            rw [if_pos final_bare, List.getLast?_concat] at last
            obtain rfl := Option.some.inj last
            exact ⟨final, by simp, (ProtocolList.eq_of_suffix _ known _ this.known bare final_bare suffix).symm⟩
          · rw [last_word final_bare] at last
            obtain rfl := Option.some.inj last
            exact ended final (by simp) final_bare protocol known bare suffix
        · exact exists_of_mem_dropLast known printable unnamed inner
      obtain ⟨component, member, rfl⟩ := present
      exact ⟨component, member, coded⟩
    · rintro ⟨component, member, same⟩
      obtain rfl := eq_of_code (printable component member).known known (same.trans coded.symm)
      rcases @mem_dropLast_of_mem ip cs component member with inner | ⟨bare, last⟩
      · exact .inr inner
      · exact .inl ⟨bare, _, last, List.suffix_rfl⟩

/-- An address that `create` has made, of a text or of bytes. -/
def Obtained (ip : IpTexts) (self : Multiaddress) : Prop :=
  (∃ s, createFromString ip s = some (.ok self)) ∨ ∃ b, createFromBytes ip b = .ok self

/-- The accessors agree with the components that are read of the bytes exactly when no value looks like something else. -/
theorem agrees_iff (obtained : Obtained ip self) :
    ∃ cs, components self.bytes = .ok cs ∧ (Agrees ip self cs ↔ Telling ip cs) := by
  have printed : bytesToMultiaddrString ip self.bytes = .ok self.stringifiedAddress := by
    rcases obtained with ⟨s, created⟩ | ⟨b, created⟩
    · exact (createFromString_eq_ok.mp created).2
    · obtain ⟨printed, rfl⟩ := createFromBytes_ok created
      exact printed
  obtain ⟨cs, read, printable, written⟩ := bytesToMultiaddrString_eq_ok.mp printed
  have p2p : ProtocolList.getByCode Code.p2p.number = some ⟨.p2p, kVarLen, ascii "p2p"⟩ := by decide
  refine ⟨cs, read, ?_, ?_⟩
  · intro agrees
    have unnamed := (filterMap_flatMap printable).mp ((getProtocols_eq printable written).symm.trans agrees.protocols)
    refine ⟨unnamed, ?_, (hasProtocol_exact printable written unnamed).mp agrees.has⟩
    have valued : (⟨.p2p, kVarLen, ascii "p2p"⟩ : Protocol).size ≠ 0 := by decide
    have values := agrees.values .p2p _ p2p valued
    rw [getValuesForProtocol_eq p2p valued printable written unnamed, if_pos rfl, List.append_right_eq_self,
      List.map_eq_nil_iff, written] at values
    exact (occurrences_ipfs printable).mp values
  · intro telling
    have values (code : Code) (protocol : Protocol) (found : ProtocolList.getByCode code.number = some protocol)
        (valued : protocol.size ≠ 0) : self.getValuesForProtocol code =
          (cs.filter fun component => component.protocol.code = code).map (Component.value ip) := by
      rw [getValuesForProtocol_eq found valued printable written telling.unnamed, written,
        (occurrences_ipfs printable).mpr telling.newer]
      simp
    refine ⟨?_, ?_, values, (hasProtocol_exact printable written telling.unnamed).mpr telling.ended, ?_⟩
    · exact (getProtocols_eq printable written).trans ((filterMap_flatMap printable).mpr telling.unnamed)
    · exact getProtocolsWithValues_eq printable written telling.unnamed
    · unfold getPeerId
      rw [values .p2p _ p2p (by decide)]

/-- A web socket on a port of a host. -/
theorem agrees_iff_listening : ∃ cs, components [4, 127, 0, 0, 1, 6, 0, 80, 0xdd, 3] = .ok cs ∧
    Agrees plainTexts ⟨ascii "/ip4/127.0.0.1/tcp/80/ws", [4, 127, 0, 0, 1, 6, 0, 80, 0xdd, 3]⟩ cs := by
  obtain ⟨cs, read, exact_⟩ := agrees_iff (.inl ⟨ascii "/ip4/127.0.0.1/tcp/80/ws", by decide⟩ :
    Obtained plainTexts ⟨ascii "/ip4/127.0.0.1/tcp/80/ws", [4, 127, 0, 0, 1, 6, 0, 80, 0xdd, 3]⟩)
  refine ⟨cs, read, exact_.mpr ?_⟩
  have known : components [4, 127, 0, 0, 1, 6, 0, 80, 0xdd, 3] = .ok [⟨⟨.ip4, 32, ascii "ip4"⟩, [127, 0, 0, 1]⟩,
      ⟨⟨.tcp, 16, ascii "tcp"⟩, [0, 80]⟩, ⟨⟨.ws, 0, ascii "ws"⟩, []⟩] := by decide
  obtain rfl := Except.ok.inj (known.symm.trans read)
  refine ⟨by decide +kernel, by decide, ?_⟩
  intro last ended valued
  obtain rfl := Option.some.inj ended
  exact absurd rfl valued

/-- A host whose name starts like the legacy name makes the next word the peer id, one whose name ends like a protocol
seems to have that protocol, and one that is called like a protocol is taken for it. -/
theorem looks_like_something_else :
    (createFromString plainTexts (ascii "/dns4/ipfs.io/tcp/443") =
        some (.ok ⟨ascii "/dns4/ipfs.io/tcp/443", 54 :: 7 :: ascii "ipfs.io" ++ [6, 1, 0xbb]⟩) ∧
      (⟨ascii "/dns4/ipfs.io/tcp/443", 54 :: 7 :: ascii "ipfs.io" ++ [6, 1, 0xbb]⟩ : Multiaddress).getPeerId =
        some (ascii "tcp") ∧
      components (54 :: 7 :: ascii "ipfs.io" ++ [6, 1, 0xbb]) =
        .ok [⟨⟨.dns4, kVarLen, ascii "dns4"⟩, ascii "ipfs.io"⟩, ⟨⟨.tcp, 16, ascii "tcp"⟩, [1, 0xbb]⟩] ∧
      ¬ Agrees plainTexts ⟨ascii "/dns4/ipfs.io/tcp/443", 54 :: 7 :: ascii "ipfs.io" ++ [6, 1, 0xbb]⟩
        [⟨⟨.dns4, kVarLen, ascii "dns4"⟩, ascii "ipfs.io"⟩, ⟨⟨.tcp, 16, ascii "tcp"⟩, [1, 0xbb]⟩]) ∧
    (createFromString plainTexts (ascii "/dns/a.ws") = some (.ok ⟨ascii "/dns/a.ws", 53 :: 4 :: ascii "a.ws"⟩) ∧
      (⟨ascii "/dns/a.ws", 53 :: 4 :: ascii "a.ws"⟩ : Multiaddress).hasProtocol .ws = true ∧
      components (53 :: 4 :: ascii "a.ws") = .ok [⟨⟨.dns, kVarLen, ascii "dns"⟩, ascii "a.ws"⟩]) ∧
    createFromString plainTexts (ascii "/dns/tcp") = some (.ok ⟨ascii "/dns/tcp", 53 :: 3 :: ascii "tcp"⟩) ∧
      (⟨ascii "/dns/tcp", 53 :: 3 :: ascii "tcp"⟩ : Multiaddress).getProtocols =
        [⟨.dns, kVarLen, ascii "dns"⟩, ⟨.tcp, 16, ascii "tcp"⟩] ∧
      components (53 :: 3 :: ascii "tcp") = .ok [⟨⟨.dns, kVarLen, ascii "dns"⟩, ascii "tcp"⟩] := by
  refine ⟨⟨by decide +kernel, by decide +kernel, by decide, fun agrees => ?_⟩, by decide +kernel, by decide +kernel⟩
  exact absurd agrees.peerId (by decide)

end Presence

end Multiaddress

end Libp2p.Multi
