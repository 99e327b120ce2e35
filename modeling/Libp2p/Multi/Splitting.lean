import Libp2p.Multi.Capsules

/-! # Splitting off the first component

The first component of an address ends at the third slash of its text, or so it is assumed: a protocol without a value
ends at the second one. Both parts are parsed, and a part that is no address stops the process.
-/

namespace Libp2p.Multi

open Protocol Converters Library

namespace Multiaddress

section Splitting

variable (ip : IpTexts)

/-- `splitFirst`; absent when one of the parts is no address. -/
def splitFirst (self : Multiaddress) : Option (Multiaddress × Option Multiaddress) :=
  match findFrom self.stringifiedAddress [0x2f] 1 with
  | none => some (self, none)
  | some secondSlash =>
    match findFrom self.stringifiedAddress [0x2f] (secondSlash + 1) with
    | none => some (self, none)
    | some thirdSlash =>
      match createFromString ip (self.stringifiedAddress.take thirdSlash),
        createFromString ip (self.stringifiedAddress.drop thirdSlash) with
      | some (.ok first), some (.ok rest) => some (first, some rest)
      | _, _ => none

/-- The address of components. -/
def ofComponents (cs : List Component) : Multiaddress := ⟨cs.flatMap (Component.text ip), cs.flatMap Component.encode⟩

/-- The first component is split off: the address alone when it is the only one, else the addresses of it and of the
others, which make the address together. -/
def SplitsOff (self : Multiaddress) : Prop :=
  ∃ component rest, components self.bytes = .ok (component :: rest) ∧
    self.splitFirst ip =
      some (if rest = [] then (self, none) else (ofComponents ip [component], some (ofComponents ip rest))) ∧
    (ofComponents ip [component]).encapsulate (ofComponents ip rest) = self

/-- The address has one component, or the first one has a value and no value is empty. -/
def Splittable (self : Multiaddress) : Prop :=
  ∃ component rest, components self.bytes = .ok (component :: rest) ∧
    (rest = [] ∨ component.protocol.size ≠ 0 ∧ ∀ other ∈ component :: rest, other.Full)

end Splitting

section Halves

variable {ip : IpTexts} {self : Multiaddress} {cs : List Component} {component : Component}
  {word value next : Bytes} {more : List Bytes}

/-- Both parts are addresses. -/
theorem both_iff {first rest : Option (Result Multiaddress)} {address other : Multiaddress} :
    (match first, rest with
      | some (.ok first), some (.ok rest) => some (first, some rest)
      | _, _ => none) = some (address, some other) ↔ first = some (.ok address) ∧ rest = some (.ok other) := by
  rcases first with _ | _ | first <;> rcases rest with _ | _ | rest <;> simp

/-- Two words are not split. -/
theorem splitFirst_short (plain : 0x2f ∉ word) (plain_ : 0x2f ∉ value)
    (text : self.stringifiedAddress = joined 0x2f [word] ∨ self.stringifiedAddress = joined 0x2f [word, value]) :
    self.splitFirst ip = some (self, none) := by
  unfold splitFirst
  rcases text with text | text
  · have none := @findFrom_joined _ _ 0x2f word [] [] plain
    rw [List.nil_append, List.length_nil, Nat.zero_add, if_pos rfl] at none
    rw [text, none]
  · have second := @findFrom_joined _ _ 0x2f word [value] [] plain
    have none := @findFrom_joined _ _ 0x2f value [] (joined 0x2f [word]) plain_
    rw [List.nil_append, List.length_nil, Nat.zero_add, if_neg (List.cons_ne_nil _ _)] at second
    rw [← joined_append, if_pos rfl] at none
    rw [text, second]
    dsimp only
    rw [List.nil_append, show joined 0x2f [word, value] = joined 0x2f ([word] ++ [value]) from rfl, none]

/-- More words are split behind the second one. -/
theorem splitFirst_long (plain : 0x2f ∉ word) (plain_ : 0x2f ∉ value)
    (text : self.stringifiedAddress = joined 0x2f (word :: value :: next :: more)) :
    self.splitFirst ip =
      match createFromString ip (joined 0x2f [word, value]), createFromString ip (joined 0x2f (next :: more)) with
      | some (.ok first), some (.ok rest) => some (first, some rest)
      | _, _ => none := by
  have second := @findFrom_joined _ _ 0x2f word (value :: next :: more) [] plain
  have third := @findFrom_joined _ _ 0x2f value (next :: more) (joined 0x2f [word]) plain_
  have parts : joined 0x2f (word :: value :: next :: more) = joined 0x2f [word, value] ++ joined 0x2f (next :: more) := by
    rw [← joined_append]
    rfl
  rw [List.nil_append, List.nil_append, List.length_nil, Nat.zero_add, if_neg (List.cons_ne_nil _ _)] at second
  rw [← joined_append, ← joined_append, if_neg (List.cons_ne_nil _ _)] at third
  unfold splitFirst
  rw [text, second]
  dsimp only
  rw [show joined 0x2f (word :: value :: next :: more) = joined 0x2f ([word] ++ value :: next :: more) from rfl, third]
  dsimp only
  rw [show [word] ++ value :: next :: more = word :: value :: next :: more from rfl, parts,
    show [word] ++ [value] = [word, value] from rfl, List.take_left, List.drop_left]

/-- The text of components is an address exactly when there are some and no value is empty. -/
theorem createFromString_text {address : Multiaddress} (printable : ∀ component ∈ cs, component.Printable) :
    createFromString ip (cs.flatMap (Component.text ip)) = some (.ok address) ↔
      cs ≠ [] ∧ (∀ component ∈ cs, component.Full) ∧ address = ofComponents ip cs := by
  rw [createFromString_eq_ok, multiaddrToBytes_text printable]
  constructor
  · rintro ⟨⟨some_, full, bytes⟩, printed⟩
    rw [bytes, bytesToMultiaddrString_encode fun component member => (printable component member).toValid] at printed
    obtain ⟨-, text⟩ := printed
    obtain ⟨stringified, _⟩ := address
    exact ⟨some_, full, congrArg₂ Multiaddress.mk text bytes⟩
  · rintro ⟨some_, full, rfl⟩
    refine ⟨⟨some_, full, rfl⟩, ?_⟩
    exact (bytesToMultiaddrString_encode fun component member => (printable component member).toValid).mpr ⟨printable, rfl⟩

theorem eq_of_bare (printable : component.Printable) (bare : component.protocol.size = 0) :
    (⟨component.protocol, []⟩ : Component) = component := by
  have fits := printable.fits
  rw [(shape_eq_absent _ printable.known).mpr bare] at fits
  obtain ⟨protocol, payload⟩ := component
  exact congrArg (Component.mk protocol) (fits : payload = []).symm

/-- The names of two protocols, of which the first has no value, are no address of the first one. -/
theorem createFromString_names {other : Component} (printable : component.Printable) (printable_ : other.Printable)
    (bare : component.protocol.size = 0) :
    createFromString ip (joined 0x2f [component.protocol.name, other.protocol.name]) ≠
      some (.ok (ofComponents ip [component])) := by
  intro created
  have plain : ∀ word ∈ [component.protocol.name, other.protocol.name], 0x2f ∉ word := by
    simp only [List.forall_mem_cons, List.not_mem_nil, false_imp_iff, implies_true, and_true]
    exact ⟨(ProtocolList.name_plain _ printable.known).2, (ProtocolList.name_plain _ printable_.known).2⟩
  have named := (ProtocolList.name_plain _ printable.known).1
  have ended : [component.protocol.name, other.protocol.name].getLast? ≠ some [] := fun empty =>
    (ProtocolList.name_plain _ printable_.known).1 (Option.some.inj empty)
  have parsed := (createFromString_eq_ok.mp created).1
  rw [multiaddrToBytes_joined named, wordsOf_joined plain named, if_neg ended, wordsToBytes_eq_ok] at parsed
  obtain ⟨cs, read, -, encoded⟩ := parsed
  rw [readWords_bare (ProtocolList.getByName_name _ printable.known) bare] at read
  obtain ⟨others, after, rfl⟩ := Option.map_eq_some_iff.mp read
  simp only [readWords, ProtocolList.getByName_name _ printable_.known, Option.bind_eq_bind, Option.bind_some] at after
  split_ifs at after with bare_
  obtain rfl := Option.some.inj after
  rw [eq_of_bare printable bare, eq_of_bare printable_ bare_, List.nil_append] at encoded
  have none : other.encode = [] := by simpa [ofComponents] using encoded
  exact encode_ne_nil printable_.toValid none

/-- A first component is split off exactly when it is the only one, or it has a value and no value is empty. -/
theorem splitsOff_iff (composed : Composed ip self (component :: cs)) : SplitsOff ip self ↔
    cs = [] ∨ component.protocol.size ≠ 0 ∧ ∀ other ∈ component :: cs, other.Full := by
  have read := composed.components
  obtain ⟨printable, others⟩ := List.forall_mem_cons.mp composed.printable
  have whole : (ofComponents ip [component]).encapsulate (ofComponents ip cs) = self := by
    obtain ⟨text, bytes⟩ := self
    obtain ⟨-, rfl, rfl⟩ := composed
    simp [ofComponents, Multiaddress.encapsulate]
  have splits : SplitsOff ip self ↔ self.splitFirst ip =
      some (if cs = [] then (self, none) else (ofComponents ip [component], some (ofComponents ip cs))) := by
    constructor
    · rintro ⟨first, rest, read', split, -⟩
      obtain ⟨rfl, rfl⟩ := List.cons.inj (Except.ok.inj (read.symm.trans read'))
      exact split
    · exact fun split => ⟨component, cs, read, split, whole⟩
  rw [splits]
  have named := (ProtocolList.name_plain _ printable.known).2
  have text : self.stringifiedAddress =
      joined 0x2f (component.words ip ++ cs.flatMap (Component.words ip)) := by
    rw [composed.text, List.flatMap_cons, flatMap_text, Component.text, joined_append]
  cases cs with
  | nil =>
    refine iff_of_true ?_ (.inl rfl)
    rw [if_pos rfl]
    rw [List.flatMap_nil, List.append_nil] at text
    by_cases bare : component.protocol.size = 0
    · rw [Component.words, if_pos bare] at text
      exact splitFirst_short named (List.not_mem_nil (a := 0x2f)) (.inl text)
    · rw [Component.words, if_neg bare] at text
      exact splitFirst_short named (@words_plain ip component printable _ (by simp [Component.words, bare])) (.inr text)
  | cons second rest =>
    rw [if_neg (List.cons_ne_nil _ _)]
    obtain ⟨printable_, -⟩ := List.forall_mem_cons.mp others
    have named_ := (ProtocolList.name_plain _ printable_.known).2
    obtain ⟨more, following⟩ : ∃ more, (second :: rest).flatMap (Component.words ip) = second.protocol.name :: more :=
      ⟨_, rfl⟩
    have remaining : joined 0x2f (second.protocol.name :: more) = (second :: rest).flatMap (Component.text ip) := by
      rw [flatMap_text, following]
    rw [following] at text
    by_cases bare : component.protocol.size = 0
    · refine iff_of_false (fun split => ?_) ?_
      · rw [Component.words, if_pos bare, List.singleton_append] at text
        cases more with
        | nil =>
          rw [splitFirst_short named named_ (.inr text)] at split
          cases split
        | cons next more =>
          rw [splitFirst_long named named_ text, both_iff] at split
          exact createFromString_names printable printable_ bare split.1
      · rintro (empty | ⟨valued, -⟩)
        · cases empty
        · exact valued bare
    · have plain := @words_plain ip component printable (component.value ip) (by simp [Component.words, bare])
      have whole : joined 0x2f [component.protocol.name, component.value ip] =
          [component].flatMap (Component.text ip) := by
        rw [List.flatMap_singleton, Component.text, Component.words, if_neg bare]
      rw [Component.words, if_neg bare, List.cons_append, List.singleton_append] at text
      rw [splitFirst_long named plain text, both_iff, whole, remaining,
        createFromString_text (List.forall_mem_singleton.mpr printable), createFromString_text others]
      simp [bare]

/-- The first component of an address that was made of a text is split off exactly when the address is splittable. -/
theorem splitsOff_iff_splittable (built : Built ip self) : SplitsOff ip self ↔ Splittable self := by
  obtain ⟨cs, some_, composed⟩ := composed_of_built built
  obtain ⟨component, rest, rfl⟩ := List.exists_cons_of_ne_nil some_
  rw [splitsOff_iff composed]
  constructor
  · exact fun condition => ⟨component, rest, composed.components, condition⟩
  · rintro ⟨first, others, read, condition⟩
    obtain ⟨rfl, rfl⟩ := List.cons.inj (Except.ok.inj (composed.components.symm.trans read))
    exact condition

theorem splitsOff_iff_splittable_listening : SplitsOff plainTexts (host.encapsulate port) := by
  have built : Built plainTexts (host.encapsulate port) :=
    ⟨ascii "/ip4/127.0.0.1/tcp/80", by decide, by decide +kernel⟩
  refine (splitsOff_iff_splittable built).mpr ⟨⟨⟨.ip4, 32, ascii "ip4"⟩, [127, 0, 0, 1]⟩,
    [⟨⟨.tcp, 16, ascii "tcp"⟩, [0, 80]⟩], by decide +kernel, .inr ⟨by decide, ?_⟩⟩
  simp [Component.Full]

/-- A circuit to a host stops the process, two protocols without values are not split, and of more than two the first two
stay together. -/
theorem circuit_not_split :
    (createFromString plainTexts (ascii "/p2p-circuit/tcp/80") =
        some (.ok ⟨ascii "/p2p-circuit/tcp/80", [0xa2, 2, 6, 0, 80]⟩) ∧
      (⟨ascii "/p2p-circuit/tcp/80", [0xa2, 2, 6, 0, 80]⟩ : Multiaddress).splitFirst plainTexts = none) ∧
    (createFromString plainTexts (ascii "/quic/http") = some (.ok ⟨ascii "/quic/http", [0xcc, 3, 0xe0, 3]⟩) ∧
      (⟨ascii "/quic/http", [0xcc, 3, 0xe0, 3]⟩ : Multiaddress).splitFirst plainTexts =
        some (⟨ascii "/quic/http", [0xcc, 3, 0xe0, 3]⟩, none)) ∧
    (⟨ascii "/quic/http/tcp/80", [0xcc, 3, 0xe0, 3, 6, 0, 80]⟩ : Multiaddress).splitFirst plainTexts =
      some (⟨ascii "/quic/http", [0xcc, 3, 0xe0, 3]⟩, some port) := by
  decide +kernel

end Halves

end Multiaddress

end Libp2p.Multi
