import Libp2p.Multi.Multiaddress
import Libp2p.Multi.PlainTexts

/-! # From text to bytes and back

A text that is parsed cannot always be printed again: the parser takes the name of a host and the path of a socket as
they are, and a peer id of nothing but spaces, and the printer does not. In the other direction bytes are accepted that
no text stands for: longer numbers than necessary, and values without any byte.
-/

namespace Libp2p.Multi

open Protocol Converters Library

namespace Converters

/-- What the printer demands of the word of a value that the parser has accepted. -/
def Writable (code : Code) (value : Bytes) : Prop :=
  code ≠ .unix ∧ (code ∈ [Code.dns, .dns4, .dns6, .dnsAddr] → value.all isDnsCharacter) ∧
    (code = .p2p → Base58.decodeBase58 value ≠ some [])

instance (code : Code) (value : Bytes) : Decidable (Writable code value) :=
  inferInstanceAs (Decidable (_ ∧ _ ∧ _))

end Converters

section Words

variable {ip : IpTexts} {cs : List Component} {ws : List Bytes} {code : Code} {value payload : Bytes}

theorem writable_iff (some_ : value ≠ []) (read : payloadOf ip code value = some payload) :
    printable code payload = true ∧ payload ≠ [] ↔ Writable code value := by
  have port (read : payloadOf ip .tcp value = some payload) : payload ≠ [] := by
    unfold payloadOf at read
    dsimp only at read
    split_ifs at read
    obtain rfl := Option.some.inj read
    exact List.cons_ne_nil _ _
  have sized (n : ℕ) (size : payload.length = n + 1) : payload ≠ [] := by
    rintro rfl
    cases size
  unfold Writable
  cases code with
  | ip4 => simp [printable, sized 3 (ip.length_v4 value payload read)]
  | ip6 => simp [printable, sized 15 (ip.length_v6 value payload read)]
  | tcp => simp [printable, port read]
  | udp => simp [printable, port read]
  | p2p =>
    have decoded : Base58.decodeBase58 value = some payload := read
    simp [printable, decoded]
  | dns | dns4 | dns6 | dnsAddr =>
    obtain rfl : value = payload := Option.some.inj read
    simp [printable, some_]
  | xParityWs | xParityWss =>
    obtain rfl : percentDecode value = payload := Option.some.inj read
    simp [printable, percentDecode_eq_nil, some_]
  | unix => simp [printable]
  | _ => cases read

/-- Of words that are parsed, the values decide which components can be written. -/
theorem readWords_writable (read : readWords ip ws = some cs) (some_ : ∀ entry ∈ addressed ws, entry.2 ≠ []) :
    (∀ component ∈ cs, printable component.protocol.code component.payload = true ∧ component.Full) ↔
      ∀ entry ∈ addressed ws, Writable entry.1.code entry.2 := by
  induction ws using addressed.induct generalizing cs with
  | case1 =>
    obtain rfl := Option.some.inj read
    simp [addressed]
  | case2 name =>
    obtain ⟨protocol, found, ended⟩ := Option.bind_eq_some_iff.mp read
    split_ifs at ended with bare
    obtain rfl := Option.some.inj ended
    have absent := (shape_eq_absent protocol (ProtocolList.mem_of_getByName found)).mpr bare
    simp [addressed, Component.Full, bare, printable_absent absent]
  | case3 name value rest missing =>
    rw [readWords, missing] at read
    cases read
  | case4 name value rest protocol found bare ih =>
    rw [readWords_bare found bare] at read
    rw [addressed_bare found bare] at some_ ⊢
    obtain ⟨more, later, rfl⟩ := Option.map_eq_some_iff.mp read
    have absent := (shape_eq_absent protocol (ProtocolList.mem_of_getByName found)).mpr bare
    rw [List.forall_mem_cons, ih later some_]
    exact and_iff_right ⟨printable_absent absent _, fun valued => absurd bare valued⟩
  | case5 name value rest protocol found valued ih =>
    rw [readWords_valued found valued] at read
    rw [addressed_valued found valued] at some_ ⊢
    obtain ⟨payload, taken, composed⟩ := Option.bind_eq_some_iff.mp read
    obtain ⟨more, later, rfl⟩ := Option.map_eq_some_iff.mp composed
    obtain ⟨here, others⟩ := List.forall_mem_cons.mp some_
    rw [List.forall_mem_cons, List.forall_mem_cons, ih later others, ← writable_iff here taken]
    simp [Component.Full, valued]

theorem readWords_valid (small : ∀ word ∈ ws, word.length < 2 ^ 64) (read : readWords ip ws = some cs) :
    ∀ component ∈ cs, component.Valid := by
  induction ws using addressed.induct generalizing cs with
  | case1 =>
    obtain rfl := Option.some.inj read
    exact fun _ member => absurd member List.not_mem_nil
  | case2 name =>
    obtain ⟨protocol, found, ended⟩ := Option.bind_eq_some_iff.mp read
    split_ifs at ended with bare
    obtain rfl := Option.some.inj ended
    have known := ProtocolList.mem_of_getByName found
    refine List.forall_mem_singleton.mpr ⟨known, ?_⟩
    rw [(shape_eq_absent protocol known).mpr bare]
    rfl
  | case3 name value rest missing =>
    rw [readWords, missing] at read
    cases read
  | case4 name value rest protocol found bare ih =>
    rw [readWords_bare found bare] at read
    obtain ⟨more, later, rfl⟩ := Option.map_eq_some_iff.mp read
    have known := ProtocolList.mem_of_getByName found
    refine List.forall_mem_cons.mpr ⟨⟨known, ?_⟩, ih (fun word member => small word (List.mem_cons_of_mem _ member)) later⟩
    rw [(shape_eq_absent protocol known).mpr bare]
    rfl
  | case5 name value rest protocol found valued ih =>
    rw [readWords_valued found valued] at read
    obtain ⟨payload, taken, composed⟩ := Option.bind_eq_some_iff.mp read
    obtain ⟨more, later, rfl⟩ := Option.map_eq_some_iff.mp composed
    refine List.forall_mem_cons.mpr ⟨⟨ProtocolList.mem_of_getByName found, ?_⟩, ?_⟩
    · exact (payloadOf_fits (small value (by simp)) taken).1
    · exact ih (fun word member => small word (by simp [member])) later

theorem readWords_ne_nil (some_ : ws ≠ []) (read : readWords ip ws = some cs) : cs ≠ [] := by
  rintro rfl
  obtain ⟨name, more, rfl⟩ := List.exists_cons_of_ne_nil some_
  rcases found : ProtocolList.getByName name with _ | protocol
  · cases more <;> rw [readWords, found] at read <;> cases read
  · by_cases bare : protocol.size = 0
    · rw [readWords_bare found bare] at read
      obtain ⟨_, -, impossible⟩ := Option.map_eq_some_iff.mp read
      cases impossible
    · rcases more with _ | ⟨value, more⟩
      · simp [readWords, found, bare] at read
      · rw [readWords_valued found bare] at read
        obtain ⟨_, -, composed⟩ := Option.bind_eq_some_iff.mp read
        obtain ⟨_, -, impossible⟩ := Option.map_eq_some_iff.mp composed
        cases impossible

end Words

section Texts

variable {ip : IpTexts} {s b : Bytes}

theorem length_of_mem_wordsOf {str word : Bytes} (member : word ∈ wordsOf str) : word.length ≤ str.length := by
  unfold wordsOf at member
  have within (text : Bytes) (member : word ∈ text.splitOn 0x2f) : word.length ≤ text.length := by
    have shorter := @length_le_joined _ 0x2f _ _ member
    rw [joined_splitOn, List.length_cons] at shorter
    omega
  split_ifs at member
  · have := within _ member
    rw [List.length_dropLast] at this
    omega
  · exact within _ member

/-- A text that is parsed is words with a slash in front, which stand for components. -/
theorem multiaddrToBytes_ok (small : s.length < 2 ^ 64) (parsed : multiaddrToBytes ip s = .ok b) :
    ∃ cs, readWords ip (wordsOf s.tail) = some cs ∧ (∀ entry ∈ addressed (wordsOf s.tail), entry.2 ≠ []) ∧
      cs ≠ [] ∧ (∀ component ∈ cs, component.Valid) ∧ b = cs.flatMap Component.encode := by
  rcases s with _ | ⟨first, rest⟩
  · cases parsed
  unfold multiaddrToBytes at parsed
  dsimp only at parsed
  split_ifs at parsed with slash empty
  obtain ⟨cs, read, full, rfl⟩ := wordsToBytes_eq_ok.mp parsed
  refine ⟨cs, read, full, readWords_ne_nil (List.splitOn_ne_nil _ _) read, readWords_valid ?_ read, rfl⟩
  intro word member
  have shorter := length_of_mem_wordsOf member
  rw [List.length_cons] at small
  change word.length ≤ rest.length at shorter
  omega

/-- A parsed text can be printed and parsed again exactly when the printer takes each of its values. -/
theorem rebuilt_iff (small : s.length < 2 ^ 64) (parsed : multiaddrToBytes ip s = .ok b) :
    (∃ t, bytesToMultiaddrString ip b = .ok t ∧ Multiaddress.createFromString ip s = some (.ok ⟨t, b⟩) ∧
      multiaddrToBytes ip t = .ok b) ↔
      ∀ entry ∈ addressed (wordsOf s.tail), Writable entry.1.code entry.2 := by
  obtain ⟨cs, read, some_, present, valid, rfl⟩ := multiaddrToBytes_ok small parsed
  rw [← readWords_writable read some_]
  constructor
  · rintro ⟨t, printed, -, again⟩
    obtain ⟨printable, rfl⟩ := (bytesToMultiaddrString_encode valid).mp printed
    obtain ⟨-, full, -⟩ := (multiaddrToBytes_text printable).mp again
    exact fun component member => ⟨(printable component member).shown, full component member⟩
  · intro good
    have printable : ∀ component ∈ cs, component.Printable :=
      fun component member => ⟨valid component member, (good component member).1⟩
    have printed := (@bytesToMultiaddrString_encode ip cs _ valid).mpr ⟨printable, rfl⟩
    refine ⟨_, printed, ?_, ?_⟩
    · unfold Multiaddress.createFromString
      rw [parsed]
      dsimp only
      rw [printed]
    · exact (multiaddrToBytes_text printable).mpr
        ⟨present, fun component member => (good component member).2, rfl⟩

theorem rebuilt_iff_listening : ∃ t, bytesToMultiaddrString plainTexts [4, 127, 0, 0, 1, 6, 0, 80] = .ok t ∧
    Multiaddress.createFromString plainTexts (ascii "/ip4/127.0.0.1/tcp/080/") =
      some (.ok ⟨t, [4, 127, 0, 0, 1, 6, 0, 80]⟩) ∧
    multiaddrToBytes plainTexts t = .ok [4, 127, 0, 0, 1, 6, 0, 80] :=
  (rebuilt_iff (by decide) (by decide)).mpr (by decide)

/-- A path stops the process, and so does an underscore in the name of a host; a peer id of one space is printed as a
text that is not parsed. -/
theorem parsed_not_rebuilt :
    (multiaddrToBytes plainTexts (ascii "/unix/a") = .ok [0x90, 3, 1, 0x61] ∧
      ¬ (∃ t, bytesToMultiaddrString plainTexts [0x90, 3, 1, 0x61] = .ok t) ∧
      Multiaddress.createFromString plainTexts (ascii "/unix/a") = none) ∧
    (multiaddrToBytes plainTexts (ascii "/dns/a_b") = .ok [53, 3, 0x61, 0x5f, 0x62] ∧
      ¬ ∃ t, bytesToMultiaddrString plainTexts [53, 3, 0x61, 0x5f, 0x62] = .ok t) ∧
    multiaddrToBytes plainTexts (ascii "/p2p/ ") = .ok [0xa5, 3, 0] ∧
      bytesToMultiaddrString plainTexts [0xa5, 3, 0] = .ok (ascii "/p2p/") ∧
      multiaddrToBytes plainTexts (ascii "/p2p/") = .error .emptyAddress := by
  have path : bytesToMultiaddrString plainTexts [0x90, 3, 1, 0x61] = .error .notImplemented := by decide
  have host : bytesToMultiaddrString plainTexts [53, 3, 0x61, 0x5f, 0x62] = .error .invalidAddress := by
    decide
  rw [path, host]
  refine ⟨⟨by decide, by simp, by decide⟩, ⟨by decide, by simp⟩, ?_⟩
  exact ⟨by decide, by decide, by decide⟩

end Texts

section Binary

/-- Bytes that are one component after another, with shortest numbers and without empty values. -/
def Canonical (bytes : Bytes) : Prop :=
  ∃ cs : List Component, cs ≠ [] ∧ (∀ component ∈ cs, component.Valid ∧ component.Full) ∧
    bytes = cs.flatMap Component.encode

variable {ip : IpTexts} {b : Bytes} {address other : Multiaddress}

theorem createFromBytes_ok (accepted : Multiaddress.createFromBytes ip b = .ok address) :
    bytesToMultiaddrString ip b = .ok address.stringifiedAddress ∧ address.bytes = b := by
  unfold Multiaddress.createFromBytes at accepted
  rcases printed : bytesToMultiaddrString ip b with error | t
  · rw [printed] at accepted
    cases accepted
  · rw [printed] at accepted
    obtain rfl := Except.ok.inj accepted
    exact ⟨rfl, rfl⟩

theorem createFromString_eq_ok {t : Bytes} : Multiaddress.createFromString ip t = some (.ok address) ↔
    multiaddrToBytes ip t = .ok address.bytes ∧
      bytesToMultiaddrString ip address.bytes = .ok address.stringifiedAddress := by
  unfold Multiaddress.createFromString
  rcases multiaddrToBytes ip t with error | bytes
  · simp
  · dsimp only
    constructor
    · intro created
      rcases printed : bytesToMultiaddrString ip bytes with error | str
      · rw [printed] at created
        cases created
      · rw [printed] at created
        obtain rfl := Except.ok.inj (Option.some.inj created)
        exact ⟨rfl, printed⟩
    · rintro ⟨same, printed⟩
      obtain rfl := Except.ok.inj same
      rw [printed]

/-- Canonical bytes are those of the components that are read of them. -/
theorem canonical_components {cs : List Component} (read : components b = .ok cs) :
    Canonical b ↔ cs ≠ [] ∧ (∀ component ∈ cs, component.Full) ∧ b = cs.flatMap Component.encode := by
  constructor
  · rintro ⟨others, some_, good, rfl⟩
    rw [components_encode fun component member => (good component member).1] at read
    obtain rfl := Except.ok.inj read
    exact ⟨some_, fun component member => (good component member).2, rfl⟩
  · rintro ⟨some_, full, same⟩
    exact ⟨cs, some_, fun component member => ⟨componentsLoop_valid read component member, full component member⟩, same⟩

/-- The text of accepted bytes makes the same address exactly when the bytes are canonical. -/
theorem createFromString_accepted (accepted : Multiaddress.createFromBytes ip b = .ok address) :
    Multiaddress.createFromString ip address.stringifiedAddress = some (.ok address) ↔ Canonical b := by
  obtain ⟨printed, rfl⟩ := createFromBytes_ok accepted
  obtain ⟨cs, read, printable, written⟩ := bytesToMultiaddrString_eq_ok.mp printed
  rw [createFromString_eq_ok, and_iff_left printed, written, multiaddrToBytes_text printable,
    canonical_components read]

/-- Accepted bytes come back from their text exactly when they are canonical, and the texts of canonical bytes tell the
addresses apart, as do the order and the hash. -/
theorem canonical_iff_returns (accepted : Multiaddress.createFromBytes ip b = .ok address) :
    (Multiaddress.createFromString ip address.stringifiedAddress = some (.ok address) ↔ Canonical b) ∧
    ∀ c other, Multiaddress.createFromBytes ip c = .ok other → Canonical b → Canonical c →
      (address.stringifiedAddress = other.stringifiedAddress → address = other) ∧
      (¬ address < other ∧ ¬ other < address ↔ address = other) ∧
      ∀ stringHash, Function.Injective stringHash → (address.hash stringHash = other.hash stringHash ↔ address = other) := by
  refine ⟨createFromString_accepted accepted, ?_⟩
  intro c other also canonical canonical_
  have equal : address.stringifiedAddress = other.stringifiedAddress → address = other := by
    intro same
    have first := (createFromString_accepted accepted).mpr canonical
    have second := (createFromString_accepted also).mpr canonical_
    rw [same, second] at first
    exact (Except.ok.inj (Option.some.inj first)).symm
  refine ⟨equal, ⟨?_, ?_⟩, fun stringHash injective => ⟨fun same => equal (injective same), ?_⟩⟩
  · rintro ⟨before, after⟩
    exact equal (Std.Trichotomous.trichotomous _ _ before after)
  · rintro rfl
    exact ⟨List.lt_irrefl _, List.lt_irrefl _⟩
  · rintro rfl
    rfl

theorem accepted_iff_listening : Multiaddress.createFromString plainTexts (ascii "/ip4/127.0.0.1/tcp/80") =
    some (.ok ⟨ascii "/ip4/127.0.0.1/tcp/80", [4, 127, 0, 0, 1, 6, 0, 80]⟩) := by
  have accepted : Multiaddress.createFromBytes plainTexts [4, 127, 0, 0, 1, 6, 0, 80] =
      .ok ⟨ascii "/ip4/127.0.0.1/tcp/80", [4, 127, 0, 0, 1, 6, 0, 80]⟩ := by decide +kernel
  refine (canonical_iff_returns accepted).1.mpr ⟨[⟨⟨.ip4, 32, ascii "ip4"⟩, [127, 0, 0, 1]⟩, ⟨⟨.tcp, 16, ascii "tcp"⟩, [0, 80]⟩],
    List.cons_ne_nil _ _, ?_, by decide⟩
  simp only [List.forall_mem_cons, List.not_mem_nil, false_imp_iff, implies_true, and_true]
  exact ⟨⟨⟨by decide, rfl⟩, fun _ => List.cons_ne_nil _ _⟩, ⟨by decide, rfl⟩, fun _ => List.cons_ne_nil _ _⟩

/-- A code in two bytes instead of one makes another address with the same text; the empty address and one with an empty
value have texts that are not parsed. -/
theorem accepted_not_canonical :
    (Multiaddress.createFromBytes plainTexts [0x84, 0, 127, 0, 0, 1] =
        .ok ⟨ascii "/ip4/127.0.0.1", [0x84, 0, 127, 0, 0, 1]⟩ ∧
      Multiaddress.createFromString plainTexts (ascii "/ip4/127.0.0.1") =
        some (.ok ⟨ascii "/ip4/127.0.0.1", [4, 127, 0, 0, 1]⟩) ∧
      (⟨ascii "/ip4/127.0.0.1", [0x84, 0, 127, 0, 0, 1]⟩ : Multiaddress) ≠ ⟨ascii "/ip4/127.0.0.1", [4, 127, 0, 0, 1]⟩) ∧
    (Multiaddress.createFromBytes plainTexts [] = .ok ⟨[], []⟩ ∧
      Multiaddress.createFromString plainTexts [] = some (.error .addressDoesNotBeginWithSlash)) ∧
    Multiaddress.createFromBytes plainTexts [53, 0] = .ok ⟨ascii "/dns/", [53, 0]⟩ ∧
      Multiaddress.createFromString plainTexts (ascii "/dns/") = some (.error .emptyAddress) := by
  decide

end Binary

section Percent

variable {ip : IpTexts} {s text : Bytes} {front back : List Component} {component : Component}

/-- A protocol whose value is written with percent signs. -/
def Websocket (protocol : Protocol) : Prop := protocol.code = .xParityWs ∨ protocol.code = .xParityWss

theorem valued_websocket (known : component.protocol ∈ ProtocolList.protocols) (websocket : Websocket component.protocol) :
    component.protocol.size ≠ 0 := by
  rw [Ne, ← shape_eq_absent _ known]
  rcases websocket with code | code
  · rw [code]
    decide
  · rw [code]
    decide

theorem words_websocket (known : component.protocol ∈ ProtocolList.protocols) (websocket : Websocket component.protocol) :
    component.words ip = [component.protocol.name, percentEncode component.payload] := by
  have value : component.value ip = percentEncode component.payload := by
    unfold Component.value
    rcases websocket with code | code
    · rw [code]
      rfl
    · rw [code]
      rfl
  rw [Component.words, if_neg (valued_websocket known websocket), value]

/-- The value of a websocket protocol is one word of the text, and from the text the components are parsed or nothing,
which is because of this value when it is empty. -/
def PassesText (ip : IpTexts) (s : Bytes) : Prop :=
  ∀ bytes text front component back, components bytes = .ok (front ++ component :: back) →
    bytesToMultiaddrString ip bytes = .ok text → Websocket component.protocol → component.payload = s →
      text.tail.splitOn 0x2f =
        front.flatMap (Component.words ip) ++ [component.protocol.name, percentEncode s] ++ back.flatMap (Component.words ip) ∧
      (∀ parsed, multiaddrToBytes ip text = .ok parsed → components parsed = .ok (front ++ component :: back)) ∧
      ((∃ parsed, multiaddrToBytes ip text = .ok parsed) ↔ s ≠ [] ∧ ∀ other ∈ front ++ back, other.Full)

theorem passesText (ip : IpTexts) (s : Bytes) : PassesText ip s := by
  rintro bytes text front component back read printed websocket rfl
  obtain ⟨cs, same, printable, written⟩ := bytesToMultiaddrString_eq_ok.mp printed
  obtain rfl := Except.ok.inj (read.symm.trans same)
  have here := printable component (by simp)
  have some_ : front ++ component :: back ≠ [] := by simp
  have full : component.Full ↔ component.payload ≠ [] :=
    ⟨fun full => full (valued_websocket here.known websocket), fun some_ _ => some_⟩
  refine ⟨?_, fun parsed ok => ?_, ?_⟩
  · rw [written, words_split printable some_, List.flatMap_append, List.flatMap_cons,
      words_websocket here.known websocket, List.append_assoc]
  · rw [written] at ok
    obtain ⟨-, -, rfl⟩ := (multiaddrToBytes_text printable).mp ok
    exact components_encode fun other member => (printable other member).toValid
  · have parsed : (∃ parsed, multiaddrToBytes ip text = .ok parsed) ↔
        ∀ other ∈ front ++ component :: back, other.Full := by
      simp only [written, multiaddrToBytes_text printable, some_, ne_eq, not_false_eq_true, true_and, exists_and_left,
        exists_eq, and_true]
    rw [parsed, List.forall_mem_append, List.forall_mem_cons, full, List.forall_mem_append]
    exact and_left_comm

/-- Percent coding loses nothing, writes visible characters other than slashes, and keeps the components apart. -/
theorem percent_lossless (ip : IpTexts) (s : Bytes) : percentDecode (percentEncode s) = s ∧
    (∀ c ∈ percentEncode s, c ≠ 0x2f ∧ 0x20 ≤ c ∧ c ≤ 0x7e) ∧ PassesText ip s := by
  refine ⟨percentDecode_percentEncode s, fun c member => ?_, passesText ip s⟩
  have visible := mem_percentEncode member
  simp only [isVisible, Bool.and_eq_true, decide_eq_true_eq] at visible
  exact ⟨visible.2, UInt8.le_trans (by decide) visible.1.1, visible.1.2⟩

/-- A sign, two hexadecimal digits and a slash, between two other components. -/
example : multiaddrToBytes plainTexts (ascii "/tcp/80/x-parity-ws/%252F%2F/http") =
    .ok ([6, 0, 80] ++ encodeVarint (Protocol.Code.number .xParityWs) ++ [4, 0x25, 0x32, 0x46, 0x2f] ++
      encodeVarint (Protocol.Code.number .http)) := by decide

end Percent

end Libp2p.Multi
