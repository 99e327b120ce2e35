import Libp2p.Library.Words
import Libp2p.Multi.Values

/-! # Components of a multiaddress

An address is a sequence of components, a protocol with the payload of its value. The reader of bytes and the reader of
text both go through components, and the writers put them one after the other, so that the two forms of an address are
compared component by component.
-/

namespace Libp2p.Multi

open Protocol Converters Library

structure Component where
  protocol : Protocol
  payload : Bytes
deriving DecidableEq

namespace Component

section Forms

variable (ip : IpTexts)

def encode (component : Component) : Bytes :=
  encodeVarint component.protocol.code.number ++ frame (shape component.protocol.code) component.payload

/-- The text of the value, empty for a protocol without one. -/
def value (component : Component) : Bytes := valueText ip component.protocol.code component.payload

def words (component : Component) : List Bytes :=
  component.protocol.name :: if component.protocol.size = 0 then [] else [component.value ip]

def text (component : Component) : Bytes := joined 0x2f (component.words ip)

end Forms

/-- A component that bytes can hold. -/
structure Valid (component : Component) : Prop where
  known : component.protocol ∈ ProtocolList.protocols
  fits : Fits (shape component.protocol.code) component.payload

/-- A component that text can hold. -/
structure Printable (component : Component) : Prop extends component.Valid where
  shown : printable component.protocol.code component.payload = true

/-- A component whose value, if it has one, is not empty. -/
def Full (component : Component) : Prop := component.protocol.size ≠ 0 → component.payload ≠ []

end Component

section Readers

/-- The first component of some bytes, and the bytes after it. -/
def readComponent (bytes : Bytes) : Result (Component × Bytes) := do
  let (number, bytes) ← uvar bytes
  match ProtocolList.getByCode number with
  | none => .error .noSuchProtocol
  | some protocol =>
    let (payload, bytes) ← readPayload (shape protocol.code) bytes
    return (⟨protocol, payload⟩, bytes)

def componentsLoop : ℕ → Bytes → Result (List Component)
  | _, [] => .ok []
  | 0, _ :: _ => .ok []
  | room + 1, bytes => do
    let (component, bytes) ← readComponent bytes
    let components ← componentsLoop room bytes
    return component :: components

/-- The components of an address, as its bytes have them. -/
def components (bytes : Bytes) : Result (List Component) := componentsLoop bytes.length bytes

/-- The components that words stand for. -/
def readWords (ip : IpTexts) : List Bytes → Option (List Component)
  | [] => some []
  | [name] => do
    let protocol ← ProtocolList.getByName name
    if protocol.size = 0 then some [⟨protocol, []⟩] else none
  | name :: value :: rest => do
    let protocol ← ProtocolList.getByName name
    if protocol.size = 0 then do
      let components ← readWords ip (value :: rest)
      some (⟨protocol, []⟩ :: components)
    else do
      let payload ← payloadOf ip protocol.code value
      let components ← readWords ip rest
      some (⟨protocol, payload⟩ :: components)

/-- The words that are values, each with its protocol. -/
def addressed : List Bytes → List (Protocol × Bytes)
  | [] => []
  | [_] => []
  | name :: value :: rest =>
    match ProtocolList.getByName name with
    | none => []
    | some protocol =>
      if protocol.size = 0 then addressed (value :: rest) else (protocol, value) :: addressed rest

end Readers

section Bytes

variable {component : Component} {cs : List Component} {bytes rest : Bytes}

theorem readComponent_encode (valid : component.Valid) (rest : Bytes) :
    readComponent (component.encode ++ rest) = .ok (component, rest) := by
  unfold readComponent Component.encode
  rw [List.append_assoc, uvar_encodeVarint (ProtocolList.number_lt _ valid.known)]
  dsimp only [bind, Except.bind]
  rw [ProtocolList.getByCode_number _ valid.known]
  dsimp only
  rw [readPayload_frame valid.fits]
  rfl

theorem readComponent_ok (taken : readComponent bytes = .ok (component, rest)) :
    component.Valid ∧ rest.length < bytes.length := by
  obtain ⟨⟨number, remaining⟩, first, later⟩ := bind_eq_ok.mp taken
  obtain ⟨-, shorter⟩ := uvar_lt first
  dsimp only at later
  rcases found : ProtocolList.getByCode number with _ | protocol
  · rw [found] at later
    cases later
  · rw [found] at later
    obtain ⟨⟨payload, left⟩, second, ended⟩ := bind_eq_ok.mp later
    obtain ⟨rfl, rfl⟩ := Prod.mk.inj (Except.ok.inj ended)
    obtain ⟨fits, less⟩ := readPayload_ok second
    exact ⟨⟨(ProtocolList.mem_of_getByCode found).1, fits⟩, less.trans_lt shorter⟩

theorem encode_ne_nil (valid : component.Valid) : component.encode ≠ [] := by
  intro empty
  have read := readComponent_encode valid []
  rw [empty] at read
  have := (readComponent_ok read).2
  simp at this

theorem componentsLoop_succ {room : ℕ} (some_ : bytes ≠ []) :
    componentsLoop (room + 1) bytes = (do
      let (component, bytes) ← readComponent bytes
      let components ← componentsLoop room bytes
      return component :: components) := by
  rcases bytes with _ | ⟨byte, bytes⟩
  · exact absurd rfl some_
  · rfl

/-- Encoded components are read back. -/
theorem componentsLoop_encode {room : ℕ} (valid : ∀ component ∈ cs, component.Valid)
    (enough : (cs.flatMap Component.encode).length ≤ room) :
    componentsLoop room (cs.flatMap Component.encode) = .ok cs := by
  induction cs generalizing room with
  | nil => cases room <;> rfl
  | cons component rest ih =>
    have this := valid component List.mem_cons_self
    rw [List.flatMap_cons, List.length_append] at enough
    have positive := List.length_pos_iff.mpr (encode_ne_nil this)
    obtain ⟨room, rfl⟩ : ∃ fewer, room = fewer + 1 := ⟨room - 1, by omega⟩
    rw [List.flatMap_cons, componentsLoop_succ (by simp [encode_ne_nil this]), readComponent_encode this]
    dsimp only [bind, Except.bind]
    rw [ih (fun other member => valid other (List.mem_cons_of_mem _ member)) (by omega)]
    rfl

theorem components_encode (valid : ∀ component ∈ cs, component.Valid) :
    components (cs.flatMap Component.encode) = .ok cs := componentsLoop_encode valid le_rfl

/-- What is read of some bytes is valid. -/
theorem componentsLoop_valid {room : ℕ} (read : componentsLoop room bytes = .ok cs) :
    ∀ component ∈ cs, component.Valid := by
  induction room generalizing bytes cs with
  | zero =>
    cases bytes <;>
    · obtain rfl := Except.ok.inj read
      exact fun _ member => absurd member List.not_mem_nil
  | succ room ih =>
    rcases eq_or_ne bytes [] with rfl | some_
    · obtain rfl := Except.ok.inj read
      exact fun _ member => absurd member List.not_mem_nil
    · rw [componentsLoop_succ some_] at read
      obtain ⟨⟨component, remaining⟩, first, later⟩ := bind_eq_ok.mp read
      obtain ⟨more, second, ended⟩ := bind_eq_ok.mp later
      obtain rfl := Except.ok.inj ended
      intro other member
      rcases List.mem_cons.mp member with rfl | member
      · exact (readComponent_ok first).1
      · exact ih second other member

/-- Components in front of others are recognised in the bytes. -/
theorem prefix_of_encode {front : List Component} {rest : Bytes} (valid : ∀ component ∈ front, component.Valid)
    (others : ∀ component ∈ cs, component.Valid)
    (same : front.flatMap Component.encode ++ rest = cs.flatMap Component.encode) :
    ∃ back, cs = front ++ back ∧ rest = back.flatMap Component.encode := by
  induction front generalizing cs with
  | nil => exact ⟨cs, rfl, same⟩
  | cons component front ih =>
    have this := valid component List.mem_cons_self
    rw [List.flatMap_cons, List.append_assoc] at same
    rcases cs with _ | ⟨head, tail⟩
    · exact absurd (List.append_eq_nil_iff.mp same).1 (encode_ne_nil this)
    · rw [List.flatMap_cons] at same
      have first := readComponent_encode this (front.flatMap Component.encode ++ rest)
      rw [same, readComponent_encode (others head List.mem_cons_self)] at first
      obtain ⟨rfl, left⟩ := Prod.mk.inj (Except.ok.inj first)
      obtain ⟨back, rfl, rest_⟩ := ih (fun other member => valid other (List.mem_cons_of_mem _ member))
        (fun other member => others other (List.mem_cons_of_mem _ member)) left.symm
      exact ⟨back, rfl, rest_⟩

end Bytes

section Printing

variable {ip : IpTexts} {cs : List Component} {bytes results text : Bytes} {room : ℕ}

theorem bytesToStringLoop_succ (some_ : bytes ≠ []) :
    bytesToStringLoop ip (room + 1) bytes results = (do
      let (protocolNum, bytes) ← uvar bytes
      match ProtocolList.getByCode protocolNum with
      | none => .error .noSuchProtocol
      | some protocol =>
        let results := results ++ 0x2f :: protocol.name
        if protocol.size = 0 then bytesToStringLoop ip room bytes results
        else
          let (value, bytes) ← valueToString ip protocol.code bytes
          bytesToStringLoop ip room bytes (results ++ 0x2f :: value)) := by
  rcases bytes with _ | ⟨byte, bytes⟩
  · exact absurd rfl some_
  · rfl

/-- A payload that is absent can be written. -/
theorem printable_absent {code : Code} (absent : shape code = .absent) (payload : Bytes) :
    printable code payload = true := by
  cases code <;> first | rfl | cases absent

/-- One turn of the printer: a component is read and its text is added. -/
theorem bytesToStringLoop_turn (some_ : bytes ≠ []) :
    bytesToStringLoop ip (room + 1) bytes results = .ok text ↔
      ∃ component rest, readComponent bytes = .ok (component, rest) ∧
        printable component.protocol.code component.payload = true ∧
        bytesToStringLoop ip room rest (results ++ component.text ip) = .ok text := by
  rw [bytesToStringLoop_succ some_, bind_eq_ok]
  unfold readComponent
  constructor
  · rintro ⟨⟨number, remaining⟩, first, later⟩
    dsimp only at later
    rcases found : ProtocolList.getByCode number with _ | protocol
    · rw [found] at later
      cases later
    rw [found] at later
    have absence := shape_eq_absent protocol (ProtocolList.mem_of_getByCode found).1
    dsimp only at later
    split_ifs at later with bare
    · refine ⟨⟨protocol, []⟩, remaining, ?_, printable_absent (absence.mpr bare) _, ?_⟩
      · rw [first]
        dsimp only [bind, Except.bind]
        rw [found]
        dsimp only
        rw [absence.mpr bare]
        rfl
      · have written : Component.text ip ⟨protocol, []⟩ = 0x2f :: protocol.name := by
          simp [Component.text, Component.words, bare]
        rwa [written]
    · obtain ⟨⟨value, left⟩, second, ended⟩ := bind_eq_ok.mp later
      obtain ⟨payload, read, shown, rfl⟩ := (valueToString_eq_ok ip (mt absence.mp bare)).mp second
      refine ⟨⟨protocol, payload⟩, left, ?_, shown, ?_⟩
      · rw [first]
        dsimp only [bind, Except.bind]
        rw [found]
        dsimp only
        rw [read]
        rfl
      · have written : Component.text ip ⟨protocol, payload⟩ =
            0x2f :: protocol.name ++ 0x2f :: valueText ip protocol.code payload := by
          simp [Component.text, Component.words, Component.value, bare]
        rw [written, ← List.append_assoc]
        exact ended
  · rintro ⟨component, rest, taken, shown, ended⟩
    obtain ⟨⟨number, remaining⟩, first, later⟩ := bind_eq_ok.mp taken
    refine ⟨(number, remaining), first, ?_⟩
    dsimp only at later ⊢
    rcases found : ProtocolList.getByCode number with _ | protocol
    · rw [found] at later
      cases later
    rw [found] at later
    obtain ⟨⟨payload, left⟩, second, last⟩ := bind_eq_ok.mp later
    obtain ⟨rfl, rfl⟩ := Prod.mk.inj (Except.ok.inj last)
    have absence := shape_eq_absent protocol (ProtocolList.mem_of_getByCode found).1
    dsimp only
    split_ifs with bare
    · rw [absence.mpr bare] at second
      obtain ⟨rfl, rfl⟩ := Prod.mk.inj (Except.ok.inj second)
      simpa [Component.text, Component.words, bare] using ended
    · refine bind_eq_ok.mpr ⟨(valueText ip protocol.code payload, left), ?_, ?_⟩
      · exact (valueToString_eq_ok ip (mt absence.mp bare)).mpr ⟨payload, second, shown, rfl⟩
      · simpa [Component.text, Component.words, Component.value, bare] using ended

/-- The printer succeeds exactly when every component that is read can be written. -/
theorem bytesToStringLoop_eq_ok (enough : bytes.length ≤ room) :
    bytesToStringLoop ip room bytes results = .ok text ↔
      ∃ cs, componentsLoop room bytes = .ok cs ∧ (∀ component ∈ cs, component.Printable) ∧
        text = results ++ cs.flatMap (Component.text ip) := by
  induction room generalizing bytes results with
  | zero =>
    obtain rfl := List.length_eq_zero_iff.mp (Nat.le_zero.mp enough)
    simp [bytesToStringLoop, componentsLoop, eq_comm]
  | succ room ih =>
    rcases eq_or_ne bytes [] with rfl | some_
    · simp [bytesToStringLoop, componentsLoop, eq_comm]
    · rw [bytesToStringLoop_turn some_, componentsLoop_succ some_]
      constructor
      · rintro ⟨component, rest, first, shown, later⟩
        obtain ⟨valid, shorter⟩ := readComponent_ok first
        obtain ⟨cs, read, printable, rfl⟩ := (ih (by omega)).mp later
        refine ⟨component :: cs, ?_, ?_, ?_⟩
        · exact bind_eq_ok.mpr ⟨_, first, bind_eq_ok.mpr ⟨_, read, rfl⟩⟩
        · exact List.forall_mem_cons.mpr ⟨⟨valid, shown⟩, printable⟩
        · rw [List.flatMap_cons, List.append_assoc]
      · rintro ⟨cs, read, printable, rfl⟩
        obtain ⟨⟨component, rest⟩, first, later⟩ := bind_eq_ok.mp read
        obtain ⟨more, second, ended⟩ := bind_eq_ok.mp later
        obtain rfl := Except.ok.inj ended
        obtain ⟨this, others⟩ := List.forall_mem_cons.mp printable
        have shorter := (readComponent_ok first).2
        refine ⟨component, rest, first, this.shown, (ih (by omega)).mpr ⟨more, second, others, ?_⟩⟩
        rw [List.flatMap_cons, List.append_assoc]

theorem bytesToMultiaddrString_eq_ok : bytesToMultiaddrString ip bytes = .ok text ↔
    ∃ cs, components bytes = .ok cs ∧ (∀ component ∈ cs, component.Printable) ∧
      text = cs.flatMap (Component.text ip) := bytesToStringLoop_eq_ok le_rfl

/-- Encoded components are printed exactly when each of them can be. -/
theorem bytesToMultiaddrString_encode (valid : ∀ component ∈ cs, component.Valid) :
    bytesToMultiaddrString ip (cs.flatMap Component.encode) = .ok text ↔
      (∀ component ∈ cs, component.Printable) ∧ text = cs.flatMap (Component.text ip) := by
  rw [bytesToMultiaddrString_eq_ok, components_encode valid]
  constructor
  · rintro ⟨_, same, printable, written⟩
    obtain rfl := Except.ok.inj same
    exact ⟨printable, written⟩
  · rintro ⟨printable, written⟩
    exact ⟨cs, rfl, printable, written⟩

end Printing

section Parsing

variable {ip : IpTexts} {component : Component} {cs : List Component} {ws : List Bytes} {bytes processed : Bytes}

theorem encode_bare {protocol : Protocol} (known : protocol ∈ ProtocolList.protocols) (bare : protocol.size = 0) :
    Component.encode ⟨protocol, []⟩ = encodeVarint protocol.code.number := by
  unfold Component.encode
  rw [(shape_eq_absent protocol known).mpr bare]
  exact List.append_nil _

theorem ne_nil_of_getByName {name : Bytes} {protocol : Protocol} (found : ProtocolList.getByName name = some protocol) :
    name ≠ [] := by
  rintro rfl
  revert found
  have missing : ProtocolList.getByName [] = none := by decide
  rw [missing]
  simp

/-- The parser of text succeeds exactly when its words stand for components and no value is empty. -/
theorem wordsToBytes_eq_ok : wordsToBytes ip ws none processed = .ok bytes ↔
    ∃ cs, readWords ip ws = some cs ∧ (∀ entry ∈ addressed ws, entry.2 ≠ []) ∧
      bytes = processed ++ cs.flatMap Component.encode := by
  induction ws using addressed.induct generalizing processed with
  | case1 => simp [wordsToBytes, readWords, addressed, eq_comm]
  | case2 name =>
    unfold wordsToBytes readWords
    rcases found : ProtocolList.getByName name with _ | protocol
    · split_ifs <;> simp
    · rw [if_neg (ne_nil_of_getByName found)]
      by_cases bare : protocol.size = 0
      · have encoded := encode_bare (ProtocolList.mem_of_getByName found) bare
        simp [wordsToBytes, bare, addressed, encoded, eq_comm]
      · simp [wordsToBytes, bare]
  | case3 name value rest missing =>
    unfold wordsToBytes readWords
    rw [missing]
    split_ifs <;> simp
  | case4 name value rest protocol found bare ih =>
    have encoded := encode_bare (ProtocolList.mem_of_getByName found) bare
    unfold wordsToBytes readWords addressed
    rw [if_neg (ne_nil_of_getByName found), found]
    dsimp only
    rw [if_neg (not_not_intro bare), if_pos bare, ih]
    constructor
    · rintro ⟨cs, read, full, rfl⟩
      refine ⟨⟨protocol, []⟩ :: cs, by simp [bare, read], full, ?_⟩
      rw [List.flatMap_cons, encoded, List.append_assoc]
    · rintro ⟨_, read, full, rfl⟩
      simp only [Option.bind_eq_bind, Option.bind_some, if_pos bare] at read
      obtain ⟨cs, later, same⟩ := Option.bind_eq_some_iff.mp read
      obtain rfl := Option.some.inj same
      refine ⟨cs, later, full, ?_⟩
      rw [List.flatMap_cons, encoded, List.append_assoc]
  | case5 name value rest protocol found valued ih =>
    unfold wordsToBytes readWords addressed
    rw [if_neg (ne_nil_of_getByName found), found]
    dsimp only
    rw [if_pos valued, if_neg valued]
    unfold wordsToBytes
    simp only [Option.bind_eq_bind, Option.bind_some, if_neg valued]
    rcases eq_or_ne value [] with rfl | some_
    · rw [if_pos rfl]
      simp
    · rw [if_neg some_]
      have converted (bytes : Bytes) := @addressToBytes_eq_ok ip protocol value bytes some_
      rcases address : addressToBytes ip protocol value with error | framed
      · have missing : payloadOf ip protocol.code value = none := by
          rw [Option.eq_none_iff_forall_ne_some]
          intro payload read
          have := (converted _).mpr ⟨payload, read, rfl⟩
          rw [address] at this
          cases this
        rw [missing]
        simp
      · obtain ⟨payload, read, rfl⟩ := (converted framed).mp address
        dsimp only
        rw [read, ih, Option.bind_some]
        constructor
        · rintro ⟨cs, later, full, rfl⟩
          refine ⟨⟨protocol, payload⟩ :: cs, by simp [later], List.forall_mem_cons.mpr ⟨some_, full⟩, ?_⟩
          simp [Component.encode]
        · rintro ⟨_, composed, full, rfl⟩
          obtain ⟨cs, later, same⟩ := Option.bind_eq_some_iff.mp composed
          obtain rfl := Option.some.inj same
          refine ⟨cs, later, (List.forall_mem_cons.mp full).2, ?_⟩
          simp [Component.encode]

theorem readWords_bare {name : Bytes} {protocol : Protocol} (found : ProtocolList.getByName name = some protocol)
    (bare : protocol.size = 0) : readWords ip (name :: ws) = (readWords ip ws).map (⟨protocol, []⟩ :: ·) := by
  rcases ws with _ | ⟨value, rest⟩
  · simp [readWords, found, bare]
  · rw [readWords, found]
    simp only [Option.bind_eq_bind, Option.bind_some, if_pos bare]
    cases readWords ip (value :: rest) <;> rfl

theorem readWords_valued {name value : Bytes} {protocol : Protocol}
    (found : ProtocolList.getByName name = some protocol) (valued : protocol.size ≠ 0) :
    readWords ip (name :: value :: ws) =
      (payloadOf ip protocol.code value).bind fun payload => (readWords ip ws).map (⟨protocol, payload⟩ :: ·) := by
  rw [readWords, found]
  simp only [Option.bind_eq_bind, Option.bind_some, if_neg valued]
  rcases payloadOf ip protocol.code value with _ | payload
  · rfl
  · cases readWords ip ws <;> rfl

theorem addressed_bare {name : Bytes} {protocol : Protocol} (found : ProtocolList.getByName name = some protocol)
    (bare : protocol.size = 0) : addressed (name :: ws) = addressed ws := by
  rcases ws with _ | ⟨value, rest⟩
  · rfl
  · rw [addressed, found]
    dsimp only
    rw [if_pos bare]

theorem addressed_valued {name value : Bytes} {protocol : Protocol}
    (found : ProtocolList.getByName name = some protocol) (valued : protocol.size ≠ 0) :
    addressed (name :: value :: ws) = (protocol, value) :: addressed ws := by
  rw [addressed, found]
  dsimp only
  rw [if_neg valued]

/-- The words of a component are read back. -/
theorem readWords_words (printable : component.Printable) :
    readWords ip (component.words ip ++ ws) = (readWords ip ws).map (component :: ·) := by
  obtain ⟨protocol, payload⟩ := component
  have found := ProtocolList.getByName_name protocol printable.known
  have absence := shape_eq_absent protocol printable.known
  unfold Component.words
  dsimp only
  by_cases bare : protocol.size = 0
  · have empty : Fits (shape protocol.code) payload := printable.fits
    rw [absence.mpr bare] at empty
    obtain rfl : payload = [] := empty
    rw [if_pos bare, List.singleton_append, readWords_bare found bare]
  · rw [if_neg bare, List.cons_append, List.singleton_append, readWords_valued found bare]
    unfold Component.value
    rw [payloadOf_valueText printable.fits printable.shown (mt absence.mp bare), Option.bind_some]

theorem readWords_flatMap (printable : ∀ component ∈ cs, component.Printable) :
    readWords ip (cs.flatMap (Component.words ip) ++ ws) = (readWords ip ws).map (cs ++ ·) := by
  induction cs with
  | nil => simp
  | cons component rest ih =>
    obtain ⟨this, others⟩ := List.forall_mem_cons.mp printable
    rw [List.flatMap_cons, List.append_assoc, readWords_words this, ih others, Option.map_map]
    rfl

theorem addressed_words (printable : component.Printable) : addressed (component.words ip ++ ws) =
    (if component.protocol.size = 0 then [] else [(component.protocol, component.value ip)]) ++ addressed ws := by
  have found := ProtocolList.getByName_name _ printable.known
  unfold Component.words
  by_cases bare : component.protocol.size = 0
  · rw [if_pos bare, if_pos bare, List.singleton_append, addressed_bare found bare, List.nil_append]
  · rw [if_neg bare, if_neg bare, List.cons_append, List.singleton_append, addressed_valued found bare,
      List.singleton_append]

theorem value_eq_nil (printable : component.Printable) (valued : component.protocol.size ≠ 0) :
    component.value ip = [] ↔ component.payload = [] :=
  valueText_eq_nil printable.fits printable.shown (mt (shape_eq_absent _ printable.known).mp valued)

/-- No word of a value is empty when no value is. -/
theorem addressed_full (printable : ∀ component ∈ cs, component.Printable) :
    (∀ entry ∈ addressed (cs.flatMap (Component.words ip)), entry.2 ≠ []) ↔ ∀ component ∈ cs, component.Full := by
  induction cs with
  | nil => simp [addressed]
  | cons component rest ih =>
    obtain ⟨this, others⟩ := List.forall_mem_cons.mp printable
    rw [List.flatMap_cons, addressed_words this, List.forall_mem_append, ih others, List.forall_mem_cons]
    refine and_congr_left fun _ => ?_
    unfold Component.Full
    by_cases bare : component.protocol.size = 0
    · simp [bare]
    · simp [bare, value_eq_nil this bare]

theorem words_plain (printable : component.Printable) : ∀ word ∈ component.words ip, 0x2f ∉ word := by
  intro word member
  rcases List.mem_cons.mp member with rfl | member
  · exact (ProtocolList.name_plain _ printable.known).2
  · split_ifs at member with bare
    · exact absurd member List.not_mem_nil
    · rw [List.mem_singleton.mp member]
      exact fun slash => (valueText_plain printable.fits printable.shown _ slash).1 rfl

theorem flatMap_words_plain (printable : ∀ component ∈ cs, component.Printable) :
    ∀ word ∈ cs.flatMap (Component.words ip), 0x2f ∉ word := by
  intro word member
  obtain ⟨source, listed, among⟩ := List.mem_flatMap.mp member
  exact words_plain (printable source listed) word among

theorem flatMap_text : cs.flatMap (Component.text ip) = joined 0x2f (cs.flatMap (Component.words ip)) := by
  unfold joined
  rw [List.flatMap_assoc]
  rfl

/-- A text falls apart at its slashes into the words of its components. -/
theorem words_split (printable : ∀ component ∈ cs, component.Printable) (some_ : cs ≠ []) :
    (cs.flatMap (Component.text ip)).tail.splitOn 0x2f = cs.flatMap (Component.words ip) := by
  obtain ⟨component, rest, rfl⟩ := List.exists_cons_of_ne_nil some_
  rw [flatMap_text]
  exact splitOn_append_joined (@flatMap_words_plain ip _ printable)

theorem wordsOf_joined {first : Bytes} {more : List Bytes} (plain : ∀ word ∈ first :: more, 0x2f ∉ word)
    (named : first ≠ []) : wordsOf (first ++ joined 0x2f more) =
      if (first :: more).getLast? = some [] then (first :: more).dropLast else first :: more := by
  have ended := getLast?_joined plain (List.cons_ne_nil _ _)
  rw [joined_cons, List.getLast?_cons_of_ne_nil (by simp [named])] at ended
  unfold wordsOf
  split_ifs with slash empty empty
  · obtain ⟨front, last, rfl⟩ := (List.eq_nil_or_concat more).resolve_left fun none => by
      subst none
      exact named (by simpa using empty)
    rw [List.concat_eq_append] at empty plain ⊢
    rw [← List.cons_append, List.getLast?_concat] at empty
    obtain rfl := Option.some.inj empty
    rw [joined_append, joined_cons, joined_nil, ← List.append_assoc, List.nil_append, List.dropLast_concat,
      ← List.cons_append, List.dropLast_concat]
    exact splitOn_append_joined fun word member => plain word (by
      rcases List.mem_cons.mp member with rfl | later
      · exact List.mem_cons_self
      · exact List.mem_cons_of_mem _ (List.mem_append_left _ later))
  · exact absurd (ended.mp slash) empty
  · exact absurd (ended.mpr empty) slash
  · exact splitOn_append_joined plain

theorem multiaddrToBytes_joined {first : Bytes} {more : List Bytes} (named : first ≠ []) :
    multiaddrToBytes ip (joined 0x2f (first :: more)) =
      wordsToBytes ip (wordsOf (first ++ joined 0x2f more)) none [] := by
  rw [joined_cons, multiaddrToBytes, if_neg (not_not_intro rfl), if_neg (by simp [named])]

/-- The text of components is parsed exactly when there are some and no value is empty, into their bytes. -/
theorem multiaddrToBytes_text (printable : ∀ component ∈ cs, component.Printable) :
    multiaddrToBytes ip (cs.flatMap (Component.text ip)) = .ok bytes ↔
      cs ≠ [] ∧ (∀ component ∈ cs, component.Full) ∧ bytes = cs.flatMap Component.encode := by
  rcases cs with _ | ⟨component, rest⟩
  · simp [multiaddrToBytes]
  have plain := @flatMap_words_plain ip _ printable
  have named : component.protocol.name ≠ [] :=
    (ProtocolList.name_plain _ (printable component List.mem_cons_self).known).1
  obtain ⟨more, spelled⟩ : ∃ more, (component :: rest).flatMap (Component.words ip) =
      component.protocol.name :: more := ⟨_, rfl⟩
  rw [flatMap_text, spelled, multiaddrToBytes_joined named, wordsOf_joined (spelled ▸ plain) named, ← spelled]
  split_ifs with empty
  -- The text ends with an empty value: its slash is dropped, and the last protocol has no value.
  · obtain ⟨front, last, same⟩ := (List.eq_nil_or_concat (component :: rest)).resolve_left (List.cons_ne_nil _ _)
    rw [List.concat_eq_append] at same
    rw [same] at printable empty ⊢
    obtain ⟨before, this⟩ := List.forall_mem_append.mp printable
    have this := this last List.mem_cons_self
    rw [List.flatMap_append, List.flatMap_singleton] at empty ⊢
    unfold Component.words at empty ⊢
    by_cases bare : last.protocol.size = 0
    · rw [if_pos bare, List.getLast?_concat] at empty
      exact absurd (Option.some.inj empty) (ProtocolList.name_plain _ this.known).1
    · rw [if_neg bare, List.append_cons, List.getLast?_concat] at empty
      have found := ProtocolList.getByName_name _ this.known
      have unread : readWords ip (front.flatMap (Component.words ip) ++ [last.protocol.name]) = none := by
        rw [readWords_flatMap before]
        simp [readWords, found, bare]
      rw [if_neg bare, List.append_cons, List.dropLast_concat, wordsToBytes_eq_ok]
      refine iff_of_false ?_ ?_
      · rintro ⟨_, read, -⟩
        exact absurd (unread.symm.trans read) (by simp)
      · rintro ⟨-, full, -⟩
        exact full last (by simp) bare ((value_eq_nil this bare).mp (Option.some.inj empty))
  · have read := @readWords_flatMap ip _ [] printable
    rw [List.append_nil] at read
    rw [wordsToBytes_eq_ok, addressed_full printable, read]
    constructor
    · rintro ⟨_, same, full, written⟩
      obtain rfl := Option.some.inj same
      exact ⟨List.cons_ne_nil _ _, full, by simpa using written⟩
    · rintro ⟨-, full, written⟩
      exact ⟨component :: rest, by simp [readWords], full, by simpa using written⟩

end Parsing

end Libp2p.Multi
