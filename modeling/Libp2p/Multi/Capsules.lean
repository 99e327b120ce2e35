import Libp2p.Library.Run
import Libp2p.Multi.Canonical

/-! # Encapsulating and decapsulating

The text and the bytes of an address are cut by two searches of their own. Each looks for the last place of what is given
and neither knows where components begin, so that the two stay in step only while both places belong to one component.
-/

namespace Libp2p.Multi

open Protocol Converters Library

namespace Multiaddress

/-- What may be done to an address. -/
inductive Op where
  | encapsulate (address : Multiaddress)
  | decapsulate (address : Multiaddress)
  | decapsulateProtocol (proto : Code) (address : Bytes)

section Steps

variable (ip : IpTexts)

def perform (self : Multiaddress) : Op → Multiaddress × Bool
  | .encapsulate address => (self.encapsulate address, false)
  | .decapsulate address => self.decapsulate address
  | .decapsulateProtocol proto address => self.decapsulateProtocol ip proto address

/-- The text and the bytes that an operation looks for. -/
def Op.given : Op → Option (Bytes × Bytes)
  | .encapsulate _ => none
  | .decapsulate address => some (address.stringifiedAddress, address.bytes)
  | .decapsulateProtocol proto address =>
    match ProtocolList.getByCode proto.number with
    | none => none
    | some p =>
      match multiaddrToBytes ip (protoStr p address) with
      | .error _ => none
      | .ok protoBytes => some (protoStr p address, protoBytes)

/-- The address was made of a text. -/
def Built (address : Multiaddress) : Prop :=
  ∃ s : Bytes, s.length < 2 ^ 64 ∧ createFromString ip s = some (.ok address)

/-- The addresses that an operation is given were made of texts; a text has a length. -/
def Op.Made : Op → Prop
  | .encapsulate address | .decapsulate address => Built ip address
  | .decapsulateProtocol _ address => ∀ p ∈ ProtocolList.protocols, (protoStr p address).length < 2 ^ 64

/-- The text is the one that the bytes are printed as. -/
def InStep (address : Multiaddress) : Prop :=
  bytesToMultiaddrString ip address.bytes = .ok address.stringifiedAddress

/-- An operation that says so has removed the last components, of which the first are those that were given. -/
def RemovesWhole (self : Multiaddress) (op : Op) : Prop :=
  (self.perform ip op).2 = true → ∃ text bytes front middle back, op.given ip = some (text, bytes) ∧
    components bytes = .ok middle ∧ components self.bytes = .ok (front ++ middle ++ back) ∧
    (self.perform ip op).1 = ⟨front.flatMap (Component.text ip), front.flatMap Component.encode⟩

/-- Where the given text is in an address, its last place is where the text of a component starts, and the last place of
the given bytes is where the bytes of that component do. -/
def Marked (self : Multiaddress) (op : Op) : Prop :=
  ∀ text bytes position, op.given ip = some (text, bytes) →
    findLast text self.stringifiedAddress = some position →
    ∃ front back, components self.bytes = .ok (front ++ back) ∧
      position = (front.flatMap (Component.text ip)).length ∧
      findLast bytes self.bytes = some (front.flatMap Component.encode).length

end Steps

section Cutting

variable {ip : IpTexts} {self : Multiaddress} {cs : List Component} {op : Op} {text bytes : Bytes}

/-- An address that is its components one after the other, in text as in bytes. -/
structure Composed (ip : IpTexts) (address : Multiaddress) (cs : List Component) : Prop where
  printable : ∀ component ∈ cs, component.Printable
  text : address.stringifiedAddress = cs.flatMap (Component.text ip)
  bytes : address.bytes = cs.flatMap Component.encode

theorem Composed.valid (composed : Composed ip self cs) : ∀ component ∈ cs, component.Valid :=
  fun component member => (composed.printable component member).toValid

theorem Composed.inStep (composed : Composed ip self cs) : InStep ip self := by
  unfold InStep
  rw [composed.bytes]
  exact (bytesToMultiaddrString_encode composed.valid).mpr ⟨composed.printable, composed.text⟩

theorem Composed.components (composed : Composed ip self cs) : components self.bytes = .ok cs := by
  rw [composed.bytes, components_encode composed.valid]

theorem composed_of_built (built : Built ip self) : ∃ cs, cs ≠ [] ∧ Composed ip self cs := by
  obtain ⟨s, small, created⟩ := built
  obtain ⟨parsed, printed⟩ := createFromString_eq_ok.mp created
  obtain ⟨cs, -, -, present, valid, encoded⟩ := multiaddrToBytes_ok small parsed
  rw [encoded] at printed
  obtain ⟨printable, written⟩ := (bytesToMultiaddrString_encode valid).mp printed
  exact ⟨cs, present, printable, written, encoded⟩

theorem Composed.encapsulate {other : Multiaddress} {more : List Component} (composed : Composed ip self cs)
    (added : Composed ip other more) : Composed ip (self.encapsulate other) (cs ++ more) where
  printable := List.forall_mem_append.mpr ⟨composed.printable, added.printable⟩
  text := by
    rw [List.flatMap_append, ← composed.text, ← added.text]
    rfl
  bytes := by
    rw [List.flatMap_append, ← composed.bytes, ← added.bytes]
    rfl

theorem given_protocol {proto : Code} {address : Bytes}
    (given : (Op.decapsulateProtocol proto address).given ip = some (text, bytes)) :
    ∃ p, ProtocolList.getByCode proto.number = some p ∧ text = protoStr p address ∧
      multiaddrToBytes ip text = .ok bytes := by
  simp only [Op.given] at given
  rcases found : ProtocolList.getByCode proto.number with _ | p
  · rw [found] at given
    cases given
  rw [found] at given
  dsimp only at given
  rcases parsed : multiaddrToBytes ip (protoStr p address) with error | protoBytes
  · rw [parsed] at given
    cases given
  rw [parsed] at given
  obtain ⟨rfl, rfl⟩ := Prod.mk.inj (Option.some.inj given)
  exact ⟨p, rfl, rfl, parsed⟩

/-- What is looked for is the bytes of some components. -/
theorem given_components (made : op.Made ip) (given : op.given ip = some (text, bytes)) :
    ∃ cs : List Component, cs ≠ [] ∧ (∀ component ∈ cs, component.Valid) ∧ bytes = cs.flatMap Component.encode := by
  cases op with
  | encapsulate address => cases given
  | decapsulate address =>
    obtain ⟨rfl, rfl⟩ := Prod.mk.inj (Option.some.inj given)
    obtain ⟨cs, present, composed⟩ := composed_of_built made
    exact ⟨cs, present, composed.valid, composed.bytes⟩
  | decapsulateProtocol proto address =>
    obtain ⟨p, found, rfl, parsed⟩ := given_protocol given
    obtain ⟨cs, -, -, present, valid, encoded⟩ :=
      multiaddrToBytes_ok (made p (ProtocolList.mem_of_getByCode found).1) parsed
    exact ⟨cs, present, valid, encoded⟩

/-- Every operation other than adding searches for what it is given, if anything. -/
theorem perform_eq (plain : ∀ address, op ≠ .encapsulate address) : self.perform ip op =
    match op.given ip with
    | none => (self, false)
    | some (text, bytes) => self.decapsulateStringFromAddress text bytes := by
  cases op with
  | encapsulate address => exact absurd rfl (plain address)
  | decapsulate address => rfl
  | decapsulateProtocol proto address =>
    simp only [perform, decapsulateProtocol, Op.given]
    rcases ProtocolList.getByCode proto.number with _ | p
    · rfl
    · dsimp only
      rcases multiaddrToBytes ip (protoStr p address) with error | protoBytes <;> rfl

/-- What an operation does that finds the given text. -/
theorem perform_found {position : ℕ} (given : op.given ip = some (text, bytes))
    (found : findLast text self.stringifiedAddress = some position) :
    self.perform ip op = (⟨self.stringifiedAddress.take position,
      self.bytes.take ((findLast bytes self.bytes).getD self.bytes.length)⟩, true) := by
  rw [perform_eq (by rintro address rfl; cases given), given]
  dsimp only
  unfold decapsulateStringFromAddress
  rw [found]

/-- One that is given nothing or does not find the text leaves the address as it is. -/
theorem perform_missing (plain : ∀ address, op ≠ .encapsulate address)
    (missing : ∀ text bytes, op.given ip = some (text, bytes) → findLast text self.stringifiedAddress = none) :
    self.perform ip op = (self, false) := by
  rw [perform_eq plain]
  rcases given : op.given ip with _ | ⟨text, bytes⟩
  · rfl
  · dsimp only
    unfold decapsulateStringFromAddress
    rw [missing text bytes given]

/-- A marked operation cuts the text and the bytes at one component. -/
theorem Composed.perform (composed : Composed ip self cs) (made : op.Made ip) (marked : Marked ip self op) :
    (∃ after, Composed ip (self.perform ip op).1 after) ∧ RemovesWhole ip self op := by
  by_cases adding : ∃ address, op = .encapsulate address
  · obtain ⟨address, rfl⟩ := adding
    obtain ⟨more, -, added⟩ := composed_of_built made
    exact ⟨⟨cs ++ more, composed.encapsulate added⟩, fun impossible => by cases impossible⟩
  have plain : ∀ address, op ≠ .encapsulate address := fun address same => adding ⟨address, same⟩
  by_cases finds : ∃ text bytes position, op.given ip = some (text, bytes) ∧
      findLast text self.stringifiedAddress = some position
  · obtain ⟨text, bytes, position, given, found⟩ := finds
    obtain ⟨front, back, read, rfl, cut⟩ := marked text bytes position given found
    obtain rfl := Except.ok.inj (composed.components.symm.trans read)
    obtain ⟨printable, -⟩ := List.forall_mem_append.mp composed.printable
    have shortened : self.perform ip op =
        (⟨front.flatMap (Component.text ip), front.flatMap Component.encode⟩, true) := by
      rw [perform_found given found, cut, composed.text, composed.bytes, List.flatMap_append, List.flatMap_append]
      simp
    refine ⟨⟨front, ?_⟩, fun _ => ?_⟩
    · rw [shortened]
      exact ⟨printable, rfl, rfl⟩
    · obtain ⟨middle, -, valid, rfl⟩ := given_components made given
      obtain ⟨rest, ended⟩ := findLast_eq_some cut
      rw [composed.bytes, List.flatMap_append, List.drop_left] at ended
      have others := (List.forall_mem_append.mp composed.valid).2
      obtain ⟨last, rfl, -⟩ := prefix_of_encode valid others ended
      refine ⟨text, _, front, middle, last, given, components_encode valid, ?_, ?_⟩
      · rw [List.append_assoc]
        exact read
      · rw [shortened]
  · push Not at finds
    have kept := perform_missing plain fun text bytes given =>
      Option.eq_none_iff_forall_ne_some.mpr fun position => finds text bytes position given
    refine ⟨⟨cs, ?_⟩, fun impossible => ?_⟩
    · rw [kept]
      exact composed
    · rw [kept] at impossible
      cases impossible

/-- Only a marked operation removes whole components. -/
theorem marked_of_removes (made : op.Made ip) (removes : RemovesWhole ip self op) (composed : Composed ip self cs) :
    Marked ip self op := by
  intro text bytes position given found
  have result := perform_found given found
  obtain ⟨text_, bytes_, front, middle, back, given_, middle_, read, after⟩ := removes (by rw [result])
  rw [given] at given_
  obtain ⟨rfl, rfl⟩ := Prod.mk.inj (Option.some.inj given_)
  rw [result] at after
  obtain ⟨text_cut, bytes_cut⟩ := Multiaddress.mk.inj after
  refine ⟨front, middle ++ back, by rw [← List.append_assoc]; exact read, ?_, ?_⟩
  · have within := length_of_findLast found
    rw [← text_cut, List.length_take]
    omega
  · rcases cut : findLast bytes self.bytes with _ | place
    -- Bytes that are not found are not cut, but the given components are missing from the result.
    · exfalso
      obtain ⟨cs_, present, valid, rfl⟩ := given_components made given
      rw [components_encode valid] at middle_
      obtain rfl := Except.ok.inj middle_
      obtain rfl := Except.ok.inj (composed.components.symm.trans read)
      rw [cut, Option.getD_none, List.take_length, composed.bytes, List.flatMap_append, List.flatMap_append] at bytes_cut
      have lengths := congrArg List.length bytes_cut
      simp only [List.length_append] at lengths
      obtain ⟨first, others, rfl⟩ := List.exists_cons_of_ne_nil present
      have some_ := List.length_pos_iff.mpr (encode_ne_nil (valid first List.mem_cons_self))
      rw [List.flatMap_cons, List.length_append] at lengths
      omega
    · have within := length_of_findLast cut
      rw [cut, Option.getD_some] at bytes_cut
      rw [← bytes_cut, List.length_take]
      congr 1
      omega

/-- Cutting off a component by its protocol and its value searches for its text and its bytes. -/
theorem decapsulateProtocol_component {component : Component} (printable : component.Printable)
    (valued : component.protocol.size ≠ 0) (full : component.Full) :
    self.decapsulateProtocol ip component.protocol.code (component.value ip) =
      self.decapsulateStringFromAddress (component.text ip) component.encode := by
  have some_ : component.value ip ≠ [] := mt (value_eq_nil printable valued).mp (full valued)
  have spelled : protoStr component.protocol (component.value ip) = component.text ip := by
    unfold protoStr Component.text Component.words
    rw [if_pos some_, if_neg valued]
    simp
  have parsed : multiaddrToBytes ip (component.text ip) = .ok component.encode := by
    have whole := (@multiaddrToBytes_text ip [component] component.encode
      (List.forall_mem_singleton.mpr printable)).mpr
      ⟨List.cons_ne_nil _ _, List.forall_mem_singleton.mpr full, (List.flatMap_singleton _ _).symm⟩
    rwa [List.flatMap_singleton] at whole
  unfold decapsulateProtocol
  rw [ProtocolList.getByCode_number _ printable.known]
  dsimp only
  rw [spelled, parsed]

/-- Cutting off a component leaves what is in front of the last one exactly when it is the last one. -/
theorem Composed.decapsulate_last {component last : Component} (composed : Composed ip self (cs ++ [last]))
    (valid : component.Valid) : (self.decapsulateStringFromAddress (component.text ip) component.encode).1 =
      ⟨cs.flatMap (Component.text ip), cs.flatMap Component.encode⟩ ↔ component = last := by
  have text := composed.text
  have bytes := composed.bytes
  rw [List.flatMap_append, List.flatMap_singleton] at text bytes
  have ended : last.Valid := composed.valid last (by simp)
  have some_ := List.length_pos_iff.mpr (encode_ne_nil ended)
  unfold decapsulateStringFromAddress
  constructor
  · intro cut
    rcases found : findLast (component.text ip) self.stringifiedAddress with _ | position
    · rw [found, bytes] at cut
      have same := congrArg (List.length ∘ Multiaddress.bytes) cut
      simp only [Function.comp_apply, bytes, List.length_append] at same
      omega
    rw [found] at cut
    have left : ((findLast component.encode self.bytes).getD self.bytes.length) ⊓ self.bytes.length =
        (cs.flatMap Component.encode).length := by
      rw [← List.length_take]
      exact congrArg (List.length ∘ Multiaddress.bytes) cut
    have size : self.bytes.length = (cs.flatMap Component.encode).length + last.encode.length := by
      rw [bytes, List.length_append]
    -- Bytes that are not found are not cut at all.
    have place : findLast component.encode self.bytes = some (cs.flatMap Component.encode).length := by
      rcases found : findLast component.encode self.bytes with _ | place
      · rw [found, Option.getD_none] at left
        omega
      · rw [found, Option.getD_some] at left
        exact congrArg some (by omega)
    obtain ⟨rest, here⟩ := findLast_eq_some place
    rw [bytes, List.drop_left] at here
    have whole : [component].flatMap Component.encode ++ rest = [last].flatMap Component.encode := by
      simpa using here
    obtain ⟨back, same, -⟩ := prefix_of_encode (List.forall_mem_singleton.mpr valid)
      (List.forall_mem_singleton.mpr ended) whole
    exact (List.cons.inj same).1.symm
  · rintro rfl
    rw [text, bytes, findLast_append]
    dsimp only
    rw [findLast_append, Option.getD_some, List.take_left, List.take_left]

end Cutting

section Runs

variable {ip : IpTexts} {start address : Multiaddress} {ops : List Op}

/-- Operations on an address, each of them marked where it is done. -/
abbrev MarkedRuns (ip : IpTexts) : Multiaddress → List Op → Multiaddress → Prop :=
  Run fun before op after => after = (before.perform ip op).1 ∧ op.Made ip ∧ Marked ip before op

theorem composed_of_runs (built : Built ip start) (run : MarkedRuns ip start ops address) :
    ∃ cs, Composed ip address cs := by
  refine run.preserves (fun address => ∃ cs, Composed ip address cs) ?_ ?_
  · obtain ⟨cs, -, composed⟩ := composed_of_built built
    exact ⟨cs, composed⟩
  · rintro op before after ⟨cs, composed⟩ ⟨rfl, made, marked⟩
    exact (composed.perform made marked).1

/-- After marked operations the text is the one of the bytes, and the next operation keeps it and removes whole components
exactly when it is marked as well. -/
theorem inStep_of_runs (built : Built ip start) (run : MarkedRuns ip start ops address) :
    InStep ip address ∧ ∀ op, Op.Made ip op →
      (InStep ip (address.perform ip op).1 ∧ RemovesWhole ip address op ↔ Marked ip address op) := by
  obtain ⟨cs, composed⟩ := composed_of_runs built run
  refine ⟨composed.inStep, fun op made => ⟨fun ⟨_, removes⟩ => marked_of_removes made removes composed, fun marked => ?_⟩⟩
  obtain ⟨⟨after, kept⟩, removes⟩ := composed.perform made marked
  exact ⟨kept.inStep, removes⟩

/-- An address, a port, and both in one. -/
def host : Multiaddress := ⟨ascii "/ip4/127.0.0.1", [4, 127, 0, 0, 1]⟩

def port : Multiaddress := ⟨ascii "/tcp/80", [6, 0, 80]⟩

theorem built_host : Built plainTexts host := ⟨ascii "/ip4/127.0.0.1", by decide, by decide⟩

theorem built_port : Built plainTexts port := ⟨ascii "/tcp/80", by decide, by decide +kernel⟩

/-- A port that was added is taken off again. -/
theorem inStep_of_runs_listening : MarkedRuns plainTexts host [.encapsulate port] (host.encapsulate port) ∧
    InStep plainTexts ((host.encapsulate port).perform plainTexts (.decapsulate port)).1 ∧
    RemovesWhole plainTexts (host.encapsulate port) (.decapsulate port) ∧
    (host.encapsulate port).perform plainTexts (.decapsulate port) = (host, true) := by
  have run : MarkedRuns plainTexts host [.encapsulate port] (host.encapsulate port) :=
    .snoc .nil ⟨rfl, built_port, fun _ _ _ given => by cases given⟩
  have marked : Marked plainTexts (host.encapsulate port) (.decapsulate port) := by
    intro text bytes position given found
    obtain ⟨rfl, rfl⟩ := Prod.mk.inj (Option.some.inj given)
    have place : findLast port.stringifiedAddress (host.encapsulate port).stringifiedAddress = some 14 := by
      decide
    obtain rfl := Option.some.inj (place.symm.trans found)
    exact ⟨[⟨⟨.ip4, 32, ascii "ip4"⟩, [127, 0, 0, 1]⟩], [⟨⟨.tcp, 16, ascii "tcp"⟩, [0, 80]⟩], by decide,
      by decide, by decide⟩
  obtain ⟨inStep, removes⟩ := ((inStep_of_runs built_host run).2 (.decapsulate port) built_port).mpr marked
  exact ⟨run, inStep, removes, by decide⟩

/-- The text of a port is the beginning of that of a longer one: the text is cut and the bytes are not. And where the bytes
of a port are the last ones of an address as well, the bytes are cut there. -/
theorem cut_out_of_step :
    (Built plainTexts ⟨ascii "/tcp/8", [6, 0, 8]⟩ ∧
      port.perform plainTexts (.decapsulate ⟨ascii "/tcp/8", [6, 0, 8]⟩) = (⟨[], [6, 0, 80]⟩, true) ∧
      ¬ InStep plainTexts ⟨[], [6, 0, 80]⟩) ∧
    Built plainTexts ⟨ascii "/tcp/80/ip4/1.6.0.80", [6, 0, 80, 4, 1, 6, 0, 80]⟩ ∧
      (⟨ascii "/tcp/80/ip4/1.6.0.80", [6, 0, 80, 4, 1, 6, 0, 80]⟩ : Multiaddress).perform plainTexts (.decapsulate port) =
        (⟨[], [6, 0, 80, 4, 1]⟩, true) ∧
      ¬ InStep plainTexts ⟨[], [6, 0, 80, 4, 1]⟩ := by
  refine ⟨⟨⟨ascii "/tcp/8", by decide +kernel, by decide +kernel⟩, by decide, ?_⟩,
    ⟨ascii "/tcp/80/ip4/1.6.0.80", by decide, by decide⟩, by decide, ?_⟩
  · unfold InStep
    decide
  · unfold InStep
    decide +kernel

end Runs

end Multiaddress

end Libp2p.Multi
