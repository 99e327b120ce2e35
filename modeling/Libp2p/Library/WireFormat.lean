import Mathlib.Algebra.Order.Group.Nat
import Mathlib.Data.List.Basic
import Mathlib.Tactic.Common
import Mathlib.Tactic.Positivity
import Mathlib.Tactic.Ring

/-! # Protocol buffer wire format

A message on the wire is a sequence of numbered fields. A reader accepts every field order, repeated
fields, fields it does not know and variable-length integers that are longer than necessary; a writer
emits the shortest integers. Reading therefore loses information about the encoding, and only the
canonical encodings come back unchanged.

Groups are read to their matching end tag, down to a bounded depth, and kept as the canonical encoding
of their contents. `readFields` is recursive on an amount of fuel; the length of the input is enough.
-/

namespace Libp2p.Library.WireFormat

/-- Seven bits per byte, least significant group first, in at most `room` bytes. -/
def putVarint : ℕ → ℕ → List UInt8
  | 0, _ => []
  | room + 1, value =>
    if value < 128 then [UInt8.ofNat value]
    else UInt8.ofNat (value % 128 + 128) :: putVarint room (value / 128)

/-- The integer at the front of the input, of at most `room` bytes. -/
def getVarint : ℕ → List UInt8 → Option (ℕ × List UInt8)
  | 0, _ => none
  | _, [] => none
  | room + 1, byte :: rest =>
    if byte.toNat < 128 then some (byte.toNat, rest)
    else (getVarint room rest).map fun (high, rest) => (byte.toNat - 128 + 128 * high, rest)

/-- The contents of a field, by wire type. -/
inductive Value where
  | varint (value : ℕ)
  | fixed64 (data : List UInt8)
  | bytes (data : List UInt8)
  | group (body : List UInt8)
  | fixed32 (data : List UInt8)
deriving DecidableEq, Repr

structure Field where
  number : ℕ
  value : Value
deriving DecidableEq, Repr

/-- The wire type of a field's contents. -/
def Value.wireType : Value → ℕ
  | .varint _ => 0
  | .fixed64 _ => 1
  | .bytes _ => 2
  | .group _ => 3
  | .fixed32 _ => 5

def putTag (number wireType : ℕ) : List UInt8 := putVarint 5 (number * 8 + wireType)

/-- The canonical encoding of a field. -/
def Field.encode (field : Field) : List UInt8 :=
  putTag field.number field.value.wireType ++ match field.value with
    | .varint value => putVarint 10 value
    | .fixed64 data => data
    | .bytes data => putVarint 5 data.length ++ data
    | .group body => body ++ putTag field.number 4
    | .fixed32 data => data

def encodeFields (fields : List Field) : List UInt8 := fields.flatMap Field.encode

/-- A field number and a wire type; the number is never zero. -/
def readTag (input : List UInt8) : Option (ℕ × ℕ × List UInt8) := do
  let (tag, rest) ← getVarint 5 input
  let tag := tag % 2 ^ 32
  if tag / 8 = 0 then none else some (tag / 8, tag % 8, rest)

/-- The first `count` bytes of the input. -/
def takeExactly (count : ℕ) (input : List UInt8) : Option (List UInt8 × List UInt8) :=
  if count ≤ input.length then some (input.take count, input.drop count) else none

/-- The contents of a field that is not a group. -/
def readScalar (wireType : ℕ) (input : List UInt8) : Option (Value × List UInt8) :=
  match wireType with
  | 0 => (getVarint 10 input).map fun (value, rest) => (.varint (value % 2 ^ 64), rest)
  | 1 => (takeExactly 8 input).map fun (data, rest) => (.fixed64 data, rest)
  | 2 => do
    let (size, rest) ← getVarint 5 input
    let (data, rest) ← takeExactly size rest
    some (.bytes data, rest)
  | 5 => (takeExactly 4 input).map fun (data, rest) => (.fixed32 data, rest)
  | _ => none

/-- The fields up to the end of the input, or up to the end tag of the group `close`. -/
def readFields : ℕ → ℕ → Option ℕ → List UInt8 → Option (List Field × List UInt8)
  | 0, _, _, _ => none
  | fuel + 1, depth, close, input =>
    if input = [] then if close = none then some ([], []) else none
    else do
      let (number, wireType, rest) ← readTag input
      if wireType = 4 then if close = some number then some ([], rest) else none
      else
        let content : Option (Value × List UInt8) := if wireType = 3 then
            match depth with
            | 0 => none
            | depth + 1 => (readFields fuel depth (some number) rest).map fun (body, rest) =>
                (.group (encodeFields body), rest)
          else readScalar wireType rest
        content.bind fun (value, rest) => (readFields fuel depth close rest).map fun (fields, rest) =>
          (⟨number, value⟩ :: fields, rest)

/-- The fields of a whole message whose groups nest at most `depth` deep. -/
def parseFields (depth : ℕ) (input : List UInt8) : Option (List Field) :=
  (readFields (input.length + 1) depth none input).map Prod.fst

section Varint

theorem putVarint_length_pos {room : ℕ} (value : ℕ) (positive : 0 < room) : 0 < (putVarint room value).length := by
  cases room with
  | zero => omega
  | succ room => rw [putVarint]; split <;> simp

/-- The shortest encoding is read back, whatever follows it. -/
theorem getVarint_putVarint {room space value : ℕ} (rest : List UInt8) (fits : value < 128 ^ (room + 1))
    (fits' : value < 128 ^ (space + 1)) :
    getVarint (space + 1) (putVarint (room + 1) value ++ rest) = some (value, rest) := by
  induction room generalizing space value with
  | zero =>
    rw [pow_one] at fits
    have byte : (UInt8.ofNat value).toNat = value := by rw [UInt8.toNat_ofNat']; omega
    rw [putVarint, if_pos fits, List.singleton_append, getVarint, byte, if_pos fits]
  | succ room ih =>
    rw [putVarint]
    split
    · next small =>
      have byte : (UInt8.ofNat value).toNat = value := by rw [UInt8.toNat_ofNat']; omega
      rw [List.singleton_append, getVarint, byte, if_pos small]
    · next large =>
      have byte : (UInt8.ofNat (value % 128 + 128)).toNat = value % 128 + 128 := by
        rw [UInt8.toNat_ofNat']; omega
      cases space with
      | zero => rw [pow_one] at fits'; omega
      | succ space =>
        rw [pow_succ] at fits fits'
        rw [List.cons_append, getVarint, byte, if_neg (by omega), ih (by omega) (by omega)]
        simp only [Option.map_some, Option.some.injEq, Prod.mk.injEq, and_true]
        omega

/-- Reading an integer consumes at least one byte. -/
theorem getVarint_length {room value : ℕ} {input rest : List UInt8}
    (read : getVarint room input = some (value, rest)) : rest.length < input.length := by
  induction room generalizing input value rest with
  | zero => simp [getVarint] at read
  | succ room ih =>
    cases input with
    | nil => simp [getVarint] at read
    | cons byte input =>
      rw [getVarint] at read
      split at read
      · cases read
        simp
      · obtain ⟨⟨high, rest'⟩, found, same⟩ := Option.map_eq_some_iff.mp read
        cases same
        have := ih found
        simp only [List.length_cons]
        omega

end Varint

section Fields

theorem readTag_length {number wireType : ℕ} {input rest : List UInt8}
    (read : readTag input = some (number, wireType, rest)) : rest.length < input.length := by
  simp only [readTag, Option.bind_eq_bind, Option.bind_eq_some_iff] at read
  obtain ⟨⟨tag, rest'⟩, found, read⟩ := read
  split_ifs at read
  cases read
  exact getVarint_length found

theorem readTag_putTag {number wireType : ℕ} (rest : List UInt8) (positive : 0 < number)
    (bound : number < 2 ^ 29) (type : wireType < 8) :
    readTag (putTag number wireType ++ rest) = some (number, wireType, rest) := by
  rw [readTag, putTag, getVarint_putVarint rest (by omega) (by omega)]
  simp only [Option.bind_eq_bind, Option.bind_some]
  rw [Nat.mod_eq_of_lt (by omega), if_neg (by omega)]
  simp only [Option.some.injEq, Prod.mk.injEq, and_true]
  omega

/-- The least number of bytes that the contents of a field take. -/
def Value.weight : Value → ℕ
  | .varint _ => 1
  | .bytes data => data.length + 1
  | _ => 0

theorem takeExactly_eq_some {count : ℕ} {input data rest : List UInt8}
    (taken : takeExactly count input = some (data, rest)) : data.length + rest.length = input.length := by
  rw [takeExactly] at taken
  split_ifs at taken
  cases taken
  simp only [List.length_take, List.length_drop]
  omega

theorem readScalar_weight {wireType : ℕ} {input rest : List UInt8} {value : Value}
    (read : readScalar wireType input = some (value, rest)) : value.weight + rest.length ≤ input.length := by
  unfold readScalar at read
  split at read
  · obtain ⟨⟨number, rest'⟩, found, same⟩ := Option.map_eq_some_iff.mp read
    cases same
    have := getVarint_length found
    simp only [Value.weight]
    omega
  · obtain ⟨⟨data, rest'⟩, found, same⟩ := Option.map_eq_some_iff.mp read
    cases same
    have := takeExactly_eq_some found
    simp only [Value.weight]
    omega
  · simp only [Option.bind_eq_bind, Option.bind_eq_some_iff] at read
    obtain ⟨⟨size, rest'⟩, found, ⟨data, rest''⟩, taken, same⟩ := read
    cases same
    have := getVarint_length found
    have : data.length + rest''.length = rest'.length := takeExactly_eq_some taken
    simp only [Value.weight]
    omega
  · obtain ⟨⟨data, rest'⟩, found, same⟩ := Option.map_eq_some_iff.mp read
    cases same
    have := takeExactly_eq_some found
    simp only [Value.weight]
    omega
  · cases read

/-- What one round of `readFields` did. -/
theorem readFields_cases {fuel depth : ℕ} {close : Option ℕ} {input rest : List UInt8} {fields : List Field}
    (read : readFields (fuel + 1) depth close input = some (fields, rest)) :
    (input = [] ∧ close = none ∧ fields = [] ∧ rest = []) ∨
      (∃ number, readTag input = some (number, 4, rest) ∧ close = some number ∧ fields = []) ∨
      ∃ number wireType tail value later more, readTag input = some (number, wireType, tail) ∧ wireType ≠ 4 ∧
        ((wireType = 3 ∧ ∃ inner body, depth = inner + 1 ∧
            readFields fuel inner (some number) tail = some (body, later) ∧ value = .group (encodeFields body)) ∨
          (wireType ≠ 3 ∧ readScalar wireType tail = some (value, later))) ∧
        readFields fuel depth close later = some (more, rest) ∧ fields = ⟨number, value⟩ :: more := by
  rw [readFields] at read
  by_cases empty : input = []
  · rw [if_pos empty] at read
    split_ifs at read with top
    cases read
    exact .inl ⟨empty, top, rfl, rfl⟩
  rw [if_neg empty] at read
  simp only [Option.bind_eq_bind, Option.bind_eq_some_iff] at read
  obtain ⟨⟨number, wireType, tail⟩, tag, read⟩ := read
  refine .inr ?_
  by_cases ended : wireType = 4
  · subst ended
    rw [if_pos rfl] at read
    split_ifs at read with matching
    cases read
    exact .inl ⟨number, tag, matching, rfl⟩
  rw [if_neg ended] at read
  simp only [Option.bind_eq_some_iff, Option.map_eq_some_iff] at read
  obtain ⟨⟨value, later⟩, content, ⟨more, rest'⟩, onward, same⟩ := read
  cases same
  refine .inr ⟨number, wireType, tail, value, later, more, tag, ended, ?_, onward, rfl⟩
  by_cases nested : wireType = 3
  · rw [if_pos nested] at content
    cases depth with
    | zero => cases content
    | succ inner =>
      obtain ⟨⟨body, later'⟩, inside, same⟩ := Option.map_eq_some_iff.mp content
      cases same
      exact .inl ⟨nested, inner, body, rfl, inside, rfl⟩
  · rw [if_neg nested] at content
    exact .inr ⟨nested, content⟩

/-- Every field read takes its weight and its tag out of the input. -/
theorem readFields_weight {fuel depth : ℕ} {close : Option ℕ} {input rest : List UInt8} {fields : List Field}
    (read : readFields fuel depth close input = some (fields, rest)) :
    (fields.map fun field => field.value.weight + 1).sum + rest.length ≤ input.length := by
  induction fuel generalizing depth close input fields rest with
  | zero => cases read
  | succ fuel ih =>
    rcases readFields_cases read with ⟨rfl, -, rfl, rfl⟩ | ⟨number, tag, -, rfl⟩ |
      ⟨number, wireType, tail, value, later, more, tag, -, content, onward, rfl⟩
    · simp
    · have := readTag_length tag
      simpa using this.le
    · have first := readTag_length tag
      have remaining := ih onward
      have inside : value.weight + later.length ≤ tail.length := by
        rcases content with ⟨-, inner, body, -, nested, rfl⟩ | ⟨-, scalar⟩
        · have := ih nested
          simp only [Value.weight]
          omega
        · exact readScalar_weight scalar
      simp only [List.map_cons, List.sum_cons]
      omega

/-- A field that a writer of scalar fields can emit. -/
structure Field.Flat (field : Field) : Prop where
  positive : 0 < field.number
  bound : field.number < 2 ^ 29
  scalar : (∃ value, field.value = .varint value ∧ value < 2 ^ 64) ∨
    ∃ data, field.value = .bytes data ∧ data.length < 2 ^ 35

/-- A canonical field is read back. -/
private theorem readScalar_encode {field : Field} (flat : field.Flat) (rest : List UInt8) :
    ∃ content, field.encode = putTag field.number field.value.wireType ++ content ∧
      field.value.wireType ≠ 3 ∧ field.value.wireType ≠ 4 ∧ field.value.wireType < 8 ∧
      readScalar field.value.wireType (content ++ rest) = some (field.value, rest) := by
  obtain ⟨number, value⟩ := field
  rcases flat.scalar with ⟨value, rfl, bound⟩ | ⟨data, rfl, bound⟩
  · refine ⟨putVarint 10 value, rfl, by simp [Value.wireType], by simp [Value.wireType],
      by simp [Value.wireType], ?_⟩
    simp only [Value.wireType, readScalar]
    rw [getVarint_putVarint rest (by omega) (by omega), Option.map_some, Nat.mod_eq_of_lt bound]
  · refine ⟨putVarint 5 data.length ++ data, rfl, by simp [Value.wireType], by simp [Value.wireType],
      by simp [Value.wireType], ?_⟩
    simp only [Value.wireType, readScalar, List.append_assoc]
    rw [getVarint_putVarint _ (by omega) (by omega)]
    simp [takeExactly]

/-- Canonical fields are read back in order. -/
theorem readFields_encodeFields {fuel depth : ℕ} {fields : List Field} (flat : ∀ field ∈ fields, field.Flat)
    (enough : fields.length < fuel) : readFields fuel depth none (encodeFields fields) = some (fields, []) := by
  induction fields generalizing fuel with
  | nil =>
    obtain ⟨fuel, rfl⟩ := Nat.exists_eq_add_one_of_ne_zero (Nat.ne_zero_of_lt enough)
    rfl
  | cons field fields ih =>
    obtain ⟨fuel, rfl⟩ := Nat.exists_eq_add_one_of_ne_zero (Nat.ne_zero_of_lt enough)
    have first := flat field (by simp)
    have later := ih (fun other member => flat other (by simp [member])) (Nat.lt_of_succ_lt_succ enough)
    obtain ⟨content, encoded, notGroup, notEnd, small, scalar⟩ := readScalar_encode first (encodeFields fields)
    have split : encodeFields (field :: fields) =
        putTag field.number field.value.wireType ++ (content ++ encodeFields fields) := by
      simp [encodeFields, encoded]
    have nonempty : encodeFields (field :: fields) ≠ [] := by
      have := putVarint_length_pos (field.number * 8 + field.value.wireType) (by decide : 0 < 5)
      rw [split, putTag]
      exact List.append_ne_nil_of_left_ne_nil (List.length_pos_iff.mp this) _
    rw [readFields, if_neg nonempty, split, readTag_putTag _ first.positive first.bound small]
    simp [notGroup, notEnd, scalar, later]

theorem Field.encode_length_pos (field : Field) : 0 < field.encode.length := by
  have := putVarint_length_pos (field.number * 8 + field.value.wireType) (by decide : 0 < 5)
  rw [Field.encode, List.length_append, putTag]
  omega

theorem length_le_encodeFields (fields : List Field) : fields.length ≤ (encodeFields fields).length := by
  induction fields with
  | nil => simp
  | cons field fields ih =>
    have := field.encode_length_pos
    simp only [encodeFields, List.flatMap_cons, List.length_append, List.length_cons] at ih ⊢
    omega

/-- Parsing undoes the canonical encoding. -/
theorem parseFields_encodeFields {depth : ℕ} {fields : List Field} (flat : ∀ field ∈ fields, field.Flat) :
    parseFields depth (encodeFields fields) = some fields := by
  rw [parseFields, readFields_encodeFields flat (Nat.lt_succ_of_le (length_le_encodeFields fields))]
  rfl

/-- The fields of a message are no larger than the message. -/
theorem parseFields_weight {depth : ℕ} {input : List UInt8} {fields : List Field}
    (parsed : parseFields depth input = some fields) :
    (fields.map fun field => field.value.weight + 1).sum ≤ input.length := by
  obtain ⟨⟨fields', rest⟩, read, rfl⟩ := Option.map_eq_some_iff.mp parsed
  exact (Nat.le_add_right _ _).trans (readFields_weight read)

/-- Every field of a message is smaller than the message. -/
theorem parseFields_mem {depth : ℕ} {input : List UInt8} {fields : List Field} {field : Field}
    (parsed : parseFields depth input = some fields) (member : field ∈ fields) :
    field.value.weight < input.length := by
  have single : field.value.weight + 1 ≤ (fields.map fun field => field.value.weight + 1).sum :=
    List.le_sum_of_mem (List.mem_map.mpr ⟨field, member, rfl⟩)
  exact single.trans (parseFields_weight parsed)

theorem putVarint_length_le (room value : ℕ) : (putVarint room value).length ≤ room := by
  induction room generalizing value with
  | zero => rfl
  | succ room ih =>
    rw [putVarint]
    split
    · simp
    · simpa using ih (value / 128)

/-- A field of bytes takes at most ten bytes more than its contents. -/
theorem Field.encode_length_le (number : ℕ) (data : List UInt8) :
    (Field.encode ⟨number, .bytes data⟩).length ≤ data.length + 10 := by
  have tag : (putTag number 2).length ≤ 5 := putVarint_length_le 5 _
  have size := putVarint_length_le 5 data.length
  simp only [Field.encode, Value.wireType, List.length_append]
  omega

/-- Canonical fields delimit themselves. -/
theorem Field.encode_append_inj {left right : Field} {first second : List UInt8} (flat : left.Flat)
    (flat' : right.Flat) (same : left.encode ++ first = right.encode ++ second) : left = right ∧ first = second := by
  obtain ⟨content, encoded, -, -, small, read⟩ := readScalar_encode flat first
  obtain ⟨content', encoded', -, -, small', read'⟩ := readScalar_encode flat' second
  rw [encoded, encoded', List.append_assoc, List.append_assoc] at same
  have tag := readTag_putTag (content ++ first) flat.positive flat.bound small
  rw [same, readTag_putTag _ flat'.positive flat'.bound small'] at tag
  simp only [Option.some.injEq, Prod.mk.injEq] at tag
  obtain ⟨number, type, rest⟩ := tag
  rw [← type, ← rest, read'] at read
  simp only [Option.some.injEq, Prod.mk.injEq] at read
  obtain ⟨leftNumber, leftValue⟩ := left
  obtain ⟨rightNumber, rightValue⟩ := right
  exact ⟨by rw [show leftNumber = rightNumber from number.symm, show leftValue = rightValue from read.1.symm],
    read.2.symm⟩

theorem encodeFields_append (first second : List Field) :
    encodeFields (first ++ second) = encodeFields first ++ encodeFields second := List.flatMap_append

theorem encodeFields_eq_nil {fields : List Field} (empty : encodeFields fields = []) : fields = [] := by
  have short := length_le_encodeFields fields
  rw [empty] at short
  exact List.eq_nil_of_length_eq_zero (Nat.le_zero.mp short)

end Fields

end Libp2p.Library.WireFormat
