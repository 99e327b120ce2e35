import Libp2p.Library.Words
import Libp2p.Multi.Values

/-! # Texts of IP addresses without any short form

Dotted decimal numbers without leading zeros, and eight groups of four hexadecimal digits.
-/

namespace Libp2p.Multi

open Converters Library

namespace PlainTexts

/-- A number of an IPv4 address. -/
def octet (word : Bytes) : Option UInt8 :=
  if stoi word < 256 ∧ toDecimal 3 (stoi word) = word then some (UInt8.ofNat (stoi word)) else none

def makeAddressV4 (text : Bytes) : Option Bytes := do
  let bytes ← (text.splitOn 0x2e).mapM octet
  if bytes.length = 4 then some bytes else none

def toStringV4 (bytes : Bytes) : Bytes := (joined 0x2e (bytes.map fun byte => toDecimal 3 byte.toNat)).tail

/-- The four digits of two bytes of an IPv6 address. -/
def groups : Bytes → List Bytes
  | high :: low :: rest => [high.toNat / 16, high.toNat % 16, low.toNat / 16, low.toNat % 16].map
      (fun digit => (ascii "0123456789abcdef").getD digit 0) :: groups rest
  | _ => []

def group (word : Bytes) : Option Bytes :=
  match word with
  | [first, second, third, fourth] => do
    let a ← unhex first
    let b ← unhex second
    let c ← unhex third
    let d ← unhex fourth
    some [(a <<< 4) ||| b, (c <<< 4) ||| d]
  | _ => none

def makeAddressV6 (text : Bytes) : Option Bytes := do
  let bytes ← (text.splitOn 0x3a).mapM group
  if bytes.flatten.length = 16 then some bytes.flatten else none

def toStringV6 (bytes : Bytes) : Bytes := (joined 0x3a (groups bytes)).tail

theorem octet_toDecimal (byte : UInt8) : octet (toDecimal 3 byte.toNat) = some byte := by
  have small := byte.toNat_lt
  obtain ⟨number, -, -⟩ := @toDecimal_spec 3 byte.toNat (by omega) (by decide)
  unfold octet
  rw [number, if_pos ⟨small, rfl⟩, UInt8.ofNat_toNat]

theorem mapM_octet (bytes : Bytes) : (bytes.map fun byte => toDecimal 3 byte.toNat).mapM octet = some bytes := by
  induction bytes with
  | nil => rfl
  | cons byte rest ih =>
    rw [List.map_cons, List.mapM_cons, octet_toDecimal, ih]
    rfl

theorem decimal_plain {byte c : UInt8} (member : c ∈ toDecimal 3 byte.toNat) : c ∈ ascii "0123456789" := by
  have small := byte.toNat_lt
  obtain ⟨-, digits, -⟩ := @toDecimal_spec 3 byte.toNat (by omega) (by decide)
  have table : ∀ index < 10, UInt8.ofNat (0x30 + index) ∈ ascii "0123456789" := by
    rw [show ascii "0123456789" = _ from ascii_ofList ['0', '1', '2', '3', '4', '5', '6', '7', '8', '9']]
    decide
  have digit := List.all_eq_true.mp digits c member
  rw [isDigit, Bool.and_eq_true, decide_eq_true_eq, decide_eq_true_eq, UInt8.le_iff_toNat_le, UInt8.le_iff_toNat_le] at digit
  change 48 ≤ c.toNat ∧ c.toNat ≤ 57 at digit
  have entry := table (c.toNat - 48) (by omega)
  rwa [show 0x30 + (c.toNat - 48) = c.toNat by omega, UInt8.ofNat_toNat] at entry

theorem splitOn_tail {separator : UInt8} {words : List Bytes} (some_ : words ≠ [])
    (plain : ∀ word ∈ words, separator ∉ word) : (joined separator words).tail.splitOn separator = words := by
  rcases words with _ | ⟨word, rest⟩
  · exact absurd rfl some_
  · exact splitOn_append_joined plain

theorem mem_tail_joined {separator : UInt8} {words : List Bytes} {c : UInt8}
    (member : c ∈ (joined separator words).tail) : c = separator ∨ ∃ word ∈ words, c ∈ word := by
  obtain ⟨word, listed, among⟩ := List.mem_flatMap.mp (List.mem_of_mem_tail member)
  rcases List.mem_cons.mp among with rfl | among
  · exact .inl rfl
  · exact .inr ⟨word, listed, among⟩

/-- A digit of a group gives back what it stands for. -/
theorem unhex_digit {digit : ℕ} (small : digit < 16) :
    unhex ((ascii "0123456789abcdef").getD digit 0) = some (UInt8.ofNat digit) ∧
      (ascii "0123456789abcdef").getD digit 0 ∈ ascii "0123456789abcdef" := by
  have table : ∀ index < 16, unhex ((ascii "0123456789abcdef").getD index 0) = some (UInt8.ofNat index) ∧
      (ascii "0123456789abcdef").getD index 0 ∈ ascii "0123456789abcdef" := by
    rw [show ascii "0123456789abcdef" = _ from
      ascii_ofList ['0', '1', '2', '3', '4', '5', '6', '7', '8', '9', 'a', 'b', 'c', 'd', 'e', 'f']]
    decide
  exact table digit small

theorem mapM_group {bytes : Bytes} (even : bytes.length % 2 = 0) :
    ∃ parts, (groups bytes).mapM group = some parts ∧ parts.flatten = bytes := by
  fun_induction groups bytes with
  | case1 high low rest ih =>
    rw [List.length_cons, List.length_cons] at even
    obtain ⟨parts, mapped, flat⟩ := ih (by omega)
    have upper := high.toNat_lt
    have lower := low.toNat_lt
    refine ⟨[high, low] :: parts, ?_, by rw [List.flatten_cons, flat]; rfl⟩
    have here : group ([high.toNat / 16, high.toNat % 16, low.toNat / 16, low.toNat % 16].map
        fun digit => (ascii "0123456789abcdef").getD digit 0) = some [high, low] := by
      obtain ⟨first, -⟩ := @unhex_digit (high.toNat / 16) (by omega)
      obtain ⟨second, -⟩ := @unhex_digit (high.toNat % 16) (by omega)
      obtain ⟨third, -⟩ := @unhex_digit (low.toNat / 16) (by omega)
      obtain ⟨fourth, -⟩ := @unhex_digit (low.toNat % 16) (by omega)
      simp only [List.map_cons, List.map_nil, group, first, second, third, fourth, Option.bind_eq_bind,
        Option.bind_some, nibbles]
    rw [List.mapM_cons, here, mapped]
    rfl
  | case2 bytes short =>
    match bytes with
    | [] => exact ⟨[], rfl, rfl⟩
    | [_] => cases even
    | _ :: _ :: _ => exact absurd rfl (short _ _ _)

theorem group_plain {bytes word : Bytes} (member : word ∈ groups bytes) :
    ∀ c ∈ word, c ∈ ascii "0123456789abcdef" := by
  fun_induction groups bytes with
  | case1 high low rest ih =>
    rcases List.mem_cons.mp member with rfl | later
    · have upper := high.toNat_lt
      have lower := low.toNat_lt
      intro c among
      obtain ⟨digit, listed, rfl⟩ := List.mem_map.mp among
      refine (unhex_digit ?_).2
      simp only [List.mem_cons, List.not_mem_nil, or_false] at listed
      omega
    · exact ih later
  | case2 bytes short => exact absurd member List.not_mem_nil

end PlainTexts

open PlainTexts in
def plainTexts : IpTexts where
  makeAddressV4 := makeAddressV4
  toStringV4 := toStringV4
  makeAddressV6 := makeAddressV6
  toStringV6 := toStringV6
  length_v4 := by
    intro text bytes made
    obtain ⟨parts, -, ended⟩ := Option.bind_eq_some_iff.mp made
    split_ifs at ended with size
    exact Option.some.inj ended ▸ size
  length_v6 := by
    intro text bytes made
    obtain ⟨parts, -, ended⟩ := Option.bind_eq_some_iff.mp made
    split_ifs at ended with size
    exact Option.some.inj ended ▸ size
  inverse_v4 := by
    intro bytes size
    unfold makeAddressV4 toStringV4
    rw [splitOn_tail, mapM_octet]
    · simp [size]
    · intro empty
      rw [List.map_eq_nil_iff.mp empty] at size
      cases size
    · intro word member dot
      obtain ⟨byte, -, rfl⟩ := List.mem_map.mp member
      exact absurd (decimal_plain dot) (by decide)
  inverse_v6 := by
    intro bytes size
    obtain ⟨parts, mapped, flat⟩ := @mapM_group bytes (by rw [size])
    unfold makeAddressV6 toStringV6
    rw [splitOn_tail, mapped]
    · rw [Option.bind_eq_bind, Option.bind_some, flat, if_pos size]
    · match bytes with
      | first :: second :: _ => simp [PlainTexts.groups]
      | [_] => cases size
    · intro word member colon
      exact absurd (group_plain member _ colon) (by decide)
  plain_v4 := by
    intro bytes size
    constructor
    · match bytes with
      | first :: _ :: _ => simp [toStringV4]
      | [_] => cases size
    · intro byte member
      rcases mem_tail_joined member with rfl | ⟨word, listed, among⟩
      · decide
      · obtain ⟨source, -, rfl⟩ := List.mem_map.mp listed
        have widened : ascii "0123456789" <+: ascii "0123456789." := ⟨[0x2e], by decide⟩
        exact widened.subset (decimal_plain among)
  plain_v6 := by
    intro bytes size
    constructor
    · match bytes with
      | first :: second :: _ => simp [toStringV6, PlainTexts.groups]
      | [_] => cases size
    · intro byte member
      rcases mem_tail_joined member with rfl | ⟨word, listed, among⟩
      · decide
      · have widened : ascii "0123456789abcdef" <+: ascii "0123456789abcdef:." := ⟨[0x3a, 0x2e], by decide⟩
        exact widened.subset (group_plain listed _ among)

end Libp2p.Multi
