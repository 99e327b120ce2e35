import Libp2p.Multi.Base64
import Libp2p.Multi.Converters

/-! # Multibase

A text in one of six encodings, with a character in front that tells which one it is. Lower case hexadecimal digits are
read back only if the text has a letter: the check of the case takes a text of decimal digits for an upper case one.
-/

namespace Libp2p.Multi

/-- Hexadecimal texts: what `qtils::Hex` writes in either case, and what `qtils::unhex` reads. -/
structure HexTexts where
  formatLower : Bytes → Bytes
  formatUpper : Bytes → Bytes
  unhex : Bytes → Option Bytes

def lowerDigit (digit : ℕ) : UInt8 := (ascii "0123456789abcdef").getD digit 0

def upperDigit (digit : ℕ) : UInt8 := (ascii "0123456789ABCDEF").getD digit 0

/-- Two digits for every byte, and the reader takes the digits of either case. -/
structure HexTexts.Lawful (hex : HexTexts) : Prop where
  lower : ∀ bytes, hex.formatLower bytes =
    bytes.flatMap fun byte => [lowerDigit (byte.toNat / 16), lowerDigit (byte.toNat % 16)]
  upper : ∀ bytes, hex.formatUpper bytes =
    bytes.flatMap fun byte => [upperDigit (byte.toNat / 16), upperDigit (byte.toNat % 16)]
  unhex_lower : ∀ bytes, hex.unhex (hex.formatLower bytes) = some bytes
  unhex_upper : ∀ bytes, hex.unhex (hex.formatUpper bytes) = some bytes

inductive MultibaseError where
  | unsupportedBase
  | inputTooShort
  | base (error : BaseError)
  | unhex
deriving DecidableEq, Repr

namespace Base16

def isUpper (c : UInt8) : Bool := 0x41 ≤ c && c ≤ 0x5a

def isAlpha (c : UInt8) : Bool := isUpper c || (0x61 ≤ c && c ≤ 0x7a)

def encodingCaseIsUpper (text : Bytes) : Bool := text.all fun c => ! isAlpha c || isUpper c

variable (hex : HexTexts)

def encodeBase16Upper (bytes : Bytes) : Bytes := hex.formatUpper bytes

def encodeBase16Lower (bytes : Bytes) : Bytes := hex.formatLower bytes

def unhex (text : Bytes) : Except MultibaseError Bytes :=
  match hex.unhex text with
  | none => .error .unhex
  | some bytes => .ok bytes

def decodeBase16Upper (text : Bytes) : Except MultibaseError Bytes :=
  if ! encodingCaseIsUpper text then .error (.base .nonUppercaseInput) else unhex hex text

def decodeBase16Lower (text : Bytes) : Except MultibaseError Bytes :=
  if encodingCaseIsUpper text then .error (.base .nonLowercaseInput) else unhex hex text

end Base16

namespace MultibaseCodec

inductive Encoding where
  | base16Lower
  | base16Upper
  | base32Lower
  | base32Upper
  | base58
  | base64
deriving DecidableEq, Repr

/-- The value of the enumeration. -/
def Encoding.char : Encoding → UInt8
  | .base16Lower => 0x66
  | .base16Upper => 0x46
  | .base32Lower => 0x62
  | .base32Upper => 0x42
  | .base58 => 0x7a
  | .base64 => 0x6d

def encodingByChar (ch : UInt8) : Option Encoding :=
  if ch = 0x66 then some .base16Lower
  else if ch = 0x46 then some .base16Upper
  else if ch = 0x62 then some .base32Lower
  else if ch = 0x42 then some .base32Upper
  else if ch = 0x7a then some .base58
  else if ch = 0x6d then some .base64
  else none

variable (hex : HexTexts)

/-- The encoding functions of `codecs`. -/
def encodeWith : Encoding → Bytes → Bytes
  | .base16Upper => Base16.encodeBase16Upper hex
  | .base16Lower => Base16.encodeBase16Lower hex
  | .base32Upper => Base32.encodeBase32Upper
  | .base32Lower => Base32.encodeBase32Lower
  | .base58 => Base58.encodeBase58
  | .base64 => Base64.encodeBase64

/-- The decoding functions of `codecs`. -/
def decodeWith : Encoding → Bytes → Except MultibaseError Bytes
  | .base16Upper, text => Base16.decodeBase16Upper hex text
  | .base16Lower, text => Base16.decodeBase16Lower hex text
  | .base32Upper, text => (Base32.decodeBase32Upper text).mapError .base
  | .base32Lower, text => (Base32.decodeBase32Lower text).mapError .base
  | .base58, text =>
    match Base58.decodeBase58 text with
    | none => .error (.base .invalidBase58Input)
    | some bytes => .ok bytes
  | .base64, text => (Base64.decodeBase64 text).mapError .base

def encode (bytes : Bytes) (encoding : Encoding) : Bytes :=
  if bytes = [] then [] else encoding.char :: encodeWith hex encoding bytes

def decode (text : Bytes) : Except MultibaseError Bytes :=
  match text with
  | [] | [_] => .error .inputTooShort
  | ch :: rest =>
    match encodingByChar ch with
    | none => .error .unsupportedBase
    | some encodingBase => decodeWith hex encodingBase rest

theorem encodingByChar_char (encoding : Encoding) : encodingByChar encoding.char = some encoding := by
  cases encoding <;> rfl

section RoundTrip

variable {hex : HexTexts} {bytes : Bytes} {encoding : Encoding}

theorem encodeBase32_ne_nil {mode : Base32.Base32Mode} (nonempty : bytes ≠ []) : Base32.encodeBase32 mode bytes ≠ [] := by
  intro empty
  have decoded := @Base32.decodeBase32_encodeBase32 mode bytes
  rw [empty] at decoded
  exact nonempty (Except.ok.inj decoded).symm

theorem encodeWith_ne_nil (lawful : hex.Lawful) (nonempty : bytes ≠ []) : encodeWith hex encoding bytes ≠ [] := by
  obtain ⟨byte, rest, rfl⟩ := List.exists_cons_of_ne_nil nonempty
  cases encoding with
  | base16Lower =>
    change hex.formatLower (byte :: rest) ≠ []
    rw [lawful.lower]
    simp
  | base16Upper =>
    change hex.formatUpper (byte :: rest) ≠ []
    rw [lawful.upper]
    simp
  | base32Lower => exact encodeBase32_ne_nil nonempty
  | base32Upper => exact encodeBase32_ne_nil nonempty
  | base58 => exact mt Base58.encodeBase58_eq_nil.mp nonempty
  | base64 =>
    intro empty
    have decoded := Base64.decodeBase64_encodeBase64 (byte :: rest)
    rw [show Base64.encodeBase64 (byte :: rest) = [] from empty] at decoded
    cases decoded

/-- What was encoded is decoded with the function of the same encoding. -/
theorem decode_encode (nonempty : bytes ≠ []) (written : encodeWith hex encoding bytes ≠ []) :
    decode hex (encode hex bytes encoding) = decodeWith hex encoding (encodeWith hex encoding bytes) := by
  obtain ⟨first, rest, text⟩ := List.exists_cons_of_ne_nil written
  rw [encode, if_neg nonempty, text, decode, encodingByChar_char]
  simp

/-- Base 32 does not depend on hexadecimal texts. -/
theorem decode_encode_base32Lower (nonempty : bytes ≠ []) : decode hex (encode hex bytes .base32Lower) = .ok bytes := by
  have written : encodeWith hex .base32Lower bytes ≠ [] := encodeBase32_ne_nil nonempty
  rw [decode_encode nonempty written]
  exact congrArg (Except.mapError MultibaseError.base) (@Base32.decodeBase32_encodeBase32 .lower bytes)

theorem lowerDigits_eq : ascii "0123456789abcdef" =
    [0x30, 0x31, 0x32, 0x33, 0x34, 0x35, 0x36, 0x37, 0x38, 0x39, 0x61, 0x62, 0x63, 0x64, 0x65, 0x66] :=
  ascii_ofList ['0', '1', '2', '3', '4', '5', '6', '7', '8', '9', 'a', 'b', 'c', 'd', 'e', 'f']

theorem upperDigits_eq : ascii "0123456789ABCDEF" =
    [0x30, 0x31, 0x32, 0x33, 0x34, 0x35, 0x36, 0x37, 0x38, 0x39, 0x41, 0x42, 0x43, 0x44, 0x45, 0x46] :=
  ascii_ofList ['0', '1', '2', '3', '4', '5', '6', '7', '8', '9', 'A', 'B', 'C', 'D', 'E', 'F']

/-- What the two kinds of digits are taken for. -/
theorem digits_checked : ∀ index : Fin 16,
    ((! Base16.isAlpha (lowerDigit index.val) || Base16.isUpper (lowerDigit index.val)) = true ↔ index.val < 10) ∧
      (! Base16.isAlpha (upperDigit index.val) || Base16.isUpper (upperDigit index.val)) = true ∧
      Converters.unhex (lowerDigit index.val) = some (UInt8.ofNat index.val) ∧
      Converters.unhex (upperDigit index.val) = some (UInt8.ofNat index.val) := by
  unfold lowerDigit upperDigit
  rw [lowerDigits_eq, upperDigits_eq]
  decide

/-- A text of lower case digits has no letter exactly when it passes for one of upper case. -/
theorem encodingCaseIsUpper_formatLower (lawful : hex.Lawful) :
    Base16.encodingCaseIsUpper (hex.formatLower bytes) = true ↔
      ∀ byte ∈ bytes, byte.toNat / 16 < 10 ∧ byte.toNat % 16 < 10 := by
  rw [lawful.lower, Base16.encodingCaseIsUpper, List.all_flatMap, List.all_eq_true]
  refine forall₂_congr fun byte _ => ?_
  obtain ⟨high, -⟩ := digits_checked ⟨byte.toNat / 16, by have := byte.toNat_lt; omega⟩
  obtain ⟨low, -⟩ := digits_checked ⟨byte.toNat % 16, Nat.mod_lt _ (by decide)⟩
  simp only [List.all_cons, List.all_nil, Bool.and_true, Bool.and_eq_true]
  exact and_congr high low

theorem encodingCaseIsUpper_formatUpper (lawful : hex.Lawful) :
    Base16.encodingCaseIsUpper (hex.formatUpper bytes) = true := by
  rw [lawful.upper, Base16.encodingCaseIsUpper, List.all_flatMap, List.all_eq_true]
  intro byte _
  obtain ⟨-, high, -⟩ := digits_checked ⟨byte.toNat / 16, by have := byte.toNat_lt; omega⟩
  obtain ⟨-, low, -⟩ := digits_checked ⟨byte.toNat % 16, Nat.mod_lt _ (by decide)⟩
  simp only [List.all_cons, List.all_nil, Bool.and_true, Bool.and_eq_true]
  exact ⟨high, low⟩

/-- Every encoding is undone, except that of a text of decimal digits as lower case hexadecimal digits. -/
theorem decode_encode_iff (lawful : hex.Lawful) (nonempty : bytes ≠ []) (encoding : Encoding) :
    decode hex (encode hex bytes encoding) = .ok bytes ↔
      (encoding = .base16Lower → ∃ byte ∈ bytes, 10 ≤ byte.toNat / 16 ∨ 10 ≤ byte.toNat % 16) := by
  rw [decode_encode nonempty (encodeWith_ne_nil lawful nonempty)]
  cases encoding with
  | base16Lower =>
    have upper : Base16.encodingCaseIsUpper (hex.formatLower bytes) = true ↔
        ∀ byte ∈ bytes, byte.toNat / 16 < 10 ∧ byte.toNat % 16 < 10 := encodingCaseIsUpper_formatLower lawful
    change Base16.decodeBase16Lower hex (hex.formatLower bytes) = _ ↔ _
    unfold Base16.decodeBase16Lower Base16.unhex
    rw [lawful.unhex_lower]
    by_cases digits : Base16.encodingCaseIsUpper (hex.formatLower bytes) = true
    · rw [if_pos digits]
      refine iff_of_false (fun impossible => by cases impossible) fun letter => ?_
      obtain ⟨byte, member, large⟩ := letter rfl
      have small := upper.mp digits byte member
      omega
    · rw [if_neg digits]
      refine iff_of_true rfl fun _ => ?_
      by_contra none
      refine digits (upper.mpr fun byte member => ?_)
      by_contra large
      exact none ⟨byte, member, by omega⟩
  | base16Upper =>
    refine iff_of_true ?_ (fun other => by cases other)
    change Base16.decodeBase16Upper hex (hex.formatUpper bytes) = _
    unfold Base16.decodeBase16Upper Base16.unhex
    rw [encodingCaseIsUpper_formatUpper lawful, lawful.unhex_upper]
    rfl
  | base32Lower =>
    refine iff_of_true ?_ (fun other => by cases other)
    exact congrArg (Except.mapError MultibaseError.base) (@Base32.decodeBase32_encodeBase32 .lower bytes)
  | base32Upper =>
    refine iff_of_true ?_ (fun other => by cases other)
    exact congrArg (Except.mapError MultibaseError.base) (@Base32.decodeBase32_encodeBase32 .upper bytes)
  | base58 =>
    refine iff_of_true ?_ (fun other => by cases other)
    dsimp only [encodeWith, decodeWith]
    rw [Base58.decode_encode]
  | base64 =>
    refine iff_of_true ?_ (fun other => by cases other)
    exact congrArg (Except.mapError MultibaseError.base) (Base64.decodeBase64_encodeBase64 bytes)

end RoundTrip

section Samples

def plainUnhex : Bytes → Option Bytes
  | [] => some []
  | [_] => none
  | first :: second :: rest => do
    let high ← Converters.unhex first
    let low ← Converters.unhex second
    let bytes ← plainUnhex rest
    return (high * 16 + low) :: bytes

/-- Hexadecimal texts read pair by pair. -/
def plainHex : HexTexts where
  formatLower bytes := bytes.flatMap fun byte => [lowerDigit (byte.toNat / 16), lowerDigit (byte.toNat % 16)]
  formatUpper bytes := bytes.flatMap fun byte => [upperDigit (byte.toNat / 16), upperDigit (byte.toNat % 16)]
  unhex := plainUnhex

theorem plainUnhex_flatMap {digit : ℕ → UInt8}
    (table : ∀ index : Fin 16, Converters.unhex (digit index.val) = some (UInt8.ofNat index.val)) (bytes : Bytes) :
    plainUnhex (bytes.flatMap fun byte => [digit (byte.toNat / 16), digit (byte.toNat % 16)]) = some bytes := by
  induction bytes with
  | nil => rfl
  | cons byte rest ih =>
    have high := table ⟨byte.toNat / 16, by have := byte.toNat_lt; omega⟩
    have low := table ⟨byte.toNat % 16, Nat.mod_lt _ (by decide)⟩
    have value : UInt8.ofNat (byte.toNat / 16) * 16 + UInt8.ofNat (byte.toNat % 16) = byte := by
      apply UInt8.toNat_inj.mp
      rw [UInt8.toNat_add, UInt8.toNat_mul, UInt8.toNat_ofNat', UInt8.toNat_ofNat']
      change (byte.toNat / 16 % 256 * 16 % 256 + byte.toNat % 16 % 256) % 256 = byte.toNat
      have := byte.toNat_lt
      omega
    rw [List.flatMap_cons, List.cons_append, List.cons_append, List.nil_append, plainUnhex, high, low, ih]
    exact congrArg (fun first => some (first :: rest)) value

theorem lawful_plainHex : plainHex.Lawful where
  lower _ := rfl
  upper _ := rfl
  unhex_lower := plainUnhex_flatMap fun index => (digits_checked index).2.2.1
  unhex_upper := plainUnhex_flatMap fun index => (digits_checked index).2.2.2

theorem decode_encode_letter : decode plainHex (encode plainHex [0x1a] .base16Lower) = .ok [0x1a] :=
  (decode_encode_iff lawful_plainHex (by decide) .base16Lower).mpr fun _ => by decide

/-- A byte of two decimal digits. -/
theorem decode_encode_digits : decode plainHex (encode plainHex [0x12] .base16Lower) ≠ .ok [0x12] := by decide

end Samples

end MultibaseCodec

end Libp2p.Multi
