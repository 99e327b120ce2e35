import Libp2p.Basic.Varint
import Libp2p.Library.Search
import Mathlib.Data.Nat.Digits.Lemmas
import Mathlib.Data.List.TakeWhile

/-! # Base58

Encoder and decoder convert a number between base 256 and base 58 by repeated multiplication, in a buffer of fixed size
whose digits are kept with the least significant one first. Zero bytes in front are written as the digit `1`. The sizes
of the buffers suffice, so that what was encoded is decoded again.
-/

namespace Libp2p.Multi

/-- The bytes of a text of ASCII characters. -/
def ascii (text : String) : Bytes := text.toList.map fun character => UInt8.ofNat character.toNat

theorem ascii_ofList (characters : List Char) :
    ascii (String.ofList characters) = characters.map fun character => UInt8.ofNat character.toNat := by
  rw [ascii, String.toList_ofList]

namespace Base58

open Library

def pszBase58 : Bytes := ascii "123456789ABCDEFGHJKLMNPQRSTUVWXYZabcdefghijkmnopqrstuvwxyz"

def mapBase58 : List ℤ :=
  [-1, -1, -1, -1, -1, -1, -1, -1, -1, -1, -1, -1, -1, -1, -1, -1,
   -1, -1, -1, -1, -1, -1, -1, -1, -1, -1, -1, -1, -1, -1, -1, -1,
   -1, -1, -1, -1, -1, -1, -1, -1, -1, -1, -1, -1, -1, -1, -1, -1,
   -1, 0, 1, 2, 3, 4, 5, 6, 7, 8, -1, -1, -1, -1, -1, -1,
   -1, 9, 10, 11, 12, 13, 14, 15, 16, -1, 17, 18, 19, 20, 21, -1,
   22, 23, 24, 25, 26, 27, 28, 29, 30, 31, 32, -1, -1, -1, -1, -1,
   -1, 33, 34, 35, 36, 37, 38, 39, 40, 41, 42, 43, -1, 44, 45, 46,
   47, 48, 49, 50, 51, 52, 53, 54, 55, 56, 57, -1, -1, -1, -1, -1] ++ List.replicate 128 (-1)

def isSpace (byte : UInt8) : Bool := byte ∈ [0x20, 0x0c, 0x0a, 0x0d, 0x09, 0x0b]

/-- The inner loop of both directions: the number in the buffer is multiplied and a carry is added. Digits from `length`
on are zero, and the loop ends there once nothing is carried. It returns the digits, how many of them are in use
and what does not fit. -/
def mulAdd (factor base length : ℕ) : ℕ → ℕ → List ℕ → List ℕ × ℕ × ℕ
  | carry, index, [] => ([], index, carry)
  | carry, index, digit :: rest =>
    if carry ≠ 0 ∨ index < length then
      let total := carry + factor * digit
      let (rest, used, carry) := mulAdd factor base length (total / base) (index + 1) rest
      (total % base :: rest, used, carry)
    else (digit :: rest, index, carry)

/-- The outer loop of the encoder. -/
def encodeLoop : Bytes → List ℕ → ℕ → List ℕ × ℕ
  | [], b58, length => (b58, length)
  | byte :: rest, b58, length =>
    let (b58, length, _) := mulAdd 256 58 length byte.toNat 0 b58
    encodeLoop rest b58 length

/-- What does not fit into the buffer of the encoder, at each byte. The source drops it. -/
def encodeCarries : Bytes → List ℕ → ℕ → List ℕ
  | [], _, _ => []
  | byte :: rest, b58, length =>
    let (b58, length, carry) := mulAdd 256 58 length byte.toNat 0 b58
    carry :: encodeCarries rest b58 length

/-- The digits in use, most significant first and without leading zeros. -/
def significant (digits : List ℕ) (length : ℕ) : List ℕ := (digits.take length).reverse.dropWhile (· = 0)

def encodeBase58 (bytes : Bytes) : Bytes :=
  let zeroes := (bytes.takeWhile (· = 0)).length
  let bytes := bytes.dropWhile (· = 0)
  let size := bytes.length * 138 / 100 + 1
  let (b58, length) := encodeLoop bytes (List.replicate size 0) 0
  List.replicate zeroes 0x31 ++ (significant b58 length).map fun digit => pszBase58.getD digit 0

/-- The outer loop of the decoder: a character that is not a digit, or a number that does not fit, is refused. -/
def decodeLoop : Bytes → List ℕ → ℕ → Option (List ℕ × ℕ)
  | [], b256, length => some (b256, length)
  | character :: rest, b256, length =>
    let carry := mapBase58.getD character.toNat (-1)
    if carry = -1 then none
    else
      let (b256, length, carry) := mulAdd 58 256 length carry.toNat 0 b256
      if carry ≠ 0 then none else decodeLoop rest b256 length

/-- What the decoder makes of the characters in front of the terminator; it skips the spaces around the digits. -/
def decodeImpl (psz : Bytes) : Option Bytes := do
  let psz := psz.dropWhile isSpace
  let zeroes := (psz.takeWhile (· = 0x31)).length
  let psz := psz.dropWhile (· = 0x31)
  let size := psz.length * 733 / 1000 + 1
  let (b256, length) ← decodeLoop (psz.takeWhile fun character => ! isSpace character) (List.replicate size 0) 0
  if (psz.dropWhile fun character => ! isSpace character).dropWhile isSpace ≠ [] then none
  else some (List.replicate zeroes 0 ++ (significant b256 length).map UInt8.ofNat)

/-- The pointer that is passed on to `decodeImpl` carries no length: the text ends at its first zero byte. -/
def decodeBase58 (text : Bytes) : Option Bytes := decodeImpl (text.takeWhile (· ≠ 0))

section Alphabet

theorem pszBase58_eq : pszBase58 =
    [0x31, 0x32, 0x33, 0x34, 0x35, 0x36, 0x37, 0x38, 0x39, 0x41, 0x42, 0x43, 0x44, 0x45, 0x46, 0x47, 0x48, 0x4a, 0x4b, 0x4c,
      0x4d, 0x4e, 0x50, 0x51, 0x52, 0x53, 0x54, 0x55, 0x56, 0x57, 0x58, 0x59, 0x5a, 0x61, 0x62, 0x63, 0x64, 0x65, 0x66,
      0x67, 0x68, 0x69, 0x6a, 0x6b, 0x6d, 0x6e, 0x6f, 0x70, 0x71, 0x72, 0x73, 0x74, 0x75, 0x76, 0x77, 0x78, 0x79, 0x7a] :=
  ascii_ofList ['1', '2', '3', '4', '5', '6', '7', '8', '9', 'A', 'B', 'C', 'D', 'E', 'F', 'G', 'H', 'J', 'K', 'L', 'M',
    'N', 'P', 'Q', 'R', 'S', 'T', 'U', 'V', 'W', 'X', 'Y', 'Z', 'a', 'b', 'c', 'd', 'e', 'f', 'g', 'h', 'i', 'j', 'k', 'm',
    'n', 'o', 'p', 'q', 'r', 's', 't', 'u', 'v', 'w', 'x', 'y', 'z']

/-- The entries of the table are the digits with their characters. -/
theorem entries_mapBase58 : (mapBase58.zipIdx.filter fun entry => entry.1 ≠ -1) =
    pszBase58.zipIdx.map fun entry => ((entry.2 : ℤ), entry.1.toNat) := by
  rw [pszBase58_eq]
  decide

/-- The character of a digit stands for it. -/
theorem map_digit {digit : ℕ} (small : digit < 58) :
    mapBase58.getD (pszBase58.getD digit 0).toNat (-1) = digit := by
  refine @getD_of_entries _ _ _ _ UInt8.toNat Nat.cast _ _ _ (fun entry listed => ?_) (by rwa [pszBase58_eq])
  rw [← entries_mapBase58] at listed
  exact List.mem_of_mem_filter listed

/-- Characters of the alphabet are letters and digits. -/
theorem pszBase58_plain : ∀ character ∈ pszBase58, character ≠ 0 ∧ isSpace character = false ∧ character ≠ 0x2f := by
  rw [pszBase58_eq]
  decide +kernel

theorem getD_mem_pszBase58 {digit : ℕ} (small : digit < 58) : pszBase58.getD digit 0 ∈ pszBase58 := by
  have inside : digit < pszBase58.length := by rwa [pszBase58_eq]
  rw [List.getD_eq_getElem?_getD, List.getElem?_eq_getElem inside, Option.getD_some]
  exact List.getElem_mem inside

/-- Texts over the alphabet are texts of digits. -/
theorem exists_digits {text : Bytes} (plain : ∀ character ∈ text, character ∈ pszBase58) :
    ∃ digits : List ℕ, (∀ digit ∈ digits, digit < 58) ∧ text = digits.map fun digit => pszBase58.getD digit 0 := by
  induction text with
  | nil => exact ⟨[], by simp, rfl⟩
  | cons character rest ih =>
    obtain ⟨listed, plain⟩ := List.forall_mem_cons.mp plain
    obtain ⟨digits, small, rfl⟩ := ih plain
    obtain ⟨digit, inside, read⟩ := List.getElem_of_mem listed
    have size : pszBase58.length = 58 := by rw [pszBase58_eq]; rfl
    refine ⟨digit :: digits, List.forall_mem_cons.mpr ⟨size ▸ inside, small⟩, ?_⟩
    rw [List.map_cons, List.getD_eq_getElem?_getD, List.getElem?_eq_getElem inside, Option.getD_some, read]

/-- Only the digit zero is written as a one. -/
theorem getD_eq_one_iff {digit : ℕ} (small : digit < 58) : pszBase58.getD digit 0 = 0x31 ↔ digit = 0 := by
  constructor
  · intro one
    have back := map_digit small
    rw [one] at back
    exact (Int.ofNat_inj.mp back).symm
  · rintro rfl
    rw [pszBase58_eq]
    rfl

end Alphabet

section Carrying

variable {factor base length carry index : ℕ} {digits : List ℕ}

/-- What the inner loop does to the number that its buffer stands for. -/
theorem mulAdd_spec (positive : 0 < base) (small : ∀ digit ∈ digits, digit < base)
    (zeros : ∀ digit ∈ digits.drop (length - index), digit = 0) :
    let result := mulAdd factor base length carry index digits
    result.1.length = digits.length ∧ (∀ digit ∈ result.1, digit < base) ∧ index ≤ result.2.1 ∧
      (∀ digit ∈ result.1.drop (result.2.1 - index), digit = 0) ∧
      Nat.ofDigits base result.1 + base ^ digits.length * result.2.2 = factor * Nat.ofDigits base digits + carry := by
  induction digits generalizing carry index with
  | nil => simp [mulAdd]
  | cons digit rest ih =>
    by_cases going : carry ≠ 0 ∨ index < length
    · have smallRest : ∀ digit ∈ rest, digit < base := fun other member => small other (by simp [member])
      have zerosRest : ∀ digit ∈ rest.drop (length - (index + 1)), digit = 0 := by
        intro other member
        apply zeros
        by_cases inside : index < length
        · rw [show length - index = length - (index + 1) + 1 by omega, List.drop_succ_cons]
          exact member
        · rw [show length - index = 0 by omega, List.drop_zero]
          exact List.mem_cons_of_mem _ (List.drop_subset _ _ member)
      obtain ⟨size, digits, later, clear, value⟩ := @ih ((carry + factor * digit) / base) (index + 1) smallRest zerosRest
      rcases looped : mulAdd factor base length ((carry + factor * digit) / base) (index + 1) rest with ⟨out, used, left⟩
      have unfolded : mulAdd factor base length carry index (digit :: rest) =
          ((carry + factor * digit) % base :: out, used, left) := by
        rw [mulAdd, if_pos going]
        dsimp only
        rw [looped]
      rw [looped] at size digits later clear value
      dsimp only at size digits later clear value
      rw [unfolded]
      refine ⟨by simp [size], ?_, Nat.le_of_succ_le later, ?_, ?_⟩
      · exact List.forall_mem_cons.mpr ⟨Nat.mod_lt _ positive, digits⟩
      · dsimp only
        rw [show used - index = used - (index + 1) + 1 by omega, List.drop_succ_cons]
        exact clear
      · have split := Nat.mod_add_div (carry + factor * digit) base
        dsimp only
        rw [Nat.ofDigits_cons, Nat.ofDigits_cons, List.length_cons, pow_succ]
        calc (carry + factor * digit) % base + base * Nat.ofDigits base out + base ^ rest.length * base * left
            = (carry + factor * digit) % base +
                base * (Nat.ofDigits base out + base ^ rest.length * left) := by ring
          _ = (carry + factor * digit) % base + base * ((carry + factor * digit) / base) +
                base * (factor * Nat.ofDigits base rest) := by rw [value]; ring
          _ = factor * (digit + base * Nat.ofDigits base rest) + carry := by rw [split]; ring
    · have unfolded : mulAdd factor base length carry index (digit :: rest) = (digit :: rest, index, carry) := by
        rw [mulAdd, if_neg going]
      rw [not_or, not_not] at going
      rw [show length - index = 0 by omega, List.drop_zero] at zeros
      have zero : Nat.ofDigits base (digit :: rest) = 0 := by
        rw [List.eq_replicate_of_mem zeros, Nat.ofDigits_replicate_zero]
      rw [unfolded]
      refine ⟨rfl, small, le_rfl, ?_, ?_⟩
      · dsimp only
        rw [Nat.sub_self, List.drop_zero]
        exact zeros
      · dsimp only
        rw [zero, going.1]
        simp

/-- A number is multiplied and added to, as long as the result fits into the buffer. -/
structure Holds (base size value : ℕ) (digits : List ℕ) (length : ℕ) : Prop where
  size : digits.length = size
  small : ∀ digit ∈ digits, digit < base
  zeros : ∀ digit ∈ digits.drop length, digit = 0
  value : Nat.ofDigits base digits = value

theorem holds_zero {size : ℕ} (positive : 0 < base) : Holds base size 0 (List.replicate size 0) 0 where
  size := List.length_replicate
  small _ member := (List.eq_of_mem_replicate member).symm ▸ positive
  zeros _ member := List.eq_of_mem_replicate member
  value := Nat.ofDigits_replicate_zero

theorem Holds.mulAdd {size value : ℕ} (holds : Holds base size value digits length) (positive : 0 < base)
    (fits : factor * value + carry < base ^ size) :
    let result := mulAdd factor base length carry 0 digits
    Holds base size (factor * value + carry) result.1 result.2.1 ∧ result.2.2 = 0 := by
  obtain ⟨sized, small, later, clear, total⟩ :=
    @mulAdd_spec factor base length carry 0 digits positive holds.small holds.zeros
  rcases looped : Base58.mulAdd factor base length carry 0 digits with ⟨out, used, left⟩
  rw [looped] at sized small clear total
  dsimp only at sized small clear total ⊢
  rw [holds.value, holds.size] at total
  have none : left = 0 := by
    by_contra some_
    have large : base ^ size * 1 ≤ base ^ size * left := Nat.mul_le_mul_left _ (Nat.pos_of_ne_zero some_)
    omega
  refine ⟨⟨sized.trans holds.size, small, clear, ?_⟩, none⟩
  rw [none] at total
  simpa using total

/-- Without leading zeros, the digits of a number are determined by it. -/
theorem stripped_eq (base_ : 1 < base) (small : ∀ digit ∈ digits, digit < base) :
    digits.reverse.dropWhile (· = 0) = (Nat.digits base (Nat.ofDigits base digits)).reverse := by
  induction digits using List.reverseRecOn with
  | nil => simp
  | append_singleton front last ih =>
    rw [List.reverse_append, List.reverse_singleton, List.singleton_append]
    by_cases zero : last = 0
    · subst zero
      rw [List.dropWhile_cons_of_pos (by simp), Nat.ofDigits_append_zero]
      exact ih fun digit member => small digit (by simp [member])
    · rw [List.dropWhile_cons_of_neg (by simpa using zero), Nat.digits_ofDigits base base_ _ small]
      · simp
      · intro _
        simpa using zero

theorem Holds.significant {size value : ℕ} (holds : Holds base size value digits length) (base_ : 1 < base) :
    significant digits length = (Nat.digits base value).reverse := by
  have whole : Nat.ofDigits base (digits.take length) = value := by
    rw [← holds.value]
    conv_rhs => rw [← List.take_append_drop length digits]
    rw [List.eq_replicate_of_mem holds.zeros, Nat.ofDigits_append_replicate_zero]
  rw [Base58.significant, stripped_eq base_ fun digit member => holds.small digit (List.take_subset _ _ member), whole]

end Carrying

section Loops

/-- The number that symbols stand for, most significant first. -/
def number (base : ℕ) (symbols : List ℕ) : ℕ := symbols.foldl (fun value symbol => base * value + symbol) 0

theorem number_eq (base : ℕ) (symbols : List ℕ) : number base symbols = Nat.ofDigits base symbols.reverse := by
  induction symbols using List.reverseRecOn with
  | nil => rfl
  | append_singleton front last ih =>
    rw [number, List.foldl_append, List.reverse_append, List.reverse_singleton, List.singleton_append,
      Nat.ofDigits_cons, ← ih]
    exact add_comm _ _

/-- Going on from a number keeps its order of magnitude. -/
theorem foldl_lt {base size value : ℕ} {symbols : List ℕ} (fits : value < base ^ size)
    (small : ∀ symbol ∈ symbols, symbol < base) :
    symbols.foldl (fun value symbol => base * value + symbol) value < base ^ (size + symbols.length) := by
  induction symbols generalizing value size with
  | nil => simpa using fits
  | cons symbol rest ih =>
    obtain ⟨below, small⟩ := List.forall_mem_cons.mp small
    rw [List.foldl_cons, List.length_cons, show size + (rest.length + 1) = size + 1 + rest.length by omega]
    apply ih _ small
    calc base * value + symbol < base * value + base := Nat.add_lt_add_left below _
      _ = base * (value + 1) := by ring
      _ ≤ base * base ^ size := Nat.mul_le_mul_left _ fits
      _ = base ^ (size + 1) := by rw [pow_succ, mul_comm]

theorem le_foldl {base value : ℕ} {symbols : List ℕ} (positive : 0 < base) :
    value ≤ symbols.foldl (fun value symbol => base * value + symbol) value := by
  induction symbols generalizing value with
  | nil => exact le_rfl
  | cons symbol rest ih =>
    have grown : value ≤ base * value := Nat.le_mul_of_pos_left value positive
    exact (grown.trans (Nat.le_add_right _ symbol)).trans ih

theorem encodeLoop_holds {size value length : ℕ} {bytes : Bytes} {b58 : List ℕ} (holds : Holds 58 size value b58 length)
    (fits : (bytes.map UInt8.toNat).foldl (fun value symbol => 256 * value + symbol) value < 58 ^ size) :
    Holds 58 size ((bytes.map UInt8.toNat).foldl (fun value symbol => 256 * value + symbol) value)
      (encodeLoop bytes b58 length).1 (encodeLoop bytes b58 length).2 := by
  induction bytes generalizing value length b58 with
  | nil => exact holds
  | cons byte rest ih =>
    rw [List.map_cons, List.foldl_cons] at fits ⊢
    obtain ⟨next, -⟩ := holds.mulAdd (by decide) ((le_foldl (by decide)).trans_lt fits)
    exact ih next fits

theorem encodeCarries_zero {size value length : ℕ} {bytes : Bytes} {b58 : List ℕ} (holds : Holds 58 size value b58 length)
    (fits : (bytes.map UInt8.toNat).foldl (fun value symbol => 256 * value + symbol) value < 58 ^ size) :
    ∀ carry ∈ encodeCarries bytes b58 length, carry = 0 := by
  induction bytes generalizing value length b58 with
  | nil => exact fun _ member => absurd member List.not_mem_nil
  | cons byte rest ih =>
    rw [List.map_cons, List.foldl_cons] at fits
    obtain ⟨next, none⟩ := holds.mulAdd (by decide) ((le_foldl (by decide)).trans_lt fits)
    exact List.forall_mem_cons.mpr ⟨none, ih next fits⟩

theorem decodeLoop_holds {size value length : ℕ} {digits b256 : List ℕ} (holds : Holds 256 size value b256 length)
    (small : ∀ digit ∈ digits, digit < 58)
    (fits : digits.foldl (fun value symbol => 58 * value + symbol) value < 256 ^ size) :
    ∃ b256' length', decodeLoop (digits.map fun digit => pszBase58.getD digit 0) b256 length = some (b256', length') ∧
      Holds 256 size (digits.foldl (fun value symbol => 58 * value + symbol) value) b256' length' := by
  induction digits generalizing value length b256 with
  | nil => exact ⟨b256, length, rfl, holds⟩
  | cons digit rest ih =>
    obtain ⟨below, small⟩ := List.forall_mem_cons.mp small
    rw [List.foldl_cons] at fits
    obtain ⟨next, none⟩ := holds.mulAdd (by decide) ((le_foldl (by decide)).trans_lt fits)
    obtain ⟨b256', length', decoded, final⟩ := ih next small fits
    refine ⟨b256', length', ?_, final⟩
    have digits : mapBase58.getD (pszBase58.getD digit 0).toNat (-1) = digit := map_digit below
    rw [List.map_cons, decodeLoop]
    dsimp only
    rw [digits, if_neg (by omega), Int.toNat_natCast, if_neg (not_not.mpr none)]
    exact decoded

end Loops

section Sizes

/-- If `q` digits of one base fit into `p` of another one, any number of them fits at that rate, rounded up. -/
theorem pow_fits {base other p q : ℕ} (positive : 0 < other) (some_ : 0 < q) (rate : base ^ q ≤ other ^ p) (n : ℕ) :
    base ^ n ≤ other ^ (n * p / q + 1) := by
  have room : p * n ≤ (n * p / q + 1) * q := by
    rw [mul_comm p n, mul_comm _ q]
    exact (Nat.lt_mul_div_succ (n * p) some_).le
  refine (Nat.pow_le_pow_iff_left some_.ne').mp ?_
  calc (base ^ n) ^ q = (base ^ q) ^ n := by rw [← pow_mul, mul_comm, pow_mul]
    _ ≤ (other ^ p) ^ n := Nat.pow_le_pow_left rate n
    _ = other ^ (p * n) := (pow_mul other p n).symm
    _ ≤ other ^ ((n * p / q + 1) * q) := Nat.pow_le_pow_right positive room
    _ = (other ^ (n * p / q + 1)) ^ q := pow_mul _ _ _

/-- The buffer of the encoder is large enough. -/
theorem encode_fits (n : ℕ) : 256 ^ n ≤ 58 ^ (n * 138 / 100 + 1) :=
  pow_fits (by decide) (by decide) (by decide) n

/-- The buffer of the decoder is large enough. -/
theorem decode_fits (n : ℕ) : 58 ^ n ≤ 256 ^ (n * 733 / 1000 + 1) :=
  pow_fits (by decide) (by decide) (by decide +kernel) n

end Sizes

section Decoding

variable {digits : List ℕ} {zeroes : ℕ}

/-- A number begins with another digit than zero. -/
theorem head?_digits {base number : ℕ} : (Nat.digits base number).reverse.head? ≠ some 0 := by
  rcases Nat.eq_zero_or_pos number with rfl | positive
  · simp
  · have nonempty : Nat.digits base number ≠ [] := Nat.digits_ne_nil_iff_ne_zero.mpr positive.ne'
    rw [List.head?_reverse, List.getLast?_eq_some_getLast nonempty]
    intro zero
    exact Nat.getLast_digit_ne_zero base positive.ne' (Option.some.inj zero)

/-- The first of these digits is not zero, so that its character is not a one. -/
theorem takeWhile_digits (small : ∀ digit ∈ digits, digit < 58) (leading : digits.head? ≠ some 0) :
    (digits.map fun digit => pszBase58.getD digit 0).takeWhile (· = 0x31) = [] := by
  cases digits with
  | nil => rfl
  | cons first rest =>
    have nonzero : first ≠ 0 := fun zero => leading (by rw [zero]; rfl)
    rw [List.map_cons, List.takeWhile_cons_of_neg]
    rw [decide_eq_true_eq, getD_eq_one_iff (small first List.mem_cons_self)]
    exact nonzero

theorem dropWhile_of_takeWhile_nil {α : Type} {condition : α → Bool} {list : List α}
    (none : list.takeWhile condition = []) : list.dropWhile condition = list := by
  have parted := @List.takeWhile_append_dropWhile α condition list
  rwa [none, List.nil_append] at parted

/-- Spaces, then ones, then digits that begin with another one, then spaces: a text that is decoded to zeros and to the
number of the digits. -/
theorem decodeImpl_digits {front back : Bytes} (small : ∀ digit ∈ digits, digit < 58) (leading : digits.head? ≠ some 0)
    (before : ∀ character ∈ front, isSpace character = true) (after : ∀ character ∈ back, isSpace character = true) :
    decodeImpl (front ++ ((List.replicate zeroes 0x31 ++ digits.map fun digit => pszBase58.getD digit 0) ++ back)) =
      some (List.replicate zeroes 0 ++ (Nat.digits 256 (number 58 digits)).reverse.map UInt8.ofNat) := by
  set tail := digits.map fun digit => pszBase58.getD digit 0 with tailed
  have visible : ∀ character ∈ List.replicate zeroes (0x31 : UInt8) ++ tail, isSpace character = false := by
    intro character member
    rcases List.mem_append.mp member with one | later
    · rw [List.eq_of_mem_replicate one]
      rfl
    · obtain ⟨digit, listed, rfl⟩ := List.mem_map.mp later
      exact (pszBase58_plain _ (getD_mem_pszBase58 (small digit listed))).2.1
  have spaces : back.dropWhile isSpace = [] := List.dropWhile_eq_nil_iff.mpr after
  have stop : back.takeWhile (fun character => ! isSpace character) = [] := by
    rw [List.takeWhile_eq_nil_iff]
    intro nonempty
    simp [after _ (List.getElem_mem nonempty)]
  have ones : ∀ character ∈ List.replicate zeroes (0x31 : UInt8), decide (character = 0x31) = true :=
    fun character member => decide_eq_true (List.eq_of_mem_replicate member)
  have none : (tail ++ back).takeWhile (· = 0x31) = [] := by
    have first := takeWhile_digits small leading
    cases symbols : tail with
    | nil =>
      rw [List.nil_append, List.takeWhile_eq_nil_iff]
      intro nonempty one
      have space := after (back.get ⟨0, nonempty⟩) (List.get_mem _ _)
      rw [of_decide_eq_true one] at space
      exact absurd space (by decide)
    | cons symbol rest =>
      rw [← tailed, symbols, List.takeWhile_eq_nil_iff] at first
      rw [List.cons_append, List.takeWhile_eq_nil_iff]
      exact fun _ => first (Nat.zero_lt_succ _)
  have skipped : (front ++ ((List.replicate zeroes 0x31 ++ tail) ++ back)).dropWhile isSpace =
      List.replicate zeroes 0x31 ++ (tail ++ back) ∨ (zeroes = 0 ∧ tail = [] ∧
        (front ++ ((List.replicate zeroes 0x31 ++ tail) ++ back)).dropWhile isSpace = []) := by
    rw [List.dropWhile_append_of_pos before]
    cases word : List.replicate zeroes 0x31 ++ tail with
    | nil =>
      rw [List.append_eq_nil_iff, List.replicate_eq_nil_iff] at word
      exact .inr ⟨word.1, word.2, spaces⟩
    | cons first rest =>
      have plain : ¬ isSpace first = true := by simp [visible first (by simp [word])]
      rw [List.cons_append, List.dropWhile_cons_of_neg plain, ← List.cons_append, ← word, List.append_assoc]
      exact .inl rfl
  rcases skipped with started | ⟨rfl, empty, finished⟩
  · have heads : (List.replicate zeroes 0x31 ++ (tail ++ back)).takeWhile (· = 0x31) = List.replicate zeroes 0x31 := by
      rw [List.takeWhile_append_of_pos ones, none, List.append_nil]
    have rest : (List.replicate zeroes 0x31 ++ (tail ++ back)).dropWhile (· = 0x31) = tail ++ back := by
      rw [List.dropWhile_append_of_pos ones, dropWhile_of_takeWhile_nil none]
    have nonspace : ∀ character ∈ tail, (! isSpace character) = true := fun character member => by
      simp [visible character (List.mem_append_right _ member)]
    have symbols : (tail ++ back).takeWhile (fun character => ! isSpace character) = tail := by
      rw [List.takeWhile_append_of_pos nonspace, stop, List.append_nil]
    have ended : ((tail ++ back).dropWhile fun character => ! isSpace character).dropWhile isSpace = [] := by
      rw [List.dropWhile_append_of_pos nonspace, dropWhile_of_takeWhile_nil stop, spaces]
    have fits : number 58 digits < 256 ^ ((tail ++ back).length * 733 / 1000 + 1) := by
      have bound := @foldl_lt 58 0 0 digits (by decide) small
      rw [Nat.zero_add, ← List.length_map fun digit => pszBase58.getD digit 0] at bound
      refine bound.trans_le ((Nat.pow_le_pow_right (by decide) ?_).trans (decode_fits _))
      rw [List.length_append]
      exact Nat.le_add_right _ _
    obtain ⟨b256, length, decoded, held⟩ := decodeLoop_holds (holds_zero (by decide)) small fits
    unfold decodeImpl
    dsimp only
    rw [started, heads, rest, symbols, ended, decoded, List.length_replicate]
    simp only [ne_eq, not_true, if_false, Option.bind_eq_bind, Option.bind_some]
    rw [held.significant (by decide)]
    rfl
  · have digitless : digits = [] := List.map_eq_nil_iff.mp empty
    rw [decodeImpl]
    dsimp only
    rw [finished, digitless]
    rfl

/-- A text of ones and of digits that begin with another one is decoded to zeros and to the number of the digits. -/
theorem decode_digits (small : ∀ digit ∈ digits, digit < 58) (leading : digits.head? ≠ some 0) :
    decodeBase58 (List.replicate zeroes 0x31 ++ digits.map fun digit => pszBase58.getD digit 0) =
      some (List.replicate zeroes 0 ++ (Nat.digits 256 (number 58 digits)).reverse.map UInt8.ofNat) := by
  have whole : (List.replicate zeroes (0x31 : UInt8) ++ digits.map fun digit => pszBase58.getD digit 0).takeWhile (· ≠ 0) =
      List.replicate zeroes 0x31 ++ digits.map fun digit => pszBase58.getD digit 0 := by
    rw [List.takeWhile_eq_self_iff]
    intro character member
    rcases List.mem_append.mp member with one | later
    · rw [List.eq_of_mem_replicate one]
      rfl
    · obtain ⟨digit, listed, rfl⟩ := List.mem_map.mp later
      exact decide_eq_true (pszBase58_plain _ (getD_mem_pszBase58 (small digit listed))).1
  have decoded := @decodeImpl_digits digits zeroes [] [] small leading (by simp) (by simp)
  rw [List.nil_append, List.append_nil] at decoded
  rw [decodeBase58, whole, decoded]

end Decoding

section RoundTrip

variable {bytes : Bytes}

/-- The number that bytes without leading zeros stand for. -/
def value (bytes : Bytes) : ℕ := number 256 ((bytes.dropWhile (· = 0)).map UInt8.toNat)

/-- The number fits into the buffer of the encoder. -/
theorem value_fits : value bytes < 58 ^ ((bytes.dropWhile (· = 0)).length * 138 / 100 + 1) := by
  have small : ∀ symbol ∈ (bytes.dropWhile (· = 0)).map UInt8.toNat, symbol < 256 := by
    intro symbol member
    obtain ⟨byte, -, rfl⟩ := List.mem_map.mp member
    exact byte.toNat_lt
  have bound := @foldl_lt 256 0 0 _ (by decide) small
  rw [Nat.zero_add, List.length_map] at bound
  exact bound.trans_le (encode_fits _)

/-- The text of bytes: ones for the zeros in front, and the digits of the number. -/
theorem encodeBase58_eq : encodeBase58 bytes = List.replicate (bytes.takeWhile (· = 0)).length 0x31 ++
    (Nat.digits 58 (value bytes)).reverse.map fun digit => pszBase58.getD digit 0 := by
  have held := encodeLoop_holds (holds_zero (by decide)) (@value_fits bytes)
  rw [encodeBase58]
  dsimp only
  rw [held.significant (by decide)]
  rfl

theorem digits_small {digit : ℕ} (member : digit ∈ (Nat.digits 58 (value bytes)).reverse) : digit < 58 :=
  Nat.digits_lt_base (by decide) (List.mem_reverse.mp member)

/-- Every character of an encoded text is one of the alphabet. -/
theorem encoded_plain {character : UInt8} (member : character ∈ encodeBase58 bytes) :
    character ≠ 0 ∧ isSpace character = false ∧ character ≠ 0x2f := by
  rw [encodeBase58_eq] at member
  rcases List.mem_append.mp member with one | later
  · rw [List.eq_of_mem_replicate one]
    decide
  · obtain ⟨digit, listed, rfl⟩ := List.mem_map.mp later
    exact pszBase58_plain _ (getD_mem_pszBase58 (digits_small listed))

/-- Bytes without a leading zero are the digits of their number. -/
theorem digits_value : (Nat.digits 256 (value bytes)).reverse.map UInt8.ofNat = bytes.dropWhile (· = 0) := by
  have small : ∀ symbol ∈ ((bytes.dropWhile (· = 0)).map UInt8.toNat).reverse, symbol < 256 := by
    intro symbol member
    obtain ⟨byte, -, rfl⟩ := List.mem_map.mp (List.mem_reverse.mp member)
    exact byte.toNat_lt
  have back : ∀ list : Bytes, (list.map UInt8.toNat).map UInt8.ofNat = list := by
    intro list
    induction list with
    | nil => rfl
    | cons byte rest ih => rw [List.map_cons, List.map_cons, ih, UInt8.ofNat_toNat]
  rw [value, number_eq, Nat.digits_ofDigits 256 (by decide) _ small, List.reverse_reverse]
  · exact back _
  · intro nonempty
    rw [List.getLast_reverse, List.head_map]
    have some_ : bytes.dropWhile (· = 0) ≠ [] := by simpa using nonempty
    have first := List.head_dropWhile_not (fun byte : UInt8 => decide (byte = 0)) some_
    intro zero
    exact of_decide_eq_false first (UInt8.toNat_inj.mp zero)

theorem zeros_append : List.replicate (bytes.takeWhile (· = 0)).length 0 ++ bytes.dropWhile (· = 0) = bytes := by
  have zeros : bytes.takeWhile (· = 0) = List.replicate (bytes.takeWhile (· = 0)).length 0 :=
    List.eq_replicate_of_mem fun byte member => by simpa using List.mem_takeWhile_imp member
  rw [← zeros, List.takeWhile_append_dropWhile]

/-- What was encoded is decoded again. -/
theorem decode_encode (bytes : Bytes) : decodeBase58 (encodeBase58 bytes) = some bytes := by
  have same : number 58 (Nat.digits 58 (value bytes)).reverse = value bytes := by
    rw [number_eq, List.reverse_reverse, Nat.ofDigits_digits]
  rw [encodeBase58_eq, decode_digits (fun digit => digits_small) head?_digits, same, digits_value, zeros_append]

/-- The digits of a number are what they were, if the first one is not zero. -/
theorem digits_number {base : ℕ} {digits : List ℕ} (base_ : 1 < base) (small : ∀ digit ∈ digits, digit < base)
    (leading : digits.head? ≠ some 0) : (Nat.digits base (number base digits)).reverse = digits := by
  rw [number_eq, Nat.digits_ofDigits base base_ _ fun digit member => small digit (List.mem_reverse.mp member),
    List.reverse_reverse]
  intro nonempty zero
  rw [List.getLast_reverse] at zero
  exact leading ((List.head?_eq_some_head _).trans (congrArg some zero))

/-- The bytes of a number, without those that are zero in front. -/
theorem takeWhile_bytes {number : ℕ} : ((Nat.digits 256 number).reverse.map UInt8.ofNat).takeWhile (· = 0) = [] := by
  have leading := @head?_digits 256 number
  have small : ∀ digit ∈ (Nat.digits 256 number).reverse, digit < 256 := fun digit member =>
    Nat.digits_lt_base (by decide) (List.mem_reverse.mp member)
  cases digits : (Nat.digits 256 number).reverse with
  | nil => rfl
  | cons first rest =>
    rw [digits] at leading small
    rw [List.map_cons, List.takeWhile_cons_of_neg]
    rw [decide_eq_true_eq, ← UInt8.toNat_inj, UInt8.toNat_ofNat', Nat.mod_eq_of_lt (small first List.mem_cons_self)]
    exact fun zero => leading (by rw [List.head?_cons, zero]; rfl)

/-- What a text of ones and digits was decoded to is encoded as this text. -/
theorem encode_digits {digits : List ℕ} {zeroes : ℕ} (small : ∀ digit ∈ digits, digit < 58)
    (leading : digits.head? ≠ some 0) :
    encodeBase58 (List.replicate zeroes 0 ++ (Nat.digits 256 (number 58 digits)).reverse.map UInt8.ofNat) =
      List.replicate zeroes 0x31 ++ digits.map fun digit => pszBase58.getD digit 0 := by
  set tail := (Nat.digits 256 (number 58 digits)).reverse.map UInt8.ofNat with tailed
  have zeros : ∀ byte ∈ List.replicate zeroes (0 : UInt8), decide (byte = 0) = true :=
    fun byte member => decide_eq_true (List.eq_of_mem_replicate member)
  have none : tail.takeWhile (· = 0) = [] := takeWhile_bytes
  have front : ((List.replicate zeroes 0 ++ tail).takeWhile (· = 0)).length = zeroes := by
    rw [List.takeWhile_append_of_pos zeros, none, List.append_nil, List.length_replicate]
  have back : (List.replicate zeroes 0 ++ tail).dropWhile (· = 0) = tail := by
    rw [List.dropWhile_append_of_pos zeros, dropWhile_of_takeWhile_nil none]
  have symbols : tail.map UInt8.toNat = (Nat.digits 256 (number 58 digits)).reverse := by
    rw [tailed, List.map_map]
    refine (List.map_congr_left fun digit member => ?_).trans (List.map_id _)
    rw [Function.comp_apply, UInt8.toNat_ofNat',
      Nat.mod_eq_of_lt (Nat.digits_lt_base (by decide) (List.mem_reverse.mp member)), id]
  have same : value (List.replicate zeroes 0 ++ tail) = number 58 digits := by
    rw [value, back, symbols, number_eq 256, List.reverse_reverse, Nat.ofDigits_digits]
  rw [encodeBase58_eq, front, same, digits_number (by decide) small leading]

/-- Texts over the alphabet are ones and digits that begin with another one. -/
theorem exists_ones_digits {text : Bytes} (plain : ∀ character ∈ text, character ∈ pszBase58) :
    ∃ (zeroes : ℕ) (digits : List ℕ), (∀ digit ∈ digits, digit < 58) ∧ digits.head? ≠ some 0 ∧
      text = List.replicate zeroes 0x31 ++ digits.map fun digit => pszBase58.getD digit 0 := by
  have ones : text.takeWhile (· = 0x31) = List.replicate (text.takeWhile (· = 0x31)).length 0x31 :=
    List.eq_replicate_of_mem fun character member => by simpa using List.mem_takeWhile_imp member
  obtain ⟨digits, small, tail⟩ := @exists_digits (text.dropWhile (· = 0x31)) fun character member =>
    plain character ((List.dropWhile_sublist _).subset member)
  refine ⟨(text.takeWhile (· = 0x31)).length, digits, small, ?_, ?_⟩
  · cases digits with
    | nil => simp
    | cons first rest =>
      intro zero
      have nonempty : text.dropWhile (· = 0x31) ≠ [] := by simp [tail]
      have head := List.head_dropWhile_not (fun character : UInt8 => decide (character = 0x31)) nonempty
      rw [List.head?_cons, Option.some.injEq] at zero
      simp only [tail, List.map_cons, List.head_cons, zero] at head
      exact of_decide_eq_false head ((getD_eq_one_iff (by decide)).mpr rfl)
  · rw [← ones, ← tail, List.takeWhile_append_dropWhile]

/-- The zeros in front add nothing to the number of bytes. -/
theorem value_eq (bytes : Bytes) : value bytes = number 256 (bytes.map UInt8.toNat) := by
  conv_rhs => rw [← @zeros_append bytes]
  rw [List.map_append, List.map_replicate, number_eq, List.reverse_append, List.reverse_replicate,
    Nat.ofDigits_append, UInt8.toNat_zero, Nat.ofDigits_replicate_zero, mul_zero, add_zero, ← number_eq]
  rfl

/-- For bytes of any length the text is ones and the digits of their number, no carry is dropped on the way and the text is
decoded to the bytes; every text over the alphabet is decoded, and to bytes whose text it is. -/
theorem base58_exact : (∀ bytes : Bytes,
      encodeBase58 bytes = List.replicate (bytes.takeWhile (· = 0)).length 0x31 ++
          (Nat.digits 58 (number 256 (bytes.map UInt8.toNat))).reverse.map (fun digit => pszBase58.getD digit 0) ∧
        (∀ carry ∈ encodeCarries (bytes.dropWhile (· = 0))
          (List.replicate ((bytes.dropWhile (· = 0)).length * 138 / 100 + 1) 0) 0, carry = 0) ∧
        decodeBase58 (encodeBase58 bytes) = some bytes) ∧
    ∀ text : Bytes, (∀ character ∈ text, character ∈ pszBase58) →
      ∃ bytes, decodeBase58 text = some bytes ∧ encodeBase58 bytes = text := by
  refine ⟨fun bytes => ⟨?_, encodeCarries_zero (holds_zero (by decide)) value_fits, decode_encode bytes⟩, fun text plain => ?_⟩
  · rw [← value_eq]
    exact encodeBase58_eq
  · obtain ⟨zeroes, digits, small, leading, rfl⟩ := exists_ones_digits plain
    exact ⟨_, decode_digits small leading, encode_digits small leading⟩

theorem base58_exact_plain : ∃ bytes, decodeBase58 [0x31, 0x32, 0x7a] = some bytes ∧ encodeBase58 bytes = [0x31, 0x32, 0x7a] :=
  base58_exact.2 _ (by rw [pszBase58_eq]; decide +kernel)

theorem encodeBase58_eq_nil : encodeBase58 bytes = [] ↔ bytes = [] := by
  constructor
  · intro empty
    have decoded := decode_encode bytes
    rw [empty] at decoded
    exact (Option.some.inj decoded).symm
  · rintro rfl
    rfl

end RoundTrip

section Lengths

/-- A number between two multiples of a power has the digits of the factor in front, and as many more as the exponent. -/
theorem digits_of_bounds {base high exponent number : ℕ} (base_ : 1 < base) (positive : 0 < high)
    (least : high * base ^ exponent ≤ number) (most : number < (high + 1) * base ^ exponent) :
    ∃ lower, Nat.digits base number = lower ++ Nat.digits base high ∧ lower.length = exponent := by
  induction exponent generalizing number with
  | zero =>
    have same : number = high := by simp only [pow_zero, mul_one] at least most; omega
    exact ⟨[], by rw [same, List.nil_append], rfl⟩
  | succ exponent ih =>
    rw [pow_succ, ← mul_assoc] at least most
    have least' : high * base ^ exponent ≤ number / base := (Nat.le_div_iff_mul_le (by omega)).mpr least
    have most' : number / base < (high + 1) * base ^ exponent := (Nat.div_lt_iff_lt_mul (by omega)).mpr most
    obtain ⟨lower, digits, length⟩ := ih least' most'
    have some_ : 0 < number := by
      have power : 0 < high * base ^ exponent * base := by positivity
      exact power.trans_le least
    refine ⟨number % base :: lower, ?_, by rw [List.length_cons, length]⟩
    rw [Nat.digits_def' base_ some_, digits, List.cons_append]

/-- The number of some bytes is between two multiples of a power, by the number of the bytes in front. -/
theorem value_bounds {first : UInt8} {lead rest : Bytes} (nonzero : first ≠ 0) :
    number 256 ((first :: lead).map UInt8.toNat) * 256 ^ rest.length ≤ value (first :: lead ++ rest) ∧
      value (first :: lead ++ rest) < (number 256 ((first :: lead).map UInt8.toNat) + 1) * 256 ^ rest.length := by
  have below : Nat.ofDigits 256 (rest.map UInt8.toNat).reverse < 256 ^ rest.length := by
    have bound := @Nat.ofDigits_lt_base_pow_length 256 (rest.map UInt8.toNat).reverse (by decide) fun symbol member => by
      obtain ⟨byte, -, rfl⟩ := List.mem_map.mp (List.mem_reverse.mp member)
      exact byte.toNat_lt
    rwa [List.length_reverse, List.length_map] at bound
  have valued : value (first :: lead ++ rest) = Nat.ofDigits 256 (rest.map UInt8.toNat).reverse +
      number 256 ((first :: lead).map UInt8.toNat) * 256 ^ rest.length := by
    rw [value, List.cons_append, List.dropWhile_cons_of_neg (by simpa using nonzero), ← List.cons_append, number_eq,
      List.map_append, List.reverse_append, Nat.ofDigits_append, List.length_reverse, List.length_map, mul_comm,
      ← number_eq 256 ((first :: lead).map UInt8.toNat)]
  rw [valued, add_mul, one_mul]
  exact ⟨Nat.le_add_left _ _, by omega⟩

/-- The first character and the length of the text of bytes with one zero in front. -/
theorem encodeBase58_of_bounds {first : UInt8} {rest : Bytes} {digit exponent : ℕ} (nonzero : first ≠ 0)
    (positive : 0 < digit) (small : digit < 58) (least : digit * 58 ^ exponent ≤ first.toNat * 256 ^ rest.length)
    (most : (first.toNat + 1) * 256 ^ rest.length ≤ (digit + 1) * 58 ^ exponent) :
    ∃ later, encodeBase58 (0 :: first :: rest) = 0x31 :: pszBase58.getD digit 0 :: later ∧ later.length = exponent := by
  have stripped : value (0 :: first :: rest) = value (first :: rest) := by
    rw [value, value, List.dropWhile_cons_of_pos (by decide)]
  have zeros : ((0 :: first :: rest).takeWhile fun byte : UInt8 => byte = 0).length = 1 := by
    rw [List.takeWhile_cons_of_pos (by decide), List.takeWhile_cons_of_neg (by simpa using nonzero)]
    rfl
  obtain ⟨above, below⟩ := @value_bounds first [] rest nonzero
  have one : number 256 ([first].map UInt8.toNat) = first.toNat := Nat.zero_add _
  rw [one, List.singleton_append] at above below
  obtain ⟨lower, digits, length⟩ := digits_of_bounds (by decide) positive (least.trans above) (below.trans_le most)
  rw [Nat.digits_of_lt 58 digit positive.ne' small] at digits
  refine ⟨lower.reverse.map fun digit => pszBase58.getD digit 0, ?_, by simpa using length⟩
  rw [encodeBase58_eq, zeros, stripped, digits, List.reverse_append, List.reverse_singleton, List.singleton_append,
    List.map_cons]
  rfl

theorem length_mulAdd {factor base length carry index : ℕ} {digits : List ℕ} :
    (mulAdd factor base length carry index digits).1.length = digits.length := by
  induction digits generalizing carry index with
  | nil => rfl
  | cons digit rest ih =>
    unfold mulAdd
    split_ifs
    · exact congrArg (· + 1) ih
    · rfl

theorem length_decodeLoop {text : Bytes} {b256 digits : List ℕ} {length used : ℕ}
    (decoded : decodeLoop text b256 length = some (digits, used)) : digits.length = b256.length := by
  induction text generalizing b256 length with
  | nil =>
    obtain ⟨rfl, rfl⟩ := Prod.mk.inj (Option.some.inj decoded)
    rfl
  | cons character rest ih =>
    unfold decodeLoop at decoded
    dsimp only at decoded
    split_ifs at decoded
    exact (ih decoded).trans length_mulAdd

/-- Decoding does not make a text longer. -/
theorem length_decodeBase58 {text bytes : Bytes} (decoded : decodeBase58 text = some bytes) :
    bytes.length ≤ text.length := by
  unfold decodeBase58 decodeImpl at decoded
  set trimmed := (text.takeWhile (· ≠ 0)).dropWhile isSpace with trimming
  have shorter : trimmed.length ≤ text.length :=
    (List.dropWhile_sublist _).length_le.trans (List.takeWhile_sublist _).length_le
  have parted := congrArg List.length
    (@List.takeWhile_append_dropWhile UInt8 (fun character => decide (character = 0x31)) trimmed)
  rw [List.length_append] at parted
  dsimp only at decoded
  generalize trimmed.dropWhile (· = 0x31) = tail at decoded parted
  obtain ⟨⟨digits, used⟩, looped, ended⟩ := Option.bind_eq_some_iff.mp decoded
  dsimp only at ended
  split_ifs at ended
  obtain rfl := Option.some.inj ended
  have significant_le : (significant digits used).length ≤ tail.length := by
    have within : (significant digits used).length ≤ (digits.take used).length := by
      exact (List.dropWhile_sublist _).length_le.trans List.length_reverse.le
    rcases Nat.eq_zero_or_pos tail.length with none | some_
    · obtain rfl := List.length_eq_zero_iff.mp none
      obtain ⟨-, rfl⟩ := Prod.mk.inj (Option.some.inj looped)
      simpa using within
    · have size := length_decodeLoop looped
      rw [List.length_replicate] at size
      rw [List.length_take] at within
      omega
  rw [List.length_append, List.length_replicate, List.length_map]
  omega

end Lengths

end Base58

end Libp2p.Multi
