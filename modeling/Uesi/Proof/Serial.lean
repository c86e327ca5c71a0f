import Uesi.Construction.Serial

namespace Uesi.Serial

open Printf

/-- The integer conversions. -/
inductive Conv where
  | d | i | u | x | X
  deriving DecidableEq

def Conv.char : Conv → Byte
  | .d => chr 'd'
  | .i => chr 'i'
  | .u => chr 'u'
  | .x => chr 'x'
  | .X => chr 'X'

def Conv.signed : Conv → Bool
  | .d | .i => true
  | _ => false

def Conv.base : Conv → Nat
  | .x | .X => 16
  | _ => 10

def Conv.uppercase (conv : Conv) : Bool := conv == .X

/-- An argument with the length modifier of its type. -/
inductive Value where
  | int (value : BitVec 32)
  | long (value : BitVec 64)
  | longLong (value : BitVec 64)
  deriving DecidableEq

def Value.arg : Value → Arg
  | .int value => .int value
  | .long value | .longLong value => .long value

def Value.modifier : Value → List Byte
  | .int _ => []
  | .long _ => [chr 'l']
  | .longLong _ => [chr 'l', chr 'l']

def Value.isLongLong : Value → Bool
  | .longLong _ => true
  | _ => false

/-- The number that an argument stands for. -/
def Value.number (signed : Bool) : Value → Int
  | .int value => if signed then value.toInt else value.toNat
  | .long value | .longLong value => if signed then value.toInt else value.toNat

/-- What the code takes from an argument: without `ll` it reads an `int`. -/
def Value.taken : Value → Value
  | .long value => .int (value.truncate 32)
  | value => value

/-- A conversion with its flag, its width and its argument. -/
structure Number where
  zero : Bool
  width : Nat
  small : width < 32
  conv : Conv
  value : Value

/-- The decimal text of a width. -/
def widthText (width : Nat) : List Byte :=
  if width = 0 then []
  else if width < 10 then [digitByte false width] else [digitByte false (width / 10), digitByte false (width % 10)]

/-- The text of a conversion behind its percent sign. -/
def Number.body (number : Number) : List Byte :=
  (if number.zero then [chr '0'] else []) ++ widthText number.width ++ number.value.modifier ++ [number.conv.char]

/-- The digits of a number in a base. -/
def digitsText (base : Nat) (uppercase : Bool) (number : Nat) : List Byte :=
  if number = 0 then [chr '0'] else (Nat.digits base number).reverse.map (digitByte uppercase)

def signText (negative : Bool) : List Byte := if negative then [chr '-'] else []

/-- The standard puts the sign in front of zeros and behind spaces. -/
def layout (zero : Bool) (width : Nat) (negative : Bool) (text : List Byte) : List Byte :=
  let padding := List.replicate (width - (signText negative).length - text.length) (padOf zero)
  if zero then signText negative ++ padding ++ text else padding ++ signText negative ++ text

/-- The code puts the sign in front of all padding. -/
def written (zero : Bool) (width : Nat) (negative : Bool) (text : List Byte) : List Byte :=
  signText negative ++ List.replicate (width - (signText negative).length - text.length) (padOf zero) ++ text

/-- The number that the standard prints. -/
def Number.meant (number : Number) : Int := number.value.number number.conv.signed

/-- The number that the code prints. -/
def Number.read (number : Number) : Int := number.value.taken.number number.conv.signed

/-- What the standard prescribes for a conversion. -/
def Number.prescribed (number : Number) : List Byte :=
  layout number.zero number.width (number.meant < 0)
    (digitsText number.conv.base number.conv.uppercase number.meant.natAbs)

/-- What the code writes for a conversion, unless it negates the most negative number. -/
def Number.outcome (number : Number) : Except Fault (List Byte) :=
  if number.conv.signed = true ∧ number.value = .longLong (BitVec.intMin 64) then .error .overflow
  else .ok (written number.zero number.width (number.read < 0)
    (digitsText number.conv.base number.conv.uppercase number.read.natAbs))

/-- An argument of `l` has to fit into 32 bits, a negative number has to fill the width up to its sign unless it is
padded with zeros, and the most negative `long long` is excluded. -/
structure Number.Good (number : Number) : Prop where
  fits : ∀ value, number.value = .long value →
    if number.conv.signed then -2 ^ 31 ≤ value.toInt ∧ value.toInt < 2 ^ 31 else value.toNat < 2 ^ 32
  sign : number.meant < 0 → number.zero = false → 10 ^ (number.width - 2) ≤ number.meant.natAbs
  least : number.conv.signed = true → number.value ≠ .longLong (BitVec.intMin 64)

/-- A format consists of plain bytes and conversions. -/
inductive Piece where
  | plain (byte : Byte) (other : byte ≠ chr '%')
  | conversion (number : Number)

def Piece.format : Piece → List Byte
  | .plain byte _ => [byte]
  | .conversion number => chr '%' :: number.body

def Piece.args : Piece → List Arg
  | .plain _ _ => []
  | .conversion number => [number.value.arg]

def Piece.outcome : Piece → Except Fault (List Byte)
  | .plain byte _ => .ok [byte]
  | .conversion number => number.outcome

section Numbers

variable {base : Nat} {uppercase : Bool}

theorem fillDigits_eq (large : 1 < base) {room num : Nat} (fits : num < base ^ room) (text : List Byte) :
    fillDigits base uppercase room num text =
      .ok ((Nat.digits base num).reverse.map (digitByte uppercase) ++ text) := by
  induction room generalizing num text with
  | zero =>
      obtain rfl : num = 0 := by simpa using fits
      simp [fillDigits]
  | succ room ih =>
      unfold fillDigits
      by_cases none : num = 0
      · simp [none]
      · have smaller : num / base < base ^ room := by
          rw [Nat.div_lt_iff_lt_mul (by omega), ← Nat.pow_succ]
          exact fits
        rw [if_neg none, Nat.digits_def' large (Nat.pos_of_ne_zero none)]
        dsimp only
        rw [ih smaller]
        simp

/-- `print_num` pads the digits of its number. -/
theorem printNum_eq (large : 10 ≤ base) (num : BitVec 64) (width : Nat) (pad : Byte) :
    printNum num base width pad uppercase =
      .ok (List.replicate (width - (digitsText base uppercase num.toNat).length) pad ++
        digitsText base uppercase num.toNat) := by
  unfold printNum digitsText
  by_cases none : num = 0
  · rw [if_pos none, none]
    rfl
  · have some : num.toNat ≠ 0 := fun zero => none (BitVec.eq_of_toNat_eq zero)
    have fits : num.toNat < base ^ bufSize :=
      num.isLt.trans_le ((show 2 ^ 64 ≤ 10 ^ bufSize by decide).trans (Nat.pow_le_pow_left large _))
    rw [if_neg none, if_neg some, fillDigits_eq (by omega) fits, List.append_nil]
    rfl

/-- `print_signed` writes the sign first. -/
theorem printSigned_eq (num : BitVec 64) (width : Nat) (zero : Bool) :
    printSigned num width (padOf zero) = if num = BitVec.intMin 64 then .error .overflow
      else .ok (written zero width (num.toInt < 0) (digitsText 10 false num.toInt.natAbs)) := by
  have value := num.toInt_eq_toNat_cond
  have bound := num.isLt
  unfold printSigned written signText
  by_cases negative : num.toInt < 0
  · have magnitude : (-num).toNat = num.toInt.natAbs := by
      rw [BitVec.toNat_neg]
      split at value <;> omega
    rw [if_pos negative]
    by_cases least : num = BitVec.intMin 64
    · rw [if_pos least, if_pos least]
    · rw [if_neg least, if_neg least, printNum_eq le_rfl, magnitude]
      have narrower : (if 0 < width then width - 1 else width) = width - 1 := by split <;> omega
      rw [narrower]
      simp [negative, bind, Except.bind, pure, Except.pure]
  · have magnitude : num.toNat = num.toInt.natAbs := by split at value <;> omega
    have least : num ≠ BitVec.intMin 64 := by
      rintro rfl
      exact negative (by decide)
    rw [if_neg negative, if_neg least, printNum_eq le_rfl, magnitude]
    simp [negative]

end Numbers

/-- An argument of 64 bits is written in full, unless it is negated and the most negative one. -/
theorem print_wide (conv : Conv) (zero : Bool) (width : Nat) (value : BitVec 64) :
    (if conv.signed then printSigned value width (padOf zero)
      else printNum value conv.base width (padOf zero) conv.uppercase) =
      if conv.signed = true ∧ value = BitVec.intMin 64 then .error .overflow
      else .ok (written zero width ((Value.longLong value).number conv.signed < 0)
        (digitsText conv.base conv.uppercase ((Value.longLong value).number conv.signed).natAbs)) := by
  have base : 10 ≤ conv.base := by cases conv <;> decide
  have decimal : conv.signed = true → conv.base = 10 ∧ conv.uppercase = false := by cases conv <;> decide
  unfold Value.number
  cases signed : conv.signed with
  | true =>
      obtain ⟨ten, lower⟩ := decimal signed
      simp [printSigned_eq, ten, lower]
  | false =>
      have positive : decide ((value.toNat : Int) < 0) = false := decide_eq_false (by omega)
      simp [printNum_eq base, positive, written, signText]

/-- An argument of 32 bits is extended to 64 bits before it is written. -/
theorem print_narrow (conv : Conv) (zero : Bool) (width : Nat) (value : BitVec 32) :
    (if conv.signed then printSigned (value.signExtend 64) width (padOf zero)
      else printNum (value.zeroExtend 64) conv.base width (padOf zero) conv.uppercase) =
      .ok (written zero width ((Value.int value).number conv.signed < 0)
        (digitsText conv.base conv.uppercase ((Value.int value).number conv.signed).natAbs)) := by
  have extended : (value.signExtend 64).toInt = value.toInt := BitVec.toInt_signExtend_of_le (by decide)
  have least : value.signExtend 64 ≠ BitVec.intMin 64 := by
    intro same
    have bound := BitVec.le_toInt value
    rw [← extended, same] at bound
    exact absurd bound (by decide)
  have filled : (value.zeroExtend 64).toNat = value.toNat := by
    have bound := value.isLt
    simp
    omega
  have signedCase := print_wide conv zero width (value.signExtend 64)
  have unsignedCase := print_wide conv zero width (value.zeroExtend 64)
  unfold Value.number at *
  cases signed : conv.signed with
  | true => simpa [signed, least, extended] using signedCase
  | false => simpa [signed, filled] using unsignedCase

/-- The cases of the switch write what the number is read as. -/
theorem printInteger_eq (number : Number) (args : List Arg) :
    printInteger (number.value.arg :: args) number.value.isLongLong number.conv.signed number.conv.base number.width
      (padOf number.zero) number.conv.uppercase = number.outcome.map fun text => (text, args) := by
  obtain ⟨zero, width, small, conv, value⟩ := number
  cases value with
  | int value =>
      refine (congrArg (Except.map (·, args)) (print_narrow conv zero width value)).trans ?_
      unfold Number.outcome
      rw [if_neg (by simp)]
      rfl
  | long value =>
      refine (congrArg (Except.map (·, args)) (print_narrow conv zero width (value.truncate 32))).trans ?_
      unfold Number.outcome
      rw [if_neg (by simp)]
      rfl
  | longLong value =>
      refine (congrArg (Except.map (·, args)) (print_wide conv zero width value)).trans ?_
      unfold Number.outcome
      simp only [Value.longLong.injEq]
      rfl

theorem convert_eq (number : Number) (args : List Arg) :
    convert number.conv.char (number.value.arg :: args) false number.value.isLongLong number.width
      (padOf number.zero) = number.outcome.map fun text => (text, args) := by
  rw [← printInteger_eq]
  obtain ⟨zero, width, small, conv, value⟩ := number
  cases conv <;> rfl

/-- The width is read up to the byte behind it. -/
theorem scanWidth_widthText {width : Nat} (small : width < 32) {byte : Byte} (rest : List Byte)
    (stop : ¬ (chr '0' ≤ byte ∧ byte ≤ chr '9')) :
    scanWidth 0 (widthText width ++ byte :: rest) = .ok (width, byte :: rest) := by
  have digit : ∀ digit < 10, (chr '0' ≤ digitByte false digit ∧ digitByte false digit ≤ chr '9') ∧
      (digitByte false digit).toNat - (chr '0').toNat = digit := by decide
  have last (width : Nat) : scanWidth width (byte :: rest) = .ok (width, byte :: rest) := by
    rw [scanWidth, if_neg stop]
  unfold widthText
  split
  · rename_i none
    rw [none]
    exact last 0
  · split
    · rename_i single
      obtain ⟨range, value⟩ := digit width single
      simp only [List.singleton_append, scanWidth, if_pos range, value]
      rw [if_pos (by omega), if_neg stop]
      simp
    · obtain ⟨range, value⟩ := digit (width / 10) (by omega)
      obtain ⟨range', value'⟩ := digit (width % 10) (by omega)
      simp only [List.cons_append, List.nil_append, scanWidth, if_pos range, if_pos range', value, value']
      rw [if_pos (by omega), if_pos (by omega), if_neg stop]
      simp only [Except.ok.injEq, Prod.mk.injEq, and_true]
      omega

/-- Behind the width there is a letter. -/
theorem modifier_head (number : Number) :
    ∃ byte rest, number.value.modifier ++ [number.conv.char] = byte :: rest ∧
      ¬ (chr '0' ≤ byte ∧ byte ≤ chr '9') ∧ byte ≠ chr '-' ∧ byte ≠ chr '0' := by
  obtain ⟨zero, width, small, conv, value⟩ := number
  cases value with
  | int value => exact ⟨conv.char, [], rfl, by cases conv <;> decide⟩
  | long value => exact ⟨chr 'l', [conv.char], rfl, by decide⟩
  | longLong value => exact ⟨chr 'l', [chr 'l', conv.char], rfl, by decide⟩

/-- No flag but the zero stands before the width. -/
theorem widthText_head {width : Nat} (small : width < 32) {byte : Byte} (rest : List Byte) (minus : byte ≠ chr '-')
    (zero : byte ≠ chr '0') : (widthText width ++ byte :: rest).head? ≠ some (chr '-') ∧
      (widthText width ++ byte :: rest).head? ≠ some (chr '0') := by
  have digit : ∀ digit < 10, digit ≠ 0 → digitByte false digit ≠ chr '-' ∧ digitByte false digit ≠ chr '0' := by
    decide
  unfold widthText
  split
  · simpa using ⟨minus, zero⟩
  · split
    · simpa using digit width (by omega) (by omega)
    · simpa using digit (width / 10) (by omega) (by omega)

theorem scanFlag_miss {flag : Byte} {format : List Byte} (other : format.head? ≠ some flag) :
    scanFlag flag format = (false, format) :=
  if_neg other

/-- A conversion of a format writes its outcome. -/
theorem directive_eq (number : Number) (rest : List Byte) (args : List Arg) :
    directive (number.body ++ rest) (number.value.arg :: args) =
      number.outcome.map fun text => (text, rest, args) := by
  obtain ⟨byte, more, shape, stop, minus, zero⟩ := modifier_head number
  obtain ⟨noMinus, noZero⟩ := widthText_head number.small (more ++ rest) minus zero
  have behind : byte :: (more ++ rest) = number.value.modifier ++ number.conv.char :: rest := by
    rw [← List.cons_append, ← shape, List.append_assoc]
    rfl
  have scanned := scanWidth_widthText number.small (more ++ rest) stop
  rw [behind] at noMinus noZero scanned
  have length : scanLength (number.value.modifier ++ number.conv.char :: rest) =
      (number.value.isLongLong, number.conv.char :: rest) := by
    cases number.value <;> cases number.conv <;> rfl
  have flags : ∃ format, scanFlag (chr '-') (number.body ++ rest) = (false, format) ∧
      scanFlag (chr '0') format =
        (number.zero, widthText number.width ++ (number.value.modifier ++ number.conv.char :: rest)) := by
    unfold Number.body
    cases number.zero with
    | true => exact ⟨_, scanFlag_miss (by simp [chr]), by simp [scanFlag]⟩
    | false =>
        refine ⟨_, scanFlag_miss ?_, ?_⟩
        · simpa using noMinus
        · simpa using scanFlag_miss noZero
  obtain ⟨format, aligned, padded⟩ := flags
  unfold directive
  simp only [aligned, padded, scanned, bind, Except.bind, length, convert_eq]
  cases number.outcome <;> rfl

/-- A round of the main loop writes the outcome of the next piece. -/
theorem serialLoop_piece (piece : Piece) (rounds : Nat) (format : List Byte) (args : List Arg) :
    serialLoop (rounds + 1) (piece.format ++ format) (piece.args ++ args) =
      piece.outcome.bind fun text => (serialLoop rounds format args).map (text ++ ·) := by
  cases piece with
  | plain byte other =>
      simp only [Piece.format, Piece.args, Piece.outcome, List.singleton_append, List.nil_append, serialLoop, other,
        false_and, if_false, Except.bind]
      cases serialLoop rounds format args <;> rfl
  | conversion number =>
      have some : number.body ++ format ≠ [] := by simp [Number.body]
      simp only [Piece.format, Piece.args, Piece.outcome, List.cons_append, List.nil_append, serialLoop, true_and,
        if_pos some, directive_eq]
      cases number.outcome with
      | error fault => rfl
      | ok text =>
          simp only [Except.map, Except.bind, bind]
          cases serialLoop rounds format args <;> rfl

/-- A format writes the outcomes of its pieces one after another. -/
theorem serialLoop_pieces (pieces : List Piece) {rounds : Nat}
    (enough : (pieces.flatMap Piece.format).length ≤ rounds) :
    serialLoop rounds (pieces.flatMap Piece.format) (pieces.flatMap Piece.args) =
      List.flatten <$> pieces.mapM Piece.outcome := by
  induction pieces generalizing rounds with
  | nil => cases rounds <;> rfl
  | cons piece rest ih =>
      have consumed : 1 ≤ piece.format.length := by cases piece <;> simp [Piece.format]
      rw [List.flatMap_cons, List.length_append] at enough
      obtain ⟨rounds, rfl⟩ : ∃ less, rounds = less + 1 := ⟨rounds - 1, by omega⟩
      rw [List.flatMap_cons, List.flatMap_cons, serialLoop_piece, ih (by omega), List.mapM_cons]
      cases piece.outcome with
      | error fault => rfl
      | ok text => cases rest.mapM Piece.outcome <;> rfl

theorem serialPrintf_piece (piece : Piece) : serialPrintf piece.format piece.args = piece.outcome := by
  have single := serialLoop_pieces [piece] le_rfl
  rw [List.flatMap_singleton, List.flatMap_singleton, List.mapM_cons, List.mapM_nil] at single
  rw [serialPrintf, single]
  cases piece.outcome with
  | error fault => rfl
  | ok text => exact congrArg Except.ok (List.append_nil text)

section Reading

/-- The digit that a byte stands for. -/
def digitOf (uppercase : Bool) (byte : Byte) : Option Nat :=
  (List.range 16).find? fun digit => digitByte uppercase digit = byte

local instance lawfulByte : LawfulBEq Byte := inferInstance

/-- The sign and the magnitude that a text spells. -/
def spelled (base : Nat) (uppercase : Bool) (text : List Byte) : Bool × Nat :=
  (chr '-' ∈ text, Nat.ofDigits base (text.filterMap (digitOf uppercase)).reverse)

variable {base : Nat} {uppercase : Bool}

theorem digitOf_digitByte : ∀ uppercase, ∀ digit < 16, digitOf uppercase (digitByte uppercase digit) = some digit ∧
    digitByte uppercase digit ≠ chr '-' := by decide

theorem digitOf_other : ∀ uppercase, digitOf uppercase (chr '-') = none ∧ digitOf uppercase (chr ' ') = none ∧
    digitOf uppercase (chr '0') = some 0 := by decide

/-- The digits of a number spell the number, also behind zeros. -/
theorem spelled_digitsText (large : 1 < base) (hex : base ≤ 16) (zeros number : Nat) :
    Nat.ofDigits base (List.replicate zeros 0 ++
      (digitsText base uppercase number).filterMap (digitOf uppercase)).reverse = number ∧
      chr '-' ∉ digitsText base uppercase number := by
  have digits (digit : Nat) (member : digit ∈ (Nat.digits base number).reverse) :=
    digitOf_digitByte uppercase digit ((Nat.digits_lt_base large (List.mem_reverse.1 member)).trans_le hex)
  have read : ((Nat.digits base number).reverse.map (digitByte uppercase)).filterMap (digitOf uppercase) =
      (Nat.digits base number).reverse := by
    rw [List.filterMap_map]
    conv_rhs => rw [← List.filterMap_some (l := (Nat.digits base number).reverse)]
    exact List.filterMap_congr fun digit member => (digits digit member).1
  unfold digitsText
  split
  · rename_i none
    refine ⟨?_, by decide⟩
    rw [none, List.filterMap_cons_some (digitOf_other uppercase).2.2, List.filterMap_nil, List.reverse_append,
      List.reverse_replicate, Nat.ofDigits_append_replicate_zero]
    simp
  · refine ⟨?_, ?_⟩
    · rw [read, List.reverse_append, List.reverse_reverse, List.reverse_replicate,
        Nat.ofDigits_append_replicate_zero, Nat.ofDigits_digits]
    · simp only [List.mem_map, not_exists, not_and]
      exact fun digit member => (digits digit member).2

theorem spelled_append (large : 1 < base) (hex : base ≤ 16) {front : List Byte} {zeros number : Nat} {negative : Bool}
    (padding : front.filterMap (digitOf uppercase) = List.replicate zeros 0)
    (sign : chr '-' ∈ front ↔ negative = true) :
    spelled base uppercase (front ++ digitsText base uppercase number) = (negative, number) := by
  obtain ⟨value, plain⟩ := @spelled_digitsText base uppercase large hex zeros number
  unfold spelled
  rw [List.filterMap_append, padding, value]
  simp [plain, sign]

/-- Both texts of a number spell the number. -/
theorem spelled_texts (large : 1 < base) (hex : base ≤ 16) (zero : Bool) (width : Nat) (negative : Bool)
    (number : Nat) :
    spelled base uppercase (written zero width negative (digitsText base uppercase number)) = (negative, number) ∧
      spelled base uppercase (layout zero width negative (digitsText base uppercase number)) = (negative, number) := by
  obtain ⟨minus, space, nought⟩ := digitOf_other uppercase
  have sign : (signText negative).filterMap (digitOf uppercase) = [] ∧
    (chr '-' ∈ signText negative ↔ negative = true) := by
    cases negative <;> simp [signText, minus]
  have pads (count : Nat) : (List.replicate count (padOf zero)).filterMap (digitOf uppercase) =
      List.replicate (if zero then count else 0) 0 ∧ chr '-' ∉ List.replicate count (padOf zero) := by
    cases zero with
    | true => exact ⟨List.filterMap_replicate_of_some nought, by simp [padOf, chr]⟩
    | false => exact ⟨List.filterMap_replicate_of_none space, by simp [padOf, chr]⟩
  have spells {front : List Byte} (count : Nat)
      (shape : front = signText negative ++ List.replicate count (padOf zero) ∨
        front = List.replicate count (padOf zero) ++ signText negative) :
      spelled base uppercase (front ++ digitsText base uppercase number) = (negative, number) := by
    obtain ⟨digits, plain⟩ := pads count
    refine spelled_append large hex (?_ : _ = List.replicate (if zero then count else 0) 0) ?_
    · obtain rfl | rfl := shape
      · rw [List.filterMap_append, sign.1, digits, List.nil_append]
      · rw [List.filterMap_append, sign.1, digits, List.append_nil]
    · obtain rfl | rfl := shape
      · rw [List.mem_append, sign.2, or_iff_left plain]
      · rw [List.mem_append, sign.2, or_iff_right plain]
  refine ⟨spells _ (Or.inl rfl), ?_⟩
  unfold layout
  dsimp only
  split
  · exact spells _ (Or.inl rfl)
  · exact spells _ (Or.inr rfl)

end Reading

/-- The two layouts differ when a sign and spaces meet. -/
theorem written_eq_layout_iff (zero : Bool) (width : Nat) (negative : Bool) (text : List Byte) :
    written zero width negative text = layout zero width negative text ↔
      (negative = true → zero = false → width ≤ text.length + 1) := by
  unfold written layout
  cases zero with
  | true => simp
  | false =>
      cases negative with
      | false => simp [signText]
      | true =>
          simp only [signText, if_true, Bool.false_eq_true, if_false, forall_const, List.length_singleton]
          cases count : width - 1 - text.length with
          | zero =>
              refine iff_of_true rfl ?_
              omega
          | succ count =>
              refine iff_of_false (fun same => ?_) (by omega)
              rw [List.replicate_succ] at same
              exact absurd (List.cons.inj same).1 (by decide)

theorem digitsText_length {base number : Nat} (uppercase : Bool) (some : number ≠ 0) :
    (digitsText base uppercase number).length = (Nat.digits base number).length := by
  simp [digitsText, some]

/-- The code reads the number that is meant when an argument of `l` fits into 32 bits. -/
theorem Number.read_eq_iff (number : Number) : number.read = number.meant ↔
    ∀ value, number.value = .long value →
      if number.conv.signed then -2 ^ 31 ≤ value.toInt ∧ value.toInt < 2 ^ 31 else value.toNat < 2 ^ 32 := by
  obtain ⟨zero, width, small, conv, value⟩ := number
  unfold Number.read Number.meant
  cases value with
  | int value => simp [Value.taken]
  | longLong value => simp [Value.taken]
  | long value =>
      have bound := value.isLt
      have wide := value.toInt_eq_toNat_cond
      have narrow := (value.truncate 32).toInt_eq_toNat_cond
      have low : (value.truncate 32).toNat = value.toNat % 2 ^ 32 := by simp
      simp only [Value.taken, Value.number, Value.long.injEq, forall_eq']
      cases conv.signed with
      | true =>
          simp only [if_true]
          rw [low] at narrow
          split at wide <;> split at narrow <;> omega
      | false =>
          simp only [Bool.false_eq_true, if_false, low]
          omega

/-- A conversion is written as prescribed under its condition and only then. -/
theorem Number.outcome_iff (number : Number) : number.outcome = .ok number.prescribed ↔ number.Good := by
  have large : 1 < number.conv.base := by cases number.conv <;> decide
  have hex : number.conv.base ≤ 16 := by cases number.conv <;> decide
  by_cases least : number.conv.signed = true ∧ number.value = .longLong (BitVec.intMin 64)
  · unfold Number.outcome
    rw [if_pos least]
    exact iff_of_false (by simp) fun good => good.least least.1 least.2
  · have negative : number.meant < 0 → number.conv.base = 10 := by
      unfold Number.meant Value.number
      cases number.conv <;> simp [Conv.base, Conv.signed]
      all_goals cases number.value <;> simp
    have filled : number.meant < 0 → (number.width ≤
        (digitsText number.conv.base number.conv.uppercase number.meant.natAbs).length + 1 ↔
          10 ^ (number.width - 2) ≤ number.meant.natAbs) := by
      intro below
      have some : number.meant.natAbs ≠ 0 := by omega
      have first := (Nat.lt_digits_length_iff (by decide : 1 < 10) number.meant.natAbs (k := 0)).2 (by omega)
      rw [digitsText_length _ some, negative below, ← Nat.lt_digits_length_iff (by decide)]
      omega
    have same : number.outcome = .ok number.prescribed ↔
        written number.zero number.width (number.read < 0)
          (digitsText number.conv.base number.conv.uppercase number.read.natAbs) = number.prescribed := by
      unfold Number.outcome
      rw [if_neg least, Except.ok.injEq]
    rw [same]
    unfold Number.prescribed
    constructor
    · intro equal
      have spell := congrArg (spelled number.conv.base number.conv.uppercase) equal
      rw [(spelled_texts large hex _ _ _ _).1, (spelled_texts large hex _ _ _ _).2, Prod.mk.injEq,
        decide_eq_decide] at spell
      have read : number.read = number.meant := by omega
      rw [read, written_eq_layout_iff] at equal
      refine ⟨number.read_eq_iff.1 read, fun below plain => ?_, fun signed value => least ⟨signed, value⟩⟩
      exact (filled below).1 (equal (by simpa using below) plain)
    · rintro ⟨fits, sign, -⟩
      rw [number.read_eq_iff.2 fits, written_eq_layout_iff]
      intro below plain
      have below : number.meant < 0 := by simpa using below
      exact (filled below).2 (sign below plain)

/-- A format writes what its conversions write one after another, and a conversion is written as the standard
prescribes exactly when it is good. -/
theorem serialPrintf_prints_iff (pieces : List Piece) (number : Number) :
    serialPrintf (pieces.flatMap Piece.format) (pieces.flatMap Piece.args) =
        List.flatten <$> pieces.mapM (fun piece => serialPrintf piece.format piece.args) ∧
      (serialPrintf (chr '%' :: number.body) [number.value.arg] = .ok number.prescribed ↔ number.Good) := by
  refine ⟨?_, ?_⟩
  · rw [serialPrintf, serialLoop_pieces pieces le_rfl]
    simp only [serialPrintf_piece]
  · exact (Eq.congr_left (serialPrintf_piece (.conversion number))).trans number.outcome_iff

/-- The conversion `%lx` of 2 to the 32 writes `0`, the conversion `%4d` of -1 writes its sign before the spaces, and
`%lld` of the most negative number is undefined. -/
theorem serialPrintf_prints_other :
    serialPrintf (['%', 'l', 'x'].map chr) [.long 0x100000000] = .ok (['0'].map chr) ∧
      Number.prescribed ⟨false, 0, by decide, .x, .long 0x100000000⟩ =
        ['1', '0', '0', '0', '0', '0', '0', '0', '0'].map chr ∧
      serialPrintf (['%', '4', 'd'].map chr) [.int (-1)] = .ok (['-', ' ', ' ', '1'].map chr) ∧
      Number.prescribed ⟨false, 4, by decide, .d, .int (-1)⟩ = [' ', ' ', '-', '1'].map chr ∧
      serialPrintf (['%', 'l', 'l', 'd'].map chr) [.long (BitVec.intMin 64)] = .error .overflow := by
  decide +kernel

end Uesi.Serial
