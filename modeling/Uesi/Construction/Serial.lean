import Uesi.Construction.Libc.Printf

namespace Uesi.Serial

open Printf

/-- The size of the array `buf` of `print_num`. -/
def bufSize : Nat := 32

/-- The character of a digit. -/
def digitByte (uppercase : Bool) (digit : Nat) : Byte :=
  if digit < 10 then chr '0' + BitVec.ofNat 8 digit
  else (if uppercase then chr 'A' else chr 'a') + BitVec.ofNat 8 (digit - 10)

/-- The loop of `print_num` that fills `buf`, which is printed backwards. -/
def fillDigits (base : Nat) (uppercase : Bool) : Nat → Nat → List Byte → Except Fault (List Byte)
  | room, num, text =>
      if num = 0 then .ok text
      else match room with
        | 0 => .error .overrun
        | room + 1 => fillDigits base uppercase room (num / base) (digitByte uppercase (num % base) :: text)

/-- This is `print_num`, with the bytes that it writes. -/
def printNum (num : BitVec 64) (base width : Nat) (pad : Byte) (uppercase : Bool) : Except Fault (List Byte) := do
  let text ← if num = 0 then .ok [chr '0'] else fillDigits base uppercase bufSize num.toNat []
  return List.replicate (width - text.length) pad ++ text

def printSigned (num : BitVec 64) (width : Nat) (pad : Byte) : Except Fault (List Byte) :=
  if num.toInt < 0 then
    if num = BitVec.intMin 64 then .error .overflow
    else do
      let text ← printNum (-num) 10 (if 0 < width then width - 1 else width) pad false
      return chr '-' :: text
  else printNum num 10 width pad false

/-- This is `va_arg(args, int)`, which reads the low half of the place of a `long`. -/
def vaInt : List Arg → Except Fault (BitVec 32 × List Arg)
  | .int value :: rest => .ok (value, rest)
  | .long value :: rest => .ok (value.truncate 32, rest)
  | _ => .error .argument

/-- This is `va_arg(args, long long)`. -/
def vaLong : List Arg → Except Fault (BitVec 64 × List Arg)
  | .long value :: rest => .ok (value, rest)
  | _ => .error .argument

/-- The loop that reads the width. -/
def scanWidth : Nat → List Byte → Except Fault (Nat × List Byte)
  | width, byte :: rest =>
      if chr '0' ≤ byte ∧ byte ≤ chr '9' then
        let next := width * 10 + (byte.toNat - (chr '0').toNat)
        if next < 2 ^ 31 then scanWidth next rest else .error .overflow
      else .ok (width, byte :: rest)
  | width, [] => .ok (width, [])

/-- The cases of the switch for the integer conversions. -/
def printInteger (args : List Arg) (isLongLong signed : Bool) (base width : Nat) (pad : Byte) (uppercase : Bool) :
    Except Fault (List Byte × List Arg) :=
  if isLongLong then do
    let (value, args) ← vaLong args
    (if signed then printSigned value width pad else printNum value base width pad uppercase).map (·, args)
  else do
    let (value, args) ← vaInt args
    (if signed then printSigned (value.signExtend 64) width pad
      else printNum (value.zeroExtend 64) base width pad uppercase).map (·, args)

/-- The switch over the conversion, with the bytes that are written and the arguments that are left. -/
def convert (char : Byte) (args : List Arg) (leftAlign isLongLong : Bool) (width : Nat) (pad : Byte) :
    Except Fault (List Byte × List Arg) :=
  if char = chr 'd' ∨ char = chr 'i' then printInteger args isLongLong true 10 width pad false
  else if char = chr 'u' then printInteger args isLongLong false 10 width pad false
  else if char = chr 'x' then printInteger args isLongLong false 16 width pad false
  else if char = chr 'X' then printInteger args isLongLong false 16 width pad true
  else if char = chr 'p' then
    match args with
    | .pointer address :: args => do
        return (chr '0' :: chr 'x' :: (← printNum address 16 width pad false), args)
    | _ => .error .argument
  else if char = chr 's' then
    match args with
    | .str text :: args =>
        let text := text.getD (['(', 'n', 'u', 'l', 'l', ')'].map chr)
        let padding := List.replicate (width - text.length) (chr ' ')
        .ok (if leftAlign then text ++ padding else padding ++ text, args)
    | _ => .error .argument
  else if char = chr 'c' then do
    let (value, args) ← vaInt args
    return ([value.truncate 8], args)
  else if char = chr '%' then .ok ([chr '%'], args)
  else .ok ([chr '%', char], args)

/-- An optional character of the format. -/
def scanFlag (flag : Byte) (format : List Byte) : Bool × List Byte :=
  if format.head? = some flag then (true, format.tail) else (false, format)

/-- The length modifier, of which only `ll` is remembered. -/
def scanLength (format : List Byte) : Bool × List Byte :=
  match scanFlag (chr 'l') format with
  | (true, format) => scanFlag (chr 'l') format
  | (false, format) => (false, format)

/-- The padding character. -/
def padOf (zero : Bool) : Byte := if zero then chr '0' else chr ' '

/-- A conversion behind its percent sign, with the rest of the format. A format that ends inside of the conversion is
left behind its terminator. -/
def directive (format : List Byte) (args : List Arg) : Except Fault (List Byte × List Byte × List Arg) := do
  let (leftAlign, format) := scanFlag (chr '-') format
  let (zero, format) := scanFlag (chr '0') format
  let (width, format) ← scanWidth 0 format
  match scanLength format with
  | (_, []) => .error .overrun
  | (isLongLong, char :: format) =>
      (convert char args leftAlign isLongLong width (padOf zero)).map fun (text, args) => (text, format, args)

/-- The main loop of `serial_printf`, whose rounds each consume a byte of the format. -/
def serialLoop : Nat → List Byte → List Arg → Except Fault (List Byte)
  | _, [], _ => .ok []
  | 0, _ :: _, _ => .error .outOfFuel
  | rounds + 1, byte :: format, args =>
      if byte = chr '%' ∧ format ≠ [] then do
        let (text, format, args) ← directive format args
        return text ++ (← serialLoop rounds format args)
      else do return byte :: (← serialLoop rounds format args)

/-- This is `serial_printf`, with the bytes that it writes to the port. -/
def serialPrintf (format : List Byte) (args : List Arg) : Except Fault (List Byte) :=
  serialLoop format.length format args

end Uesi.Serial
