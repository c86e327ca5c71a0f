import Mathlib.Tactic

namespace Uesi.Printf

/-- The type `char`, as the byte that is stored. -/
abbrev Byte := BitVec 8

/-- The byte of a character constant of the source. -/
def chr (char : Char) : Byte := BitVec.ofNat 8 char.toNat

/-- An argument behind the format. A string is given by its bytes before the terminating NUL. -/
inductive Arg where
  | int (value : BitVec 32)
  | long (value : BitVec 64)
  | str (text : Option (List Byte))
  | pointer (address : BitVec 64)
  | double (bits : BitVec 64)

/-- The bits of `flags` that are read, with `sign`, which is NUL if there is none. -/
structure Flags where
  alt : Bool := false
  ladjust : Bool := false
  longint : Bool := false
  llongint : Bool := false
  shortint : Bool := false
  zeropad : Bool := false
  sizeint : Bool := false
  ptrint : Bool := false
  sign : Byte := 0

/-- What the language leaves undefined: a read behind the format, an argument of another type or a missing one, and
a signed operation that overflows. -/
inductive Fault where
  | overrun
  | argument
  | overflow
  | outOfFuel
  deriving DecidableEq, Repr

/-- The variables of `vfprintf` that live through the loop. The format is the part from `p` on with its NUL, and
`out` holds the characters that were passed to `fputc`. -/
structure PrintState where
  format : List Byte
  args : List Arg
  out : List Byte := []
  ret : Nat := 0
  ul : BitVec 64
  ull : BitVec 64
  stores : List (BitVec 64 × Nat × Nat) := []

/-- The part of `vfprintf` before the first call of `fputc` that fails. -/
abbrev PrintM := EStateM Fault PrintState

/-- The greatest `int`. -/
def intMax : Nat := 2147483647

/-- This is a call of `fputc` that succeeds, with `ret++`. -/
def emit (char : Byte) : PrintM Unit := do
  modify fun state => { state with out := state.out ++ [char] }
  if intMax ≤ (← get).ret then throw .overflow
  else modify fun state => { state with ret := state.ret + 1 }

/-- The loops that output characters one after another. -/
def emitAll : List Byte → PrintM Unit
  | [] => pure ()
  | char :: rest => do
      emit char
      emitAll rest

/-- This is `*p++`. -/
def next : PrintM Byte := do
  match (← get).format with
  | [] => throw .overrun
  | char :: rest =>
      modify fun state => { state with format := rest }
      return char

/-- This is `va_arg`, with the value of an argument that has the type which is asked for. -/
def vaArg {α : Type} (select : Arg → Option α) : PrintM α := do
  match (← get).args with
  | [] => throw .argument
  | arg :: rest =>
      match select arg with
      | none => throw .argument
      | some value =>
          modify fun state => { state with args := rest }
          return value

/-- This is `va_arg` with the type `int` or `unsigned int`. -/
def argInt : PrintM (BitVec 32) := vaArg fun
  | .int value => some value
  | _ => none

/-- This is `va_arg` with a type of 64 bits: `long`, `long long`, `size_t`, `ptrdiff_t` and their signed or unsigned
counterparts. -/
def argLong : PrintM (BitVec 64) := vaArg fun
  | .long value => some value
  | _ => none

/-- This is `va_arg` with the type `char *`. -/
def argStr : PrintM (Option (List Byte)) := vaArg fun
  | .str text => some text
  | _ => none

/-- This is `va_arg` with another pointer type. -/
def argPointer : PrintM (BitVec 64) := vaArg fun
  | .pointer address => some address
  | _ => none

/-- This is `va_arg` with the type `double`. -/
def argDouble : PrintM (BitVec 64) := vaArg fun
  | .double bits => some bits
  | _ => none

/-- The jumps to `rflag`, with the first character that is no flag and the format behind it. -/
def flagLoop : List Byte → Flags → Except Fault (Byte × List Byte × Flags)
  | [], _ => .error .overrun
  | char :: rest, flags =>
      if char = chr ' ' then
        flagLoop rest { flags with sign := if flags.sign = 0 then chr ' ' else flags.sign }
      else if char = chr '#' then flagLoop rest { flags with alt := true }
      else if char = chr '-' then flagLoop rest { flags with ladjust := true }
      else if char = chr '+' then flagLoop rest { flags with sign := chr '+' }
      else if char = chr '0' then flagLoop rest { flags with zeropad := true }
      else .ok (char, rest, flags)

def isDigit (char : Byte) : Bool := 48 ≤ char.toNat && char.toNat ≤ 57

/-- The loops that read a decimal number, where `char` is the character that was read last. -/
def digitLoop : List Byte → Byte → Nat → Except Fault (Byte × List Byte × Nat)
  | [], char, value =>
      if isDigit char then
        if intMax < value * 10 + (char.toNat - 48) then .error .overflow else .error .overrun
      else .ok (char, [], value)
  | following :: rest, char, value =>
      if isDigit char then
        if intMax < value * 10 + (char.toNat - 48) then .error .overflow
        else digitLoop rest following (value * 10 + (char.toNat - 48))
      else .ok (char, following :: rest, value)

/-- A step of the parser over the format. -/
def parse {α : Type} (step : List Byte → Except Fault (Byte × List Byte × α)) : PrintM (Byte × α) := do
  match step (← get).format with
  | .error fault => throw fault
  | .ok (char, rest, value) =>
      modify fun state => { state with format := rest }
      return (char, value)

/-- The field width, with the character behind it and the flags. -/
def readWidth (char : Byte) (flags : Flags) : PrintM (Byte × Flags × Int) := do
  if char = chr '*' then
    let width := (← argInt).toInt
    if width < 0 then
      if width = -2147483648 then throw .overflow
      else return (← next, { flags with ladjust := true }, -width)
    else return (← next, flags, width)
  else
    let (char, width) ← parse fun rest => digitLoop rest char 0
    return (char, flags, width)

/-- The precision, with the character behind it. -/
def readPrecision (char : Byte) : PrintM (Byte × Int) := do
  if char = chr '.' then
    let char ← next
    if char = chr '*' then
      let prec := (← argInt).toInt
      return (← next, prec)
    else
      let (char, prec) ← parse fun rest => digitLoop rest char 0
      return (char, prec)
  else return (char, -1)

/-- The length modifiers, with the conversion specifier behind them. -/
def readLength (char : Byte) (flags : Flags) : PrintM (Byte × Flags) := do
  let follows := (← get).format.head?
  if char = chr 'h' then
    if follows = some (chr 'h') then
      let _ ← next
      return (← next, { flags with shortint := true })
    else return (← next, { flags with shortint := true })
  else if char = chr 'l' then
    if follows = some (chr 'l') then
      let _ ← next
      return (← next, { flags with llongint := true })
    else return (← next, { flags with longint := true })
  else if char = chr 'z' then return (← next, { flags with sizeint := true })
  else if char = chr 't' then return (← next, { flags with ptrint := true })
  else if char = chr 'L' then return (← next, flags)
  else return (char, flags)

/-- The digits of `__ultoa` and `__ulltoa`. -/
def digits (uppercase : Bool) : List Byte :=
  if uppercase then
    ['0', '1', '2', '3', '4', '5', '6', '7', '8', '9', 'A', 'B', 'C', 'D', 'E', 'F'].map chr
  else ['0', '1', '2', '3', '4', '5', '6', '7', '8', '9', 'a', 'b', 'c', 'd', 'e', 'f'].map chr

/-- The loop of `__ultoa` and `__ulltoa`, which a value of 64 bits leaves within the rounds that are given. -/
def ultoaLoop (base : Nat) (uppercase : Bool) : Nat → Nat → List Byte → List Byte
  | 0, _, text => text
  | rounds + 1, value, text =>
      if value = 0 then text
      else ultoaLoop base uppercase rounds (value / base) ((digits uppercase).getD (value % base) 0 :: text)

/-- These are `__ultoa` and `__ulltoa`: the text from the returned pointer to the end of the buffer. -/
def ultoa (value : BitVec 64) (base : Nat) (uppercase : Bool) : List Byte :=
  if value = 0 then [chr '0', 0] else ultoaLoop base uppercase 64 value.toNat [0]

/-- The padding loops with the text between them. The left one decrements the width as long as it is greater than
the length, and the right one outputs a space for what is left of the width. -/
def putPadded (flags : Flags) (padc : Byte) (text : List Byte) (width : Int) : PrintM Unit := do
  let length : Int := text.length
  if flags.ladjust then
    emitAll text
    emitAll (List.replicate width.toNat (chr ' '))
  else
    emitAll (List.replicate (width - length).toNat padc)
    emitAll text
    emitAll (List.replicate (min length width).toNat (chr ' '))

/-- The code at `strout`, where the length of the text is stored in an `int`. -/
def strout (flags : Flags) (text : List Byte) (width : Int) : PrintM Unit := do
  let length := (BitVec.ofNat 32 text.length).toInt
  if length < 0 then throw .overflow
  else putPadded flags (chr ' ') (text.take length.toNat) width

/-- The text at `number` before the padding: the digits with NUL, the zero of an octal number, the sign and the
prefix of a hexadecimal number. -/
def numberText (state : PrintState) (flags : Flags) (char : Byte) (base : Nat) : List Byte :=
  let text := ultoa (if flags.llongint then state.ull else state.ul) base (char = chr 'X')
  let text := if flags.alt ∧ base = 8 ∧ text.head? ≠ some (chr '0') then chr '0' :: text else text
  let text := if flags.sign ≠ 0 then flags.sign :: text else text
  if flags.alt ∧ base = 16 ∧ (state.ull ≠ 0 ∨ state.ul ≠ 0) then chr '0' :: char :: text else text

/-- The code at `number`. -/
def number (flags : Flags) (char : Byte) (base : Nat) (width : Int) : PrintM Unit := do
  let text := numberText (← get) flags char base
  let padc := if flags.zeropad then chr '0' else chr ' '
  if flags.zeropad ∧ flags.sign ≠ 0 ∧ flags.ladjust = false then
    emit flags.sign
    putPadded flags padc text.tail (width - 1)
  else putPadded flags padc text width

/-- The magnitude of a signed argument, with the flags, whose sign a negative one sets. -/
def magnitude (flags : Flags) (value : BitVec 64) : PrintM (Flags × BitVec 64) := do
  if value.toInt < 0 then
    if value = BitVec.intMin 64 then throw .overflow
    else return ({ flags with sign := chr '-' }, -value)
  else return (flags, value)

/-- The argument of `d` and `i` that goes to `ul`. -/
def signedLong (flags : Flags) : PrintM (BitVec 64) :=
  if flags.sizeint ∨ flags.ptrint then argLong
  else (fun value => if flags.shortint then (value.truncate 16).signExtend 64 else value) <$>
    if flags.longint then argLong else BitVec.signExtend 64 <$> argInt

/-- The argument of `d` and `i`, which goes to `ull` or `ul`. -/
def signedArg (flags : Flags) : PrintM Flags := do
  if flags.llongint then
    let (flags, value) ← magnitude flags (← argLong)
    modify fun state => { state with ull := value }
    return flags
  else
    let (flags, value) ← magnitude flags (← signedLong flags)
    modify fun state => { state with ul := value }
    return flags

/-- The argument at `unsignednumber` that goes to `ul`. -/
def unsignedLong (flags : Flags) : PrintM (BitVec 64) :=
  if flags.sizeint ∨ flags.ptrint then argLong
  else (fun value => if flags.shortint then (value.truncate 16).zeroExtend 64 else value) <$>
    if flags.longint then argLong else BitVec.zeroExtend 64 <$> argInt

/-- The argument at `unsignednumber`, which goes to `ull` or `ul`. -/
def unsignedArg (flags : Flags) : PrintM Unit := do
  if flags.llongint then
    let value ← argLong
    modify fun state => { state with ull := value }
  else
    let value ← unsignedLong flags
    modify fun state => { state with ul := value }

/-- The text of a null pointer. -/
def nullText : List Byte := [chr '(', chr 'n', chr 'u', chr 'l', chr 'l', chr ')']

/-- The store of `ret` for the conversion `n`. -/
def storeCount (flags : Flags) : PrintM Unit := do
  let address ← argPointer
  let size := if flags.llongint ∨ flags.longint then 8 else if flags.shortint then 2 else 4
  modify fun state => { state with stores := (address, size, state.ret) :: state.stores }

/-- The sign in front of what `dtoa_f`, `dtoa_e` or `dtoa_g` has written. -/
def floatText (flags : Flags) (text : List Byte) (sign : Byte) : List Byte :=
  if sign ≠ 0 then sign :: text
  else if flags.alt ∧ text.head? ≠ some (chr '-') ∧ text.head? ≠ some (chr '+') then chr '+' :: text
  else text

/-- The switch over the conversion specifier. What `dtoa_f`, `dtoa_e` and `dtoa_g` write, and the sign that they
leave, is a parameter. -/
def convert (dtoa : Byte → Flags → Int → BitVec 64 → List Byte × Byte) (char : Byte) (flags : Flags)
    (width prec : Int) : PrintM Unit := do
  if char = chr 'd' ∨ char = chr 'i' then
    let flags ← signedArg flags
    number flags char 10 width
  else if char = chr 'o' then
    unsignedArg flags
    number flags char 8 width
  else if char = chr 'u' then
    unsignedArg flags
    number flags char 10 width
  else if char = chr 'x' ∨ char = chr 'X' then
    unsignedArg flags
    number flags char 16 width
  else if char = chr 'c' then
    let value ← argInt
    strout flags [value.truncate 8] width
  else if char = chr 's' then
    let text := (← argStr).getD nullText
    strout flags (if 0 ≤ prec then text.take prec.toNat else text) width
  else if char = chr 'p' then
    let address ← argPointer
    modify fun state => { state with ul := address }
    strout flags (chr '0' :: chr 'x' :: ultoa address 16 false) width
  else if char = chr 'n' then storeCount flags
  else if char = chr '%' then emit (chr '%')
  else if char ∈ ['f', 'F', 'e', 'E', 'g', 'G'].map chr then
    let (text, sign) := dtoa char flags prec (← argDouble)
    strout flags (floatText flags text sign) width
  else if char = 0 then emit (chr '%')
  else
    emit (chr '%')
    emit char

section Loop

variable (dtoa : Byte → Flags → Int → BitVec 64 → List Byte × Byte)

/-- The flags and the field width behind a percent sign, with the character behind them. -/
def readField : PrintM (Byte × Flags × Int) := do
  let (char, flags) ← parse fun rest => flagLoop rest {}
  readWidth char flags

/-- The body of the loop behind a percent sign. -/
def directive : PrintM Unit := do
  let (char, flags, width) ← readField
  let (char, prec) ← readPrecision char
  let (char, flags) ← readLength char flags
  convert dtoa char flags width prec

/-- The loop over the format, for as many rounds as the fuel allows. -/
def vfprintfLoop : Nat → PrintM Nat
  | 0 => throw .outOfFuel
  | fuel + 1 => do
      let char ← next
      if char = 0 then return (← get).ret
      else if char = chr '%' then
        directive dtoa
        vfprintfLoop fuel
      else
        emit char
        vfprintfLoop fuel

/-- This is `vfprintf` on a stream that accepts every character. The variables `ul` and `ull` start with whatever
their places hold. -/
def vfprintf (ul ull : BitVec 64) (format : List Byte) (args : List Arg) : EStateM.Result Fault PrintState Nat :=
  vfprintfLoop dtoa (format.length + 1) { format := format ++ [0], args := args, ul := ul, ull := ull }

end Loop

/-- The fields of a `FILE` that `__sputc` and `__swbuf` read for a stream with `__SSTR`, with the bytes at and behind
the pointer that the stream was set up with. -/
structure StringFile where
  position : Nat := 0
  space : Int
  lbfsize : Int := 0
  err : Bool := false
  bytes : Nat → Byte

/-- This is `__sputc` for a stream with `__SSTR`, for which `__swbuf` returns `EOF`. The result is `none` where `_w`
overflows. -/
def sputc (file : StringFile) (char : Byte) : Option (Bool × StringFile) :=
  if file.space = -2147483648 then none
  else
    let file := { file with space := file.space - 1 }
    if 0 ≤ file.space ∨ (file.lbfsize ≤ file.space ∧ char ≠ chr '\n') then
      some (true, { file with bytes := Function.update file.bytes file.position char, position := file.position + 1 })
    else some (false, { file with err := true })

/-- The calls of `fputc` up to the first one that fails. -/
def feed : List Byte → StringFile → Option (Bool × StringFile)
  | [], file => some (true, file)
  | char :: rest, file =>
      match sputc file char with
      | none => none
      | some (true, file) => feed rest file
      | some (false, file) => some (false, file)

/-- The calls of `fputc` on a stream by `vfprintf`, which returns `-1` at the first one that fails. -/
def vfprintfTo (dtoa : Byte → Flags → Int → BitVec 64 → List Byte × Byte) (ul ull : BitVec 64) (file : StringFile)
    (format : List Byte) (args : List Arg) : Except Fault (Int × StringFile) :=
  match vfprintf dtoa ul ull format args with
  | .ok ret state =>
      match feed state.out file with
      | none => .error .overflow
      | some (true, file) => .ok (ret, file)
      | some (false, file) => .ok (-1, file)
  | .error fault state =>
      match feed state.out file with
      | some (false, file) => .ok (-1, file)
      | _ => .error fault

/-- This is `vsnprintf`, with the bytes from `str` on. A size of zero writes to a variable of its own. -/
def vsnprintf (dtoa : Byte → Flags → Int → BitVec 64 → List Byte × Byte) (ul ull : BitVec 64) (bytes : Nat → Byte)
    (size : BitVec 64) (format : List Byte) (args : List Arg) : Except Fault (Int × (Nat → Byte)) :=
  if size = 0 then
    (vfprintfTo dtoa ul ull { space := 0, bytes := fun _ => 0 } format args).map fun result => (result.1, bytes)
  else
    (vfprintfTo dtoa ul ull { space := ((size - 1).truncate 32).toInt, bytes := bytes } format args).map fun result =>
      (result.1, Function.update result.2.bytes result.2.position 0)

end Uesi.Printf
