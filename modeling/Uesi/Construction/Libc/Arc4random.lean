import Uesi.Library.Loop

namespace Uesi.Arc4random

open Library (countedLoop)

/-- The sixteen words of a ChaCha state or block. -/
abbrev Words := Vector (BitVec 32) 16

/-- The `chacha_ctx` of the generator. At most one block is left over. -/
structure ChachaCtx where
  state : Words
  keystream : Words
  available : Nat
  initialized : Bool
  bounded : available ≤ 64

/-- The zeroed `global_rng`. -/
def globalRng : ChachaCtx where
  state := Vector.replicate 16 0
  keystream := Vector.replicate 16 0
  available := 0
  initialized := false
  bounded := Nat.zero_le 64

/-- The `ROTL32` macro. -/
def rotl32 (x : BitVec 32) (n : Nat) : BitVec 32 := x <<< n ||| x >>> (32 - n)

def chachaQuarterround (a b c d : Fin 16) (x : Words) : Words :=
  let x := x.set a (x.get a + x.get b)
  let x := x.set d (rotl32 (x.get d ^^^ x.get a) 16)
  let x := x.set c (x.get c + x.get d)
  let x := x.set b (rotl32 (x.get b ^^^ x.get c) 12)
  let x := x.set a (x.get a + x.get b)
  let x := x.set d (rotl32 (x.get d ^^^ x.get a) 8)
  let x := x.set c (x.get c + x.get d)
  x.set b (rotl32 (x.get b ^^^ x.get c) 7)

/-- One round of the loop of `chacha_block`: the four columns, then the four diagonals. -/
def doubleRound (x : Words) : Words :=
  let x := chachaQuarterround 0 4 8 12 x
  let x := chachaQuarterround 1 5 9 13 x
  let x := chachaQuarterround 2 6 10 14 x
  let x := chachaQuarterround 3 7 11 15 x
  let x := chachaQuarterround 0 5 10 15 x
  let x := chachaQuarterround 1 6 11 12 x
  let x := chachaQuarterround 2 7 8 13 x
  chachaQuarterround 3 4 9 14 x

def chachaBlock (input : Words) : Words :=
  (countedLoop (fun _ => doubleRound) 10 input).zipWith (· + ·) input

/-- What the two calls of `get_entropy` return. -/
structure Entropy where
  key : Vector (BitVec 32) 8
  nonce : Vector (BitVec 32) 2

/-- The words of `chacha_init` with a block counter in words 12 and 13. -/
def stateWords (entropy : Entropy) (low high : BitVec 32) : Words :=
  let key := entropy.key
  let nonce := entropy.nonce
  #v[0x61707865, 0x3320646e, 0x79622d32, 0x6b206574,
    key.get 0, key.get 1, key.get 2, key.get 3, key.get 4, key.get 5, key.get 6, key.get 7,
    low, high, nonce.get 0, nonce.get 1]

def chachaInit (entropy : Entropy) (ctx : ChachaCtx) : ChachaCtx where
  state := stateWords entropy 0 0
  keystream := ctx.keystream
  available := 0
  initialized := true
  bounded := Nat.zero_le 64

/-- The bytes of a word in memory. -/
def wordBytes (word : BitVec 32) : List (BitVec 8) :=
  [word.extractLsb' 0 8, word.extractLsb' 8 8, word.extractLsb' 16 8, word.extractLsb' 24 8]

/-- The bytes of a block in memory. -/
def blockBytes (block : Words) : List (BitVec 8) := block.toList.flatMap wordBytes

/-- The `++ctx->state[12]` with its carry into word 13. -/
def nextCounter (state : Words) : Words :=
  let state := state.set 12 (state.get 12 + 1)
  if state.get 12 = 0 then state.set 13 (state.get 13 + 1) else state

/-- The branch of `chacha_getbytes` for a used-up block. -/
def refill (ctx : ChachaCtx) : ChachaCtx :=
  if ctx.available = 0 then
    { ctx with
      keystream := chachaBlock ctx.state
      available := 64
      state := nextCounter ctx.state
      bounded := le_rfl }
  else ctx

theorem refill_available (ctx : ChachaCtx) : 0 < (refill ctx).available := by
  unfold refill
  split
  · exact Nat.zero_lt_succ 63
  · omega

/-- The context after some bytes of its block were copied out. -/
def consume (ctx : ChachaCtx) (use : Nat) : ChachaCtx :=
  { ctx with available := ctx.available - use, bounded := (Nat.sub_le _ _).trans ctx.bounded }

def chachaGetbytes (ctx : ChachaCtx) (len : Nat) : ChachaCtx × List (BitVec 8) :=
  if 0 < len then
    let filled := refill ctx
    let use := if len < filled.available then len else filled.available
    let offset := 64 - filled.available
    let out := ((blockBytes filled.keystream).drop offset).take use
    let rest := chachaGetbytes (consume filled use) (len - use)
    (rest.1, out ++ rest.2)
  else (ctx, [])
termination_by len
decreasing_by
  have held := refill_available ctx
  split <;> omega

/-- The test of `initialized` at the head of both entry points. -/
def prepare (entropy : Entropy) (ctx : ChachaCtx) : ChachaCtx :=
  if ctx.initialized then ctx else chachaInit entropy ctx

/-- The word whose bytes in memory are given. -/
def wordOf (bytes : List (BitVec 8)) : BitVec 32 :=
  bytes.getD 3 0 ++ bytes.getD 2 0 ++ bytes.getD 1 0 ++ bytes.getD 0 0

def arc4random (entropy : Entropy) (ctx : ChachaCtx) : ChachaCtx × BitVec 32 :=
  let (ctx, val) := chachaGetbytes (prepare entropy ctx) 4
  (ctx, wordOf val)

def arc4randomBuf (entropy : Entropy) (ctx : ChachaCtx) (nbytes : Nat) : ChachaCtx × List (BitVec 8) :=
  chachaGetbytes (prepare entropy ctx) nbytes

/-- The threshold of `arc4random_uniform`, in 32-bit arithmetic. -/
def uniformMin (upperBound : BitVec 32) : BitVec 32 := (0xFFFFFFFF - upperBound + 1) % upperBound

/-- The loop of `arc4random_uniform`. It has no result when the fuel does not last. -/
def drawAbove (entropy : Entropy) (min : BitVec 32) : Nat → ChachaCtx → Option (ChachaCtx × BitVec 32)
  | 0, _ => none
  | fuel + 1, ctx =>
      let (ctx, r) := arc4random entropy ctx
      if r < min then drawAbove entropy min fuel ctx else some (ctx, r)

def arc4randomUniform (entropy : Entropy) (fuel : Nat) (ctx : ChachaCtx) (upperBound : BitVec 32) :
    Option (ChachaCtx × BitVec 32) :=
  if upperBound < 2 then some (ctx, 0)
  else (drawAbove entropy (uniformMin upperBound) fuel ctx).map fun (ctx, r) => (ctx, r % upperBound)

/-- A call of one of the two entry points that return bytes of the stream. -/
inductive Call where
  | arc4random
  | arc4randomBuf (nbytes : Nat)
  deriving DecidableEq

/-- A call with the bytes that it leaves in the memory of its caller. -/
def Call.step (entropy : Entropy) (ctx : ChachaCtx) : Call → ChachaCtx × List (BitVec 8)
  | .arc4random =>
      let (ctx, val) := Arc4random.arc4random entropy ctx
      (ctx, wordBytes val)
  | .arc4randomBuf nbytes => Arc4random.arc4randomBuf entropy ctx nbytes

/-- The number of bytes that a call returns. -/
def Call.size : Call → Nat
  | .arc4random => 4
  | .arc4randomBuf nbytes => nbytes

end Uesi.Arc4random
