import Uesi.Construction.Libc.Arc4random
import Uesi.Library.Counting

namespace Uesi.Arc4random

open Library

variable {position : Nat} {ctx : ChachaCtx} (entropy : Entropy)

/-- The words of the state at a value of the counter in words 12 and 13. -/
def counterState (entropy : Entropy) (counter : BitVec 64) : Words :=
  stateWords entropy (counter.setWidth 32) ((counter >>> 32).setWidth 32)

/-- The counter of the block that holds a byte of the stream, and the place of the byte in it. -/
def place (position : Nat) : BitVec 64 × Nat := (BitVec.ofNat 64 (position / 64), position % 64)

/-- A byte of the concatenated blocks. -/
def streamByte (entropy : Entropy) (position : Nat) : BitVec 8 :=
  (blockBytes (chachaBlock (counterState entropy (place position).1))).getD (place position).2 0

/-- Consecutive bytes of the concatenated blocks. -/
def stream (entropy : Entropy) (position len : Nat) : List (BitVec 8) :=
  (List.range len).map fun index => streamByte entropy (position + index)

theorem stream_append (position first second : Nat) :
    stream entropy position first ++ stream entropy (position + first) second =
      stream entropy position (first + second) := by
  simp only [stream, List.range_add, List.map_append, List.map_map, Function.comp_def, Nat.add_assoc]

@[simp] theorem length_blockBytes (block : Words) : (blockBytes block).length = 64 := by
  have four : block.toList.map (fun word => (wordBytes word).length) = block.toList.map fun _ => 4 :=
    List.map_congr_left fun _ _ => rfl
  rw [blockBytes, List.length_flatMap, four]
  simp

/-- The carry into word 13 makes the two words one counter. -/
theorem nextCounter_counterState (counter : BitVec 64) :
    nextCounter (counterState entropy counter) = counterState entropy (counter + 1) := by
  have next : nextCounter (counterState entropy counter) =
      if counter.setWidth 32 + 1 = 0 then
        stateWords entropy (counter.setWidth 32 + 1) ((counter >>> 32).setWidth 32 + 1)
      else stateWords entropy (counter.setWidth 32 + 1) ((counter >>> 32).setWidth 32) := rfl
  have low : counter.setWidth 32 + 1 = (counter + 1).setWidth 32 := by bv_omega
  rw [next, counterState, low]
  split
  · rename_i wraps
    have high : ((counter >>> 32).setWidth 32 + 1 : BitVec 32) = ((counter + 1) >>> 32).setWidth 32 := by
      have wraps := congrArg BitVec.toNat wraps
      apply BitVec.eq_of_toNat_eq
      simp [Nat.shiftRight_eq_div_pow] at wraps ⊢
      omega
    rw [high]
  · rename_i wraps
    have high : (counter >>> 32).setWidth 32 = ((counter + 1) >>> 32).setWidth 32 := by
      have wraps := wraps ∘ BitVec.eq_of_toNat_eq
      apply BitVec.eq_of_toNat_eq
      simp [Nat.shiftRight_eq_div_pow] at wraps ⊢
      omega
    rw [high]

/-- The generator has handed out the bytes of the stream below a position. -/
structure At (entropy : Entropy) (ctx : ChachaCtx) (position : Nat) : Prop where
  initialized : ctx.initialized = true
  aligned : 64 ∣ position + ctx.available
  state : ctx.state = counterState entropy (place (position + ctx.available)).1
  keystream : 0 < ctx.available → ctx.keystream = chachaBlock (counterState entropy (place position).1)

theorem At.init (ctx : ChachaCtx) : At entropy (chachaInit entropy ctx) 0 where
  initialized := rfl
  aligned := ⟨0, rfl⟩
  state := by simp [chachaInit, counterState, place]
  keystream impossible := absurd impossible (Nat.lt_irrefl 0)

section Getbytes

variable {entropy : Entropy} {ctx : ChachaCtx} {position : Nat}

theorem At.refill (held : At entropy ctx position) : At entropy (refill ctx) position := by
  obtain ⟨initialized, aligned, state, keystream⟩ := held
  unfold Arc4random.refill
  split
  · rename_i used
    rw [used] at aligned state
    have next : (place (position + 64)).1 = (place position).1 + 1 := by
      simp only [place, Nat.add_div_right position (show 0 < 64 by decide)]
      rw [BitVec.ofNat_add]
      rfl
    refine ⟨initialized, ?_, ?_, fun _ => ?_⟩
    · exact (Nat.dvd_add_left (dvd_refl 64)).mpr aligned
    · rw [state]
      exact (nextCounter_counterState entropy _).trans (congrArg _ next.symm)
    · rw [state]
      rfl
  · exact ⟨initialized, aligned, state, keystream⟩

theorem At.consume (held : At entropy ctx position) {use : Nat} (left : use ≤ ctx.available) :
    At entropy (consume ctx use) (position + use) := by
  have total : position + use + (ctx.available - use) = position + ctx.available := by omega
  refine ⟨held.initialized, ?_, ?_, fun more => ?_⟩
  · exact total ▸ held.aligned
  · exact held.state.trans (congrArg (fun bytes => counterState entropy (place bytes).1) total.symm)
  · have bounded := ctx.bounded
    have aligned := held.aligned
    have more : 0 < ctx.available - use := more
    have same : (position + use) / 64 = position / 64 := by omega
    rw [place, same]
    exact held.keystream (by omega)

/-- The bytes that are left of a block are the next ones of the stream. -/
theorem At.block (held : At entropy ctx position) {use : Nat} (left : use ≤ ctx.available)
    (some : 0 < ctx.available) :
    ((blockBytes ctx.keystream).drop (64 - ctx.available)).take use = stream entropy position use := by
  have bounded := ctx.bounded
  have aligned := held.aligned
  apply List.ext_getElem
  · simp [stream]
    omega
  · intro index inside _
    have below : index < use := by
      simp only [List.length_take, List.length_drop, length_blockBytes] at inside
      omega
    have block : (position + index) / 64 = position / 64 := by omega
    have offset : (position + index) % 64 = 64 - ctx.available + index := by omega
    simp only [List.getElem_take, List.getElem_drop, stream, List.getElem_map, List.getElem_range,
      streamByte, place, block, offset]
    rw [List.getD_eq_getElem?_getD, List.getElem?_eq_getElem (by rw [length_blockBytes]; omega)]
    simp only [held.keystream some, place, Option.getD_some]

/-- Any request returns the next bytes of the stream and moves the position behind them. -/
theorem At.getbytes (held : At entropy ctx position) (len : Nat) :
    At entropy (chachaGetbytes ctx len).1 (position + len) ∧
      (chachaGetbytes ctx len).2 = stream entropy position len := by
  induction len using Nat.strong_induction_on generalizing ctx position with
  | _ len ih =>
      rw [chachaGetbytes]
      by_cases wanted : 0 < len
      · rw [if_pos wanted]
        have filled := held.refill
        have some := refill_available ctx
        generalize Arc4random.refill ctx = full at filled some
        obtain ⟨use, chosen⟩ :
            ∃ use, (if len < full.available then len else full.available) = use := ⟨_, rfl⟩
        have within : use ≤ full.available ∧ use ≤ len ∧ 0 < use := by
          split at chosen <;> omega
        simp only [chosen]
        obtain ⟨rest, bytes⟩ := ih (len - use) (by omega) (filled.consume within.1)
        have total : use + (len - use) = len := by omega
        rw [Nat.add_assoc, total] at rest
        rw [bytes, filled.block within.1 some, stream_append, total]
        exact ⟨rest, rfl⟩
      · obtain rfl : len = 0 := by omega
        rw [if_neg wanted]
        exact ⟨held, rfl⟩

end Getbytes

/-- The bytes of a word that was read from four bytes are those bytes. -/
theorem wordBytes_wordOf {bytes : List (BitVec 8)} (four : bytes.length = 4) : wordBytes (wordOf bytes) = bytes := by
  obtain ⟨a, b, c, d, rfl⟩ : ∃ a b c d, bytes = [a, b, c, d] := List.length_eq_four.mp four
  simp only [wordBytes, wordOf, List.getD_cons_zero, List.getD_cons_succ, List.cons.injEq, and_true]
  refine ⟨?_, ?_, ?_, ?_⟩ <;> grind

/-- The number of bytes that a sequence of calls returns. -/
def totalSize (calls : List Call) : Nat := (calls.map Call.size).sum

/-- The generator is at a position of the stream, or it has not been started. -/
def Reached (entropy : Entropy) (ctx : ChachaCtx) (position : Nat) : Prop :=
  At entropy (prepare entropy ctx) position

theorem Reached.start : Reached entropy globalRng 0 := At.init entropy globalRng

theorem At.reached {entropy : Entropy} (held : At entropy ctx position) : Reached entropy ctx position := by
  unfold Reached prepare
  rwa [if_pos held.initialized]

/-- Each entry point hands out the next bytes of the stream. -/
theorem Reached.step {entropy : Entropy} (held : Reached entropy ctx position) (call : Call) :
    Reached entropy (call.step entropy ctx).1 (position + call.size) ∧
      (call.step entropy ctx).2 = stream entropy position call.size := by
  cases call with
  | arc4random =>
      obtain ⟨next, bytes⟩ := held.getbytes 4
      have four : (chachaGetbytes (prepare entropy ctx) 4).2.length = 4 := by simp [bytes, stream]
      exact ⟨next.reached, (wordBytes_wordOf four).trans bytes⟩
  | arc4randomBuf nbytes =>
      obtain ⟨next, bytes⟩ := held.getbytes nbytes
      exact ⟨next.reached, bytes⟩

/-- A sequence of calls moves the position by its size. -/
theorem Reached.run {entropy : Entropy} (held : Reached entropy ctx position) (calls : List Call) :
    Reached entropy (run (fun ctx call => (Call.step entropy ctx call).1) ctx calls)
        (position + totalSize calls) ∧
      (trace (Call.step entropy) ctx calls).flatten = stream entropy position (totalSize calls) := by
  induction calls generalizing ctx position with
  | nil => exact ⟨held, rfl⟩
  | cons call rest ih =>
      obtain ⟨next, bytes⟩ := held.step call
      obtain ⟨last, more⟩ := ih next
      have total : totalSize (call :: rest) = call.size + totalSize rest := by simp [totalSize]
      rw [total, ← Nat.add_assoc, run_cons, trace, List.flatten_cons, more, bytes, stream_append]
      exact ⟨last, rfl⟩

/-- Whatever calls came before, the calls return the bytes of the successive blocks in order. Calls with
the same size return the same bytes, and the places of 2 ^ 70 bytes in a row are all different. -/
theorem calls_return_stream (entropy : Entropy) (earlier later : List Call) :
    let ctx := run (fun ctx call => (Call.step entropy ctx call).1) globalRng earlier
    let returned := fun calls => (trace (Call.step entropy) ctx calls).flatten
    returned later = stream entropy (totalSize earlier) (totalSize later) ∧
      (∀ other, totalSize other = totalSize later → returned other = returned later) ∧
      ∀ first second, first < 2 ^ 70 → second < 2 ^ 70 →
        place (totalSize earlier + first) = place (totalSize earlier + second) → first = second := by
  have reached := ((Reached.start entropy).run earlier).1
  rw [Nat.zero_add] at reached
  refine ⟨(reached.run later).2, fun other same => ?_, fun first second below under same => ?_⟩
  · exact (reached.run other).2.trans (same ▸ (reached.run later).2.symm)
  · obtain ⟨block, offset⟩ := Prod.mk.inj same
    have counters := congrArg BitVec.toNat block
    simp only [BitVec.toNat_ofNat] at counters
    omega

section Uniform

/-- The successive draws of the loop of `arc4random_uniform`, with the contexts after them. -/
def draws (entropy : Entropy) : Nat → ChachaCtx → List (ChachaCtx × BitVec 32)
  | 0, _ => []
  | count + 1, ctx => arc4random entropy ctx :: draws entropy count (arc4random entropy ctx).1

theorem drawAbove_eq (min : BitVec 32) (fuel : Nat) (ctx : ChachaCtx) :
    drawAbove entropy min fuel ctx = (draws entropy fuel ctx).find? fun draw => ¬ draw.2 < min := by
  induction fuel generalizing ctx with
  | zero => rfl
  | succ fuel ih =>
      rw [drawAbove, draws, List.find?_cons]
      by_cases low : (arc4random entropy ctx).2 < min
      · simp only [low, if_true, not_true, decide_false]
        exact ih _
      · simp only [low, if_false, not_false_eq_true, decide_true]

variable {upperBound : BitVec 32}

/-- The threshold is the number of draws beyond the last whole period. -/
theorem toNat_uniformMin (positive : 0 < upperBound.toNat) :
    (uniformMin upperBound).toNat = 2 ^ 32 % upperBound.toNat := by
  have below := upperBound.isLt
  have room : (0xFFFFFFFF - upperBound + 1).toNat = 2 ^ 32 - upperBound.toNat := by bv_omega
  rw [uniformMin, BitVec.toNat_umod, room, Nat.mod_eq_sub_mod (Nat.le_of_lt below)]

/-- The accepted draws make up whole periods. -/
theorem accepted_range (positive : 0 < upperBound.toNat) :
    (Finset.Ico 0 (2 ^ 32)).filter (fun draw => (uniformMin upperBound).toNat ≤ draw) =
      Finset.Ico (uniformMin upperBound).toNat
        ((uniformMin upperBound).toNat + 2 ^ 32 / upperBound.toNat * upperBound.toNat) := by
  have whole : (uniformMin upperBound).toNat + 2 ^ 32 / upperBound.toNat * upperBound.toNat = 2 ^ 32 := by
    rw [toNat_uniformMin positive, Nat.mod_add_div']
  rw [whole]
  ext draw
  simp only [Finset.mem_filter, Finset.mem_Ico]
  omega

/-- Each result comes from the same number of accepted draws, more than half of all draws are accepted,
and the result is the first accepted draw modulo the bound. -/
theorem arc4randomUniform_unbiased (entropy : Entropy) (upperBound : BitVec 32) (proper : 2 ≤ upperBound) :
    (∀ value < upperBound,
        {draw : BitVec 32 | ¬ draw < uniformMin upperBound ∧ draw % upperBound = value}.ncard =
          2 ^ 32 / upperBound.toNat) ∧
      2 ^ 31 < {draw : BitVec 32 | ¬ draw < uniformMin upperBound}.ncard ∧
      ∀ fuel ctx,
        arc4randomUniform entropy fuel ctx upperBound =
            ((draws entropy fuel ctx).find? fun draw => ¬ draw.2 < uniformMin upperBound).map
              (fun draw => (draw.1, draw.2 % upperBound)) ∧
          ∀ result ∈ arc4randomUniform entropy fuel ctx upperBound, result.2 < upperBound := by
  have positive : 0 < upperBound.toNat := by
    have := BitVec.le_def.mp proper
    exact lt_of_lt_of_le (by decide) this
  refine ⟨fun value below => ?_, ?_, fun fuel ctx => ?_⟩
  · have property : {draw : BitVec 32 | ¬ draw < uniformMin upperBound ∧ draw % upperBound = value} =
        {draw | (uniformMin upperBound).toNat ≤ draw.toNat ∧ draw.toNat % upperBound.toNat = value.toNat} := by
      ext draw
      simp only [Set.mem_ofPred_eq, BitVec.lt_def, not_lt, ← BitVec.toNat_inj, BitVec.toNat_umod]
    rw [property, ncard_words 32 (fun draw => _ ≤ draw ∧ draw % _ = _), ← Finset.filter_filter,
      accepted_range positive, card_residue (BitVec.lt_def.mp below)]
  · have property : {draw : BitVec 32 | ¬ draw < uniformMin upperBound} =
        {draw | (uniformMin upperBound).toNat ≤ draw.toNat} := by
      ext draw
      simp only [Set.mem_ofPred_eq, BitVec.lt_def, not_lt]
    rw [property, ncard_words 32 (fun draw => _ ≤ draw), accepted_range positive, Nat.card_Ico]
    have threshold := toNat_uniformMin positive
    have whole := Nat.div_add_mod' (2 ^ 32) upperBound.toNat
    have small := Nat.mod_lt (2 ^ 32) positive
    have once : upperBound.toNat ≤ 2 ^ 32 / upperBound.toNat * upperBound.toNat :=
      Nat.le_mul_of_pos_left _ (Nat.div_pos (Nat.le_of_lt upperBound.isLt) positive)
    omega
  · have least : ¬ upperBound < 2 := BitVec.not_lt.mpr proper
    rw [arc4randomUniform, if_neg least, drawAbove_eq]
    refine ⟨rfl, fun result found => ?_⟩
    obtain ⟨draw, _, rfl⟩ := Option.map_eq_some_iff.mp found
    exact BitVec.umod_lt _ (BitVec.lt_def.mpr positive)

theorem arc4randomUniform_unbiased_six :
    (2 : BitVec 32) ≤ 6 ∧ 2 ^ 31 < {draw : BitVec 32 | ¬ draw < uniformMin 6}.ncard :=
  ⟨by decide, (arc4randomUniform_unbiased ⟨Vector.replicate 8 0, Vector.replicate 2 0⟩ 6 (by decide)).2.1⟩

end Uniform

end Uesi.Arc4random
