import Uesi.Construction.Libc.Printf
import Uesi.Library.Exec

namespace Uesi.Printf

open Library

variable (flags : Flags) (text : List Byte)

/-- The return value counts the characters and is an `int`. -/
def Counted (state : PrintState) : Prop := state.ret = state.out.length ∧ state.ret ≤ intMax

/-- An action that returns only with the characters counted. -/
def Counts {α : Type} (action : PrintM α) : Prop :=
  ∀ state, Counted state → Post (fun _ => True) action (fun _ => Counted) state

section Rules

variable {α β : Type}

theorem Counts.pure (value : α) : Counts (pure value : PrintM α) := fun _ counted => counted

theorem Counts.throw (fault : Fault) : Counts (throw fault : PrintM α) := fun _ _ => trivial

theorem Counts.get : Counts (get : PrintM PrintState) := fun _ counted => counted

theorem Counts.bind {action : PrintM α} {next : α → PrintM β} (first : Counts action)
    (rest : ∀ value, Counts (next value)) : Counts (action >>= next) :=
  fun state counted => (first state counted).seq fun value final held => rest value final held

theorem Counts.map {action : PrintM α} {change : α → β} (first : Counts action) : Counts (change <$> action) :=
  first.bind fun value => Counts.pure (change value)

theorem Counts.ite {condition : Prop} [Decidable condition] {first second : PrintM α} (yes : Counts first)
    (no : Counts second) : Counts (if condition then first else second) :=
  fun state counted => Post.ite (fun _ => yes state counted) fun _ => no state counted

/-- A change of other variables. -/
theorem Counts.modify {change : PrintState → PrintState}
    (same : ∀ state, (change state).ret = state.ret ∧ (change state).out = state.out) :
    Counts (modify change : PrintM PUnit) := by
  intro state counted
  rw [post_modify, Counted, (same state).1, (same state).2]
  exact counted

end Rules

theorem counts_emit (char : Byte) : Counts (emit char) := by
  intro state counted
  unfold emit
  rw [post_bind, post_modify, post_bind, post_get]
  refine Post.ite (fun _ => trivial) fun room => ?_
  rw [post_modify]
  refine ⟨?_, Nat.not_le.mp room⟩
  dsimp only
  rw [counted.1, List.length_append]
  rfl

theorem counts_emitAll : Counts (emitAll text) := by
  induction text with
  | nil => exact Counts.pure ()
  | cons char rest ih => exact (counts_emit char).bind fun _ => ih

theorem counts_next : Counts next := by
  refine Counts.get.bind fun state => ?_
  cases state.format with
  | nil => exact Counts.throw _
  | cons char rest => exact (Counts.modify (by exact fun _ => ⟨rfl, rfl⟩)).bind fun _ => Counts.pure char

theorem counts_parse {α : Type} (step : List Byte → Except Fault (Byte × List Byte × α)) : Counts (parse step) := by
  refine Counts.get.bind fun state => ?_
  rcases step state.format with fault | ⟨char, rest, value⟩
  · exact Counts.throw fault
  · exact (Counts.modify (by exact fun _ => ⟨rfl, rfl⟩)).bind fun _ => Counts.pure (char, value)

theorem counts_vaArg {α : Type} (select : Arg → Option α) : Counts (vaArg select) := by
  refine Counts.get.bind fun state => ?_
  rcases state.args with _ | ⟨arg, rest⟩
  · exact Counts.throw _
  · dsimp only
    cases select arg with
    | none => exact Counts.throw _
    | some value => exact (Counts.modify (by exact fun _ => ⟨rfl, rfl⟩)).bind fun _ => Counts.pure value

theorem counts_readWidth (char : Byte) (flags : Flags) : Counts (readWidth char flags) := by
  refine Counts.ite ((counts_vaArg _).bind fun width => Counts.ite (Counts.ite (Counts.throw _) ?_) ?_) ?_
  · exact counts_next.bind fun _ => Counts.pure _
  · exact counts_next.bind fun _ => Counts.pure _
  · exact (counts_parse _).bind fun _ => Counts.pure _

theorem counts_readPrecision (char : Byte) : Counts (readPrecision char) := by
  refine Counts.ite (counts_next.bind fun char => Counts.ite ?_ ?_) (Counts.pure _)
  · exact (counts_vaArg _).bind fun _ => counts_next.bind fun _ => Counts.pure _
  · exact (counts_parse _).bind fun _ => Counts.pure _

theorem counts_readLength (char : Byte) (flags : Flags) : Counts (readLength char flags) := by
  have one : ∀ flags : Flags, Counts (do return (← next, flags)) := fun flags =>
    counts_next.bind fun _ => Counts.pure _
  have two : ∀ flags : Flags, Counts (do let _ ← next; return (← next, flags)) := fun flags =>
    counts_next.bind fun _ => one flags
  refine Counts.get.bind fun state => ?_
  exact Counts.ite (Counts.ite (two _) (one _)) (Counts.ite (Counts.ite (two _) (one _))
    (Counts.ite (one _) (Counts.ite (one _) (Counts.ite (one _) (Counts.pure _)))))

theorem counts_putPadded (padc : Byte) (text : List Byte) (width : Int) :
    Counts (putPadded flags padc text width) := by
  refine Counts.ite ?_ ?_
  · exact (counts_emitAll _).bind fun _ => counts_emitAll _
  · exact (counts_emitAll _).bind fun _ => (counts_emitAll _).bind fun _ => counts_emitAll _

theorem counts_strout (width : Int) : Counts (strout flags text width) :=
  Counts.ite (Counts.throw _) (counts_putPadded _ _ _ _)

theorem counts_number (char : Byte) (base : Nat) (width : Int) : Counts (number flags char base width) :=
  Counts.get.bind fun _ => Counts.ite ((counts_emit _).bind fun _ => counts_putPadded _ _ _ _)
    (counts_putPadded _ _ _ _)

theorem counts_magnitude (value : BitVec 64) : Counts (magnitude flags value) :=
  Counts.ite (Counts.ite (Counts.throw _) (Counts.pure _)) (Counts.pure _)

theorem counts_signedArg : Counts (signedArg flags) := by
  have long : Counts (signedLong flags) :=
    Counts.ite (counts_vaArg _) (Counts.map (Counts.ite (counts_vaArg _) (counts_vaArg _).map))
  refine Counts.ite ((counts_vaArg _).bind fun value => ?_) (long.bind fun value => ?_)
  all_goals exact (counts_magnitude flags value).bind fun _ =>
    (Counts.modify (by exact fun _ => ⟨rfl, rfl⟩)).bind fun _ => Counts.pure _

theorem counts_unsignedArg : Counts (unsignedArg flags) := by
  have long : Counts (unsignedLong flags) :=
    Counts.ite (counts_vaArg _) (Counts.map (Counts.ite (counts_vaArg _) (counts_vaArg _).map))
  exact Counts.ite ((counts_vaArg _).bind fun _ => Counts.modify (by exact fun _ => ⟨rfl, rfl⟩))
    (long.bind fun _ => Counts.modify (by exact fun _ => ⟨rfl, rfl⟩))

section Loop

variable (dtoa : Byte → Flags → Int → BitVec 64 → List Byte × Byte)

theorem counts_convert (char : Byte) (flags : Flags) (width prec : Int) :
    Counts (convert dtoa char flags width prec) := by
  have unsigned : ∀ base, Counts (do unsignedArg flags; number flags char base width) := fun base =>
    (counts_unsignedArg flags).bind fun _ => counts_number _ _ _ _
  refine Counts.ite ((counts_signedArg flags).bind fun _ => counts_number _ _ _ _) (Counts.ite (unsigned 8)
    (Counts.ite (unsigned 10) (Counts.ite (unsigned 16) (Counts.ite ?_ (Counts.ite ?_ (Counts.ite ?_
    (Counts.ite ?_ (Counts.ite (counts_emit _) (Counts.ite ?_ (Counts.ite (counts_emit _) ?_))))))))))
  · exact (counts_vaArg _).bind fun _ => counts_strout _ _ _
  · exact (counts_vaArg _).bind fun _ => counts_strout _ _ _
  · exact (counts_vaArg _).bind fun _ => (Counts.modify (by exact fun _ => ⟨rfl, rfl⟩)).bind fun _ =>
      counts_strout _ _ _
  · exact (counts_vaArg _).bind fun _ => Counts.modify (by exact fun _ => ⟨rfl, rfl⟩)
  · exact (counts_vaArg _).bind fun _ => counts_strout _ _ _
  · exact (counts_emit _).bind fun _ => counts_emit _

theorem counts_directive : Counts (directive dtoa) :=
  ((counts_parse _).bind fun _ => counts_readWidth _ _).bind fun _ => (counts_readPrecision _).bind fun _ =>
    (counts_readLength _ _).bind fun _ => counts_convert dtoa _ _ _ _

/-- The loop returns the number of the characters. -/
theorem vfprintfLoop_counts (fuel : Nat) (state : PrintState) (counted : Counted state) :
    Post (fun _ => True) (vfprintfLoop dtoa fuel)
      (fun ret final => ret = final.out.length ∧ ret ≤ intMax) state := by
  induction fuel generalizing state with
  | zero => trivial
  | succ fuel ih =>
      unfold vfprintfLoop
      refine (counts_next state counted).seq fun char after held => Post.ite (fun _ => held) fun _ => ?_
      refine Post.ite (fun _ => ?_) fun _ => ?_
      · exact (counts_directive dtoa after held).seq fun _ final kept => ih final kept
      · exact (counts_emit char after held).seq fun _ final kept => ih final kept

end Loop

section StringFile

variable {file : StringFile}

/-- The bytes with a text stored from a position on. -/
def storeAt (bytes : Nat → Byte) (position : Nat) : List Byte → Nat → Byte
  | [] => bytes
  | char :: rest => storeAt (Function.update bytes position char) (position + 1) rest

/-- A text that fits is stored. -/
theorem feed_fits (fits : (text.length : Int) ≤ file.space ∨ text = []) :
    ∃ final, feed text file = some (true, final) ∧ final.bytes = storeAt file.bytes file.position text ∧
      final.position = file.position + text.length := by
  induction text generalizing file with
  | nil => exact ⟨file, rfl, rfl, rfl⟩
  | cons char rest ih =>
      have room : (rest.length : Int) + 1 ≤ file.space := by
        rcases fits with enough | wrong
        · rw [List.length_cons] at enough
          push_cast at enough
          exact enough
        · exact nomatch wrong
      have step : sputc file char = some (true, { file with
          space := file.space - 1
          bytes := Function.update file.bytes file.position char
          position := file.position + 1 }) := by
        unfold sputc
        rw [if_neg (by omega)]
        dsimp only
        rw [if_pos (Or.inl (by omega))]
      obtain ⟨final, ran, bytes, position⟩ := @ih { file with
        space := file.space - 1
        bytes := Function.update file.bytes file.position char
        position := file.position + 1 } (Or.inl (by dsimp only; omega))
      refine ⟨final, ?_, bytes, ?_⟩
      · rw [feed, step]
        exact ran
      · rw [position, List.length_cons]
        dsimp only
        omega

/-- A text that does not fit ends in `EOF` or in an overflow of the counter. -/
theorem feed_overflows (plain : file.lbfsize = 0) (long : file.space < text.length) (some : text ≠ []) :
    ∀ final, feed text file ≠ Option.some (true, final) := by
  induction text generalizing file with
  | nil => exact absurd rfl some
  | cons char rest ih =>
      intro final
      rw [feed]
      unfold sputc
      by_cases least : file.space = -2147483648
      · rw [if_pos least]
        exact fun wrong => nomatch wrong
      rw [if_neg least]
      dsimp only
      by_cases room : 0 ≤ file.space - 1
      · rw [if_pos (Or.inl room)]
        rw [List.length_cons] at long
        push_cast at long
        have less : file.space - 1 < (rest.length : Int) := by omega
        refine @ih { file with
          space := file.space - 1
          bytes := Function.update file.bytes file.position char
          position := file.position + 1 } plain less (fun empty => ?_) final
        rw [empty, List.length_nil] at less
        push_cast at less
        omega
      · rw [if_neg (by rw [plain]; omega)]
        exact fun wrong => nomatch wrong

end StringFile

section Vsnprintf

variable (dtoa : Byte → Flags → Int → BitVec 64 → List Byte × Byte) (ul ull : BitVec 64) (format : List Byte)
  (args : List Arg)

/-- The number of characters that the stream of `vsnprintf` takes. -/
def capacity (size : BitVec 64) : Nat := if size = 0 then 0 else ((size - 1).truncate 32).toInt.toNat

/-- The stored text lies in front of the position and nothing else changes. -/
theorem storeAt_get (bytes : Nat → Byte) (position : Nat) (text : List Byte) (index : Nat) :
    storeAt bytes position text index =
      if index < position then bytes index else (text[index - position]?).getD (bytes index) := by
  induction text generalizing bytes position with
  | nil => simp [storeAt]
  | cons char rest ih =>
      rw [storeAt, ih]
      by_cases before : index < position
      · have early : index < position + 1 := by omega
        rw [if_pos before, if_pos early, Function.update_of_ne before.ne]
      · rw [if_neg before]
        by_cases here : index = position
        · rw [here, if_pos (Nat.lt_succ_self _), Function.update_self, Nat.sub_self]
          rfl
        · have later : ¬index < position + 1 := by omega
          have shift : index - position = (index - (position + 1)) + 1 := by omega
          rw [if_neg later, Function.update_of_ne here, shift, List.getElem?_cons_succ]

theorem vfprintfTo_ok {ret : Nat} {state : PrintState} {file : StringFile}
    (ran : vfprintf dtoa ul ull format args = .ok ret state) :
    vfprintfTo dtoa ul ull file format args =
      match feed state.out file with
      | none => .error .overflow
      | some (true, file) => .ok (ret, file)
      | some (false, file) => .ok (-1, file) := by
  cases fed : feed state.out file with
  | none => simp [vfprintfTo, ran, fed]
  | some taken =>
      obtain ⟨answer, after⟩ := taken
      cases answer with
      | true => simp [vfprintfTo, ran, fed]
      | false => simp [vfprintfTo, ran, fed]

/-- What a stream takes decides between the result of `vfprintf` and another one. -/
theorem vfprintfTo_cases {state : PrintState} {file : StringFile} (plain : file.lbfsize = 0)
    (ran : vfprintf dtoa ul ull format args = .ok state.out.length state) :
    (state.out.length ≤ file.space.toNat ∧ ∃ final,
      vfprintfTo dtoa ul ull file format args = .ok (state.out.length, final) ∧
      final.bytes = storeAt file.bytes file.position state.out ∧
      final.position = file.position + state.out.length) ∨
    (file.space.toNat < state.out.length ∧
      ∀ final, vfprintfTo dtoa ul ull file format args ≠ .ok (state.out.length, final)) := by
  rw [vfprintfTo_ok dtoa ul ull format args ran]
  by_cases fits : state.out.length ≤ file.space.toNat
  · refine Or.inl ⟨fits, ?_⟩
    have room : (state.out.length : Int) ≤ file.space ∨ state.out = [] := by
      by_cases empty : state.out = []
      · exact Or.inr empty
      · have positive := List.length_pos_iff.mpr empty
        exact Or.inl (by omega)
    obtain ⟨final, fed, bytes, position⟩ := feed_fits state.out room
    rw [fed]
    exact ⟨final, rfl, bytes, position⟩
  · refine Or.inr ⟨by omega, fun final => ?_⟩
    have nonempty : state.out ≠ [] := by
      intro empty
      rw [empty] at fits
      exact fits (Nat.zero_le _)
    have refused := feed_overflows state.out plain (by omega) nonempty
    rcases fed : feed state.out file with _ | ⟨answer, after⟩
    · exact fun wrong => nomatch wrong
    · cases answer with
      | true => exact absurd fed (refused after)
      | false =>
          intro wrong
          have same : (-1 : Int) = state.out.length := congrArg Prod.fst (Except.ok.inj wrong)
          omega

theorem capacity_lt {size : BitVec 64} (positive : size ≠ 0) : capacity size ≤ size.toNat - 1 := by
  have value : (size - 1).toNat = size.toNat - 1 := by
    have above : 0 < size.toNat := by
      rw [Nat.pos_iff_ne_zero]
      exact fun zero => positive (BitVec.eq_of_toNat_eq zero)
    bv_omega
  have narrow : ((size - 1).truncate 32).toNat ≤ (size - 1).toNat := by
    rw [BitVec.truncate_eq_setWidth, BitVec.toNat_setWidth]
    exact Nat.mod_le _ _
  have signed : ((size - 1).truncate 32).toInt ≤ ((size - 1).truncate 32).toNat := by
    rw [BitVec.toInt_eq_toNat_cond]
    split_ifs
    all_goals omega
  unfold capacity
  rw [if_neg positive]
  omega

/-- The call returns the length of the text, stores what fits with a NUL and writes nothing behind it, exactly if
the whole text fits into the stream. -/
theorem vsnprintf_truncates_iff (bytes : Nat → Byte) (size : BitVec 64) {ret : Nat} {state : PrintState}
    (ran : vfprintf dtoa ul ull format args = .ok ret state) :
    (∃ after, vsnprintf dtoa ul ull bytes size format args = .ok (state.out.length, after) ∧
      (0 < size.toNat →
        (∀ index, index < min state.out.length (size.toNat - 1) → some (after index) = state.out[index]?) ∧
        after (min state.out.length (size.toNat - 1)) = 0) ∧
      ∀ index, size.toNat ≤ index → after index = bytes index) ↔
    state.out.length ≤ capacity size := by
  have counted : ret = state.out.length := ((vfprintfLoop_counts dtoa (format.length + 1)
    { format := format ++ [0], args := args, ul := ul, ull := ull } ⟨rfl, Nat.zero_le _⟩).apply ran).1
  rw [counted] at ran
  -- The result of the call is the result on its stream, with bytes that depend on the size.
  have mapped : ∀ {file : StringFile} {change : Int × StringFile → Int × (Nat → Byte)} {after : Nat → Byte},
      (∀ result, (change result).1 = result.1) →
      (vfprintfTo dtoa ul ull file format args).map change = .ok ((state.out.length : Int), after) →
      ∃ final, vfprintfTo dtoa ul ull file format args = .ok ((state.out.length : Int), final) := by
    intro file change after kept same
    cases result : vfprintfTo dtoa ul ull file format args with
    | error fault =>
        rw [result] at same
        exact nomatch same
    | ok answer =>
        rw [result] at same
        have first : (change answer).1 = (state.out.length : Int) := congrArg Prod.fst (Except.ok.inj same)
        rw [kept] at first
        exact ⟨answer.2, by rw [← first]⟩
  unfold vsnprintf
  by_cases zero : size = 0
  · have bound : capacity size = 0 := if_pos zero
    rw [if_pos zero, bound]
    rcases @vfprintfTo_cases dtoa ul ull format args state { space := 0, bytes := fun _ => 0 } rfl ran with
      ⟨fits, final, same, _⟩ | ⟨long, refused⟩
    · refine ⟨fun _ => fits, fun _ => ⟨bytes, ?_, fun positive => ?_, fun _ _ => rfl⟩⟩
      · rw [same]
        rfl
      · rw [zero] at positive
        exact absurd positive (by decide)
    · refine ⟨fun ⟨after, result, _⟩ => ?_, fun fits => absurd fits (Nat.not_le.mpr long)⟩
      obtain ⟨final, wrong⟩ := mapped (fun _ => rfl) result
      exact absurd wrong (refused final)
  · have bound : capacity size = ((size - 1).truncate 32).toInt.toNat := if_neg zero
    have small := capacity_lt zero
    rw [if_neg zero, bound]
    rw [bound] at small
    rcases @vfprintfTo_cases dtoa ul ull format args state
      { space := ((size - 1).truncate 32).toInt, bytes := bytes } rfl ran with
      ⟨fits, final, same, stored, place⟩ | ⟨long, refused⟩
    · have short : min state.out.length (size.toNat - 1) = state.out.length :=
        min_eq_left (fits.trans small)
      have position : final.position = state.out.length := by rw [place, Nat.zero_add]
      refine ⟨fun _ => fits, fun _ => ⟨Function.update final.bytes final.position 0, ?_, fun _ => ⟨?_, ?_⟩, ?_⟩⟩
      · rw [same]
        rfl
      · intro index inside
        rw [short] at inside
        rw [position, Function.update_of_ne inside.ne, stored, storeAt_get, if_neg (Nat.not_lt_zero _),
          Nat.sub_zero, List.getElem?_eq_getElem inside]
        rfl
      · rw [short, position, Function.update_self]
      · intro index behind
        have above : 0 < size.toNat := by
          rw [Nat.pos_iff_ne_zero]
          exact fun wrong => zero (BitVec.eq_of_toNat_eq wrong)
        have later : state.out.length < index := by
          have := fits.trans small
          omega
        rw [position, Function.update_of_ne later.ne', stored, storeAt_get, if_neg (Nat.not_lt_zero _),
          Nat.sub_zero, List.getElem?_eq_none later.le]
        rfl
    · refine ⟨fun ⟨after, result, _⟩ => ?_, fun fits => absurd fits (Nat.not_le.mpr long)⟩
      obtain ⟨final, wrong⟩ := mapped (fun _ => rfl) result
      exact absurd wrong (refused final)

end Vsnprintf

/-- A float formatter that is never called. -/
def noFloat : Byte → Flags → Int → BitVec 64 → List Byte × Byte := fun _ _ _ _ => ([], 0)

theorem vsnprintf_truncates_iff_of_two :
    ∃ after, vsnprintf noFloat 0 0 (fun _ => 7) 8 [chr 'a', chr 'b'] [] = .ok (2, after) ∧ after 2 = 0 ∧
      after 8 = 7 := by
  obtain ⟨after, result, inside, outside⟩ :=
    (vsnprintf_truncates_iff noFloat 0 0 [chr 'a', chr 'b'] [] (fun _ => 7) 8 rfl).mpr (by decide)
  exact ⟨after, result, (inside (by decide)).2, outside 8 (by decide)⟩

/-- A text of three characters does not fit into three bytes, and the call returns an error instead of its length. -/
theorem vsnprintf_short_buffer :
    (vfprintf noFloat 0 0 [chr 'a', chr 'b', chr 'c'] [] |> fun
      | .ok ret state => (ret, state.out.length)
      | .error _ _ => (0, 0)) = (3, 3) ∧
    (vsnprintf noFloat 0 0 (fun _ => 7) 3 [chr 'a', chr 'b', chr 'c'] []).map Prod.fst = .ok (-1) := by
  exact ⟨rfl, rfl⟩

end Uesi.Printf
