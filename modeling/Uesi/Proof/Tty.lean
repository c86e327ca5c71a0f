import Uesi.Construction.Tty

namespace Uesi.Libchar

open Library

/-- An index is that of a pixel of the screen. -/
def Framebuffer.Shows (fb : Framebuffer) (index : BitVec 64) : Prop :=
  ∃ row col, row < fb.height ∧ col < fb.width ∧ index = fb.index row col

/-- Drawing changes the words of the framebuffer only, and touches only those of the screen. -/
structure Draws (before after : Tty) : Prop where
  same : after = { before with buffer := after.buffer, touched := after.touched }
  shown : ∀ index ∈ after.touched, index ∈ before.touched ∨ before.fb.Shows index

section Drawing

variable {tty middle after : Tty}

theorem Draws.refl (tty : Tty) : Draws tty tty := ⟨rfl, fun _ => Or.inl⟩

theorem Draws.fb (draws : Draws tty after) : after.fb = tty.fb := by rw [draws.same]

theorem Draws.trans (first : Draws tty middle) (second : Draws middle after) : Draws tty after := by
  refine ⟨?_, fun index member => ?_⟩
  · rw [second.same, first.same]
  · rcases second.shown index member with earlier | shown
    · exact first.shown index earlier
    · exact Or.inr (first.fb ▸ shown)

theorem Draws.poke {index : BitVec 64} (shown : tty.fb.Shows index) (color : BitVec 32) :
    Draws tty (poke index color tty) := by
  refine ⟨rfl, fun other member => ?_⟩
  rcases List.mem_cons.mp member with rfl | earlier
  · exact Or.inr shown
  · exact Or.inl earlier

/-- A loop draws when each round draws. -/
theorem Draws.loop {body : Nat → Tty → Tty} {count : Nat}
    (each : ∀ round < count, ∀ current, current.fb = tty.fb → Draws current (body round current)) :
    Draws tty (countedLoop body count tty) :=
  countedLoop_invariant body (fun _ current => Draws tty current) count tty (.refl tty)
    fun round current inside held => held.trans (each round inside current held.fb)

theorem Draws.putpixel (x y : BitVec 64) (color : BitVec 32) (tty : Tty) : Draws tty (ttyPutpixel x y color tty) := by
  unfold ttyPutpixel
  split
  · exact .refl tty
  · split
    · exact .refl tty
    · rename_i inside _
      simp only [not_or, BitVec.not_le] at inside
      exact .poke ⟨y, x, inside.2, inside.1, rfl⟩ color

theorem Draws.underline (x y : BitVec 64) (color : BitVec 32) (tty : Tty) : Draws tty (underline x y color tty) :=
  .loop fun _ _ current _ => (Draws.putpixel _ _ color current).trans (.putpixel _ _ color _)

/-- A rectangle of words that ends on the screen is drawn on the screen. -/
theorem Draws.block {x y : BitVec 64} {w h : Nat} (right : x.toNat + w ≤ tty.fb.width.toNat)
    (bottom : y.toNat + h ≤ tty.fb.height.toNat) (color : Nat → Nat → BitVec 32) :
    Draws tty (countedLoop (fun dy => countedLoop (fun dx =>
      Libchar.poke (tty.fb.index (y + BitVec.ofNat 64 dy) x + BitVec.ofNat 64 dx) (color dy dx)) w) h tty) := by
  refine .loop fun dy below current same => .loop fun dx within inner equal => ?_
  refine .poke ⟨y + BitVec.ofNat 64 dy, x + BitVec.ofNat 64 dx, ?_, ?_, ?_⟩ _
  · rw [equal, same]
    apply BitVec.lt_def.mpr
    rw [BitVec.toNat_add, BitVec.toNat_ofNat]
    omega
  · rw [equal, same]
    apply BitVec.lt_def.mpr
    rw [BitVec.toNat_add, BitVec.toNat_ofNat]
    omega
  · rw [equal, same, Framebuffer.index, Framebuffer.index, BitVec.add_assoc]

theorem clamp_le {start size limit : BitVec 64} (inside : start.toNat < limit.toNat)
    (fits : start.toNat + size.toNat < 2 ^ 64) :
    start.toNat + (if limit < start + size then limit - start else size).toNat ≤ limit.toNat := by
  split
  · rw [BitVec.toNat_sub_of_le (BitVec.le_def.mpr inside.le)]
    omega
  · rename_i within
    simp only [BitVec.lt_def, BitVec.toNat_add] at within
    omega

/-- A filled rectangle whose sums do not wrap around is clamped to the screen. -/
theorem Draws.fillRect {x y w h : BitVec 64} (right : x.toNat + w.toNat < 2 ^ 64)
    (bottom : y.toNat + h.toNat < 2 ^ 64) (color : BitVec 32) (tty : Tty) :
    Draws tty (ttyFillRect x y w h color tty) := by
  unfold ttyFillRect
  split
  · exact .refl tty
  · rename_i inside
    simp only [not_or, BitVec.not_le, BitVec.lt_def] at inside
    exact .block (clamp_le inside.1 right) (clamp_le inside.2 bottom) fun _ _ => color

theorem Draws.drawChar (font : BitVec 8 → Nat → BitVec 8) (c : BitVec 8) {x y : BitVec 64}
    (right : x.toNat + 8 < 2 ^ 64) (bottom : y.toNat + 14 < 2 ^ 64) (fg bg : BitVec 32) (tty : Tty) :
    Draws tty (ttyDrawChar font c x y fg bg tty) := by
  unfold ttyDrawChar
  split
  · exact .refl tty
  · split
    · exact .refl tty
    · rename_i inside
      simp only [not_or, BitVec.not_lt, BitVec.le_def, BitVec.toNat_add] at inside
      refine .block ?_ ?_ fun cy dx => if (font c cy).getLsbD (7 - dx) then fg else bg
      · have := inside.1
        simp at this
        omega
      · have := inside.2
        simp at this
        omega

theorem copyWord_draws {src dst : BitVec 64} (read : tty.fb.Shows src) (written : tty.fb.Shows dst) :
    Draws tty (copyWord src dst tty) := by
  refine ⟨rfl, fun index member => ?_⟩
  simp only [copyWord, Libchar.poke, List.mem_cons] at member
  rcases member with rfl | rfl | earlier
  · exact Or.inr written
  · exact Or.inr read
  · exact Or.inl earlier

end Drawing

/-- The last row of characters ends on the screen. -/
theorem Framebuffer.rows_le (fb : Framebuffer) :
    1 ≤ fb.rows.toNat ∧ fb.rows.toNat * 18 ≤ fb.height.toNat ∧ 1 ≤ fb.cols.toNat ∧
      fb.cols.toNat * 8 ≤ fb.width.toNat := by
  have tall := fb.tall
  have wide := fb.wide
  simp only [rows, cols, BitVec.toNat_udiv]
  change _ ≤ _ / 18 ∧ _ / 18 * 18 ≤ _ ∧ 1 ≤ _ / 8 ∧ _ / 8 * 8 ≤ _
  omega

theorem Draws.scroll (tty : Tty) : Draws tty (ttyScroll tty) := by
  obtain ⟨rows, last, -, -⟩ := tty.fb.rows_le
  have tall := tty.fb.tall
  have width := tty.fb.width.isLt
  have lines : (tty.fb.height - 18).toNat = tty.fb.height.toNat - 18 :=
    BitVec.toNat_sub_of_le (BitVec.le_def.mpr tall)
  unfold ttyScroll
  refine Draws.trans (.loop fun y below current same => .loop fun x within inner equal => ?_)
    (.fillRect ?_ ?_ _ _)
  · have pixel : ∀ row : BitVec 64, row.toNat < tty.fb.height.toNat →
        inner.fb.Shows (tty.fb.index row (BitVec.ofNat 64 x)) := by
      intro row onScreen
      rw [equal, same]
      refine ⟨row, BitVec.ofNat 64 x, BitVec.lt_def.mpr onScreen, BitVec.lt_def.mpr ?_, rfl⟩
      rw [BitVec.toNat_ofNat]
      omega
    rw [lines] at below
    refine copyWord_draws (pixel _ ?_) (pixel _ ?_)
    · rw [BitVec.toNat_add, BitVec.toNat_ofNat]
      change (_ + 18) % _ < _
      omega
    · rw [BitVec.toNat_ofNat]
      omega
  · change 0 + _ < _
    omega
  · have line : ((tty.fb.rows - 1) * 18).toNat = (tty.fb.rows.toNat - 1) * 18 := by
      rw [BitVec.toNat_mul, BitVec.toNat_sub_of_le (show 1 ≤ tty.fb.rows from rows)]
      change (_ - 1) * 18 % _ = _
      omega
    rw [line]
    change _ + 18 < _
    omega

/-- The cursor is on the screen of the framebuffer, and only words of the screen were touched. -/
structure OnScreen (fb : Framebuffer) (tty : Tty) : Prop where
  same : tty.fb = fb
  column : tty.cursorX < tty.fb.cols
  row : tty.cursorY < tty.fb.rows
  shown : ∀ index ∈ tty.touched, tty.fb.Shows index

section Screen

variable {fb : Framebuffer} {tty after : Tty}

theorem Draws.keep_shown (draws : Draws tty after) (shown : ∀ index ∈ tty.touched, tty.fb.Shows index) :
    ∀ index ∈ after.touched, after.fb.Shows index := by
  intro index member
  rw [draws.fb]
  exact (draws.shown index member).elim (shown index) id

theorem OnScreen.draws (held : OnScreen fb tty) (draws : Draws tty after) : OnScreen fb after := by
  refine ⟨draws.fb.trans held.same, ?_, ?_, draws.keep_shown held.shown⟩
  · rw [draws.same]
    exact held.column
  · rw [draws.same]
    exact held.row

/-- The variables of the cursor apart from its place play no part. -/
theorem OnScreen.congr (held : OnScreen fb tty) (x y : BitVec 64) (visible drawn : Bool) :
    OnScreen fb { tty with lastCursorX := x, lastCursorY := y, cursorVisible := visible, cursorDrawn := drawn } :=
  ⟨held.same, held.column, held.row, held.shown⟩

theorem Draws.eraseMoved (tty : Tty) : Draws tty (eraseMoved tty) := by
  unfold Libchar.eraseMoved
  split
  · exact .underline _ _ _ tty
  · exact .refl tty

theorem OnScreen.drawCursor (held : OnScreen fb tty) : OnScreen fb (ttyDrawCursor tty) := by
  unfold ttyDrawCursor
  split
  · exact (held.draws ((Draws.eraseMoved tty).trans (.underline _ _ tty.fgColor _))).congr _ _ _ true
  · exact held

/-- A cursor that was put on the screen is drawn there. -/
theorem OnScreen.moved (draws : Draws tty after) (same : tty.fb = fb)
    (shown : ∀ index ∈ tty.touched, tty.fb.Shows index) {x y : BitVec 64} (column : x < tty.fb.cols)
    (row : y < tty.fb.rows) : OnScreen fb (ttyDrawCursor { after with cursorX := x, cursorY := y }) := by
  apply OnScreen.drawCursor
  refine ⟨draws.fb.trans same, ?_, ?_, draws.keep_shown shown⟩
  · exact draws.fb ▸ column
  · exact draws.fb ▸ row

theorem OnScreen.setCursor (held : OnScreen fb tty) (x y : BitVec 64) : OnScreen fb (ttySetCursor x y tty) := by
  unfold ttySetCursor
  split
  · rename_i inside
    refine OnScreen.moved ?_ held.same held.shown inside.1 inside.2
    split
    · exact .underline _ _ _ tty
    · exact .refl tty
  · exact held

theorem OnScreen.showCursor (held : OnScreen fb tty) (visible : Bool) : OnScreen fb (ttyShowCursor visible tty) := by
  unfold ttyShowCursor
  apply OnScreen.drawCursor
  split
  · have erased := held.draws (.underline tty.lastCursorX tty.lastCursorY tty.bgColor tty)
    generalize underline tty.lastCursorX tty.lastCursorY tty.bgColor tty = screen at erased ⊢
    exact erased.congr _ _ visible false
  · exact held.congr _ _ visible _

theorem OnScreen.clear (same : tty.fb = fb) (shown : ∀ index ∈ tty.touched, tty.fb.Shows index) :
    OnScreen fb (ttyClear tty) := by
  obtain ⟨rows, -, cols, -⟩ := tty.fb.rows_le
  have width := tty.fb.width.isLt
  have height := tty.fb.height.isLt
  unfold ttyClear
  refine OnScreen.moved (.fillRect ?_ ?_ _ tty) same shown (BitVec.lt_def.mpr cols) (BitVec.lt_def.mpr rows)
  · simpa using width
  · simpa using height

/-- The pixels of a character cell on the screen. -/
theorem cell_toNat {x y : BitVec 64} {fb : Framebuffer} (column : x < fb.cols) (row : y < fb.rows) :
    (x * 8).toNat = x.toNat * 8 ∧ (x.toNat + 1) * 8 ≤ fb.width.toNat ∧
      (y * 18).toNat = y.toNat * 18 ∧ (y.toNat + 1) * 18 ≤ fb.height.toNat := by
  obtain ⟨-, last, -, right⟩ := fb.rows_le
  have first := BitVec.lt_def.mp column
  have second := BitVec.lt_def.mp row
  rw [BitVec.toNat_mul, BitVec.toNat_mul]
  change _ * 8 % _ = _ ∧ _ ∧ _ * 18 % _ = _ ∧ _
  omega

theorem OnScreen.clearToEnd (held : OnScreen fb tty) : OnScreen fb (ttyClearToEnd tty) := by
  obtain ⟨px, right, py, bottom⟩ := cell_toNat held.column held.row
  obtain ⟨rows, last, -, -⟩ := tty.fb.rows_le
  have width := tty.fb.width.isLt
  have line : Draws tty (ttyFillRect (tty.cursorX * 8) (tty.cursorY * 18) (tty.fb.width - tty.cursorX * 8) 18
      tty.bgColor tty) := by
    refine .fillRect ?_ ?_ _ tty
    · rw [BitVec.toNat_sub_of_le (BitVec.le_def.mpr (by omega))]
      omega
    · rw [py]
      change _ + 18 < _
      omega
  unfold ttyClearToEnd
  simp only
  split
  · rename_i above
    have below : tty.cursorY.toNat < tty.fb.rows.toNat - 1 := by
      rw [BitVec.lt_def, BitVec.toNat_sub_of_le (show 1 ≤ tty.fb.rows from rows)] at above
      exact above
    have next : ((tty.cursorY + 1) * 18).toNat = (tty.cursorY.toNat + 1) * 18 := by
      rw [BitVec.toNat_mul, BitVec.toNat_add]
      change (_ + 1) % _ * 18 % _ = _
      omega
    refine held.draws (line.trans (.fillRect ?_ ?_ _ _))
    · simpa using width
    · rw [BitVec.toNat_sub_of_le (BitVec.le_def.mpr (by omega))]
      omega
  · exact held.draws line

theorem OnScreen.clearToCursor (held : OnScreen fb tty) : OnScreen fb (ttyClearToCursor tty) := by
  obtain ⟨-, right, py, bottom⟩ := cell_toNat held.column held.row
  have width := tty.fb.width.isLt
  have px : ((tty.cursorX + 1) * 8).toNat = (tty.cursorX.toNat + 1) * 8 := by
    rw [BitVec.toNat_mul, BitVec.toNat_add]
    change (_ + 1) % _ * 8 % _ = _
    omega
  unfold ttyClearToCursor
  refine held.draws (Draws.trans ?_ (.fillRect ?_ ?_ _ _))
  · split
    · refine .fillRect ?_ ?_ _ tty
      · simpa using width
      · change 0 + _ < _
        omega
    · exact .refl tty
  · change 0 + _ < _
    omega
  · change _ + 18 < _
    omega

/-- The cursor has left the screen by at most one column or one row. -/
structure NearScreen (fb : Framebuffer) (tty : Tty) : Prop where
  same : tty.fb = fb
  near : tty.cursorX ≤ tty.fb.cols ∧ tty.cursorY < tty.fb.rows ∨ tty.cursorX < tty.fb.cols ∧ tty.cursorY ≤ tty.fb.rows
  shown : ∀ index ∈ tty.touched, tty.fb.Shows index

theorem OnScreen.near (held : OnScreen fb tty) : NearScreen fb tty :=
  ⟨held.same, Or.inl ⟨BitVec.le_of_lt held.column, held.row⟩, held.shown⟩

/-- The wrap and the scroll bring the cursor back. -/
theorem NearScreen.wrapCursor (held : NearScreen fb tty) : OnScreen fb (wrapCursor tty) := by
  obtain ⟨rows, -, cols, -⟩ := tty.fb.rows_le
  have column : ∃ x y, (if tty.fb.cols ≤ tty.cursorX then { tty with cursorX := 0, cursorY := tty.cursorY + 1 }
      else tty) = { tty with cursorX := x, cursorY := y } ∧ x < tty.fb.cols ∧ y ≤ tty.fb.rows := by
    have near := held.near
    simp only [BitVec.le_def, BitVec.lt_def] at near
    split
    · rename_i beyond
      refine ⟨0, tty.cursorY + 1, rfl, BitVec.lt_def.mpr cols, BitVec.le_def.mpr ?_⟩
      rw [BitVec.le_def] at beyond
      rw [BitVec.toNat_add]
      change (_ + 1) % _ ≤ _
      omega
    · rename_i inside
      rw [BitVec.not_le] at inside
      refine ⟨tty.cursorX, tty.cursorY, rfl, inside, BitVec.le_def.mpr ?_⟩
      omega
  obtain ⟨x, y, wrapped, left, low⟩ := column
  unfold Libchar.wrapCursor
  rw [wrapped]
  simp only
  split
  · have scrolled := Draws.scroll { tty with cursorX := x, cursorY := y }
    generalize ttyScroll { tty with cursorX := x, cursorY := y } = screen at scrolled ⊢
    refine ⟨scrolled.fb.trans held.same, ?_, ?_, scrolled.keep_shown held.shown⟩
    · rw [scrolled.same]
      exact left
    · change tty.fb.rows - 1 < screen.fb.rows
      rw [scrolled.fb, BitVec.lt_def, BitVec.toNat_sub_of_le (show 1 ≤ tty.fb.rows from rows)]
      exact Nat.sub_lt rows (by decide)
  · rename_i above
    exact ⟨held.same, left, BitVec.not_le.mp above, held.shown⟩

theorem OnScreen.putGlyph (held : OnScreen fb tty) (font : BitVec 8 → Nat → BitVec 8) (c : BitVec 8) :
    NearScreen fb (putGlyph font c tty) := by
  obtain ⟨px, right, py, bottom⟩ := cell_toNat held.column held.row
  obtain ⟨rows, -, cols, -⟩ := tty.fb.rows_le
  have below : tty.cursorY + 1 ≤ tty.fb.rows := by
    have row := BitVec.lt_def.mp held.row
    rw [BitVec.le_def, BitVec.toNat_add]
    change (_ + 1) % _ ≤ _
    omega
  have newline : NearScreen fb { tty with cursorX := 0, cursorY := tty.cursorY + 1 } :=
    ⟨held.same, Or.inr ⟨BitVec.lt_def.mpr cols, below⟩, held.shown⟩
  unfold Libchar.putGlyph
  split
  · exact newline
  split
  · exact ⟨held.same, Or.inl ⟨BitVec.le_of_lt (BitVec.lt_def.mpr cols), held.row⟩, held.shown⟩
  split
  · simp only
    split
    · exact newline
    · rename_i inside
      exact ⟨held.same, Or.inl ⟨BitVec.le_of_lt (BitVec.not_le.mp inside), held.row⟩, held.shown⟩
  split
  · split
    · rename_i positive
      have back : (tty.cursorX - 1).toNat = tty.cursorX.toNat - 1 := BitVec.toNat_sub_of_le positive
      have left : OnScreen fb { tty with cursorX := tty.cursorX - 1 } := by
        refine ⟨held.same, BitVec.lt_def.mpr ?_, held.row, held.shown⟩
        have column := BitVec.lt_def.mp held.column
        change (tty.cursorX - 1).toNat < tty.fb.cols.toNat
        omega
      obtain ⟨start, before, -, -⟩ := cell_toNat left.column left.row
      refine (left.draws (.fillRect ?_ ?_ _ _)).near
      · rw [start]
        change _ + 8 < _
        omega
      · rw [py]
        change _ + 18 < _
        omega
    · exact held.near
  split
  · have drawn : Draws tty (if tty.cursorX * 8 < tty.fb.width ∧ tty.cursorY * 18 < tty.fb.height then
        ttyDrawChar font c (tty.cursorX * 8) (tty.cursorY * 18) tty.fgColor tty.bgColor tty else tty) := by
      split
      · exact .drawChar font c (by omega) (by omega) _ _ tty
      · exact .refl tty
    simp only
    generalize (if tty.cursorX * 8 < tty.fb.width ∧ tty.cursorY * 18 < tty.fb.height then
        ttyDrawChar font c (tty.cursorX * 8) (tty.cursorY * 18) tty.fgColor tty.bgColor tty else tty) = screen
      at drawn ⊢
    have kept := held.draws drawn
    refine ⟨kept.same, Or.inl ⟨?_, kept.row⟩, kept.shown⟩
    have column := BitVec.lt_def.mp kept.column
    change screen.cursorX + 1 ≤ screen.fb.cols
    rw [BitVec.le_def, BitVec.toNat_add]
    change (_ + 1) % _ ≤ _
    omega
  · exact held.near

theorem OnScreen.putchar (held : OnScreen fb tty) (font : BitVec 8 → Nat → BitVec 8) (c : BitVec 8) :
    OnScreen fb (ttyPutchar font c tty) := by
  unfold ttyPutchar
  split
  · have hidden := held.congr tty.lastCursorX tty.lastCursorY false tty.cursorDrawn
    have back := ((hidden.draws (.underline tty.cursorX tty.cursorY tty.bgColor _)).putGlyph font c).wrapCursor
    exact (back.congr _ _ true _).drawCursor
  · exact (held.putGlyph font c).wrapCursor

theorem OnScreen.write (held : OnScreen fb tty) (font : BitVec 8 → Nat → BitVec 8) (str : List (BitVec 8))
    (len : Nat) : OnScreen fb (ttyWrite font str len tty) :=
  run_invariant (fun tty c => ttyPutchar font c tty) (OnScreen fb) (fun _ c held => held.putchar font c) tty _ held

theorem OnScreen.step (held : OnScreen fb tty) (font : BitVec 8 → Nat → BitVec 8) (op : Op) :
    OnScreen fb (tty.step font op) := by
  cases op with
  | putchar c => exact held.putchar font c
  | write str len => exact held.write font str len
  | setCursor x y => exact held.setCursor x y
  | showCursor visible => exact held.showCursor visible
  | clear => exact .clear held.same held.shown
  | scroll => exact held.draws (.scroll tty)
  | clearToEnd => exact held.clearToEnd
  | clearToCursor => exact held.clearToCursor

end Screen

/-- The cursor stays on the screen, and every access to the framebuffer is to a pixel of the screen. -/
theorem terminal_stays_on_screen (fb : Framebuffer) (buffer : BitVec 64 → BitVec 32)
    (font : BitVec 8 → Nat → BitVec 8) (ops : List Op) :
    OnScreen fb (run (Tty.step font) (ttyInit fb buffer) ops) :=
  run_invariant (Tty.step font) (OnScreen fb) (fun _ op held => held.step font op) _ ops
    (.clear rfl fun _ member => absurd member List.not_mem_nil)

def wideScreen : Framebuffer := ⟨1024, 768, 4096, by decide, by decide, by decide, by decide⟩

def smallScreen : Framebuffer := ⟨20, 40, 96, by decide, by decide, by decide, by decide⟩

/-- A character in the last cell of the screen, where the cursor wraps and the screen scrolls. -/
def fillLastCell (fb : Framebuffer) : Tty :=
  run (Tty.step fun _ _ => 0x7E) (ttyInit fb fun _ => 0) [.setCursor (fb.cols - 1) (fb.rows - 1), .putchar 0x61]

/-- The cursor is at the start of the last row again, and the glyph has moved up from there by one row. -/
theorem terminal_stays_on_screen_scrolls :
    OnScreen wideScreen (fillLastCell wideScreen) ∧ OnScreen smallScreen (fillLastCell smallScreen) ∧
    (fillLastCell smallScreen).cursorX = 0 ∧ (fillLastCell smallScreen).cursorY = 1 ∧
    (fillLastCell smallScreen).buffer (smallScreen.index 0 9) = 0xFFFFFF ∧
    (fillLastCell smallScreen).buffer (smallScreen.index 18 9) = 0x000000 := by
  refine ⟨terminal_stays_on_screen wideScreen _ _ _, terminal_stays_on_screen smallScreen _ _ _, ?_⟩
  decide +kernel

end Uesi.Libchar
