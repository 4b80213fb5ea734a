/-
# `RedOS.Console.Sheet` — the terminal shows the tail of an unbounded page

What the terminal is for, said without a buffer: a `Sheet` is a page with
unboundedly many rows, a cursor on it and the current colour, and a byte is
either written at the cursor or moves it.  `terminal_putchar` simulates this on
25 rows of memory; the line feed with its overlapping `memmove` is the case that
matters, and `ScrollPage.Shows.lineFeed` is the argument for it.

    Tail.putchar            one byte keeps the screen the tail of the sheet
    Tail.initialized         `terminal_initialize` starts a fresh sheet
    terminal_shows_tail     any run after it
-/
import RedOS.Console.Screen

namespace RedOS

open ByteMemory ScrollPage

/-! ## The sheet -/

/-- A page without end and the colour to write in. -/
structure Sheet where
  page : Grid (BitVec 16)
  color : BitVec 8

/-- A space, light grey on black. -/
def blankEntry : BitVec 16 := vgaEntry 32#8 (vgaEntryColor vgaColorLightGrey vgaColorBlack)

namespace Sheet

/-- Nothing written: blank entries on the first 25 rows, 0 on the others. -/
def fresh : Sheet where
  page := { cell := fun r _ => blank vgaHeight blankEntry 0#16 r, row := 0, col := 0 }
  color := vgaEntryColor vgaColorLightGrey vgaColorBlack

/-- LF, CR and TAB move the cursor; any other byte is written at it. -/
def putchar (c : BitVec 8) (s : Sheet) : Sheet :=
  if c = 10#8 then { s with page := Page.lineFeed s.page }
  else if c = 13#8 then { s with page := s.page.toStart }
  else if c = 9#8 then { s with page := Page.advance vgaWidth 4 s.page }
  else { s with page := Page.put vgaWidth (vgaEntry c s.color) s.page }

def write (data : List (BitVec 8)) (s : Sheet) : Sheet := data.foldl (fun s c => s.putchar c) s

def setcolor (color : BitVec 8) (s : Sheet) : Sheet := { s with color := color }

end Sheet

/-- The screen is the end of the sheet. -/
structure Tail (k : Console) (s : Sheet) : Prop where
  shows : Shows vgaWidth vgaHeight blankEntry 0#16 k.screen s.page
  color : k.color = s.color

namespace Tail

variable {k : Console} {s : Sheet}

theorem height_pos : 0 < vgaHeight := by decide

theorem width_pos : 0 < vgaWidth := by decide

theorem row_lt (h : Tail k s) : k.row < vgaHeight := h.shows.row_lt height_pos

theorem column_lt (h : Tail k s) : k.column < vgaWidth := by
  have hcol : k.column = s.page.col := h.shows.col
  rw [hcol]
  exact h.shows.col_lt

theorem ready (h : Tail k s) (hb : Console.BufferFits k.buffer) : k.Ready :=
  ⟨hb, h.row_lt, h.column_lt⟩

theorem nextRow_shows {p : Grid (BitVec 16)} (hb : Console.BufferFits k.buffer)
    (h : Shows vgaWidth vgaHeight blankEntry 0#16 k.screen p) :
    Shows vgaWidth vgaHeight blankEntry 0#16 k.nextRow.screen (Page.lineFeed p) := by
  have hline := h.lineFeed height_pos width_pos
  by_cases hlast : vgaHeight ≤ k.row + 1
  · have hwindow : Window.lineFeed vgaHeight 0#16 k.screen =
        Grid.scroll vgaHeight 0#16 { k.screen with col := 0, row := k.row + 1 } := if_pos hlast
    have hcode : k.nextRow = Console.scroll { k with column := 0, row := k.row + 1 } := if_pos hlast
    rw [hwindow] at hline
    rw [hcode]
    refine hline.of_agree (Console.scroll_row _) (Console.scroll_column _) ?_
    intro y hy x hx
    exact Console.screen_scroll (k := { k with column := 0, row := k.row + 1 }) hb hy hx
  · have hwindow : Window.lineFeed vgaHeight 0#16 k.screen =
        { k.screen with col := 0, row := k.row + 1 } := if_neg hlast
    have hcode : k.nextRow = { k with column := 0, row := k.row + 1 } := if_neg hlast
    rw [hwindow] at hline
    rw [hcode]
    exact hline

theorem advance_shows {p : Grid (BitVec 16)} (hb : Console.BufferFits k.buffer) (n : Nat)
    (h : Shows vgaWidth vgaHeight blankEntry 0#16 k.screen p) :
    Shows vgaWidth vgaHeight blankEntry 0#16 (k.advance n).screen (Page.advance vgaWidth n p) := by
  have hcol : k.column = p.col := h.col
  unfold Console.advance Page.advance
  rw [hcol]
  by_cases hend : vgaWidth ≤ p.col + n
  · rw [if_pos hend, if_pos hend]
    -- the column, past the end of the row here, is overwritten
    exact nextRow_shows (k := k) hb h
  · rw [if_neg hend, if_neg hend]
    exact ⟨h.row, rfl, Nat.lt_of_not_le hend, h.cells, h.fresh⟩

theorem putentryat_shows {p : Grid (BitVec 16)} (c color : BitVec 8)
    (h : Shows vgaWidth vgaHeight blankEntry 0#16 k.screen p) :
    Shows vgaWidth vgaHeight blankEntry 0#16
      (k.terminalPutentryat c color k.column k.row).screen
      (p.set p.row p.col (vgaEntry c color)) := by
  have hrow : k.row < vgaHeight := h.row_lt height_pos
  have hcolumn : k.column < vgaWidth := by
    have hcol : k.column = p.col := h.col
    exact hcol ▸ h.col_lt
  refine (h.set height_pos (vgaEntry c color)).of_agree rfl rfl ?_
  intro y hy x hx
  exact Console.screen_storeCell k _ hrow hcolumn hy hx

/-- One byte: the screen stays the tail of the sheet. -/
theorem putchar (hb : Console.BufferFits k.buffer) (h : Tail k s) (c : BitVec 8) :
    Tail (k.terminalPutchar c) (s.putchar c) := by
  have hcolor : (k.terminalPutchar c).color = k.color :=
    (Console.terminalPutchar_spec (h.ready hb) c).1.color
  constructor
  · by_cases hlf : c = 10#8
    · subst hlf
      show Shows _ _ _ _ (k.nextRow.mirror [13#8, 10#8]).screen (Page.lineFeed s.page)
      rw [Console.mirror_screen]
      exact nextRow_shows hb h.shows
    by_cases hcr : c = 13#8
    · subst hcr
      show Shows _ _ _ _ (Console.mirror [13#8] { k with column := 0 }).screen s.page.toStart
      rw [Console.mirror_screen]
      exact h.shows.toStart width_pos
    by_cases htab : c = 9#8
    · subst htab
      show Shows _ _ _ _ ((k.advance 4).mirror [9#8]).screen (Page.advance vgaWidth 4 s.page)
      rw [Console.mirror_screen]
      exact advance_shows hb 4 h.shows
    · have hsheet : (s.putchar c).page = Page.put vgaWidth (vgaEntry c s.color) s.page := by
        unfold Sheet.putchar
        rw [if_neg hlf, if_neg hcr, if_neg htab]
      rw [hsheet, Console.terminalPutchar_ordinary hlf hcr htab, Console.mirror_screen, ← h.color]
      exact advance_shows (k := k.terminalPutentryat c k.color k.column k.row) hb 1
        (putentryat_shows c k.color h.shows)
  · have hsheet : (s.putchar c).color = s.color := by
      unfold Sheet.putchar
      by_cases hlf : c = 10#8
      · rw [if_pos hlf]
      by_cases hcr : c = 13#8
      · rw [if_neg hlf, if_pos hcr]
      by_cases htab : c = 9#8
      · rw [if_neg hlf, if_neg hcr, if_pos htab]
      · rw [if_neg hlf, if_neg hcr, if_neg htab]
    rw [hcolor, hsheet]
    exact h.color

theorem write (hb : Console.BufferFits k.buffer) (h : Tail k s) (data : List (BitVec 8)) :
    Tail (k.terminalWrite data) (s.write data) := by
  induction data generalizing k s with
  | nil => exact h
  | cons c cs ih =>
      have hbuf := (Console.terminalPutchar_spec (h.ready hb) c).1.buffer
      exact ih (hbuf ▸ hb) (h.putchar hb c)

theorem setcolor (h : Tail k s) (c : BitVec 8) : Tail (k.terminalSetcolor c) (s.setcolor c) :=
  ⟨h.shows, rfl⟩

end Tail

/-! ## Runs after `terminal_initialize` -/

/-- The sheet after `terminal_initialize`: its own messages are the first bytes. -/
def Sheet.initialized (cr0 : BitVec 32) : Sheet := Sheet.fresh.write (Console.initText cr0)

theorem cleared_touches (cr0 : BitVec 32) (k : Console) :
    (k.reset cr0).Touches ((k.reset cr0).clearRows vgaHeight) :=
  Console.clearRows_touches (k.reset cr0) vgaHeight (Nat.le_refl _)

theorem cleared_fits (cr0 : BitVec 32) (k : Console) :
    Console.BufferFits ((k.reset cr0).clearRows vgaHeight).buffer := by
  rw [(cleared_touches cr0 k).buffer]
  exact Console.bufferFits_getVgaBuffer cr0

/-- The cleared screen is the top of a fresh sheet. -/
theorem Tail.cleared (cr0 : BitVec 32) (k : Console) :
    Tail ((k.reset cr0).clearRows vgaHeight) Sheet.fresh := by
  obtain ⟨hrow, hcol⟩ := Console.clearRows_cursor vgaHeight (k.reset cr0)
  refine ⟨⟨?_, ?_, by decide, ?_, fun r _ x _ => rfl⟩, ?_⟩
  · rw [Console.screen_row, hrow]
    rfl
  · rw [Console.screen_col, hcol]
    rfl
  · intro y hy x hx
    have hblank : Sheet.fresh.page.cell (y + (Sheet.fresh.page.row + 1 - vgaHeight)) x = blankEntry :=
      if_pos hy
    rw [Console.clearRows_cell _ hy hx _ (Nat.le_refl _), if_pos hy, hblank]
    rfl
  · have hcolor := (cleared_touches cr0 k).color
    rw [hcolor]
    rfl

theorem Tail.initialized (cr0 : BitVec 32) (k : Console) :
    Tail (k.terminalInitialize cr0) (Sheet.initialized cr0) := by
  rw [Console.terminalInitialize_eq]
  exact (Tail.cleared cr0 k).write (cleared_fits cr0 k) (Console.initText cr0)

/-- What is fed to the terminal. -/
inductive Input
  /-- `terminal_putchar` -/
  | putchar (c : BitVec 8)
  /-- `terminal_write` -/
  | write (data : List (BitVec 8))
  /-- `terminal_setcolor` -/
  | setcolor (color : BitVec 8)

def Console.feed (k : Console) : Input → Console
  | .putchar c => k.terminalPutchar c
  | .write data => k.terminalWrite data
  | .setcolor color => k.terminalSetcolor color

def Sheet.feed (s : Sheet) : Input → Sheet
  | .putchar c => s.putchar c
  | .write data => s.write data
  | .setcolor color => s.setcolor color

/-- One input: the screen stays the tail, only cells are stored to, and the
buffer stays where it is. -/
theorem Tail.feed {k : Console} {s : Sheet} (hb : Console.BufferFits k.buffer) (h : Tail k s)
    (i : Input) : Tail (k.feed i) (s.feed i) ∧ (k.feed i).buffer = k.buffer ∧
      Emits (HitsCell k.buffer) k (k.feed i) := by
  cases i with
  | putchar c =>
      have ht := (Console.terminalPutchar_spec (h.ready hb) c).1
      exact ⟨h.putchar hb c, ht.buffer, ht.emits⟩
  | write data =>
      have ht := (Console.terminalWrite_spec (h.ready hb) data).1
      exact ⟨h.write hb data, ht.buffer, ht.emits⟩
  | setcolor c => exact ⟨h.setcolor c, rfl, .of_trace_eq rfl⟩

theorem Tail.feeds {k : Console} {s : Sheet} (hb : Console.BufferFits k.buffer) (h : Tail k s) :
    ∀ inputs : List Input, Tail (inputs.foldl Console.feed k) (inputs.foldl Sheet.feed s) ∧
      (inputs.foldl Console.feed k).buffer = k.buffer ∧
      Emits (HitsCell k.buffer) k (inputs.foldl Console.feed k) := by
  intro inputs
  induction inputs generalizing k s with
  | nil => exact ⟨h, rfl, .refl k⟩
  | cons i is ih =>
      obtain ⟨htail, hbuf, hemits⟩ := h.feed hb i
      obtain ⟨htail', hbuf', hemits'⟩ := ih (hbuf ▸ hb) htail
      exact ⟨htail', hbuf'.trans hbuf, hemits.trans (hbuf ▸ hemits')⟩

theorem initialize_emits (cr0 : BitVec 32) (k : Console) :
    (k.terminalInitialize cr0).buffer = getVgaBuffer cr0 ∧
      Emits (HitsCell (getVgaBuffer cr0)) k (k.terminalInitialize cr0) := by
  have hwrite := (Console.terminalWrite_spec ((Tail.cleared cr0 k).ready (cleared_fits cr0 k))
    (Console.initText cr0)).1
  have hall := (cleared_touches cr0 k).trans hwrite
  have hreset : Emits (HitsCell (getVgaBuffer cr0)) k (k.reset cr0) := .of_trace_eq rfl
  rw [Console.terminalInitialize_eq]
  exact ⟨hall.buffer, hreset.trans hall.emits⟩

/-- After `terminal_initialize` and any inputs: the cursor is on the screen,
every store since the call hit one of the 2000 cells, and the 25 rows of the
screen are the last 25 of the sheet (its first 25 as long as it has no more). -/
theorem terminal_shows_tail (k₀ : Console) (cr0 : BitVec 32) (inputs : List Input) :
    let k := inputs.foldl Console.feed (k₀.terminalInitialize cr0)
    let s := inputs.foldl Sheet.feed (Sheet.initialized cr0)
    k.row < 25 ∧ k.column < 80 ∧ Emits (HitsCell (getVgaBuffer cr0)) k₀ k ∧
      k.row = min s.page.row 24 ∧ k.column = s.page.col ∧
      (∀ y < 25, ∀ x < 80, load16 k.mem (cellAddr (getVgaBuffer cr0) (y * 80 + x)) =
        s.page.cell (y + (s.page.row - 24)) x) ∧
      ∀ r, s.page.row < r → ∀ x < 80,
        s.page.cell r x = if r < 25 then blankEntry else 0#16 := by
  intro k s
  obtain ⟨hbuf₀, hemits₀⟩ := initialize_emits cr0 k₀
  have hfits : Console.BufferFits (k₀.terminalInitialize cr0).buffer := by
    rw [hbuf₀]
    exact Console.bufferFits_getVgaBuffer cr0
  obtain ⟨htail, hbuf, hemits⟩ := (Tail.initialized cr0 k₀).feeds hfits inputs
  rw [hbuf₀] at hbuf hemits
  refine ⟨htail.row_lt, htail.column_lt, hemits₀.trans hemits, htail.shows.row, htail.shows.col,
    ?_, htail.shows.fresh⟩
  intro y hy x hx
  have hcell : load16 k.mem (cellAddr k.buffer (y * 80 + x)) =
      s.page.cell (y + (s.page.row + 1 - 25)) x := htail.shows.cells y hy x hx
  have htop : s.page.row + 1 - 25 = s.page.row - 24 := by omega
  rw [htop, hbuf] at hcell
  exact hcell

end RedOS
