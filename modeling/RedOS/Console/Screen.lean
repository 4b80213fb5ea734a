/-
# `RedOS.Console.Screen` — where the terminal stores

Whatever byte comes, `terminal_putchar` stores into the 2000 cells of its buffer
and nowhere else, and leaves the cursor on the screen; wherever the buffer is,
as long as it does not wrap the address space.

    Touches                 only cells stored to, only the cursor moved
    terminalPutchar_spec    one byte
    terminalWrite_spec      any number of them
    clearRows_cell          the screen `terminal_initialize` leaves before it writes
-/
import RedOS.Console.Terminal

namespace RedOS

open ByteMemory ScrollPage

/-! ## What a step may touch -/

/-- The event is no store outside the 2000 cells of the buffer `b`. -/
def HitsCell (b : Addr) : Event → Prop
  | .cell p _ => ∃ i < vgaWidth * vgaHeight, p = cellAddr b i
  | .byte q => ∃ i < vgaWidth * vgaHeight, InBlock (cellAddr b i) 2 q
  | .com1 _ => True
  | .load _ _ _ | .printf _ _ | .ret => False

namespace Console

/-- From `k` to `k'` only cells were stored to, and of the statics only the
cursor moved. -/
structure Touches (k k' : Console) : Prop where
  outside : ∀ q, ¬ InBlock k.buffer (2 * (vgaWidth * vgaHeight)) q → k'.mem q = k.mem q
  buffer : k'.buffer = k.buffer
  color : k'.color = k.color
  terminalSerial : k'.terminalSerial = k.terminalSerial
  putcharSerial : k'.putcharSerial = k.putcharSerial
  printfSerial : k'.printfSerial = k.printfSerial
  emits : Emits (HitsCell k.buffer) k k'

namespace Touches

variable {k k' k'' : Console}

theorem refl (k : Console) : Touches k k :=
  ⟨fun _ _ => rfl, rfl, rfl, rfl, rfl, rfl, .refl k⟩

theorem trans (h : Touches k k') (h' : Touches k' k'') : Touches k k'' where
  outside := fun q hq => (h'.outside q (h.buffer ▸ hq)).trans (h.outside q hq)
  buffer := h'.buffer.trans h.buffer
  color := h'.color.trans h.color
  terminalSerial := h'.terminalSerial.trans h.terminalSerial
  putcharSerial := h'.putcharSerial.trans h.putcharSerial
  printfSerial := h'.printfSerial.trans h.printfSerial
  emits := h.emits.trans (h.buffer ▸ h'.emits)

end Touches

/-- The buffer fits and the cursor is on the screen. -/
structure Ready (k : Console) : Prop where
  fits : BufferFits k.buffer
  row : k.row < vgaHeight
  column : k.column < vgaWidth

theorem moveCursor_touches (k : Console) (r c : Nat) :
    Touches k { k with row := r, column := c } :=
  ⟨fun _ _ => rfl, rfl, rfl, rfl, rfl, rfl, .of_trace_eq rfl⟩

/-- Sending bytes changes the trace only. -/
theorem serialWrite_eq (bytes : List (BitVec 8)) (k : Console) :
    bytes.foldl (fun k b => k.serialCom1WriteByte b) k =
      { k with trace := k.trace ++ bytes.map .com1 } := by
  induction bytes generalizing k with
  | nil =>
      rw [List.foldl_nil, List.map_nil, List.append_nil]
  | cons b bs ih =>
      rw [List.foldl_cons, ih, List.map_cons]
      unfold serialCom1WriteByte emit
      rw [List.append_assoc]
      rfl

theorem serialWrite_touches (bytes : List (BitVec 8)) (k : Console) :
    Touches k (bytes.foldl (fun k b => k.serialCom1WriteByte b) k) := by
  rw [serialWrite_eq]
  refine ⟨fun _ _ => rfl, rfl, rfl, rfl, rfl, rfl, bytes.map .com1, rfl, ?_⟩
  intro e he
  obtain ⟨b, -, rfl⟩ := List.mem_map.mp he
  trivial

theorem mirror_touches (bytes : List (BitVec 8)) (k : Console) : Touches k (k.mirror bytes) := by
  unfold mirror
  split
  · exact serialWrite_touches bytes k
  · exact .refl k

theorem mirror_screen (bytes : List (BitVec 8)) (k : Console) :
    (k.mirror bytes).screen = k.screen := by
  unfold mirror
  split
  · rw [serialWrite_eq]
    rfl
  · rfl

theorem storeCell_touches (k : Console) {i : Nat} (hi : i < vgaWidth * vgaHeight) (v : BitVec 16) :
    Touches k (k.storeCell i v) where
  outside := by
    intro q hq
    refine store16_apply_ne k.mem v fun hin => hq ?_
    unfold vgaWidth vgaHeight at *
    unfold InBlock cellAddr at *
    bv_omega
  buffer := rfl
  color := rfl
  terminalSerial := rfl
  putcharSerial := rfl
  printfSerial := rfl
  emits := .of_trace_snoc rfl ⟨i, hi, rfl⟩

/-- A byte of the buffer is a byte of a cell. -/
theorem hitsCell_byte {b q : Addr} (h : InBlock b (2 * (vgaWidth * vgaHeight)) q) :
    HitsCell b (.byte q) := by
  refine ⟨(q - b).toNat / 2, ?_, ?_⟩
  · unfold InBlock at h
    omega
  · unfold InBlock cellAddr at *
    bv_omega

theorem scrollCells_emits (k : Console) : Emits (HitsCell k.buffer) k k.scrollCells := by
  have hmoved : (k.memmove k.buffer (cellAddr k.buffer vgaWidth)
      (2 * vgaWidth * (vgaHeight - 1))).buffer = k.buffer :=
    (memmove_statics _ _ _ k).buffer
  refine ((memmove_emits k.buffer _ (by decide) k).mono ?_).trans
    ((memset_emits _ 0#8 (by decide) _).mono ?_)
  · rintro _ ⟨q, rfl, hq⟩
    refine hitsCell_byte ?_
    unfold InBlock vgaWidth vgaHeight at *
    omega
  · rintro _ ⟨q, rfl, hq⟩
    rw [hmoved] at hq
    refine hitsCell_byte ?_
    unfold cellAddr InBlock vgaWidth vgaHeight at *
    bv_omega

theorem scroll_touches {k : Console} (hb : BufferFits k.buffer) : Touches k k.scroll := by
  have hframe : ∀ q, ¬ InBlock k.buffer (2 * (vgaWidth * vgaHeight)) q →
      k.scrollCells.mem q = k.mem q := by
    intro q hq
    rw [scrollCells_mem hb, fill_apply_out, copy_apply_out]
    · unfold InBlock vgaWidth vgaHeight at *
      omega
    · unfold cellAddr InBlock vgaWidth vgaHeight at *
      bv_omega
  rw [scroll_eq]
  exact ⟨hframe, rfl, rfl, rfl, rfl, rfl, (scrollCells_emits k).trans (.of_trace_eq rfl)⟩

theorem scroll_row (k : Console) : k.scroll.row = k.row - 1 := by rw [scroll_eq]

theorem scroll_column (k : Console) : k.scroll.column = k.column := by rw [scroll_eq]

theorem nextRow_touches {k : Console} (hb : BufferFits k.buffer) : Touches k k.nextRow := by
  unfold nextRow
  dsimp only
  split
  · exact (moveCursor_touches k (k.row + 1) 0).trans (scroll_touches hb)
  · exact moveCursor_touches k (k.row + 1) 0

theorem nextRow_row {k : Console} (hr : k.row < vgaHeight) : k.nextRow.row < vgaHeight := by
  unfold nextRow
  dsimp only
  split
  · rw [scroll_row]
    exact hr
  next hlast => exact Nat.lt_of_not_le hlast

theorem nextRow_column (k : Console) : k.nextRow.column = 0 := by
  unfold nextRow
  dsimp only
  split
  · exact scroll_column _
  · rfl

/-- The cursor `n` columns to the right, or on the next row: the end of the TAB
branch and of the ordinary one. -/
def advance (n : Nat) (k : Console) : Console :=
  if vgaWidth ≤ k.column + n then nextRow { k with column := k.column + n }
  else { k with column := k.column + n }

theorem terminalPutchar_ordinary {c : BitVec 8} (hlf : c ≠ 10#8) (hcr : c ≠ 13#8) (htab : c ≠ 9#8)
    (k : Console) : k.terminalPutchar c =
      ((k.terminalPutentryat c k.color k.column k.row).advance 1).mirror [c] := by
  unfold terminalPutchar
  rw [if_neg hlf, if_neg hcr, if_neg htab]
  rfl

theorem advance_touches {k : Console} (hk : Ready k) (n : Nat) :
    Touches k (k.advance n) ∧ Ready (k.advance n) := by
  have hmove : Touches k { k with column := k.column + n } := moveCursor_touches k k.row _
  unfold advance
  split
  · have hnext : Touches { k with column := k.column + n } _ := nextRow_touches hk.fits
    refine ⟨hmove.trans hnext, ?_, nextRow_row hk.row, ?_⟩
    · rw [hnext.buffer]
      exact hk.fits
    · rw [nextRow_column]
      decide
  next hend => exact ⟨hmove, hk.fits, hk.row, Nat.lt_of_not_le hend⟩

theorem mirror_ready {k : Console} (hk : Ready k) (bytes : List (BitVec 8)) :
    Ready (k.mirror bytes) := by
  have hrow : (k.mirror bytes).row = k.row := congrArg Grid.row (mirror_screen bytes k)
  have hcol : (k.mirror bytes).column = k.column := congrArg Grid.col (mirror_screen bytes k)
  exact ⟨(mirror_touches bytes k).buffer ▸ hk.fits, hrow ▸ hk.row, hcol ▸ hk.column⟩

/-- One byte: only cells are stored to, and the cursor stays on the screen. -/
theorem terminalPutchar_spec {k : Console} (hk : Ready k) (c : BitVec 8) :
    Touches k (k.terminalPutchar c) ∧ Ready (k.terminalPutchar c) := by
  by_cases hlf : c = 10#8
  · subst hlf
    have hnext := nextRow_touches hk.fits
    have hready : Ready k.nextRow :=
      ⟨hnext.buffer ▸ hk.fits, nextRow_row hk.row, by rw [nextRow_column]; decide⟩
    exact ⟨hnext.trans (mirror_touches _ _), mirror_ready hready _⟩
  by_cases hcr : c = 13#8
  · subst hcr
    have hmove : Touches k { k with column := 0 } := moveCursor_touches k k.row 0
    have hready : Ready { k with column := 0 } := ⟨hk.fits, hk.row, (by decide : 0 < vgaWidth)⟩
    exact ⟨hmove.trans (mirror_touches _ _), mirror_ready hready _⟩
  by_cases htab : c = 9#8
  · subst htab
    obtain ⟨ht, hr⟩ := advance_touches hk 4
    exact ⟨ht.trans (mirror_touches _ _), mirror_ready hr _⟩
  · rw [terminalPutchar_ordinary hlf hcr htab]
    have hstore : Touches k (k.terminalPutentryat c k.color k.column k.row) :=
      storeCell_touches k (cellIndex_lt hk.row hk.column) _
    obtain ⟨ht, hr⟩ := advance_touches (k := k.terminalPutentryat c k.color k.column k.row)
      ⟨hk.fits, hk.row, hk.column⟩ 1
    exact ⟨(hstore.trans ht).trans (mirror_touches _ _), mirror_ready hr _⟩

theorem terminalWrite_spec {k : Console} (hk : Ready k) (data : List (BitVec 8)) :
    Touches k (k.terminalWrite data) ∧ Ready (k.terminalWrite data) := by
  induction data generalizing k with
  | nil => exact ⟨.refl k, hk⟩
  | cons c cs ih =>
      obtain ⟨ht, hr⟩ := terminalPutchar_spec hk c
      obtain ⟨ht', hr'⟩ := ih hr
      exact ⟨ht.trans ht', hr'⟩

/-! ## `terminal_initialize` -/

/-- The bytes the terminal writes about itself. -/
def initText (cr0 : BitVec 32) : List (BitVec 8) := (initMessages cr0).flatten

/-- None of the strings holds a NUL. -/
theorem initMessages_takeWhile (cr0 : BitVec 32) :
    ∀ s ∈ initMessages cr0, s.takeWhile (· ≠ 0#8) = s := by
  unfold initMessages getVgaBuffer
  cases isPagingEnabled cr0 with
  | true => decide
  | false => decide

theorem writestrings_eq : ∀ (ss : List (List (BitVec 8))) (k : Console),
    (∀ s ∈ ss, s.takeWhile (· ≠ 0#8) = s) →
      ss.foldl (fun k s => k.terminalWritestring s) k = k.terminalWrite ss.flatten
  | [], _, _ => rfl
  | s :: ss, k, h => by
      rw [List.foldl_cons, terminalWritestring, h s List.mem_cons_self,
        writestrings_eq ss _ fun t ht => h t (List.mem_cons_of_mem s ht)]
      unfold terminalWrite
      rw [List.flatten_cons, List.foldl_append]

/-- The statics `terminal_initialize` sets before it clears the screen. -/
def reset (cr0 : BitVec 32) (k : Console) : Console :=
  { k with
    row := 0
    column := 0
    color := vgaEntryColor vgaColorLightGrey vgaColorBlack
    buffer := getVgaBuffer cr0 }

theorem terminalInitialize_eq (cr0 : BitVec 32) (k : Console) :
    k.terminalInitialize cr0 = ((k.reset cr0).clearRows vgaHeight).terminalWrite (initText cr0) :=
  writestrings_eq _ _ (initMessages_takeWhile cr0)

theorem clearRow_succ (y n : Nat) (k : Console) :
    k.clearRow y (n + 1) =
      (k.clearRow y n).storeCell (y * vgaWidth + n) (vgaEntry 32#8 (k.clearRow y n).color) := by
  unfold clearRow
  rw [List.range_succ, List.foldl_append, List.foldl_cons, List.foldl_nil]

theorem clearRows_succ (n : Nat) (k : Console) :
    k.clearRows (n + 1) = (k.clearRows n).clearRow n vgaWidth := by
  unfold clearRows
  rw [List.range_succ, List.foldl_append, List.foldl_cons, List.foldl_nil]

theorem clearRow_touches {y : Nat} (hy : y < vgaHeight) (k : Console) :
    ∀ n, n ≤ vgaWidth → Touches k (k.clearRow y n)
  | 0, _ => .refl k
  | n + 1, hn => by
      rw [clearRow_succ]
      exact (clearRow_touches hy k n (Nat.le_of_succ_le hn)).trans
        (storeCell_touches _ (cellIndex_lt hy hn) _)

theorem clearRow_cursor (y n : Nat) (k : Console) :
    (k.clearRow y n).row = k.row ∧ (k.clearRow y n).column = k.column := by
  induction n with
  | zero => exact ⟨rfl, rfl⟩
  | succ n ih =>
      rw [clearRow_succ]
      exact ih

theorem clearRow_cell {r : Nat} (hr : r < vgaHeight) (k : Console) {y x : Nat}
    (hy : y < vgaHeight) (hx : x < vgaWidth) : ∀ n, n ≤ vgaWidth →
    (k.clearRow r n).screen.cell y x =
      if y = r ∧ x < n then vgaEntry 32#8 k.color else k.screen.cell y x
  | 0, _ => (if_neg fun h => Nat.not_lt_zero x h.2).symm
  | n + 1, hn => by
      have ih := clearRow_cell hr k hy hx n (Nat.le_of_succ_le hn)
      have hcolor := (clearRow_touches hr k n (Nat.le_of_succ_le hn)).color
      rw [clearRow_succ, screen_storeCell _ _ hr hn hy hx, Grid.set_cell, ih, hcolor]
      by_cases hcell : y = r ∧ x = n
      · rw [if_pos hcell, if_pos ⟨hcell.1, hcell.2 ▸ Nat.lt_succ_self x⟩]
      · rw [if_neg hcell]
        exact if_congr (by omega) rfl rfl

theorem clearRows_touches (k : Console) : ∀ n, n ≤ vgaHeight → Touches k (k.clearRows n)
  | 0, _ => .refl k
  | n + 1, hn => by
      rw [clearRows_succ]
      exact (clearRows_touches k n (Nat.le_of_succ_le hn)).trans
        (clearRow_touches hn _ _ (Nat.le_refl _))

theorem clearRows_cursor (n : Nat) (k : Console) :
    (k.clearRows n).row = k.row ∧ (k.clearRows n).column = k.column := by
  induction n with
  | zero => exact ⟨rfl, rfl⟩
  | succ n ih =>
      obtain ⟨hr, hc⟩ := clearRow_cursor n vgaWidth (k.clearRows n)
      rw [clearRows_succ, hr, hc]
      exact ih

theorem clearRows_cell (k : Console) {y x : Nat} (hy : y < vgaHeight) (hx : x < vgaWidth) :
    ∀ n, n ≤ vgaHeight → (k.clearRows n).screen.cell y x =
      if y < n then vgaEntry 32#8 k.color else k.screen.cell y x
  | 0, _ => (if_neg (Nat.not_lt_zero y)).symm
  | n + 1, hn => by
      have ih := clearRows_cell k hy hx n (Nat.le_of_succ_le hn)
      have hcolor := (clearRows_touches k n (Nat.le_of_succ_le hn)).color
      rw [clearRows_succ, clearRow_cell hn _ hy hx _ (Nat.le_refl _), ih, hcolor]
      by_cases hlast : y = n
      · rw [if_pos ⟨hlast, hx⟩, if_pos (hlast ▸ Nat.lt_succ_self y)]
      · rw [if_neg fun h => hlast h.1]
        exact if_congr (by omega) rfl rfl

end Console

end RedOS
