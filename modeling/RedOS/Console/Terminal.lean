/-
# `RedOS.Console.Terminal` — the VGA terminal of `tty.c`

The functions of `tty.c` as they compute, with their statics in `Console`.  The
screen is not a field: it is read back from memory, cell by cell, at the address
in `terminal_buffer` (`screen`).

    screen_storeCell     one cell written
    screen_scroll        the overlapping `memmove` and the `memset` move the rows
    terminalPutchar_…    fields no byte changes
-/
import RedOS.Lib.ScrollPage
import RedOS.Console.State

namespace RedOS

open ByteMemory ScrollPage

/-- The bytes of a string literal, without the NUL. -/
def chars (s : String) : List (BitVec 8) := s.toList.map fun c => BitVec.ofNat 8 c.toNat

/-- A literal by its characters, not through its encoding. -/
theorem chars_ofList (text : List Char) :
    chars (String.ofList text) = text.map fun c => BitVec.ofNat 8 c.toNat := by
  rw [chars, String.toList_ofList]

/-! ## `vga.h` -/

/-- `VGA_COLOR_BLACK`, `VGA_COLOR_LIGHT_GREY` -/
def vgaColorBlack : BitVec 8 := 0#8

def vgaColorLightGrey : BitVec 8 := 7#8

/-- `vga_entry_color` -/
def vgaEntryColor (fg bg : BitVec 8) : BitVec 8 := fg ||| bg <<< 4

/-- `vga_entry` -/
def vgaEntry (uc color : BitVec 8) : BitVec 16 := uc.setWidth 16 ||| color.setWidth 16 <<< 8

/-- `is_paging_enabled`, for a value of `CR0`. -/
def isPagingEnabled (cr0 : BitVec 32) : Bool := cr0 &&& 0x80000000#32 != 0#32

/-- `get_vga_buffer` -/
def getVgaBuffer (cr0 : BitVec 32) : Addr :=
  if isPagingEnabled cr0 then 0xC00B8000#32 else 0xB8000#32

/-! ## `tty.c` -/

/-- `VGA_WIDTH`, `VGA_HEIGHT` -/
def vgaWidth : Nat := 80

def vgaHeight : Nat := 25

/-- `&buffer[index]` -/
def cellAddr (buffer : Addr) (index : Nat) : Addr := buffer + BitVec.ofNat 32 (2 * index)

namespace Console

/-- `terminal_buffer[index] = entry` -/
def storeCell (index : Nat) (entry : BitVec 16) (k : Console) : Console :=
  { k with
    mem := store16 k.mem (cellAddr k.buffer index) entry
    trace := k.trace ++ [.cell (cellAddr k.buffer index) entry] }

/-- `terminal_enable_serial` -/
def terminalEnableSerial (enable : Bool) (k : Console) : Console := { k with terminalSerial := enable }

/-- `terminal_setcolor` -/
def terminalSetcolor (color : BitVec 8) (k : Console) : Console := { k with color := color }

/-- `terminal_putentryat` -/
def terminalPutentryat (c color : BitVec 8) (x y : Nat) (k : Console) : Console :=
  k.storeCell (y * vgaWidth + x) (vgaEntry c color)

/-- The calls of `memmove` and `memset` in `scroll`. -/
def scrollCells (k : Console) : Console :=
  let k := k.memmove k.buffer (cellAddr k.buffer vgaWidth) (2 * vgaWidth * (vgaHeight - 1))
  k.memset (cellAddr k.buffer (vgaWidth * (vgaHeight - 1))) 0#8 (2 * vgaWidth)

def scroll (k : Console) : Console :=
  let k := k.scrollCells
  if 0 < k.row then { k with row := k.row - 1 } else k

/-- The lines that three branches of `terminal_putchar` repeat: column 0, next
row, scroll if that is below the last. -/
def nextRow (k : Console) : Console :=
  let k := { k with column := 0, row := k.row + 1 }
  if vgaHeight ≤ k.row then k.scroll else k

/-- "Output to serial port if enabled" -/
def mirror (bytes : List (BitVec 8)) (k : Console) : Console :=
  if k.terminalSerial then bytes.foldl (fun k b => k.serialCom1WriteByte b) k else k

/-- `terminal_putchar` -/
def terminalPutchar (c : BitVec 8) (k : Console) : Console :=
  if c = 10#8 then
    k.nextRow.mirror [13#8, 10#8]
  else if c = 13#8 then
    mirror [13#8] { k with column := 0 }
  else if c = 9#8 then
    let k := { k with column := k.column + 4 }
    let k := if vgaWidth ≤ k.column then k.nextRow else k
    k.mirror [9#8]
  else
    let k := k.terminalPutentryat c k.color k.column k.row
    let k := { k with column := k.column + 1 }
    let k := if vgaWidth ≤ k.column then k.nextRow else k
    k.mirror [c]

/-- `terminal_write` -/
def terminalWrite (data : List (BitVec 8)) (k : Console) : Console :=
  data.foldl (fun k c => k.terminalPutchar c) k

/-- `terminal_writestring`: up to the NUL. -/
def terminalWritestring (data : List (BitVec 8)) (k : Console) : Console :=
  k.terminalWrite (data.takeWhile (· ≠ 0#8))

end Console

/-- `hex_buffer` in `terminal_initialize`. -/
def hexBuffer (addr : BitVec 32) : List (BitVec 8) :=
  chars "0x" ++ (List.range 8).reverse.map fun i =>
    let nibble := (addr >>> (i * 4)).setWidth 8 &&& 0xF#8
    if nibble < 10#8 then 48#8 + nibble else 65#8 + (nibble - 10#8)

/-- The five strings `terminal_initialize` writes. -/
def initMessages (cr0 : BitVec 32) : List (List (BitVec 8)) :=
  [chars "Terminal initialized with paging ",
   if isPagingEnabled cr0 then chars "ENABLED" else chars "DISABLED",
   chars "\nVGA buffer address: ",
   hexBuffer (getVgaBuffer cr0),
   chars "\n"]

namespace Console

/-- The inner clearing loop of `terminal_initialize`, up to column `n`. -/
def clearRow (y n : Nat) (k : Console) : Console :=
  (List.range n).foldl (fun k x => k.storeCell (y * vgaWidth + x) (vgaEntry 32#8 k.color)) k

/-- Both loops, up to row `n`. -/
def clearRows (n : Nat) (k : Console) : Console :=
  (List.range n).foldl (fun k y => k.clearRow y vgaWidth) k

/-- `terminal_initialize` -/
def terminalInitialize (cr0 : BitVec 32) (k : Console) : Console :=
  let k := { k with
    row := 0
    column := 0
    color := vgaEntryColor vgaColorLightGrey vgaColorBlack
    buffer := getVgaBuffer cr0 }
  (initMessages cr0).foldl (fun k s => k.terminalWritestring s) (k.clearRows vgaHeight)

/-! ## The screen in memory -/

/-- What the VGA shows, with the terminal's cursor. -/
def screen (k : Console) : Grid (BitVec 16) where
  cell y x := load16 k.mem (cellAddr k.buffer (y * vgaWidth + x))
  row := k.row
  col := k.column

@[simp] theorem screen_row (k : Console) : k.screen.row = k.row := rfl

@[simp] theorem screen_col (k : Console) : k.screen.col = k.column := rfl

/-- The buffer does not wrap the address space. -/
def BufferFits (b : Addr) : Prop := b.toNat + 2 * (vgaWidth * vgaHeight) ≤ 2 ^ 32

theorem bufferFits_getVgaBuffer (cr0 : BitVec 32) : BufferFits (getVgaBuffer cr0) := by
  unfold getVgaBuffer BufferFits
  split <;> decide

end Console

theorem cellIndex_lt {y x : Nat} (hy : y < vgaHeight) (hx : x < vgaWidth) :
    y * vgaWidth + x < vgaWidth * vgaHeight := by
  unfold vgaHeight at *
  unfold vgaWidth at *
  omega

theorem cellIndex_inj {y x y' x' : Nat} (hx : x < vgaWidth) (hx' : x' < vgaWidth)
    (h : y * vgaWidth + x = y' * vgaWidth + x') : y = y' ∧ x = x' := by
  unfold vgaWidth at *
  omega

/-- Different cells do not overlap. -/
theorem load16_storeCell_ne (m : Mem) (b : Addr) (v : BitVec 16) {i j : Nat}
    (hi : i < vgaWidth * vgaHeight) (hj : j < vgaWidth * vgaHeight) (hne : j ≠ i) :
    load16 (store16 m (cellAddr b i) v) (cellAddr b j) = load16 m (cellAddr b j) := by
  refine load16_congr fun r hr => store16_apply_ne m v fun hr' => hne ?_
  unfold vgaWidth vgaHeight at hi hj
  unfold InBlock cellAddr at hr hr'
  bv_omega

namespace Console

theorem screen_storeCell (k : Console) (v : BitVec 16) {r c : Nat} (hr : r < vgaHeight)
    (hc : c < vgaWidth) {y x : Nat} (hy : y < vgaHeight) (hx : x < vgaWidth) :
    (k.storeCell (r * vgaWidth + c) v).screen.cell y x = (k.screen.set r c v).cell y x := by
  show load16 (store16 k.mem (cellAddr k.buffer (r * vgaWidth + c)) v)
    (cellAddr k.buffer (y * vgaWidth + x)) = _
  rw [Grid.set_cell]
  by_cases h : y = r ∧ x = c
  · rw [if_pos h, h.1, h.2, load16_store16]
  · rw [if_neg h]
    exact load16_storeCell_ne k.mem k.buffer v (cellIndex_lt hr hc) (cellIndex_lt hy hx)
      fun he => h (cellIndex_inj hx hc he)

/-! ## `scroll` -/

theorem scrollCells_statics (k : Console) : SameStatics k k.scrollCells :=
  (memmove_statics _ _ _ k).trans (memset_statics _ _ _ _)

theorem scroll_eq (k : Console) :
    k.scroll = { k with mem := k.scrollCells.mem, row := k.row - 1, trace := k.scrollCells.trace } := by
  have h : k.scrollCells = { k with mem := k.scrollCells.mem, trace := k.scrollCells.trace } :=
    scrollCells_statics k
  unfold scroll
  rw [h]
  by_cases hrow : 0 < k.row
  · exact if_pos hrow
  · have hzero : k.row - 1 = k.row := by omega
    rw [hzero]
    exact if_neg hrow

theorem scrollCells_mem {k : Console} (hb : BufferFits k.buffer) :
    k.scrollCells.mem =
      fill (copy k.mem k.buffer (cellAddr k.buffer vgaWidth) (2 * vgaWidth * (vgaHeight - 1)))
        (cellAddr k.buffer (vgaWidth * (vgaHeight - 1))) (2 * vgaWidth) 0#8 := by
  have hbuf : (k.memmove k.buffer (cellAddr k.buffer vgaWidth)
      (2 * vgaWidth * (vgaHeight - 1))).buffer = k.buffer :=
    (memmove_statics _ _ _ k).buffer
  unfold BufferFits vgaWidth vgaHeight at hb
  have hdst : k.buffer.toNat + 2 * vgaWidth * (vgaHeight - 1) ≤ 2 ^ 32 := by
    unfold vgaWidth vgaHeight
    omega
  have hsrc : (cellAddr k.buffer vgaWidth).toNat + 2 * vgaWidth * (vgaHeight - 1) ≤ 2 ^ 32 := by
    unfold cellAddr vgaWidth vgaHeight
    bv_omega
  unfold scrollCells
  dsimp only
  rw [hbuf, memset_mem _ _ _ (by decide), memmove_mem hdst hsrc]

/-- The rows move up, an empty one comes in. -/
theorem screen_scroll {k : Console} (hb : BufferFits k.buffer) {y x : Nat} (hy : y < vgaHeight)
    (hx : x < vgaWidth) :
    k.scroll.screen.cell y x = (k.screen.scroll vgaHeight 0#16).cell y x := by
  rw [scroll_eq]
  show load16 k.scrollCells.mem (cellAddr k.buffer (y * vgaWidth + x)) =
    if y + 1 < vgaHeight then load16 k.mem (cellAddr k.buffer ((y + 1) * vgaWidth + x)) else 0#16
  rw [scrollCells_mem hb]
  unfold vgaWidth vgaHeight at *
  by_cases hlast : y + 1 < 25
  · rw [if_pos hlast, load16_fill_out, load16_copy_in]
    · congr 1
      unfold cellAddr
      bv_omega
    · unfold cellAddr
      bv_omega
    · unfold cellAddr InBlock
      bv_omega
  · rw [if_neg hlast]
    refine load16_fill_zero _ ?_
    unfold cellAddr
    bv_omega

end Console

end RedOS
