/-
# `RedOS.Console.Scroll` — `memmove` under overlap, and the rows `scroll` moves

The two loops of `memmove` are a block copy each in the direction `memmove`
takes it (`ascending_mem`, `descending_mem`).  Here this is read byte by byte,
with the frame, and then row by row for the one caller.

    memmove_byte, memmove_frame   the bytes moved and the bytes left alone
    scroll_up, scroll_last        rows 0 to 23 and row 24
    memmove_moves                 both, with nothing else touched
-/
import RedOS.Console.Screen

namespace RedOS

open ByteMemory ScrollPage

namespace Console

/-! ## `memmove` -/

theorem memmove_byte {dst src : Addr} {size : Nat} (hdst : dst.toNat + size ≤ 2 ^ 32)
    (hsrc : src.toNat + size ≤ 2 ^ 32) (k : Console) {i : Nat} (hi : i < size) :
    (k.memmove dst src size).mem (dst + BitVec.ofNat 32 i) = k.mem (src + BitVec.ofNat 32 i) := by
  rw [memmove_mem hdst hsrc]
  exact copy_apply_offset k.mem dst src hi (by omega)

theorem memmove_frame {dst src : Addr} {size : Nat} (hdst : dst.toNat + size ≤ 2 ^ 32)
    (hsrc : src.toNat + size ≤ 2 ^ 32) (k : Console) {q : Addr}
    (hq : q.toNat < dst.toNat ∨ dst.toNat + size ≤ q.toNat) :
    (k.memmove dst src size).mem q = k.mem q := by
  have hout : ¬ InBlock dst size q := by
    intro h
    have hin := (inBlock_iff hdst q).mp h
    omega
  rw [memmove_mem hdst hsrc, copy_apply_out k.mem src hout]

/-! ## `scroll` -/

theorem scroll_up {k : Console} (hb : BufferFits k.buffer) {y x : Nat} (hy : y + 1 < vgaHeight)
    (hx : x < vgaWidth) : k.scroll.screen.cell y x = k.screen.cell (y + 1) x := by
  rw [screen_scroll hb (Nat.lt_of_succ_lt hy) hx, Grid.scroll_cell, if_pos hy]

theorem scroll_last {k : Console} (hb : BufferFits k.buffer) {x : Nat} (hx : x < vgaWidth) :
    k.scroll.screen.cell 24 x = 0#16 := by
  rw [screen_scroll hb (by decide) hx, Grid.scroll_cell, if_neg (by decide)]

/-- **`memmove` is right whichever way the ranges overlap**; so `scroll` moves
rows 1 to 24 up by one and clears row 24, and no byte outside the screen changes. -/
theorem memmove_moves (k : Console) :
    (∀ (dst src : Addr) (size : Nat), dst.toNat + size ≤ 2 ^ 32 → src.toNat + size ≤ 2 ^ 32 →
      (∀ i < size, (k.memmove dst src size).mem (dst + BitVec.ofNat 32 i)
        = k.mem (src + BitVec.ofNat 32 i)) ∧
      ∀ q : Addr, q.toNat < dst.toNat ∨ dst.toNat + size ≤ q.toNat →
        (k.memmove dst src size).mem q = k.mem q) ∧
    (BufferFits k.buffer →
      (∀ y < 24, ∀ x < vgaWidth, k.scroll.screen.cell y x = k.screen.cell (y + 1) x) ∧
      (∀ x < vgaWidth, k.scroll.screen.cell 24 x = 0#16) ∧
      ∀ q, ¬ InBlock k.buffer (2 * (vgaWidth * vgaHeight)) q → k.scroll.mem q = k.mem q) := by
  constructor
  · intro dst src size hdst hsrc
    constructor
    · intro i hi
      exact memmove_byte hdst hsrc k hi
    · intro q hq
      exact memmove_frame hdst hsrc k hq
  · intro hb
    refine ⟨?_, ?_, (scroll_touches hb).outside⟩
    · intro y hy x hx
      exact scroll_up hb (Nat.succ_lt_succ hy) hx
    · intro x hx
      exact scroll_last hb hx

/-- Three bytes one up and one down, and a screen at the VGA's address. -/
theorem memmove_moves_small :
    let k : Console := { boot (fun q => q.setWidth 8) with buffer := getVgaBuffer 0#32 }
    (k.memmove 0x1001#32 0x1000#32 3).mem 0x1003#32 = 2#8 ∧
      (k.memmove 0x1000#32 0x1001#32 3).mem 0x1000#32 = 1#8 ∧
      k.scroll.screen.cell 0 0 = 0xA1A0#16 ∧ k.scroll.screen.cell 24 79 = 0#16 := by
  intro k
  obtain ⟨hmove, hscroll⟩ := memmove_moves k
  obtain ⟨hup, hlast, -⟩ := hscroll (bufferFits_getVgaBuffer 0#32)
  refine ⟨?_, ?_, ?_, hlast 79 (by decide)⟩
  · exact (hmove 0x1001#32 0x1000#32 3 (by decide) (by decide)).1 2 (by decide)
  · exact (hmove 0x1000#32 0x1001#32 3 (by decide) (by decide)).1 0 (by decide)
  · rw [hup 0 (by decide) 0 (by decide)]
    decide

end Console

end RedOS
