/-
# `RedOS.Lib.ScrollPage` — a scrolling window on a page without end

A `Grid` is a cursor over cells addressed by row and column.  The same record
serves twice.  As a *page* it has unboundedly many rows and a line feed only
moves the cursor; as a *window* of `H` rows it scrolls when the cursor would
leave the last row, and rows that come into view hold the cell `b₁`.

    Page.put, Page.lineFeed, Page.advance     the page's operations
    Page.type_spec                            where cells typed in a row end up
    Window.lineFeed                           the line feed of the window
    Shows                                     the window shows the end of the page
    Shows.set, Shows.lineFeed, Shows.toStart  every operation keeps it

`W` is the width of a row, `H` the height of the window; `b₀` is the blank cell
the first `H` rows start with.
-/
import Mathlib.Logic.Basic

namespace ScrollPage

/-- Cells by row and column, and a cursor. -/
structure Grid (α : Type) where
  cell : Nat → Nat → α
  row : Nat
  col : Nat

variable {α : Type}

namespace Grid

/-- One cell set. -/
def set (g : Grid α) (r c : Nat) (a : α) : Grid α :=
  { g with cell := fun r' c' => if r' = r ∧ c' = c then a else g.cell r' c' }

/-- The carriage return: column 0 of the same row. -/
def toStart (g : Grid α) : Grid α := { g with col := 0 }

/-- The rows move up by one, `b` comes in at the bottom of the `H` rows. -/
def scroll (H : Nat) (b : α) (g : Grid α) : Grid α :=
  { g with
    cell := fun r c => if r + 1 < H then g.cell (r + 1) c else b
    row := g.row - 1 }

@[simp] theorem set_row (g : Grid α) (r c : Nat) (a : α) : (g.set r c a).row = g.row := rfl

theorem set_cell (g : Grid α) (r c : Nat) (a : α) (r' c' : Nat) :
    (g.set r c a).cell r' c' = if r' = r ∧ c' = c then a else g.cell r' c' := rfl

theorem scroll_cell (H : Nat) (b : α) (g : Grid α) (r c : Nat) :
    (g.scroll H b).cell r c = if r + 1 < H then g.cell (r + 1) c else b := rfl

end Grid

/-! ## The page -/

namespace Page

/-- Column 0 of the next row. -/
def lineFeed (p : Grid α) : Grid α := { p with col := 0, row := p.row + 1 }

/-- The cursor `n` columns to the right, or at the start of the next row where
the row of `W` columns ends before. -/
def advance (W n : Nat) (p : Grid α) : Grid α :=
  if W ≤ p.col + n then lineFeed p else { p with col := p.col + n }

/-- A cell written at the cursor, which then advances. -/
def put (W : Nat) (a : α) (p : Grid α) : Grid α := advance W 1 (p.set p.row p.col a)

/-- Cells written one after the other. -/
def type (W : Nat) (as : List α) (p : Grid α) : Grid α := as.foldl (fun p a => put W a p) p

/-- The place of the cursor in reading order. -/
def pos (W : Nat) (p : Grid α) : Nat := p.row * W + p.col

variable {W : Nat} {p : Grid α}

theorem advance_pos (h : p.col < W) :
    pos W (advance W 1 p) = pos W p + 1 ∧ (advance W 1 p).col < W := by
  unfold advance
  by_cases hend : W ≤ p.col + 1
  · have hmul : (p.row + 1) * W = p.row * W + W := Nat.succ_mul _ _
    rw [if_pos hend]
    unfold pos lineFeed
    dsimp only
    omega
  · rw [if_neg hend]
    exact ⟨rfl, Nat.lt_of_not_le hend⟩

theorem put_pos (a : α) (h : p.col < W) : pos W (put W a p) = pos W p + 1 ∧ (put W a p).col < W :=
  advance_pos (p := p.set p.row p.col a) h

/-- Rows of `W` columns read in order. -/
theorem place_inj {r c r' c' : Nat} (hc : c < W) (hc' : c' < W) (h : r * W + c = r' * W + c') :
    r = r' ∧ c = c' := by
  have hpos : 0 < W := Nat.zero_lt_of_lt hc
  have hdiv : (r * W + c) / W = (r' * W + c') / W := by rw [h]
  have hrow : r = r' := by
    rwa [Nat.mul_comm r, Nat.mul_comm r', Nat.mul_add_div hpos, Nat.mul_add_div hpos,
      Nat.div_eq_of_lt hc, Nat.div_eq_of_lt hc'] at hdiv
  subst hrow
  exact ⟨rfl, Nat.add_left_cancel h⟩

theorem put_cell (a : α) (h : p.col < W) {r c : Nat} (hc : c < W) :
    (put W a p).cell r c = if r * W + c = pos W p then a else p.cell r c := by
  have hset : (put W a p).cell r c = (p.set p.row p.col a).cell r c := by
    unfold put advance lineFeed
    split
    · rfl
    · rfl
  rw [hset, Grid.set_cell]
  refine if_congr ⟨?_, fun e => place_inj hc h e⟩ rfl rfl
  intro e
  rw [e.1, e.2, pos]

/-- What was before the cursor stays, and the cells written follow from it on. -/
theorem type_spec (as : List α) (h : p.col < W) :
    pos W (type W as p) = pos W p + as.length ∧ (type W as p).col < W ∧
      (∀ r, ∀ c < W, r * W + c < pos W p → (type W as p).cell r c = p.cell r c) ∧
      ∀ i a, as[i]? = some a → ∀ r, ∀ c < W, r * W + c = pos W p + i →
        (type W as p).cell r c = a := by
  induction as generalizing p with
  | nil => exact ⟨rfl, h, fun _ _ _ _ => rfl, fun _ _ he => nomatch he⟩
  | cons a as ih =>
      obtain ⟨hpos, hcol⟩ := put_pos a h
      obtain ⟨hend, hlast, hkept, hwritten⟩ := ih hcol
      refine ⟨?_, hlast, ?_, ?_⟩
      · rw [show type W (a :: as) p = type W as (put W a p) from rfl, hend, hpos, List.length_cons]
        omega
      · intro r c hc hbefore
        rw [show type W (a :: as) p = type W as (put W a p) from rfl,
          hkept r c hc (by omega), put_cell a h hc, if_neg (by omega)]
      · intro i b hb r c hc hat
        cases i with
        | zero =>
            obtain rfl := Option.some.inj hb
            rw [show type W (a :: as) p = type W as (put W a p) from rfl,
              hkept r c hc (by omega), put_cell a h hc, if_pos (by omega)]
        | succ i => exact hwritten i b hb r c hc (by omega)

end Page

/-! ## The window -/

namespace Window

/-- Column 0 of the next row, scrolled into view if need be. -/
def lineFeed (H : Nat) (b : α) (w : Grid α) : Grid α :=
  let w := { w with col := 0, row := w.row + 1 }
  if H ≤ w.row then w.scroll H b else w

end Window

/-! ## The simulation -/

/-- What an untouched cell of row `r` holds. -/
def blank (H : Nat) (b₀ b₁ : α) (r : Nat) : α := if r < H then b₀ else b₁

/-- The window `w` shows the last `H` rows of the page `p` up to its cursor, and
below the cursor nothing has been written. -/
structure Shows (W H : Nat) (b₀ b₁ : α) (w p : Grid α) : Prop where
  row : w.row = min p.row (H - 1)
  col : w.col = p.col
  col_lt : p.col < W
  cells : ∀ y < H, ∀ x < W, w.cell y x = p.cell (y + (p.row + 1 - H)) x
  fresh : ∀ r, p.row < r → ∀ x < W, p.cell r x = blank H b₀ b₁ r

namespace Shows

variable {W H : Nat} {b₀ b₁ : α} {w p : Grid α}

theorem row_lt (hH : 0 < H) (h : Shows W H b₀ b₁ w p) : w.row < H := by
  rw [h.row]
  omega

/-- Only the window's own rows and columns matter. -/
theorem of_agree {w' : Grid α} (h : Shows W H b₀ b₁ w p) (hrow : w'.row = w.row)
    (hcol : w'.col = w.col) (hcell : ∀ y < H, ∀ x < W, w'.cell y x = w.cell y x) :
    Shows W H b₀ b₁ w' p where
  row := hrow.trans h.row
  col := hcol.trans h.col
  col_lt := h.col_lt
  cells := fun y hy x hx => (hcell y hy x hx).trans (h.cells y hy x hx)
  fresh := h.fresh

theorem set (hH : 0 < H) (h : Shows W H b₀ b₁ w p) (a : α) :
    Shows W H b₀ b₁ (w.set w.row w.col a) (p.set p.row p.col a) where
  row := h.row
  col := h.col
  col_lt := h.col_lt
  cells := by
    intro y hy x hx
    rw [Grid.set_cell, Grid.set_cell, Grid.set_row, h.cells y hy x hx, h.row, h.col]
    -- the cursor's row of the page is the cursor's row of the window
    have hiff : y = min p.row (H - 1) ↔ y + (p.row + 1 - H) = p.row := by omega
    simp only [hiff]
  fresh := by
    intro r hr x hx
    rw [Grid.set_cell, if_neg (fun e => (Nat.ne_of_gt hr) e.1)]
    exact h.fresh r hr x hx

theorem toStart (h : Shows W H b₀ b₁ w p) (hW : 0 < W) : Shows W H b₀ b₁ w.toStart p.toStart where
  row := h.row
  col := rfl
  col_lt := hW
  cells := h.cells
  fresh := h.fresh

/-- The line feed.  The window scrolls exactly when the page's last `H` rows
begin one row later. -/
theorem lineFeed (hH : 0 < H) (hW : 0 < W) (h : Shows W H b₀ b₁ w p) :
    Shows W H b₀ b₁ (Window.lineFeed H b₁ w) (Page.lineFeed p) := by
  have hrow := h.row
  unfold Window.lineFeed Page.lineFeed
  by_cases hs : H ≤ w.row + 1
  · rw [if_pos hs]
    refine ⟨?_, rfl, hW, ?_, fun r hr => h.fresh r (Nat.lt_of_succ_lt hr)⟩
    · show w.row + 1 - 1 = min (p.row + 1) (H - 1)
      omega
    · intro y hy x hx
      show (if y + 1 < H then w.cell (y + 1) x else b₁) = p.cell (y + (p.row + 1 + 1 - H)) x
      by_cases hlast : y + 1 < H
      · rw [if_pos hlast, h.cells (y + 1) hlast x hx]
        congr 1
        omega
      · -- the row that comes in is the page's next row, still blank
        have hnew : y + (p.row + 1 + 1 - H) = p.row + 1 := by omega
        rw [if_neg hlast, hnew, h.fresh (p.row + 1) (Nat.lt_succ_self _) x hx, blank,
          if_neg (by omega)]
  · rw [if_neg hs]
    refine ⟨?_, rfl, hW, ?_, fun r hr => h.fresh r (Nat.lt_of_succ_lt hr)⟩
    · show w.row + 1 = min (p.row + 1) (H - 1)
      omega
    · intro y hy x hx
      have htop : p.row + 1 - H = p.row + 1 + 1 - H := by omega
      show w.cell y x = p.cell (y + (p.row + 1 + 1 - H)) x
      rw [h.cells y hy x hx, htop]

end Shows

end ScrollPage
