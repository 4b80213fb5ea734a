/-
# `RedOS.Lib.StoreLog` — what a list of stores leaves in an array

A loop that writes into an array is the list of its stores, in order; the array
afterwards is the one before with the stores replayed.  Bounds are statements
about the list (`∀ st ∈ log, st.1 < n`), contents are statements about the
replayed array:

    read_row          a row of stores is read back
    replay_outside    nothing else has changed
    read_rows         a text written behind another, over what stood there
-/
import Mathlib.Logic.Function.Basic
import Mathlib.Data.List.Basic

namespace StoreLog

variable {α : Type}

/-- Index and value of each store. -/
abbrev Log (α : Type) := List (Nat × α)

/-- The array after the stores. -/
def replay (before : Nat → α) (log : Log α) : Nat → α :=
  log.foldl (fun m st => Function.update m st.1 st.2) before

/-- The stores of `text`, one element after the other from index `i` on. -/
def row (i : Nat) : List α → Log α
  | [] => []
  | b :: text => (i, b) :: row (i + 1) text

/-- Stores into the array that begins at index `n` of another. -/
def offset (n : Nat) (log : Log α) : Log α := log.map fun st => (n + st.1, st.2)

/-- `n` elements from index `i` on. -/
def read (m : Nat → α) (i n : Nat) : List α := (List.range n).map fun j => m (i + j)

theorem replay_append (before : Nat → α) (log log' : Log α) :
    replay before (log ++ log') = replay (replay before log) log' := List.foldl_append

theorem row_append (i : Nat) : ∀ text text' : List α,
    row i (text ++ text') = row i text ++ row (i + text.length) text'
  | [], _ => rfl
  | b :: text, text' => by
      rw [List.cons_append, row, row_append (i + 1) text text', List.length_cons, row,
        List.cons_append, show i + 1 + text.length = i + (text.length + 1) by omega]

theorem mem_row {st : Nat × α} : ∀ {i : Nat} {text : List α}, st ∈ row i text →
    i ≤ st.1 ∧ st.1 < i + text.length
  | _, [], h => nomatch h
  | i, b :: text, h => by
      rw [List.length_cons]
      rcases List.mem_cons.mp h with rfl | h
      · exact ⟨Nat.le_refl _, by simp only; omega⟩
      · have := mem_row h
        omega

theorem offset_row (n : Nat) : ∀ (i : Nat) (text : List α), offset n (row i text) = row (n + i) text
  | _, [] => rfl
  | i, b :: text => congrArg ((n + i, b) :: ·) (offset_row n (i + 1) text)

theorem replay_outside {i : Nat} : ∀ {log : Log α} {before : Nat → α}, (∀ st ∈ log, st.1 ≠ i) →
    replay before log i = before i
  | [], _, _ => rfl
  | st :: log, before, h => by
      show replay (Function.update before st.1 st.2) log i = before i
      rw [replay_outside fun st' hst => h st' (List.mem_cons_of_mem _ hst),
        Function.update_of_ne (Ne.symm (h st List.mem_cons_self))]

theorem read_congr {m m' : Nat → α} {i n : Nat} (h : ∀ j, i ≤ j → j < i + n → m' j = m j) :
    read m' i n = read m i n :=
  List.map_congr_left fun j hj => h (i + j) (by omega) (by have := List.mem_range.mp hj; omega)

theorem read_succ (m : Nat → α) (i n : Nat) : read m i (n + 1) = m i :: read m (i + 1) n := by
  unfold read
  rw [List.range_succ_eq_map, List.map_cons, List.map_map, Nat.add_zero]
  refine congrArg _ (List.map_congr_left ?_)
  intro j _
  simp only [Function.comp]
  rw [show i + 1 + j = i + (j + 1) by omega]

theorem read_add (m : Nat → α) (i n : Nat) : ∀ n', read m i (n + n') = read m i n ++ read m (i + n) n'
  | 0 => (List.append_nil _).symm
  | n' + 1 => by
      unfold read
      rw [← Nat.add_assoc, List.range_succ, List.range_succ, List.map_append, List.map_append,
        ← List.append_assoc]
      refine congr (congrArg _ (read_add m i n n')) ?_
      rw [List.map_singleton, List.map_singleton, Nat.add_assoc]

/-- What is read before a row is as it was. -/
theorem read_before {before : Nat → α} {i j n : Nat} {text : List α} (h : i + n ≤ j) :
    read (replay before (row j text)) i n = read before i n :=
  read_congr fun _ _ hk => replay_outside fun st hst => by
    have := mem_row hst
    omega

/-- A row of stores is read back. -/
theorem read_row (before : Nat → α) : ∀ (i : Nat) (text : List α),
    read (replay before (row i text)) i text.length = text
  | _, [] => rfl
  | i, b :: text => by
      have hfirst : replay (Function.update before i b) (row (i + 1) text) i = b := by
        rw [replay_outside fun st hst => by have := mem_row hst; omega, Function.update_self]
      rw [List.length_cons, read_succ]
      show replay (Function.update before i b) (row (i + 1) text) i ::
        read (replay (Function.update before i b) (row (i + 1) text)) (i + 1) text.length = _
      rw [hfirst, read_row _ (i + 1) text]

/-- A text, stores behind it, and then a second text there. -/
theorem read_rows (before : Nat → α) {text : List α} (text' : List α) {log : Log α} (between : Log α)
    (hlog : read (replay before log) 0 text.length = text)
    (hbetween : ∀ st ∈ between, text.length ≤ st.1) :
    read (replay before (log ++ between ++ row text.length text')) 0 (text ++ text').length
      = text ++ text' := by
  have hkeep : read (replay (replay before log) between) 0 text.length = text := by
    rw [read_congr fun j _ hj => replay_outside fun st hst => by
      have := hbetween st hst
      omega]
    exact hlog
  rw [replay_append, replay_append, List.length_append, read_add, read_before (by omega), hkeep,
    Nat.zero_add, read_row]

end StoreLog
