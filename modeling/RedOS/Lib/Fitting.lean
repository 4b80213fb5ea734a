/-
# `RedOS.Lib.Fitting` — pieces of text in a bounded room

A writer that fills a room of fixed size piece by piece and cuts what does not
fit.  A piece may insist on a minimum: with less room than that it is not begun,
and the pieces after it are tried instead.

    fit_eq_whole    with room for everything, everything is there
    fit_eq_take     the text is cut, unless a piece is left out
    fit_take_iff    two rooms: when is the shorter text the longer one cut?

The last one is for minima of at most two, where a piece is left out only if
exactly one element of room remains.
-/
import Mathlib.Data.List.Basic

namespace Fitting

structure Piece (α : Type) where
  text : List α
  /-- With less room than this the piece is left out. -/
  need : Nat
  need_le : need ≤ text.length

variable {α : Type}

/-- What is written of a piece. -/
def Piece.fit (p : Piece α) (room : Nat) : List α :=
  if p.need ≤ room then p.text.take room else []

/-- What is written of several. -/
def fit (room : Nat) : List (Piece α) → List α
  | [] => []
  | p :: ps => p.fit room ++ fit (room - (p.fit room).length) ps

/-- All of the text. -/
def whole (ps : List (Piece α)) : List α := ps.flatMap Piece.text

@[simp] theorem whole_nil : whole ([] : List (Piece α)) = [] := rfl

theorem whole_cons (p : Piece α) (ps : List (Piece α)) : whole (p :: ps) = p.text ++ whole ps :=
  List.flatMap_cons

theorem whole_append (ps ps' : List (Piece α)) : whole (ps ++ ps') = whole ps ++ whole ps' :=
  List.flatMap_append

theorem Piece.fit_length_le (p : Piece α) (room : Nat) : (p.fit room).length ≤ room := by
  unfold Piece.fit
  split
  · exact (List.length_take_le _ _)
  · exact Nat.zero_le _

/-- A piece that fits is written whole. -/
theorem Piece.fit_of_le {p : Piece α} {room : Nat} (h : p.text.length ≤ room) :
    p.fit room = p.text := by
  have := p.need_le
  rw [Piece.fit, if_pos (by omega), List.take_of_length_le h]

theorem fit_length_le : ∀ (room : Nat) (ps : List (Piece α)), (fit room ps).length ≤ room
  | _, [] => Nat.zero_le _
  | room, p :: ps => by
      have h := p.fit_length_le room
      have h' := fit_length_le (room - (p.fit room).length) ps
      rw [fit, List.length_append]
      omega

theorem fit_zero (ps : List (Piece α)) : fit 0 ps = [] :=
  List.eq_nil_of_length_eq_zero (Nat.le_zero.mp (fit_length_le 0 ps))

theorem mem_fit {b : α} : ∀ {room : Nat} {ps : List (Piece α)}, b ∈ fit room ps → b ∈ whole ps
  | _, [], h => h
  | room, p :: ps, h => by
      rw [whole_cons, List.mem_append]
      rcases List.mem_append.mp h with h | h
      · left
        unfold Piece.fit at h
        split at h
        · exact List.mem_of_mem_take h
        · exact nomatch h
      · exact Or.inr (mem_fit h)

/-- Pieces after others have the room that these leave. -/
theorem fit_append (ps' : List (Piece α)) : ∀ (room : Nat) (ps : List (Piece α)),
    fit room (ps ++ ps') = fit room ps ++ fit (room - (fit room ps).length) ps'
  | _, [] => rfl
  | room, p :: ps => by
      rw [List.cons_append, fit, fit, fit_append ps', List.append_assoc, List.length_append,
        Nat.sub_sub]

/-- With room for everything, everything is there. -/
theorem fit_eq_whole : ∀ {room : Nat} {ps : List (Piece α)}, (whole ps).length ≤ room →
    fit room ps = whole ps
  | _, [], _ => rfl
  | room, p :: ps, h => by
      rw [whole_cons, List.length_append] at h
      rw [fit, p.fit_of_le (by omega), fit_eq_whole (by omega), whole_cons]

/-- Pieces that fit are written whole, and the rest of the room is for the others. -/
theorem fit_append_whole {room : Nat} {pre : List (Piece α)} (ps : List (Piece α))
    (h : (whole pre).length ≤ room) :
    fit room (pre ++ ps) = whole pre ++ fit (room - (whole pre).length) ps := by
  rw [fit_append, fit_eq_whole h]

/-- The text is cut, unless a piece is left out. -/
theorem fit_eq_take {room : Nat} : ∀ {ps : List (Piece α)},
    (∀ pre p post, ps = pre ++ p :: post → (whole pre).length < room →
      (whole pre).length + p.need ≤ room) → fit room ps = (whole ps).take room
  | [], _ => List.take_nil.symm
  | p :: ps, h => by
      rcases Nat.lt_or_ge room p.text.length with hcut | hfits
      · have hfit : p.fit room = p.text.take room := by
          rcases Nat.eq_zero_or_pos room with rfl | hpos
          · rw [List.take_zero, List.eq_nil_of_length_eq_zero (Nat.le_zero.mp (p.fit_length_le 0))]
          · have hneed := h [] p ps rfl hpos
            rw [whole_nil, List.length_nil, Nat.zero_add] at hneed
            rw [Piece.fit, if_pos hneed]
        have hlen : (p.text.take room).length = room := by
          rw [List.length_take]
          omega
        rw [fit, hfit, hlen, Nat.sub_self, fit_zero, List.append_nil, whole_cons,
          List.take_append_of_le_length (by omega)]
      · have ih : fit (room - p.text.length) ps = (whole ps).take (room - p.text.length) :=
          fit_eq_take fun pre q post heq hlt => by
            have := h (p :: pre) q post (by rw [heq, List.cons_append])
            rw [whole_cons, List.length_append] at this
            omega
        rw [fit, p.fit_of_le hfits, ih, whole_cons, List.take_append, List.take_of_length_le hfits]

section Two

variable {room room' : Nat} {ps : List (Piece α)}

/-- One element of room is left where a piece that needs two begins. -/
def LeftOut (room : Nat) (ps : List (Piece α)) : Prop :=
  ∃ pre p post, ps = pre ++ p :: post ∧ p.need = 2 ∧ (whole pre).length + 1 = room

theorem fit_of_not_leftOut (hneed : ∀ p ∈ ps, p.need ≤ 2) (h : ¬ LeftOut room ps) :
    fit room ps = (whole ps).take room := by
  refine fit_eq_take ?_
  intro pre p post heq hlt
  have hp := hneed p (by rw [heq]; exact List.mem_append_right _ List.mem_cons_self)
  by_contra hle
  exact h ⟨pre, p, post, heq, by omega, by omega⟩

/-- Such a piece gets nothing. -/
theorem fit_leftOut {pre post : List (Piece α)} {p : Piece α} (hp : p.need = 2)
    (hroom : (whole pre).length + 1 = room) : fit room (pre ++ p :: post) = whole pre ++ fit 1 post := by
  rw [fit_append_whole _ (by omega), show room - (whole pre).length = 1 by omega, fit,
    show p.fit 1 = [] from if_neg (by omega)]
  rfl

/-- With more room it is begun. -/
theorem fit_take_of_lt (hneed : ∀ p ∈ ps, p.need ≤ 2) (hlt : room < room') :
    (fit room' ps).take room = (whole ps).take room := by
  by_cases h : LeftOut room' ps
  · obtain ⟨pre, p, post, rfl, hp, hroom⟩ := h
    rw [fit_leftOut hp hroom, whole_append, List.take_append_of_le_length (by omega),
      List.take_append_of_le_length (by omega)]
  · rw [fit_of_not_leftOut hneed h, List.take_take, Nat.min_eq_left (Nat.le_of_lt hlt)]

/-- The text in a room is the text in a longer one, cut, just where the element
that takes the place of a piece left out is the one the piece begins with. -/
theorem fit_take_iff (hneed : ∀ p ∈ ps, p.need ≤ 2) (hle : room ≤ room') :
    fit room ps = (fit room' ps).take room ↔
      room = room' ∨ ∀ pre p post, ps = pre ++ p :: post → p.need = 2 →
        (whole pre).length + 1 = room → fit 1 post = p.text.take 1 := by
  rcases Nat.eq_or_lt_of_le hle with rfl | hlt
  · rw [List.take_of_length_le (fit_length_le _ _)]
    exact iff_of_true rfl (Or.inl rfl)
  rw [fit_take_of_lt hneed hlt, or_iff_right (Nat.ne_of_lt hlt)]
  have hcut : ∀ pre p post, ps = pre ++ p :: post → p.need = 2 → (whole pre).length + 1 = room →
      (whole ps).take room = whole pre ++ p.text.take 1 := by
    rintro pre p post rfl hp hroom
    have := p.need_le
    rw [whole_append, whole_cons, ← List.append_assoc, List.take_append_of_le_length (by
      rw [List.length_append]
      omega), List.take_append, List.take_of_length_le (by omega),
      show room - (whole pre).length = 1 by omega]
  constructor
  · rintro h pre p post heq hp hroom
    rw [hcut pre p post heq hp hroom, heq, fit_leftOut hp hroom] at h
    exact List.append_cancel_left h
  · intro h
    by_cases hout : LeftOut room ps
    · obtain ⟨pre, p, post, heq, hp, hroom⟩ := hout
      rw [hcut pre p post heq hp hroom, ← h pre p post heq hp hroom, heq, fit_leftOut hp hroom]
    · exact fit_of_not_leftOut hneed hout

/-- The element that a room of one is given: the first of the pieces that do not
insist on more. -/
def opening : List (Piece α) → Option α
  | [] => none
  | p :: ps => if p.need ≤ 1 then p.text.head?.or (opening ps) else opening ps

theorem fit_one : ∀ ps : List (Piece α), fit 1 ps = (opening ps).toList
  | [] => rfl
  | p :: ps => by
      rw [fit, opening]
      split
      next hneed =>
        rw [show p.fit 1 = p.text.take 1 from if_pos hneed]
        cases p.text with
        | nil => exact fit_one ps
        | cons b text => exact congrArg (b :: ·) (fit_zero ps)
      next hneed =>
        rw [show p.fit 1 = [] from if_neg hneed]
        exact fit_one ps

end Two

end Fitting
