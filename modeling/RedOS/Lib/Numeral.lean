/-
# `RedOS.Lib.Numeral` — numerals in a base

`Nat.digits` with the one digit of 0 added, which is what a digit loop of the
form `do … while (n)` produces, least significant digit first.

    digits_step           one pass of such a loop
    digits_lt             every digit is below the base
    readDigits_numeral    the numeral reads back as the number
    numeral_injective     so it is no other number's
    head_numeral          and has no zero in front
-/
import Mathlib.Data.Nat.Digits.Lemmas
import Mathlib.Tactic.Ring

namespace Numeral

/-- The digits of `n`, least significant first; 0 has one. -/
def digits (base n : Nat) : List Nat := if n = 0 then [0] else Nat.digits base n

/-- The numeral in the characters `char` gives to digits. -/
def numeral {α : Type} (char : Nat → α) (base n : Nat) : List α := ((digits base n).map char).reverse

variable {base n : Nat}

/-- Below the base there is one digit. -/
theorem digits_of_lt (h : n < base) : digits base n = [n] := by
  unfold digits
  split
  next hzero => rw [hzero]
  next hpos => exact Nat.digits_of_lt base n hpos h

theorem digits_of_ne_zero (h : n ≠ 0) : digits base n = Nat.digits base n := if_neg h

/-- One pass of the digit loop. -/
theorem digits_step (hb : 1 < base) (n : Nat) :
    digits base n = n % base :: if n / base = 0 then [] else digits base (n / base) := by
  by_cases hlt : n < base
  · rw [digits_of_lt hlt, Nat.mod_eq_of_lt hlt, if_pos (Nat.div_eq_of_lt hlt)]
  · have hbig : base ≤ n := Nat.le_of_not_lt hlt
    have hn : n ≠ 0 := Nat.ne_of_gt (Nat.lt_of_lt_of_le (Nat.lt_of_succ_lt hb) hbig)
    have hquot : n / base ≠ 0 := Nat.ne_of_gt (Nat.div_pos hbig (Nat.lt_of_succ_lt hb))
    rw [digits_of_ne_zero hn, if_neg hquot, digits_of_ne_zero hquot,
      Nat.digits_eq_cons_digits_div hb hn]

theorem digits_lt (hb : 1 < base) {d : Nat} (hd : d ∈ digits base n) : d < base := by
  unfold digits at hd
  split at hd
  · rw [List.mem_singleton.mp hd]
    exact Nat.lt_of_succ_lt hb
  · exact Nat.digits_lt_base hb hd

/-- A numeral is made of the characters of digits. -/
theorem of_mem_numeral {α : Type} {char : Nat → α} (hb : 1 < base) {c : α}
    (hc : c ∈ numeral char base n) : ∃ d, d < base ∧ char d = c := by
  rw [numeral, List.mem_reverse, List.mem_map] at hc
  obtain ⟨d, hd, rfl⟩ := hc
  exact ⟨d, digits_lt hb hd, rfl⟩

/-- A number below `base ^ k` has at most `k` digits. -/
theorem numeral_length_le {α : Type} (char : Nat → α) (hb : 1 < base) {k : Nat} (hk : 0 < k)
    (hn : n < base ^ k) : (numeral char base n).length ≤ k := by
  rw [numeral, List.length_reverse, List.length_map]
  unfold digits
  split
  next => exact hk
  next => exact (Nat.digits_length_le_iff hb n).mpr hn

theorem digits_ne_nil (n : Nat) : digits base n ≠ [] := by
  unfold digits
  split
  next => exact List.cons_ne_nil _ _
  next hn => exact Nat.digits_ne_nil_iff_ne_zero.mpr hn

theorem ofDigits_digits (n : Nat) : Nat.ofDigits base (digits base n) = n := by
  unfold digits
  split
  next hn =>
    rw [hn]
    exact Nat.ofDigits_singleton
  next => exact Nat.ofDigits_digits base n

/-! ## Reading -/

section Reading

variable {α : Type} {char : Nat → α} {value : α → Option Nat}

/-- The number a text of digits stands for, most significant digit first. -/
def readDigits (value : α → Option Nat) (base : Nat) (text : List α) : Option Nat :=
  text.foldlM (fun n c => (value c).map (base * n + ·)) 0

theorem foldlM_digits (hvalue : ∀ d, d < base → value (char d) = some d) : ∀ (ds : List Nat) (n : Nat),
    (∀ d ∈ ds, d < base) →
    ((ds.map char).reverse.foldlM (fun n c => (value c).map (base * n + ·)) n : Option Nat)
      = some (base ^ ds.length * n + Nat.ofDigits base ds)
  | [], n, _ => by
      rw [List.length_nil, Nat.pow_zero, Nat.one_mul]
      rfl
  | d :: ds, n, hds => by
      have ih := foldlM_digits hvalue ds n fun d hd => hds d (List.mem_cons_of_mem _ hd)
      rw [List.map_cons, List.reverse_cons, List.foldlM_append, ih]
      show (value (char d)).map (base * (base ^ ds.length * n + Nat.ofDigits base ds) + ·) >>= some = _
      rw [hvalue d (hds d List.mem_cons_self), Nat.ofDigits_cons, List.length_cons, Nat.pow_succ]
      show some _ = some _
      congr 1
      ring

/-- The numeral of a number reads back as the number. -/
theorem readDigits_numeral (hb : 1 < base) (hvalue : ∀ d, d < base → value (char d) = some d)
    (n : Nat) : readDigits value base (numeral char base n) = some n := by
  rw [readDigits, numeral, foldlM_digits hvalue _ _ fun d hd => digits_lt hb hd, Nat.mul_zero,
    Nat.zero_add, ofDigits_digits]

/-- So no two numbers have one numeral. -/
theorem numeral_injective (hb : 1 < base) (hvalue : ∀ d, d < base → value (char d) = some d) :
    Function.Injective (numeral char base) := by
  intro m n h
  have hm := readDigits_numeral hb hvalue m
  rw [h, readDigits_numeral hb hvalue n] at hm
  exact (Option.some.inj hm).symm

/-- No zero stands in front of other digits. -/
theorem head_numeral {n : Nat} (hchar : ∀ d, d < base → char d = char 0 → d = 0) (hb : 1 < base)
    (h : (numeral char base n).head? = some (char 0)) : n = 0 := by
  by_contra hn
  have hlast := Nat.getLast_digit_ne_zero base hn
  have hne : Nat.digits base n ≠ [] := Nat.digits_ne_nil_iff_ne_zero.mpr hn
  rw [numeral, digits_of_ne_zero hn, List.head?_reverse, List.getLast?_map,
    List.getLast?_eq_some_getLast hne, Option.map_some, Option.some.injEq] at h
  exact hlast (hchar _ (Nat.digits_lt_base hb (List.getLast_mem hne)) h)

/-- Texts with a `c` in them agree up to the first one and behind it. -/
theorem eq_of_append_cons {c : α} : ∀ {x x' z z' : List α}, c ∉ x → c ∉ x' →
    x ++ c :: z = x' ++ c :: z' → x = x' ∧ z = z'
  | [], [], _, _, _, _, h => ⟨rfl, (List.cons.inj h).2⟩
  | [], b :: x', _, _, _, hx', h => absurd ((List.cons.inj h).1 ▸ List.mem_cons_self) hx'
  | b :: x, [], _, _, hx, _, h => absurd ((List.cons.inj h).1 ▸ List.mem_cons_self) hx
  | b :: x, b' :: x', _, _, hx, hx', h => by
      obtain ⟨rfl, hrest⟩ := List.cons.inj h
      obtain ⟨rfl, hz⟩ := eq_of_append_cons (fun hc => hx (List.mem_cons_of_mem b hc))
        (fun hc => hx' (List.mem_cons_of_mem b hc)) hrest
      exact ⟨rfl, hz⟩

end Reading

end Numeral
