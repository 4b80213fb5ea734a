/-
# `RedOS.Lib.PackedSet` — sets of numbers packed into fixed-width words

A vector of `n` words of `w` bits stands for a set of numbers below `n * w`:
`k` is in the set when bit `k % w` of word `k / w` is one.  This module relates
the four loops and masks such a bitmap is driven by — or-ing a bit in, and-ing
it out, the two-level search for the first clear bit, and the double counting
loop — to the set operations they are meant to be:

    code on the words                                  set
    words[k/w] |= 1 << (k % w)                         insert k
    words[k/w] &= ~(1 << (k % w))                      erase k
    first clear bit, skipping words that are all ones  least element outside
    two nested counting loops                          cardinality

Everything is stated through `test`, so a client never sees a mask.
-/
import Mathlib.Data.Finset.Card
import Mathlib.Data.Finset.Range
import Mathlib.Data.List.FinRange
import Mathlib.Data.Nat.Count

namespace PackedSet

variable {w n : Nat}

/-- Bit `k % w` of word `k / w`. -/
def test (b : Vector (BitVec w) n) (k : Nat) : Bool :=
  if h : k / w < n then b[k / w].getLsbD (k % w) else false

/-- Or the bit of `k` in; a number past the last word changes nothing. -/
def insert (b : Vector (BitVec w) n) (k : Nat) : Vector (BitVec w) n :=
  if h : k / w < n then b.set (k / w) (b[k / w] ||| (1#w <<< (k % w))) h else b

/-- And the bit of `k` out. -/
def erase (b : Vector (BitVec w) n) (k : Nat) : Vector (BitVec w) n :=
  if h : k / w < n then b.set (k / w) (b[k / w] &&& ~~~(1#w <<< (k % w))) h else b

/-- The search within one word. -/
def firstClearBit (x : BitVec w) : Option Nat :=
  (List.range w).findSome? fun j => if x &&& (1#w <<< j) = 0#w then some j else none

/-- The two-level search: words that are all ones are skipped whole. -/
def firstClear (b : Vector (BitVec w) n) : Option Nat :=
  (List.finRange n).findSome? fun i =>
    if b[i] = BitVec.allOnes w then none
    else (firstClearBit b[i]).map fun j => i.val * w + j

/-- The two nested counting loops. -/
def count (b : Vector (BitVec w) n) : Nat :=
  (List.finRange n).foldl (fun acc i =>
    (List.range w).foldl (fun acc j =>
      if b[i] &&& (1#w <<< j) = 0#w then acc else acc + 1) acc) 0

/-! ## One word -/

theorem and_bit_eq_zero {x : BitVec w} {j : Nat} (hj : j < w) :
    x &&& (1#w <<< j) = 0#w ↔ x.getLsbD j = false := by
  rw [← BitVec.twoPow_eq, BitVec.and_twoPow]
  cases hx : x.getLsbD j with
  | false => simp
  | true =>
      simp only [if_true, Bool.true_eq_false, iff_false]
      intro h
      have hbit := congrArg (fun y => BitVec.getLsbD y j) h
      simp [hj] at hbit

theorem getLsbD_or_bit (x : BitVec w) {i j : Nat} (hj : j < w) :
    (x ||| (1#w <<< j)).getLsbD i = (x.getLsbD i || decide (i = j)) := by
  rw [← BitVec.twoPow_eq, BitVec.getLsbD_or, BitVec.getLsbD_twoPow]
  simp [hj, eq_comm]

theorem getLsbD_and_not_bit (x : BitVec w) {i j : Nat} (hi : i < w) (hj : j < w) :
    (x &&& ~~~(1#w <<< j)).getLsbD i = (x.getLsbD i && !decide (i = j)) := by
  rw [← BitVec.twoPow_eq, BitVec.getLsbD_and, BitVec.getLsbD_not, BitVec.getLsbD_twoPow]
  simp [hi, hj, eq_comm]

/-- A counting search over `range` stops at the least index that answers. -/
theorem findSome?_range {α : Type} {f : Nat → Option α} {a : α} : ∀ {m : Nat},
    (List.range m).findSome? f = some a ↔
      ∃ i, i < m ∧ f i = some a ∧ ∀ j, j < i → f j = none
  | 0 => by simp
  | m + 1 => by
      rw [List.range_succ, List.findSome?_append]
      cases hm : (List.range m).findSome? f with
      | some a' =>
          obtain ⟨i, hi, hfi, hmin⟩ := findSome?_range.mp hm
          simp only [Option.some_or, Option.some.injEq]
          constructor
          · rintro rfl
            exact ⟨i, Nat.lt_succ_of_lt hi, hfi, hmin⟩
          · rintro ⟨i', -, hfi', hmin'⟩
            rcases Nat.lt_trichotomy i i' with h | h | h
            · rw [hmin' i h] at hfi; cases hfi
            · subst h; exact Option.some.inj (hfi.symm.trans hfi')
            · rw [hmin i' h] at hfi'; cases hfi'
      | none =>
          have hnone : ∀ i, i < m → f i = none := by
            simpa [List.findSome?_eq_none_iff] using hm
          simp only [Option.none_or, List.findSome?_singleton]
          constructor
          · intro h
            exact ⟨m, Nat.lt_succ_self m, h, hnone⟩
          · rintro ⟨i, hi, hfi, -⟩
            have : i = m := by
              by_contra hne
              rw [hnone i (by omega)] at hfi
              cases hfi
            exact this ▸ hfi

theorem firstClearBit_eq_some {x : BitVec w} {j : Nat} :
    firstClearBit x = some j ↔
      j < w ∧ x.getLsbD j = false ∧ ∀ i, i < j → x.getLsbD i = true := by
  unfold firstClearBit
  rw [findSome?_range]
  constructor
  · rintro ⟨i, hi, hfi, hmin⟩
    by_cases hz : x &&& (1#w <<< i) = 0#w
    · rw [if_pos hz, Option.some.injEq] at hfi
      subst hfi
      refine ⟨hi, (and_bit_eq_zero hi).mp hz, ?_⟩
      intro i' hi'
      have := hmin i' hi'
      simp only [ite_eq_right_iff, reduceCtorEq, imp_false,
        and_bit_eq_zero (Nat.lt_trans hi' hi), Bool.not_eq_false] at this
      exact this
    · rw [if_neg hz] at hfi; cases hfi
  · rintro ⟨hj, hclear, hmin⟩
    refine ⟨j, hj, if_pos ((and_bit_eq_zero hj).mpr hclear), fun i hi => if_neg ?_⟩
    rw [and_bit_eq_zero (Nat.lt_trans hi hj), hmin i hi]
    simp

theorem firstClearBit_eq_none {x : BitVec w} :
    firstClearBit x = none ↔ ∀ j, j < w → x.getLsbD j = true := by
  unfold firstClearBit
  simp only [List.findSome?_eq_none_iff, List.mem_range, ite_eq_right_iff,
    reduceCtorEq, imp_false]
  constructor
  · intro h j hj
    have := h j hj
    rwa [and_bit_eq_zero hj, Bool.not_eq_false] at this
  · intro h j hj
    rw [and_bit_eq_zero hj, h j hj]
    simp

/-! ## The set -/

theorem test_eq_false_of_le {b : Vector (BitVec w) n} {k : Nat} (h : n * w ≤ k) :
    test b k = false := by
  unfold test
  rcases Nat.eq_zero_or_pos w with hw | hw
  · subst hw
    split
    · exact BitVec.getLsbD_of_ge _ _ (Nat.zero_le _)
    · rfl
  · have : ¬ k / w < n := by
      rw [Nat.div_lt_iff_lt_mul hw]
      omega
    rw [dif_neg this]

theorem lt_of_test {b : Vector (BitVec w) n} {k : Nat} (h : test b k = true) : k < n * w := by
  by_contra hk
  rw [test_eq_false_of_le (Nat.le_of_not_lt hk)] at h
  cases h

theorem test_mul_add {b : Vector (BitVec w) n} {i : Nat} (hi : i < n) {j : Nat} (hj : j < w) :
    test b (i * w + j) = b[i].getLsbD j := by
  have hw : 0 < w := Nat.lt_of_le_of_lt (Nat.zero_le j) hj
  have hd : (i * w + j) / w = i := by
    rw [Nat.mul_comm, Nat.mul_add_div hw, Nat.div_eq_of_lt hj, Nat.add_zero]
  have hm : (i * w + j) % w = j := by
    rw [Nat.mul_comm, Nat.mul_add_mod, Nat.mod_eq_of_lt hj]
  unfold test
  rw [dif_pos (by rw [hd]; exact hi)]
  simp only [hd, hm]

/-- The words hold nothing but the set. -/
theorem ext_test {b c : Vector (BitVec w) n} (h : ∀ k, test b k = test c k) : b = c := by
  apply Vector.ext
  intro i hi
  apply BitVec.eq_of_getLsbD_eq
  intro j hj
  rw [← test_mul_add hi hj, ← test_mul_add hi hj, h]

/-- Quotient and remainder name the element. -/
theorem eq_of_div_mod {j k : Nat} (hd : j / w = k / w) (hm : j % w = k % w) : j = k := by
  rw [← Nat.div_add_mod j w, ← Nat.div_add_mod k w, hd, hm]

/-- One word replaced: only the numbers of that word are concerned. -/
theorem test_set {b : Vector (BitVec w) n} {i : Nat} (hi : i < n) (x : BitVec w) (j : Nat) :
    test (b.set i x hi) j = if j / w = i then x.getLsbD (j % w) else test b j := by
  unfold test
  by_cases hj : j / w < n
  · rw [dif_pos hj, dif_pos hj, Vector.getElem_set]
    by_cases hij : i = j / w
    · rw [if_pos hij, if_pos hij.symm]
    · rw [if_neg hij, if_neg (Ne.symm hij)]
  · have hij : j / w ≠ i := by
      rintro rfl
      exact hj hi
    rw [dif_neg hj, dif_neg hj, if_neg hij]

theorem test_insert {b : Vector (BitVec w) n} {k : Nat} (hk : k < n * w) (j : Nat) :
    test (insert b k) j = (test b j || decide (j = k)) := by
  have hw : 0 < w := Nat.pos_of_ne_zero (by rintro rfl; simp at hk)
  have hkn : k / w < n := (Nat.div_lt_iff_lt_mul hw).mpr hk
  rw [insert, dif_pos hkn, test_set hkn]
  by_cases hd : j / w = k / w
  · have hsame : (j % w = k % w) ↔ j = k := ⟨eq_of_div_mod hd, fun h => by rw [h]⟩
    have hjn : j / w < n := hd ▸ hkn
    rw [if_pos hd, getLsbD_or_bit _ (Nat.mod_lt k hw), test, dif_pos hjn]
    simp only [hsame, hd]
  · have hne : j ≠ k := fun h => hd (by rw [h])
    rw [if_neg hd, decide_eq_false hne, Bool.or_false]

theorem test_erase {b : Vector (BitVec w) n} (k j : Nat) :
    test (erase b k) j = (test b j && !decide (j = k)) := by
  rcases Nat.eq_zero_or_pos w with rfl | hw
  · have h0 : ∀ (c : Vector (BitVec 0) n), test c j = false := fun c =>
      test_eq_false_of_le (by simp)
    rw [h0, h0]
    rfl
  by_cases hkn : k / w < n
  · rw [erase, dif_pos hkn, test_set hkn]
    by_cases hd : j / w = k / w
    · have hsame : (j % w = k % w) ↔ j = k := ⟨eq_of_div_mod hd, fun h => by rw [h]⟩
      have hjn : j / w < n := hd ▸ hkn
      rw [if_pos hd, getLsbD_and_not_bit _ (Nat.mod_lt j hw) (Nat.mod_lt k hw), test, dif_pos hjn]
      simp only [hsame, hd]
    · have hne : j ≠ k := fun h => hd (by rw [h])
      rw [if_neg hd, decide_eq_false hne, Bool.not_false, Bool.and_true]
  · rw [erase, dif_neg hkn]
    by_cases hjk : j = k
    · subst hjk
      rw [test, dif_neg hkn, Bool.false_and]
    · rw [decide_eq_false hjk, Bool.not_false, Bool.and_true]

/-- What was put in and taken out again leaves no trace. -/
theorem erase_insert {b : Vector (BitVec w) n} {k : Nat} (hk : k < n * w) (hnew : test b k = false) :
    erase (insert b k) k = b := by
  apply ext_test
  intro j
  rw [test_erase, test_insert hk]
  by_cases hj : j = k
  · simp [hj, hnew]
  · simp [hj]

theorem test_replicate_zero (k : Nat) : test (Vector.replicate n (0#w)) k = false := by
  unfold test
  split <;> simp

/-! ## Searching -/

/-- What the search says about one word. -/
theorem word_step {b : Vector (BitVec w) n} {i k : Nat} (hi : i < n) :
    (if b[i] = BitVec.allOnes w then none
      else (firstClearBit b[i]).map fun j => i * w + j) = some k ↔
      (i * w ≤ k ∧ k < i * w + w) ∧ test b k = false ∧
        ∀ k', i * w ≤ k' → k' < k → test b k' = true := by
  constructor
  · intro h
    by_cases hall : b[i] = BitVec.allOnes w
    · rw [if_pos hall] at h; cases h
    rw [if_neg hall, Option.map_eq_some_iff] at h
    obtain ⟨j, hj, rfl⟩ := h
    obtain ⟨hjw, hclear, hmin⟩ := firstClearBit_eq_some.mp hj
    refine ⟨⟨Nat.le_add_right _ _, Nat.add_lt_add_left hjw _⟩, ?_, ?_⟩
    · rw [test_mul_add hi hjw, hclear]
    · intro k' hlo hhi
      obtain ⟨j', rfl⟩ := Nat.exists_eq_add_of_le hlo
      have hj' : j' < j := by omega
      rw [test_mul_add hi (by omega), hmin j' hj']
  · rintro ⟨⟨hlo, hhi⟩, hclear, hmin⟩
    obtain ⟨j, rfl⟩ := Nat.exists_eq_add_of_le hlo
    have hj : j < w := by omega
    rw [test_mul_add hi hj] at hclear
    have hne : b[i] ≠ BitVec.allOnes w := by
      intro h
      rw [h, BitVec.getLsbD_allOnes] at hclear
      simp [hj] at hclear
    rw [if_neg hne, Option.map_eq_some_iff]
    refine ⟨j, firstClearBit_eq_some.mpr ⟨hj, hclear, ?_⟩, rfl⟩
    intro j' hj'
    rw [← test_mul_add hi (Nat.lt_trans hj' hj)]
    exact hmin _ (Nat.le_add_right _ _) (by omega)

theorem word_step_none {b : Vector (BitVec w) n} {i : Nat} (hi : i < n) :
    (if b[i] = BitVec.allOnes w then none
      else (firstClearBit b[i]).map fun j => i * w + j) = none ↔
      ∀ k, i * w ≤ k → k < i * w + w → test b k = true := by
  constructor
  · intro h k hlo hhi
    obtain ⟨j, rfl⟩ := Nat.exists_eq_add_of_le hlo
    have hj : j < w := by omega
    rw [test_mul_add hi hj]
    by_cases hall : b[i] = BitVec.allOnes w
    · rw [hall, BitVec.getLsbD_allOnes]
      simp [hj]
    · rw [if_neg hall, Option.map_eq_none_iff] at h
      exact firstClearBit_eq_none.mp h j hj
  · intro h
    by_cases hall : b[i] = BitVec.allOnes w
    · rw [if_pos hall]
    rw [if_neg hall, Option.map_eq_none_iff, firstClearBit_eq_none]
    intro j hj
    rw [← test_mul_add hi hj]
    exact h _ (Nat.le_add_right _ _) (by omega)

/-- The search over `finRange`, read as a search over the numbers. -/
theorem findSome?_finRange {α : Type} {f : Fin n → Option α} {a : α} :
    (List.finRange n).findSome? f = some a ↔
      ∃ i : Fin n, f i = some a ∧ ∀ j : Fin n, j < i → f j = none := by
  have hmap : (List.finRange n).findSome? f =
      (List.range n).findSome? (fun i => if h : i < n then f ⟨i, h⟩ else none) := by
    rw [← List.map_coe_finRange_eq_range, List.findSome?_map]
    congr 1
    funext i
    simp
  rw [hmap, findSome?_range]
  constructor
  · rintro ⟨i, hi, hfi, hmin⟩
    refine ⟨⟨i, hi⟩, by simpa [hi] using hfi, fun j hj => ?_⟩
    have := hmin j.val hj
    simpa [j.isLt] using this
  · rintro ⟨i, hfi, hmin⟩
    refine ⟨i.val, i.isLt, by simpa using hfi, fun j hj => ?_⟩
    have hjn : j < n := Nat.lt_trans hj i.isLt
    simpa [hjn] using hmin ⟨j, hjn⟩ hj

/-- **First fit.**  The search answers the least number outside the set. -/
theorem firstClear_eq_some {b : Vector (BitVec w) n} {k : Nat} :
    firstClear b = some k ↔
      k < n * w ∧ test b k = false ∧ ∀ k', k' < k → test b k' = true := by
  unfold firstClear
  rw [findSome?_finRange]
  constructor
  · rintro ⟨i, hi, hmin⟩
    obtain ⟨⟨hlo, hhi⟩, hclear, hbelow⟩ := (word_step i.isLt).mp hi
    have hmul : i.val * w + w ≤ n * w := by
      rw [← Nat.succ_mul]
      exact Nat.mul_le_mul_right w i.isLt
    refine ⟨Nat.lt_of_lt_of_le hhi hmul, hclear, ?_⟩
    intro k' hk'
    by_cases hk : i.val * w ≤ k'
    · exact hbelow k' hk hk'
    · -- an earlier word: it was all ones, or had no clear bit
      have hw : 0 < w := by omega
      have hq : k' / w < i.val := (Nat.div_lt_iff_lt_mul hw).mpr (by omega)
      have hnone := hmin ⟨k' / w, Nat.lt_trans hq i.isLt⟩ hq
      refine (word_step_none (Nat.lt_trans hq i.isLt)).mp hnone k' (Nat.div_mul_le_self k' w) ?_
      have := Nat.lt_div_mul_add hw (a := k')
      omega
  · rintro ⟨hlt, hclear, hmin⟩
    have hw : 0 < w := Nat.pos_of_ne_zero (by rintro rfl; simp at hlt)
    have hq : k / w < n := (Nat.div_lt_iff_lt_mul hw).mpr hlt
    have hlo : k / w * w ≤ k := Nat.div_mul_le_self k w
    have hhi : k < k / w * w + w := by
      have := Nat.lt_div_mul_add hw (a := k)
      omega
    refine ⟨⟨k / w, hq⟩, (word_step hq).mpr ⟨⟨hlo, hhi⟩, hclear, fun k' _ h => hmin k' h⟩,
      fun j hj => (word_step_none j.isLt).mpr fun k' _ hk' => hmin k' ?_⟩
    have hj' : j.val + 1 ≤ k / w := hj
    have := Nat.mul_le_mul_right w hj'
    rw [Nat.succ_mul] at this
    omega

theorem firstClear_eq_none {b : Vector (BitVec w) n} :
    firstClear b = none ↔ ∀ k, k < n * w → test b k = true := by
  constructor
  · intro h k hk
    by_contra hne
    rw [Bool.not_eq_true] at hne
    have hex : ∃ k, test b k = false ∧ k < n * w := ⟨k, hne, hk⟩
    obtain ⟨hclear, hlt⟩ := Nat.find_spec hex
    have hmin : ∀ k', k' < Nat.find hex → test b k' = true := by
      intro k' hk'
      have := Nat.find_min hex hk'
      by_contra hf
      exact this ⟨by simpa using hf, Nat.lt_trans hk' hlt⟩
    have := firstClear_eq_some.mpr ⟨hlt, hclear, hmin⟩
    rw [h] at this
    cases this
  · intro h
    cases hf : firstClear b with
    | none => rfl
    | some k =>
        obtain ⟨hlt, hclear, -⟩ := firstClear_eq_some.mp hf
        rw [h k hlt] at hclear
        cases hclear

/-! ## Counting -/

/-- The inner loop over the bits of one word. -/
theorem foldl_bits (x : BitVec w) (p : Nat → Bool) (hp : ∀ j, j < w → x.getLsbD j = p j) :
    ∀ {m : Nat}, m ≤ w → ∀ acc : Nat,
      (List.range m).foldl (fun acc j => if x &&& (1#w <<< j) = 0#w then acc else acc + 1) acc
        = acc + Nat.count (fun j => p j = true) m
  | 0, _, acc => by simp
  | m + 1, hm, acc => by
      rw [List.range_succ, List.foldl_append, foldl_bits x p hp (by omega), Nat.count_succ]
      simp only [List.foldl_cons, List.foldl_nil, and_bit_eq_zero (show m < w by omega),
        hp m (by omega)]
      cases p m <;> simp
      omega

theorem foldl_words (b : Vector (BitVec w) n) : ∀ {m : Nat}, m ≤ n →
    (List.range m).foldl (fun acc i => if h : i < n then
        (List.range w).foldl (fun acc j =>
          if b[i] &&& (1#w <<< j) = 0#w then acc else acc + 1) acc
      else acc) 0 = Nat.count (fun k => test b k = true) (m * w)
  | 0, _ => by simp
  | m + 1, hm => by
      rw [List.range_succ, List.foldl_append, foldl_words b (by omega)]
      have hmn : m < n := hm
      simp only [List.foldl_cons, List.foldl_nil, dif_pos hmn]
      rw [foldl_bits b[m] (fun j => test b (m * w + j))
        (fun j hj => (test_mul_add hmn hj).symm) (Nat.le_refl w), Nat.succ_mul, Nat.count_add]

/-- **The counting loop counts the set.** -/
theorem count_eq_card (b : Vector (BitVec w) n) :
    count b = ((Finset.range (n * w)).filter fun k => test b k = true).card := by
  rw [← Nat.count_eq_card_filter_range, ← foldl_words b (Nat.le_refl n), count]
  rw [← List.map_coe_finRange_eq_range (n := n), List.foldl_map]
  simp

end PackedSet
