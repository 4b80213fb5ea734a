/-
# `RedOS.Lib.ByteMemory` — a 32-bit address space of bytes

A memory is a total function from 32-bit addresses to bytes; half-words and
words are little-endian views of it.  Addresses wrap modulo `2^32`, so an
interval of addresses is given by its first address and its length and
membership is `(q - p).toNat < n` (`InBlock`), which is right whether or not the
interval wraps.

What a client uses: a load reads back the store at the same place, a store
leaves every aligned load at another place alone, and the two block operations
`fill` and `copy` have their loads stated once.
-/
import Mathlib.Algebra.Group.Nat.Defs
import Mathlib.Logic.Basic

namespace ByteMemory

abbrev Addr := BitVec 32

/-- The contents of the address space. -/
abbrev Mem := Addr → BitVec 8

def store8 (m : Mem) (p : Addr) (b : BitVec 8) : Mem := fun q => if q = p then b else m q

def load16 (m : Mem) (p : Addr) : BitVec 16 := m (p + 1) ++ m p

def store16 (m : Mem) (p : Addr) (v : BitVec 16) : Mem :=
  store8 (store8 m p (v.extractLsb' 0 8)) (p + 1) (v.extractLsb' 8 8)

def load32 (m : Mem) (p : Addr) : BitVec 32 := m (p + 3) ++ m (p + 2) ++ m (p + 1) ++ m p

def store32 (m : Mem) (p : Addr) (v : BitVec 32) : Mem :=
  store8 (store8 (store8 (store8 m p (v.extractLsb' 0 8)) (p + 1) (v.extractLsb' 8 8))
    (p + 2) (v.extractLsb' 16 8)) (p + 3) (v.extractLsb' 24 8)

/-- `q` is one of the `n` addresses from `p` on. -/
def InBlock (p : Addr) (n : Nat) (q : Addr) : Prop := (q - p).toNat < n

instance (p : Addr) (n : Nat) (q : Addr) : Decidable (InBlock p n q) :=
  inferInstanceAs (Decidable (_ < _))

/-- The `n` bytes from `p` on all set to `b`. -/
def fill (m : Mem) (p : Addr) (n : Nat) (b : BitVec 8) : Mem :=
  fun q => if InBlock p n q then b else m q

/-- The `n` bytes from `dst` on replaced by the `n` bytes that were at `src`. -/
def copy (m : Mem) (dst src : Addr) (n : Nat) : Mem :=
  fun q => if InBlock dst n q then m (src + (q - dst)) else m q

/-! ## Bytes -/

@[simp] theorem store8_self (m : Mem) (p : Addr) (b : BitVec 8) : store8 m p b p = b :=
  if_pos rfl

theorem store8_ne (m : Mem) {p q : Addr} (b : BitVec 8) (h : q ≠ p) : store8 m p b q = m q :=
  if_neg h

theorem store16_apply_ne (m : Mem) {p q : Addr} (v : BitVec 16) (h : ¬ InBlock p 2 q) :
    store16 m p v q = m q := by
  unfold InBlock at h
  have h0 : q ≠ p := by rintro rfl; simp at h
  have h1 : q ≠ p + 1 := by bv_omega
  rw [store16, store8_ne _ _ h1, store8_ne _ _ h0]

theorem store32_apply_ne (m : Mem) {p q : Addr} (v : BitVec 32) (h : ¬ InBlock p 4 q) :
    store32 m p v q = m q := by
  unfold InBlock at h
  have h0 : q ≠ p := by rintro rfl; simp at h
  have h1 : q ≠ p + 1 := by bv_omega
  have h2 : q ≠ p + 2 := by bv_omega
  have h3 : q ≠ p + 3 := by bv_omega
  rw [store32, store8_ne _ _ h3, store8_ne _ _ h2, store8_ne _ _ h1, store8_ne _ _ h0]

/-! ## Half-words -/

theorem load16_congr {m m' : Mem} {p : Addr} (h : ∀ q, InBlock p 2 q → m q = m' q) :
    load16 m p = load16 m' p := by
  unfold load16
  rw [h p (by unfold InBlock; bv_omega), h (p + 1) (by unfold InBlock; bv_omega)]

theorem load16_store16 (m : Mem) (p : Addr) (v : BitVec 16) :
    load16 (store16 m p v) p = v := by
  have h0 : p ≠ p + 1 := by bv_omega
  simp only [load16, store16, store8_self, store8_ne _ _ h0]
  apply BitVec.eq_of_getLsbD_eq
  intro i hi
  simp only [BitVec.getLsbD_append, BitVec.getLsbD_extractLsb']
  by_cases h : i < 8
  · simp [h]
  · have : 8 + (i - 8) = i := by omega
    have h' : i - 8 < 8 := by omega
    simp [h, h', this]

/-! ## Words -/

theorem load32_congr {m m' : Mem} {p : Addr} (h : ∀ q, InBlock p 4 q → m q = m' q) :
    load32 m p = load32 m' p := by
  unfold load32
  rw [h p (by unfold InBlock; bv_omega), h (p + 1) (by unfold InBlock; bv_omega),
    h (p + 2) (by unfold InBlock; bv_omega), h (p + 3) (by unfold InBlock; bv_omega)]

/-- A word is its bytes. -/
theorem word_of_bytes (v : BitVec 32) :
    v.extractLsb' 24 8 ++ v.extractLsb' 16 8 ++ v.extractLsb' 8 8 ++ v.extractLsb' 0 8 = v := by
  apply BitVec.eq_of_getLsbD_eq
  intro i hi
  simp only [BitVec.getLsbD_append, BitVec.getLsbD_extractLsb']
  by_cases h0 : i < 8
  · simp [h0]
  by_cases h1 : i - 8 < 8
  · have : 8 + (i - 8) = i := by omega
    simp [h0, h1, this]
  by_cases h2 : i - 8 - 8 < 8
  · have : 16 + (i - 8 - 8) = i := by omega
    simp [h0, h1, h2, this]
  · have : 24 + (i - 8 - 8 - 8) = i := by omega
    have h3 : i - 8 - 8 - 8 < 8 := by omega
    simp [h0, h1, h2, h3, this]

theorem load32_store32 (m : Mem) (p : Addr) (v : BitVec 32) :
    load32 (store32 m p v) p = v := by
  have h01 : p ≠ p + 1 := by bv_omega
  have h02 : p ≠ p + 2 := by bv_omega
  have h03 : p ≠ p + 3 := by bv_omega
  have h12 : p + 1 ≠ p + 2 := by bv_omega
  have h13 : p + 1 ≠ p + 3 := by bv_omega
  have h23 : p + 2 ≠ p + 3 := by bv_omega
  simp only [load32, store32, store8_self, store8_ne _ _ h01, store8_ne _ _ h02,
    store8_ne _ _ h03, store8_ne _ _ h12, store8_ne _ _ h13, store8_ne _ _ h23]
  exact word_of_bytes v

/-- Aligned words do not overlap. -/
theorem load32_store32_ne (m : Mem) {p q : Addr} (v : BitVec 32) (hp : p.toNat % 4 = 0)
    (hq : q.toNat % 4 = 0) (hne : q ≠ p) : load32 (store32 m p v) q = load32 m q := by
  refine load32_congr fun r hr => store32_apply_ne m v fun hr' => hne ?_
  unfold InBlock at hr hr'
  bv_omega

/-! ## Blocks -/

theorem inBlock_offset (p : Addr) {n i : Nat} (hi : i < n) (hn : n ≤ 2 ^ 32) :
    InBlock p n (p + BitVec.ofNat 32 i) := by
  unfold InBlock
  bv_omega

/-- In a block that does not wrap, the addresses between its ends. -/
theorem inBlock_iff {p : Addr} {n : Nat} (hp : p.toNat + n ≤ 2 ^ 32) (q : Addr) :
    InBlock p n q ↔ p.toNat ≤ q.toNat ∧ q.toNat < p.toNat + n := by
  unfold InBlock
  bv_omega

theorem fill_apply_in (m : Mem) {p : Addr} {n : Nat} (b : BitVec 8) {q : Addr}
    (h : InBlock p n q) : fill m p n b q = b := if_pos h

theorem fill_apply_out (m : Mem) {p : Addr} {n : Nat} (b : BitVec 8) {q : Addr}
    (h : ¬ InBlock p n q) : fill m p n b q = m q := if_neg h

@[simp] theorem fill_zero (m : Mem) (p : Addr) (b : BitVec 8) : fill m p 0 b = m := by
  funext q
  exact fill_apply_out m b (Nat.not_lt_zero _)

/-- One more byte, written by a store: the step of a filling loop. -/
theorem fill_succ (m : Mem) (p : Addr) {n : Nat} (hn : n < 2 ^ 32) (b : BitVec 8) :
    fill m p (n + 1) b = store8 (fill m p n b) (p + BitVec.ofNat 32 n) b := by
  funext q
  by_cases hq : q = p + BitVec.ofNat 32 n
  · subst hq
    rw [store8_self]
    refine fill_apply_in m b ?_
    unfold InBlock
    bv_omega
  · have hne : (q - p).toNat ≠ n := by
      intro h
      apply hq
      bv_omega
    rw [store8_ne _ _ hq]
    unfold fill InBlock
    exact if_congr (by omega) rfl rfl

theorem copy_apply_in (m : Mem) {dst : Addr} (src : Addr) {n : Nat} {q : Addr}
    (h : InBlock dst n q) : copy m dst src n q = m (src + (q - dst)) := if_pos h

theorem copy_apply_out (m : Mem) {dst : Addr} (src : Addr) {n : Nat} {q : Addr}
    (h : ¬ InBlock dst n q) : copy m dst src n q = m q := if_neg h

/-- Byte `i` of the destination was byte `i` of the source. -/
theorem copy_apply_offset (m : Mem) (dst src : Addr) {n i : Nat} (hi : i < n) (hn : n ≤ 2 ^ 32) :
    copy m dst src n (dst + BitVec.ofNat 32 i) = m (src + BitVec.ofNat 32 i) := by
  have hoffset : dst + BitVec.ofNat 32 i - dst = BitVec.ofNat 32 i := by bv_omega
  rw [copy_apply_in m src (inBlock_offset dst hi hn), hoffset]

@[simp] theorem copy_zero (m : Mem) (dst src : Addr) : copy m dst src 0 = m := by
  funext q
  exact copy_apply_out m src (Nat.not_lt_zero _)

/-- One more byte at the end, whose source has not been overwritten yet: the
step of a copy with ascending addresses. -/
theorem copy_snoc (m : Mem) {dst src : Addr} {n : Nat} (hn : n < 2 ^ 32)
    (hsrc : ¬ InBlock dst n (src + BitVec.ofNat 32 n)) :
    store8 (copy m dst src n) (dst + BitVec.ofNat 32 n)
      (copy m dst src n (src + BitVec.ofNat 32 n)) = copy m dst src (n + 1) := by
  rw [copy_apply_out m src hsrc]
  funext q
  by_cases hq : q = dst + BitVec.ofNat 32 n
  · subst hq
    rw [store8_self, copy_apply_in m src (by unfold InBlock; bv_omega)]
    congr 1
    bv_omega
  · have hne : (q - dst).toNat ≠ n := by
      intro h
      apply hq
      bv_omega
    rw [store8_ne _ _ hq]
    unfold copy InBlock
    exact if_congr (by omega) rfl rfl

/-- One more byte in front: the step of a copy with descending addresses. -/
theorem copy_cons (m : Mem) {dst src : Addr} {n : Nat} (hn : n < 2 ^ 32)
    (hsrc : ¬ InBlock (dst + 1) n src) :
    store8 (copy m (dst + 1) (src + 1) n) dst (copy m (dst + 1) (src + 1) n src) =
      copy m dst src (n + 1) := by
  rw [copy_apply_out m _ hsrc]
  funext q
  by_cases hq : q = dst
  · subst hq
    rw [store8_self, copy_apply_in m src (by unfold InBlock; bv_omega)]
    congr 1
    bv_omega
  · have hiff : (q - (dst + 1)).toNat < n ↔ (q - dst).toNat < n + 1 := by bv_omega
    have hfrom : src + 1 + (q - (dst + 1)) = src + (q - dst) := by bv_omega
    rw [store8_ne _ _ hq]
    unfold copy InBlock
    rw [hfrom]
    exact if_congr hiff rfl rfl

/-- A half-word inside a zero-filled block reads as zero. -/
theorem load16_fill_zero (m : Mem) {p q : Addr} {n : Nat} (h : (q - p).toNat + 2 ≤ n) :
    load16 (fill m p n 0#8) q = 0#16 := by
  have hb : ∀ r, InBlock q 2 r → fill m p n 0#8 r = 0#8 := by
    intro r hr
    refine fill_apply_in m _ ?_
    unfold InBlock at hr ⊢
    bv_omega
  rw [show load16 (fill m p n 0#8) q = load16 (fun _ => 0#8) q from load16_congr hb]
  simp [load16]

/-- A half-word outside a filled block is as before. -/
theorem load16_fill_out (m : Mem) {p q : Addr} {n : Nat} (b : BitVec 8)
    (h : ∀ r, InBlock q 2 r → ¬ InBlock p n r) : load16 (fill m p n b) q = load16 m q :=
  load16_congr fun r hr => fill_apply_out m b (h r hr)

/-- A half-word inside the destination of a copy was inside its source. -/
theorem load16_copy_in (m : Mem) {dst : Addr} (src : Addr) {n : Nat} {q : Addr}
    (h : (q - dst).toNat + 2 ≤ n) :
    load16 (copy m dst src n) q = load16 m (src + (q - dst)) := by
  have h0 : InBlock dst n q := by unfold InBlock; omega
  have h1 : InBlock dst n (q + 1) := by unfold InBlock; bv_omega
  have hnext : src + (q + 1 - dst) = src + (q - dst) + 1 := by bv_omega
  unfold load16
  rw [copy_apply_in m src h0, copy_apply_in m src h1, hnext]

/-- A word inside a zero-filled block reads as zero. -/
theorem load32_fill_zero (m : Mem) {p q : Addr} {n : Nat} (h : (q - p).toNat + 4 ≤ n) :
    load32 (fill m p n 0#8) q = 0#32 := by
  have hb : ∀ r, InBlock q 4 r → fill m p n 0#8 r = 0#8 := by
    intro r hr
    refine fill_apply_in m _ ?_
    unfold InBlock at hr ⊢
    bv_omega
  rw [show load32 (fill m p n 0#8) q = load32 (fun _ => 0#8) q from load32_congr hb]
  simp [load32]

end ByteMemory
