/-
# `RedOS.Lib.X86Paging` — 32-bit two-level page tables in a byte memory

The hardware's reading of physical memory: a page directory and page tables of
1024 words each, one frame (4 KiB) apiece, and the walk of a virtual address
through them.  `walk` is written with the masks and shifts of the manual;
everything after it is stated with frame numbers and entry indices,

    v  =  slot v · 2^22  +  index v · 2^12  +  v mod 2^12
    entry m f j  =  the j-th word of frame f

because on that level a store is a function update (`entry_setEntry`) and
zeroing a frame clears one row (`entry_zeroFrame`).
-/
import RedOS.Lib.ByteMemory
import Mathlib.Tactic.IntervalCases

namespace X86Paging

open ByteMemory

/-- Bits 12 to 31 of an entry: the frame it refers to. -/
def frameMask : BitVec 32 := 0xFFFFF000#32

/-- Bits 0 to 11 of an address: the place inside its page. -/
def offsetMask : BitVec 32 := 0xFFF#32

/-- Bit 0 of an entry. -/
def Present (e : BitVec 32) : Prop := e &&& 1#32 ≠ 0#32

instance (e : BitVec 32) : Decidable (Present e) := inferInstanceAs (Decidable (_ ≠ _))

/-- The hardware walk of `v` from the directory in `cr3`; `none` is a page fault. -/
def walk (m : Mem) (cr3 v : Addr) : Option Addr :=
  let pde := load32 m ((cr3 &&& frameMask) + 4#32 * (v >>> 22))
  if Present pde then
    let pte := load32 m ((pde &&& frameMask) + 4#32 * ((v >>> 12) &&& 0x3FF#32))
    if Present pte then some ((pte &&& frameMask) + (v &&& offsetMask)) else none
  else none

/-! ## Numbers -/

def frameAddr (f : Nat) : Addr := BitVec.ofNat 32 (4096 * f)

def frameOf (a : Addr) : Nat := a.toNat / 4096

def slot (v : Addr) : Nat := v.toNat / 4194304

def index (v : Addr) : Nat := v.toNat / 4096 % 1024

def entryAddr (f j : Nat) : Addr := BitVec.ofNat 32 (4096 * f + 4 * j)

/-- The `j`-th word of frame `f`. -/
def entry (m : Mem) (f j : Nat) : BitVec 32 := load32 m (entryAddr f j)

def setEntry (m : Mem) (f j : Nat) (x : BitVec 32) : Mem := store32 m (entryAddr f j) x

def zeroFrame (m : Mem) (f : Nat) : Mem := fill m (frameAddr f) 4096 0#8

theorem frameOf_lt (a : Addr) : frameOf a < 2 ^ 20 := by
  have := a.isLt
  unfold frameOf
  omega

theorem slot_lt (v : Addr) : slot v < 1024 := by
  have := v.isLt
  unfold slot
  omega

theorem index_lt (v : Addr) : index v < 1024 := Nat.mod_lt _ (by decide)

/-- Directory slot and table index together name the page. -/
theorem frameOf_eq (v : Addr) : frameOf v = 1024 * slot v + index v := by
  unfold frameOf slot index
  omega

theorem slot_eq (v : Addr) : slot v = frameOf v / 1024 := by
  unfold slot frameOf
  omega

theorem frameAddr_toNat {f : Nat} (hf : f < 2 ^ 20) : (frameAddr f).toNat = 4096 * f := by
  unfold frameAddr
  rw [BitVec.toNat_ofNat, Nat.mod_eq_of_lt (by omega)]

theorem frameOf_frameAddr {f : Nat} (hf : f < 2 ^ 20) : frameOf (frameAddr f) = f := by
  rw [frameOf, frameAddr_toNat hf]
  omega

theorem frameAddr_of_aligned {a : Addr} (ha : a.toNat % 4096 = 0) : frameAddr (frameOf a) = a := by
  apply BitVec.eq_of_toNat_eq
  rw [frameAddr_toNat (frameOf_lt a)]
  unfold frameOf
  omega

theorem entryAddr_toNat {f j : Nat} (hf : f < 2 ^ 20) (hj : j < 1024) :
    (entryAddr f j).toNat = 4096 * f + 4 * j := by
  unfold entryAddr
  rw [BitVec.toNat_ofNat, Nat.mod_eq_of_lt (by omega)]

/-! ## Masks -/

theorem getLsbD_frameMask : ∀ {i : Nat}, i < 32 → frameMask.getLsbD i = decide (12 ≤ i) := by
  decide

theorem and_frameMask (a : BitVec 32) : a &&& frameMask = (a >>> 12) <<< 12 := by
  apply BitVec.eq_of_getLsbD_eq
  intro i hi
  rw [BitVec.getLsbD_and, getLsbD_frameMask hi, BitVec.getLsbD_shiftLeft,
    BitVec.getLsbD_ushiftRight]
  by_cases h : 12 ≤ i
  · have : 12 + (i - 12) = i := by omega
    simp [h, hi, this]
  · simp [h, Nat.lt_of_not_le h]

theorem and_frameMask_eq (a : BitVec 32) : a &&& frameMask = frameAddr (frameOf a) := by
  rw [and_frameMask]
  apply BitVec.eq_of_toNat_eq
  rw [frameAddr_toNat (frameOf_lt a), BitVec.toNat_shiftLeft, BitVec.toNat_ushiftRight,
    Nat.shiftLeft_eq, Nat.shiftRight_eq_div_pow]
  have := a.isLt
  unfold frameOf
  omega

theorem and_offsetMask_toNat (a : BitVec 32) : (a &&& offsetMask).toNat = a.toNat % 4096 := by
  rw [BitVec.toNat_and, show offsetMask.toNat = 2 ^ 12 - 1 from rfl,
    Nat.and_two_pow_sub_one_eq_mod]

theorem shift_slot (v : Addr) : v >>> 22 = BitVec.ofNat 32 (slot v) := by
  apply BitVec.eq_of_toNat_eq
  rw [BitVec.toNat_ushiftRight, Nat.shiftRight_eq_div_pow, BitVec.toNat_ofNat,
    Nat.mod_eq_of_lt (by have := slot_lt v; omega)]
  rfl

theorem shift_index (v : Addr) : (v >>> 12) &&& 0x3FF#32 = BitVec.ofNat 32 (index v) := by
  apply BitVec.eq_of_toNat_eq
  rw [BitVec.toNat_and, BitVec.toNat_ushiftRight, Nat.shiftRight_eq_div_pow,
    BitVec.toNat_ofNat (index v), Nat.mod_eq_of_lt (by have := index_lt v; omega)]
  exact Nat.and_two_pow_sub_one_eq_mod _ 10

theorem frameAddr_add_entry (f j : Nat) : frameAddr f + 4#32 * BitVec.ofNat 32 j = entryAddr f j := by
  unfold frameAddr entryAddr
  apply BitVec.eq_of_toNat_eq
  simp only [BitVec.toNat_add, BitVec.toNat_mul, BitVec.toNat_ofNat]
  omega

/-! ## Entries made of a frame and flags -/

theorem frameMask_idem (p : BitVec 32) : (p &&& frameMask) &&& frameMask = p &&& frameMask := by
  rw [BitVec.and_assoc, BitVec.and_self]

/-- Flags below bit 12 do not disturb the frame. -/
theorem frameOf_or_flags (p x : BitVec 32) (hx : x &&& frameMask = 0#32) :
    frameOf ((p &&& frameMask) ||| x) = frameOf p := by
  have h : ((p &&& frameMask) ||| x) &&& frameMask = p &&& frameMask := by
    rw [BitVec.and_or_distrib_right, frameMask_idem, hx, BitVec.or_zero]
  rw [and_frameMask_eq _, and_frameMask_eq p] at h
  have := congrArg frameOf h
  rw [frameOf_frameAddr (frameOf_lt _), frameOf_frameAddr (frameOf_lt _)] at this
  rw [and_frameMask_eq p]
  exact this

theorem flags_and_frameMask (fl : BitVec 32) :
    ((fl &&& offsetMask) ||| 1#32) &&& frameMask = 0#32 := by
  rw [BitVec.and_or_distrib_right, BitVec.and_assoc,
    show offsetMask &&& frameMask = 0#32 by decide, BitVec.and_zero,
    show 1#32 &&& frameMask = 0#32 by decide, BitVec.or_zero]

theorem present_or_one (x : BitVec 32) : Present (x ||| 1#32) := by
  unfold Present
  rw [BitVec.and_or_distrib_right, BitVec.and_self]
  intro h
  have hbit := congrArg (fun y => BitVec.getLsbD y 0) h
  simp at hbit

theorem not_present_zero : ¬ Present 0#32 := by decide

/-! ## Stores seen through entries -/

theorem entryAddr_aligned {f j : Nat} (hf : f < 2 ^ 20) (hj : j < 1024) :
    (entryAddr f j).toNat % 4 = 0 := by
  rw [entryAddr_toNat hf hj]
  omega

theorem entryAddr_inj {f j f' j' : Nat} (hf : f < 2 ^ 20) (hj : j < 1024) (hf' : f' < 2 ^ 20)
    (hj' : j' < 1024) (h : entryAddr f' j' = entryAddr f j) : f' = f ∧ j' = j := by
  have := congrArg BitVec.toNat h
  rw [entryAddr_toNat hf hj, entryAddr_toNat hf' hj'] at this
  omega

/-- A store into one entry is a function update of the table of entries. -/
theorem entry_setEntry (m : Mem) {f j f' j' : Nat} (x : BitVec 32) (hf : f < 2 ^ 20)
    (hj : j < 1024) (hf' : f' < 2 ^ 20) (hj' : j' < 1024) :
    entry (setEntry m f j x) f' j' = if f' = f ∧ j' = j then x else entry m f' j' := by
  by_cases h : f' = f ∧ j' = j
  · obtain ⟨rfl, rfl⟩ := h
    rw [if_pos ⟨rfl, rfl⟩]
    exact load32_store32 m _ x
  · rw [if_neg h]
    exact load32_store32_ne m x (entryAddr_aligned hf hj) (entryAddr_aligned hf' hj')
      fun heq => h (entryAddr_inj hf hj hf' hj' heq)

theorem inBlock_frame {f : Nat} (hf : f < 2 ^ 20) (q : Addr) :
    InBlock (frameAddr f) 4096 q ↔ frameOf q = f := by
  have h := frameAddr_toNat hf
  unfold InBlock frameOf
  constructor
  · intro hq
    bv_omega
  · intro hq
    bv_omega

theorem zeroFrame_apply (m : Mem) {f : Nat} (hf : f < 2 ^ 20) (q : Addr) :
    zeroFrame m f q = if frameOf q = f then 0#8 else m q := by
  unfold zeroFrame fill
  exact if_congr (inBlock_frame hf q) rfl rfl

theorem fill_frame_ne (m : Mem) {f n : Nat} (hf : f < 2 ^ 20) (hn : n ≤ 4096) (b : BitVec 8)
    {q : Addr} (hq : frameOf q ≠ f) : fill m (frameAddr f) n b q = m q := by
  refine fill_apply_out _ b fun hin => hq ?_
  have ha := frameAddr_toNat hf
  unfold InBlock at hin
  unfold frameOf
  bv_omega

/-- Zeroing a frame clears its row of entries and no other. -/
theorem entry_zeroFrame (m : Mem) {f f' j' : Nat} (hf : f < 2 ^ 20) (hf' : f' < 2 ^ 20)
    (hj' : j' < 1024) :
    entry (zeroFrame m f) f' j' = if f' = f then 0#32 else entry m f' j' := by
  have ha := frameAddr_toNat hf
  have he := entryAddr_toNat hf' hj'
  by_cases h : f' = f
  · subst h
    rw [if_pos rfl]
    refine load32_fill_zero m ?_
    bv_omega
  · rw [if_neg h]
    refine load32_congr fun r hr => fill_apply_out m _ ?_
    unfold InBlock at hr ⊢
    bv_omega

/-- A store into frame `f` leaves the bytes of every other frame. -/
theorem setEntry_apply_ne (m : Mem) {f j : Nat} (x : BitVec 32) (hf : f < 2 ^ 20) (hj : j < 1024)
    {q : Addr} (hq : frameOf q ≠ f) : setEntry m f j x q = m q := by
  have he := entryAddr_toNat hf hj
  refine store32_apply_ne m x fun hb => hq ?_
  unfold InBlock at hb
  unfold frameOf
  bv_omega

/-- An entry is decided by the bytes of its frame. -/
theorem entry_congr {m m' : Mem} {f j : Nat} (h : ∀ q, frameOf q = f → m' q = m q)
    (hf : f < 2 ^ 20) (hj : j < 1024) : entry m' f j = entry m f j := by
  have he := entryAddr_toNat hf hj
  refine load32_congr fun r hr => h r ?_
  unfold InBlock at hr
  unfold frameOf
  bv_omega

/-- Memories that agree outside frame `k` agree on the entries of other frames. -/
theorem entry_agree {m m' : Mem} {k f j : Nat} (h : ∀ q, frameOf q ≠ k → m' q = m q)
    (hf : f < 2 ^ 20) (hj : j < 1024) (hfk : f ≠ k) : entry m' f j = entry m f j :=
  entry_congr (fun q hq => h q (hq ▸ hfk)) hf hj

/-! ## The walk on numbers -/

theorem walk_eq (m : Mem) (cr3 v : Addr) :
    walk m cr3 v =
      if Present (entry m (frameOf cr3) (slot v)) then
        if Present (entry m (frameOf (entry m (frameOf cr3) (slot v))) (index v)) then
          some ((entry m (frameOf (entry m (frameOf cr3) (slot v))) (index v) &&& frameMask)
            + (v &&& offsetMask))
        else none
      else none := by
  simp only [walk, and_frameMask_eq cr3, shift_slot, shift_index, frameAddr_add_entry]
  rw [← entry]
  rw [and_frameMask_eq (entry m (frameOf cr3) (slot v)), frameAddr_add_entry, ← entry]

/-! ## The walk of a page -/

/-- The table the directory in frame `d` names in `v`'s slot. -/
def tableOf (m : Mem) (d : Nat) (v : Addr) : Nat := frameOf (entry m d (slot v))

/-- The frame the page of `v` is mapped to by the directory in frame `d`. -/
def lookup (m : Mem) (d : Nat) (v : Addr) : Option Nat :=
  if Present (entry m d (slot v)) ∧ Present (entry m (tableOf m d v) (index v)) then
    some (frameOf (entry m (tableOf m d v) (index v)))
  else none

theorem tableOf_lt (m : Mem) (d : Nat) (v : Addr) : tableOf m d v < 2 ^ 20 := frameOf_lt _

theorem walk_lookup (m : Mem) (cr3 v : Addr) :
    walk m cr3 v = (lookup m (frameOf cr3) v).map fun f => frameAddr f + (v &&& offsetMask) := by
  rw [walk_eq, lookup, tableOf]
  by_cases hd : Present (entry m (frameOf cr3) (slot v))
  · by_cases ht : Present (entry m (frameOf (entry m (frameOf cr3) (slot v))) (index v))
    · rw [if_pos hd, if_pos ht, if_pos ⟨hd, ht⟩, Option.map_some, and_frameMask_eq]
    · rw [if_pos hd, if_neg ht, if_neg fun h => ht h.2, Option.map_none]
  · rw [if_neg hd, if_neg fun h => hd h.1, Option.map_none]

theorem lookup_of_absent {m : Mem} {d : Nat} {v : Addr} (h : ¬ Present (entry m d (slot v))) :
    lookup m d v = none := if_neg fun hp => h hp.1

/-- Through a slot that refers to the directory itself, the directory is walked
as a table of tables. -/
theorem lookup_recursive {m : Mem} {d : Nat} {v : Addr} (hp : Present (entry m d (slot v)))
    (hself : tableOf m d v = d) : lookup m d v =
      if Present (entry m d (index v)) then some (frameOf (entry m d (index v))) else none := by
  rw [lookup, hself]
  exact if_congr (and_iff_right hp) rfl rfl

/-- The translation of a page depends on its directory entry and, where that is
present, on its table entry. -/
theorem lookup_congr {m m' : Mem} {d : Nat} {v : Addr}
    (hd : entry m' d (slot v) = entry m d (slot v))
    (ht : Present (entry m d (slot v)) →
      entry m' (tableOf m d v) (index v) = entry m (tableOf m d v) (index v)) :
    lookup m' d v = lookup m d v := by
  have htab : tableOf m' d v = tableOf m d v := congrArg frameOf hd
  by_cases hp : Present (entry m d (slot v))
  · rw [lookup, lookup, htab, hd, ht hp]
  · rw [lookup_of_absent hp, lookup_of_absent (by rwa [hd])]

/-- A store into the table of `v` decides `v`'s page. -/
theorem lookup_setEntry {m : Mem} {d : Nat} {v : Addr} (x : BitVec 32) (hd : d < 2 ^ 20)
    (hp : Present (entry m d (slot v))) (htd : tableOf m d v ≠ d) :
    lookup (setEntry m (tableOf m d v) (index v) x) d v
      = if Present x then some (frameOf x) else none := by
  have hdir : entry (setEntry m (tableOf m d v) (index v) x) d (slot v) = entry m d (slot v) := by
    rw [entry_setEntry m x (tableOf_lt m d v) (index_lt v) hd (slot_lt v), if_neg]
    exact fun h => htd h.1.symm
  have htab : tableOf (setEntry m (tableOf m d v) (index v) x) d v = tableOf m d v :=
    congrArg frameOf hdir
  have hent : entry (setEntry m (tableOf m d v) (index v) x) (tableOf m d v) (index v) = x := by
    rw [entry_setEntry m x (tableOf_lt m d v) (index_lt v) (tableOf_lt m d v) (index_lt v)]
    exact if_pos ⟨rfl, rfl⟩
  rw [lookup, htab, hdir, hent]
  simp only [hp, true_and]

/-- ... and no page of another table or of another index. -/
theorem lookup_setEntry_ne {m : Mem} {d t j : Nat} {v : Addr} (x : BitVec 32) (hd : d < 2 ^ 20)
    (ht : t < 2 ^ 20) (hj : j < 1024) (htd : t ≠ d)
    (hne : Present (entry m d (slot v)) → tableOf m d v = t → index v ≠ j) :
    lookup (setEntry m t j x) d v = lookup m d v := by
  refine lookup_congr ?_ ?_
  · rw [entry_setEntry m x ht hj hd (slot_lt v), if_neg]
    exact fun h => htd h.1.symm
  · intro hp
    rw [entry_setEntry m x ht hj (tableOf_lt m d v) (index_lt v), if_neg]
    exact fun h => hne hp h.1 h.2

/-- Zeroing a frame that is neither the directory nor the page's table. -/
theorem lookup_zeroFrame {m : Mem} {d f : Nat} {v : Addr} (hd : d < 2 ^ 20) (hf : f < 2 ^ 20)
    (hfd : f ≠ d) (hft : Present (entry m d (slot v)) → tableOf m d v ≠ f) :
    lookup (zeroFrame m f) d v = lookup m d v := by
  refine lookup_congr ?_ ?_
  · rw [entry_zeroFrame m hf hd (slot_lt v), if_neg (Ne.symm hfd)]
  · intro hp
    rw [entry_zeroFrame m hf (tableOf_lt m d v) (index_lt v), if_neg (hft hp)]

/-- The page number decides the slot and the index. -/
theorem slot_index_of_frameOf {v w : Addr} (h : frameOf v = frameOf w) :
    slot v = slot w ∧ index v = index w := by
  have hv := frameOf_eq v
  have hw := frameOf_eq w
  have := index_lt v
  have := index_lt w
  omega

theorem lookup_of_frameOf {v w : Addr} (m : Mem) (d : Nat) (h : frameOf v = frameOf w) :
    lookup m d v = lookup m d w := by
  obtain ⟨hs, hi⟩ := slot_index_of_frameOf h
  rw [lookup, lookup, tableOf, tableOf, hs, hi]

end X86Paging
