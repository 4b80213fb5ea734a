/-
# `RedOS.Paging.Frames` — the frame bitmap of `paging.c`

One bit per 4 KiB frame of the 64 MB the kernel manages, 32 to a word.  The
functions below are the C functions with the bitmap passed in and out; the
`debug_*` messages they print are left out.  Each is then identified with the
operation of `PackedSet` it performs, and from there on a bitmap is read as the
set of marked frames:

    setFrame_eq, clearFrame_eq     insert and erase
    allocFrame_eq                  least unmarked frame, or 0 and no change
    first_fit                      the same bit by bit, and `free_frame` undoes it
    usedFrames_eq                  the count `print_paging_info` shows
    mem_marked_initFrames          what `init_paging` marks
-/
import RedOS.Lib.PackedSet
import RedOS.Lib.X86Paging
import RedOS.Boot.Layout

namespace RedOS

open ByteMemory X86Paging

/-- `TOTAL_FRAMES` -/
def totalFrames : Nat := 16384

/-- `frame_bitmap`, `BITMAP_SIZE` words. -/
abbrev Bitmap := Vector (BitVec 32) 512

/-- `set_frame` -/
def setFrame (b : Bitmap) (addr : Addr) : Bitmap :=
  let frame := addr / 4096#32
  let idx := frame / 32#32
  let off := frame % 32#32
  if h : idx.toNat < 512 then b.set idx.toNat (b[idx.toNat] ||| (1#32 <<< off)) h else b

/-- `clear_frame` -/
def clearFrame (b : Bitmap) (addr : Addr) : Bitmap :=
  let frame := addr / 4096#32
  let idx := frame / 32#32
  let off := frame % 32#32
  if h : idx.toNat < 512 then b.set idx.toNat (b[idx.toNat] &&& ~~~(1#32 <<< off)) h else b

/-- `first_free_frame` -/
def firstFreeFrame (b : Bitmap) : BitVec 32 :=
  ((List.finRange 512).findSome? fun i =>
    if b[i] ≠ 0xFFFFFFFF#32 then
      (List.range 32).findSome? fun j =>
        let bit := 1#32 <<< j
        if b[i] &&& bit = 0#32 then some (BitVec.ofNat 32 (i.val * 32 + j)) else none
    else none).getD 0xFFFFFFFF#32

/-- `alloc_frame`: the address, 0 on failure, and the bitmap afterwards. -/
def allocFrame (b : Bitmap) : Addr × Bitmap :=
  let frame := firstFreeFrame b
  if frame = 0xFFFFFFFF#32 then (0#32, b)
  else
    let addr := frame * 4096#32
    (addr, setFrame b addr)

/-- `free_frame` -/
def freeFrame (b : Bitmap) (addr : Addr) : Bitmap := clearFrame b addr

/-- The counting loops of `print_paging_info`. -/
def usedFrames (b : Bitmap) : Nat :=
  (List.finRange 512).foldl (fun used i =>
    (List.range 32).foldl (fun used j =>
      if b[i] &&& (1#32 <<< j) ≠ 0#32 then used + 1 else used) used) 0

/-- `for (addr = start; addr < stop; addr += PAGE_SIZE) set_frame(addr)` -/
def setFrames (b : Bitmap) (start stop : Nat) : Bitmap :=
  (List.range ((stop - start + 4095) / 4096)).foldl
    (fun b i => setFrame b (BitVec.ofNat 32 (start + 4096 * i))) b

/-- The bitmap part of `init_paging`. -/
def initFrames (L : Layout) : Bitmap :=
  -- Clear the frame bitmap
  let b := Vector.replicate 512 0#32
  -- Mark the first 1MB as used (reserved for BIOS, etc.)
  let b := setFrames b 0 0x100000
  -- Mark kernel physical memory as used
  setFrames b Layout.kernelPhysicalStart L.kernelPhysicalEnd

/-! ## The functions as set operations -/

/-- The quotients and the remainder the C code computes. -/
theorem frame_index (addr : Addr) :
    (addr / 4096#32 / 32#32).toNat = frameOf addr / 32 ∧
      (addr / 4096#32 % 32#32).toNat = frameOf addr % 32 := by
  unfold frameOf
  simp [BitVec.toNat_udiv, BitVec.toNat_umod]

theorem setFrame_eq (b : Bitmap) (addr : Addr) :
    setFrame b addr = PackedSet.insert b (frameOf addr) := by
  obtain ⟨hidx, hoff⟩ := frame_index addr
  unfold setFrame PackedSet.insert
  simp only [BitVec.shiftLeft_eq', hidx, hoff]

theorem clearFrame_eq (b : Bitmap) (addr : Addr) :
    clearFrame b addr = PackedSet.erase b (frameOf addr) := by
  obtain ⟨hidx, hoff⟩ := frame_index addr
  unfold clearFrame PackedSet.erase
  simp only [BitVec.shiftLeft_eq', hidx, hoff]

theorem firstFreeFrame_eq (b : Bitmap) :
    firstFreeFrame b = ((PackedSet.firstClear b).map (BitVec.ofNat 32)).getD 0xFFFFFFFF#32 := by
  unfold firstFreeFrame PackedSet.firstClear PackedSet.firstClearBit
  rw [List.map_findSome?]
  congr 2
  funext i
  have hall : BitVec.allOnes 32 = 0xFFFFFFFF#32 := by decide
  by_cases h : b[i.val] = 0xFFFFFFFF#32
  · simp [h, hall]
  · simp only [Fin.getElem_fin, ne_eq, h, not_false_eq_true, if_true, Function.comp, hall,
      if_false, List.map_findSome?]
    congr 1
    funext j
    simp only [Function.comp]
    split <;> rfl

theorem lt_addresses {k : Nat} (hk : k < totalFrames) : k < 2 ^ 20 := by
  unfold totalFrames at hk
  omega

/-- The search found frame `k`: its address, and the bitmap with its bit set. -/
theorem allocFrame_some {b : Bitmap} {k : Nat} (h : PackedSet.firstClear b = some k) :
    allocFrame b = (frameAddr k, setFrame b (frameAddr k)) := by
  have hk : k < totalFrames := (PackedSet.firstClear_eq_some.mp h).1
  have hk20 := lt_addresses hk
  have hf : firstFreeFrame b = BitVec.ofNat 32 k := by
    rw [firstFreeFrame_eq, h]
    rfl
  have hne : firstFreeFrame b ≠ 0xFFFFFFFF#32 := by
    rw [hf]
    bv_omega
  have haddr : firstFreeFrame b * 4096#32 = frameAddr k := by
    rw [hf, frameAddr]
    bv_omega
  unfold allocFrame
  dsimp only
  rw [if_neg hne, haddr]

/-- The search found none. -/
theorem allocFrame_none {b : Bitmap} (h : PackedSet.firstClear b = none) :
    allocFrame b = (0#32, b) := by
  have hf : firstFreeFrame b = 0xFFFFFFFF#32 := by
    rw [firstFreeFrame_eq, h]
    rfl
  unfold allocFrame
  dsimp only
  rw [if_pos hf]

theorem usedFrames_count (b : Bitmap) : usedFrames b = PackedSet.count b := by
  unfold usedFrames PackedSet.count
  simp only [ne_eq, ite_not]

/-! ## The marked frames -/

/-- The frames whose bit is set. -/
def marked (b : Bitmap) : Finset Nat :=
  (Finset.range totalFrames).filter fun f => PackedSet.test b f = true

theorem mem_marked {b : Bitmap} {f : Nat} : f ∈ marked b ↔ PackedSet.test b f = true := by
  simp only [marked, Finset.mem_filter, Finset.mem_range, and_iff_right_iff_imp]
  exact PackedSet.lt_of_test

theorem lt_of_mem_marked {b : Bitmap} {f : Nat} (h : f ∈ marked b) : f < totalFrames :=
  PackedSet.lt_of_test (mem_marked.mp h)

/-- `set_frame` on a frame of the bitmap marks it; on any other it does nothing. -/
theorem marked_setFrame (b : Bitmap) (addr : Addr) :
    marked (setFrame b addr) =
      if frameOf addr < totalFrames then insert (frameOf addr) (marked b) else marked b := by
  rw [setFrame_eq]
  split
  next h =>
    ext f
    rw [mem_marked, PackedSet.test_insert h, Finset.mem_insert, mem_marked]
    simp only [Bool.or_eq_true, decide_eq_true_eq]
    exact or_comm
  next h =>
    have : ¬ frameOf addr / 32 < 512 := by
      unfold totalFrames at h
      omega
    rw [PackedSet.insert, dif_neg this]

theorem marked_clearFrame (b : Bitmap) (addr : Addr) :
    marked (clearFrame b addr) = (marked b).erase (frameOf addr) := by
  ext f
  rw [clearFrame_eq, mem_marked, PackedSet.test_erase, Finset.mem_erase, mem_marked]
  simp only [Bool.and_eq_true, Bool.not_eq_true', decide_eq_false_iff_not]
  exact and_comm

/-- **`alloc_frame`**: the least unmarked frame, or nothing at all. -/
theorem allocFrame_eq (b : Bitmap) :
    (∃ k, k < totalFrames ∧ k ∉ marked b ∧ (∀ j, j < k → j ∈ marked b) ∧
      (allocFrame b).1 = frameAddr k ∧ marked (allocFrame b).2 = insert k (marked b)) ∨
    ((∀ k, k < totalFrames → k ∈ marked b) ∧ allocFrame b = (0#32, b)) := by
  cases h : PackedSet.firstClear b with
  | none =>
      right
      exact ⟨fun k hk => mem_marked.mpr (PackedSet.firstClear_eq_none.mp h k hk), allocFrame_none h⟩
  | some k =>
      left
      obtain ⟨hk, hclear, hmin⟩ := PackedSet.firstClear_eq_some.mp h
      have hafter : marked (setFrame b (frameAddr k)) = insert k (marked b) := by
        rw [marked_setFrame, frameOf_frameAddr (lt_addresses hk)]
        exact if_pos hk
      rw [allocFrame_some h]
      refine ⟨k, hk, ?_, fun j hj => mem_marked.mpr (hmin j hj), rfl, hafter⟩
      intro hm
      rw [mem_marked, hclear] at hm
      cases hm

/-- `k` is the lowest unmarked frame. -/
def LeastFree (b : Bitmap) (k : Nat) : Prop :=
  k < totalFrames ∧ k ∉ marked b ∧ ∀ j, j < k → j ∈ marked b

/-- `k` is the frame `alloc_frame` hands out next. -/
structure Fresh (b : Bitmap) (k : Nat) : Prop where
  pos : 0 < k
  lt : k < totalFrames
  unmarked : k ∉ marked b
  least : ∀ j, j < k → j ∈ marked b
  addr : (allocFrame b).1 = frameAddr k
  after : marked (allocFrame b).2 = insert k (marked b)

/-- No frame is left: `alloc_frame` returns 0 and changes nothing. -/
structure Full (b : Bitmap) : Prop where
  all : ∀ k, k < totalFrames → k ∈ marked b
  alloc : allocFrame b = (0#32, b)

/-- With frame 0 marked, the result 0 of `alloc_frame` can only mean failure. -/
theorem fresh_or_full {b : Bitmap} (h0 : 0 ∈ marked b) : (∃ k, Fresh b k) ∨ Full b := by
  rcases allocFrame_eq b with ⟨k, hk, hnot, hmin, haddr, hafter⟩ | ⟨hall, halloc⟩
  · have hpos : 0 < k := by
      rcases Nat.eq_zero_or_pos k with rfl | hpos
      · exact absurd h0 hnot
      · exact hpos
    exact Or.inl ⟨k, hpos, hk, hnot, hmin, haddr, hafter⟩
  · exact Or.inr ⟨hall, halloc⟩

theorem Fresh.leastFree {b : Bitmap} {k : Nat} (h : Fresh b k) : LeastFree b k :=
  ⟨h.lt, h.unmarked, h.least⟩

/-- Where the marked frames are those below `n`, frame `n` is next. -/
theorem leastFree_of_below {b : Bitmap} {n : Nat} (hn : n < totalFrames)
    (hmarked : ∀ f, f ∈ marked b ↔ f < n) : LeastFree b n :=
  ⟨hn, fun hmem => Nat.lt_irrefl n ((hmarked n).mp hmem), fun j hj => (hmarked j).mpr hj⟩

theorem LeastFree.eq {b : Bitmap} {j k : Nat} (hj : LeastFree b j) (hk : LeastFree b k) : j = k := by
  rcases Nat.lt_trichotomy j k with hlt | heq | hlt
  · exact absurd (hk.2.2 j hlt) hj.2.1
  · exact heq
  · exact absurd (hj.2.2 k hlt) hk.2.1

theorem fresh_of_leastFree {b : Bitmap} {k : Nat} (h0 : 0 ∈ marked b) (h : LeastFree b k) :
    Fresh b k := by
  rcases fresh_or_full h0 with ⟨k', hk'⟩ | hfull
  · exact h.eq hk'.leastFree ▸ hk'
  · exact absurd (hfull.all k h.1) h.2.1

theorem Fresh.lt_addresses {b : Bitmap} {k : Nat} (h : Fresh b k) : k < 2 ^ 20 :=
  RedOS.lt_addresses h.lt

theorem Fresh.addr_ne_zero {b : Bitmap} {k : Nat} (h : Fresh b k) : frameAddr k ≠ 0#32 := by
  have hk := frameAddr_toNat h.lt_addresses
  have := h.pos
  intro h0
  rw [h0] at hk
  simp only [BitVec.toNat_ofNat, Nat.zero_mod] at hk
  omega

/-- **The number `print_paging_info` shows is the number of marked frames.** -/
theorem usedFrames_eq (b : Bitmap) : usedFrames b = (marked b).card := by
  rw [usedFrames_count, PackedSet.count_eq_card]
  rfl

/-! ## First fit -/

theorem test_freeFrame (b : Bitmap) (addr : Addr) (j : Nat) :
    PackedSet.test (freeFrame b addr) j = (PackedSet.test b j && !decide (j = frameOf addr)) := by
  rw [freeFrame, clearFrame_eq, PackedSet.test_erase]

/-- **First fit, over any bitmap** in which frame 0 is marked: `alloc_frame`
hands out the least frame whose bit is clear and sets that bit only, or fails and
changes nothing; `free_frame` clears one bit, so that it undoes the allocation. -/
theorem first_fit {b : Bitmap} (h0 : PackedSet.test b 0 = true) :
    (∀ k < totalFrames, PackedSet.test b k = false → (∀ j < k, PackedSet.test b j = true) →
      (allocFrame b).1.toNat = 4096 * k ∧
      (∀ j, PackedSet.test (allocFrame b).2 j = (PackedSet.test b j || decide (j = k))) ∧
      freeFrame (allocFrame b).2 (allocFrame b).1 = b) ∧
    ((allocFrame b).1 = 0#32 ↔ ∀ k < totalFrames, PackedSet.test b k = true) ∧
    ((allocFrame b).1 = 0#32 → (allocFrame b).2 = b) ∧
    ∀ (c : Bitmap) (addr : Addr), addr.toNat < 4096 * totalFrames → ∀ j,
      PackedSet.test (freeFrame c addr) j = (PackedSet.test c j && !decide (j = addr.toNat / 4096)) := by
  have hfull : (allocFrame b).1 = 0#32 → PackedSet.firstClear b = none := by
    intro hzero
    cases h : PackedSet.firstClear b with
    | none => rfl
    | some k =>
        obtain ⟨hk, hclear, -⟩ := PackedSet.firstClear_eq_some.mp h
        rw [allocFrame_some h] at hzero
        dsimp only at hzero
        -- frame 0 is the only one whose address is 0
        have hk0 : k = 0 := by
          have haddr := frameAddr_toNat (lt_addresses hk)
          rw [hzero] at haddr
          bv_omega
        rw [hk0, h0] at hclear
        cases hclear
  refine ⟨?_, ?_, ?_, fun c addr _ j => test_freeFrame c addr j⟩
  · intro k hk hclear hmin
    have h : PackedSet.firstClear b = some k := PackedSet.firstClear_eq_some.mpr ⟨hk, hclear, hmin⟩
    have hframe := frameOf_frameAddr (lt_addresses hk)
    rw [allocFrame_some h, setFrame_eq, hframe]
    refine ⟨frameAddr_toNat (lt_addresses hk), PackedSet.test_insert hk, ?_⟩
    rw [freeFrame, clearFrame_eq, hframe]
    exact PackedSet.erase_insert hk hclear
  · constructor
    · intro hzero
      exact PackedSet.firstClear_eq_none.mp (hfull hzero)
    · intro hall
      rw [allocFrame_none (PackedSet.firstClear_eq_none.mpr hall)]
  · intro hzero
    rw [allocFrame_none (hfull hzero)]

/-- One word with a bit clear, the highest. -/
theorem first_fit_small :
    let b : Bitmap := (Vector.replicate 512 0#32).set 0 0x7FFFFFFF#32
    (allocFrame b).1.toNat = 4096 * 31 ∧ freeFrame (allocFrame b).2 (allocFrame b).1 = b := by
  intro b
  obtain ⟨haddr, -, hfree⟩ := (@first_fit b (by decide +kernel)).1 31 (by decide) (by decide +kernel)
    (by decide +kernel)
  exact ⟨haddr, hfree⟩

/-! ## What `init_paging` marks -/

theorem marked_setFrames (b : Bitmap) {start stop : Nat} (hstart : start % 4096 = 0)
    (hle : start ≤ stop) (hstop : stop ≤ 2 ^ 32) (f : Nat) :
    f ∈ marked (setFrames b start stop) ↔
      f ∈ marked b ∨ (f < totalFrames ∧ start ≤ 4096 * f ∧ 4096 * f < stop) := by
  have hloop : ∀ n : Nat, start + 4096 * n ≤ 2 ^ 32 →
      (f ∈ marked ((List.range n).foldl
          (fun b i => setFrame b (BitVec.ofNat 32 (start + 4096 * i))) b) ↔
        f ∈ marked b ∨ (f < totalFrames ∧ start ≤ 4096 * f ∧ 4096 * f < start + 4096 * n)) := by
    intro n
    induction n with
    | zero =>
        intro _
        simp only [List.range_zero, List.foldl_nil]
        constructor
        · exact Or.inl
        · rintro (h | h)
          · exact h
          · omega
    | succ n ih =>
        intro hn
        have hframe : frameOf (BitVec.ofNat 32 (start + 4096 * n)) = start / 4096 + n := by
          unfold frameOf
          rw [BitVec.toNat_ofNat, Nat.mod_eq_of_lt (by omega)]
          omega
        rw [List.range_succ, List.foldl_append]
        simp only [List.foldl_cons, List.foldl_nil]
        rw [marked_setFrame, hframe]
        split
        · rw [Finset.mem_insert, ih (by omega)]
          constructor
          · rintro (rfl | h | h)
            · exact Or.inr (by omega)
            · exact Or.inl h
            · exact Or.inr (by omega)
          · rintro (h | h)
            · exact Or.inr (Or.inl h)
            · by_cases hf : f = start / 4096 + n
              · exact Or.inl hf
              · exact Or.inr (Or.inr (by omega))
        · rw [ih (by omega)]
          constructor
          · rintro (h | h)
            · exact Or.inl h
            · exact Or.inr (by omega)
          · rintro (h | h)
            · exact Or.inl h
            · exact Or.inr (by omega)
  unfold setFrames
  rw [hloop _ (by omega)]
  refine or_congr_right ?_
  omega

/-- The frames the allocator never hands out: all below 1 MB and every frame
that overlaps the kernel image. -/
def Reserved (L : Layout) (f : Nat) : Prop :=
  4096 * f < 0x100000 ∨ (0x100000 ≤ 4096 * f ∧ 4096 * f < L.kernelPhysicalEnd)

instance (L : Layout) (f : Nat) : Decidable (Reserved L f) :=
  inferInstanceAs (Decidable (_ ∨ _))

/-- The reserved frames the bitmap covers. -/
def reserved (L : Layout) : Finset Nat := (Finset.range totalFrames).filter (Reserved L)

theorem mem_reserved {L : Layout} {f : Nat} :
    f ∈ reserved L ↔ f < totalFrames ∧ Reserved L f := by
  simp [reserved]

theorem marked_replicate_zero : marked (Vector.replicate 512 0#32) = ∅ := by
  ext f
  rw [mem_marked, PackedSet.test_replicate_zero]
  simp

/-- **`init_paging` marks the reserved frames and no other.** -/
theorem marked_initFrames (L : Layout) : marked (initFrames L) = reserved L := by
  have h1 := L.bootStack_le_kernelPhysicalEnd
  have h2 := L.start_le_bootPageDirectory
  have h3 := L.kernelPhysicalEnd_le
  have h4 : 0x100000 ≤ L.kernelPhysicalEnd := by
    unfold Layout.bootStack Layout.bootPageTable1 at h1
    omega
  ext f
  simp only [initFrames, Layout.kernelPhysicalStart]
  rw [marked_setFrames _ (by decide) h4 (by omega),
    marked_setFrames _ (by decide) (by decide) (by decide), marked_replicate_zero, mem_reserved]
  unfold Reserved
  simp only [Finset.notMem_empty, false_or]
  constructor
  · rintro (h | h) <;> omega
  · rintro ⟨hf, h | h⟩ <;> omega

end RedOS
