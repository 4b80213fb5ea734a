/-
# `RedOS.Paging.Reach` — which allocated frames the kernel can reach

The bitmap hands out frames up to 64 MB, the boot tables map the first 4 MB.
A run is `Fitting` when each operation that allocates finds the lowest unmarked
frame below 4 MB, or mapped by the caller at its `P2V` address beforehand, and
likewise for the page table an operation goes through.  Then nothing faults and
every frame handed out is cleared through its window; and at each state of such
a run the condition on the allocation is exact:

    AllocFits L s op  ↔  AllocReached L s op

Without it the 758th page of a small kernel is the first one out of reach
(`page_out_of_reach`).
-/
import RedOS.Paging.LowerHalf

namespace RedOS

open ByteMemory X86Paging Runs

/-- The 4096 addresses from `P2V` of the frame `alloc_frame` returns to `op`
reach its bytes. -/
def AllocReached (L : Layout) (s : Sys) (op : Op) : Prop :=
  Allocates L s op → (allocFrame s.machine.frameBitmap).1 ≠ 0#32 →
    ∀ i, i < 4096 →
      walk s.machine.mem s.machine.cr3
          (p2v (allocFrame s.machine.frameBitmap).1 + BitVec.ofNat 32 i)
        = some ((allocFrame s.machine.frameBitmap).1 + BitVec.ofNat 32 i)

/-- An operation whose frames are all in reach. -/
def Fits (L : Layout) (s : Sys) (op : Op) : Prop :=
  op.At User ∧ AllocFits L s op ∧ TableFits L s op

/-- What a run of fitting operations keeps. -/
structure FitInv (L : Layout) (s : Sys) : Prop where
  inv : Inv L s
  direct : DirectMap L s.machine.mem
  fault : s.fault = none

section Reach

variable {L : Layout} {m : Mem} {s s' : Sys} {ops : List Op}

theorem fitInv_start (hm : BootTables L m) : FitInv L (start mmu L m) := by
  have hr : Reaches mmu m (frameAddr L.directoryFrame) L.directoryFrame :=
    hm.directMap.reaches_directory
  refine ⟨inv_start hm hr, ?_, ?_⟩
  · rw [start_eq hr]
    exact directMap_init hm
  · rw [start_eq hr]

theorem FitInv.step (h : FitInv L s) {op : Op} (hfits : Fits L s op)
    (hexec : exec mmu s op = some s') : FitInv L s' := by
  obtain ⟨hop, halloc, htable⟩ := hfits
  have hbelow := hop.mono fun _ => User.below
  have hstep := h.inv.exec_mmu_step h.direct h.fault hbelow halloc htable hexec
  exact ⟨h.inv.step hbelow hstep, h.inv.directMap_step h.direct hop hstep,
    hstep.books.1.trans h.fault⟩

theorem fitInv_run (hm : BootTables L m) (hfits : Along (exec mmu) (Fits L) (start mmu L m) ops)
    (hrun : run (exec mmu) (start mmu L m) ops = some s) : FitInv L s :=
  run_invariant (fun _ _ _ hs hf hexec => hs.step hf hexec) (fitInv_start hm) hfits hrun

/-- The condition is exact: the frame is windowed just where it is reached. -/
theorem FitInv.allocFits_iff (h : FitInv L s) (op : Op) :
    AllocFits L s op ↔ AllocReached L s op := by
  have h0 := h.inv.founded.zero
  unfold AllocFits AllocReached
  refine imp_congr_right ?_
  intro _
  rcases fresh_or_full h0 with ⟨k, hk⟩ | hfull
  · rw [hk.addr]
    have hiff := h.inv.reaches_iff h.direct hk.lt
    constructor
    · exact fun hfits _ => hiff.mpr (hfits k hk.leastFree)
    · intro hreach k' hk'
      rw [frameAddr_inj (fresh_of_leastFree h0 hk').lt_addresses hk.lt_addresses
        ((fresh_of_leastFree h0 hk').addr.symm.trans hk.addr)]
      exact hiff.mp (hreach hk.addr_ne_zero)
  · rw [hfull.alloc]
    exact iff_of_true (fun k hk => absurd (hfull.all k hk.1) hk.2.1) fun hne => absurd rfl hne

/-- A page handed out in reach is all zero, and nothing else has changed. -/
theorem FitInv.kmalloc (h : FitInv L s) {k : Nat} (hk : LeastFree s.machine.frameBitmap k)
    (hw : Windowed s k) :
    ∃ m', kmallocPhysicalPage mmu s.machine = .ok (frameAddr k) m' ∧
      ∀ q, m'.mem q = if frameOf q = k then 0#8 else s.machine.mem q := by
  have hfresh := fresh_of_leastFree h.inv.founded.zero hk
  exact ⟨_, kmallocPhysicalPage_fresh hfresh.lt_addresses hfresh.addr_ne_zero hfresh.addr
    (h.inv.reachesStably h.direct hfresh hw), zeroFrame_apply _ hfresh.lt_addresses⟩

/-- A table created in reach is cleared, then hung into its slot. -/
theorem FitInv.newTable (h : FitInv L s) {v : Addr} {k : Nat}
    (hp : ¬ Present (entry s.machine.mem L.directoryFrame (slot v)))
    (hk : LeastFree s.machine.frameBitmap k) (hw : Windowed s k) :
    ∃ m', getPageTable mmu v true s.machine = .ok (p2v (frameAddr k)) m' ∧
      m'.mem = setEntry (zeroFrame s.machine.mem k) L.directoryFrame (slot v) (bootEntry k) := by
  have hfresh := fresh_of_leastFree h.inv.founded.zero hk
  obtain ⟨hkd, hkb, -⟩ := h.inv.fresh_apart hfresh
  have hdir : ∀ m', DirectMap L m' → Reaches mmu m' s.machine.cr3 L.directoryFrame := by
    rw [h.inv.cr3]
    exact fun m' hd => hd.reaches_directory
  exact ⟨_, getPageTable_fresh h.inv.dir (hdir _ h.direct) hp hfresh.lt_addresses
    hfresh.addr_ne_zero hfresh.addr (h.inv.reachesStably h.direct hfresh hw)
    (hdir _ (h.direct.zeroFrame hfresh.lt_addresses hkd hkb)), rfl⟩

/-- **Reach.**  Along a run whose operations all fit, nothing faults; in each of
its states a frame is handed out in reach if and only if the operation's
allocation fits, and is then cleared, and it alone. -/
theorem alloc_reached_iff (hm : BootTables L m)
    (hfits : Along (exec mmu) (Fits L) (start mmu L m) ops)
    (hrun : run (exec mmu) (start mmu L m) ops = some s) :
    s.fault = none ∧
      (∀ op, AllocFits L s op ↔ AllocReached L s op) ∧
      (∀ k, LeastFree s.machine.frameBitmap k → Windowed s k →
        ∃ m', kmallocPhysicalPage mmu s.machine = .ok (frameAddr k) m' ∧
          ∀ q, m'.mem q = if frameOf q = k then 0#8 else s.machine.mem q) ∧
      (∀ v k, ¬ Present (entry s.machine.mem L.directoryFrame (slot v)) →
        LeastFree s.machine.frameBitmap k → Windowed s k →
        ∃ m', getPageTable mmu v true s.machine = .ok (p2v (frameAddr k)) m' ∧
          m'.mem = setEntry (zeroFrame s.machine.mem k) L.directoryFrame (slot v)
            (bootEntry k)) := by
  have h := fitInv_run hm hfits hrun
  exact ⟨h.fault, h.allocFits_iff, fun _ hk hw => h.kmalloc hk hw,
    fun _ _ hp hk hw => h.newTable hp hk hw⟩

/-! ## Running out of the direct map -/

/-- `n` allocations from a start that reserved the frames below `e`: they take
the next `n` frames, as long as those are in the direct map. -/
theorem kmalloc_run (hm : BootTables L m) {e : Nat} (he : ∀ f, f ∈ reserved L ↔ f < e) :
    ∀ n, e + n ≤ 1024 →
      Along (exec mmu) (Fits L) (start mmu L m) (List.replicate n .kmalloc) ∧
      ∃ s, run (exec mmu) (start mmu L m) (List.replicate n .kmalloc) = some s ∧ FitInv L s ∧
        s.tables = ∅ ∧ s.mapping = (fun _ => none) ∧
        ∀ f, f ∈ marked s.machine.frameBitmap ↔ f < e + n := by
  intro n
  induction n with
  | zero =>
      intro _
      have hr : Reaches mmu m (frameAddr L.directoryFrame) L.directoryFrame :=
        hm.directMap.reaches_directory
      refine ⟨trivial, _, rfl, fitInv_start hm, ?_, ?_, ?_⟩
      · rw [start_eq hr]
      · rw [start_eq hr]
      · intro f
        rw [start_eq hr, initMachine, marked_initFrames]
        exact he f
  | succ n ih =>
      intro hn
      obtain ⟨halong, s, hrun, hinv, htables, hmap, hmarked⟩ := ih (by omega)
      have hnext : LeastFree s.machine.frameBitmap (e + n) :=
        leastFree_of_below (by unfold totalFrames; omega) hmarked
      have halloc : AllocFits L s .kmalloc := fun _ k hk => Or.inl (by rw [hk.eq hnext]; omega)
      have hallow : s.Allows .kmalloc := trivial
      obtain ⟨s', hs'⟩ := exec_some mmu hallow
      have hfits : Fits L s .kmalloc := ⟨trivial, halloc, trivial⟩
      have hstep := hinv.inv.exec_mmu_step hinv.direct hinv.fault (hfits.1.mono fun _ => User.below)
        halloc hfits.2.2 hs'
      rw [List.replicate_succ']
      refine ⟨along_snoc halong hrun hfits, s', ?_, hinv.step hfits hs', ?_⟩
      · rw [run_append, hrun]
        show run (exec mmu) s [.kmalloc] = some s'
        rw [run_cons, hs']
        rfl
      · cases hstep with
        | kmallocFull hfull => exact absurd (hfull.all (e + n) hnext.1) hnext.2.1
        | kmallocFresh hk =>
            refine ⟨htables, hmap, ?_⟩
            intro f
            simp only [Machine.take_frameBitmap]
            rw [hk.after, Finset.mem_insert, hk.leastFree.eq hnext, hmarked]
            omega

/-- The first page of an empty slot, with the next frame for its table. -/
theorem FitInv.map_fresh (h : FitInv L s) {n : Nat} (hn : n < 1024)
    (hmarked : ∀ f, f ∈ marked s.machine.frameBitmap ↔ f < n) {v : Addr} (p fl : BitVec 32)
    (hv : User v) (hp : ¬ Present (entry s.machine.mem L.directoryFrame (slot v))) :
    Fits L s (.map v p fl) ∧ ∃ s', exec mmu s (.map v p fl) = some s' ∧ FitInv L s' ∧
      (∀ f, f ∈ marked s'.machine.frameBitmap ↔ f < n + 1) ∧
      s'.mapping = Function.update s.mapping (frameOf v) (some p) ∧
      ∀ i, i < 1024 → entry s'.machine.mem L.directoryFrame i
        = if i = slot v then bootEntry n else entry s.machine.mem L.directoryFrame i := by
  have hleast : LeastFree s.machine.frameBitmap n :=
    leastFree_of_below (by unfold totalFrames; omega) hmarked
  have hfits : Fits L s (.map v p fl) :=
    ⟨hv, fun _ k hk => Or.inl (hk.eq hleast ▸ hn), fun hpres => absurd hpres hp⟩
  have hallow : s.Allows (.map v p fl) := trivial
  obtain ⟨s', hs'⟩ := exec_some mmu hallow
  have hstep := h.inv.exec_mmu_step h.direct h.fault (hfits.1.mono fun _ => User.below) hfits.2.1
    hfits.2.2 hs'
  refine ⟨hfits, s', hs', h.step hfits hs', ?_⟩
  cases hstep with
  | mapTable hpres => exact absurd hpres hp
  | mapFull _ hfull => exact absurd (hfull.all n hleast.1) hleast.2.1
  | mapFresh _ hk =>
      obtain rfl := hk.leastFree.eq hleast
      obtain ⟨hkd, -, -⟩ := h.inv.fresh_apart hk
      have hd := directoryFrame_lt L
      refine ⟨?_, rfl, ?_⟩
      · intro f
        simp only [Machine.put_frameBitmap, Machine.take_frameBitmap]
        rw [hk.after, Finset.mem_insert, hmarked]
        omega
      · intro i hi
        simp only [Machine.put_mem, Machine.take_mem]
        rw [entry_directory_put _ hk.lt_addresses (index_lt v) hi hkd,
          entry_setEntry _ _ hd (slot_lt v) hd hi, entry_zeroFrame _ hk.lt_addresses hd hi,
          if_neg (Ne.symm hkd)]
        simp only [true_and]

theorem reserved_small (f : Nat) : f ∈ reserved Layout.small ↔ f < 267 := by
  have hend : Layout.small.kernelPhysicalEnd = 0x10B000 := by decide
  rw [mem_reserved, Reserved, hend]
  unfold totalFrames
  omega

/-- What `init_paging` marks there. -/
theorem marked_small (f : Nat) : f ∈ marked (initFrames Layout.small) ↔ f < 267 := by
  rw [marked_initFrames]
  exact reserved_small f

/-- **Out of reach.**  757 pages into a small kernel, `alloc_frame` returns
`0x400000`; its `P2V` address is not mapped, and clearing the page faults. -/
theorem page_out_of_reach :
    ∃ s, run (exec mmu) (start mmu Layout.small smallMem) (List.replicate 757 .kmalloc) = some s ∧
      (allocFrame s.machine.frameBitmap).1 = 0x400000#32 ∧
      walk s.machine.mem s.machine.cr3 (p2v 0x400000#32) = none ∧
      ∃ s', exec mmu s .kmalloc = some s' ∧ s'.fault = some 0xC0400000#32 := by
  obtain ⟨-, s, hrun, hinv, -, hmap, hmarked⟩ :=
    kmalloc_run bootTables_small reserved_small 757 (by decide)
  have hleast : LeastFree s.machine.frameBitmap 1024 := leastFree_of_below (by decide) hmarked
  have hfresh := fresh_of_leastFree hinv.inv.founded.zero hleast
  have haddr : frameAddr 1024 = 0x400000#32 := rfl
  have hnone : walk s.machine.mem s.machine.cr3 (p2v (frameAddr 1024)) = none := by
    have hnoted := hinv.inv.mapped.noted (p2v (frameAddr 1024)) (by decide)
    rw [hmap, Option.map_none] at hnoted
    rw [walk_lookup, hinv.inv.cr3, frameOf_frameAddr (directoryFrame_lt _), hnoted]
    rfl
  have hperf : Op.perform mmu .kmalloc s.machine = .error ⟨p2v (frameAddr 1024)⟩ _ :=
    kmallocPhysicalPage_fault hfresh.addr_ne_zero hfresh.addr hnone
  have hallow : s.Allows .kmalloc := trivial
  obtain ⟨s', hs'⟩ := exec_some mmu hallow
  refine ⟨s, hrun, haddr ▸ hfresh.addr, haddr ▸ hnone, s', hs', ?_⟩
  rw [exec, hinv.fault] at hs'
  simp only [if_pos hallow, hperf, Option.some.injEq] at hs'
  rw [← hs']
  rfl

theorem alloc_reached_iff_small :
    ∃ s, run (exec mmu) (start mmu Layout.small smallMem) (List.replicate 757 .kmalloc) = some s ∧
      s.fault = none ∧ ∀ op, AllocFits Layout.small s op ↔ AllocReached Layout.small s op := by
  obtain ⟨halong, s, hrun, -⟩ := kmalloc_run bootTables_small reserved_small 757 (by decide)
  obtain ⟨hfault, hiff, -⟩ := alloc_reached_iff bootTables_small halong hrun
  exact ⟨s, hrun, hfault, hiff⟩

end Reach

end RedOS
