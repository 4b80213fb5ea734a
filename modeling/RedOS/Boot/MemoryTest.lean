/-
# `RedOS.Boot.MemoryTest` — `test_memory_mapping` on the paging machine

The test `kernel_main` makes: three pages, the first one mapped at `0xD0000000`,
a word stored and loaded there, everything taken back.  With four free frames in
the first 4 MB it cannot fail (`runTestMemoryMapping_passes`): the word comes back,
no page handed out before has changed, and what is left of the test is the page
table it may have needed, which nobody frees.

    Ready              n free frames in reach, and the table of the slot
    Ready.kmalloc, ... one lemma a call
    memoryTest_boot    the addresses and counts `kernel_main` prints
-/
import RedOS.Paging.UserMemory

namespace RedOS

open ByteMemory X86Paging Runs

/-- `test_virt_addr` -/
def testVirtAddr : Addr := 0xD0000000#32

/-- `PAGE_PRESENT | PAGE_WRITE` -/
def testFlags : BitVec 32 := pagePresent ||| pageWrite

def testPattern : BitVec 32 := 0xDEADBEEF#32

/-- `test_memory_mapping` after its allocations. -/
def testActs (page1 page2 page3 : Addr) : List Act :=
  [ -- Map the virtual address to the physical page
    .call (.map testVirtAddr page1 testFlags),
    -- Write a known pattern
    .store testVirtAddr testPattern,
    -- Flush the TLB to ensure the mapping is active
    .invlpg testVirtAddr,
    -- Read back and verify
    .load testVirtAddr,
    -- Clean up
    .call (.unmap testVirtAddr),
    .call (.kfree page1), .call (.kfree page2), .call (.kfree page3)]

/-- `test_memory_mapping` -/
def runTestMemoryMapping (wp : Bool) (S : Schedule) (s : UserSys) : Option UserSys := do
  let page1 := replyOf S s.cached .kmalloc
  let s ← s.act wp S (.call .kmalloc)
  let page2 := replyOf S s.cached .kmalloc
  let s ← s.act wp S (.call .kmalloc)
  let page3 := replyOf S s.cached .kmalloc
  let s ← s.act wp S (.call .kmalloc)
  run (UserSys.act wp S) s (testActs page1 page2 page3)

/-- What is seen of it when it passes. -/
def testEvents (k₁ k₂ k₃ : Nat) : List PageEvent :=
  [.alloc k₁, .alloc k₂, .alloc k₃, .map 0xD0000 k₁, .store 0xD0000 0 testPattern,
    .load 0xD0000 0 testPattern, .unmap 0xD0000, .free k₁, .free k₂, .free k₃]

theorem testVirtAddr_user : User testVirtAddr := by decide

theorem testVirtAddr_page : frameOf testVirtAddr = 0xD0000 := by decide

/-! ## Free frames in reach -/

/-- How many frames of the first 4 MB are unmarked. -/
def freeLow (b : Bitmap) : Nat := (Finset.range 1024 \ marked b).card

section FreeLow

variable {b : Bitmap} {k : Nat}

theorem exists_of_freeLow (h : 0 < freeLow b) : ∃ f, f < 1024 ∧ f ∉ marked b := by
  obtain ⟨f, hf⟩ := Finset.card_pos.mp h
  rw [Finset.mem_sdiff, Finset.mem_range] at hf
  exact ⟨f, hf⟩

theorem not_full_of_freeLow (h : 0 < freeLow b) : ¬ Full b := by
  intro hfull
  obtain ⟨f, hf, hfree⟩ := exists_of_freeLow h
  exact hfree (hfull.all f (Nat.lt_trans hf (by decide)))

/-- The lowest free frame is one of them. -/
theorem LeastFree.low (hk : LeastFree b k) (h : 0 < freeLow b) : k < 1024 := by
  obtain ⟨f, hf, hfree⟩ := exists_of_freeLow h
  by_contra hlo
  exact hfree (hk.2.2 f (by omega))

theorem Fresh.freeLow_after (hk : Fresh b k) (h : 0 < freeLow b) :
    freeLow (allocFrame b).2 + 1 = freeLow b := by
  have hmem : k ∈ Finset.range 1024 \ marked b := by
    rw [Finset.mem_sdiff, Finset.mem_range]
    exact ⟨hk.leastFree.low h, hk.unmarked⟩
  unfold freeLow
  rw [hk.after, Finset.sdiff_insert, Finset.card_erase_add_one hmem]

end FreeLow

/-! ## Call by call -/

/-- `n` frames are free in reach, and so is the table of the slot, if any. -/
structure Ready (L : Layout) (n : Nat) (s : UserSys) : Prop where
  inv : UserInv L s
  free : n ≤ freeLow s.cached.sys.machine.frameBitmap
  table : TableFits L s.cached.sys (.unmap testVirtAddr)

section Calls

variable {L : Layout} {n : Nat} {s s' : UserSys}

/-- It depends on the directory's entry and on what is mapped. -/
theorem tableFits_congr {u u' : Sys} {v : Addr} (h : TableFits L u (.unmap v))
    (hentry : entry u'.machine.mem L.directoryFrame (slot v)
      = entry u.machine.mem L.directoryFrame (slot v))
    (hmap : u'.mapping = u.mapping) : TableFits L u' (.unmap v) := by
  intro hp
  rw [hentry] at hp
  rw [tableOf, hentry, Windowed, hmap]
  exact h hp

/-- With a free frame in reach every allocation fits. -/
theorem allocFits_of_freeLow (h : 0 < freeLow s.cached.sys.machine.frameBitmap) (op : Op) :
    AllocFits L s.cached.sys op := fun _ _ hk => Or.inl (hk.low h)

theorem Ready.pos (h : Ready L (n + 1) s) : 0 < freeLow s.cached.sys.machine.frameBitmap :=
  Nat.lt_of_lt_of_le (Nat.succ_pos n) h.free

theorem Ready.opens_kmalloc (h : Ready L (n + 1) s) : OpensUser mmu L s.cached .kmalloc := by
  have hfits : AllocFits L s.cached.sys .kmalloc := allocFits_of_freeLow h.pos _
  exact ⟨trivial, h.inv.cache.inv.opens_mmu h.inv.direct trivial hfits trivial⟩

theorem Ready.opens_map (h : Ready L (n + 1) s) (p : Addr) :
    OpensUser mmu L s.cached (.map testVirtAddr p testFlags) := by
  have hfits : AllocFits L s.cached.sys (.map testVirtAddr p testFlags) :=
    allocFits_of_freeLow h.pos _
  have hbelow := testVirtAddr_user.below
  exact ⟨testVirtAddr_user, h.inv.cache.inv.opens_mmu h.inv.direct hbelow hfits h.table⟩

theorem Ready.opens_unmap (h : Ready L n s) : OpensUser mmu L s.cached (.unmap testVirtAddr) :=
  ⟨testVirtAddr_user, h.inv.cache.inv.opens_mmu h.inv.direct testVirtAddr_user.below
    (fun hno => absurd hno id) h.table⟩

/-- **A page is handed out**, the lowest free one. -/
theorem Ready.kmalloc (h : Ready L (n + 1) s) (wp : Bool) (S : Schedule) : ∃ k s',
    s.act wp S (.call .kmalloc) = some s' ∧ replyOf S s.cached .kmalloc = frameAddr k ∧
      Fresh s.cached.sys.machine.frameBitmap k ∧ Ready L n s' ∧
      s'.cached.sys = { s.cached.sys with
        machine := s.cached.sys.machine.take k
        live := insert (frameAddr k) s.cached.sys.live } ∧
      entry s'.cached.sys.machine.mem L.directoryFrame (slot testVirtAddr)
        = entry s.cached.sys.machine.mem L.directoryFrame (slot testVirtAddr) ∧
      s'.events = s.events ++ [.alloc k] := by
  have hinv := h.inv.cache.inv
  have hopens := h.opens_kmalloc
  obtain ⟨s', hact⟩ := h.inv.call_some wp S .kmalloc trivial
  obtain ⟨hinv', hstep, hevents⟩ := h.inv.call hopens hact
  generalize hsys : s'.cached.sys = u at hstep
  cases hstep with
  | kmallocFull hfull => exact absurd hfull (not_full_of_freeLow h.pos)
  | @kmallocFresh k hk =>
      have hreply := replyOf_eq S .kmalloc
        (kmallocPhysicalPage_fresh hk.lt_addresses hk.addr_ne_zero hk.addr (hopens.2 k hk))
      rw [noted, hreply, if_neg hk.addr_ne_zero, frameOf_frameAddr hk.lt_addresses] at hevents
      -- the directory's frame is not the one handed out
      obtain ⟨hkd, -, -⟩ := hinv.fresh_apart hk
      have hentry : entry s'.cached.sys.machine.mem L.directoryFrame (slot testVirtAddr)
          = entry s.cached.sys.machine.mem L.directoryFrame (slot testVirtAddr) := by
        rw [hsys]
        simp only [Machine.take_mem]
        rw [entry_zeroFrame _ hk.lt_addresses (directoryFrame_lt L) (slot_lt _),
          if_neg (Ne.symm hkd)]
      refine ⟨k, s', hact, hreply, hk, ⟨hinv', ?_, ?_⟩, hsys, hentry, hevents⟩
      · have hafter := hk.freeLow_after h.pos
        have hfree := h.free
        rw [hsys]
        simp only [Machine.take_frameBitmap]
        omega
      · exact tableFits_congr h.table hentry (by rw [hsys])

/-- Where a frame is left there is a table to be had. -/
theorem Inv.tableGot_ne_zero {u : Sys} (h : Inv L u) {v p fl : BitVec 32} (hv : Below v)
    (hopens : Opens mmu L.directoryFrame u.machine (.map v p fl))
    (hroom : ¬ Full u.machine.frameBitmap) : tableGot mmu v true u.machine ≠ 0#32 := by
  obtain ⟨hreach, -, hfresh⟩ := hopens
  by_cases hp : Present (entry u.machine.mem L.directoryFrame (slot v))
  · rw [tableGot_of_ok (getPageTable_present h.dir hreach hp)]
    exact p2v_frameAddr_ne_zero (h.founded.table _ hv hp)
  · rcases fresh_or_full h.founded.zero with ⟨k, hk⟩ | hfull
    · obtain ⟨hstable, hdir', -⟩ := hfresh hp k hk
      rw [tableGot_of_ok (getPageTable_fresh h.dir hreach hp hk.lt_addresses
        hk.addr_ne_zero hk.addr hstable hdir')]
      exact p2v_frameAddr_ne_zero hk.lt
    · exact absurd hfull hroom

/-- The window of a managed frame is not at the test's address. -/
theorem windowed_update {u : Sys} {f : Nat} (hf : f < totalFrames) (hw : Windowed u f) {u' : Sys}
    {o : Option Addr} (hmap : u'.mapping = Function.update u.mapping 0xD0000 o) : Windowed u' f := by
  refine hw.imp_right ?_
  intro hwin
  have hpage : frameOf (p2v (frameAddr f)) ≠ 0xD0000 := by
    unfold totalFrames at hf
    rw [page_p2v (by omega)]
    omega
  rw [hmap, Function.update_of_ne hpage]
  exact hwin

/-- What a successful mapping at the test's address leaves. -/
theorem Inv.map_step {u u' : Sys} (h : Inv L u) {p fl : BitVec 32}
    (hpos : 0 < freeLow u.machine.frameBitmap) (htable : TableFits L u (.unmap testVirtAddr))
    (hstep : Step L.directoryFrame u (.map testVirtAddr p fl) u') :
    u'.live = u.live ∧ u'.mapping = Function.update u.mapping 0xD0000 (some p) ∧
      u'.tables.card = u.tables.card +
        (if Present (entry u.machine.mem L.directoryFrame (slot testVirtAddr)) then 0 else 1) ∧
      TableFits L u' (.unmap testVirtAddr) := by
  have hd := directoryFrame_lt L
  cases hstep with
  | mapTable hp =>
      refine ⟨rfl, rfl, by rw [if_pos hp, Nat.add_zero], ?_⟩
      have htab := tableOf_lt u.machine.mem L.directoryFrame testVirtAddr
      have hne := h.mapped.table_ne_directory testVirtAddr_user.below hp
      have hentry := congrArg frameOf (entry_directory_put (m := u.machine.mem) (pageEntry p fl) htab
        (index_lt testVirtAddr) (slot_lt testVirtAddr) hne)
      intro _
      simp only [Machine.put_mem]
      rw [show tableOf _ _ _ = _ from hentry]
      exact windowed_update (h.founded.table _ testVirtAddr_user.below hp) (htable hp) rfl
  | mapFull _ hfull => exact absurd hfull (not_full_of_freeLow hpos)
  | @mapFresh _ _ _ k hp hk =>
      obtain ⟨hkd, -, hkt⟩ := h.fresh_apart hk
      refine ⟨rfl, rfl, by rw [if_neg hp, Finset.card_insert_of_notMem hkt], ?_⟩
      intro _
      simp only [Machine.put_mem, Machine.take_mem]
      rw [tableOf, entry_directory_put _ hk.lt_addresses (index_lt _) (slot_lt _) hkd,
        entry_setEntry _ _ hd (slot_lt _) hd (slot_lt _), if_pos ⟨rfl, rfl⟩,
        frameOf_bootEntry hk.lt_addresses]
      exact Or.inl (hk.leastFree.low hpos)

/-- **The page is mapped**, writable, and its slot has a table. -/
theorem Ready.map (h : Ready L (n + 1) s) (wp : Bool) (S : Schedule) (p : Addr) : ∃ s',
    s.act wp S (.call (.map testVirtAddr p testFlags)) = some s' ∧ Ready L 0 s' ∧
      s'.cached.sys.live = s.cached.sys.live ∧
      s'.cached.sys.mapping = Function.update s.cached.sys.mapping 0xD0000 (some p) ∧
      s'.cached.sys.tables.card = s.cached.sys.tables.card +
        (if Present (entry s.cached.sys.machine.mem L.directoryFrame (slot testVirtAddr)) then 0 else 1) ∧
      EffectiveRights s'.cached.sys.machine.mem (frameOf s'.cached.sys.machine.cr3) testVirtAddr p
        testFlags ∧
      s'.events = s.events ++ [.map 0xD0000 (frameOf p)] := by
  have hinv := h.inv.cache.inv
  have hopens := h.opens_map p
  have hgot := hinv.tableGot_ne_zero testVirtAddr_user.below hopens.2 (not_full_of_freeLow h.pos)
  obtain ⟨s', hact⟩ := h.inv.call_some wp S (.map testVirtAddr p testFlags) trivial
  obtain ⟨hinv', hstep, hevents⟩ := h.inv.call hopens hact
  have hrights := h.inv.map_rights hopens (by decide) hgot hact
  obtain ⟨hlive, hmap, htables, htable⟩ := hinv.map_step h.pos h.table hstep
  rw [noted, if_neg hgot, testVirtAddr_page] at hevents
  exact ⟨s', hact, ⟨hinv', Nat.zero_le _, htable⟩, hlive, hmap, htables, hrights, hevents⟩

/-- The page is unmapped. -/
theorem Ready.unmap (h : Ready L n s) (wp : Bool) (S : Schedule) : ∃ s',
    s.act wp S (.call (.unmap testVirtAddr)) = some s' ∧ UserInv L s' ∧
      s'.cached.sys.live = s.cached.sys.live ∧ s'.cached.sys.tables = s.cached.sys.tables ∧
      s'.cached.sys.mapping = Function.update s.cached.sys.mapping 0xD0000 none ∧
      s'.events = s.events ++ [.unmap 0xD0000] := by
  have hopens := h.opens_unmap
  obtain ⟨s', hact⟩ := h.inv.call_some wp S (.unmap testVirtAddr) trivial
  obtain ⟨hinv', hstep, hevents⟩ := h.inv.call hopens hact
  rw [noted, testVirtAddr_page] at hevents
  refine ⟨s', hact, hinv', ?_⟩
  generalize s'.cached.sys = u at hstep ⊢
  cases hstep with
  | unmapTable _ => exact ⟨rfl, rfl, rfl, hevents⟩
  | unmapAbsent _ => exact ⟨rfl, rfl, rfl, hevents⟩

/-- A page is taken back. -/
theorem UserInv.kfree (h : UserInv L s) (wp : Bool) (S : Schedule) {a : Addr} (ha : a ≠ 0#32)
    (hl : a ∈ s.cached.sys.live) : ∃ s',
    s.act wp S (.call (.kfree a)) = some s' ∧ UserInv L s' ∧
      s'.cached.sys.live = s.cached.sys.live.erase a ∧
      s'.cached.sys.tables = s.cached.sys.tables ∧
      s'.cached.sys.mapping = s.cached.sys.mapping ∧
      s'.events = s.events ++ [.free (frameOf a)] := by
  have hopens : OpensUser mmu L s.cached (.kfree a) := ⟨trivial, trivial⟩
  obtain ⟨s', hact⟩ := h.call_some wp S (.kfree a) (Or.inr hl)
  obtain ⟨hinv', hstep, hevents⟩ := h.call hopens hact
  rw [noted, if_neg ha] at hevents
  refine ⟨s', hact, hinv', ?_⟩
  generalize s'.cached.sys = u at hstep ⊢
  cases hstep with
  | kfreeNull => exact absurd rfl ha
  | kfree _ _ => exact ⟨rfl, rfl, rfl, hevents⟩

/-- The word comes back, and the table stays in reach. -/
theorem Ready.store_load (h : Ready L n s) (wp : Bool) (S : Schedule) {p : Addr}
    (hmap : s.cached.sys.mapping 0xD0000 = some p) (hlive : p ∈ s.cached.sys.live)
    (hrights : EffectiveRights s.cached.sys.machine.mem (frameOf s.cached.sys.machine.cr3) testVirtAddr
      p testFlags) : ∃ s',
    run (UserSys.act wp S) s [.store testVirtAddr testPattern, .invlpg testVirtAddr,
        .load testVirtAddr] = some s' ∧ Ready L n s' ∧
      s'.cached.sys.live = s.cached.sys.live ∧ s'.cached.sys.tables = s.cached.sys.tables ∧
      s'.cached.sys.mapping = s.cached.sys.mapping ∧
      s'.events = s.events ++ [.store 0xD0000 0 testPattern, .load 0xD0000 0 testPattern] := by
  have hpage : frameOf p ∈ livePages s.cached.sys.live := Finset.mem_image_of_mem _ hlive
  have hwrite : wp = true → ∀ q, pageWalk s.cached.sys.machine.mem
      (frameOf s.cached.sys.machine.cr3) testVirtAddr = some q → q.writable = true := by
    intro _ q hq
    rw [EffectiveRights, hq, Option.some.injEq] at hrights
    rw [hrights]
    rfl
  obtain ⟨s', hrun, hinv', hsys, hevents⟩ :=
    h.inv.store_load wp S testPattern testVirtAddr_user (by decide) hmap hpage hwrite
  refine ⟨s', hrun, ⟨hinv', ?_, ?_⟩, by rw [hsys], by rw [hsys], by rw [hsys], hevents⟩
  · rw [hsys]
    exact h.free
  · obtain ⟨hf20, hfd, -, -⟩ := h.inv.cache.inv.live_apart hpage
    have hentry := entry_directory_put (m := s.cached.sys.machine.mem) testPattern hf20
      (wordOf_lt testVirtAddr) (slot_lt testVirtAddr) hfd
    refine tableFits_congr h.table ?_ (by rw [hsys])
    rw [hsys]
    exact hentry

/-- The test after its allocations. -/
theorem Ready.tail (h : Ready L (n + 1) s) (wp : Bool) (S : Schedule) {a b c : Addr} (ha : a ≠ 0#32)
    (hb : b ≠ 0#32) (hc : c ≠ 0#32) (hal : a ∈ s.cached.sys.live)
    (hbl : b ∈ s.cached.sys.live.erase a) (hcl : c ∈ (s.cached.sys.live.erase a).erase b) : ∃ s',
    run (UserSys.act wp S) s (testActs a b c) = some s' ∧ UserInv L s' ∧
      s'.cached.sys.live = ((s.cached.sys.live.erase a).erase b).erase c ∧
      s'.cached.sys.tables.card = s.cached.sys.tables.card +
        (if Present (entry s.cached.sys.machine.mem L.directoryFrame (slot testVirtAddr)) then 0 else 1) ∧
      s'.cached.sys.mapping = Function.update s.cached.sys.mapping 0xD0000 none ∧
      s'.events = s.events ++ [.map 0xD0000 (frameOf a), .store 0xD0000 0 testPattern,
        .load 0xD0000 0 testPattern, .unmap 0xD0000, .free (frameOf a), .free (frameOf b),
        .free (frameOf c)] := by
  obtain ⟨s₁, hact₁, h₁, hlive₁, hmap₁, htab₁, hrights, he₁⟩ := h.map wp S a
  have hmapped : s₁.cached.sys.mapping 0xD0000 = some a := by rw [hmap₁, Function.update_self]
  obtain ⟨s₂, hrun₂, h₂, hlive₂, htab₂, hmap₂, he₂⟩ :=
    h₁.store_load wp S hmapped (hlive₁ ▸ hal) hrights
  obtain ⟨s₃, hact₃, h₃, hlive₃, htab₃, hmap₃, he₃⟩ := h₂.unmap wp S
  have hlive : s₃.cached.sys.live = s.cached.sys.live := hlive₃.trans (hlive₂.trans hlive₁)
  obtain ⟨s₄, hact₄, h₄, hlive₄, htab₄, hmap₄, he₄⟩ := h₃.kfree wp S ha (hlive ▸ hal)
  rw [hlive] at hlive₄
  obtain ⟨s₅, hact₅, h₅, hlive₅, htab₅, hmap₅, he₅⟩ := h₄.kfree wp S hb (hlive₄ ▸ hbl)
  rw [hlive₄] at hlive₅
  obtain ⟨s₆, hact₆, h₆, hlive₆, htab₆, hmap₆, he₆⟩ := h₅.kfree wp S hc (hlive₅ ▸ hcl)
  rw [hlive₅] at hlive₆
  refine ⟨s₆, ?_, h₆, hlive₆, ?_, ?_, ?_⟩
  · have hrest : run (UserSys.act wp S) s₂ [.call (.unmap testVirtAddr), .call (.kfree a),
        .call (.kfree b), .call (.kfree c)] = some s₆ :=
      run_cons_some.mpr ⟨s₃, hact₃, run_cons_some.mpr ⟨s₄, hact₄, run_cons_some.mpr ⟨s₅, hact₅,
        run_cons_some.mpr ⟨s₆, hact₆, rfl⟩⟩⟩⟩
    have hmiddle : run (UserSys.act wp S) s₁ ([.store testVirtAddr testPattern,
        .invlpg testVirtAddr, .load testVirtAddr] ++ [.call (.unmap testVirtAddr), .call (.kfree a),
        .call (.kfree b), .call (.kfree c)]) = _ := run_append s₁ _ _
    rw [hrun₂, Option.bind_some, hrest] at hmiddle
    exact run_cons_some.mpr ⟨s₁, hact₁, hmiddle⟩
  · rw [htab₆, htab₅, htab₄, htab₃, htab₂, htab₁]
  · rw [hmap₆, hmap₅, hmap₄, hmap₃, hmap₂, hmap₁, Function.update_idem]
  · rw [he₆, he₅, he₄, he₃, he₂, he₁]
    simp only [List.append_assoc, List.cons_append, List.nil_append]

end Calls

/-! ## The test -/

section Test

variable {wp : Bool} {S : Schedule} {L : Layout} {m : Mem} {tlb : Tlb} {s : UserSys} {acts : List Act}

/-- A fresh frame is no live page. -/
theorem Inv.fresh_not_live {u : Sys} (h : Inv L u) {k : Nat} (hk : Fresh u.machine.frameBitmap k) :
    frameAddr k ∉ u.live := fun hmem =>
  (h.owned.fresh_not_mem hk).2.1 ((h.owned.mem_livePages hk.lt_addresses).mpr hmem)

/-- Three new pages, taken back one by one. -/
theorem erase_insert_three {live : Finset Addr} {a b c : Addr} (ha : a ∉ live)
    (hb : b ∉ insert a live) (hc : c ∉ insert b (insert a live)) :
    a ∈ insert c (insert b (insert a live)) ∧ b ∈ (insert c (insert b (insert a live))).erase a ∧
      c ∈ ((insert c (insert b (insert a live))).erase a).erase b ∧
      (((insert c (insert b (insert a live))).erase a).erase b).erase c = live := by
  simp only [Finset.mem_insert, not_or] at hb hc
  obtain ⟨hba, hb⟩ := hb
  obtain ⟨hcb, hca, hc⟩ := hc
  have ha' : (insert c (insert b (insert a live))).erase a = insert c (insert b live) := by
    rw [Finset.erase_insert_of_ne hca, Finset.erase_insert_of_ne hba,
      Finset.erase_insert ha]
  have hb' : (insert c (insert b live)).erase b = insert c live := by
    rw [Finset.erase_insert_of_ne hcb, Finset.erase_insert hb]
  rw [ha', hb', Finset.erase_insert hc]
  simp

/-- The words of a page in use are spoilt by no event of the test. -/
theorem testEvents_spare {k₁ k₂ k₃ f : Nat} (j : Nat) (h₁ : f ≠ k₁) (h₂ : f ≠ k₂) (h₃ : f ≠ k₃)
    (t : Pages) :
    Along SharedPages.step (fun t e => ¬ SharedPages.Spoils f j t e) t (testEvents k₁ k₂ k₃) := by
  refine ⟨id, fun t₁ _ => ⟨id, fun t₂ _ => ⟨id, fun t₃ _ => ⟨id, fun t₄ ht₄ => ⟨?_, ?_⟩⟩⟩⟩⟩
  · -- the page stored to is the one just mapped
    rintro ⟨htarget, -⟩
    obtain rfl := Option.some.inj ht₄
    have hmap := (SharedPages.target_eq_some.mp htarget).1
    simp only [Function.update_self, Option.some.injEq] at hmap
    exact h₁ hmap.symm
  · intro t₅ _
    exact ⟨id, fun t₆ _ => ⟨id, fun t₇ _ => ⟨Ne.symm h₁, fun t₈ _ => ⟨Ne.symm h₂, fun t₉ _ =>
      ⟨Ne.symm h₃, fun _ _ => trivial⟩⟩⟩⟩⟩

theorem three_lowest {b : Bitmap} {k₁ k₂ k₃ : Nat} (h₁ : Fresh b k₁) (h₂ : Fresh (allocFrame b).2 k₂)
    (h₃ : Fresh (allocFrame (allocFrame b).2).2 k₃) :
    k₁ < k₂ ∧ k₂ < k₃ ∧ ∀ f, f ≤ k₃ → (f ∉ marked b ↔ f = k₁ ∨ f = k₂ ∨ f = k₃) := by
  have hnot₁ := h₁.unmarked
  have hnot₂ := h₂.unmarked
  have hnot₃ := h₃.unmarked
  have hleast₂ := h₂.least
  have hleast₃ := h₃.least
  rw [h₁.after] at hnot₂ hleast₂
  rw [h₂.after, h₁.after] at hnot₃ hleast₃
  simp only [Finset.mem_insert, not_or] at hnot₂ hnot₃ hleast₂ hleast₃
  have h₁₂ : k₁ < k₂ := by
    by_contra hle
    exact hnot₂.2 (h₁.least k₂ (by omega))
  have h₂₃ : k₂ < k₃ := by
    by_contra hle
    rcases hleast₂ k₃ (by omega) with heq | hmem
    · exact hnot₃.2.1 heq
    · exact hnot₃.2.2 hmem
  refine ⟨h₁₂, h₂₃, ?_⟩
  intro f hf
  constructor
  · intro hfree
    rcases Nat.lt_or_eq_of_le hf with hlt | heq
    · rcases hleast₃ f hlt with h | h | h
      · exact Or.inr (Or.inl h)
      · exact Or.inl h
      · exact absurd h hfree
    · exact Or.inr (Or.inr heq)
  · rintro (rfl | rfl | rfl)
    · exact hnot₁
    · exact hnot₂.2
    · exact hnot₃.2.2

/-- What a passed test, which was handed the frames `k₁`, `k₂` and `k₃`, leaves. -/
structure Passed (L : Layout) (s : UserSys) (k₁ k₂ k₃ : Nat) (s' : UserSys) : Prop where
  fault : s'.cached.sys.fault = none
  events : s'.events = s.events ++ testEvents k₁ k₂ k₃
  /-- They are the three lowest free frames. -/
  lowest : k₁ < k₂ ∧ k₂ < k₃ ∧ ∀ f, f ≤ k₃ →
    (f ∉ marked s.cached.sys.machine.frameBitmap ↔ f = k₁ ∨ f = k₂ ∨ f = k₃)
  live : s'.cached.sys.live = s.cached.sys.live
  mapping : s'.cached.sys.mapping = Function.update s.cached.sys.mapping 0xD0000 none
  /-- The table, if there was none, stays marked. -/
  used : usedFrames s'.cached.sys.machine.frameBitmap = usedFrames s.cached.sys.machine.frameBitmap +
    (if Present (entry s.cached.sys.machine.mem L.directoryFrame (slot testVirtAddr)) then 0 else 1)
  kept : ∀ f ∈ livePages s.cached.sys.live, ∀ j, j < 1024 →
    entry s'.cached.sys.machine.mem f j = entry s.cached.sys.machine.mem f j

/-- With four frames in reach it passes. -/
theorem Ready.test (h₀ : Ready L 4 s) (wp : Bool) (S : Schedule) :
    ∃ k₁ k₂ k₃ s', runTestMemoryMapping wp S s = some s' ∧ Passed L s k₁ k₂ k₃ s' := by
  obtain ⟨k₁, s₁, hact₁, hreply₁, hk₁, h₁, hsys₁, hentry₁, he₁⟩ := h₀.kmalloc wp S
  obtain ⟨k₂, s₂, hact₂, hreply₂, hk₂, h₂, hsys₂, hentry₂, he₂⟩ := h₁.kmalloc wp S
  obtain ⟨k₃, s₃, hact₃, hreply₃, hk₃, h₃, hsys₃, hentry₃, he₃⟩ := h₂.kmalloc wp S
  have hlive₁ : s₁.cached.sys.live = insert (frameAddr k₁) s.cached.sys.live := by rw [hsys₁]
  have hlive₂ : s₂.cached.sys.live = insert (frameAddr k₂) s₁.cached.sys.live := by rw [hsys₂]
  have hlive₃ : s₃.cached.sys.live = insert (frameAddr k₃) s₂.cached.sys.live := by rw [hsys₃]
  -- the three pages are three
  have hnew₁ := h₀.inv.cache.inv.fresh_not_live hk₁
  have hnew₂ := h₁.inv.cache.inv.fresh_not_live hk₂
  have hnew₃ := h₂.inv.cache.inv.fresh_not_live hk₃
  rw [hlive₁] at hnew₂
  rw [hlive₂, hlive₁] at hnew₃ hlive₃
  obtain ⟨hmem₁, hmem₂, hmem₃, hback⟩ := erase_insert_three hnew₁ hnew₂ hnew₃
  rw [← hlive₃] at hmem₁ hmem₂ hmem₃ hback
  obtain ⟨s', hrun', hinv', hlive, htables, hmap, hevents⟩ := h₃.tail wp S hk₁.addr_ne_zero
    hk₂.addr_ne_zero hk₃.addr_ne_zero hmem₁ hmem₂ hmem₃
  rw [hback] at hlive
  have hall : s'.events = s.events ++ testEvents k₁ k₂ k₃ := by
    rw [hevents, he₃, he₂, he₁, frameOf_frameAddr hk₁.lt_addresses,
      frameOf_frameAddr hk₂.lt_addresses, frameOf_frameAddr hk₃.lt_addresses]
    simp only [List.append_assoc, List.cons_append, List.nil_append]
    rfl
  have hmaps : s₃.cached.sys.mapping = s.cached.sys.mapping := by rw [hsys₃, hsys₂, hsys₁]
  have htabs : s₃.cached.sys.tables = s.cached.sys.tables := by rw [hsys₃, hsys₂, hsys₁]
  refine ⟨k₁, k₂, k₃, s', ?_, hinv'.cache.fault, hall, ?_, hlive, ?_, ?_, ?_⟩
  · unfold runTestMemoryMapping
    simp only [hreply₁, hact₁, hreply₂, hact₂, hreply₃, hact₃, Option.bind_eq_bind, Option.bind_some]
    exact hrun'
  · rw [hsys₁] at hk₂
    rw [hsys₂, hsys₁] at hk₃
    simp only [Machine.take_frameBitmap] at hk₂ hk₃
    exact three_lowest hk₁ hk₂ hk₃
  · rw [hmap, hmaps]
  · rw [usedFrames_eq, usedFrames_eq, hinv'.cache.inv.owned.card, h₀.inv.cache.inv.owned.card, hlive,
      htables, htabs, hentry₃, hentry₂, hentry₁]
    omega
  · intro f hf j hj
    obtain ⟨t, t', ht, ht', hpages⟩ := h₀.inv.events_run hinv' hall
    have hkeeps : SharedPages.Keeps f j (t.page f j) t := ⟨by rw [ht.live]; exact hf, rfl⟩
    have hne : ∀ {k}, frameAddr k ∉ s.cached.sys.live → k < 2 ^ 20 → f ≠ k := by
      intro k hnot hk heq
      exact hnot ((h₀.inv.cache.inv.owned.mem_livePages hk).mp (heq ▸ hf))
    have hspare := testEvents_spare j (hne hnew₁ hk₁.lt_addresses)
      (hne (fun h => hnew₂ (Finset.mem_insert_of_mem h)) hk₂.lt_addresses)
      (hne (fun h => hnew₃ (Finset.mem_insert_of_mem (Finset.mem_insert_of_mem h)))
        hk₃.lt_addresses) t
    rw [← ht'.page f (hlive ▸ hf) j hj, ← ht.page f hf j hj]
    exact (SharedPages.keeps_run hkeeps hspare hpages).2

/-- The first frame behind the kernel. -/
def firstFree (L : Layout) : Nat := (L.kernelPhysicalEnd + 4095) / 4096

theorem marked_start (hroom : firstFree L ≤ 1024) :
    marked (initFrames L) = Finset.range (firstFree L) := by
  have hstart := L.bootStack_le_kernelPhysicalEnd
  have hlow := L.start_le_bootPageDirectory
  unfold Layout.bootStack Layout.bootPageTable1 at hstart
  ext f
  rw [marked_initFrames, mem_reserved, Finset.mem_range, Reserved]
  unfold firstFree at hroom ⊢
  unfold totalFrames
  omega

/-- `init_paging` marks the frames below the end of the kernel. -/
theorem usedFrames_start (hm : BootTables L m) (hroom : firstFree L ≤ 1024) :
    usedFrames (startUser S tlb L m).cached.sys.machine.frameBitmap = firstFree L := by
  rw [startUser_sys hm, usedFrames_eq, initMachine, marked_start hroom, Finset.card_range]

theorem absent_start (hm : BootTables L m) :
    ¬ Present (entry (startUser S tlb L m).cached.sys.machine.mem L.directoryFrame
      (slot testVirtAddr)) := by
  rw [startUser_sys hm]
  exact (mapped_init hm).absent_of_no_tables testVirtAddr_user

/-- Nothing is mapped, and what is behind the kernel is free. -/
theorem ready_start (hm : BootTables L m) {n : Nat} (hroom : firstFree L + n ≤ 1024) :
    Ready L n (startUser S tlb L m) := by
  have hsys : (startUser S tlb L m).cached.sys = _ := startUser_sys hm
  refine ⟨userInv_start hm, ?_, ?_⟩
  · have hmarked := marked_start (L := L) (by omega)
    have hsub : Finset.range (firstFree L) ⊆ Finset.range 1024 :=
      Finset.range_subset_range.mpr (by omega)
    rw [hsys, initMachine, freeLow, hmarked, Finset.card_sdiff_of_subset hsub, Finset.card_range,
      Finset.card_range]
    omega
  · intro hp
    exact absurd hp (absent_start hm)

/-- **The run at boot.**  For every kernel that ends 16 KB below 4 MB or earlier,
whatever the TLB holds and caches: the pages are the three behind the kernel, the
word comes back, and `print_paging_info` counts one frame more after the test than
before it, the page table's. -/
theorem memoryTest_boot (hm : BootTables L m) (hroom : firstFree L + 4 ≤ 1024) :
    usedFrames (startUser S tlb L m).cached.sys.machine.frameBitmap = firstFree L ∧
      ∃ s', runTestMemoryMapping wp S (startUser S tlb L m) = some s' ∧ s'.cached.sys.fault = none ∧
        s'.events = testEvents (firstFree L) (firstFree L + 1) (firstFree L + 2) ∧
        s'.cached.sys.live = ∅ ∧ (∀ n, s'.cached.sys.mapping n = none) ∧
        usedFrames s'.cached.sys.machine.frameBitmap = firstFree L + 1 := by
  have hsys : (startUser S tlb L m).cached.sys = _ := startUser_sys hm
  have hmarked : marked (startUser S tlb L m).cached.sys.machine.frameBitmap
      = Finset.range (firstFree L) := by
    rw [hsys]
    exact marked_start (by omega)
  have hused : usedFrames (startUser S tlb L m).cached.sys.machine.frameBitmap = firstFree L :=
    usedFrames_start hm (by omega)
  have hready : Ready L 4 (startUser S tlb L m) := ready_start hm hroom
  obtain ⟨k₁, k₂, k₃, s', hrun, hpassed⟩ := hready.test wp S
  obtain ⟨h₁₂, h₂₃, hlowest⟩ := hpassed.lowest
  have hfree : ∀ f, f ≤ k₃ → (firstFree L ≤ f ↔ f = k₁ ∨ f = k₂ ∨ f = k₃) := by
    intro f hf
    rw [← hlowest f hf, hmarked, Finset.mem_range, Nat.not_lt]
  -- the three lowest free frames follow each other
  have hk₁ : firstFree L ≤ k₁ := (hfree k₁ (by omega)).mpr (Or.inl rfl)
  have h₀ := hfree (firstFree L) (by omega)
  have h₁ := hfree (firstFree L + 1) (by omega)
  have h₂ := hfree (firstFree L + 2) (by omega)
  obtain rfl : k₁ = firstFree L := by omega
  obtain rfl : k₂ = firstFree L + 1 := by omega
  obtain rfl : k₃ = firstFree L + 2 := by omega
  refine ⟨hused, s', hrun, hpassed.fault, hpassed.events, ?_, ?_, ?_⟩
  · rw [hpassed.live, hsys]
  · intro n
    rw [hpassed.mapping, hsys]
    exact congrFun (Function.update_eq_self 0xD0000 fun _ => none) n
  · rw [hpassed.used, hused, if_neg (absent_start hm)]

theorem memoryTest_boot_small :
    ∃ s', runTestMemoryMapping true (fun _ => [])
        (startUser (fun _ => []) Tlb.empty Layout.small smallMem) = some s' ∧
      s'.events = testEvents 267 268 269 ∧ usedFrames s'.cached.sys.machine.frameBitmap = 268 := by
  have hroom : firstFree Layout.small + 4 ≤ 1024 := by decide
  obtain ⟨-, s', hrun, -, hevents, -, -, hused⟩ := memoryTest_boot bootTables_small hroom
  exact ⟨s', hrun, hevents, hused⟩

end Test

end RedOS
