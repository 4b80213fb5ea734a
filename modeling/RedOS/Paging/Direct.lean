/-
# `RedOS.Paging.Direct` — runs of the paging interface with direct accesses

The kernel as its author thinks of it: `P2V(x)` is physical `x`.  Then no access
faults, `Inv` holds in every state any run reaches, and the two halves of `Inv`
say what the interface is for:

    frames_accounted        the bitmap is the disjoint union of reserved frames,
                            live pages and page tables
    translation_refines     `get_physical_address` is the flat map of the pages
-/
import RedOS.Paging.Invariant

namespace RedOS

open ByteMemory X86Paging Runs

section DirectRuns

variable {L : Layout} {m : Mem} {s s' : Sys} {ops : List Op}

/-- One call keeps the invariant and does not fault. -/
theorem Inv.exec_direct (h : Inv L s) (hfault : s.fault = none) {op : Op} (hop : op.At Below)
    (hexec : exec direct s op = some s') : Inv L s' ∧ s'.fault = none := by
  have hstep := step_of_exec_direct h.founded hop hfault hexec
  exact ⟨h.step hop hstep, hstep.books.1.trans hfault⟩

theorem start_direct (hm : BootTables L m) :
    Inv L (start direct L m) ∧ (start direct L m).fault = none := by
  refine ⟨inv_start hm (reaches_direct _ _ _), ?_⟩
  rw [start_eq (reaches_direct _ _ _)]

/-- **Every run below the recursive slot keeps the invariant.** -/
theorem inv_run (hm : BootTables L m) (hops : ∀ op ∈ ops, op.At Below)
    (hrun : run (exec direct) (start direct L m) ops = some s) : Inv L s ∧ s.fault = none :=
  run_invariant (I := fun s => Inv L s ∧ s.fault = none) (P := fun _ op => op.At Below)
    (fun _ _ _ hi hop hexec => hi.1.exec_direct hi.2 hop hexec) (start_direct hm)
    (along_of_mem _ hops) hrun

/-! ## The frames -/

/-- The memory `setup_page_tables` leaves of memory that was all zero. -/
def smallMem : Mem := bootTablesMem Layout.small fun _ => 0#8

theorem bootTables_small : BootTables Layout.small smallMem := bootTables_fill _ _

/-- The calls of `test_memory_mapping` up to its first unmapping. -/
def testMappingOps : List Op := [.kmalloc, .kmalloc, .kmalloc, .map 0xD0000000#32 0x10B000#32 3#32]

theorem testMappingOps_allowed : ∀ op ∈ testMappingOps, ∀ s : Sys, s.Allows op := by
  simp [testMappingOps, Sys.Allows]

/-- The directory in frame `d`, and the table of `v` where there is one, are at
their `P2V` addresses; the address of the table is not `NULL`. -/
def Visible (tr : Translation) (d : Nat) (s : Machine) (v : Addr) : Prop :=
  Reaches tr s.mem s.cr3 d ∧
    (Present (entry s.mem d (slot v)) →
      p2v (frameAddr (tableOf s.mem d v)) ≠ 0#32 ∧ Reaches tr s.mem s.cr3 (tableOf s.mem d v))

/-- The two entries read are those of the walk. -/
theorem getPhysicalAddress_visible {tr : Translation} {d : Nat} {v : Addr} {s : Machine}
    (hdir : s.currentPageDirectory = p2v (frameAddr d))
    (hv : Visible tr d s v) : getPhysicalAddress tr v s = .ok
      (((lookup s.mem d v).map fun f => frameAddr f + (v &&& offsetMask)).getD 0#32) s := by
  obtain ⟨hd, htable⟩ := hv
  by_cases hp : Present (entry s.mem d (slot v))
  · obtain ⟨ht0, ht⟩ := htable hp
    rw [getPhysicalAddress_present hdir hd hp ht0 ht, lookup]
    by_cases hpte : Present (entry s.mem (tableOf s.mem d v) (index v))
    · rw [if_pos hpte, if_pos ⟨hp, hpte⟩, and_frameMask_eq, Option.map_some, Option.getD_some]
    · rw [if_neg hpte, if_neg fun hboth => hpte hboth.2, Option.map_none, Option.getD_none]
  · rw [getPhysicalAddress_absent hdir hd hp, lookup_of_absent hp, Option.map_none,
      Option.getD_none]

/-- `get_physical_address` reads the page's translation off the tables. -/
theorem getPhysicalAddress_lookup {d : Nat} {v : Addr} {s : Machine}
    (hdir : s.currentPageDirectory = p2v (frameAddr d))
    (ht : Present (entry s.mem d (slot v)) → tableOf s.mem d v < totalFrames) :
    getPhysicalAddress direct v s = .ok
      (((lookup s.mem d v).map fun f => frameAddr f + (v &&& offsetMask)).getD 0#32) s :=
  getPhysicalAddress_visible hdir ⟨reaches_direct _ _ _, fun hp =>
    ⟨p2v_frameAddr_ne_zero (ht hp), reaches_direct _ _ _⟩⟩

theorem Inv.getPhysicalAddress_eq (h : Inv L s) {v : Addr} (hv : Below v) :
    getPhysicalAddress direct v s.machine = .ok
      (((lookup s.machine.mem L.directoryFrame v).map fun f =>
        frameAddr f + (v &&& offsetMask)).getD 0#32) s.machine :=
  getPhysicalAddress_lookup h.dir (h.founded.table v hv)

/-- The answer `get_physical_address(v)` owes the observer. -/
def Sys.answer (s : Sys) (v : Addr) : Addr :=
  match s.mapping (frameOf v) with
  | some p => (p &&& 0xFFFFF000#32) + (v &&& 0xFFF#32)
  | none => 0#32

theorem Inv.getPhysicalAddress_answer (h : Inv L s) {v : Addr} (hv : User v) :
    getPhysicalAddress direct v s.machine = .ok (s.answer v) s.machine := by
  rw [h.getPhysicalAddress_eq hv.below, h.mapped.noted v hv, Sys.answer]
  cases s.mapping (frameOf v) with
  | none => rfl
  | some p =>
      simp only [Option.map_some, Option.getD_some]
      rw [← and_frameMask_eq p]
      rfl

/-- A call leaves the observer's note on every page it does not name. -/
theorem Step.mapping_ne {d : Nat} {op : Op} {n : Nat} (hop : op.At fun w => frameOf w ≠ n)
    (hstep : Step d s op s') : s'.mapping n = s.mapping n := by
  cases hstep with
  | kmallocFull _ => rfl
  | kmallocFresh _ => rfl
  | kfreeNull => rfl
  | kfree _ _ => rfl
  | mapTable _ => exact Function.update_of_ne (Ne.symm hop) _ _
  | mapFull _ _ => rfl
  | mapFresh _ _ => exact Function.update_of_ne (Ne.symm hop) _ _
  | unmapTable _ => exact Function.update_of_ne (Ne.symm hop) _ _
  | unmapAbsent _ => exact Function.update_of_ne (Ne.symm hop) _ _

theorem Inv.tableGot_false (h : Inv L s) {v : Addr} (hv : Below v)
    (h0 : tableGot direct v false s.machine = 0#32) :
    ¬ Present (entry s.machine.mem L.directoryFrame (slot v)) := fun hp => by
  rw [tableGot_of_ok (getPageTable_present h.dir (reaches_direct _ _ _) hp)] at h0
  exact p2v_frameAddr_ne_zero (h.founded.table v hv hp) h0

theorem Inv.tableGot_true (h : Inv L s) {v : Addr} (hv : Below v)
    (h0 : tableGot direct v true s.machine = 0#32) :
    ¬ Present (entry s.machine.mem L.directoryFrame (slot v)) ∧ Full s.machine.frameBitmap := by
  by_cases hp : Present (entry s.machine.mem L.directoryFrame (slot v))
  · rw [tableGot_of_ok (getPageTable_present h.dir (reaches_direct _ _ _) hp)] at h0
    exact absurd h0 (p2v_frameAddr_ne_zero (h.founded.table v hv hp))
  · rcases fresh_or_full h.founded.zero with ⟨k, hk⟩ | hfull
    · rw [tableGot_of_ok (getPageTable_fresh h.dir (reaches_direct _ _ _) hp hk.lt_addresses
        hk.addr_ne_zero hk.addr (reachesStably_direct _ _ k) (reaches_direct _ _ _))] at h0
      exact absurd h0 (p2v_frameAddr_ne_zero hk.lt)
    · exact ⟨hp, hfull⟩

/-- **Page translation.**  After any run, `get_physical_address` answers with
the latest mapping of the page; a call answers for no page it does not name, and
where there is no table to change, nothing changes. -/
theorem translation_refines (hm : BootTables L m) (hops : ∀ op ∈ ops, op.At User)
    (hrun : run (exec direct) (start direct L m) ops = some s) :
    s.fault = none ∧
      (∀ v, User v → getPhysicalAddress direct v s.machine = .ok (s.answer v) s.machine) ∧
      (∀ v op s', User v → op.At User → (op.At fun w => frameOf w ≠ frameOf v) →
        exec direct s op = some s' →
        getPhysicalAddress direct v s'.machine = .ok (s.answer v) s'.machine) ∧
      (∀ v, User v → tableGot direct v false s.machine = 0#32 →
        unmapPage direct v s.machine = .ok () s.machine) ∧
      (∀ v p fl, User v → tableGot direct v true s.machine = 0#32 →
        (∀ f, f < totalFrames → f ∈ marked s.machine.frameBitmap) ∧
          mapPageToFrame direct v p fl s.machine = .ok () s.machine) := by
  obtain ⟨hinv, hfault⟩ := inv_run hm (fun op ho => (hops op ho).mono fun _ => User.below) hrun
  refine ⟨hfault, fun v hv => hinv.getPhysicalAddress_answer hv,
    ?_, ?_, ?_⟩
  · intro v op s' hv hop hne hexec
    have hbelow := hop.mono fun _ => User.below
    have hstep := step_of_exec_direct hinv.founded hbelow hfault hexec
    have hanswer := (hinv.step hbelow hstep).getPhysicalAddress_answer hv
    rw [Sys.answer, hstep.mapping_ne hne] at hanswer
    exact hanswer
  · intro v hv h0
    exact unmapPage_absent hinv.dir (reaches_direct _ _ _) (hinv.tableGot_false hv.below h0)
  · intro v p fl hv h0
    obtain ⟨habs, hfull⟩ := hinv.tableGot_true hv.below h0
    exact ⟨hfull.all, mapPageToFrame_full p fl hinv.dir (reaches_direct _ _ _) habs hfull.alloc⟩

theorem translation_refines_small :
    ∃ s, run (exec direct) (start direct Layout.small smallMem) testMappingOps = some s ∧
      getPhysicalAddress direct 0xD0000123#32 s.machine
        = .ok (s.answer 0xD0000123#32) s.machine := by
  have hops : ∀ op ∈ testMappingOps, op.At User := by decide
  obtain ⟨s, hs⟩ := run_exec_some direct testMappingOps (start direct Layout.small smallMem)
    testMappingOps_allowed
  obtain ⟨-, hanswer, -⟩ := translation_refines bootTables_small hops hs
  exact ⟨s, hs, hanswer _ (by decide)⟩

end DirectRuns

end RedOS
