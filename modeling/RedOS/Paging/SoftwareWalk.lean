/-
# `RedOS.Paging.SoftwareWalk` — `get_physical_address` and the processor's walk

The function reads the two entries the processor reads, through `P2V`.  Where
those addresses lead to the directory and to the table (`Visible`), it gives the
address of the processor's walk, in every state of every run; nothing else about
the tables matters.  A walk that fails and a walk that ends at physical address
0 have the same answer, `NULL`.
-/
import RedOS.Paging.Rights
import RedOS.Paging.SelfMap

namespace RedOS

open ByteMemory X86Paging Runs

section SoftwareWalk

variable {tr : Translation} {L : Layout} {m : Mem} {s : Sys} {ops : List Op} {d : Nat} {v : Addr}

/-- With direct accesses every address is visible. -/
theorem visible_direct (hinv : Inv L s) (hself : SelfMapped L s.machine.mem) (v : Addr) :
    Visible direct L.directoryFrame s.machine v := by
  refine ⟨reaches_direct _ _ _, fun hp => ⟨?_, reaches_direct _ _ _⟩⟩
  refine p2v_frameAddr_ne_zero ?_
  by_cases hv : Below v
  · exact hinv.founded.table v hv hp
  · have hslot : slot v = 1023 := by
      have := slot_lt v
      unfold Below at hv
      omega
    have hd := L.directoryFrame_bounds
    rw [tableOf, hslot, hself, frameOf_bootEntry (directoryFrame_lt L)]
    unfold totalFrames
    omega

/-- **The software walk is the processor's**, where the tables are visible; with
direct accesses they always are. -/
theorem software_walk (hm : BootTables L m) (hops : ∀ op ∈ ops, op.At Below)
    (hrun : run (exec tr) (start tr L m) ops = some s) :
    (∀ v, Visible tr L.directoryFrame s.machine v → ∃ r,
      getPhysicalAddress tr v s.machine = .ok r s.machine ∧
      (r = 0#32 ↔ walk s.machine.mem s.machine.cr3 v = none ∨
        walk s.machine.mem s.machine.cr3 v = some 0#32) ∧
      ∀ a, walk s.machine.mem s.machine.cr3 v = some a → r = a) ∧
    (tr = direct → ∀ v, Visible tr L.directoryFrame s.machine v) := by
  have hbooked := booked_run hrun
  have hcr3 : frameOf s.machine.cr3 = L.directoryFrame := by
    rw [hbooked.cr3, frameOf_frameAddr (directoryFrame_lt L)]
  refine ⟨fun v hv => ⟨_, getPhysicalAddress_visible hbooked.dir hv, ?_⟩, ?_⟩
  · have hwalk := walk_lookup s.machine.mem s.machine.cr3 v
    rw [hcr3] at hwalk
    rw [← hwalk]
    cases walk s.machine.mem s.machine.cr3 v with
    | none => simp
    | some a => simp
  · rintro rfl v
    obtain ⟨hinv, hself⟩ := selfMapped_run hm hops hrun
    exact visible_direct hinv hself v

theorem software_walk_small :
    ∃ s, run (exec direct) (start direct Layout.small smallMem) testMappingOps = some s ∧
      ∃ r, getPhysicalAddress direct 0xD0000123#32 s.machine = .ok r s.machine ∧
        ∀ a, walk s.machine.mem s.machine.cr3 0xD0000123#32 = some a → r = a := by
  obtain ⟨s, hs⟩ := run_exec_some direct testMappingOps (start direct Layout.small smallMem)
    testMappingOps_allowed
  obtain ⟨hwalk, hvisible⟩ := software_walk bootTables_small (by decide) hs
  obtain ⟨r, hr, -, ha⟩ := hwalk 0xD0000123#32 (hvisible rfl _)
  exact ⟨s, hs, r, hr, ha⟩

/-- Slot 0 holds the boot table: its pages are their own frames. -/
theorem Inv.low_lookup {L : Layout} {s : Sys} (h : Inv L s) (hd : DirectMap L s.machine.mem)
    {v : Addr} (hv : slot v = 0) :
    tableOf s.machine.mem L.directoryFrame v = L.tableFrame ∧
      Present (entry s.machine.mem L.directoryFrame (slot v)) ∧
      lookup s.machine.mem L.directoryFrame v = some (index v) := by
  have htable := h.mapped.boot_table (v := v) (Or.inl hv)
  have hp : Present (entry s.machine.mem L.directoryFrame (slot v)) := by
    rw [h.mapped.boot (slot v) (Or.inl hv)]
    exact present_bootEntry _
  have hidx := index_lt v
  refine ⟨htable, hp, ?_⟩
  rw [lookup, htable, hd.identity _ hidx, identityEntry_eq, if_pos ⟨hp, present_bootEntry _⟩,
    frameOf_bootEntry (by omega)]

/-- Where the page at `P2V(f)` is mapped to frame `g`, its words are read from `g`. -/
theorem readWord_mmu {s : Machine} {f g j : Nat} (hf : f < 0x40000)
    (h : lookup s.mem (frameOf s.cr3) (p2v (frameAddr f)) = some g) (hj : j < 1024) :
    readWord mmu (p2v (frameAddr f) + 4#32 * BitVec.ofNat 32 j) s = .ok (entry s.mem g j) s := by
  have hq : mmu s.mem s.cr3 (p2v (frameAddr f) + 4#32 * BitVec.ofNat 32 j)
      = some (entryAddr g j) := by
    rw [word_offset, window_mmu hf h (by omega), ← word_offset, frameAddr_add_entry]
  simp only [readWord, hq, entry]

/-- The directory is looked for in frame `g`, where there is no entry. -/
theorem getPhysicalAddress_moved {s : Machine} {d g : Nat} {v : Addr}
    (hdir : s.currentPageDirectory = p2v (frameAddr d)) (hd : d < 0x40000)
    (h : lookup s.mem (frameOf s.cr3) (p2v (frameAddr d)) = some g)
    (hp : ¬ Present (entry s.mem g (slot v))) : getPhysicalAddress mmu v s = .ok 0#32 s := by
  have hread : readWord mmu (s.currentPageDirectory + 4#32 * (v >>> 22)) s
      = .ok (entry s.mem g (slot v)) s := by
    rw [hdir, shift_slot]
    exact readWord_mmu hd h (slot_lt v)
  have hget : getPageTable mmu v false s = .ok 0#32 s := by
    unfold getPageTable
    rw [get_bind, bind_ok hread, if_neg hp]
    rfl
  unfold getPhysicalAddress
  rw [bind_ok hget, if_pos rfl]
  rfl

/-- The memory `init_paging` leaves is zero outside the two boot tables. -/
theorem entry_small_zero {f j : Nat} (hf : f < 2 ^ 20) (hj : j < 1024)
    (hd : f ≠ Layout.small.directoryFrame) (ht : f ≠ Layout.small.tableFrame) :
    entry (initMachine Layout.small smallMem).mem f j = 0#32 := by
  rw [initMachine, entry_setEntry _ _ (directoryFrame_lt _) (by decide) hf hj,
    if_neg fun h => hd h.1]
  rw [smallMem, entry_congr (m := fun _ => 0#8) (fun q hq => bootTablesMem_apply _ _ (hq ▸ hd)
    (hq ▸ ht)) hf hj, entry, load32]
  decide

/-- **Two ways to differ.**  Address 0 is mapped and the answer is `NULL`; and
once the page at `P2V` of the directory is mapped elsewhere, the answer is that
of another frame. -/
theorem software_walk_differs :
    (walk (start mmu Layout.small smallMem).machine.mem (start mmu Layout.small smallMem).machine.cr3
        0#32 = some 0#32 ∧
      getPhysicalAddress mmu 0#32 (start mmu Layout.small smallMem).machine =
        .ok 0#32 (start mmu Layout.small smallMem).machine) ∧
    ∃ s, run (exec mmu) (start mmu Layout.small smallMem) [.map 0xC0101000#32 0x5000#32 3#32] = some s ∧
      walk s.machine.mem s.machine.cr3 0x1000#32 = some 0x1000#32 ∧
      getPhysicalAddress mmu 0x1000#32 s.machine = .ok 0#32 s.machine := by
  have hfit : FitInv Layout.small (start mmu Layout.small smallMem) :=
    fitInv_start bootTables_small
  have hmem : (start mmu Layout.small smallMem).machine.mem
      = (initMachine Layout.small smallMem).mem := by
    rw [start_eq bootTables_small.directMap.reaches_directory]
  have hallow : (start mmu Layout.small smallMem).Allows (.map 0xC0101000#32 0x5000#32 3#32) := trivial
  obtain ⟨s, hs⟩ := exec_some mmu hallow
  have hrun : run (exec mmu) (start mmu Layout.small smallMem)
      [.map 0xC0101000#32 0x5000#32 3#32] = some s := by
    rw [run_cons, hs]
    rfl
  generalize start mmu Layout.small smallMem = s₀ at hfit hmem hs hrun ⊢
  obtain ⟨hinv, hd, hfault⟩ := hfit
  have hcr3 : frameOf s₀.machine.cr3 = Layout.small.directoryFrame := by
    rw [hinv.cr3, frameOf_frameAddr (directoryFrame_lt _)]
  refine ⟨?_, s, hrun, ?_⟩
  · -- the boot table maps page 0 to frame 0
    obtain ⟨htable, hp, hlookup⟩ := hinv.low_lookup hd (v := 0#32) rfl
    have hvisible : Visible mmu Layout.small.directoryFrame s₀.machine 0#32 := by
      refine ⟨hinv.cr3 ▸ hd.reaches_directory, ?_⟩
      intro _
      rw [htable]
      exact ⟨by decide, hinv.cr3 ▸ hd.reaches (by decide)⟩
    rw [walk_lookup, hcr3, getPhysicalAddress_visible hinv.dir hvisible, hlookup]
    exact ⟨rfl, rfl⟩
  · -- the same table holds the page at `P2V` of the directory
    obtain ⟨-, -, hlookup⟩ := hinv.low_lookup hd (v := 0x1000#32) rfl
    have hlow := fun v (hv : slot v = 768) => hinv.mapped.boot_table (v := v) (Or.inr hv)
    have hpres : ∀ v : Addr, slot v = 768 →
        Present (entry s₀.machine.mem Layout.small.directoryFrame (slot v)) := fun v hv => by
      rw [hinv.mapped.boot (slot v) (Or.inr hv)]
      exact present_bootEntry _
    have halloc : AllocFits Layout.small s₀ (.map 0xC0101000#32 0x5000#32 3#32) := fun hp =>
      absurd (hpres _ rfl) hp
    have htable : TableFits Layout.small s₀ (.map 0xC0101000#32 0x5000#32 3#32) := fun _ =>
      Or.inl (by rw [hlow _ rfl]; decide)
    have hstep := hinv.exec_mmu_step hd hfault (by decide) halloc htable hs
    have hinv' := hinv.step (by decide) hstep
    have hcr3' := hinv'.cr3
    have hdir' := hinv'.dir
    cases hstep with
    | mapFull hp _ => exact absurd (hpres _ rfl) hp
    | mapFresh hp _ => exact absurd (hpres _ rfl) hp
    | mapTable hp =>
        have htd := tableFrame_ne_directoryFrame Layout.small
        have hdlt := directoryFrame_lt Layout.small
        have htlt := tableFrame_lt Layout.small
        have hboot := hlow 0xC0101000#32 rfl
        have hmoved := lookup_setEntry (pageEntry 0x5000#32 3#32) hdlt hp (hboot ▸ htd)
        rw [hboot] at hdir' hcr3' hmoved ⊢
        have hfive : entry (setEntry s₀.machine.mem Layout.small.tableFrame (index 0xC0101000#32)
            (pageEntry 0x5000#32 3#32)) 5 0 = 0#32 := by
          rw [entry_setEntry _ _ htlt (by decide) (by decide) (by decide), if_neg (by decide), hmem,
            entry_small_zero (by decide) (by decide) (by decide) (by decide)]
        constructor
        · rw [hcr3', walk_lookup, frameOf_frameAddr hdlt, Machine.put_mem,
            lookup_setEntry_ne _ hdlt htlt (by decide) htd fun _ _ => by decide, hlookup]
          rfl
        · refine getPhysicalAddress_moved hdir' (g := 5) (by decide) ?_ ?_
          · rw [hcr3', frameOf_frameAddr hdlt]
            exact hmoved
          · rw [Machine.put_mem, show slot 0x1000#32 = 0 from rfl, hfive]
            exact not_present_zero

end SoftwareWalk

end RedOS
