/-
# `RedOS.Paging.LowerHalf` — mapping user pages leaves the kernel where it is

Calls of `map_page_to_frame` and `unmap_page` between 4 MB and the kernel's
base use page tables of their own, so no store of theirs meets the directory
slot or the table behind `[0xC0000000, 0xC0400000)`.  A call may fail to clear a
new table and fault; then nothing has been stored at all.

Below 4 MB it is otherwise: `setup_page_tables` hangs one table into slots 0 and
768, and a page remapped there moves the kernel's alias of it as well
(`low_mapping_moves_kernel`).
-/
import RedOS.Paging.Mmu

namespace RedOS

open ByteMemory X86Paging Runs

/-- Above the identity-mapped 4 MB and below `KERNEL_VIRTUAL_BASE`. -/
def Lower (v : Addr) : Prop := 0x400000 ≤ v.toNat ∧ v.toNat < kernelVirtualBase.toNat

instance (v : Addr) : Decidable (Lower v) := inferInstanceAs (Decidable (_ ∧ _))

theorem Lower.slot_bounds {v : Addr} (h : Lower v) : 1 ≤ slot v ∧ slot v < 768 := by
  obtain ⟨hlo, hhi⟩ := h
  have hbase : kernelVirtualBase.toNat = 0xC0000000 := rfl
  unfold slot
  omega

theorem Lower.user {v : Addr} (h : Lower v) : User v := by
  have := h.slot_bounds
  unfold User
  omega

/-- `op` maps or unmaps a page at an address that satisfies `P`. -/
def Op.Maps (P : Addr → Prop) : Op → Prop
  | .map v _ _ => P v
  | .unmap v => P v
  | _ => False

instance (P : Addr → Prop) [DecidablePred P] : ∀ op : Op, Decidable (op.Maps P)
  | .kmalloc => isFalse id
  | .kfree _ => isFalse id
  | .map v _ _ => inferInstanceAs (Decidable (P v))
  | .unmap v => inferInstanceAs (Decidable (P v))

theorem Op.Maps.at_user {op : Op} (h : op.Maps Lower) : op.At User := by
  cases op with
  | kmalloc => exact trivial
  | kfree a => exact trivial
  | map v p fl => exact Lower.user h
  | unmap v => exact Lower.user h

/-- The invariant of such runs while no access has faulted: every table is in
the direct map, and no slot above the kernel's is in use. -/
structure LowerInv (L : Layout) (s : Sys) : Prop where
  inv : Inv L s
  low_tables : ∀ t ∈ s.tables, t < 1024
  high_empty : ∀ i, 768 < i → i < 1023 → ¬ Present (entry s.machine.mem L.directoryFrame i)

section LowerHalf

variable {L : Layout} {m : Mem} {s s' : Sys} {ops : List Op}

/-- Above the direct map nothing is reached. -/
theorem LowerInv.unreached (h : LowerInv L s) {k : Nat} (hlo : 1024 ≤ k) (hhi : k < totalFrames) :
    mmu s.machine.mem s.machine.cr3 (p2v (frameAddr k)) = none := by
  unfold totalFrames at hhi
  have hpage := page_p2v (f := k) (by omega)
  rw [mmu, walk_lookup, h.inv.cr3, frameOf_frameAddr (directoryFrame_lt L), lookup_of_absent]
  · rfl
  · refine h.high_empty _ ?_ ?_ <;>
    · rw [slot_eq, hpage]
      omega

/-- So only frames of the direct map are windowed. -/
theorem LowerInv.windowed (h : LowerInv L s) (hd : DirectMap L s.machine.mem) {k : Nat}
    (hk : k < totalFrames) (hw : Windowed s k) : k < 1024 := by
  by_contra hlo
  have hreach := (h.inv.reaches_iff hd hk).mpr hw 0 (by decide)
  rw [BitVec.add_zero, h.unreached (by omega) hk] at hreach
  cases hreach

/-- Stores into lower-half tables and slots keep the slots above 768 empty. -/
theorem LowerInv.step (h : LowerInv L s) (hd : DirectMap L s.machine.mem) {op : Op}
    (hop : op.Maps Lower) (halloc : AllocFits L s op)
    (hstep : Step L.directoryFrame s op s') : LowerInv L s' := by
  have hinv := h.inv.step (hop.at_user.mono fun _ => User.below) hstep
  have hput : ∀ {v : Addr} (x : BitVec 32), User v →
      Present (entry s.machine.mem L.directoryFrame (slot v)) → ∀ i, 768 < i → i < 1023 →
      ¬ Present (entry (setEntry s.machine.mem (tableOf s.machine.mem L.directoryFrame v)
        (index v) x) L.directoryFrame i) := by
    intro v x hv hp i hlo hhi
    obtain ⟨ht20, htd, -⟩ := h.inv.mapped.apart _ (h.inv.mapped.table_mem hv hp).1
    rw [entry_directory_put x ht20 (index_lt v) (by omega) htd]
    exact h.high_empty i hlo hhi
  cases hstep with
  | kmallocFull _ => exact absurd hop id
  | kmallocFresh _ => exact absurd hop id
  | kfreeNull => exact absurd hop id
  | kfree _ _ => exact absurd hop id
  | mapTable hp => exact ⟨hinv, h.low_tables, hput _ hop.user hp⟩
  | mapFull _ _ => exact h
  | @mapFresh v _ _ k hp hk =>
      obtain ⟨hkd, -, -⟩ := h.inv.fresh_apart hk
      refine ⟨hinv, ?_, ?_⟩
      · intro t ht
        rcases Finset.mem_insert.mp ht with rfl | ht
        · exact h.windowed hd hk.lt (halloc hp _ hk.leastFree)
        · exact h.low_tables t ht
      · intro i hlo hhi
        have hslot := hop.slot_bounds
        have hdlt := directoryFrame_lt L
        simp only [Machine.put_mem, Machine.take_mem]
        rw [entry_directory_put _ hk.lt_addresses (index_lt v) (by omega) hkd,
          entry_setEntry _ _ hdlt (slot_lt v) hdlt (by omega), if_neg (by omega),
          entry_zeroFrame _ hk.lt_addresses hdlt (by omega), if_neg (Ne.symm hkd)]
        exact h.high_empty i hlo hhi
  | unmapTable hp => exact ⟨hinv, h.low_tables, hput _ hop.user hp⟩
  | unmapAbsent _ => exact ⟨hinv, h.low_tables, h.high_empty⟩

/-- A mapping that would need a table above the direct map faults before its
first store. -/
theorem LowerInv.exec_fault (h : LowerInv L s) (hd : DirectMap L s.machine.mem)
    (hfault : s.fault = none) {v p fl : BitVec 32} {k : Nat}
    (hp : ¬ Present (entry s.machine.mem L.directoryFrame (slot v)))
    (hk : Fresh s.machine.frameBitmap k) (hlo : 1024 ≤ k) :
    exec mmu s (.map v p fl) = some { s with
      machine := { s.machine with frameBitmap := (allocFrame s.machine.frameBitmap).2 }
      fault := some (p2v (frameAddr k)) } := by
  have hdir : Reaches mmu s.machine.mem s.machine.cr3 L.directoryFrame := by
    rw [h.inv.cr3]
    exact hd.reaches_directory
  have hget := getPageTable_fault h.inv.dir hdir hp hk.addr_ne_zero hk.addr
    (h.unreached hlo hk.lt)
  have hmap : mapPageToFrame mmu v p fl s.machine = .error ⟨p2v (frameAddr k)⟩
      { s.machine with frameBitmap := (allocFrame s.machine.frameBitmap).2 } := by
    unfold mapPageToFrame
    exact bind_error hget
  have hperf : Op.perform mmu (.map v p fl) s.machine = .error ⟨p2v (frameAddr k)⟩
      { s.machine with frameBitmap := (allocFrame s.machine.frameBitmap).2 } := bind_error hmap
  rw [exec, hfault]
  simp only [if_pos (show s.Allows (.map v p fl) from trivial), hperf]

/-- What a whole run keeps, faulted or not. -/
def KernelStays (L : Layout) (s : Sys) : Prop :=
  DirectMap L s.machine.mem ∧ s.machine.cr3 = frameAddr L.directoryFrame ∧
    (s.fault = none → LowerInv L s)

/-- The table a lower-half call finds was created by an earlier one. -/
theorem LowerInv.tableFits (h : LowerInv L s) {op : Op} (hop : op.Maps Lower) :
    TableFits L s op := by
  have hwin : ∀ v, User v → Present (entry s.machine.mem L.directoryFrame (slot v)) →
      Windowed s (tableOf s.machine.mem L.directoryFrame v) := fun v hv hp =>
    Or.inl (h.low_tables _ (h.inv.mapped.table_mem hv hp).1)
  cases op with
  | kmalloc => exact absurd hop id
  | kfree a => exact absurd hop id
  | map v p fl => exact hwin v (Lower.user hop)
  | unmap v => exact hwin v (Lower.user hop)

theorem KernelStays.step (h : KernelStays L s) {op : Op} (hop : op.Maps Lower)
    (hexec : exec mmu s op = some s') : KernelStays L s' := by
  obtain ⟨hd, hcr3, hinv⟩ := h
  cases hfault : s.fault with
  | some a =>
      rw [exec, hfault] at hexec
      exact Option.some.inj hexec ▸ ⟨hd, hcr3, hinv⟩
  | none =>
      have hlower := hinv hfault
      have hbelow := hop.at_user.mono fun _ => User.below
      have hgo : AllocFits L s op → KernelStays L s' := fun halloc => by
        have hstep := hlower.inv.exec_mmu_step hd hfault hbelow halloc (hlower.tableFits hop) hexec
        exact ⟨hlower.inv.directMap_step hd hop.at_user hstep, (hlower.inv.step hbelow hstep).cr3,
          fun _ => hlower.step hd hop halloc hstep⟩
      cases op with
      | kmalloc => exact absurd hop id
      | kfree a => exact absurd hop id
      | unmap v => exact hgo fun hno => absurd hno id
      | map v p fl =>
          by_cases hbad : ¬ Present (entry s.machine.mem L.directoryFrame (slot v)) ∧
              ∃ k, Fresh s.machine.frameBitmap k ∧ 1024 ≤ k
          · obtain ⟨hp, k, hk, hlo⟩ := hbad
            rw [hlower.exec_fault hd hfault hp hk hlo] at hexec
            refine Option.some.inj hexec ▸ ⟨hd, hcr3, ?_⟩
            intro hf
            cases hf
          · refine hgo fun hp k hk => Or.inl ?_
            by_contra hlo
            exact hbad ⟨hp, k, fresh_of_leastFree hlower.inv.founded.zero hk, by omega⟩

theorem kernelStays_start (hm : BootTables L m) : KernelStays L (start mmu L m) := by
  have hr : Reaches mmu m (frameAddr L.directoryFrame) L.directoryFrame :=
    hm.directMap.reaches_directory
  have hinv := inv_start hm hr
  have hmapped := hinv.mapped
  rw [start_eq hr] at hinv hmapped ⊢
  refine ⟨directMap_init hm, rfl, fun _ => ⟨hinv, fun t ht => absurd ht (Finset.notMem_empty t),
    ?_⟩⟩
  intro i hlo hhi
  rcases hmapped.user i hhi (by omega) (by omega) with h0 | ⟨t, ht, -⟩
  · rw [h0]
    exact not_present_zero
  · exact absurd ht (Finset.notMem_empty t)

/-- **The kernel's window survives.**  Whatever is mapped and unmapped between
4 MB and the kernel's base, with whatever frames and flags, the addresses of the
kernel translate as they did at boot. -/
theorem direct_map_survives (hm : BootTables L m) (hops : ∀ op ∈ ops, op.Maps Lower)
    (hrun : run (exec mmu) (start mmu L m) ops = some s) (a : Addr)
    (hlo : 0xC0000000 ≤ a.toNat) (hhi : a.toNat < 0xC0400000) :
    walk s.machine.mem s.machine.cr3 a = some (a - 0xC0000000#32) := by
  have hstays : KernelStays L s :=
    run_invariant (P := fun _ op => op.Maps Lower) (fun _ _ _ hs hop hexec => hs.step hop hexec)
      (kernelStays_start hm) (along_of_mem _ hops) hrun
  obtain ⟨hd, hcr3, -⟩ := hstays
  rw [hcr3]
  exact hd.walk hlo hhi

theorem direct_map_survives_small :
    ∃ s, run (exec mmu) (start mmu Layout.small smallMem)
        [.map 0x00400000#32 0x00101000#32 0x7#32, .unmap 0xBFFFF000#32] = some s ∧
      walk s.machine.mem s.machine.cr3 0xC0101000#32 = some 0x00101000#32 := by
  obtain ⟨s, hs⟩ := run_exec_some mmu
    [.map 0x00400000#32 0x00101000#32 0x7#32, .unmap 0xBFFFF000#32]
    (start mmu Layout.small smallMem) (by simp [Sys.Allows])
  exact ⟨s, hs, direct_map_survives bootTables_small (by decide) hs 0xC0101000#32 (by decide)
    (by decide)⟩

/-- Below 4 MB the alias moves: mapping page `0x300000` to frame 0 makes the
kernel's `0xC0300000` reach frame 0. -/
theorem low_mapping_moves_kernel :
    ∃ s, run (exec mmu) (start mmu Layout.small smallMem) [.map 0x00300000#32 0#32 3#32] = some s ∧
      walk s.machine.mem s.machine.cr3 0xC0300000#32 = some 0#32 := by
  have hm := bootTables_small
  have hr : Reaches mmu smallMem (frameAddr Layout.small.directoryFrame)
    Layout.small.directoryFrame := hm.directMap.reaches_directory
  have hinv := inv_start hm hr
  have hstart := start_eq hr
  have hd : DirectMap Layout.small (start mmu Layout.small smallMem).machine.mem := by
    rw [hstart]
    exact directMap_init hm
  have hfault : (start mmu Layout.small smallMem).fault = none := by rw [hstart]
  have hallow : (start mmu Layout.small smallMem).Allows (.map 0x00300000#32 0#32 3#32) := trivial
  obtain ⟨s, hs⟩ := exec_some mmu hallow
  refine ⟨s, by rw [run_cons, hs]; rfl, ?_⟩
  generalize start mmu Layout.small smallMem = s₀ at hinv hd hfault hs
  -- both addresses go through the boot table, at the same index
  have hlow : tableOf s₀.machine.mem Layout.small.directoryFrame 0x00300000#32
      = Layout.small.tableFrame := hinv.mapped.boot_table (Or.inl rfl)
  have hhigh : tableOf s₀.machine.mem Layout.small.directoryFrame 0xC0300000#32
      = Layout.small.tableFrame := hinv.mapped.boot_table (Or.inr rfl)
  have hpres : ∀ v : Addr, slot v = 0 ∨ slot v = 768 →
      Present (entry s₀.machine.mem Layout.small.directoryFrame (slot v)) := fun v hv => by
    rw [hinv.mapped.boot (slot v) hv]
    exact present_bootEntry _
  have halloc : AllocFits Layout.small s₀ (.map 0x00300000#32 0#32 3#32) := fun hp =>
    absurd (hpres _ (Or.inl rfl)) hp
  have htable : TableFits Layout.small s₀ (.map 0x00300000#32 0#32 3#32) := fun _ =>
    Or.inl (by rw [hlow]; decide)
  have hstep := hinv.exec_mmu_step hd hfault (by decide) halloc htable hs
  have hcr3 := (hinv.step (by decide) hstep).cr3
  cases hstep with
  | mapFull hp _ => exact absurd (hpres _ (Or.inl rfl)) hp
  | mapFresh hp _ => exact absurd (hpres _ (Or.inl rfl)) hp
  | mapTable hp =>
      have hlookup := lookup_setEntry (pageEntry 0#32 3#32) (directoryFrame_lt _)
        (hpres 0xC0300000#32 (Or.inr rfl)) (hhigh ▸ tableFrame_ne_directoryFrame _)
      rw [hhigh, ← hlow] at hlookup
      rw [hcr3, walk_lookup, frameOf_frameAddr (directoryFrame_lt _), Machine.put_mem,
        show index 0x00300000#32 = index 0xC0300000#32 from rfl, hlookup]
      decide

end LowerHalf

end RedOS
