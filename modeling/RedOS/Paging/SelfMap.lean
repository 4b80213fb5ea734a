/-
# `RedOS.Paging.SelfMap` — the recursive slot

`init_paging` enters the directory in its own last slot, so that the walk of
`0xFFC00000 + 4096*i + 4*j` goes through the directory twice and ends at entry
`j` of the table in slot `i`, for `i = 1023` at entry `j` of the directory.  No
call below the recursive slot touches the directory's frame but to hang a table
into another slot, and so the slot stays (`Inv.selfMapped_step`,
`self_mapping`).
-/
import RedOS.Paging.Direct

namespace RedOS

open ByteMemory X86Paging Runs

/-- The recursive slot names the directory. -/
def SelfMapped (L : Layout) (m : Mem) : Prop :=
  entry m L.directoryFrame 1023 = bootEntry L.directoryFrame

section SelfMap

variable {L : Layout} {m : Mem} {s s' : Sys} {ops : List Op}

theorem selfMapped_init (L : Layout) (m : Mem) : SelfMapped L (initMachine L m).mem := by
  have hd := directoryFrame_lt L
  unfold SelfMapped
  rw [initMachine, entry_setEntry _ _ hd (by decide) hd (by decide), if_pos ⟨rfl, rfl⟩]

theorem SelfMapped.put (hself : SelfMapped L m) {t j : Nat} (x : BitVec 32) (ht : t < 2 ^ 20)
    (hj : j < 1024) (htd : t ≠ L.directoryFrame) : SelfMapped L (setEntry m t j x) :=
  (entry_directory_put x ht hj (by decide) htd).trans hself

theorem Inv.selfMapped_zero (h : Inv L s) (hself : SelfMapped L s.machine.mem) {k : Nat}
    (hk : Fresh s.machine.frameBitmap k) : SelfMapped L (zeroFrame s.machine.mem k) := by
  obtain ⟨hkd, -, -⟩ := h.fresh_apart hk
  unfold SelfMapped
  rw [entry_zeroFrame _ hk.lt_addresses (directoryFrame_lt L) (by decide), if_neg (Ne.symm hkd)]
  exact hself

theorem Inv.selfMapped_newTable (h : Inv L s) (hself : SelfMapped L s.machine.mem) {v : Addr}
    {k : Nat} (hv : Below v) (hk : Fresh s.machine.frameBitmap k) (x : BitVec 32) :
    SelfMapped L (setEntry (zeroFrame s.machine.mem k) L.directoryFrame (slot v) x) := by
  have hd := directoryFrame_lt L
  unfold SelfMapped
  rw [entry_setEntry _ _ hd (slot_lt v) hd (by decide), if_neg fun heq => Nat.ne_of_lt hv heq.2.symm]
  exact h.selfMapped_zero hself hk

/-- Calls below the recursive slot leave it. -/
theorem Inv.selfMapped_step (h : Inv L s) (hself : SelfMapped L s.machine.mem) {op : Op}
    (hop : op.At Below) (hstep : Step L.directoryFrame s op s') : SelfMapped L s'.machine.mem := by
  have hput : ∀ {v : Addr} (x : BitVec 32), Below v →
      Present (entry s.machine.mem L.directoryFrame (slot v)) →
      SelfMapped L (setEntry s.machine.mem (tableOf s.machine.mem L.directoryFrame v) (index v) x) :=
    fun x hv hp =>
      hself.put x (tableOf_lt _ _ _) (index_lt _) (h.mapped.table_ne_directory hv hp)
  cases hstep with
  | kmallocFull _ => exact hself
  | kmallocFresh hk => exact h.selfMapped_zero hself hk
  | kfreeNull => exact hself
  | kfree _ _ => exact hself
  | mapTable hp => exact hput _ hop hp
  | mapFull _ _ => exact hself
  | @mapFresh v _ _ k hp hk =>
      obtain ⟨hkd, -, -⟩ := h.fresh_apart hk
      exact (h.selfMapped_newTable hself hop hk _).put _ hk.lt_addresses (index_lt v) hkd
  | unmapTable hp => exact hput _ hop hp
  | unmapAbsent _ => exact hself

/-- **Every run below the recursive slot keeps it.** -/
theorem selfMapped_run (hm : BootTables L m) (hops : ∀ op ∈ ops, op.At Below)
    (hrun : run (exec direct) (start direct L m) ops = some s) :
    Inv L s ∧ SelfMapped L s.machine.mem := by
  have h : (Inv L s ∧ s.fault = none) ∧ SelfMapped L s.machine.mem := by
    refine run_invariant (I := fun s => (Inv L s ∧ s.fault = none) ∧ SelfMapped L s.machine.mem)
      (P := fun _ op => op.At Below) (?_)
      ⟨start_direct hm, ?_⟩ (along_of_mem _ hops) hrun
    · intro t op t' ht hop hexec
      obtain ⟨⟨hinv, hfault⟩, hself⟩ := ht
      have hstep := step_of_exec_direct hinv.founded hop hfault hexec
      exact ⟨hinv.exec_direct hfault hop hexec, hinv.selfMapped_step hself hop hstep⟩
    · rw [start_eq (reaches_direct _ _ _)]
      exact selfMapped_init L m
  exact ⟨h.1.1, h.2⟩

/-! ## The window on the tables -/

/-- `0xFFC00000 + 4096*i + 4*j` -/
def tableEntryAddr (i j : Nat) : Addr := 0xFFC00000#32 + BitVec.ofNat 32 (4096 * i + 4 * j)

theorem tableEntryAddr_parts {i j : Nat} (hi : i < 1024) (hj : j < 1024) :
    slot (tableEntryAddr i j) = 1023 ∧ index (tableEntryAddr i j) = i ∧
      tableEntryAddr i j &&& offsetMask = BitVec.ofNat 32 (4 * j) := by
  have hv : (tableEntryAddr i j).toNat = 0xFFC00000 + 4096 * i + 4 * j := by
    unfold tableEntryAddr
    bv_omega
  refine ⟨?_, ?_, ?_⟩
  · unfold slot
    omega
  · unfold index
    omega
  · apply BitVec.eq_of_toNat_eq
    rw [and_offsetMask_toNat, hv, BitVec.toNat_ofNat]
    omega

/-- The walk of such an address, through the directory twice. -/
theorem SelfMapped.walk (hself : SelfMapped L m) {i j : Nat} (hi : i < 1024) (hj : j < 1024) :
    walk m (frameAddr L.directoryFrame) (tableEntryAddr i j) =
      if Present (entry m L.directoryFrame i) then
        some (entryAddr (frameOf (entry m L.directoryFrame i)) j)
      else none := by
  obtain ⟨hslot, hindex, hoff⟩ := tableEntryAddr_parts hi hj
  have hd := directoryFrame_lt L
  have hp : Present (entry m L.directoryFrame (slot (tableEntryAddr i j))) := by
    rw [hslot, hself]
    exact present_bootEntry _
  have htable : tableOf m L.directoryFrame (tableEntryAddr i j) = L.directoryFrame := by
    rw [tableOf, hslot, hself, frameOf_bootEntry hd]
  rw [walk_lookup, frameOf_frameAddr hd, lookup_recursive hp htable, hindex, hoff]
  split
  · exact congrArg some (BitVec.ofNat_add _ _).symm
  · rfl

/-- **The self-mapping exposes the page tables**, in every state of a run below
the recursive slot. -/
theorem self_mapping (hm : BootTables L m) (hops : ∀ op ∈ ops, op.At Below)
    (hrun : run (exec direct) (start direct L m) ops = some s) {i j : Nat} (hi : i < 1024)
    (hj : j < 1024) :
    (walk s.machine.mem s.machine.cr3 (tableEntryAddr i j) =
      if Present (entry s.machine.mem (frameOf s.machine.cr3) i) then
        some (entryAddr (frameOf (entry s.machine.mem (frameOf s.machine.cr3) i)) j)
      else none) ∧
    walk s.machine.mem s.machine.cr3 (tableEntryAddr 1023 j) =
      some (entryAddr (frameOf s.machine.cr3) j) := by
  obtain ⟨hinv, hself⟩ := selfMapped_run hm hops hrun
  have hd := directoryFrame_lt L
  rw [hinv.cr3, frameOf_frameAddr hd]
  refine ⟨hself.walk hi hj, ?_⟩
  rw [hself.walk (by decide) hj, hself, if_pos (present_bootEntry _), frameOf_bootEntry hd]

theorem self_mapping_small :
    ∃ s, run (exec direct) (start direct Layout.small smallMem) testMappingOps = some s ∧
      (walk s.machine.mem s.machine.cr3 (tableEntryAddr 832 0) =
        if Present (entry s.machine.mem (frameOf s.machine.cr3) 832) then
          some (entryAddr (frameOf (entry s.machine.mem (frameOf s.machine.cr3) 832)) 0)
        else none) ∧
      walk s.machine.mem s.machine.cr3 (tableEntryAddr 1023 0) =
        some (entryAddr (frameOf s.machine.cr3) 0) := by
  obtain ⟨s, hs⟩ := run_exec_some direct testMappingOps (start direct Layout.small smallMem)
    testMappingOps_allowed
  exact ⟨s, hs, self_mapping bootTables_small (by decide) hs (by decide) (by decide)⟩

end SelfMap

end RedOS
