/-
# `RedOS.Boot.Windows` — what the boot page tables map

Wherever the directory and the table are, as long as they are two different
pages: the first 4 MB at their own addresses, the same 4 MB at the kernel's
base, and nothing else (`boot_windows`).  The layouts of `linker.ld` are the
case `fillPageTables_at`.
-/
import RedOS.Boot.DirectMap
import RedOS.Lib.X86Tlb

namespace RedOS

open ByteMemory X86Paging X86Cpu X86Cpu.Cpu

/-- `v` is in one of the two windows. -/
def InWindow (v : Addr) : Prop :=
  v.toNat < 0x400000 ∨ (0xC0000000 ≤ v.toNat ∧ v.toNat < 0xC0400000)

instance (v : Addr) : Decidable (InWindow v) := inferInstanceAs (Decidable (_ ∨ _))

theorem inWindow_iff (v : Addr) : InWindow v ↔ slot v = 0 ∨ slot v = 768 := by
  unfold InWindow slot
  omega

theorem pageOf_bootEntry (t : Nat) {j : Nat} (hj : j < 2 ^ 20) :
    pageOf (bootEntry t) (bootEntry j) = ⟨j, true, false⟩ := by
  have hgrants : ∀ f, Grants (bootEntry f) writeBit ∧ ¬ Grants (bootEntry f) userBit := by
    intro f
    rw [Grants, Grants, bootEntry_and f (by decide), bootEntry_and f (by decide)]
    decide
  rw [pageOf, frameOf_bootEntry hj, decide_eq_true ⟨(hgrants t).1, (hgrants j).1⟩,
    decide_eq_false fun h => (hgrants t).2 h.1]

section Windows

variable {d t : Nat} (hd : d < 2 ^ 20) (ht : t < 2 ^ 20) (hne : t ≠ d) (m : Mem)
include hd ht hne

/-- In a window a page is walked to the frame with its index, writable and not
for user mode. -/
theorem pageWalk_filled (v : Addr) : pageWalk (filledMem d t m) d v =
    if InWindow v then some ⟨index v, true, false⟩ else none := by
  have hdir := entry_filled_directory hd ht m hne (slot_lt v)
  by_cases hin : InWindow v
  · rw [if_pos ((inWindow_iff v).mp hin)] at hdir
    have htab : entry (filledMem d t m) (frameOf (bootEntry t)) (index v) = bootEntry (index v) := by
      rw [frameOf_bootEntry ht]
      exact entry_filled_table hd ht m hne (index_lt v)
    have hindex := index_lt v
    rw [if_pos hin, pageWalk_of_entries hdir (present_bootEntry t) htab (present_bootEntry _), pageOf_bootEntry t (by omega)]
  · rw [if_neg fun h => hin ((inWindow_iff v).mpr h)] at hdir
    rw [if_neg hin, pageWalk_of_absent]
    rw [hdir]
    exact not_present_zero

/-- The address inside the first 4 MB, however the window is placed. -/
theorem walk_filled {v : Addr} (hin : InWindow v) :
    walk (filledMem d t m) (frameAddr d) v = some (BitVec.ofNat 32 (v.toNat % 0x400000)) := by
  have hindex : index v < 2 ^ 20 := by
    have := index_lt v
    omega
  have haddr : frameAddr (index v) + (v &&& offsetMask) = BitVec.ofNat 32 (v.toNat % 0x400000) := by
    have hframe := frameAddr_toNat hindex
    have hoff := and_offsetMask_toNat v
    unfold index at hframe ⊢
    bv_omega
  rw [walk_lookup, frameOf_frameAddr hd, ← pageWalk_frame, pageWalk_filled hd ht hne m, if_pos hin,
    ← haddr]
  rfl

theorem walk_filled_none {v : Addr} (hout : ¬ InWindow v) :
    walk (filledMem d t m) (frameAddr d) v = none := by
  rw [walk_lookup, frameOf_frameAddr hd, ← pageWalk_frame, pageWalk_filled hd ht hne m, if_neg hout]
  rfl

end Windows

/-- **Two windows.**  From any memory and any registers, paging off: the walk
through the tables that the stores leave is the identity below 4 MB, the same
4 MB at the kernel's base, present and writable there and not present elsewhere;
no byte outside the two tables has changed. -/
theorem boot_windows {bootPageDirectory bootPageTable1 : Addr}
    (hdir : bootPageDirectory.toNat % 4096 = 0) (htab : bootPageTable1.toNat % 4096 = 0)
    (hapart : ∀ q, ¬ (InBlock bootPageDirectory 4096 q ∧ InBlock bootPageTable1 4096 q))
    {c : Cpu} (hoff : c.paging = false) :
    ∃ c', fillTables bootPageDirectory bootPageTable1 c = some c' ∧
      (∀ v : Addr, v.toNat < 0x400000 → walk c'.mem bootPageDirectory v = some v) ∧
      (∀ v : Addr, 0xC0000000 ≤ v.toNat → v.toNat < 0xC0400000 →
        walk c'.mem bootPageDirectory v = some (v - 0xC0000000#32)) ∧
      (∀ v : Addr, ¬ InWindow v → walk c'.mem bootPageDirectory v = none) ∧
      (∀ v : Addr, InWindow v →
        ∃ p, pageWalk c'.mem (frameOf bootPageDirectory) v = some p ∧ p.writable = true) ∧
      ∀ q, ¬ InBlock bootPageDirectory 4096 q → ¬ InBlock bootPageTable1 4096 q →
        c'.mem q = c.mem q := by
  obtain ⟨d, hd, rfl⟩ : ∃ d, d < 2 ^ 20 ∧ frameAddr d = bootPageDirectory :=
    ⟨frameOf bootPageDirectory, frameOf_lt _, frameAddr_of_aligned hdir⟩
  obtain ⟨t, ht, rfl⟩ : ∃ t, t < 2 ^ 20 ∧ frameAddr t = bootPageTable1 :=
    ⟨frameOf bootPageTable1, frameOf_lt _, frameAddr_of_aligned htab⟩
  have hne : t ≠ d := by
    rintro rfl
    exact hapart (frameAddr t) ⟨(inBlock_frame ht _).mpr (frameOf_frameAddr ht),
      (inBlock_frame ht _).mpr (frameOf_frameAddr ht)⟩
  have hwalk : ∀ v : Addr, InWindow v → walk (filledMem d t c.mem) (frameAddr d) v
      = some (BitVec.ofNat 32 (v.toNat % 0x400000)) := fun v => walk_filled hd ht hne c.mem
  refine ⟨_, fillTables_eq d t hoff, ?_, ?_,
    fun v => walk_filled_none hd ht hne c.mem, ?_, ?_⟩
  · intro v hv
    rw [hwalk v (Or.inl hv), Nat.mod_eq_of_lt hv, BitVec.ofNat_toNat, BitVec.setWidth_eq]
  · intro v hlo hhi
    rw [hwalk v (Or.inr ⟨hlo, hhi⟩), Option.some.injEq]
    bv_omega
  · intro v hv
    rw [frameOf_frameAddr hd, pageWalk_filled hd ht hne, if_pos hv]
    exact ⟨_, rfl, rfl⟩
  · intro q hqd hqt
    exact filledMem_apply hd ht c.mem (fun h => hqd ((inBlock_frame hd q).mpr h))
      fun h => hqt ((inBlock_frame ht q).mpr h)

theorem boot_windows_small :
    let c : Cpu := ⟨0xDEAD#32, 0#32, 7#32, 0#32, 0#32, 0#32, 0#32, 0#32, 0#32, true, fun _ => 0xFF#8⟩
    ∃ c', fillTables 0x101000#32 0x102000#32 c = some c' ∧
      walk c'.mem 0x101000#32 0x300123#32 = some 0x300123#32 ∧
      walk c'.mem 0x101000#32 0xC0300123#32 = some 0x300123#32 ∧
      walk c'.mem 0x101000#32 0x400000#32 = none ∧ c'.mem 0x103000#32 = 0xFF#8 := by
  intro c
  have hapart : ∀ q, ¬ (InBlock 0x101000#32 4096 q ∧ InBlock 0x102000#32 4096 q) := by
    unfold InBlock
    intro q
    bv_omega
  have hoff : c.paging = false := by decide
  obtain ⟨c', hrun, hlow, hhigh, hout, -, hkeep⟩ :=
    boot_windows (by decide) (by decide) hapart hoff
  exact ⟨c', hrun, hlow _ (by decide), hhigh _ (by decide) (by decide), hout _ (by decide),
    hkeep _ (by decide) (by decide)⟩

end RedOS
