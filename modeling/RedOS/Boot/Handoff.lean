/-
# `RedOS.Boot.Handoff` — from the boot loader to `validate_boot`

`multibootEntry` follows `multiboot_entry` and `higher_half` up to the moment
`validate_boot` is entered.  The boot loader's EAX and EBX are saved in ESI and
EDI; the print routines leave both registers alone, but `setup_page_tables` uses
EDI for its two fills, so what is pushed as the information address is the end
of the boot page table:

    multibootEntry_run   the arguments are EAX and boot_page_table1 + 4096
    handoff_iff          so they are EAX and EBX exactly when EBX was that
-/
import RedOS.Boot.DirectMap

namespace RedOS

open ByteMemory X86Paging X86Cpu X86Cpu.Cpu

/-- `higher_half`, up to the first instruction of `validate_boot`. -/
def higherHalf {L : Layout} (lbl : Labels L) (fuel : Nat) (c : Cpu) : Option Cpu := do
  -- Set up virtual stack
  let c := { c with esp := c.esp + kernelVirtualBase }
  -- Store multiboot info for kernel
  let c ← push c.edi c
  let c ← push c.esi c
  let c := { c with ebx := lbl.higherHalfMessage }
  let c ← call lbl.afterVirtMessage (earlyVirtPrintString fuel) c
  -- Reset EFLAGS
  let c ← push 0#32 c
  let (flags, c) ← pop c
  let c := { c with df := flags.getLsbD 10 }
  -- Validate MultiBoot 2 information
  push lbl.afterValidate c

/-- `multiboot_entry` -/
def multibootEntry {L : Layout} (lbl : Labels L) (fuel : Nat) (c : Cpu) : Option Cpu := do
  -- Initialize the stack pointer (physical address)
  let c := { c with esp := BitVec.ofNat 32 L.bootStack }
  -- Save multiboot info
  let c := { c with edi := c.ebx }
  let c := { c with esi := c.eax }
  -- Print a message to indicate we're starting
  let c := { c with ebx := lbl.bootMessage }
  let c ← call lbl.afterBootMessage (earlyPrintString fuel) c
  -- Set up the page tables
  let c ← call lbl.afterSetup (setupPageTables L lbl fuel) c
  -- Load the page directory
  let c := { c with ecx := BitVec.ofNat 32 L.bootPageDirectory }
  let c := { c with cr3 := c.ecx }
  -- Enable paging
  let c := { c with ecx := c.cr0 }
  let c := { c with ecx := c.ecx ||| 0x80000000#32 }
  let c := { c with cr0 := c.ecx }
  -- Jump to higher half kernel
  let c := { c with ecx := lbl.higherHalf }
  higherHalf lbl fuel c

/-- The two arguments of a C function on entry: above the return address. -/
def cArguments (c : Cpu) : Option (BitVec 32 × BitVec 32) := do
  let magic ← c.loadWord (c.esp + 4#32)
  let addr ← c.loadWord (c.esp + 8#32)
  pure (magic, addr)

/-- A string of `n` bytes at `p`, terminated. -/
structure Asciz (m : Mem) (p : Addr) (n : Nat) : Prop where
  body : ∀ i, i < n → m (p + BitVec.ofNat 32 i) ≠ 0#8
  stop : m (p + BitVec.ofNat 32 n) = 0#8

/-- What the boot loader leaves.  Paging is off and the image is loaded; the two
messages printed before paging is on are read at their link addresses, where
some string has to end within the cells the VGA memory has. -/
structure Handover {L : Layout} (lbl : Labels L) (c : Cpu) : Prop where
  paging : c.paging = false
  bootMessage : ∃ n, n < 0x4000 ∧ Asciz c.mem lbl.bootMessage n
  pageTablesSetup : ∃ n, n < 0x4000 ∧ Asciz c.mem lbl.pageTablesSetup n
  higherHalfMessage : ∀ i, i < higherHalfMessageText.length →
    c.mem (lbl.higherHalfMessage - kernelVirtualBase + BitVec.ofNat 32 i)
      = higherHalfMessageText.getD i 0#8

/-! ## The stack -/

/-- The `k`-th word below the top of the boot stack. -/
def stackWord (L : Layout) (k : Nat) : Addr := BitVec.ofNat 32 (L.bootStack - 4 * k)

section Stack

variable {L : Layout}

theorem bootStack_frames (L : Layout) :
    L.bootStack = 4096 * L.directoryFrame + 2 * 4096 + 0x4000 ∧ L.bootStack ≤ 0x400000 ∧
      256 ≤ L.directoryFrame ∧ L.tableFrame = L.directoryFrame + 1 := by
  have h1 := L.directoryFrame_mul
  refine ⟨?_, L.bootStack_le, L.directoryFrame_bounds.1, L.tableFrame_eq⟩
  unfold Layout.bootStack Layout.bootPageTable1 stackSize
  omega

theorem stackWord_toNat {k : Nat} (hk : k ≤ 8) : (stackWord L k).toNat = L.bootStack - 4 * k := by
  have := bootStack_frames L
  unfold stackWord
  rw [BitVec.toNat_ofNat, Nat.mod_eq_of_lt (by omega)]

theorem stackWord_sub {k : Nat} (hk : k < 8) : stackWord L k - 4#32 = stackWord L (k + 1) := by
  have h1 := stackWord_toNat (L := L) (k := k) (by omega)
  have h2 := stackWord_toNat (L := L) (k := k + 1) (by omega)
  have := bootStack_frames L
  bv_omega

theorem stackWord_aligned {k : Nat} (hk : k ≤ 8) : (stackWord L k).toNat % 4 = 0 := by
  rw [stackWord_toNat hk]
  have := bootStack_frames L
  omega

/-- The stack is below the image's virtual part, above the tables and the VGA
memory. -/
theorem stackWord_block {k : Nat} {q : Addr} (hk : k ≤ 8) (hk0 : 0 < k)
    (hq : InBlock (stackWord L k) 4 q) :
    L.tableFrame + 1 ≤ frameOf q ∧ 0x100000 ≤ q.toNat ∧ q.toNat < L.bootStack := by
  have h1 := stackWord_toNat (L := L) hk
  have := bootStack_frames L
  unfold InBlock at hq
  have hlt : q.toNat = (stackWord L k).toNat + (q - stackWord L k).toNat := by bv_omega
  unfold frameOf
  omega

theorem stackWord_not_vga {k : Nat} {q : Addr} (hk : k ≤ 8) (hk0 : 0 < k)
    (hq : InBlock (stackWord L k) 4 q) : ¬ InVga q := fun hvga => by
  have h1 := (stackWord_block hk hk0 hq).2.1
  have h2 := (inVga_bounds hvga).2
  omega

/-- The words do not overlap. -/
theorem stackWord_disjoint {i j : Nat} {q : Addr} (hi : i ≤ 8) (hj : j ≤ 8) (hne : i ≠ j)
    (hq : InBlock (stackWord L i) 4 q) : ¬ InBlock (stackWord L j) 4 q := by
  have h1 := stackWord_toNat (L := L) hi
  have h2 := stackWord_toNat (L := L) hj
  have := bootStack_frames L
  unfold InBlock at hq ⊢
  bv_omega

/-- A frame of the boot tables holds neither stack nor VGA memory. -/
theorem table_apart {q : Addr} (hq : frameOf q = L.directoryFrame ∨ frameOf q = L.tableFrame) :
    ¬ InVga q ∧ ∀ k, 0 < k → k ≤ 8 → ¬ InBlock (stackWord L k) 4 q := by
  have := bootStack_frames L
  constructor
  · intro hvga
    have := inVga_bounds hvga
    unfold frameOf at hq
    omega
  · intro k hk0 hk hin
    have := (stackWord_block hk hk0 hin).1
    omega

/-- Above the stack is neither stack, table nor VGA memory. -/
theorem above_apart {q : Addr} (hq : L.bootStack ≤ q.toNat) :
    ¬ InVga q ∧ frameOf q ≠ L.directoryFrame ∧ frameOf q ≠ L.tableFrame ∧
      ∀ k, 0 < k → k ≤ 8 → ¬ InBlock (stackWord L k) 4 q := by
  have := bootStack_frames L
  refine ⟨?_, ?_, ?_, ?_⟩
  · intro hvga
    have := inVga_bounds hvga
    omega
  · unfold frameOf
    omega
  · unfold frameOf
    omega
  · intro k hk0 hk hin
    have := (stackWord_block hk hk0 hin).2.2
    omega

end Stack

/-! ## With paging off -/

section Off

variable {L : Layout} {lbl : Labels L} {c : Cpu}

/-- The strings are linked far above everything the boot code stores to. -/
theorem inText_above {off i : Nat} (hoff : L.textStart + off ≤ 0x400000) (hi : i ≤ 0x4000) :
    L.bootStack ≤ (Labels.inText L off + BitVec.ofNat 32 i).toNat := by
  have := bootStack_frames L
  unfold Labels.inText
  rw [BitVec.toNat_add, BitVec.toNat_ofNat, BitVec.toNat_ofNat]
  omega

/-- With paging off a message above the stack is printable as it stands. -/
theorem printable_off (ra : Addr) {k n : Nat} (hk : k < 8) (hpaging : c.paging = false)
    (hmsg : Asciz c.mem c.ebx n) (hn : n < 0x4000)
    (hfar : ∀ i, i ≤ n → L.bootStack ≤ (c.ebx + BitVec.ofNat 32 i).toNat) :
    Printable (atLoop ra (stackWord L (k + 1)) vgaBufferPhysical c) vgaBufferPhysical c.ebx n := by
  have htr : ∀ c', Printed (atLoop ra (stackWord L (k + 1)) vgaBufferPhysical c) c' →
      ∀ v, c'.translate v = some v := fun c' hc' =>
    translate_off ((paging_congr hc'.cr0).trans ((paging_congr rfl).trans hpaging))
  have hmem : ∀ i, i ≤ n → (atLoop ra (stackWord L (k + 1)) vgaBufferPhysical c).mem
      (c.ebx + BitVec.ofNat 32 i) = c.mem (c.ebx + BitVec.ofNat 32 i) := fun i hi =>
    store32_apply_ne c.mem ra ((above_apart (hfar i hi)).2.2.2 (k + 1) (by omega) (by omega))
  refine ⟨Nat.le_of_lt hn, fun c' hc' i _ => htr c' hc' _, fun c' hc' j _ => htr c' hc' _,
    ?_, ?_, fun i hi => (above_apart (hfar i hi)).1⟩
  · intro i hi
    rw [hmem i (by omega)]
    exact hmsg.body i hi
  · rw [hmem n (Nat.le_refl n)]
    exact hmsg.stop

/-- `call early_print_string` with ESP at the `k`-th stack word. -/
theorem earlyCall_off (fuel : Nat) (ra : Addr) {k n : Nat} (hk : k < 8) (hpaging : c.paging = false)
    (hesp : c.esp = stackWord L k) (hmsg : Asciz c.mem c.ebx n) (hn : n < 0x4000)
    (hfar : ∀ i, i ≤ n → L.bootStack ≤ (c.ebx + BitVec.ofNat 32 i).toNat) (hfuel : n < fuel) :
    ∃ c', call ra (earlyPrintString fuel) c = some c' ∧ Called (stackWord L (k + 1)) c c' := by
  have hsub : c.esp - 4#32 = stackWord L (k + 1) := by rw [hesp, stackWord_sub hk]
  have hp := printable_off ra hk hpaging hmsg hn hfar
  rw [earlyPrintString_eq]
  refine printCall_run 0x0F#8 (by rw [hsub]; exact translate_off hpaging _)
    (fun q hq => stackWord_not_vga (by omega) (by omega) hq) hp (fun c' hc' => ?_) hfuel
  rw [hsub]
  exact translate_off ((paging_congr hc'.cr0).trans ((paging_congr rfl).trans hpaging)) _

/-- The state in which `setup_page_tables` prints its message: the tables are in
`m`, and the fills have used EAX, ECX, EDI and the direction flag. -/
def tablesDone {L : Layout} (lbl : Labels L) (m : Mem) (eax ecx edi : BitVec 32) (df : Bool)
    (c : Cpu) : Cpu :=
  { c with
    mem := m
    eax := eax
    ecx := ecx
    edi := edi
    df := df
    ebx := lbl.pageTablesSetup }

theorem setupPageTables_eq (lbl : Labels L) (fuel : Nat) (hpaging : c.paging = false) :
    ∃ m eax ecx edi df, DirectMap L m ∧
      (∀ q, frameOf q ≠ L.directoryFrame → frameOf q ≠ L.tableFrame → m q = c.mem q) ∧
      edi = frameAddr L.tableFrame + 4096#32 ∧
      setupPageTables L lbl fuel c
        = call lbl.afterTablesMessage (earlyPrintString fuel)
            (tablesDone lbl m eax ecx edi df c) := by
  refine ⟨bootTablesMem L c.mem, bootEntry L.tableFrame, 0#32, frameAddr L.tableFrame + 4096#32,
    false, (bootTables_fill L c.mem).directMap, fun q hd ht => bootTablesMem_apply L c.mem hd ht,
    rfl, ?_⟩
  unfold setupPageTables tablesDone
  rw [fillPageTables_eq L hpaging, Option.bind_eq_bind, Option.bind_some]

/-- `setup_page_tables` with ESP at the first stack word: the direct map is in
place, EDI is lost. -/
theorem setupPageTables_run (lbl : Labels L) (fuel : Nat) {n : Nat} (hpaging : c.paging = false)
    (hesp : c.esp = stackWord L 1) (hmsg : Asciz c.mem lbl.pageTablesSetup n) (hn : n < 0x4000)
    (hfuel : n < fuel) :
    ∃ c', setupPageTables L lbl fuel c = some c' ∧ c'.esi = c.esi ∧
      c'.edi = BitVec.ofNat 32 (L.bootPageTable1 + 4096) ∧ c'.esp = c.esp ∧ c'.cr0 = c.cr0 ∧
      DirectMap L c'.mem ∧ load32 c'.mem (stackWord L 1) = load32 c.mem (stackWord L 1) ∧
      ∀ q, L.bootStack ≤ q.toNat → c'.mem q = c.mem q := by
  obtain ⟨m, eax, ecx, edi, df, hdirect, hmem, hedi, heq⟩ :=
    setupPageTables_eq lbl fuel hpaging
  have hfar : ∀ i, i ≤ n → L.bootStack ≤ (lbl.pageTablesSetup + BitVec.ofNat 32 i).toNat := by
    intro i hi
    have := lbl.strings_low
    exact inText_above (by omega) (by omega)
  have habove : ∀ q, L.bootStack ≤ q.toNat → m q = c.mem q := fun q hq => by
    obtain ⟨-, hd, ht, -⟩ := above_apart hq
    exact hmem q hd ht
  have hmsg' : Asciz m lbl.pageTablesSetup n := by
    constructor
    · intro i hi
      rw [habove _ (hfar i (by omega))]
      exact hmsg.body i hi
    · rw [habove _ (hfar n (Nat.le_refl n))]
      exact hmsg.stop
  obtain ⟨c', hcall, hc'⟩ := earlyCall_off fuel lbl.afterTablesMessage (k := 1)
    (c := tablesDone lbl m eax ecx edi df c) (by decide) ((paging_congr rfl).trans hpaging) hesp hmsg' hn hfar
    hfuel
  rw [heq]
  refine ⟨c', hcall, hc'.esi, ?_, hc'.esp, hc'.cr0, hdirect.of_agree ?_,
    load32_congr ?_, ?_⟩
  · rw [hc'.edi, tablesDone, hedi, ← frameAddr_table]
    apply BitVec.eq_of_toNat_eq
    simp only [BitVec.toNat_add, BitVec.toNat_ofNat]
    omega
  · intro q hq
    obtain ⟨hvga, hstack⟩ := table_apart hq
    exact hc'.mem q hvga (hstack 2 (by decide) (by decide))
  · intro q hq
    obtain ⟨hframe, -, -⟩ := stackWord_block (by decide) (by decide) hq
    have htf := L.tableFrame_eq
    rw [hc'.mem q (stackWord_not_vga (by decide) (by decide) hq)
      (stackWord_disjoint (by decide) (by decide) (by decide) hq)]
    exact hmem q (by omega) (by omega)
  · intro q hq
    obtain ⟨hvga, -, -, hstack⟩ := above_apart hq
    exact (hc'.mem q hvga (hstack 2 (by decide) (by decide))).trans (habove q hq)

/-- `call setup_page_tables` from the top of the stack. -/
theorem setupCall_run (lbl : Labels L) (fuel : Nat) {n : Nat} (hpaging : c.paging = false) (hesp : c.esp = stackWord L 0)
    (hmsg : Asciz c.mem lbl.pageTablesSetup n) (hn : n < 0x4000) (hfuel : n < fuel) :
    ∃ c', call lbl.afterSetup (setupPageTables L lbl fuel) c = some c' ∧
      c'.esi = c.esi ∧ c'.edi = BitVec.ofNat 32 (L.bootPageTable1 + 4096) ∧ c'.esp = c.esp ∧
      c'.cr0 = c.cr0 ∧ DirectMap L c'.mem ∧ ∀ q, L.bootStack ≤ q.toNat → c'.mem q = c.mem q := by
  have hsub : c.esp - 4#32 = stackWord L 1 := by rw [hesp, stackWord_sub (by decide)]
  -- the memory with the return address on the stack
  obtain ⟨m, hm⟩ : ∃ m, m = store32 c.mem (stackWord L 1) lbl.afterSetup := ⟨_, rfl⟩
  have hpush : ∀ q, L.bootStack ≤ q.toNat → m q = c.mem q := fun q hq => by
    rw [hm]
    exact store32_apply_ne c.mem _ ((above_apart hq).2.2.2 1 (by decide) (by decide))
  have hword : load32 m (stackWord L 1) = lbl.afterSetup := by
    rw [hm]
    exact load32_store32 _ _ _
  have hfar : ∀ i, i ≤ n → L.bootStack ≤ (lbl.pageTablesSetup + BitVec.ofNat 32 i).toNat := by
    intro i hi
    have := lbl.strings_low
    exact inText_above (by omega) (by omega)
  have hmsg' : Asciz m lbl.pageTablesSetup n := by
    constructor
    · intro i hi
      rw [hpush _ (hfar i (by omega))]
      exact hmsg.body i hi
    · rw [hpush _ (hfar n (Nat.le_refl n))]
      exact hmsg.stop
  obtain ⟨c', hrun, hesi, hedi, hesp', hcr0, hdirect, hret, habove⟩ := setupPageTables_run
    lbl fuel (c := { c with esp := c.esp - 4#32, mem := m })
    ((paging_congr rfl).trans hpaging) hsub hmsg' hn hfuel
  have hoff' : c'.paging = false := (paging_congr hcr0).trans ((paging_congr rfl).trans hpaging)
  rw [hm] at hrun
  have hpush' : c.translate (c.esp - 4#32) = some (stackWord L 1) := by
    rw [hsub]
    exact translate_off hpaging _
  refine ⟨_, call_run hpush' hrun hesp' ?_ (hret.trans hword), hesi, hedi, rfl,
    hcr0, hdirect, fun q hq => (habove q hq).trans (hpush q hq)⟩
  rw [hsub]
  exact translate_off hoff' _

end Off

/-! ## With paging on -/

/-- Paging is on, through the boot directory, and the direct map is in place. -/
structure Higher (L : Layout) (c : Cpu) : Prop where
  paging : c.paging = true
  cr3 : c.cr3 = frameAddr L.directoryFrame
  direct : DirectMap L c.mem

section Higher

variable {L : Layout} {lbl : Labels L} {c : Cpu}

theorem Higher.translate (h : Higher L c) {p : Addr} (hp : p.toNat < 0x400000) :
    c.translate (p + kernelVirtualBase) = some p := by
  have hv : (p + kernelVirtualBase).toNat = 0xC0000000 + p.toNat := by
    unfold kernelVirtualBase
    bv_omega
  have hback : p + kernelVirtualBase - 0xC0000000#32 = p := by
    unfold kernelVirtualBase
    bv_omega
  rw [Cpu.translate, if_pos h.paging, h.cr3, h.direct.walk (by omega) (by omega), hback]

theorem add_swap (a b x : Addr) : a + b + x = a + x + b := by
  rw [BitVec.add_assoc, BitVec.add_comm b x, BitVec.add_assoc]

/-- The registers that decide translation, and the two tables. -/
theorem Higher.of_agree (h : Higher L c) {c' : Cpu} (hcr0 : c'.cr0 = c.cr0) (hcr3 : c'.cr3 = c.cr3)
    (hmem : ∀ q, frameOf q = L.directoryFrame ∨ frameOf q = L.tableFrame → c'.mem q = c.mem q) :
    Higher L c' :=
  ⟨(paging_congr hcr0).trans h.paging, hcr3.trans h.cr3, h.direct.of_agree hmem⟩

theorem stackWord_low {k : Nat} (hk : k ≤ 8) (hk0 : 0 < k) : (stackWord L k).toNat < 0x400000 := by
  rw [stackWord_toNat hk]
  have := bootStack_frames L
  omega

theorem virtual_sub {k : Nat} (hk : k < 8) :
    stackWord L k + kernelVirtualBase - 4#32 = stackWord L (k + 1) + kernelVirtualBase := by
  rw [← stackWord_sub hk]
  bv_omega

theorem virtual_add {k : Nat} (hk : k < 8) :
    stackWord L (k + 1) + kernelVirtualBase + 4#32 = stackWord L k + kernelVirtualBase := by
  rw [← virtual_sub hk, BitVec.sub_add_cancel]

/-- `pushl` onto the virtual stack. -/
theorem Higher.push_run (h : Higher L c) {k : Nat} (hk : k < 8)
    (hesp : c.esp = stackWord L k + kernelVirtualBase) (x : BitVec 32) :
    ∃ c', push x c = some c' ∧ Higher L c' ∧ c'.esp = stackWord L (k + 1) + kernelVirtualBase ∧
      c'.esi = c.esi ∧ c'.edi = c.edi ∧ c'.mem = store32 c.mem (stackWord L (k + 1)) x := by
  have hsub : c.esp - 4#32 = stackWord L (k + 1) + kernelVirtualBase := by
    rw [hesp, virtual_sub hk]
  obtain ⟨esp, hesp'⟩ : ∃ esp, esp = c.esp - 4#32 := ⟨_, rfl⟩
  obtain ⟨m, hm⟩ : ∃ m, m = store32 c.mem (stackWord L (k + 1)) x := ⟨_, rfl⟩
  have ht : Cpu.translate { c with esp := esp } esp = some (stackWord L (k + 1)) := by
    have hsame : Cpu.translate { c with esp := esp } esp = c.translate esp :=
      translate_congr rfl rfl rfl esp
    rw [hsame, hesp', hsub]
    exact h.translate (stackWord_low (by omega) (by omega))
  have hpush : push x c = some { c with esp := esp, mem := m } := by
    rw [push, ← hesp', storeWord, ht, Option.map_some, hm]
  refine ⟨_, hpush, h.of_agree rfl rfl ?_, hesp'.trans hsub, rfl, rfl, hm⟩
  intro q hq
  show m q = c.mem q
  rw [hm]
  exact store32_apply_ne c.mem x ((table_apart hq).2 (k + 1) (by omega) (by omega))

/-- `popl` from the virtual stack. -/
theorem Higher.pop_run (h : Higher L c) {k : Nat} (hk : k ≤ 8) (hk0 : 0 < k)
    (hesp : c.esp = stackWord L k + kernelVirtualBase) :
    pop c = some (load32 c.mem (stackWord L k), { c with esp := c.esp + 4#32 }) := by
  have ht : c.translate c.esp = some (stackWord L k) := by
    rw [hesp]
    exact h.translate (stackWord_low hk hk0)
  simp only [pop, loadWord, ht, Option.map_some, Option.bind_eq_bind, Option.bind_some,
    Option.pure_def]

/-- `call early_virt_print_string` of a message in the low part of the image. -/
theorem Higher.printCall (h : Higher L c) (fuel : Nat) (ra : Addr) {k n : Nat} {src : Addr} (hk : k < 8)
    (hesp : c.esp = stackWord L k + kernelVirtualBase) (hebx : c.ebx = src + kernelVirtualBase)
    (hmsg : Asciz c.mem src n) (hn : n < 0x4000)
    (hlow : ∀ i, i ≤ n → L.bootStack ≤ (src + BitVec.ofNat 32 i).toNat ∧
      (src + BitVec.ofNat 32 i).toNat < 0x400000) (hfuel : n < fuel) :
    ∃ c', call ra (earlyVirtPrintString fuel) c = some c' ∧ Called (stackWord L (k + 1)) c c' ∧
      Higher L c' := by
  have hsub : c.esp - 4#32 = stackWord L (k + 1) + kernelVirtualBase := by
    rw [hesp, virtual_sub hk]
  have hsp := stackWord_low (L := L) (k := k + 1) (by omega) (by omega)
  have hloop : ∀ c', Printed (atLoop ra (stackWord L (k + 1))
      (vgaBufferPhysical + kernelVirtualBase) c) c' → Higher L c' := fun c' hc' => by
    refine h.of_agree hc'.cr0 hc'.cr3 ?_
    intro q hq
    obtain ⟨hvga, hstack⟩ := table_apart hq
    exact (hc'.mem q hvga).trans
      (store32_apply_ne c.mem ra (hstack (k + 1) (by omega) (by omega)))
  have hmem : ∀ i, i ≤ n → (atLoop ra (stackWord L (k + 1))
      (vgaBufferPhysical + kernelVirtualBase) c).mem (src + BitVec.ofNat 32 i)
        = c.mem (src + BitVec.ofNat 32 i) := fun i hi =>
    store32_apply_ne c.mem ra ((above_apart (hlow i hi).1).2.2.2 (k + 1) (by omega) (by omega))
  have hp : Printable (atLoop ra (stackWord L (k + 1)) (vgaBufferPhysical + kernelVirtualBase) c)
      (vgaBufferPhysical + kernelVirtualBase) src n := by
    refine ⟨Nat.le_of_lt hn, ?_, ?_, ?_, ?_,
      fun i hi => (above_apart (hlow i hi).1).1⟩
    · intro c' hc' i hi
      show c'.translate (c.ebx + BitVec.ofNat 32 i) = _
      rw [hebx, add_swap]
      exact (hloop c' hc').translate (hlow i hi).2
    · intro c' hc' j hj
      rw [add_swap]
      refine (hloop c' hc').translate ?_
      have := (inVga_bounds (inVga_cell hj)).2
      omega
    · intro i hi
      rw [hmem i (by omega)]
      exact hmsg.body i hi
    · rw [hmem n (Nat.le_refl n)]
      exact hmsg.stop
  rw [earlyVirtPrintString_eq]
  obtain ⟨c', hcall, hc'⟩ := printCall_run 0x0E#8 (by rw [hsub]; exact h.translate hsp)
    (fun q hq => stackWord_not_vga (by omega) (by omega) hq) hp
    (fun c' hc' => by rw [hsub]; exact (hloop c' hc').translate hsp) hfuel
  refine ⟨c', hcall, hc', h.of_agree hc'.cr0 hc'.cr3 ?_⟩
  intro q hq
  obtain ⟨hvga, hstack⟩ := table_apart hq
  exact hc'.mem q hvga (hstack (k + 1) (by omega) (by omega))

theorem load_stackWord_store {i j : Nat} (m : Mem) (x : BitVec 32) (hi : i ≤ 8) (hj : j ≤ 8)
    (hne : i ≠ j) : load32 (store32 m (stackWord L j) x) (stackWord L i)
      = load32 m (stackWord L i) := by
  refine load32_store32_ne m x (stackWord_aligned hj) (stackWord_aligned hi) fun heq => hne ?_
  have h1 := stackWord_toNat (L := L) hi
  have h2 := stackWord_toNat (L := L) hj
  have := bootStack_frames L
  rw [heq, h2] at h1
  omega

theorem Called.load_stackWord {i j : Nat} {c' : Cpu} (h : Called (stackWord L j) c c') (hi : i ≤ 8)
    (hi0 : 0 < i) (hj : j ≤ 8) (hne : i ≠ j) :
    load32 c'.mem (stackWord L i) = load32 c.mem (stackWord L i) :=
  load32_congr fun q hq =>
    h.mem q (stackWord_not_vga hi hi0 hq) (stackWord_disjoint hi hj hne hq)

theorem higherHalfMessage_asciz :
    (∀ i, i < 63 → higherHalfMessageText.getD i 0#8 ≠ 0#8) ∧
      higherHalfMessageText.getD 63 0#8 = 0#8 ∧ higherHalfMessageText.length = 64 := by decide

/-- `higher_half` pushes EDI and ESI as the arguments. -/
theorem higherHalf_run (lbl : Labels L) {fuel : Nat} (h : Higher L c) (hesp : c.esp = stackWord L 0)
    (hmsg : ∀ i, i < higherHalfMessageText.length →
      c.mem (lbl.higherHalfMessage - kernelVirtualBase + BitVec.ofNat 32 i)
        = higherHalfMessageText.getD i 0#8) (hfuel : 0x4000 ≤ fuel) :
    ∃ c', higherHalf lbl fuel c = some c' ∧ cArguments c' = some (c.esi, c.edi) := by
  obtain ⟨hbody, hstop, hlen⟩ := higherHalfMessage_asciz
  have hlow := lbl.strings_low
  have htext := L.textStart_eq
  have hstack := bootStack_frames L
  have hsrc : ∀ i, i ≤ 63 → (lbl.higherHalfMessage - kernelVirtualBase + BitVec.ofNat 32 i).toNat
      = L.textStart + lbl.strings + bootMessageText.length + pageTablesSetupText.length + i := by
    intro i hi
    unfold Labels.higherHalfMessage Labels.inText kernelVirtualBase
    bv_omega
  obtain ⟨src, hsrc'⟩ : ∃ src, src = lbl.higherHalfMessage - kernelVirtualBase := ⟨_, rfl⟩
  have hebx : lbl.higherHalfMessage = src + kernelVirtualBase := by
    rw [hsrc']
    bv_omega
  rw [← hsrc'] at hsrc hmsg
  have habove : ∀ i, i ≤ 63 → L.bootStack ≤ (src + BitVec.ofNat 32 i).toNat ∧
      (src + BitVec.ofNat 32 i).toNat < 0x400000 := fun i hi => by
    rw [hsrc i hi]
    omega
  -- the two arguments
  obtain ⟨c₁, hpush₁, h₁, hesp₁, hesi₁, hedi₁, hmem₁⟩ := Higher.push_run (k := 0)
    (c := { c with esp := c.esp + kernelVirtualBase }) (h.of_agree rfl rfl fun _ _ => rfl) (by decide)
    (by rw [hesp]) c.edi
  obtain ⟨c₂, hpush₂, h₂, hesp₂, -, -, hmem₂⟩ := h₁.push_run (k := 1) (by decide) hesp₁ c₁.esi
  have hkeep₂ : ∀ q, L.bootStack ≤ q.toNat → c₂.mem q = c.mem q := fun q hq => by
    have hstack := (above_apart hq).2.2.2
    rw [hmem₂, store32_apply_ne _ _ (hstack 2 (by decide) (by decide)), hmem₁]
    exact store32_apply_ne c.mem _ (hstack 1 (by decide) (by decide))
  -- the message
  have hasciz : Asciz c₂.mem src 63 := by
    constructor
    · intro i hi
      rw [hkeep₂ _ (habove i (by omega)).1, hmsg i (by omega)]
      exact hbody i hi
    · rw [hkeep₂ _ (habove 63 (by omega)).1, hmsg 63 (by omega)]
      exact hstop
  obtain ⟨c₃, hcall₃, hc₃, h₃⟩ := Higher.printCall (c := { c₂ with ebx := src + kernelVirtualBase })
    (h₂.of_agree rfl rfl fun _ _ => rfl) fuel lbl.afterVirtMessage (k := 2) (n := 63) (by decide) hesp₂ rfl hasciz (by decide) habove (by omega)
  have hesp₃ : c₃.esp = stackWord L 2 + kernelVirtualBase := hc₃.esp.trans hesp₂
  -- the flags, and the return address
  obtain ⟨c₄, hpush₄, h₄, hesp₄, -, -, hmem₄⟩ := h₃.push_run (k := 2) (by decide) hesp₃ 0#32
  have hpop := h₄.pop_run (k := 3) (by decide) (by decide) hesp₄
  have hesp₅ : c₄.esp + 4#32 = stackWord L 2 + kernelVirtualBase := by
    rw [hesp₄, virtual_add (by decide)]
  obtain ⟨df, hdf⟩ : ∃ df, df = (load32 c₄.mem (stackWord L 3)).getLsbD 10 := ⟨_, rfl⟩
  obtain ⟨c₅, hpush₅, h₅, hesp₆, -, -, hmem₅⟩ := Higher.push_run (k := 2)
    (c := { c₄ with esp := c₄.esp + 4#32, df := df }) (h₄.of_agree rfl rfl fun _ _ => rfl)
    (by decide) hesp₅ lbl.afterValidate
  have hrun : higherHalf lbl fuel c = some c₅ := by
    simp only [higherHalf, Option.bind_eq_bind, hpush₁, Option.bind_some, hpush₂, hebx, hcall₃,
      hpush₄, hpop, ← hdf, hpush₅]
  -- the argument words are the ones pushed
  have hword : ∀ i, 0 < i → i ≤ 2 →
      load32 c₅.mem (stackWord L i) = load32 c₂.mem (stackWord L i) := fun i hi0 hi => by
    rw [hmem₅, load_stackWord_store _ _ (by omega) (by omega) (by omega)]
    show load32 c₄.mem _ = _
    rw [hmem₄, load_stackWord_store _ _ (by omega) (by omega) (by omega)]
    exact hc₃.load_stackWord (by omega) hi0 (by omega) (by omega)
  have hmagic : load32 c₅.mem (stackWord L 2) = c.esi := by
    rw [hword 2 (by decide) (by decide), hmem₂, load32_store32, hesi₁]
  have haddr : load32 c₅.mem (stackWord L 1) = c.edi := by
    rw [hword 1 (by decide) (by decide), hmem₂,
      load_stackWord_store _ _ (by decide) (by decide) (by decide), hmem₁, load32_store32]
  have hat : ∀ i, 0 < i → i ≤ 2 → c₅.loadWord (stackWord L i + kernelVirtualBase)
      = some (load32 c₅.mem (stackWord L i)) := fun i hi0 hi => by
    rw [loadWord, h₅.translate (stackWord_low (by omega) hi0), Option.map_some]
  have h4 : c₅.esp + 4#32 = stackWord L 2 + kernelVirtualBase := by
    rw [hesp₆, virtual_add (by decide)]
  have h8 : c₅.esp + 8#32 = stackWord L 1 + kernelVirtualBase := by
    rw [show (8#32 : Addr) = 4#32 + 4#32 from rfl, ← BitVec.add_assoc, h4, virtual_add (by decide)]
  refine ⟨c₅, hrun, ?_⟩
  simp only [cArguments, h4, h8, hat 2 (by decide) (by decide), hat 1 (by decide) (by decide),
    hmagic, haddr, Option.bind_eq_bind, Option.bind_some, Option.pure_def]

end Higher

/-! ## The whole way -/

section Entry

variable {L : Layout} {lbl : Labels L} {c : Cpu}

/-- A string above the stack survives what changes only below. -/
theorem Asciz.of_above {m m' : Mem} {p : Addr} {n : Nat} (h : Asciz m p n)
    (hfar : ∀ i, i ≤ n → L.bootStack ≤ (p + BitVec.ofNat 32 i).toNat)
    (hsame : ∀ q, L.bootStack ≤ q.toNat → m' q = m q) : Asciz m' p n := by
  constructor
  · intro i hi
    rw [hsame _ (hfar i (by omega))]
    exact h.body i hi
  · rw [hsame _ (hfar n (Nat.le_refl n))]
    exact h.stop

/-- **The hand-off as it is.**  `validate_boot` receives EAX, and the end of the
boot page table. -/
theorem multibootEntry_run {fuel : Nat} (h : Handover lbl c) (hfuel : 0x4000 ≤ fuel) :
    ∃ c', multibootEntry lbl fuel c = some c' ∧
      cArguments c' = some (c.eax, BitVec.ofNat 32 (L.bootPageTable1 + 4096)) := by
  have hlow := lbl.strings_low
  have htext := L.textStart_eq
  have hstack := bootStack_frames L
  obtain ⟨n₁, hn₁, hmsg₁⟩ := h.bootMessage
  obtain ⟨n₂, hn₂, hmsg₂⟩ := h.pageTablesSetup
  have hfar₁ : ∀ i, i ≤ n₁ → L.bootStack ≤ (lbl.bootMessage + BitVec.ofNat 32 i).toNat :=
    fun i hi => inText_above (by omega) (by omega)
  have hfar₂ : ∀ i, i ≤ n₂ → L.bootStack ≤ (lbl.pageTablesSetup + BitVec.ofNat 32 i).toNat :=
    fun i hi => inText_above (by omega) (by omega)
  obtain ⟨top, htop'⟩ : ∃ x, x = BitVec.ofNat 32 L.bootStack := ⟨_, rfl⟩
  obtain ⟨msg, hmsg⟩ : ∃ x, x = lbl.bootMessage := ⟨_, rfl⟩
  have htop : top = stackWord L 0 := by
    rw [htop', stackWord, Nat.mul_zero, Nat.sub_zero]
  rw [← hmsg] at hmsg₁ hfar₁
  obtain ⟨c₁, hcall₁, hc₁⟩ := earlyCall_off fuel lbl.afterBootMessage (L := L) (k := 0)
    (n := n₁) (c := { c with esp := top, edi := c.ebx, esi := c.eax, ebx := msg })
    (by decide) ((paging_congr rfl).trans h.paging) htop hmsg₁ hn₁ hfar₁ (by omega)
  have hkeep₁ : ∀ q, L.bootStack ≤ q.toNat → c₁.mem q = c.mem q := fun q hq => by
    obtain ⟨hvga, -, -, hwords⟩ := above_apart hq
    exact hc₁.mem q hvga (hwords 1 (by decide) (by decide))
  obtain ⟨c₂, hcall₂, hesi₂, hedi₂, hesp₂, hcr0₂, hdirect₂, hkeep₂⟩ := setupCall_run lbl fuel
    (n := n₂) (c := c₁) ((paging_congr hc₁.cr0).trans ((paging_congr rfl).trans h.paging)) (hc₁.esp.trans htop)
    (hmsg₂.of_above hfar₂ hkeep₁) hn₂ (by omega)
  -- the paging switch
  obtain ⟨cr3, hcr3⟩ : ∃ x, x = BitVec.ofNat 32 L.bootPageDirectory := ⟨_, rfl⟩
  obtain ⟨cr0, hcr0⟩ : ∃ x, x = c₂.cr0 ||| 0x80000000#32 := ⟨_, rfl⟩
  have hon : cr0.getLsbD 31 = true := by
    rw [hcr0, BitVec.getLsbD_or, show (0x80000000#32 : BitVec 32).getLsbD 31 = true by decide,
      Bool.or_true]
  have hhigher : Higher L { c₂ with ecx := lbl.higherHalf, cr3 := cr3, cr0 := cr0 } := by
    refine ⟨?_, hcr3.trans (frameAddr_directory L), hdirect₂⟩
    rw [Cpu.paging]
    exact hon
  have hmsg₃ : ∀ i, i < higherHalfMessageText.length →
      c₂.mem (lbl.higherHalfMessage - kernelVirtualBase + BitVec.ofNat 32 i)
        = higherHalfMessageText.getD i 0#8 := fun i hi => by
    have hlen := higherHalfMessage_asciz.2.2
    have hfar : L.bootStack
        ≤ (lbl.higherHalfMessage - kernelVirtualBase + BitVec.ofNat 32 i).toNat := by
      unfold Labels.higherHalfMessage Labels.inText kernelVirtualBase
      bv_omega
    rw [hkeep₂ _ hfar, hkeep₁ _ hfar]
    exact h.higherHalfMessage i hi
  obtain ⟨c', hrun, hargs⟩ := higherHalf_run lbl hhigher
    (hesp₂.trans (hc₁.esp.trans htop)) hmsg₃ hfuel
  refine ⟨c', ?_, ?_⟩
  · simp only [multibootEntry, ← htop', ← hmsg, Option.bind_eq_bind, hcall₁, Option.bind_some,
      hcall₂, ← hcr3, ← hcr0]
    exact hrun
  · rw [hargs]
    show some (c₂.esi, c₂.edi) = _
    rw [hesi₂, hedi₂, hc₁.esi]

/-- **The hand-off** delivers EAX and EBX exactly when EBX was the address that
the fill of the boot page table ends at. -/
theorem handoff_iff {fuel : Nat} (h : Handover lbl c) (hfuel : 0x4000 ≤ fuel) :
    (∃ c', multibootEntry lbl fuel c = some c' ∧ cArguments c' = some (c.eax, c.ebx)) ↔
      c.ebx = BitVec.ofNat 32 (L.bootPageTable1 + 4096) := by
  obtain ⟨c', hrun, hargs⟩ := multibootEntry_run h hfuel
  constructor
  · rintro ⟨c'', hrun', hargs'⟩
    obtain rfl := Option.some.inj (hrun.symm.trans hrun')
    rw [hargs, Option.some.injEq, Prod.mk.injEq] at hargs'
    exact hargs'.2.symm
  · intro hebx
    refine ⟨c', hrun, ?_⟩
    rw [hargs, hebx]

end Entry

/-! ## A boot -/

def smallLabels : Labels Layout.small where
  strings := 0
  strings_in_text := by decide
  strings_low := by decide
  higherHalf := 0xC0107100#32
  afterBootMessage := 0x100040#32
  afterSetup := 0x100045#32
  afterTablesMessage := 0x100080#32
  afterVirtMessage := 0xC0107120#32
  afterValidate := 0xC0107130#32

/-- The string of `higher_half` loaded, every other byte zero. -/
def smallImage : Mem := fun q =>
  higherHalfMessageText.getD (q - (smallLabels.higherHalfMessage - kernelVirtualBase)).toNat 0#8

/-- A Multiboot 2 boot loader with its information at `ebx`. -/
def smallBoot (ebx : BitVec 32) : Cpu where
  eax := 0x36D76289#32
  ebx := ebx
  ecx := 0#32
  edx := 0#32
  esi := 0#32
  edi := 0#32
  esp := 0#32
  cr0 := 0x11#32
  cr3 := 0#32
  df := false
  mem := smallImage

theorem smallBoot_mem (ebx : BitVec 32) : (smallBoot ebx).mem = smallImage := by rw [smallBoot]

theorem handover_small (ebx : BitVec 32) : Handover smallLabels (smallBoot ebx) where
  paging := by
    rw [Cpu.paging]
    exact (by decide : (0x11#32 : BitVec 32).getLsbD 31 = false)
  bootMessage := by
    refine ⟨0, by decide, fun i hi => absurd hi (Nat.not_lt_zero i), ?_⟩
    rw [smallBoot_mem]
    decide
  pageTablesSetup := by
    refine ⟨0, by decide, fun i hi => absurd hi (Nat.not_lt_zero i), ?_⟩
    rw [smallBoot_mem]
    decide
  higherHalfMessage := by
    intro i hi
    have hlen := higherHalfMessage_asciz.2.2
    have hoff : ∀ p : Addr, (p + BitVec.ofNat 32 i - p).toNat = i := fun p => by bv_omega
    rw [smallBoot_mem, smallImage, hoff]

/-- With its information at `0x10000`, the boot loader's address is replaced by
`0x103000`. -/
theorem info_address_lost :
    ∃ c', multibootEntry smallLabels 0x4000 (smallBoot 0x10000#32) = some c' ∧
      cArguments c' = some (0x36D76289#32, 0x103000#32) ∧
      cArguments c' ≠ some ((smallBoot 0x10000#32).eax, (smallBoot 0x10000#32).ebx) := by
  obtain ⟨c', hrun, hargs⟩ := multibootEntry_run (handover_small 0x10000#32) (Nat.le_refl _)
  have haddr : BitVec.ofNat 32 (Layout.small.bootPageTable1 + 4096) = 0x103000#32 := by decide
  rw [haddr] at hargs
  refine ⟨c', hrun, hargs, ?_⟩
  rw [hargs]
  show ¬ some (_, 0x103000#32) = some (_, 0x10000#32)
  simp

theorem handoff_iff_small :
    ∃ c', multibootEntry smallLabels 0x4000 (smallBoot 0x103000#32) = some c' ∧
      cArguments c' = some (0x36D76289#32, 0x103000#32) :=
  (handoff_iff (handover_small 0x103000#32) (Nat.le_refl _)).mpr (by decide)

end RedOS
