/-
# `RedOS.Boot.Setup` — `setup_page_tables` of `boot.S`

The assembly is followed instruction by instruction on the register file of
`RedOS.Lib.X86Cpu`.  `setup_page_tables` clears the page directory with
`rep stosl`, fills `boot_page_table1` with the identity map of the first 4 MB,
hangs that one table into slots 0 and 768 (`KERNEL_PAGE_NUMBER`) of the
directory and prints a message.

    fillPageTables_eq    what the stores do to registers and memory, exactly
    bootTables_fill      the two tables they leave, from any memory
    bootTablesMem_apply  and every byte outside them as it was
-/
import RedOS.Boot.EarlyPrint

namespace RedOS

open ByteMemory X86Paging X86Cpu X86Cpu.Cpu

/-! ## `setup_page_tables` -/

/-- `.asciz`: the bytes of the text and a terminating NUL. -/
def asciz (text : String) : List (BitVec 8) :=
  text.toList.map (fun c => BitVec.ofNat 8 c.toNat) ++ [0#8]

def bootMessageText : List (BitVec 8) :=
  asciz "RedOS: Booting in physical mode, setting up paging..."

def pageTablesSetupText : List (BitVec 8) :=
  asciz "RedOS: Page tables set up, enabling paging..."

def higherHalfMessageText : List (BitVec 8) :=
  asciz "RedOS: Successfully jumped to higher half kernel at 0xC0000000!"

/-- What linking `boot.S` into a layout decides: where in `.text` its strings
are, one after the other, and the addresses its calls return to. -/
structure Labels (L : Layout) where
  /-- Offset of `boot_message` in `.text`. -/
  strings : Nat
  strings_in_text : strings + bootMessageText.length + pageTablesSetupText.length
    + higherHalfMessageText.length ≤ L.text
  /-- The strings are in the 4 MB that will be mapped. -/
  strings_low : L.textStart + strings + bootMessageText.length + pageTablesSetupText.length
    + higherHalfMessageText.length ≤ 0x400000
  higherHalf : Addr
  /-- after `call early_print_string` in `multiboot_entry` -/
  afterBootMessage : Addr
  /-- after `call setup_page_tables` -/
  afterSetup : Addr
  /-- after `call early_print_string` in `setup_page_tables` -/
  afterTablesMessage : Addr
  /-- after `call early_virt_print_string` -/
  afterVirtMessage : Addr
  /-- after `call validate_boot` -/
  afterValidate : Addr

namespace Labels

variable {L : Layout} (lbl : Labels L)

/-- The link address of the byte `off` of `.text`; `.text` is linked at its load
address plus the kernel's base. -/
def inText (L : Layout) (off : Nat) : Addr := BitVec.ofNat 32 (0xC0000000 + L.textStart + off)

def bootMessage : Addr := inText L lbl.strings

def pageTablesSetup : Addr := inText L (lbl.strings + bootMessageText.length)

def higherHalfMessage : Addr :=
  inText L (lbl.strings + bootMessageText.length + pageTablesSetupText.length)

end Labels

/-- Label `1:` of `setup_page_tables` without the `loop` that closes it. -/
def fillBody (c : Cpu) : Option Cpu := do
  let c ← stosl c
  pure { c with eax := c.eax + 4096#32 }

/-- `setup_page_tables` up to the message. -/
def fillPageTables (L : Layout) (c : Cpu) : Option Cpu := do
  -- Clear page directory
  let c := { c with edi := BitVec.ofNat 32 L.bootPageDirectory }
  let c := { c with eax := 0#32 }
  let c := { c with ecx := 1024#32 }
  let c := { c with df := false }
  let c ← repStosl c
  -- First, identity map the first 4MB
  let c := { c with edi := BitVec.ofNat 32 L.bootPageTable1 }
  let c := { c with eax := 3#32 }
  let c := { c with ecx := 1024#32 }
  let c ← loop fillBody c
  -- Map the page table at both 0x00000000 and 0xC0000000
  let c := { c with eax := BitVec.ofNat 32 (L.bootPageTable1 + 3) }
  let c ← c.storeWord (BitVec.ofNat 32 L.bootPageDirectory) c.eax
  c.storeWord (BitVec.ofNat 32 (L.bootPageDirectory + 768 * 4)) c.eax

/-- The same instructions for tables at any two addresses. -/
def fillTables (bootPageDirectory bootPageTable1 : Addr) (c : Cpu) : Option Cpu := do
  let c := { c with edi := bootPageDirectory }
  let c := { c with eax := 0#32 }
  let c := { c with ecx := 1024#32 }
  let c := { c with df := false }
  let c ← repStosl c
  let c := { c with edi := bootPageTable1 }
  let c := { c with eax := 3#32 }
  let c := { c with ecx := 1024#32 }
  let c ← loop fillBody c
  let c := { c with eax := bootPageTable1 + 3#32 }
  let c ← c.storeWord bootPageDirectory c.eax
  c.storeWord (bootPageDirectory + 768#32 * 4#32) c.eax

theorem fillPageTables_at (L : Layout) (c : Cpu) :
    fillPageTables L c =
      fillTables (BitVec.ofNat 32 L.bootPageDirectory) (BitVec.ofNat 32 L.bootPageTable1) c := by
  unfold fillPageTables fillTables
  rw [BitVec.ofNat_add, BitVec.ofNat_add]
  rfl

/-- `setup_page_tables` -/
def setupPageTables (L : Layout) (lbl : Labels L) (fuel : Nat) (c : Cpu) : Option Cpu := do
  let c ← fillPageTables L c
  let c := { c with ebx := lbl.pageTablesSetup }
  call lbl.afterTablesMessage (earlyPrintString fuel) c

/-! ## What the stores leave -/

/-- Entry `j` of the boot page table: frame `j`, present and writable. -/
def identityEntry (j : Nat) : BitVec 32 := BitVec.ofNat 32 (4096 * j + 3)

/-- The directory entry that refers to frame `f`, present and writable. -/
def bootEntry (f : Nat) : BitVec 32 := BitVec.ofNat 32 (4096 * f + 3)

/-- The memory after the stores of `setup_page_tables`. -/
def bootTablesMem (L : Layout) (m : Mem) : Mem :=
  setEntry (setEntry
    (storeWords (storeWords m (frameAddr L.directoryFrame) (fun _ => 0#32) 1024)
      (frameAddr L.tableFrame) identityEntry 1024)
    L.directoryFrame 0 (bootEntry L.tableFrame)) L.directoryFrame 768 (bootEntry L.tableFrame)

/-- The same for a directory in frame `d` and a table in frame `t`. -/
def filledMem (d t : Nat) (m : Mem) : Mem :=
  setEntry (setEntry
    (storeWords (storeWords m (frameAddr d) (fun _ => 0#32) 1024) (frameAddr t) identityEntry 1024)
    d 0 (bootEntry t)) d 768 (bootEntry t)

theorem frameAddr_directory (L : Layout) :
    BitVec.ofNat 32 L.bootPageDirectory = frameAddr L.directoryFrame := by
  rw [frameAddr, L.directoryFrame_mul]

theorem frameAddr_table (L : Layout) :
    BitVec.ofNat 32 L.bootPageTable1 = frameAddr L.tableFrame := by
  rw [frameAddr, L.tableFrame_eq, Layout.bootPageTable1, ← L.directoryFrame_mul, Nat.mul_add]

theorem entryAddr_zero (f : Nat) : frameAddr f = entryAddr f 0 := by
  rw [frameAddr, entryAddr, Nat.mul_zero, Nat.add_zero]

theorem bootEntry_eq (f : Nat) : frameAddr f + 3#32 = bootEntry f := (BitVec.ofNat_add ..).symm

/-- The identity-map loop, `k` rounds in: the invariant of `loopN_count`. -/
def fillInv (c₀ : Cpu) (k : Nat) (c : Cpu) : Prop :=
  c = { c₀ with
    mem := storeWords c₀.mem c₀.edi identityEntry k
    edi := c₀.edi + BitVec.ofNat 32 (4 * k)
    eax := identityEntry k
    ecx := c₀.ecx - BitVec.ofNat 32 k }

theorem fillBody_inv {c₀ c : Cpu} {k : Nat} (h : c₀.paging = false) (hdf : c₀.df = false)
    (hi : fillInv c₀ k c) :
    ∃ c', fillBody c = some c' ∧ c'.ecx = c.ecx ∧
      fillInv c₀ (k + 1) { c' with ecx := c.ecx - 1#32 } := by
  subst hi
  unfold fillBody
  rw [stosl_off]
  · refine ⟨_, rfl, rfl, ?_⟩
    simp only [fillInv, storeWords, identityEntry, Cpu.mk.injEq, true_and, and_true]
    refine ⟨?_, ?_, ?_⟩ <;>
    · apply BitVec.eq_of_toNat_eq
      simp only [BitVec.toNat_ofNat, BitVec.toNat_add, BitVec.toNat_sub]
      omega
  · exact h
  · exact hdf

theorem fillLoop_eq {c : Cpu} (h : c.paging = false) (hdf : c.df = false)
    (hecx : c.ecx = 1024#32) (heax : c.eax = 3#32) :
    loop fillBody c = some { c with
      mem := storeWords c.mem c.edi identityEntry 1024
      edi := c.edi + 4096#32
      eax := identityEntry 1024
      ecx := 0#32 } := by
  have h0 : fillInv c 0 c := by
    cases c
    simp only at heax
    simp [fillInv, storeWords, heax, identityEntry]
  obtain ⟨c', hrun, hinv⟩ := loopN_count (N := 1024) (by decide)
    (fun k c' _ hi => fillBody_inv h hdf hi) 1023 (2 ^ 32) (k := 0) (by decide) rfl h0
    (by rw [hecx])
  unfold loop
  rw [hrun, hinv]
  simp only [Option.some.injEq, Cpu.mk.injEq, true_and, and_true, hecx]
  decide

theorem fillTables_eq (d t : Nat) {c : Cpu} (h : c.paging = false) :
    fillTables (frameAddr d) (frameAddr t) c = some { c with
      mem := filledMem d t c.mem
      edi := frameAddr t + 4096#32
      eax := bootEntry t
      ecx := 0#32
      df := false } := by
  have hcr0 : c.cr0.getLsbD 31 = false := h
  have h768 : frameAddr d + 768#32 * 4#32 = entryAddr d 768 := by
    rw [BitVec.mul_comm]
    exact frameAddr_add_entry d 768
  unfold fillTables repStosl
  simp only [Option.bind_eq_bind]
  rw [repStoslN_off]
  · simp only [Option.bind_some]
    rw [fillLoop_eq]
    · simp only [Option.bind_some]
      rw [storeWord_off]
      · simp only [Option.bind_some]
        rw [storeWord_off]
        · simp only [Option.some.injEq, Cpu.mk.injEq, true_and, h768, bootEntry_eq]
          rw [entryAddr_zero]
          rfl
        · exact hcr0
      · exact hcr0
    · exact hcr0
    · rfl
    · rfl
    · rfl
  · exact hcr0
  · rfl

/-- The registers and the memory after `setup_page_tables`' stores. -/
theorem fillPageTables_eq (L : Layout) {c : Cpu} (h : c.paging = false) :
    fillPageTables L c = some { c with
      mem := bootTablesMem L c.mem
      edi := frameAddr L.tableFrame + 4096#32
      eax := bootEntry L.tableFrame
      ecx := 0#32
      df := false } := by
  rw [fillPageTables_at, frameAddr_directory, frameAddr_table]
  exact fillTables_eq _ _ h

/-! ## The tables as entries -/

theorem entry_storeWords (m : Mem) {f f' j' : Nat} (x : Nat → BitVec 32) (hf : f < 2 ^ 20)
    (hf' : f' < 2 ^ 20) (hj' : j' < 1024) : ∀ {n : Nat}, n ≤ 1024 →
    entry (storeWords m (frameAddr f) x n) f' j'
      = if f' = f ∧ j' < n then x j' else entry m f' j'
  | 0, _ => by simp [storeWords]
  | n + 1, hn => by
      have haddr : frameAddr f + BitVec.ofNat 32 (4 * n) = entryAddr f n := by
        rw [← frameAddr_add_entry]
        congr 1
        apply BitVec.eq_of_toNat_eq
        simp only [BitVec.toNat_ofNat, BitVec.toNat_mul]
        omega
      rw [storeWords, haddr]
      refine (entry_setEntry _ (x n) hf (by omega) hf' hj').trans ?_
      rw [entry_storeWords m x hf hf' hj' (by omega)]
      by_cases hfj : f' = f
      · subst hfj
        by_cases hjn : j' = n
        · subst hjn
          simp
        · have : j' < n + 1 ↔ j' < n := by omega
          simp [hjn, this]
      · simp [hfj]

/-- The stores stay in their frame. -/
theorem storeWords_apply_ne (m : Mem) {f : Nat} (x : Nat → BitVec 32) (hf : f < 2 ^ 20) {q : Addr}
    (hq : frameOf q ≠ f) : ∀ {n : Nat}, n ≤ 1024 → storeWords m (frameAddr f) x n q = m q
  | 0, _ => rfl
  | n + 1, hn => by
      rw [storeWords, store32_apply_ne, storeWords_apply_ne m x hf hq (by omega)]
      intro hin
      have hfa := frameAddr_toNat hf
      apply hq
      unfold InBlock at hin
      unfold frameOf
      bv_omega

section Filled

variable {d t : Nat} (hd : d < 2 ^ 20) (ht : t < 2 ^ 20) (m : Mem)
include hd ht

theorem entry_filled_directory (hne : t ≠ d) {i : Nat} (hi : i < 1024) :
    entry (filledMem d t m) d i = if i = 0 ∨ i = 768 then bootEntry t else 0#32 := by
  unfold filledMem
  rw [entry_setEntry _ _ hd (by decide) hd hi, entry_setEntry _ _ hd (by decide) hd hi,
    entry_storeWords _ _ ht hd hi (Nat.le_refl _), entry_storeWords _ _ hd hd hi (Nat.le_refl _)]
  by_cases h0 : i = 0
  · simp [h0]
  · by_cases h768 : i = 768
    · simp [h768]
    · simp [h0, h768, Ne.symm hne, hi]

theorem entry_filled_table (hne : t ≠ d) {j : Nat} (hj : j < 1024) :
    entry (filledMem d t m) t j = identityEntry j := by
  unfold filledMem
  rw [entry_setEntry _ _ hd (by decide) ht hj, entry_setEntry _ _ hd (by decide) ht hj,
    entry_storeWords _ _ ht ht hj (Nat.le_refl _)]
  simp [hne, hj]

/-- Every byte outside the two frames is as it was. -/
theorem filledMem_apply {q : Addr} (hqd : frameOf q ≠ d) (hqt : frameOf q ≠ t) :
    filledMem d t m q = m q := by
  unfold filledMem
  rw [setEntry_apply_ne _ _ hd (by decide) hqd, setEntry_apply_ne _ _ hd (by decide) hqd,
    storeWords_apply_ne _ _ ht hqt (Nat.le_refl _), storeWords_apply_ne _ _ hd hqd (Nat.le_refl _)]

end Filled

/-- The tables `setup_page_tables` builds: the directory has one table in slots
0 and 768 and nothing else; the table is the identity. -/
structure BootTables (L : Layout) (m : Mem) : Prop where
  directory : ∀ i, i < 1024 → entry m L.directoryFrame i =
    if i = 0 ∨ i = 768 then bootEntry L.tableFrame else 0#32
  table : ∀ j, j < 1024 → entry m L.tableFrame j = identityEntry j

theorem tables_bounds (L : Layout) :
    L.directoryFrame < 2 ^ 20 ∧ L.tableFrame < 2 ^ 20 ∧ L.tableFrame ≠ L.directoryFrame := by
  have hbounds := L.directoryFrame_bounds
  have htable := L.tableFrame_eq
  omega

/-- The stores build the tables from any memory. -/
theorem bootTables_fill (L : Layout) (m : Mem) : BootTables L (bootTablesMem L m) := by
  obtain ⟨hd, ht, hne⟩ := tables_bounds L
  exact ⟨fun i hi => entry_filled_directory hd ht m hne hi,
    fun j hj => entry_filled_table hd ht m hne hj⟩

theorem bootTablesMem_apply (L : Layout) (m : Mem) {q : Addr} (hd : frameOf q ≠ L.directoryFrame)
    (ht : frameOf q ≠ L.tableFrame) : bootTablesMem L m q = m q :=
  filledMem_apply (tables_bounds L).1 (tables_bounds L).2.1 m hd ht

end RedOS
