/-
# `RedOS.Boot.Layout` — the addresses `linker.ld` gives the kernel

The linker script walks a location counter over the sections.  Only the sizes
of the sections vary from build to build, so a layout is those sizes together
with the two facts a linked and booting image has: the bootstrap sections lie
in the 4 MB that `boot_page_table1` maps, and the virtual addresses fit in 32
bits.  Every address below is the counter's value, computed as the script
computes it:

    0x100000                       kernel_physical_start, .bootstrap_text
    ALIGN(4K)                      .bootstrap_data: boot_page_directory, boot_page_table1
    ALIGN(4K)                      .bootstrap_bss:  16 KB of stack, boot_stack at its end
    . += KERNEL_VIRTUAL_BASE
    ALIGN(4K)                      .text, .rodata, .data, .bss
    . - KERNEL_VIRTUAL_BASE        kernel_physical_end

The sizes of `.bootstrap_data` (two pages) and `.bootstrap_bss` (`STACK_SIZE`)
are fixed by `boot.S`, which alone contributes to them.
-/
import Mathlib.Data.Nat.Basic

namespace RedOS

/-- `KERNEL_VIRTUAL_BASE` -/
def kernelVirtualBase : BitVec 32 := 0xC0000000#32

/-- `PAGE_SIZE` -/
def pageSize : Nat := 4096

/-- `ALIGN(n)` of the location counter `dot`. -/
def align (n dot : Nat) : Nat := (dot + (n - 1)) / n * n

/-- `STACK_SIZE` of `boot.S`. -/
def stackSize : Nat := 0x4000

/-- The section sizes of one build. -/
structure Layout where
  bootstrapText : Nat
  text : Nat
  rodata : Nat
  data : Nat
  bss : Nat
  /-- The bootstrap sections end within the first 4 MB. -/
  bootstrap_low : align 4096 (0x100000 + bootstrapText) + 2 * 4096 + stackSize ≤ 0x400000
  /-- The image fits below the top of the 32-bit virtual addresses. -/
  image_fits : align 4096 (align 4096 (align 4096 (align 4096
      (align 4096 (0x100000 + bootstrapText) + 2 * 4096 + stackSize) + text) + rodata) + data) + bss
    ≤ 0x40000000

namespace Layout

variable (L : Layout)

def kernelPhysicalStart : Nat := 0x100000

/-- `.bootstrap_data` begins with the page directory. -/
def bootPageDirectory : Nat := align 4096 (kernelPhysicalStart + L.bootstrapText)

def bootPageTable1 : Nat := L.bootPageDirectory + 4096

/-- The label at the end of the 16 KB that `.bootstrap_bss` skips. -/
def bootStack : Nat := L.bootPageTable1 + 4096 + stackSize

/-- Physical load address of `.text`. -/
def textStart : Nat := align 4096 L.bootStack

def kernelPhysicalEnd : Nat :=
  align 4096 (align 4096 (align 4096 (L.textStart + L.text) + L.rodata) + L.data) + L.bss

theorem align_mod (n dot : Nat) : align n dot % n = 0 := Nat.mul_mod_left _ _

theorem le_align {n : Nat} (hn : 0 < n) (dot : Nat) : dot ≤ align n dot := by
  have h := Nat.div_add_mod (dot + (n - 1)) n
  have hm := Nat.mod_lt (dot + (n - 1)) hn
  unfold align
  rw [Nat.mul_comm]
  omega

theorem align_of_mod {n dot : Nat} (hn : 0 < n) (h : dot % n = 0) : align n dot = dot := by
  obtain ⟨k, rfl⟩ := Nat.dvd_of_mod_eq_zero h
  unfold align
  rw [Nat.mul_add_div hn, Nat.div_eq_of_lt (by omega), Nat.add_zero, Nat.mul_comm]

theorem bootPageDirectory_aligned : L.bootPageDirectory % 4096 = 0 := align_mod _ _

theorem bootPageTable1_aligned : L.bootPageTable1 % 4096 = 0 := by
  have := L.bootPageDirectory_aligned
  unfold bootPageTable1
  omega

theorem bootStack_aligned : L.bootStack % 4096 = 0 := by
  have := L.bootPageTable1_aligned
  unfold bootStack stackSize
  omega

theorem textStart_eq : L.textStart = L.bootStack := align_of_mod (by decide) L.bootStack_aligned

theorem start_le_bootPageDirectory : 0x100000 ≤ L.bootPageDirectory := by
  have h := le_align (show 0 < 4096 by decide) (kernelPhysicalStart + L.bootstrapText)
  have hs : kernelPhysicalStart = 0x100000 := rfl
  unfold bootPageDirectory
  omega

theorem bootStack_eq :
    L.bootStack = align 4096 (0x100000 + L.bootstrapText) + 2 * 4096 + stackSize := by
  unfold bootStack bootPageTable1 bootPageDirectory kernelPhysicalStart
  omega

theorem bootStack_le : L.bootStack ≤ 0x400000 := by
  rw [bootStack_eq]
  exact L.bootstrap_low

theorem bootStack_le_kernelPhysicalEnd : L.bootStack ≤ L.kernelPhysicalEnd := by
  have h1 := le_align (show 0 < 4096 by decide) (L.textStart + L.text)
  have h2 := le_align (show 0 < 4096 by decide) (align 4096 (L.textStart + L.text) + L.rodata)
  have h3 := le_align (show 0 < 4096 by decide)
    (align 4096 (align 4096 (L.textStart + L.text) + L.rodata) + L.data)
  have h4 := L.textStart_eq
  unfold kernelPhysicalEnd
  omega

theorem kernelPhysicalEnd_le : L.kernelPhysicalEnd ≤ 0x40000000 := by
  have h := L.image_fits
  rw [← bootStack_eq] at h
  exact h

/-! ## Frame numbers -/

/-- The frame of `boot_page_directory`. -/
def directoryFrame : Nat := L.bootPageDirectory / 4096

/-- The frame of `boot_page_table1`. -/
def tableFrame : Nat := L.bootPageTable1 / 4096

theorem directoryFrame_mul : 4096 * L.directoryFrame = L.bootPageDirectory := by
  have := L.bootPageDirectory_aligned
  unfold directoryFrame
  omega

theorem tableFrame_eq : L.tableFrame = L.directoryFrame + 1 := by
  have := L.bootPageDirectory_aligned
  unfold tableFrame directoryFrame bootPageTable1
  omega

theorem directoryFrame_bounds : 256 ≤ L.directoryFrame ∧ L.directoryFrame + 2 ≤ 1024 := by
  have h1 := L.start_le_bootPageDirectory
  have h2 := L.bootStack_le
  unfold bootStack bootPageTable1 at h2
  unfold directoryFrame
  omega

/-- The two boot tables lie inside the image. -/
theorem directoryFrame_lt_end : 4096 * (L.directoryFrame + 1) < L.kernelPhysicalEnd := by
  have h1 := L.directoryFrame_mul
  have h2 := L.bootStack_le_kernelPhysicalEnd
  unfold bootStack bootPageTable1 stackSize at h2
  omega

/-- A build whose sections take a page each. -/
def small : Layout where
  bootstrapText := 0x200
  text := 0x1000
  rodata := 0x1000
  data := 0x1000
  bss := 0x1000
  bootstrap_low := by decide
  image_fits := by decide

end Layout

end RedOS
