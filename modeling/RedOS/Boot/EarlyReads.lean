/-
# `RedOS.Boot.EarlyReads` — where `early_print_string` reads with paging off

The strings of `boot.S` are in `.text`, behind the code that runs in the higher
half, so `$boot_message` and `$page_tables_setup` are link addresses above
`KERNEL_VIRTUAL_BASE`.  Both calls made before CR0.PG is set use them as they
stand, and read physical memory 3 GB above the image.

    printReads            the addresses the loop reads
    head_outside          the first of them
    early_print_outside   for every layout, label placement and memory
-/
import RedOS.Boot.Handoff

namespace RedOS

open ByteMemory X86Paging X86Cpu X86Cpu.Cpu

/-- The physical addresses that `earlyPrintLoop` reads in at most `fuel` passes. -/
def printReads (attr : BitVec 8) : Nat → Cpu → List Addr
  | 0, _ => []
  | fuel + 1, c =>
      match c.translate (c.ebx + c.ecx) with
      | none => []
      | some p =>
          let c := setAl c (c.mem p)
          p ::
            if c.mem p = 0#8 then []
            else
              match (c.storeByte c.edx (c.mem p)).bind fun c => c.storeByte (c.edx + 1#32) attr with
              | none => []
              | some c => printReads attr fuel { c with edx := c.edx + 2#32, ecx := c.ecx + 1#32 }

/-- The byte is one of the loaded image. -/
def InImage (L : Layout) (p : Addr) : Prop :=
  Layout.kernelPhysicalStart ≤ p.toNat ∧ p.toNat < L.kernelPhysicalEnd

/-- `early_print_string`, entered in the state `c` for the string `text`, reads
only the image, ends after the `text.length - 1` characters before the NUL and
writes only their cells. -/
structure PrintsFromImage (L : Layout) (c : Cpu) (text : List (BitVec 8)) : Prop where
  reads : ∀ fuel, ∀ p ∈ printReads 0x0F#8 fuel { c with edx := vgaBufferPhysical, ecx := 0#32 },
    InImage L p
  ends : ∃ c', earlyPrintString text.length c = some c' ∧
    c'.ecx = BitVec.ofNat 32 (text.length - 1) ∧
    ∀ q, ¬ InBlock vgaBufferPhysical (2 * (text.length - 1)) q → c'.mem q = c.mem q

/-! ## The two calls -/

section Calls

variable {L : Layout} (lbl : Labels L)

/-- `multiboot_entry` at its call of `early_print_string`. -/
def atBootMessage (c : Cpu) : Cpu :=
  { c with esp := BitVec.ofNat 32 L.bootStack, edi := c.ebx, esi := c.eax, ebx := lbl.bootMessage }

/-- `setup_page_tables` at its call of `early_print_string`. -/
def atTablesMessage (c : Cpu) : Option Cpu :=
  (fillPageTables L c).map fun c => { c with ebx := lbl.pageTablesSetup }

/-- The two states are those in which the routines make their calls. -/
theorem multibootEntry_call (fuel : Nat) (c : Cpu) :
    multibootEntry lbl fuel c =
      (call lbl.afterBootMessage (earlyPrintString fuel) (atBootMessage lbl c)).bind fun c =>
        (call lbl.afterSetup (setupPageTables L lbl fuel) c).bind fun c =>
          higherHalf lbl fuel { c with
            cr3 := BitVec.ofNat 32 L.bootPageDirectory
            cr0 := c.cr0 ||| 0x80000000#32
            ecx := lbl.higherHalf } := rfl

theorem setupPageTables_call (fuel : Nat) (c : Cpu) :
    setupPageTables L lbl fuel c =
      (atTablesMessage lbl c).bind (call lbl.afterTablesMessage (earlyPrintString fuel)) := by
  unfold setupPageTables atTablesMessage
  rw [Option.bind_map]
  rfl

end Calls

/-- A string of `.text` is not where the image is loaded. -/
theorem inText_outside {L : Layout} {off : Nat} (hoff : L.textStart + off ≤ 0x400000) :
    ¬ InImage L (Labels.inText L off) := by
  have hend := L.kernelPhysicalEnd_le
  rintro ⟨-, hlt⟩
  unfold Labels.inText at hlt
  rw [BitVec.toNat_ofNat] at hlt
  omega

theorem bootMessage_outside {L : Layout} (lbl : Labels L) : ¬ InImage L lbl.bootMessage := by
  have hlow := lbl.strings_low
  exact inText_outside (by omega)

theorem pageTablesSetup_outside {L : Layout} (lbl : Labels L) : ¬ InImage L lbl.pageTablesSetup := by
  have hlow := lbl.strings_low
  exact inText_outside (by omega)

/-- The first byte read is the one EBX points to. -/
theorem head_read {c : Cpu} (hpaging : c.paging = false) :
    c.ebx ∈ printReads 0x0F#8 1 { c with edx := vgaBufferPhysical, ecx := 0#32 } := by
  obtain ⟨c₀, hc₀⟩ : ∃ c₀ : Cpu, c₀ = { c with edx := vgaBufferPhysical, ecx := 0#32 } := ⟨_, rfl⟩
  have haddr : c₀.translate (c₀.ebx + c₀.ecx) = some c.ebx := by
    rw [hc₀]
    exact (translate_off hpaging _).trans (congrArg some (BitVec.add_zero c.ebx))
  rw [← hc₀]
  unfold printReads
  rw [haddr]
  exact List.mem_cons_self

theorem head_outside {L : Layout} {c : Cpu} {text : List (BitVec 8)} (hpaging : c.paging = false)
    (hstring : ¬ InImage L c.ebx) : ¬ PrintsFromImage L c text :=
  fun h => hstring (h.reads 1 c.ebx (head_read hpaging))

/-- A `call` with paging off changes ESP and the word below. -/
theorem push_off {c : Cpu} (ra : Addr) (hpaging : c.paging = false) :
    ∃ s, push ra c = some s ∧ s.paging = false ∧ s.ebx = c.ebx ∧
      ∀ q, ¬ InBlock (c.esp - 4#32) 4 q → s.mem q = c.mem q :=
  ⟨_, storeWord_off (c := { c with esp := c.esp - 4#32 }) hpaging _ _, hpaging, rfl,
    fun _ hq => store32_apply_ne c.mem ra hq⟩

theorem call_outside {L : Layout} {c : Cpu} (ra : Addr) {text : List (BitVec 8)}
    (hpaging : c.paging = false) (hstring : ¬ InImage L c.ebx) :
    ∃ s, push ra c = some s ∧ ¬ PrintsFromImage L s text := by
  obtain ⟨s, hpush, hoff, hebx, -⟩ := push_off ra hpaging
  exact ⟨s, hpush, head_outside hoff (hebx ▸ hstring)⟩

/-- At a zero byte the routine ends without a store. -/
theorem print_zero {c : Cpu} (hpaging : c.paging = false) (hzero : c.mem c.ebx = 0#8) :
    ∃ c', earlyPrintString 1 c = some c' ∧ c'.ecx = 0#32 ∧ c'.mem = c.mem := by
  obtain ⟨c₀, hc₀⟩ : ∃ c₀ : Cpu, c₀ = { c with edx := vgaBufferPhysical, ecx := 0#32 } := ⟨_, rfl⟩
  have hload : c₀.loadByte (c₀.ebx + c₀.ecx) = some 0#8 := by
    rw [hc₀]
    exact (loadByte_off hpaging _).trans
      (congrArg some ((congrArg c.mem (BitVec.add_zero c.ebx)).trans hzero))
  refine ⟨setAl c₀ 0#8, ?_, by rw [hc₀]; rfl, by rw [hc₀]; rfl⟩
  rw [earlyPrintString_eq]
  show earlyPrintLoop 0x0F#8 1 { c with edx := vgaBufferPhysical, ecx := 0#32 } = _
  rw [← hc₀]
  unfold earlyPrintLoop
  rw [hload]
  rfl

/-- Neither the registers nor the memory but `cr0` alone. -/
theorem paging_set (c : Cpu) (eax ebx ecx edx esi edi esp cr3 : BitVec 32) (df : Bool) (m : Mem) :
    Cpu.paging ⟨eax, ebx, ecx, edx, esi, edi, esp, c.cr0, cr3, df, m⟩ = c.paging := rfl

/-- Whatever the layout, the placement of the strings and the memory are, neither
of the two calls made with paging off prints from the image. -/
theorem early_print_outside {L : Layout} (lbl : Labels L) {c₁ c₂ : Cpu} (h₁ : c₁.paging = false)
    (h₂ : c₂.paging = false) :
    (∃ s, push lbl.afterBootMessage (atBootMessage lbl c₁) = some s ∧
      ¬ PrintsFromImage L s bootMessageText) ∧
    ∃ s, (atTablesMessage lbl c₂).bind (push lbl.afterTablesMessage) = some s ∧
      ¬ PrintsFromImage L s pageTablesSetupText := by
  obtain ⟨c₃, hc₃⟩ : ∃ c₃, fillPageTables L c₂ = some c₃ ∧ c₃.paging = false :=
    ⟨_, fillPageTables_eq L h₂, (paging_set c₂ _ _ _ _ _ _ _ _ _ _).trans h₂⟩
  have hoff₁ : (atBootMessage lbl c₁).paging = false := (paging_set c₁ _ _ _ _ _ _ _ _ _ _).trans h₁
  have hoff₂ : Cpu.paging { c₃ with ebx := lbl.pageTablesSetup } = false :=
    (paging_set c₃ _ _ _ _ _ _ _ _ _ _).trans hc₃.2
  constructor
  · exact call_outside lbl.afterBootMessage hoff₁ (bootMessage_outside lbl)
  · unfold atTablesMessage
    rw [hc₃.1, Option.map_some, Option.bind_some]
    exact call_outside lbl.afterTablesMessage hoff₂ (pageTablesSetup_outside lbl)

theorem early_print_outside_small :
    (∃ s, push smallLabels.afterBootMessage (atBootMessage smallLabels (smallBoot 0x10000#32)) = some s ∧
      ¬ PrintsFromImage Layout.small s bootMessageText) ∧
    ∃ s, (atTablesMessage smallLabels (smallBoot 0x10000#32)).bind
        (push smallLabels.afterTablesMessage) = some s ∧
      ¬ PrintsFromImage Layout.small s pageTablesSetupText := by
  have hpaging : (smallBoot 0x10000#32).paging = false := (handover_small 0x10000#32).paging
  exact early_print_outside smallLabels hpaging hpaging

/-- Where the memory above the image reads zero, the first byte read is the zero
at `0xC0107000`, and no character of the message is printed. -/
theorem boot_message_missed :
    ∃ s c', push smallLabels.afterBootMessage (atBootMessage smallLabels (smallBoot 0x10000#32)) = some s ∧
      0xC0107000#32 ∈ printReads 0x0F#8 1 { s with edx := vgaBufferPhysical, ecx := 0#32 } ∧
      ¬ InImage Layout.small 0xC0107000#32 ∧
      earlyPrintString 1 s = some c' ∧ c'.ecx = 0#32 ∧ c'.mem = s.mem ∧
      ¬ PrintsFromImage Layout.small s bootMessageText := by
  have hpaging : (smallBoot 0x10000#32).paging = false := (handover_small 0x10000#32).paging
  have hoff : (atBootMessage smallLabels (smallBoot 0x10000#32)).paging = false :=
    (paging_set (smallBoot 0x10000#32) _ _ _ _ _ _ _ _ _ _).trans hpaging
  have hbx : smallLabels.bootMessage = 0xC0107000#32 := by decide
  have houtside : ¬ InImage Layout.small 0xC0107000#32 := hbx ▸ bootMessage_outside smallLabels
  obtain ⟨s, hpush, hs, hebx, hmem⟩ := push_off smallLabels.afterBootMessage hoff
  replace hebx : s.ebx = 0xC0107000#32 := hebx.trans hbx
  have hzero : s.mem s.ebx = 0#8 := by
    have hfar : ¬ InBlock (BitVec.ofNat 32 Layout.small.bootStack - 4#32) 4 0xC0107000#32 := by decide
    rw [hebx, hmem _ hfar]
    show (smallBoot 0x10000#32).mem 0xC0107000#32 = 0#8
    rw [smallBoot_mem]
    decide
  obtain ⟨c', hrun, hecx, hsame⟩ := print_zero hs hzero
  exact ⟨s, c', hpush, hebx ▸ head_read hs, houtside, hrun, hecx, hsame,
    head_outside hs (hebx ▸ houtside)⟩

end RedOS
