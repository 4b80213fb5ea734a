/-
# `RedOS.Boot.EarlyPrint` — the two early print loops of `boot.S`

Before there is a terminal, `boot.S` copies its messages straight to the VGA
text buffer, once with paging off and once through the kernel's window.  Both
routines are one loop with its own buffer address and colour.  What the boot
code needs from it is what it leaves alone:

    earlyPrintLoop_run   a message of at most 16384 bytes is printed, and then
                         only EAX, ECX, EDX and the VGA memory have changed
    printCall_run        and the `call` around it restores ESP and leaves its
                         return address in the stack word below
-/
import RedOS.Lib.X86Cpu
import RedOS.Boot.Layout

namespace RedOS

open ByteMemory X86Paging X86Cpu X86Cpu.Cpu

/-- `movb (..), %al`: the low byte of EAX. -/
def setAl (c : Cpu) (al : BitVec 8) : Cpu := { c with eax := c.eax.extractLsb' 8 24 ++ al }

/-- Label `1:` of the print routines; `attr` is the colour byte of the cell. -/
def earlyPrintLoop (attr : BitVec 8) : Nat → Cpu → Option Cpu
  | 0, _ => none
  | fuel + 1, c => do
      let al ← c.loadByte (c.ebx + c.ecx)
      let c := setAl c al
      if al = 0#8 then pure c
      else
        let c ← c.storeByte c.edx al
        let c ← c.storeByte (c.edx + 1#32) attr
        earlyPrintLoop attr fuel { c with edx := c.edx + 2#32, ecx := c.ecx + 1#32 }

/-- Physical address of the VGA text buffer. -/
def vgaBufferPhysical : Addr := 0xB8000#32

/-- `early_print_string`: white on black. -/
def earlyPrintString (fuel : Nat) (c : Cpu) : Option Cpu :=
  earlyPrintLoop 0x0F#8 fuel { c with edx := vgaBufferPhysical, ecx := 0#32 }

/-- `early_virt_print_string`: yellow on black, through the virtual buffer. -/
def earlyVirtPrintString (fuel : Nat) (c : Cpu) : Option Cpu :=
  earlyPrintLoop 0x0E#8 fuel
    { c with edx := vgaBufferPhysical + kernelVirtualBase, ecx := 0#32 }

theorem earlyPrintString_eq (fuel : Nat) : earlyPrintString fuel = fun c =>
    earlyPrintLoop 0x0F#8 fuel { c with edx := vgaBufferPhysical, ecx := 0#32 } := by
  funext c
  rw [earlyPrintString]

theorem earlyVirtPrintString_eq (fuel : Nat) : earlyVirtPrintString fuel = fun c =>
    earlyPrintLoop 0x0E#8 fuel
      { c with edx := vgaBufferPhysical + kernelVirtualBase, ecx := 0#32 } := by
  funext c
  rw [earlyVirtPrintString]

/-! ## What they leave alone -/

/-- The 32 KB of text memory of the VGA adapter. -/
def InVga (q : Addr) : Prop := InBlock vgaBufferPhysical 0x8000 q

theorem inVga_bounds {q : Addr} (h : InVga q) : 0xB8000 ≤ q.toNat ∧ q.toNat < 0xC0000 := by
  unfold InVga InBlock vgaBufferPhysical at h
  bv_omega

/-- `c` differs from `c₀` in EAX, ECX, EDX and the VGA memory at most. -/
structure Printed (c₀ c : Cpu) : Prop where
  ebx : c.ebx = c₀.ebx
  esi : c.esi = c₀.esi
  edi : c.edi = c₀.edi
  esp : c.esp = c₀.esp
  cr0 : c.cr0 = c₀.cr0
  cr3 : c.cr3 = c₀.cr3
  df : c.df = c₀.df
  mem : ∀ q, ¬ InVga q → c.mem q = c₀.mem q

theorem Printed.refl (c : Cpu) : Printed c c := ⟨rfl, rfl, rfl, rfl, rfl, rfl, rfl, fun _ _ => rfl⟩

/-- One more byte stored into the VGA memory. -/
theorem Printed.storeByte {c₀ c : Cpu} (h : Printed c₀ c) {v p : Addr} (b : BitVec 8)
    (ht : c.translate v = some p) (hp : InVga p) :
    ∃ c', c.storeByte v b = some c' ∧ Printed c₀ c' ∧ c'.ecx = c.ecx ∧ c'.edx = c.edx := by
  refine ⟨{ c with mem := store8 c.mem p b }, by simp [Cpu.storeByte, ht], ?_, rfl, rfl⟩
  refine ⟨h.ebx, h.esi, h.edi, h.esp, h.cr0, h.cr3, h.df, ?_⟩
  intro q hq
  have hne : q ≠ p := fun heq => hq (heq ▸ hp)
  exact (store8_ne c.mem b hne).trans (h.mem q hq)

/-- The string of `n` bytes at `src` that EBX points to can be printed through
the buffer address `w`. -/
structure Printable (c₀ : Cpu) (w src : Addr) (n : Nat) : Prop where
  short : n ≤ 0x4000
  text : ∀ c, Printed c₀ c → ∀ i, i ≤ n →
    c.translate (c₀.ebx + BitVec.ofNat 32 i) = some (src + BitVec.ofNat 32 i)
  cells : ∀ c, Printed c₀ c → ∀ j, j < 0x8000 →
    c.translate (w + BitVec.ofNat 32 j) = some (vgaBufferPhysical + BitVec.ofNat 32 j)
  body : ∀ i, i < n → c₀.mem (src + BitVec.ofNat 32 i) ≠ 0#8
  stop : c₀.mem (src + BitVec.ofNat 32 n) = 0#8
  apart : ∀ i, i ≤ n → ¬ InVga (src + BitVec.ofNat 32 i)

theorem inVga_cell {j : Nat} (hj : j < 0x8000) : InVga (vgaBufferPhysical + BitVec.ofNat 32 j) := by
  unfold InVga InBlock
  bv_omega

/-- The loop from the `k`-th byte on, `r` bytes before the end. -/
theorem earlyPrintLoop_run (attr : BitVec 8) {c₀ : Cpu} {w src : Addr} {n : Nat}
    (hp : Printable c₀ w src n) : ∀ {r fuel k : Nat} {c : Cpu}, r < fuel → k + r = n →
      Printed c₀ c → c.ecx = BitVec.ofNat 32 k → c.edx = w + BitVec.ofNat 32 (2 * k) →
      ∃ c', earlyPrintLoop attr fuel c = some c' ∧ Printed c₀ c'
  | _, 0, _, _, hf, _, _, _, _ => absurd hf (Nat.not_lt_zero _)
  | r, fuel + 1, k, c, hf, hk, hc, hecx, hedx => by
      have hshort := hp.short
      have hload : c.loadByte (c.ebx + c.ecx) = some (c₀.mem (src + BitVec.ofNat 32 k)) := by
        rw [Cpu.loadByte, hc.ebx, hecx, hp.text c hc k (by omega), Option.map_some,
          hc.mem _ (hp.apart k (by omega))]
      have hal : ∀ al, Printed c₀ (setAl c al) := fun al =>
        ⟨hc.ebx, hc.esi, hc.edi, hc.esp, hc.cr0, hc.cr3, hc.df, hc.mem⟩
      simp only [earlyPrintLoop, hload, Option.bind_eq_bind, Option.bind_some]
      cases r with
      | zero =>
          obtain rfl : k = n := by omega
          rw [if_pos hp.stop]
          exact ⟨_, rfl, hal _⟩
      | succ r =>
          rw [if_neg (hp.body k (by omega))]
          obtain ⟨c₁, hs₁, hc₁, hecx₁, hedx₁⟩ := (hal (c₀.mem (src + BitVec.ofNat 32 k))).storeByte
            (c₀.mem (src + BitVec.ofNat 32 k)) (hp.cells _ (hal _) (2 * k) (by omega))
            (inVga_cell (by omega))
          obtain ⟨c₂, hs₂, hc₂, hecx₂, hedx₂⟩ := hc₁.storeByte attr
            (hp.cells _ hc₁ (2 * k + 1) (by omega)) (inVga_cell (by omega))
          have hedx' : (setAl c (c₀.mem (src + BitVec.ofNat 32 k))).edx
              = w + BitVec.ofNat 32 (2 * k) := hedx
          have hnext : c₁.edx + 1#32 = w + BitVec.ofNat 32 (2 * k + 1) := by
            rw [hedx₁, hedx', BitVec.add_assoc]
            congr 1
            apply BitVec.eq_of_toNat_eq
            simp only [BitVec.toNat_add, BitVec.toNat_ofNat]
            omega
          rw [hedx', hs₁]
          simp only [Option.bind_some]
          rw [hnext, hs₂]
          simp only [Option.bind_some]
          refine earlyPrintLoop_run attr hp (r := r) (k := k + 1) (by omega) (by omega) ?_ ?_ ?_
          · exact ⟨hc₂.ebx, hc₂.esi, hc₂.edi, hc₂.esp, hc₂.cr0, hc₂.cr3, hc₂.df, hc₂.mem⟩
          · show c₂.ecx + 1#32 = _
            rw [hecx₂, hecx₁, show (setAl c _).ecx = c.ecx from rfl, hecx]
            apply BitVec.eq_of_toNat_eq
            simp only [BitVec.toNat_add, BitVec.toNat_ofNat]
            omega
          · show c₂.edx + 2#32 = _
            rw [hedx₂, hedx₁, hedx', BitVec.add_assoc]
            congr 1
            apply BitVec.eq_of_toNat_eq
            simp only [BitVec.toNat_add, BitVec.toNat_ofNat]
            omega

/-- `call` and `ret` around a routine that keeps ESP and the stack word. -/
theorem call_run {c c' : Cpu} {ra sp : Addr} {f : Cpu → Option Cpu}
    (hpush : c.translate (c.esp - 4#32) = some sp)
    (hf : f { c with esp := c.esp - 4#32, mem := store32 c.mem sp ra } = some c')
    (hesp : c'.esp = c.esp - 4#32) (hpop : c'.translate (c.esp - 4#32) = some sp)
    (hret : load32 c'.mem sp = ra) : call ra f c = some { c' with esp := c.esp } := by
  have hpush' : push ra c = some { c with esp := c.esp - 4#32, mem := store32 c.mem sp ra } := by
    have ht : Cpu.translate { c with esp := c.esp - 4#32 } (c.esp - 4#32) = some sp := hpush
    simp only [push, storeWord, ht, Option.map_some]
  have hback : c.esp - 4#32 + 4#32 = c.esp := by bv_omega
  simp only [call, hpush', Option.bind_eq_bind, Option.bind_some, hf, pop, loadWord, hesp, hpop,
    Option.map_some, hret, Option.pure_def, if_true, hback]

/-- `c'` differs from `c` in EAX, ECX, EDX, the VGA memory and the word at `sp`
at most. -/
structure Called (sp : Addr) (c c' : Cpu) : Prop where
  ebx : c'.ebx = c.ebx
  esi : c'.esi = c.esi
  edi : c'.edi = c.edi
  esp : c'.esp = c.esp
  cr0 : c'.cr0 = c.cr0
  cr3 : c'.cr3 = c.cr3
  df : c'.df = c.df
  mem : ∀ q, ¬ InVga q → ¬ InBlock sp 4 q → c'.mem q = c.mem q

/-- The state in which a called print routine starts its loop. -/
def atLoop (ra sp w : Addr) (c : Cpu) : Cpu :=
  { c with
    esp := c.esp - 4#32
    mem := store32 c.mem sp ra
    edx := w
    ecx := 0#32 }

/-- A called print routine returns. -/
theorem printCall_run (attr : BitVec 8) {fuel n : Nat} {c : Cpu} {ra sp w src : Addr}
    (hpush : c.translate (c.esp - 4#32) = some sp) (hsp : ∀ q, InBlock sp 4 q → ¬ InVga q)
    (hp : Printable (atLoop ra sp w c) w src n)
    (hpop : ∀ c', Printed (atLoop ra sp w c) c' → c'.translate (c.esp - 4#32) = some sp)
    (hfuel : n < fuel) :
    ∃ c', call ra (fun c => earlyPrintLoop attr fuel { c with edx := w, ecx := 0#32 }) c = some c' ∧
      Called sp c c' := by
  obtain ⟨c', hrun, hc'⟩ := earlyPrintLoop_run attr hp (r := n) (k := 0) hfuel
    (Nat.zero_add n) (Printed.refl _) rfl (BitVec.add_zero w).symm
  have hret : load32 c'.mem sp = ra := by
    have hsame : load32 c'.mem sp = load32 (atLoop ra sp w c).mem sp :=
      load32_congr fun q hq => hc'.mem q (hsp q hq)
    rw [hsame]
    exact load32_store32 c.mem sp ra
  refine ⟨_, call_run hpush hrun hc'.esp (hpop c' hc') hret, ?_⟩
  refine ⟨hc'.ebx, hc'.esi, hc'.edi, rfl, hc'.cr0, hc'.cr3, hc'.df, ?_⟩
  intro q hvga hq
  exact (hc'.mem q hvga).trans (store32_apply_ne c.mem ra hq)

end RedOS
