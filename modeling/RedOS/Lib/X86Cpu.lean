/-
# `RedOS.Lib.X86Cpu` — the registers, memory accesses and string stores of a 32-bit x86

A routine of assembly is a function `Cpu → Option Cpu`; `none` is a page fault
or a return to an address other than the caller's.  An access goes through the
page tables exactly when bit 31 of `cr0` is set, so the same routine can be
read before and after paging is switched on.

The instructions with implicit operands are here: `stosl` (EAX to `(%edi)`,
EDI stepped), `rep stosl` (ECX times), `loop` (decrement ECX, jump back while
it is not zero), `push`, `pop`, and `call` with the return address checked at
`ret`.  What each of them leaves unchanged is a lemma next to it.
-/
import RedOS.Lib.X86Paging

namespace X86Cpu

open ByteMemory X86Paging

structure Cpu where
  eax : BitVec 32
  ebx : BitVec 32
  ecx : BitVec 32
  edx : BitVec 32
  esi : BitVec 32
  edi : BitVec 32
  esp : BitVec 32
  cr0 : BitVec 32
  cr3 : BitVec 32
  /-- The direction flag. -/
  df : Bool
  mem : Mem

namespace Cpu

/-- The paging bit of `cr0`. -/
def paging (c : Cpu) : Bool := c.cr0.getLsbD 31

/-- Physical address of a data access; words are aligned, so one translation
serves all four bytes. -/
def translate (c : Cpu) (v : Addr) : Option Addr :=
  if c.paging then walk c.mem c.cr3 v else some v

def loadByte (c : Cpu) (v : Addr) : Option (BitVec 8) := (c.translate v).map c.mem

def storeByte (c : Cpu) (v : Addr) (b : BitVec 8) : Option Cpu :=
  (c.translate v).map fun p => { c with mem := store8 c.mem p b }

def loadWord (c : Cpu) (v : Addr) : Option (BitVec 32) := (c.translate v).map (load32 c.mem)

def storeWord (c : Cpu) (v : Addr) (x : BitVec 32) : Option Cpu :=
  (c.translate v).map fun p => { c with mem := store32 c.mem p x }

/-- `stosl`: EAX to `(%edi)`, then EDI by four in the direction of the flag. -/
def stosl (c : Cpu) : Option Cpu := do
  let c ← c.storeWord c.edi c.eax
  pure { c with edi := if c.df then c.edi - 4#32 else c.edi + 4#32 }

/-- `n` rounds of `rep stosl`. -/
def repStoslN : Nat → Cpu → Option Cpu
  | 0, c => some c
  | n + 1, c => do
      let c ← stosl c
      repStoslN n { c with ecx := c.ecx - 1#32 }

def repStosl (c : Cpu) : Option Cpu := repStoslN c.ecx.toNat c

/-- `loop`: ECX decremented, back to the start of `body` unless it is zero; the
fuel bounds the rounds. -/
def loopN (body : Cpu → Option Cpu) : Nat → Cpu → Option Cpu
  | 0, _ => none
  | n + 1, c => do
      let c ← body c
      let c := { c with ecx := c.ecx - 1#32 }
      if c.ecx = 0#32 then pure c else loopN body n c

/-- ECX runs through every value before it can reach zero a second time. -/
def loop (body : Cpu → Option Cpu) (c : Cpu) : Option Cpu := loopN body (2 ^ 32) c

def push (x : BitVec 32) (c : Cpu) : Option Cpu :=
  storeWord { c with esp := c.esp - 4#32 } (c.esp - 4#32) x

def pop (c : Cpu) : Option (BitVec 32 × Cpu) := do
  let x ← c.loadWord c.esp
  pure (x, { c with esp := c.esp + 4#32 })

/-- `call` and the matching `ret`; `ra` is the address after the call. -/
def call (ra : Addr) (f : Cpu → Option Cpu) (c : Cpu) : Option Cpu := do
  let c ← push ra c
  let c ← f c
  let (a, c) ← pop c
  if a = ra then pure c else none

/-! ## Paging off: accesses are physical -/

variable {c : Cpu}

/-- `cr0` alone decides whether paging is on. -/
theorem paging_congr {c' : Cpu} (h : c'.cr0 = c.cr0) : c'.paging = c.paging := by
  rw [paging, paging, h]

theorem translate_congr {c' : Cpu} (hcr0 : c'.cr0 = c.cr0) (hcr3 : c'.cr3 = c.cr3)
    (hmem : c'.mem = c.mem) (v : Addr) : c'.translate v = c.translate v := by
  rw [translate, translate, paging_congr hcr0, hcr3, hmem]

theorem translate_off (h : c.paging = false) (v : Addr) : c.translate v = some v := by
  simp [translate, h]

theorem loadByte_off (h : c.paging = false) (v : Addr) : c.loadByte v = some (c.mem v) := by
  simp [loadByte, translate_off h]

theorem storeWord_off (h : c.paging = false) (v : Addr) (x : BitVec 32) :
    c.storeWord v x = some { c with mem := store32 c.mem v x } := by
  simp [storeWord, translate_off h]

theorem stosl_off (h : c.paging = false) (hdf : c.df = false) :
    stosl c = some { c with mem := store32 c.mem c.edi c.eax, edi := c.edi + 4#32 } := by
  simp [stosl, storeWord_off h, hdf]

/-- `n` words stored upwards from `p`, the `i`-th of them `x i`. -/
def storeWords (m : Mem) (p : Addr) (x : Nat → BitVec 32) : Nat → Mem
  | 0 => m
  | n + 1 => store32 (storeWords m p x n) (p + BitVec.ofNat 32 (4 * n)) (x n)

theorem storeWords_succ' (m : Mem) (p : Addr) (x : Nat → BitVec 32) : ∀ n : Nat,
    storeWords m p x (n + 1)
      = storeWords (store32 m p (x 0)) (p + 4#32) (fun i => x (i + 1)) n
  | 0 => by simp [storeWords]
  | n + 1 => by
      rw [storeWords, storeWords_succ' m p x n, storeWords]
      congr 1
      rw [BitVec.add_assoc]
      congr 1
      apply BitVec.eq_of_toNat_eq
      simp only [BitVec.toNat_ofNat, BitVec.toNat_add]
      omega

/-- `rep stosl` with paging off and the flag clear. -/
theorem repStoslN_off : ∀ (n : Nat) {c : Cpu}, c.paging = false → c.df = false →
    repStoslN n c = some { c with
      mem := storeWords c.mem c.edi (fun _ => c.eax) n
      edi := c.edi + BitVec.ofNat 32 (4 * n)
      ecx := c.ecx - BitVec.ofNat 32 n }
  | 0, c, _, _ => by simp [repStoslN, storeWords]
  | n + 1, c, h, hdf => by
      simp only [repStoslN, stosl_off h hdf, Option.bind_eq_bind, Option.bind_some]
      refine Eq.trans (repStoslN_off n ?_ ?_) ?_
      · exact h
      · exact hdf
      rw [storeWords_succ']
      simp only [Option.some.injEq, Cpu.mk.injEq, true_and, and_true]
      constructor
      · apply BitVec.eq_of_toNat_eq
        simp only [BitVec.toNat_ofNat, BitVec.toNat_sub]
        omega
      · apply BitVec.eq_of_toNat_eq
        simp only [BitVec.toNat_ofNat, BitVec.toNat_add]
        omega

/-- A counted loop of `n + 1` rounds whose body keeps ECX is `n + 1` times the
body: `inv k` holds of the state before round `k`. -/
theorem loopN_count {body : Cpu → Option Cpu} {inv : Nat → Cpu → Prop} {N : Nat} (hN : N < 2 ^ 32)
    (hstep : ∀ k c, k < N → inv k c → ∃ c', body c = some c' ∧ c'.ecx = c.ecx ∧
      inv (k + 1) { c' with ecx := c.ecx - 1#32 }) :
    ∀ (n fuel : Nat) {c : Cpu} {k : Nat}, n < fuel → k + n + 1 = N → inv k c →
      c.ecx = BitVec.ofNat 32 (n + 1) →
      ∃ c', loopN body fuel c = some c' ∧ inv N c'
  | n, 0, _, _, hf, _, _, _ => absurd hf (Nat.not_lt_zero _)
  | 0, fuel + 1, c, k, _, hk, hi, hecx => by
      obtain ⟨c', hbody, hkeep, hi'⟩ := hstep k c (by omega) hi
      have hz : c.ecx - 1#32 = 0#32 := by rw [hecx]; decide
      refine ⟨{ c' with ecx := c.ecx - 1#32 }, ?_, by rwa [show N = k + 1 by omega]⟩
      simp [loopN, hbody, hkeep, hz]
  | n + 1, fuel + 1, c, k, hf, hk, hi, hecx => by
      obtain ⟨c', hbody, hkeep, hi'⟩ := hstep k c (by omega) hi
      have hecx' : c.ecx - 1#32 = BitVec.ofNat 32 (n + 1) := by
        rw [hecx]
        apply BitVec.eq_of_toNat_eq
        simp only [BitVec.toNat_sub, BitVec.toNat_ofNat]
        omega
      have hz : c.ecx - 1#32 ≠ 0#32 := by
        rw [hecx']
        intro h0
        have := congrArg BitVec.toNat h0
        simp only [BitVec.toNat_ofNat] at this
        omega
      obtain ⟨c'', hrun, hinv⟩ := loopN_count hN hstep n fuel
        (c := { c' with ecx := c.ecx - 1#32 }) (k := k + 1) (by omega) (by omega) hi' hecx'
      refine ⟨c'', ?_, hinv⟩
      simp only [loopN, hbody, hkeep, Option.bind_eq_bind, Option.bind_some, if_neg hz]
      exact hrun

end Cpu

end X86Cpu
