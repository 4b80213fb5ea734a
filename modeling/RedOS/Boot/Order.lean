/-
# `RedOS.Boot.Order` — who draws before the terminal is there

`higher_half` calls `validate_boot` and `setup_gdt` before `terminal_initialize`.
Both print, `printf` draws through `terminal_buffer`, and that is still zero: the
'V' of the very first message goes to address 0.

    first_cell           where the first character goes
    printf_before_init   so some character is outside the VGA text buffer
-/
import RedOS.Multiboot.Walk
import RedOS.Boot.KernelMain

namespace RedOS

open ByteMemory

/-! ## `setup_gdt` and `higher_half` -/

/-- `GDT_KERNEL_CODE_SEGMENT_SELECTOR`, `GDT_KERNEL_DATA_SEGMENT_SELECTOR` -/
def gdtCodeSelector : BitVec 32 := 0x08#32

def gdtDataSelector : BitVec 32 := 0x10#32

/-- What `setup_gdt` prints; `gp` is the address of its variable.  The selectors
are read back from the registers they have just been loaded into. -/
def gdtMessages (gp : Addr) : List (String × List Arg) :=
  [("Setting up GDT for higher half kernel...\n", []),
    ("GDT location: %x\n", [.word gp]),
    ("GDT loaded successfully. Running self test...\n", []),
    ("CS selector value: %x, expected value: %x\n", [.word gdtCodeSelector, .word gdtCodeSelector]),
    ("GS selector value: %x, expected value: %x\n", [.word gdtDataSelector, .word gdtDataSelector]),
    ("DS selector value: %x, expected value: %x\n", [.word gdtDataSelector, .word gdtDataSelector]),
    ("ES selector value: %x, expected value: %x\n", [.word gdtDataSelector, .word gdtDataSelector]),
    ("FS selector value: %x, expected value: %x\n", [.word gdtDataSelector, .word gdtDataSelector]),
    ("SS selector value: %x, expected value: %x\n", [.word gdtDataSelector, .word gdtDataSelector]),
    ("GDT setup and test complete!\n", [])]

/-- `setup_gdt`, as far as the console is concerned. -/
def setupGdt (gp : Addr) (k : Console) : Option Console :=
  Runs.run (fun k (c : String × List Arg) => k.say c.1 c.2) k (gdtMessages gp)

/-- What the boot finds outside its own code. -/
structure BootView where
  /-- `&gp` -/
  gp : Addr
  cr0 : BitVec 32
  /-- the answer of `serial_init_com1` -/
  serialOk : Bool
  view : View

/-- The calls of `higher_half`; each loop of `validate_boot` takes at most `fuel`
passes.  `Subsystem.start` runs `terminal_initialize`. -/
def higherHalfRun (fuel : Nat) (magic addr : BitVec 32) (b : BootView) (k : Console) : Option Console := do
  let k ← validateBoot fuel magic addr k
  let k ← setupGdt b.gp k
  let s ← kernelMain b.serialOk b.view (Subsystem.start b.cr0 k)
  s.debug.console.say "System halted." []

/-! ## `validate_boot` -/

namespace Console

theorem say_extends {format : String} {args : List Arg} {k k' : Console}
    (h : k.say format args = some k') : Extends k k' := by
  obtain ⟨r, hr, rfl⟩ := Option.map_eq_some_iff.mp h
  exact printf_extends hr

theorem readString_extends {p : Addr} {k : Console} {r : List (BitVec 8) × Console}
    (h : k.readString p = some r) : Extends k r.2 := by
  obtain ⟨len, -, rfl⟩ := Option.map_eq_some_iff.mp h
  exact emit_extends _ k

end Console

open Console

theorem mmapLoop_extends {tag : Addr} (n : Nat) {mmap : Addr} {k k' : Console}
    (h : mmapLoop tag n mmap k = some k') : Extends k k' := by
  induction n generalizing mmap k with
  | zero => cases h
  | succ n ih =>
      have hread := emit_extends (.load .header (tag + 4) 4) k
      unfold mmapLoop at h
      dsimp only [read32, read64] at h
      split at h
      · obtain ⟨k₁, hsay, hrest⟩ := Option.bind_eq_some_iff.mp h
        exact (((((hread.emit _).emit _).emit _).trans (say_extends hsay)).emit _).trans (ih hrest)
      · exact Option.some.inj h ▸ hread

theorem visitTag_extends {fuel : Nat} {tag : Addr} {k k' : Console}
    (h : visitTag fuel tag k = some k') : Extends k k' := by
  have hread := emit_extends (.load .header tag 4) k
  unfold visitTag at h
  dsimp only [read32] at h
  -- one case for each type
  split at h
  · obtain ⟨r, hstring, hsay⟩ := Option.bind_eq_some_iff.mp h
    exact (hread.trans (readString_extends hstring)).trans (say_extends hsay)
  split at h
  · obtain ⟨r, hstring, hsay⟩ := Option.bind_eq_some_iff.mp h
    exact (hread.trans (readString_extends hstring)).trans (say_extends hsay)
  split at h
  · obtain ⟨r, hstring, hsay⟩ := Option.bind_eq_some_iff.mp h
    exact (((hread.emit _).emit _).trans (readString_extends hstring)).trans (say_extends hsay)
  split at h
  · exact ((hread.emit _).emit _).trans (say_extends h)
  split at h
  · exact (((hread.emit _).emit _).emit _).trans (say_extends h)
  split at h
  · obtain ⟨k₁, hsay, hloop⟩ := Option.bind_eq_some_iff.mp h
    exact (hread.trans (say_extends hsay)).trans (mmapLoop_extends fuel hloop)
  · exact Option.some.inj h ▸ hread

theorem tagLoop_extends {fuel : Nat} (n : Nat) {tag : Addr} {k : Console} {r : Addr × Console}
    (h : tagLoop fuel n tag k = some r) : Extends k r.2 := by
  induction n generalizing tag k with
  | zero => cases h
  | succ n ih =>
      have hread := emit_extends (.load .header tag 4) k
      unfold tagLoop at h
      dsimp only [read32] at h
      split at h
      · exact Option.some.inj h ▸ hread
      · obtain ⟨k₁, hsay, hrest⟩ := Option.bind_eq_some_iff.mp h
        obtain ⟨k₂, hvisit, hnext⟩ := Option.bind_eq_some_iff.mp hrest
        have hsaid : Extends k k₁ := ((hread.emit _).emit _).trans (say_extends hsay)
        exact ((hsaid.trans (visitTag_extends hvisit)).emit _).trans (ih hnext)

theorem convertInfo_extends {addr : Addr} {k : Console} {r : Addr × Console}
    (h : convertInfo addr k = some r) : Extends k r.2 := by
  unfold convertInfo at h
  split at h
  · obtain ⟨k₁, hsay₁, hrest⟩ := Option.bind_eq_some_iff.mp h
    obtain ⟨k₂, hsay₂, hlast⟩ := Option.bind_eq_some_iff.mp hrest
    exact Option.some.inj hlast ▸ (say_extends hsay₁).trans (say_extends hsay₂)
  · exact Option.some.inj h ▸ .refl k

theorem walkInfo_extends {fuel : Nat} {addr : Addr} {k k' : Console}
    (h : walkInfo fuel addr k = some k') : Extends k k' := by
  unfold walkInfo at h
  dsimp only [read32] at h
  obtain ⟨k₁, hsay₁, hrest⟩ := Option.bind_eq_some_iff.mp h
  obtain ⟨r, hloop, hrest⟩ := Option.bind_eq_some_iff.mp hrest
  obtain ⟨k₃, hsay₃, hsay₄⟩ := Option.bind_eq_some_iff.mp hrest
  have hsaid := (emit_extends _ k).trans (say_extends hsay₁)
  exact (((hsaid.trans (tagLoop_extends fuel hloop)).emit _).trans (say_extends hsay₃)).trans
    (say_extends hsay₄)

/-- After its first message `validate_boot` takes nothing back. -/
theorem validateBoot_extends {fuel : Nat} {magic addr : BitVec 32} {k k' : Console}
    (h : validateBoot fuel magic addr k = some k') :
    ∃ k₁, k.say "Validating multiboot information at virtual address %x\n" [.word addr] = some k₁ ∧
      Extends k₁ k' := by
  unfold validateBoot at h
  obtain ⟨k₁, hsay, hrest⟩ := Option.bind_eq_some_iff.mp h
  refine ⟨k₁, hsay, ?_⟩
  split at hrest
  · exact say_extends hrest
  split at hrest
  · exact say_extends hrest
  · obtain ⟨r, hconvert, hwalk⟩ := Option.bind_eq_some_iff.mp hrest
    exact (convertInfo_extends hconvert).trans (walkInfo_extends hwalk)

theorem setupGdt_extends {gp : Addr} {k k' : Console} (h : setupGdt gp k = some k') : Extends k k' :=
  Runs.run_keeps (I := fun t => Extends k t) (fun _ _ _ ht h => ht.trans (say_extends h)) (.refl k) h

/-! ## The first character -/

/-- A format that begins with an ordinary character prints it first. -/
theorem printfOut_head {n : Nat} {c : BitVec 8} {rest : List (BitVec 8)} {args : List Arg}
    {r : Int × List (BitVec 8)} (hc : c ≠ 37#8) (hlen : rest.length < intMax)
    (h : printfOut (n + 1) (c :: rest) args 0 = some r) : ∃ out, r.2 = c :: out := by
  unfold printfOut at h
  rw [if_pos (.inl hc), if_neg hc] at h
  dsimp only at h
  rw [List.tail_cons, Nat.add_comm, List.take_succ_cons] at h
  have hfits : ¬ intMax - 0 < (c :: rest.take (rest.takeWhile (· ≠ 37#8)).length).length := by
    rw [List.length_cons, List.length_take]
    omega
  unfold textsOut textsOut at h
  rw [if_neg hfits] at h
  obtain ⟨s, -, rfl⟩ := Option.map_eq_some_iff.mp h
  exact ⟨_, rfl⟩

/-- The addresses of the cells stored by calls of `printf`: those between a call
and its return. -/
def printfCells : Bool → List Event → List Addr
  | _, [] => []
  | _, .printf _ _ :: es => printfCells true es
  | _, .ret :: es => printfCells false es
  | inside, .cell p _ :: es => if inside then p :: printfCells inside es else printfCells inside es
  | inside, .byte _ :: es | inside, .com1 _ :: es | inside, .load _ _ _ :: es => printfCells inside es

/-- The cell is one of the VGA text buffer. -/
def InVgaText (p : Addr) : Prop :=
  0xC00B8000 ≤ p.toNat ∧ p.toNat + 2 ≤ 0xC00B8000 + 2 * vgaWidth * vgaHeight

/-- Drawn through a `terminal_buffer` that is zero, the first character of a text
goes to address 0. -/
theorem first_cell {m : Mem} {c : BitVec 8} (rest : List (BitVec 8)) {args : List Arg}
    {r : Int × Console} (hc : Plain c) (hpercent : c ≠ 37#8) (hlen : rest.length < intMax)
    (h : (Console.boot m).printf (c :: rest) args = some r) :
    0#32 ∈ printfCells false r.2.trace := by
  have hstring : cString (c :: rest) = c :: cString rest :=
    List.takeWhile_cons_of_pos (decide_eq_true hc.1)
  rw [printf_eq, hstring] at h
  obtain ⟨s, hs, rfl⟩ := Option.map_eq_some_iff.mp h
  have hshort : (cString rest).length < intMax :=
    Nat.lt_of_le_of_lt (List.takeWhile_prefix _).length_le hlen
  obtain ⟨out, hout⟩ := printfOut_head hpercent hshort hs
  obtain ⟨k, hk⟩ : ∃ k, k = (Console.boot m).emit (.printf (c :: cString rest) args) := ⟨_, rfl⟩
  have hdrawn : Extends (k.terminalPutentryat c k.color k.column k.row) (k.terminalPutchar c) := by
    rw [terminalPutchar_ordinary hc.2.2.1 hc.2.2.2 hc.2.1]
    exact (advance_extends 1 _).trans (mirror_extends [c] _)
  have hprinted : Extends (k.terminalPutchar c) ((k.print (c :: out)).emit .ret) :=
    (((crlf_extends c _ _).trans (crlf_extends c _ _)).trans (print_extends out _)).emit .ret
  obtain ⟨es, hes, -⟩ := hdrawn.trans hprinted
  show 0#32 ∈ printfCells false ((Console.print s.2 _).emit .ret).trace
  rw [hout, ← hk, hes, hk]
  exact List.mem_cons_self

theorem printfCells_append {p : Addr} {es : List Event} (es' : List Event) {inside : Bool}
    (h : p ∈ printfCells inside es) : p ∈ printfCells inside (es ++ es') := by
  induction es generalizing inside with
  | nil => exact absurd h List.not_mem_nil
  | cons e es ih =>
      cases e with
      | cell q entry =>
          cases inside with
          | true => exact (List.mem_cons.mp h).elim (· ▸ List.mem_cons_self) fun h => List.mem_cons_of_mem _ (ih h)
          | false => exact ih h
      | byte q => exact ih h
      | com1 b => exact ih h
      | load part q n => exact ih h
      | printf format args => exact ih h
      | ret => exact ih h

/-! ## The boot -/

/-- The arguments of a message are what its format asks for. -/
def sayAccepted (c : String × List Arg) : Bool :=
  Console.accepts ((cString (chars c.1)).length + 1) (cString (chars c.1)) (c.2.map Arg.kind)

theorem say_returns {c : String × List Arg} (h : sayAccepted c = true) (k : Console) :
    ∃ k', k.say c.1 c.2 = some k' := by
  unfold sayAccepted at h
  rw [Console.accepts_kind] at h
  obtain ⟨r, k', hprintf⟩ := Console.printf_returns h k
  exact ⟨k', congrArg (Option.map Prod.snd) hprintf⟩

theorem setupGdt_returns (gp : Addr) (k : Console) : ∃ k', setupGdt gp k = some k' := by
  have hall : ∀ (cs : List (String × List Arg)), cs.all sayAccepted = true → ∀ k : Console,
      ∃ k', Runs.run (fun k (c : String × List Arg) => k.say c.1 c.2) k cs = some k' := by
    intro cs
    induction cs with
    | nil => exact fun _ k => ⟨k, rfl⟩
    | cons c cs ih =>
        intro h k
        obtain ⟨hc, hcs⟩ := Bool.and_eq_true_iff.mp h
        obtain ⟨k₁, h₁⟩ := say_returns hc k
        obtain ⟨k', h'⟩ := ih hcs k₁
        exact ⟨k', Runs.run_cons_some.mpr ⟨k₁, h₁, h'⟩⟩
  refine hall (gdtMessages gp) ?_ k
  simp only [gdtMessages, sayAccepted, List.all_cons, List.all_nil, List.map_cons, List.map_nil, Arg.kind]
  decide +kernel

/-- A boot whose `validate_boot` comes to an end draws at address 0. -/
theorem boot_draws_at_zero {fuel : Nat} {magic addr : BitVec 32} {m : Mem} {k₁ : Console}
    (h : validateBoot fuel magic addr (Console.boot m) = some k₁) (b : BootView) :
    ∃ k, higherHalfRun fuel magic addr b (Console.boot m) = some k ∧ 0#32 ∈ printfCells false k.trace := by
  obtain ⟨k₂, hgdt⟩ := setupGdt_returns b.gp k₁
  obtain ⟨s, hmain⟩ := kernelMain_returns b.serialOk b.view (Subsystem.start b.cr0 k₂)
  obtain ⟨k, hhalt⟩ := say_returns (c := ("System halted.", [])) (by decide +kernel) s.debug.console
  refine ⟨k, ?_, ?_⟩
  · unfold higherHalfRun
    rw [h, Option.bind_eq_bind, Option.bind_some, hgdt]
    show (kernelMain b.serialOk b.view (Subsystem.start b.cr0 k₂)).bind _ = _
    rw [hmain]
    exact hhalt
  · obtain ⟨k₀, hsay, hvalidated⟩ := validateBoot_extends h
    obtain ⟨r, hprintf, rfl⟩ := Option.map_eq_some_iff.mp hsay
    have hfirst : 0#32 ∈ printfCells false r.2.trace :=
      first_cell (c := 86#8) (chars "alidating multiboot information at virtual address %x\n")
        (by unfold Plain; decide) (by decide) (by decide) hprintf
    have hstart : Extends k₂ (Subsystem.start b.cr0 k₂).debug.console :=
      terminalInitialize_extends b.cr0 k₂
    have hearly := (hvalidated.trans (setupGdt_extends hgdt)).trans hstart
    obtain ⟨es, hes, -⟩ := (hearly.trans (kernelMain_extends hmain)).trans (say_extends hhalt)
    rw [hes]
    exact printfCells_append es hfirst

/-- In every boot whose `validate_boot` comes to an end, a call of `printf` stores
a character outside the VGA text buffer. -/
theorem printf_before_init {fuel : Nat} {magic addr : BitVec 32} {m : Mem} {k₁ : Console}
    (h : validateBoot fuel magic addr (Console.boot m) = some k₁) (b : BootView) :
    ∃ k, higherHalfRun fuel magic addr b (Console.boot m) = some k ∧
      ¬ ∀ p ∈ printfCells false k.trace, InVgaText p := by
  obtain ⟨k, hrun, hzero⟩ := boot_draws_at_zero h b
  refine ⟨k, hrun, ?_⟩
  intro hall
  have hlow := (hall 0#32 hzero).1
  exact absurd hlow (by decide)

/-- The view of a boot of such a kernel. -/
def smallBootView : BootView := ⟨0xC0108000#32, 0x80000001#32, true, smallView⟩

/-- A loader that is not multiboot 2. -/
theorem wrong_magic_returns : ∃ k, validateBoot 0 0#32 0#32 (Console.boot fun _ => 0#8) = some k := by
  obtain ⟨k₁, h₁⟩ := say_returns
    (c := ("Validating multiboot information at virtual address %x\n", [.word 0#32])) (by decide +kernel)
    (Console.boot fun _ => 0#8)
  obtain ⟨k₂, h₂⟩ := say_returns
    (c := ("Invalid magic number: %x (expected %x)\n", [.word 0#32, .word multibootMagic])) (by decide +kernel) k₁
  refine ⟨k₂, ?_⟩
  unfold validateBoot
  rw [h₁, Option.bind_eq_bind, Option.bind_some, if_pos (by decide)]
  exact h₂

theorem printf_before_init_small :
    ∃ k, higherHalfRun 0 0#32 0#32 smallBootView (Console.boot fun _ => 0#8) = some k ∧
      ¬ ∀ p ∈ printfCells false k.trace, InVgaText p := by
  obtain ⟨k₁, h⟩ := wrong_magic_returns
  exact printf_before_init h smallBootView

/-- The 'V' of "Validating multiboot information …" is stored at address 0. -/
theorem first_character_at_zero :
    ∃ k, higherHalfRun 0 0#32 0#32 smallBootView (Console.boot fun _ => 0#8) = some k ∧
      0#32 ∈ printfCells false k.trace ∧ ¬ InVgaText 0#32 := by
  obtain ⟨k₁, h⟩ := wrong_magic_returns
  obtain ⟨k, hrun, hzero⟩ := boot_draws_at_zero h smallBootView
  refine ⟨k, hrun, hzero, ?_⟩
  unfold InVgaText
  decide

end RedOS
