/-
# `RedOS.Boot.Gdt` — `gdt.c`

`setup_gdt` writes three descriptors, points GDTR at them and reloads every
segment register, printing as it goes.  It runs before `terminal_initialize`, so
what it prints is drawn from address 0 on; the table and the pointer are
elsewhere, in the kernel.

    gdtSetEntry_loaded    a register gets what was set last for its entry
    setupGdtCpu_flat      after `setup_gdt` all six registers are flat
-/
import RedOS.Lib.X86Segment
import RedOS.Boot.Order

namespace RedOS

open ByteMemory X86Segment

/-! ## `gdt_set_entry` -/

/-- `gdt_set_entry`, for the array at `gdt`. -/
def gdtSetEntry (gdt : Addr) (num base limit : BitVec 32) (access gran : BitVec 8) (m : Mem) : Mem :=
  let entry := gdt + 8#32 * num
  let m := store16 m (entry + 2) ((base &&& 0xFFFF#32).setWidth 16) -- `base_low`
  let m := store8 m (entry + 4) (((base >>> 16) &&& 0xFF#32).setWidth 8) -- `base_middle`
  let m := store8 m (entry + 7) (((base >>> 24) &&& 0xFF#32).setWidth 8) -- `base_high`
  let m := store16 m entry ((limit &&& 0xFFFF#32).setWidth 16) -- `limit_low`
  let m := store8 m (entry + 6) -- `granularity`
    (((limit >>> 16) &&& 0x0F#32 ||| gran.setWidth 32 &&& 0xF0#32).setWidth 8)
  store8 m (entry + 5) access

/-- What the arguments say. -/
def gdtDescriptor (base limit : BitVec 32) (access gran : BitVec 8) : Descriptor where
  base := base
  limit := limit.setWidth 20
  access := access
  flags := gran.extractLsb' 4 4

/-- The pieces of a base make the base. -/
theorem base_pieces (base : BitVec 32) :
    (((base >>> 24) &&& 0xFF#32).setWidth 8 ++ ((base >>> 16) &&& 0xFF#32).setWidth 8 ++
      (base &&& 0xFFFF#32).setWidth 16 : BitVec 32) = base := by
  have hlt := base.isLt
  apply BitVec.eq_of_toNat_eq
  simp only [BitVec.toNat_append, BitVec.toNat_setWidth, BitVec.toNat_and, BitVec.toNat_ushiftRight,
    BitVec.toNat_ofNat, show (255 % 2 ^ 32 : Nat) = 2 ^ 8 - 1 from rfl,
    show (65535 % 2 ^ 32 : Nat) = 2 ^ 16 - 1 from rfl, Nat.and_two_pow_sub_one_eq_mod,
    Nat.shiftRight_eq_div_pow]
  rw [← Nat.shiftLeft_add_eq_or_of_lt (by omega), ← Nat.shiftLeft_add_eq_or_of_lt (by omega),
    Nat.shiftLeft_eq, Nat.shiftLeft_eq]
  omega

/-- A mask of low bits, bit by bit. -/
theorem getLsbD_mask {v : BitVec 32} {a b : Nat} (h : ∀ i < 32, v.getLsbD i = decide (a ≤ i ∧ i < b))
    (hb : b ≤ 32) (i : Nat) : v.getLsbD i = decide (a ≤ i ∧ i < b) := by
  rcases Nat.lt_or_ge i 32 with hi | hi
  · exact h i hi
  · rw [BitVec.getLsbD_of_ge _ _ hi, decide_eq_false (by omega)]

/-- The granularity byte has the high bits of the limit and the flags. -/
theorem granularity_pieces (limit : BitVec 32) (gran : BitVec 8) :
    let b : BitVec 8 := ((limit >>> 16) &&& 0x0F#32 ||| gran.setWidth 32 &&& 0xF0#32).setWidth 8
    (b.extractLsb' 0 4 ++ (limit &&& 0xFFFF#32).setWidth 16 : BitVec 20) = limit.setWidth 20 ∧
      b.extractLsb' 4 4 = gran.extractLsb' 4 4 := by
  have hnibble := getLsbD_mask (v := 0x0F#32) (a := 0) (b := 4) (by decide) (by decide)
  have hflags := getLsbD_mask (v := 0xF0#32) (a := 4) (b := 8) (by decide) (by decide)
  have hhalf := getLsbD_mask (v := 0xFFFF#32) (a := 0) (b := 16) (by decide) (by decide)
  intro b
  constructor
  · apply BitVec.eq_of_getLsbD_eq
    intro i hi
    simp only [b, BitVec.getLsbD_append, BitVec.getLsbD_extractLsb', BitVec.getLsbD_setWidth,
      BitVec.getLsbD_or, BitVec.getLsbD_and, BitVec.getLsbD_ushiftRight, hnibble, hflags, hhalf]
    grind
  · apply BitVec.eq_of_getLsbD_eq
    intro i hi
    simp only [b, BitVec.getLsbD_extractLsb', BitVec.getLsbD_setWidth, BitVec.getLsbD_or,
      BitVec.getLsbD_and, BitVec.getLsbD_ushiftRight, hnibble, hflags]
    grind

/-! ### Stores and the half-words around them -/

theorem load16_store8_ne (m : Mem) {p q : Addr} (b : BitVec 8) (h : q ≠ p) (h' : q + 1 ≠ p) :
    load16 (store8 m p b) q = load16 m q := by
  unfold load16
  rw [store8_ne m b h, store8_ne m b h']

theorem load16_store16_ne (m : Mem) {p q : Addr} (v : BitVec 16) (h : ∀ a, InBlock q 2 a → ¬ InBlock p 2 a) :
    load16 (store16 m p v) q = load16 m q :=
  load16_congr fun a ha => store16_apply_ne m v (h a ha)

/-- An entry that has been set reads back as its arguments. -/
theorem gdtSetEntry_reads (gdt : Addr) (num base limit : BitVec 32) (access gran : BitVec 8) (m : Mem) :
    descriptorAt (gdtSetEntry gdt num base limit access gran m) (gdt + 8#32 * num) =
      gdtDescriptor base limit access gran := by
  obtain ⟨hlimit, hflags⟩ := granularity_pieces limit gran
  unfold gdtSetEntry
  dsimp only
  generalize gdt + 8#32 * num = e
  -- one read for each field, through the stores after its own
  have hlow : ¬ InBlock e 2 (e + 4) ∧ ¬ InBlock e 2 (e + 7) := by
    unfold InBlock
    constructor <;> bv_omega
  have hdisjoint : ∀ a, InBlock (e + 2) 2 a → ¬ InBlock e 2 a := by
    unfold InBlock
    intro a ha
    bv_omega
  unfold descriptorAt gdtDescriptor
  rw [store8_ne _ _ (show e + 7 ≠ e + 5 by bv_omega), store8_ne _ _ (show e + 7 ≠ e + 6 by bv_omega),
    store16_apply_ne _ _ hlow.2, store8_self, store8_ne _ _ (show e + 4 ≠ e + 5 by bv_omega),
    store8_ne _ _ (show e + 4 ≠ e + 6 by bv_omega), store16_apply_ne _ _ hlow.1,
    store8_ne _ _ (show e + 4 ≠ e + 7 by bv_omega), store8_self,
    load16_store8_ne _ _ (show e + 2 ≠ e + 5 by bv_omega) (show e + 2 + 1 ≠ e + 5 by bv_omega),
    load16_store8_ne _ _ (show e + 2 ≠ e + 6 by bv_omega) (show e + 2 + 1 ≠ e + 6 by bv_omega),
    load16_store16_ne _ _ hdisjoint,
    load16_store8_ne _ _ (show e + 2 ≠ e + 7 by bv_omega) (show e + 2 + 1 ≠ e + 7 by bv_omega),
    load16_store8_ne _ _ (show e + 2 ≠ e + 4 by bv_omega) (show e + 2 + 1 ≠ e + 4 by bv_omega),
    load16_store16, base_pieces, store8_ne _ _ (show e + 6 ≠ e + 5 by bv_omega), store8_self,
    load16_store8_ne _ _ (show e ≠ e + 5 by bv_omega) (show e + 1 ≠ e + 5 by bv_omega),
    load16_store8_ne _ _ (show e ≠ e + 6 by bv_omega) (show e + 1 ≠ e + 6 by bv_omega),
    load16_store16, hlimit, hflags, store8_self]

theorem gdtSetEntry_frame {gdt num base limit : BitVec 32} {access gran : BitVec 8} {m : Mem} {q : Addr}
    (hq : ¬ InBlock (gdt + 8#32 * num) 8 q) : gdtSetEntry gdt num base limit access gran m q = m q := by
  unfold gdtSetEntry
  generalize gdt + 8#32 * num = e at hq
  have hne : ∀ i : BitVec 32, i.toNat < 8 → q ≠ e + i := by
    rintro i hi rfl
    refine hq ?_
    unfold InBlock
    bv_omega
  have hhalf : ∀ i : BitVec 32, i.toNat < 7 → ¬ InBlock (e + i) 2 q := by
    intro i hi hin
    refine hq ?_
    unfold InBlock at hin ⊢
    bv_omega
  have hlow := hhalf 0#32 (by decide)
  rw [BitVec.add_zero] at hlow
  rw [store8_ne _ _ (hne 5 (by decide)), store8_ne _ _ (hne 6 (by decide)), store16_apply_ne _ _ hlow,
    store8_ne _ _ (hne 7 (by decide)), store8_ne _ _ (hne 4 (by decide)),
    store16_apply_ne _ _ (hhalf 2 (by decide))]

/-! ### Several calls -/

/-- The arguments of a call. -/
structure GdtEntry where
  num : BitVec 32
  base : BitVec 32
  limit : BitVec 32
  access : BitVec 8
  gran : BitVec 8

def GdtEntry.set (gdt : Addr) (m : Mem) (c : GdtEntry) : Mem :=
  gdtSetEntry gdt c.num c.base c.limit c.access c.gran m

def GdtEntry.descriptor (c : GdtEntry) : Descriptor := gdtDescriptor c.base c.limit c.access c.gran

/-- Where the entry `i` of the array is. -/
def gdtEntryAt (gdt : Addr) (i : Nat) : Addr := gdt + 8#32 * BitVec.ofNat 32 i

/-- The last call for the entry `i`, if there was one. -/
def lastSet (calls : List GdtEntry) (i : Nat) : Option GdtEntry :=
  calls.reverse.find? fun c => c.num.toNat = i

/-- Two entries of an array that ends in the address space share no byte. -/
theorem gdtEntryAt_disjoint {gdt : Addr} {n i j : Nat} (hfits : gdt.toNat + 8 * n ≤ 2 ^ 32) (hi : i < n)
    (hj : j < n) (hij : i ≠ j) {q : Addr} (hq : InBlock (gdtEntryAt gdt i) 8 q) :
    ¬ InBlock (gdtEntryAt gdt j) 8 q := by
  unfold InBlock gdtEntryAt at *
  bv_omega

theorem gdtEntryAt_in {gdt : Addr} {n i : Nat} (hi : i < n) {q : Addr}
    (hq : InBlock (gdtEntryAt gdt i) 8 q) : InBlock gdt (8 * n) q := by
  unfold InBlock gdtEntryAt at *
  bv_omega

/-- Any calls for an array of `n` entries: each entry reads back as the arguments
of the last call for it, or as it was, and no byte outside the array changes. -/
theorem gdtSetEntry_run {gdt : Addr} {n : Nat} (hfits : gdt.toNat + 8 * n ≤ 2 ^ 32)
    {calls : List GdtEntry} (hnum : ∀ c ∈ calls, c.num.toNat < n) (m : Mem) :
    (∀ i < n, descriptorAt (calls.foldl (GdtEntry.set gdt) m) (gdtEntryAt gdt i) =
      ((lastSet calls i).map GdtEntry.descriptor).getD (descriptorAt m (gdtEntryAt gdt i))) ∧
    ∀ q, ¬ InBlock gdt (8 * n) q → calls.foldl (GdtEntry.set gdt) m q = m q := by
  induction calls using List.reverseRecOn with
  | nil => exact ⟨fun i _ => rfl, fun q _ => rfl⟩
  | append_singleton cs c ih =>
      obtain ⟨hentries, hframe⟩ := ih fun c' hc' => hnum c' (List.mem_append_left _ hc')
      have hc : c.num.toNat < n := hnum c (List.mem_append_right _ List.mem_cons_self)
      have hat : gdt + 8#32 * c.num = gdtEntryAt gdt c.num.toNat := by
        rw [gdtEntryAt, BitVec.ofNat_toNat, BitVec.setWidth_eq]
      rw [List.foldl_append, List.foldl_cons, List.foldl_nil]
      constructor
      · intro i hi
        unfold lastSet
        rw [List.reverse_append, List.reverse_singleton, List.singleton_append]
        by_cases hsame : c.num.toNat = i
        · subst hsame
          rw [List.find?_cons_of_pos (by exact decide_eq_true rfl), ← hat]
          exact gdtSetEntry_reads gdt c.num c.base c.limit c.access c.gran _
        · rw [List.find?_cons_of_neg (by exact fun h => hsame (of_decide_eq_true h))]
          refine Eq.trans (descriptorAt_congr ?_) (hentries i hi)
          intro q hq
          refine gdtSetEntry_frame ?_
          rw [hat]
          exact gdtEntryAt_disjoint hfits hi hc (Ne.symm hsame) hq
      · intro q hq
        refine Eq.trans (gdtSetEntry_frame ?_) (hframe q hq)
        rw [hat]
        exact fun hin => hq (gdtEntryAt_in hc hin)

/-- GDTR for an array of `n` entries. -/
def gdtTable (gdt : Addr) (n : Nat) : Table := ⟨gdt, BitVec.ofNat 16 (8 * n - 1)⟩

theorem gdtTable_lookup {gdt : Addr} {n : Nat} (hn : 0 < n) (hlen : n ≤ 8192) {selector : BitVec 16}
    {p : Addr} (h : (gdtTable gdt n).lookup selector = some p) :
    index selector < n ∧ p = gdtEntryAt gdt (index selector) := by
  unfold Table.lookup gdtTable at h
  split at h
  next hin =>
    obtain ⟨-, hlimit⟩ := Bool.and_eq_true_iff.mp hin
    have hlast := of_decide_eq_true hlimit
    rw [BitVec.toNat_ofNat, Nat.mod_eq_of_lt (by omega)] at hlast
    refine ⟨by omega, ?_⟩
    rw [← Option.some.inj h, gdtEntryAt, BitVec.ofNat_mul]
  next => nomatch h

/-- After any calls of `gdt_set_entry` for a table of `n` entries, a segment
register that is loaded through the table has what the last call for its entry
said, or what was there before; the load leaves the other entries as they are, and
nothing outside the table has changed. -/
theorem gdtSetEntry_loaded {gdt : Addr} {n : Nat} (hn : 0 < n) (hlen : n ≤ 8192)
    (hfits : gdt.toNat + 8 * n ≤ 2 ^ 32) {calls : List GdtEntry} (hnum : ∀ c ∈ calls, c.num.toNat < n)
    {m m' : Mem} {l : Load} {cpl : BitVec 2} {selector : BitVec 16} {r : Register} {d : Descriptor}
    (hload : l.run (gdtTable gdt n) cpl selector (calls.foldl (GdtEntry.set gdt) m) = some (r, m'))
    (hr : r.hidden = some d) :
    let entry := fun i => ((lastSet calls i).map GdtEntry.descriptor).getD (descriptorAt m (gdtEntryAt gdt i))
    index selector < n ∧ d = (entry (index selector)).touched ∧
      (∀ i < n, i ≠ index selector → descriptorAt m' (gdtEntryAt gdt i) = entry i) ∧
      ∀ q, ¬ InBlock gdt (8 * n) q → m' q = m q := by
  intro entry
  obtain ⟨hentries, hframe⟩ := gdtSetEntry_run hfits hnum m
  rcases load_some hload with ⟨hnull, -⟩ | ⟨p, hp, hhidden, rfl⟩
  · nomatch hnull.symm.trans hr
  obtain ⟨hindex, rfl⟩ := gdtTable_lookup hn hlen hp
  have hmark : InBlock (gdtEntryAt gdt (index selector)) 8 (gdtEntryAt gdt (index selector) + 5) :=
    inBlock_offset _ (i := 5) (by decide) (by decide)
  refine ⟨hindex, ?_, ?_, ?_⟩
  · rw [← Option.some.inj (hhidden.symm.trans hr), hentries _ hindex]
  · intro i hi hne
    refine Eq.trans (descriptorAt_congr ?_) (hentries i hi)
    intro q hq
    refine touch_apply_ne _ ?_
    rintro rfl
    exact gdtEntryAt_disjoint hfits hindex hi (Ne.symm hne) hmark hq
  · intro q hq
    refine Eq.trans (touch_apply_ne _ ?_) (hframe q hq)
    rintro rfl
    exact hq (gdtEntryAt_in hindex hmark)

/-- An entry set twice. -/
def twiceSet : List GdtEntry :=
  [⟨1#32, 0x12345678#32, 0xABCDE#32, 0x9A#8, 0xCF#8⟩, ⟨1#32, 0x1000#32, 0xFFFFFFFF#32, 0x92#8, 0x4F#8⟩]

theorem gdtSetEntry_loaded_twice :
    let entry := fun i => ((lastSet twiceSet i).map GdtEntry.descriptor).getD
      (descriptorAt (fun _ => 0#8) (gdtEntryAt 0xC0107000#32 i))
    ∃ r m' d, loadData (gdtTable 0xC0107000#32 3) 0#2 8#16
        (twiceSet.foldl (GdtEntry.set 0xC0107000#32) fun _ => 0#8) = some (r, m') ∧ r.hidden = some d ∧
      index 8#16 < 3 ∧ d = (entry (index 8#16)).touched ∧
      (∀ i < 3, i ≠ index 8#16 → descriptorAt m' (gdtEntryAt 0xC0107000#32 i) = entry i) ∧
      ∀ q, ¬ InBlock 0xC0107000#32 (8 * 3) q → m' q = 0#8 := by
  intro entry
  have hsome : (loadData (gdtTable 0xC0107000#32 3) 0#2 8#16
      (twiceSet.foldl (GdtEntry.set 0xC0107000#32) fun _ => 0#8)).map (·.1.hidden.isSome) = some true := by
    decide +kernel
  obtain ⟨⟨r, m'⟩, hload, hhidden⟩ := Option.map_eq_some_iff.mp hsome
  obtain ⟨d, hr⟩ := Option.isSome_iff_exists.mp hhidden
  exact ⟨r, m', d, hload, hr, @gdtSetEntry_loaded 0xC0107000#32 3 (by decide) (by decide) (by decide)
    twiceSet (by decide) (fun _ => 0#8) m' .data 0#2 8#16 r d hload hr⟩

/-! ## `setup_gdt` -/

/-- `GDT_CODE_SEGMENT_PL0`, `GDT_DATA_SEGMENT_PL0` -/
def gdtCodeSegmentPl0 : BitVec 8 := 0x9A#8 ||| 0x00#8

def gdtDataSegmentPl0 : BitVec 8 := 0x92#8 ||| 0x00#8

/-- The console, its memory, and the registers of segmentation. -/
structure GdtState where
  console : Console
  gdtr : Table
  cs : Register
  ds : Register
  es : Register
  fs : Register
  gs : Register
  ss : Register

namespace GdtState

def mem (s : GdtState) : Mem := s.console.mem

def withMem (m : Mem) (s : GdtState) : GdtState := { s with console := { s.console with mem := m } }

def say (format : String) (args : List Arg) (s : GdtState) : Option GdtState :=
  (s.console.say format args).map fun k => { s with console := k }

/-- A read of a segment register, as an argument. -/
def shown (r : Register) : Arg := .word (r.selector.setWidth 32)

/-- `lgdt` -/
def lgdt (p : Addr) (s : GdtState) : GdtState := { s with gdtr := ⟨load32 s.mem (p + 2), load16 s.mem p⟩ }

/-- `movw %ax, %ds` and so on, and `ljmp`: the register that is loaded, and the
state after it. -/
def load (l : Load) (selector : BitVec 16) (s : GdtState) : Option (Register × GdtState) :=
  (l.run s.gdtr s.cs.rpl selector s.mem).map fun r => (r.1, s.withMem r.2)

end GdtState

/-- The descriptors and the pointer, before `lgdt`. -/
def gdtTables (gdt gp : Addr) (m : Mem) : Mem :=
  let m := store16 m gp 23#16 -- `sizeof(struct gdt_entry) * 3 - 1`
  let m := store32 m (gp + 2) gdt
  let m := gdtSetEntry gdt 0#32 0#32 0#32 0#8 0#8 m
  let m := gdtSetEntry gdt 1#32 0#32 0xFFFFFFFF#32 gdtCodeSegmentPl0 0xCF#8 m
  gdtSetEntry gdt 2#32 0#32 0xFFFFFFFF#32 gdtDataSegmentPl0 0xCF#8 m

/-- "Reload segment registers", and the far jump. -/
def reloadSegments (s : GdtState) : Option GdtState := do
  let ax := gdtDataSelector.setWidth 16
  let (ds, s) ← s.load .data ax
  let s := { s with ds := ds }
  let (es, s) ← s.load .data ax
  let s := { s with es := es }
  let (fs, s) ← s.load .data ax
  let s := { s with fs := fs }
  let (gs, s) ← s.load .data ax
  let s := { s with gs := gs }
  let (ss, s) ← s.load .stack ax
  let s := { s with ss := ss }
  let (cs, s) ← s.load .code (gdtCodeSelector.setWidth 16)
  pure { s with cs := cs }

/-- "Verify that segment registers were loaded correctly" -/
def gdtSelfTest (s : GdtState) : Option GdtState := do
  let s ← s.say "GDT loaded successfully. Running self test...\n" []
  let s ← s.say "CS selector value: %x, expected value: %x\n" [GdtState.shown s.cs, .word gdtCodeSelector]
  let s ← s.say "GS selector value: %x, expected value: %x\n" [GdtState.shown s.gs, .word gdtDataSelector]
  let s ← s.say "DS selector value: %x, expected value: %x\n" [GdtState.shown s.ds, .word gdtDataSelector]
  let s ← s.say "ES selector value: %x, expected value: %x\n" [GdtState.shown s.es, .word gdtDataSelector]
  let s ← s.say "FS selector value: %x, expected value: %x\n" [GdtState.shown s.fs, .word gdtDataSelector]
  let s ← s.say "SS selector value: %x, expected value: %x\n" [GdtState.shown s.ss, .word gdtDataSelector]
  s.say "GDT setup and test complete!\n" []

/-- `setup_gdt`, with the addresses of `gdt` and `gp`. -/
def setupGdtCpu (gdt gp : Addr) (s : GdtState) : Option GdtState := do
  let s ← s.say "Setting up GDT for higher half kernel...\n" []
  let s := s.withMem (gdtTables gdt gp s.mem)
  let s ← s.say "GDT location: %x\n" [.word gp]
  let s ← reloadSegments (s.lgdt gp)
  gdtSelfTest s

/-! ### The tables -/

/-- The descriptors of the kernel's code and data, as `gdt_set_entry` writes them. -/
def kernelCode : Descriptor := gdtDescriptor 0#32 0xFFFFFFFF#32 gdtCodeSegmentPl0 0xCF#8

def kernelData : Descriptor := gdtDescriptor 0#32 0xFFFFFFFF#32 gdtDataSegmentPl0 0xCF#8

/-- The pointer and the table are in memory; the processor may have marked the
descriptors. -/
structure TablesHold (gdt gp : Addr) (m : Mem) : Prop where
  limit : load16 m gp = 23#16
  base : load32 m (gp + 2) = gdt
  code : descriptorAt m (gdtEntryAt gdt 1) = kernelCode ∨
    descriptorAt m (gdtEntryAt gdt 1) = kernelCode.touched
  data : descriptorAt m (gdtEntryAt gdt 2) = kernelData ∨
    descriptorAt m (gdtEntryAt gdt 2) = kernelData.touched

/-- The two variables of `gdt.c`: in the address space, apart, and not where the
early messages are drawn. -/
structure GdtPlaced (gdt gp : Addr) : Prop where
  table : gdt.toNat + 24 ≤ 2 ^ 32
  pointer : gp.toNat + 6 ≤ 2 ^ 32
  apart : ∀ q, InBlock gdt 24 q → ¬ InBlock gp 6 q
  above : 4000 ≤ gdt.toNat ∧ 4000 ≤ gp.toNat

theorem TablesHold.congr {gdt gp : Addr} {m m' : Mem} (hm : TablesHold gdt gp m)
    (h : ∀ q, InBlock gdt 24 q ∨ InBlock gp 6 q → m' q = m q) : TablesHold gdt gp m' := by
  have hentry : ∀ i < 3, descriptorAt m' (gdtEntryAt gdt i) = descriptorAt m (gdtEntryAt gdt i) := by
    intro i hi
    exact descriptorAt_congr fun q hq => h q (.inl (gdtEntryAt_in (n := 3) hi hq))
  have hlimit : load16 m' gp = load16 m gp := load16_congr fun q hq => h q (.inr (by
    unfold InBlock at hq ⊢
    omega))
  have hbase : load32 m' (gp + 2) = load32 m (gp + 2) := load32_congr fun q hq => h q (.inr (by
    unfold InBlock at hq ⊢
    bv_omega))
  constructor
  case limit => rw [hlimit, hm.limit]
  case base => rw [hbase, hm.base]
  case code =>
    rw [hentry 1 (by decide)]
    exact hm.code
  case data =>
    rw [hentry 2 (by decide)]
    exact hm.data

section Placed

variable {gdt gp : Addr} (hplaced : GdtPlaced gdt gp)

include hplaced

/-- What is set up is there, and nothing else has changed. -/
theorem gdtTables_hold (m : Mem) : TablesHold gdt gp (gdtTables gdt gp m) ∧
    ∀ q, ¬ InBlock gdt 24 q → ¬ InBlock gp 6 q → gdtTables gdt gp m q = m q := by
  obtain ⟨calls, hcalls⟩ : ∃ calls, calls = [GdtEntry.mk 0#32 0#32 0#32 0#8 0#8,
      ⟨1#32, 0#32, 0xFFFFFFFF#32, gdtCodeSegmentPl0, 0xCF#8⟩,
      ⟨2#32, 0#32, 0xFFFFFFFF#32, gdtDataSegmentPl0, 0xCF#8⟩] := ⟨_, rfl⟩
  obtain ⟨m₁, hm₁⟩ : ∃ m₁, m₁ = store32 (store16 m gp 23#16) (gp + 2) gdt := ⟨_, rfl⟩
  have htables : gdtTables gdt gp m = calls.foldl (GdtEntry.set gdt) m₁ := by
    rw [hcalls, hm₁]
    rfl
  have hnum : ∀ c ∈ calls, c.num.toNat < 3 := by
    rw [hcalls]
    decide
  obtain ⟨hentries, hframe⟩ := gdtSetEntry_run (n := 3) hplaced.table hnum m₁
  have hlast : lastSet calls 1 = some ⟨1#32, 0#32, 0xFFFFFFFF#32, gdtCodeSegmentPl0, 0xCF#8⟩ ∧
      lastSet calls 2 = some ⟨2#32, 0#32, 0xFFFFFFFF#32, gdtDataSegmentPl0, 0xCF#8⟩ := by
    rw [hcalls]
    exact ⟨rfl, rfl⟩
  have hpointer : ∀ q, InBlock gp 6 q → calls.foldl (GdtEntry.set gdt) m₁ q = m₁ q :=
    fun q hq => hframe q fun hin => hplaced.apart q hin hq
  rw [htables]
  refine ⟨⟨?_, ?_, .inl ?_, .inl ?_⟩, ?_⟩
  · have hlow : ∀ q, InBlock gp 2 q → m₁ q = store16 m gp 23#16 q := by
      intro q hq
      rw [hm₁]
      refine store32_apply_ne _ _ ?_
      unfold InBlock at hq ⊢
      bv_omega
    rw [load16_congr fun q hq => hpointer q (Nat.lt_trans hq (by decide)),
      load16_congr hlow, load16_store16]
  · have hhigh : ∀ q, InBlock (gp + 2) 4 q → InBlock gp 6 q := by
      intro q hq
      unfold InBlock at hq ⊢
      bv_omega
    rw [load32_congr fun q hq => hpointer q (hhigh q hq), hm₁, load32_store32]
  · rw [hentries 1 (by decide), hlast.1]
    rfl
  · rw [hentries 2 (by decide), hlast.2]
    rfl
  · intro q hgdt hgp
    rw [hframe q hgdt, hm₁, store32_apply_ne, store16_apply_ne]
    · exact fun hin => hgp (Nat.lt_trans hin (by decide))
    · unfold InBlock at hgp ⊢
      bv_omega

/-- The processor's mark on a descriptor of the table is all that a load changes. -/
theorem TablesHold.touch {m : Mem} (hm : TablesHold gdt gp m) {i : Nat} (hi : i = 1 ∨ i = 2) :
    TablesHold gdt gp (touch m (gdtEntryAt gdt i)) ∧
      ∀ q, ¬ InBlock gdt 24 q → X86Segment.touch m (gdtEntryAt gdt i) q = m q := by
  have hlt : i < 3 := by omega
  have hmark : InBlock (gdtEntryAt gdt i) 8 (gdtEntryAt gdt i + 5) :=
    inBlock_offset _ (i := 5) (by decide) (by decide)
  have hframe : ∀ q, ¬ InBlock gdt 24 q → X86Segment.touch m (gdtEntryAt gdt i) q = m q := by
    intro q hq
    refine touch_apply_ne m ?_
    rintro rfl
    exact hq (gdtEntryAt_in (n := 3) hlt hmark)
  have hother : ∀ j < 3, j ≠ i →
      descriptorAt (X86Segment.touch m (gdtEntryAt gdt i)) (gdtEntryAt gdt j) =
        descriptorAt m (gdtEntryAt gdt j) := by
    intro j hj hne
    refine descriptorAt_congr ?_
    intro q hq
    refine touch_apply_ne m ?_
    rintro rfl
    exact gdtEntryAt_disjoint hplaced.table hlt hj (Ne.symm hne) hmark hq
  -- a mark on a mark is the mark
  have hmarked : ∀ {d : Descriptor}, d.touched.touched = d.touched →
      descriptorAt m (gdtEntryAt gdt i) = d ∨ descriptorAt m (gdtEntryAt gdt i) = d.touched →
      descriptorAt (X86Segment.touch m (gdtEntryAt gdt i)) (gdtEntryAt gdt i) = d.touched := by
    intro d htwice h
    rw [descriptorAt_touch]
    rcases h with h | h
    · rw [h]
    · rw [h, htwice]
  have hpointer : ∀ q, InBlock gp 6 q → X86Segment.touch m (gdtEntryAt gdt i) q = m q :=
    fun q hq => hframe q fun hin => hplaced.apart q hin hq
  refine ⟨⟨?_, ?_, ?_, ?_⟩, hframe⟩
  · rw [load16_congr fun q hq => hpointer q (Nat.lt_trans hq (by decide)), hm.limit]
  · refine Eq.trans (load32_congr fun q hq => hpointer q ?_) hm.base
    unfold InBlock at hq ⊢
    bv_omega
  · rcases hi with rfl | rfl
    · exact .inr (hmarked (by decide) hm.code)
    · rw [hother 1 (by decide) (by decide)]
      exact hm.code
  · rcases hi with rfl | rfl
    · rw [hother 2 (by decide) (by decide)]
      exact hm.data
    · exact .inr (hmarked (by decide) hm.data)

end Placed

/-! ### The loads -/

theorem load_kernelData {gdt : Addr} {m : Mem} (h : descriptorAt m (gdtEntryAt gdt 2) = kernelData ∨
    descriptorAt m (gdtEntryAt gdt 2) = kernelData.touched) {l : Load} (hl : l = .data ∨ l = .stack) :
    l.run ⟨gdt, 23#16⟩ 0#2 0x10#16 m =
      some (⟨0x10#16, some kernelData.touched⟩, touch m (gdtEntryAt gdt 2)) := by
  have hlookup : (Table.mk gdt 23#16).lookup 0x10#16 = some (gdtEntryAt gdt 2) := rfl
  have hloaded : loaded 0x10#16 (gdtEntryAt gdt 2) m =
      (⟨0x10#16, some kernelData.touched⟩, touch m (gdtEntryAt gdt 2)) := by
    unfold loaded
    rcases h with h | h
    · rw [h]
    · rw [h, show kernelData.touched.touched = kernelData.touched by decide]
  rw [← hloaded]
  rcases hl with rfl | rfl
  · change loadData ⟨gdt, 23#16⟩ 0#2 0x10#16 m = _
    unfold loadData
    rw [if_neg (by decide), hlookup]
    dsimp only
    rcases h with h | h <;> rw [h] <;> exact if_pos (by decide)
  · change loadStack ⟨gdt, 23#16⟩ 0#2 0x10#16 m = _
    unfold loadStack
    rw [if_neg (by decide), hlookup]
    dsimp only
    rcases h with h | h <;> rw [h] <;> exact if_pos (by decide)

theorem load_kernelCode {gdt : Addr} {m : Mem} (h : descriptorAt m (gdtEntryAt gdt 1) = kernelCode ∨
    descriptorAt m (gdtEntryAt gdt 1) = kernelCode.touched) :
    loadCode ⟨gdt, 23#16⟩ 0#2 0x08#16 m =
      some (⟨0x08#16, some kernelCode.touched⟩, touch m (gdtEntryAt gdt 1)) := by
  have hlookup : (Table.mk gdt 23#16).lookup 0x08#16 = some (gdtEntryAt gdt 1) := rfl
  have hloaded : loaded 0x08#16 (gdtEntryAt gdt 1) m =
      (⟨0x08#16, some kernelCode.touched⟩, touch m (gdtEntryAt gdt 1)) := by
    unfold loaded
    rcases h with h | h
    · rw [h]
    · rw [h, show kernelCode.touched.touched = kernelCode.touched by decide]
  rw [← hloaded]
  unfold loadCode
  rw [if_neg (by decide), hlookup]
  dsimp only
  rcases h with h | h <;> rw [h] <;> exact if_pos (by decide)

/-- The registers with the two descriptors. -/
def kernelDataRegister : Register := ⟨0x10#16, some kernelData.touched⟩

def kernelCodeRegister : Register := ⟨0x08#16, some kernelCode.touched⟩

section Loads

variable {gdt gp : Addr} {s : GdtState}

/-- A load of a data segment register changes the table's mark at most. -/
theorem load_data (hplaced : GdtPlaced gdt gp) (hgdtr : s.gdtr = ⟨gdt, 23#16⟩) (hcpl : s.cs.rpl = 0#2)
    (hm : TablesHold gdt gp s.mem) {l : Load} (hl : l = .data ∨ l = .stack) :
    ∃ m, s.load l 0x10#16 = some (kernelDataRegister, s.withMem m) ∧ TablesHold gdt gp m ∧
      ∀ q, ¬ InBlock gdt 24 q → m q = s.mem q := by
  obtain ⟨hhold, hframe⟩ := hm.touch hplaced (.inr rfl)
  refine ⟨_, ?_, hhold, hframe⟩
  unfold GdtState.load
  rw [hgdtr, hcpl, load_kernelData hm.data hl]
  rfl

theorem load_code (hplaced : GdtPlaced gdt gp) (hgdtr : s.gdtr = ⟨gdt, 23#16⟩) (hcpl : s.cs.rpl = 0#2)
    (hm : TablesHold gdt gp s.mem) :
    ∃ m, s.load .code 0x08#16 = some (kernelCodeRegister, s.withMem m) ∧ TablesHold gdt gp m ∧
      ∀ q, ¬ InBlock gdt 24 q → m q = s.mem q := by
  obtain ⟨hhold, hframe⟩ := hm.touch hplaced (.inl rfl)
  refine ⟨_, ?_, hhold, hframe⟩
  unfold GdtState.load
  rw [hgdtr, hcpl]
  change (loadCode ⟨gdt, 23#16⟩ 0#2 0x08#16 s.mem).map _ = _
  rw [load_kernelCode hm.code]
  rfl

/-- The state with all six registers reloaded, and memory `m`. -/
def reloaded (m : Mem) (s : GdtState) : GdtState where
  console := { s.console with mem := m }
  gdtr := s.gdtr
  cs := kernelCodeRegister
  ds := kernelDataRegister
  es := kernelDataRegister
  fs := kernelDataRegister
  gs := kernelDataRegister
  ss := kernelDataRegister

theorem reloadSegments_flat (hplaced : GdtPlaced gdt gp) (hgdtr : s.gdtr = ⟨gdt, 23#16⟩)
    (hcpl : s.cs.rpl = 0#2) (hm : TablesHold gdt gp s.mem) :
    ∃ m, reloadSegments s = some (reloaded m s) ∧ TablesHold gdt gp m ∧
      ∀ q, ¬ InBlock gdt 24 q → m q = s.mem q := by
  obtain ⟨m₁, h₁, hm₁, hframe₁⟩ := load_data hplaced hgdtr hcpl hm (l := .data) (.inl rfl)
  obtain ⟨m₂, h₂, hm₂, hframe₂⟩ := load_data (s := { s.withMem m₁ with ds := kernelDataRegister })
    hplaced hgdtr hcpl hm₁ (l := .data) (.inl rfl)
  obtain ⟨m₃, h₃, hm₃, hframe₃⟩ := load_data (s := { s.withMem m₂ with
    ds := kernelDataRegister, es := kernelDataRegister }) hplaced hgdtr hcpl hm₂ (l := .data) (.inl rfl)
  obtain ⟨m₄, h₄, hm₄, hframe₄⟩ := load_data (s := { s.withMem m₃ with
    ds := kernelDataRegister, es := kernelDataRegister, fs := kernelDataRegister })
    hplaced hgdtr hcpl hm₃ (l := .data) (.inl rfl)
  obtain ⟨m₅, h₅, hm₅, hframe₅⟩ := load_data (s := { s.withMem m₄ with
    ds := kernelDataRegister, es := kernelDataRegister, fs := kernelDataRegister,
    gs := kernelDataRegister }) hplaced hgdtr hcpl hm₄ (l := .stack) (.inr rfl)
  obtain ⟨m₆, h₆, hm₆, hframe₆⟩ := load_code (s := { s.withMem m₅ with
    ds := kernelDataRegister, es := kernelDataRegister, fs := kernelDataRegister,
    gs := kernelDataRegister, ss := kernelDataRegister }) hplaced hgdtr hcpl hm₅
  refine ⟨m₆, ?_, hm₆, ?_⟩
  · unfold reloadSegments
    have hax : gdtDataSelector.setWidth 16 = 0x10#16 := rfl
    have hcs : gdtCodeSelector.setWidth 16 = 0x08#16 := rfl
    dsimp only
    rw [hax, hcs, h₁, Option.bind_eq_bind, Option.bind_some]
    refine (congrArg (Option.bind · _) h₂).trans ?_
    refine (congrArg (Option.bind · _) h₃).trans ?_
    refine (congrArg (Option.bind · _) h₄).trans ?_
    refine (congrArg (Option.bind · _) h₅).trans ?_
    exact congrArg (Option.bind · _) h₆
  · intro q hq
    rw [hframe₆ q hq]
    exact (hframe₅ q hq).trans ((hframe₄ q hq).trans ((hframe₃ q hq).trans ((hframe₂ q hq).trans (hframe₁ q hq))))

end Loads

/-! ### The messages -/

theorem say_accepted {R : Part → Addr → Nat → Prop} {k : Console} (hk : k.Setup) {format : String}
    {args : List Arg} (h : sayAccepted (format, args) = true) :
    ∃ k', k.say format args = some k' ∧ Walked R k k' [call format args] := by
  unfold sayAccepted at h
  rw [Console.accepts_kind] at h
  exact Console.say_walked hk format args h

/-- Messages that are accepted are printed, in order. -/
theorem says_walked {R : Part → Addr → Nat → Prop} : ∀ (cs : List (String × List Arg)) {k : Console},
    k.Setup → cs.all sayAccepted = true →
    ∃ k', Runs.run (fun k (c : String × List Arg) => k.say c.1 c.2) k cs = some k' ∧
      Walked R k k' (cs.map fun c => call c.1 c.2)
  | [], k, hk, _ => ⟨k, rfl, .refl hk⟩
  | c :: cs, k, hk, h => by
      obtain ⟨hc, hcs⟩ := Bool.and_eq_true_iff.mp h
      obtain ⟨k₁, hsay, hwalked⟩ := say_accepted (R := R) hk hc
      obtain ⟨k', hrun, hrest⟩ := says_walked cs hwalked.setup hcs
      exact ⟨k', Runs.run_cons_some.mpr ⟨k₁, hsay, hrun⟩, hwalked.trans hrest⟩

theorem gdtMessages_accepted (gp : Addr) : (gdtMessages gp).all sayAccepted = true := by
  refine List.all_eq_true.mpr ?_
  unfold gdtMessages
  simp only [List.forall_mem_cons]
  repeat' apply And.intro
  any_goals exact (Console.accepts_kind _ _ _).trans (Console.accepts_ofList rfl)
  exact fun c hc => nomatch hc

/-- The self test of registers that have been reloaded prints what is expected. -/
theorem gdtSelfTest_says (m : Mem) (gp : Addr) (s : GdtState) {k : Console}
    (h : Runs.run (fun k (c : String × List Arg) => k.say c.1 c.2) { s.console with mem := m }
      ((gdtMessages gp).drop 2) = some k) :
    gdtSelfTest (reloaded m s) = some { reloaded m s with console := k } := by
  have hcode : [GdtState.shown kernelCodeRegister, .word gdtCodeSelector] =
      [.word gdtCodeSelector, .word gdtCodeSelector] := rfl
  have hdata : [GdtState.shown kernelDataRegister, .word gdtDataSelector] =
      [.word gdtDataSelector, .word gdtDataSelector] := rfl
  have hstep : ∀ {k k' : Console} {c : String × List Arg} {args : List Arg}
      {f : GdtState → Option GdtState}, args = c.2 → k.say c.1 c.2 = some k' →
      (GdtState.say c.1 args { reloaded m s with console := k }).bind f =
        f { reloaded m s with console := k' } := by
    rintro k k' c args f rfl hk
    unfold GdtState.say
    rw [hk]
    rfl
  obtain ⟨k₁, h₁, h⟩ := Runs.run_cons_some.mp h
  obtain ⟨k₂, h₂, h⟩ := Runs.run_cons_some.mp h
  obtain ⟨k₃, h₃, h⟩ := Runs.run_cons_some.mp h
  obtain ⟨k₄, h₄, h⟩ := Runs.run_cons_some.mp h
  obtain ⟨k₅, h₅, h⟩ := Runs.run_cons_some.mp h
  obtain ⟨k₆, h₆, h⟩ := Runs.run_cons_some.mp h
  obtain ⟨k₇, h₇, h⟩ := Runs.run_cons_some.mp h
  obtain ⟨k₈, h₈, h⟩ := Runs.run_cons_some.mp h
  obtain rfl := Option.some.inj h
  unfold gdtSelfTest
  show Option.bind _ _ = _
  refine (hstep rfl h₁).trans ?_
  refine (hstep hcode h₂).trans ?_
  refine (hstep hdata h₃).trans ?_
  refine (hstep hdata h₄).trans ?_
  refine (hstep hdata h₅).trans ?_
  refine (hstep hdata h₆).trans ?_
  refine (hstep hdata h₇).trans ?_
  exact congrArg (Option.map _) h₈

theorem kernelData_flat : kernelData.touched.Flat := ⟨rfl, by decide, by decide⟩

theorem kernelCode_flat : kernelCode.touched.Flat := ⟨rfl, by decide, by decide⟩

theorem Console.Setup.withMem {k : Console} (hk : k.Setup) (m : Mem) : Console.Setup { k with mem := m } :=
  ⟨⟨hk.ready.fits, hk.ready.row, hk.ready.column⟩, hk.buffer⟩

/-- A message leaves the two variables alone. -/
theorem TablesHold.said {R : Part → Addr → Nat → Prop} {gdt gp : Addr} (hplaced : GdtPlaced gdt gp)
    {k k' : Console} {cs : List (List (BitVec 8) × List Arg)} (hk : TablesHold gdt gp k.mem)
    (h : Walked R k k' cs) : TablesHold gdt gp k'.mem := by
  obtain ⟨htable, hpointer, -, hgdt, hgp⟩ := hplaced
  refine hk.congr ?_
  intro q hq
  refine h.kept q ?_
  rcases hq with hq | hq
  · have hin := (inBlock_iff htable q).mp hq
    omega
  · have hin := (inBlock_iff hpointer q).mp hq
    omega

/-- The first two messages, and the tables between them. -/
theorem gdtTables_set {gdt gp : Addr} (hplaced : GdtPlaced gdt gp) {s : GdtState}
    (hsetup : s.console.Setup) :
    ∃ k₁ k₂ : Console, s.console.say "Setting up GDT for higher half kernel...\n" [] = some k₁ ∧
      Console.say "GDT location: %x\n" [.word gp] { k₁ with mem := gdtTables gdt gp k₁.mem } = some k₂ ∧
      k₂.Setup ∧ TablesHold gdt gp k₂.mem ∧
      k₂.calls = s.console.calls ++ [call "Setting up GDT for higher half kernel...\n" []] ++
        [call "GDT location: %x\n" [.word gp]] ∧
      ∀ q : Addr, 4000 ≤ q.toNat → ¬ InBlock gdt 24 q → ¬ InBlock gp 6 q → k₂.mem q = s.console.mem q := by
  have haccepted := List.all_eq_true.mp (gdtMessages_accepted gp)
  obtain ⟨k₁, hsay₁, hwalked₁⟩ := say_accepted (R := fun _ _ _ => True) hsetup
    (haccepted _ List.mem_cons_self)
  obtain ⟨htables, hframe⟩ := gdtTables_hold hplaced k₁.mem
  obtain ⟨k₂, hsay₂, hwalked₂⟩ := say_accepted (R := fun _ _ _ => True)
    (hwalked₁.setup.withMem (gdtTables gdt gp k₁.mem))
    (haccepted _ (List.mem_cons_of_mem _ List.mem_cons_self))
  refine ⟨k₁, k₂, hsay₁, hsay₂, hwalked₂.setup, htables.said hplaced hwalked₂, ?_, ?_⟩
  · rw [hwalked₂.calls]
    exact congrArg (· ++ _) hwalked₁.calls
  · intro q hq hgdt hgp
    exact (hwalked₂.kept q hq).trans ((hframe q hgdt hgp).trans (hwalked₁.kept q hq))

theorem gdtMessages_calls (gp : Addr) : (gdtMessages gp).map (fun c => call c.1 c.2) =
    [call "Setting up GDT for higher half kernel...\n" []] ++ [call "GDT location: %x\n" [.word gp]] ++
      ((gdtMessages gp).drop 2).map fun c => call c.1 c.2 := rfl

/-- `setup_gdt` at privilege level 0, before the terminal is set up: every load goes
through, the self test prints the selectors it expects, and afterwards each segment
register is the identity on the whole address space, for instructions in CS, for
reads and writes in the others.  Of memory above the early messages, only the two
variables change. -/
theorem setupGdtCpu_flat {gdt gp : Addr} (hplaced : GdtPlaced gdt gp) {s : GdtState}
    (hsetup : s.console.Setup) (hcpl : s.cs.rpl = 0#2) :
    ∃ s', setupGdtCpu gdt gp s = some s' ∧
      s'.console.calls = s.console.calls ++ (gdtMessages gp).map (fun c => call c.1 c.2) ∧
      (∀ q, 4000 ≤ q.toNat → ¬ InBlock gdt 24 q → ¬ InBlock gp 6 q → s'.mem q = s.mem q) ∧
      s'.gdtr = ⟨gdt, 23#16⟩ ∧ s'.cs.rpl = 0#2 ∧
      ∀ (offset : BitVec 32) (n : Nat), offset.toNat + n ≤ 2 ^ 32 → s'.cs.fetch offset n = some offset ∧
        ∀ r ∈ [s'.ds, s'.es, s'.fs, s'.gs, s'.ss], r.read offset n = some offset ∧
          r.write offset n = some offset := by
  obtain ⟨k₁, k₂, hsay₁, hsay₂, hsetup₂, hloaded, hcalls₂, hkept₂⟩ := gdtTables_set hplaced hsetup
  -- GDTR and the registers
  obtain ⟨t, ht⟩ : ∃ t : GdtState, t = GdtState.lgdt gp { s with console := k₂ } := ⟨_, rfl⟩
  have hgdtr : t.gdtr = ⟨gdt, 23#16⟩ := by
    rw [ht]
    exact congrArg₂ Table.mk hloaded.base hloaded.limit
  have htcs : t.cs = s.cs := by rw [ht]; rfl
  have htconsole : t.console = k₂ := by rw [ht]; rfl
  obtain ⟨m, hreload, hm, hmFrame⟩ := reloadSegments_flat hplaced hgdtr (htcs ▸ hcpl)
    (show TablesHold gdt gp t.console.mem from htconsole ▸ hloaded)
  -- the self test
  have hrest : ((gdtMessages gp).drop 2).all sayAccepted = true :=
    List.all_eq_true.mpr fun c hc => List.all_eq_true.mp (gdtMessages_accepted gp) c (List.mem_of_mem_drop hc)
  obtain ⟨k₃, hsay₃, hwalked₃⟩ := says_walked (R := fun _ _ _ => True) _ (hsetup₂.withMem m) hrest
  have htest := gdtSelfTest_says m gp t (k := k₃) (by rw [htconsole]; exact hsay₃)
  have hrun : setupGdtCpu gdt gp s = some { reloaded m t with console := k₃ } := by
    have hcpu : setupGdtCpu gdt gp s = (s.console.say "Setting up GDT for higher half kernel...\n" []).bind
        fun k => (Console.say "GDT location: %x\n" [.word gp] { k with mem := gdtTables gdt gp k.mem }).bind
          fun k => (reloadSegments (GdtState.lgdt gp { s with console := k })).bind gdtSelfTest := by
      unfold setupGdtCpu GdtState.say
      simp only [Option.bind_eq_bind, Option.bind_map, Function.comp_def]
      rfl
    rw [hcpu, hsay₁, Option.bind_some, hsay₂, Option.bind_some, ← ht, hreload, Option.bind_some, htest]
  have hrpl : kernelCodeRegister.rpl = 0#2 := by decide
  refine ⟨_, hrun, ?_, ?_, hgdtr, hrpl, ?_⟩
  · have hcalls₃ : k₃.calls = k₂.calls ++ ((gdtMessages gp).drop 2).map fun c => call c.1 c.2 :=
      hwalked₃.calls
    show k₃.calls = _
    rw [hcalls₃, hcalls₂, gdtMessages_calls, List.append_assoc, List.append_assoc, List.append_assoc]
  · intro q hq hgdt hgp
    refine (hwalked₃.kept q hq).trans ((hmFrame q hgdt).trans ?_)
    show t.console.mem q = _
    rw [htconsole]
    exact hkept₂ q hq hgdt hgp
  · intro offset n hn
    refine ⟨flat_fetches rfl kernelCode_flat (by decide) hn, ?_⟩
    intro r hr
    have hr : r = kernelDataRegister := by
      simp only [reloaded, List.mem_cons, List.not_mem_nil, or_false, or_self] at hr
      exact hr
    subst hr
    exact ⟨flat_reads rfl kernelData_flat (by decide) hn, flat_writes rfl kernelData_flat (by decide) hn⟩

/-- A table and a pointer in the kernel image, and a loader with flat segments of
its own. -/
theorem setupGdtCpu_flat_boot :
    let flat : Register := ⟨0x18#16, some ⟨0#32, 0xFFFFF#20, 0x93#8, 0xC#4⟩⟩
    let s : GdtState := ⟨Console.boot fun _ => 0#8, ⟨0#32, 0#16⟩,
      ⟨0x10#16, some ⟨0#32, 0xFFFFF#20, 0x9B#8, 0xC#4⟩⟩, flat, flat, flat, flat, flat⟩
    ∃ s', setupGdtCpu 0xC0107000#32 0xC0107020#32 s = some s' ∧
      s'.console.calls = s.console.calls ++ (gdtMessages 0xC0107020#32).map (fun c => call c.1 c.2) ∧
      (∀ q, 4000 ≤ q.toNat → ¬ InBlock 0xC0107000#32 24 q → ¬ InBlock 0xC0107020#32 6 q →
        s'.mem q = s.mem q) ∧
      s'.gdtr = ⟨0xC0107000#32, 23#16⟩ ∧ s'.cs.rpl = 0#2 ∧
      ∀ (offset : BitVec 32) (n : Nat), offset.toNat + n ≤ 2 ^ 32 → s'.cs.fetch offset n = some offset ∧
        ∀ r ∈ [s'.ds, s'.es, s'.fs, s'.gs, s'.ss], r.read offset n = some offset ∧
          r.write offset n = some offset := by
  intro flat s
  have hplaced : GdtPlaced 0xC0107000#32 0xC0107020#32 := by
    refine ⟨by decide, by decide, ?_, by decide⟩
    unfold InBlock
    intro q hq hq'
    bv_omega
  exact setupGdtCpu_flat hplaced (Console.boot_setup _) (by decide)

end RedOS
