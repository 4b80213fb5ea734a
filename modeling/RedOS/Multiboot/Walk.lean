/-
# `RedOS.Multiboot.Walk` — `validate_boot`

The walk over the multiboot information, on the memory and the console it runs
on: it prints as it goes, and at boot `printf` stores wherever the terminal's
buffer points.  Every read of the information is an event of the trace, with its
address and length.

Both loops take a bound on their passes; a walk that ends is one that some bound
is enough for.  A string is read to its NUL when `printf` is called with it.

    Setup       the console as boot finds it, its buffer at address 0
    Walked      what a piece of the walk read, printed and left alone
    say_walked, read32_walked, readString_walked    for the pieces it is made of
-/
import RedOS.Lib.ByteBlock
import RedOS.Console.Printf

namespace RedOS

open ByteMemory

/-! ## The code -/

namespace Console

/-- `printf` of a literal format, its result ignored. -/
def say (format : String) (args : List Arg) (k : Console) : Option Console :=
  (k.printf (chars format) args).map Prod.snd

/-- A 32-bit field. -/
def read32 (part : Part) (p : Addr) (k : Console) : BitVec 32 × Console :=
  (load32 k.mem p, k.emit (.load part p 4))

/-- A 64-bit field. -/
def read64 (part : Part) (p : Addr) (k : Console) : BitVec 64 × Console :=
  (load64 k.mem p, k.emit (.load part p 8))

/-- A `char []` field, read up to its NUL. -/
def readString (p : Addr) (k : Console) : Option (List (BitVec 8) × Console) :=
  (strlen k.mem p).map fun len =>
    ((List.range len).map fun i => k.mem (p + BitVec.ofNat 32 i), k.emit (.load .string p (len + 1)))

end Console

/-- `(size + 7) & ~7` -/
def padded (size : BitVec 32) : BitVec 32 := (size + 7#32) &&& ~~~7#32

/-- The region line of one memory-map entry. -/
def regionFormat : String := "  Region: base=%x%08x, length=%x%08x, type=%d\n"

/-- What is printed of an entry: the halves of `addr` and `len`, and `type`. -/
def regionArgs (addr len : BitVec 64) (type : BitVec 32) : List Arg :=
  [.word ((addr >>> 32).setWidth 32), .word ((addr &&& 0xffffffff#64).setWidth 32),
    .word ((len >>> 32).setWidth 32), .word ((len &&& 0xffffffff#64).setWidth 32), .word type]

/-- The loop over the entries of the memory map in `tag`. -/
def mmapLoop (tag : Addr) : Nat → Addr → Console → Option Console
  | 0, _, _ => none
  | n + 1, mmap, k => do
      let (size, k) := k.read32 .header (tag + 4)
      if mmap.toNat < (tag + size).toNat then
        let (addr, k) := k.read64 .entry mmap
        let (len, k) := k.read64 .entry (mmap + 8)
        let (type, k) := k.read32 .entry (mmap + 16)
        let k ← k.say regionFormat (regionArgs addr len type)
        let (entrySize, k) := k.read32 .field (tag + 8)
        mmapLoop tag n (mmap + entrySize) k
      else some k

/-- `switch (tag->type)` -/
def visitTag (fuel : Nat) (tag : Addr) (k : Console) : Option Console :=
  let (type, k) := k.read32 .header tag
  if type = 1#32 then do
    let (string, k) ← k.readString (tag + 8)
    k.say "Command line = %s\n" [.str (some string)]
  else if type = 2#32 then do
    let (string, k) ← k.readString (tag + 8)
    k.say "Boot loader name = %s\n" [.str (some string)]
  else if type = 3#32 then do
    let (modStart, k) := k.read32 .field (tag + 8)
    let (modEnd, k) := k.read32 .field (tag + 12)
    let (cmdline, k) ← k.readString (tag + 16)
    k.say "Module at %x-%x. Command line %s\n" [.word modStart, .word modEnd, .str (some cmdline)]
  else if type = 4#32 then
    let (memLower, k) := k.read32 .field (tag + 8)
    let (memUpper, k) := k.read32 .field (tag + 12)
    k.say "mem_lower = %dKB, mem_upper = %dKB\n" [.word memLower, .word memUpper]
  else if type = 5#32 then
    let (biosdev, k) := k.read32 .field (tag + 8)
    let (slice, k) := k.read32 .field (tag + 12)
    let (part, k) := k.read32 .field (tag + 16)
    k.say "Boot device %x,%d,%d\n" [.word biosdev, .word slice, .word part]
  else if type = 6#32 then do
    let k ← k.say "Memory map:\n" []
    mmapLoop tag fuel (tag + 16) k
  else some k

/-- The loop over the tags; what is left is the tag it stopped at. -/
def tagLoop (fuel : Nat) : Nat → Addr → Console → Option (Addr × Console)
  | 0, _, _ => none
  | n + 1, tag, k => do
      let (type, k) := k.read32 .header tag
      if type = 0#32 then some (tag, k)
      else
        let (type, k) := k.read32 .header tag
        let (size, k) := k.read32 .header (tag + 4)
        let k ← k.say "Tag %x, Size %x\n" [.word type, .word size]
        let k ← visitTag fuel tag k
        let (size, k) := k.read32 .header (tag + 4)
        tagLoop fuel n (tag + padded size) k

/-- `MULTIBOOT2_BOOTLOADER_MAGIC` -/
def multibootMagic : BitVec 32 := 0x36d76289#32

/-- `P2V`-like conversion of the information address, which is printed. -/
def convertInfo (addr : Addr) (k : Console) : Option (Addr × Console) :=
  if addr.toNat < 0xC0000000 then do
    let k ← k.say "Multiboot info pointer appears to be a physical address, converting...\n" []
    let addr := addr + 0xC0000000#32
    let k ← k.say "Converted to virtual address: %x\n" [.word addr]
    some (addr, k)
  else some (addr, k)

/-- `validate_boot` from the total size on. -/
def walkInfo (fuel : Nat) (addr : Addr) (k : Console) : Option Console := do
  let (size, k) := k.read32 .total addr
  let k ← k.say "Multiboot info size: %d bytes\n" [.word size]
  let (tag, k) ← tagLoop fuel fuel (addr + 8) k
  let (size, k) := k.read32 .header (tag + 4)
  let tag := tag + padded size
  let k ← k.say "Total multiboot info size: %d bytes\n" [.word (tag - addr)]
  k.say "Multiboot validation complete!\n" []

/-- `validate_boot`, each loop for at most `fuel` passes. -/
def validateBoot (fuel : Nat) (magic addr : BitVec 32) (k : Console) : Option Console := do
  let k ← k.say "Validating multiboot information at virtual address %x\n" [.word addr]
  if magic ≠ multibootMagic then
    k.say "Invalid magic number: %x (expected %x)\n" [.word magic, .word multibootMagic]
  else if addr &&& 7#32 ≠ 0#32 then
    k.say "Unaligned multiboot info pointer: %x\n" [.word addr]
  else
    let (addr, k) ← convertInfo addr k
    walkInfo fuel addr k

theorem getLsbD_mask7 : ∀ {i : Nat}, i < 32 → (~~~7#32).getLsbD i = decide (3 ≤ i) := by
  decide

/-- Rounding up to a multiple of 8, modulo `2^32`. -/
theorem padded_mod (size : BitVec 32) :
    (padded size).toNat = 8 * ((size.toNat + 7) % 2 ^ 32 / 8) := by
  have hshift : padded size = ((size + 7#32) >>> 3) <<< 3 := by
    unfold padded
    apply BitVec.eq_of_getLsbD_eq
    intro i hi
    rw [BitVec.getLsbD_and, getLsbD_mask7 hi, BitVec.getLsbD_shiftLeft, BitVec.getLsbD_ushiftRight]
    by_cases hlow : 3 ≤ i
    · have hback : 3 + (i - 3) = i := by omega
      simp [hlow, hi, hback]
    · simp [hlow, Nat.lt_of_not_le hlow]
  have hsum : (size + 7#32).toNat = (size.toNat + 7) % 2 ^ 32 := by bv_omega
  rw [hshift, BitVec.toNat_shiftLeft, BitVec.toNat_ushiftRight, Nat.shiftLeft_eq,
    Nat.shiftRight_eq_div_pow, hsum]
  omega

theorem padded_toNat {size : BitVec 32} (h : size.toNat + 7 < 2 ^ 32) :
    (padded size).toNat = 8 * ((size.toNat + 7) / 8) := by
  rw [padded_mod, Nat.mod_eq_of_lt h]

/-- Unless it comes out as 0, rounding is up. -/
theorem le_padded {size : BitVec 32} (h : padded size ≠ 0#32) :
    size.toNat ≤ (padded size).toNat ∧ 8 ≤ (padded size).toNat := by
  have hmod := padded_mod size
  have hne : (padded size).toNat ≠ 0 := fun hzero => h (BitVec.eq_of_toNat_eq hzero)
  omega

/-! ## Passes -/

/-- The reads of a pass of `mmapLoop` before its `printf`. -/
def Console.readEntry (tag mmap : Addr) (k : Console) : Console :=
  (((k.emit (.load .header (tag + 4) 4)).emit (.load .entry mmap 8)).emit (.load .entry (mmap + 8) 8)).emit
    (.load .entry (mmap + 16) 4)

/-- A pass that finds an entry. -/
theorem mmapLoop_entry {tag mmap : Addr} {n : Nat} {k k₁ : Console}
    (hlt : mmap.toNat < (tag + load32 k.mem (tag + 4)).toNat)
    (hsay : (k.readEntry tag mmap).say regionFormat
      (regionArgs (load64 k.mem mmap) (load64 k.mem (mmap + 8)) (load32 k.mem (mmap + 16))) =
        some k₁) :
    mmapLoop tag (n + 1) mmap k =
      mmapLoop tag n (mmap + load32 k₁.mem (tag + 8)) (k₁.emit (.load .field (tag + 8) 4)) := by
  have hbody : mmapLoop tag (n + 1) mmap k = Option.bind ((k.readEntry tag mmap).say regionFormat
      (regionArgs (load64 k.mem mmap) (load64 k.mem (mmap + 8)) (load32 k.mem (mmap + 16))))
      fun k₁ => mmapLoop tag n (mmap + load32 k₁.mem (tag + 8)) (k₁.emit (.load .field (tag + 8) 4)) := by
    rw [mmapLoop]
    exact if_pos hlt
  rw [hbody, hsay]
  rfl

/-- A pass that finds the end. -/
theorem mmapLoop_end {tag mmap : Addr} {n : Nat} {k : Console}
    (hlt : ¬ mmap.toNat < (tag + load32 k.mem (tag + 4)).toNat) :
    mmapLoop tag (n + 1) mmap k = some (k.emit (.load .header (tag + 4) 4)) := by
  rw [mmapLoop]
  exact if_neg hlt

/-- A pass of `tagLoop` at the end tag. -/
theorem tagLoop_end {fuel n : Nat} {tag : Addr} {k : Console} (h : load32 k.mem tag = 0#32) :
    tagLoop fuel (n + 1) tag k = some (tag, k.emit (.load .header tag 4)) := by
  rw [tagLoop]
  exact if_pos h

/-- The reads of a pass of `tagLoop` before its first `printf`. -/
def Console.readHeader (tag : Addr) (k : Console) : Console :=
  ((k.emit (.load .header tag 4)).emit (.load .header tag 4)).emit (.load .header (tag + 4) 4)

/-- A pass at any other tag. -/
theorem tagLoop_tag {fuel n : Nat} {tag : Addr} {k k₁ k₂ : Console} (h : load32 k.mem tag ≠ 0#32)
    (hsay : (k.readHeader tag).say "Tag %x, Size %x\n"
      [.word (load32 k.mem tag), .word (load32 k.mem (tag + 4))] = some k₁)
    (hvisit : visitTag fuel tag k₁ = some k₂) :
    tagLoop fuel (n + 1) tag k =
      tagLoop fuel n (tag + padded (load32 k₂.mem (tag + 4))) (k₂.emit (.load .header (tag + 4) 4)) := by
  have hbody : tagLoop fuel (n + 1) tag k =
      ((k.readHeader tag).say "Tag %x, Size %x\n"
        [.word (load32 k.mem tag), .word (load32 k.mem (tag + 4))]).bind fun k₁ =>
          (visitTag fuel tag k₁).bind fun k₂ =>
            tagLoop fuel n (tag + padded (load32 k₂.mem (tag + 4))) (k₂.emit (.load .header (tag + 4) 4)) := by
    rw [tagLoop]
    exact if_neg h
  rw [hbody, hsay, Option.bind_some, hvisit]
  rfl

/-- `validate_boot` behind the magic and the address. -/
theorem walkInfo_eq (fuel : Nat) (addr : Addr) (k : Console) :
    walkInfo fuel addr k =
      ((k.emit (.load .total addr 4)).say "Multiboot info size: %d bytes\n"
        [.word (load32 k.mem addr)]).bind fun k₁ =>
          (tagLoop fuel fuel (addr + 8) k₁).bind fun r =>
            ((r.2.emit (.load .header (r.1 + 4) 4)).say "Total multiboot info size: %d bytes\n"
              [.word (r.1 + padded (load32 r.2.mem (r.1 + 4)) - addr)]).bind fun k =>
                k.say "Multiboot validation complete!\n" [] := rfl

theorem validateBoot_eq {fuel : Nat} {addr : BitVec 32} {k k₁ k₂ : Console} {A : Addr}
    (haligned : addr &&& 7#32 = 0#32)
    (hsay : k.say "Validating multiboot information at virtual address %x\n" [.word addr] = some k₁)
    (hconvert : convertInfo addr k₁ = some (A, k₂)) :
    validateBoot fuel multibootMagic addr k = walkInfo fuel A k₂ := by
  unfold validateBoot
  rw [hsay, Option.bind_eq_bind, Option.bind_some, if_neg (by decide), if_neg (not_not_intro haligned),
    hconvert]
  rfl

/-! ## What a piece of the walk does -/

namespace Console

/-- The console as boot finds it: usable, but with its buffer at address 0. -/
structure Setup (k : Console) : Prop where
  ready : Ready k
  buffer : k.buffer = 0#32

theorem boot_setup (m : Mem) : Setup (boot m) := by
  refine ⟨⟨?_, (by decide : 0 < vgaHeight), (by decide : 0 < vgaWidth)⟩, rfl⟩
  show BufferFits 0#32
  unfold BufferFits
  decide

/-- The calls of `printf`, in order. -/
def calls (k : Console) : List (List (BitVec 8) × List Arg) :=
  k.trace.filterMap fun
    | .printf format args => some (format, args)
    | .cell _ _ | .byte _ | .com1 _ | .load _ _ _ | .ret => none

/-- The reads of the multiboot information, in order. -/
def loads (k : Console) : List (Part × Addr × Nat) :=
  k.trace.filterMap fun
    | .load part p n => some (part, p, n)
    | .cell _ _ | .byte _ | .com1 _ | .printf _ _ | .ret => none

end Console

/-- The call `printf(format, args)`. -/
def call (format : String) (args : List Arg) : List (BitVec 8) × List Arg :=
  (cString (chars format), args)

/-- From `k` to `k'` the calls `cs` were made, only bytes with `R` were read, and
memory changed at most where the terminal's cells are now. -/
structure Walked (R : Part → Addr → Nat → Prop) (k k' : Console)
    (cs : List (List (BitVec 8) × List Arg)) : Prop where
  setup : k'.Setup
  kept : ∀ q : Addr, 4000 ≤ q.toNat → k'.mem q = k.mem q
  calls : k'.calls = k.calls ++ cs
  loads : ∃ ls, k'.loads = k.loads ++ ls ∧ ∀ l ∈ ls, R l.1 l.2.1 l.2.2

namespace Walked

variable {R : Part → Addr → Nat → Prop} {k k' k'' : Console} {cs cs' : List (List (BitVec 8) × List Arg)}

theorem refl (h : k.Setup) : Walked R k k [] :=
  ⟨h, fun _ _ => rfl, (List.append_nil _).symm, [], (List.append_nil _).symm,
    fun _ hl => absurd hl List.not_mem_nil⟩

theorem trans (h : Walked R k k' cs) (h' : Walked R k' k'' cs') : Walked R k k'' (cs ++ cs') := by
  obtain ⟨ls, hls, hR⟩ := h.loads
  obtain ⟨ls', hls', hR'⟩ := h'.loads
  refine ⟨h'.setup, fun q hq => (h'.kept q hq).trans (h.kept q hq), ?_, ls ++ ls', ?_, ?_⟩
  · rw [h'.calls, h.calls, List.append_assoc]
  · rw [hls', hls, List.append_assoc]
  · exact fun l hl => (List.mem_append.mp hl).elim (hR l) (hR' l)

end Walked

namespace Console

variable {R : Part → Addr → Nat → Prop} {k : Console}

/-- A read inside `R`. -/
theorem emit_load_walked (h : k.Setup) (part : Part) {p : Addr} {n : Nat} (hR : R part p n) :
    Walked R k (k.emit (.load part p n)) [] := by
  refine ⟨⟨⟨h.ready.fits, h.ready.row, h.ready.column⟩, h.buffer⟩, fun _ _ => rfl, ?_, [(part, p, n)],
    ?_, ?_⟩
  · unfold calls emit
    rw [List.filterMap_append]
    rfl
  · unfold loads emit
    rw [List.filterMap_append]
    rfl
  · intro l hl
    rw [List.mem_singleton.mp hl]
    exact hR

/-- A `printf` whose arguments are what its format asks for. -/
theorem say_walked (h : k.Setup) (format : String) (args : List Arg)
    (hargs : accepts ((cString (chars format)).length + 1) (cString (chars format)) args = true) :
    ∃ k', k.say format args = some k' ∧ Walked R k k' [call format args] := by
  obtain ⟨r, k', hprintf⟩ := printf_returns hargs k
  obtain ⟨hready, hbuffer, hkept, es, htrace, hes⟩ := printf_spec h.ready hprintf
  have hnone : ∀ {β : Type} (f : Event → Option β), (∀ e, HitsCell k.buffer e → f e = none) →
      es.filterMap f = [] := fun f hf => List.filterMap_eq_nil_iff.mpr fun e he => hf e (hes e he)
  refine ⟨k', by unfold say; rw [hprintf]; rfl, ⟨hready, hbuffer.trans h.buffer⟩, ?_, ?_, [], ?_, ?_⟩
  · intro q hq
    refine hkept q ?_
    intro hin
    rw [h.buffer] at hin
    unfold InBlock vgaWidth vgaHeight at hin
    bv_omega
  · unfold calls
    rw [htrace, List.filterMap_append, List.filterMap_append, List.filterMap_append, hnone, List.append_nil]
    · exact List.append_nil _
    · rintro (_ | _ | _ | _ | _ | _) he
      all_goals first | rfl | exact he.elim
  · unfold loads
    rw [htrace, List.filterMap_append, List.filterMap_append, List.filterMap_append, hnone, List.append_nil]
    · exact List.append_nil _
    · rintro (_ | _ | _ | _ | _ | _) he
      all_goals first | rfl | exact he.elim
  · exact fun l hl => absurd hl List.not_mem_nil

/-- The fields at the offsets `offs` of a tag read, one after the other. -/
def readFields (tag : Addr) (offs : List Nat) (k : Console) : Console :=
  offs.foldl (fun k off => k.emit (.load .field (tag + BitVec.ofNat 32 off) 4)) k

theorem readEntry_walked (h : k.Setup) {tag mmap : Addr} (hsize : R .header (tag + 4) 4)
    (hentry : ∀ off n : Nat, off + n ≤ 24 → R .entry (mmap + BitVec.ofNat 32 off) n) :
    Walked R k (k.readEntry tag mmap) [] := by
  have hsizeRead := emit_load_walked h .header hsize
  have hfirst : R .entry mmap 8 := by
    have hzero := hentry 0 8 (by omega)
    rwa [BitVec.add_zero] at hzero
  have haddrRead := hsizeRead.trans (emit_load_walked hsizeRead.setup .entry hfirst)
  have hlenRead := haddrRead.trans
    (emit_load_walked haddrRead.setup .entry (hentry 8 8 (by omega)))
  exact hlenRead.trans (emit_load_walked hlenRead.setup .entry (hentry 16 4 (by omega)))

theorem readFields_walked {tag : Addr} : ∀ {offs : List Nat} {k : Console}, k.Setup →
    (∀ off ∈ offs, R .field (tag + BitVec.ofNat 32 off) 4) → Walked R k (k.readFields tag offs) []
  | [], _, h, _ => .refl h
  | off :: offs, k, h, hR => by
      have hfirst := emit_load_walked h .field (hR off List.mem_cons_self)
      exact hfirst.trans (readFields_walked hfirst.setup fun off' hoff =>
        hR off' (List.mem_cons_of_mem off hoff))

end Console

/-! ## Strings -/

/-- A string that ends inside a block is found, and it is the block's. -/
theorem strlen_go_holds {m : Mem} : ∀ {bs : List (BitVec 8)} {p : Addr} {n : Nat},
    Holds m p bs → 0#8 ∈ bs → bs.length ≤ n →
      strlen.go m p n = some (cString bs).length
  | [], _, _, _, hnul, _ => absurd hnul List.not_mem_nil
  | b :: bs, p, 0, _, _, hn => absurd hn (Nat.not_succ_le_zero _)
  | b :: bs, p, n + 1, h, hnul, hn => by
      have hsplit : Holds m p ([b] ++ bs) := h
      obtain ⟨hfirst, hrest⟩ := holds_append.mp hsplit
      have hb : m p = b := by
        have hzero := hfirst 0 b rfl
        rwa [BitVec.add_zero] at hzero
      unfold strlen.go cString
      by_cases hzero : b = 0#8
      · subst hzero
        rw [if_pos hb]
        rfl
      · have hmem : 0#8 ∈ bs := (List.mem_cons.mp hnul).resolve_left (Ne.symm hzero)
        have hrec := strlen_go_holds (n := n) hrest hmem (Nat.le_of_succ_le_succ hn)
        rw [if_neg (hb ▸ hzero), show p + 1 = p + BitVec.ofNat 32 [b].length from rfl, hrec,
          List.takeWhile_cons_of_pos (by simpa using hzero)]
        rfl

theorem cString_lt {bs : List (BitVec 8)} (h : 0#8 ∈ bs) : (cString bs).length < bs.length := by
  induction bs with
  | nil => exact absurd h List.not_mem_nil
  | cons b bs ih =>
      unfold cString at ih ⊢
      by_cases hzero : b = 0#8
      · subst hzero
        exact Nat.succ_pos _
      · rw [List.takeWhile_cons_of_pos (by simpa using hzero), List.length_cons, List.length_cons]
        exact Nat.succ_lt_succ (ih ((List.mem_cons.mp h).resolve_left (Ne.symm hzero)))

theorem cString_getD {bs : List (BitVec 8)} :
    ∀ {i : Nat}, i < (cString bs).length → bs.getD i 0#8 = (cString bs).getD i 0#8 := by
  induction bs with
  | nil => exact fun h => absurd h (Nat.not_lt_zero _)
  | cons b bs ih =>
      intro i h
      unfold cString at ih h ⊢
      by_cases hzero : b = 0#8
      · rw [List.takeWhile_cons_of_neg (by simpa using hzero)] at h
        exact absurd h (Nat.not_lt_zero _)
      · rw [List.takeWhile_cons_of_pos (by simpa using hzero)] at h ⊢
        cases i with
        | zero => rfl
        | succ i => exact ih (Nat.lt_of_succ_lt_succ h)

theorem readString_walked {R : Part → Addr → Nat → Prop} {k : Console} (hk : k.Setup) {p : Addr}
    {bs : List (BitVec 8)} (h : Holds k.mem p bs) (hnul : 0#8 ∈ bs) (hlen : bs.length ≤ 2 ^ 32)
    (hR : R .string p ((cString bs).length + 1)) :
    ∃ k', k.readString p = some (cString bs, k') ∧ Walked R k k' [] := by
  refine ⟨k.emit (.load .string p ((cString bs).length + 1)), ?_, Console.emit_load_walked hk .string hR⟩
  have hlt := cString_lt hnul
  have hstring : (List.range (cString bs).length).map (fun i => k.mem (p + BitVec.ofNat 32 i)) =
      cString bs := by
    apply List.ext_getElem
    · rw [List.length_map, List.length_range]
    · intro i h₁ h₂
      rw [List.getElem_map, List.getElem_range, h.getD (Nat.lt_trans h₂ hlt), cString_getD h₂,
        List.getD_eq_getElem?_getD, List.getElem?_eq_getElem h₂]
      rfl
  unfold Console.readString strlen
  rw [strlen_go_holds h hnul hlen]
  show some (_, _) = _
  rw [hstring]

end RedOS
