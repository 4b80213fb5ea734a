/-
# `RedOS.Multiboot.Bounds` — `validate_boot` on arbitrary memory

Nothing in `validate_boot` compares a cursor with the total size it has read:
each loop follows the sizes it finds.  So what the sizes say decides, and
`DeclaredInside` is what they have to say: from one tag to the next the offset
grows and the next header is still inside the total size, and in a memory map
every entry that starts inside the tag is inside the block.  An end tag is not
asked for; a block whose sizes keep inside it has to come to one.

    endTag_reached          the first end tag on the way
    mmapLoop_bounded        the nested loop
    validateBoot_bounded    both loops end, and their reads are inside
    validateBoot_diverges   a tag of size 0, and the walk does not end
-/
import RedOS.Multiboot.Block

namespace RedOS

open ByteMemory

/-! ## What the sizes declare -/

section Declared

variable (m : Mem) (A : Addr)

/-- Where following the sizes from `A + 8` leads, as a number that does not wrap. -/
def tagOffset : Nat → Nat
  | 0 => 8
  | i + 1 => tagOffset i + (padded (load32 m (A + BitVec.ofNat 32 (tagOffset i) + 4))).toNat

/-- The tag number `i`. -/
def tagAddr (i : Nat) : Addr := A + BitVec.ofNat 32 (tagOffset m A i)

/-- `type`, `size` and `entry_size` of the tag number `i`. -/
def tagType (i : Nat) : BitVec 32 := load32 m (tagAddr m A i)

def tagSize (i : Nat) : BitVec 32 := load32 m (tagAddr m A i + 4)

def tagEntrySize (i : Nat) : BitVec 32 := load32 m (tagAddr m A i + 8)

/-- No tag up to number `i` is an end tag. -/
def NoEnd (i : Nat) : Prop := ∀ j ≤ i, tagType m A j ≠ 0#32

/-- The declared sizes keep inside the block of `total` bytes. -/
structure DeclaredInside (total : Nat) : Prop where
  first : 16 ≤ total
  next : ∀ i, NoEnd m A i → padded (tagSize m A i) ≠ 0#32 ∧ tagOffset m A (i + 1) + 8 ≤ total
  mmap : ∀ i, NoEnd m A i → tagType m A i = 6#32 → tagEntrySize m A i ≠ 0#32 ∧
    ∀ j, 16 + j * (tagEntrySize m A i).toNat < (tagSize m A i).toNat →
      tagOffset m A i + 16 + j * (tagEntrySize m A i).toNat +
        max 24 (tagEntrySize m A i).toNat ≤ total

end Declared

section Bounds

variable {m : Mem} {A : Addr} {total : Nat}

theorem tagOffset_succ (i : Nat) :
    tagOffset m A (i + 1) = tagOffset m A i + (padded (tagSize m A i)).toNat := rfl

theorem tagAddr_succ (i : Nat) :
    tagAddr m A (i + 1) = tagAddr m A i + padded (tagSize m A i) := by
  unfold tagAddr
  rw [tagOffset_succ, BitVec.ofNat_add, ← BitVec.add_assoc]
  congr 1
  bv_omega

/-- Every header on the way is inside. -/
theorem tagOffset_inside (h : DeclaredInside m A total) :
    ∀ i, (∀ j < i, tagType m A j ≠ 0#32) → tagOffset m A i + 8 ≤ total
  | 0, _ => h.first
  | i + 1, hbefore => (h.next i fun j hj => hbefore j (Nat.lt_succ_of_le hj)).2

/-- Offsets that grow and stay below the total come to an end tag. -/
theorem endTag_reached (h : DeclaredInside m A total) : ∀ (d i : Nat),
    total - tagOffset m A i ≤ d → (∀ j < i, tagType m A j ≠ 0#32) →
      ∃ e, i ≤ e ∧ tagType m A e = 0#32 ∧ ∀ j < e, tagType m A j ≠ 0#32 := by
  intro d
  induction d with
  | zero =>
      intro i hd hbefore
      have hin := tagOffset_inside h i hbefore
      omega
  | succ d ih =>
      intro i hd hbefore
      by_cases hend : tagType m A i = 0#32
      · exact ⟨i, Nat.le_refl i, hend, hbefore⟩
      · have hno : NoEnd m A i := by
          intro j hj
          rcases Nat.lt_or_eq_of_le hj with hlt | rfl
          · exact hbefore j hlt
          · exact hend
        obtain ⟨hpad, -⟩ := h.next i hno
        have hgrow := (le_padded hpad).2
        have hsucc := tagOffset_succ (m := m) (A := A) i
        have hin := tagOffset_inside h i hbefore
        obtain ⟨e, hle, he⟩ := ih (i + 1) (by omega) fun j hj => hno j (Nat.le_of_lt_succ hj)
        exact ⟨e, Nat.le_of_succ_le hle, he⟩

/-! ## Any memory -/

/-- The console runs on `m`, but for the cells it has stored to. -/
def RunsOn (m : Mem) (k : Console) : Prop := ∀ q : Addr, 4000 ≤ q.toNat → k.mem q = m q

theorem RunsOn.walked {R : Part → Addr → Nat → Prop} {k k' : Console}
    {cs : List (List (BitVec 8) × List Arg)} (h : RunsOn m k) (hw : Walked R k k' cs) :
    RunsOn m k' := fun q hq => (hw.kept q hq).trans (h q hq)

theorem RunsOn.load32 {k : Console} (h : RunsOn m k) {p : Addr} (hp : 4000 ≤ p.toNat)
    (hend : p.toNat + 4 ≤ 2 ^ 32) : load32 k.mem p = load32 m p := by
  refine load32_congr fun q hq => h q ?_
  unfold InBlock at hq
  bv_omega

theorem byte_of_load32 {p : Addr} (h : load32 m p = 0#32) : m p = 0#8 := by
  have hlow : m p = (load32 m p).extractLsb' 0 8 := by
    unfold load32
    apply BitVec.eq_of_getLsbD_eq
    intro i hi
    rw [BitVec.getLsbD_extractLsb', BitVec.getLsbD_append]
    simp [hi]
  rw [hlow, h]
  rfl

/-- A string is found as soon as there is a NUL anywhere. -/
theorem strlen_isSome {m : Mem} {q : Addr} (h : m q = 0#8) (p : Addr) :
    (strlen m p).isSome := by
  have hgo : ∀ (n : Nat) (p : Addr), (∃ i < n, m (p + BitVec.ofNat 32 i) = 0#8) →
      (strlen.go m p n).isSome := by
    intro n
    induction n with
    | zero =>
        rintro p ⟨i, hi, -⟩
        exact absurd hi (Nat.not_lt_zero i)
    | succ n ih =>
        rintro p ⟨i, hi, hnul⟩
        unfold strlen.go
        by_cases hp : m p = 0#8
        · rw [if_pos hp]
          rfl
        · rw [if_neg hp, Option.isSome_map]
          cases i with
          | zero =>
              rw [BitVec.add_zero] at hnul
              exact absurd hnul hp
          | succ i =>
              refine ih (p + 1) ⟨i, Nat.lt_of_succ_lt_succ hi, ?_⟩
              have hplace : p + 1 + BitVec.ofNat 32 i = p + BitVec.ofNat 32 (i + 1) := by bv_omega
              rw [hplace]
              exact hnul
  refine hgo (2 ^ 32) p ⟨(q - p).toNat, (q - p).isLt, ?_⟩
  have hplace : p + BitVec.ofNat 32 (q - p).toNat = q := by bv_omega
  rw [hplace]
  exact h

/-- Reads of tag headers and of memory-map entries are inside the block. -/
def HeadersInside (A : Addr) (total : Nat) (part : Part) (p : Addr) (n : Nat) : Prop :=
  part = .header ∨ part = .entry → Inside A total p n

theorem headersInside_field (p : Addr) (n : Nat) : HeadersInside A total .field p n :=
  fun h => h.elim (fun e => nomatch e) fun e => nomatch e

theorem headersInside_string (p : Addr) (n : Nat) : HeadersInside A total .string p n :=
  fun h => h.elim (fun e => nomatch e) fun e => nomatch e

theorem headersInside_total (p : Addr) (n : Nat) : HeadersInside A total .total p n :=
  fun h => h.elim (fun e => nomatch e) fun e => nomatch e

/-- What the walk at tag number `i` rests on. -/
structure At (m : Mem) (A : Addr) (total i : Nat) : Prop where
  high : 0xC0000000 ≤ A.toNat
  fits : A.toNat + total < 2 ^ 32
  sound : DeclaredInside m A total
  before : NoEnd m A i

namespace At

variable {i : Nat}

theorem offset (h : At m A total i) : tagOffset m A i + 16 ≤ total := by
  obtain ⟨hpad, hnext⟩ := h.sound.next i h.before
  have hgrow := (le_padded hpad).2
  have hsucc := tagOffset_succ (m := m) (A := A) i
  omega

theorem addr (h : At m A total i) : (tagAddr m A i).toNat = A.toNat + tagOffset m A i := by
  have hoff := h.offset
  have hfits := h.fits
  unfold tagAddr
  bv_omega

/-- The declared size ends inside the block, too. -/
theorem size (h : At m A total i) : tagOffset m A i + (tagSize m A i).toNat + 8 ≤ total := by
  obtain ⟨hpad, hnext⟩ := h.sound.next i h.before
  have hle := (le_padded hpad).1
  have hsucc := tagOffset_succ (m := m) (A := A) i
  omega

/-- The words a pass reads of the tag's first 16 bytes are those of `m`. -/
theorem word (h : At m A total i) {k : Console} (hk : RunsOn m k) {o : Nat} (ho : o + 4 ≤ 16) :
    load32 k.mem (tagAddr m A i + BitVec.ofNat 32 o) =
      load32 m (tagAddr m A i + BitVec.ofNat 32 o) := by
  have hoff := h.offset
  have haddr := h.addr
  have hfits := h.fits
  have hhigh := h.high
  refine hk.load32 ?_ ?_
  · bv_omega
  · bv_omega

theorem inside (h : At m A total i) {o n : Nat} (ho : tagOffset m A i + o + n ≤ total) :
    Inside A total (tagAddr m A i + BitVec.ofNat 32 o) n := by
  have haddr := h.addr
  have hfits := h.fits
  have hoff := h.offset
  unfold Inside
  bv_omega

end At

/-- The nested loop: with fewer bytes of the tag left than passes, it ends, and
every entry it reads is inside the block. -/
theorem mmapLoop_bounded {i : Nat} (hat : At m A total i) (htype : tagType m A i = 6#32) :
    ∀ (n j : Nat) (k : Console), (tagSize m A i).toNat < 16 + j * (tagEntrySize m A i).toNat + n →
      k.Setup → RunsOn m k → tagOffset m A i + 16 + j * (tagEntrySize m A i).toNat ≤ total →
      0 < n → ∃ k' cs, mmapLoop (tagAddr m A i) n
          (tagAddr m A i + BitVec.ofNat 32 (16 + j * (tagEntrySize m A i).toNat)) k = some k' ∧
        Walked (HeadersInside A total) k k' cs
  | 0, _, _, _, _, _, _, hn => absurd hn (Nat.lt_irrefl 0)
  | n + 1, j, k, hleft, hk, hm, hj, _ => by
      obtain ⟨hes, hentries⟩ := hat.sound.mmap i hat.before htype
      have hpos : 0 < (tagEntrySize m A i).toNat :=
        Nat.pos_of_ne_zero fun hzero => hes (BitVec.eq_of_toNat_eq hzero)
      have haddr := hat.addr
      have hfits := hat.fits
      have hend := hat.size
      have hsize : load32 k.mem (tagAddr m A i + 4) = tagSize m A i := hat.word hm (o := 4) (by omega)
      generalize hcur : tagAddr m A i + BitVec.ofNat 32 (16 + j * (tagEntrySize m A i).toNat) = cursor
      have hcursor : cursor.toNat =
          A.toNat + tagOffset m A i + 16 + j * (tagEntrySize m A i).toNat := by
        rw [← hcur]
        bv_omega
      have hstop : (tagAddr m A i + tagSize m A i).toNat =
          A.toNat + tagOffset m A i + (tagSize m A i).toNat := by bv_omega
      have hsizeIn : HeadersInside A total .header (tagAddr m A i + 4) 4 := fun _ =>
        hat.inside (o := 4) (by have := hat.offset; omega)
      by_cases hlt : 16 + j * (tagEntrySize m A i).toNat < (tagSize m A i).toNat
      · have hentry := hentries j hlt
        have hin : ∀ o n : Nat, o + n ≤ 24 → HeadersInside A total .entry (cursor + BitVec.ofNat 32 o) n := by
          intro o n hon _
          unfold Inside
          bv_omega
        have hread := Console.readEntry_walked hk hsizeIn hin
        obtain ⟨k₁, hsay, hsaid⟩ := Console.say_walked hread.setup regionFormat
          (regionArgs (load64 k.mem cursor) (load64 k.mem (cursor + 8)) (load32 k.mem (cursor + 16))) rfl
        have hall := hread.trans hsaid
        have hstep := hall.trans (Console.emit_load_walked hall.setup .field
          (headersInside_field (tagAddr m A i + 8) 4))
        have hbound : cursor.toNat < (tagAddr m A i + load32 k.mem (tagAddr m A i + 4)).toNat := by
          rw [hsize, hstop]
          omega
        have hstride : load32 k₁.mem (tagAddr m A i + 8) = tagEntrySize m A i :=
          hat.word (hm.walked hall) (o := 8) (by omega)
        have hsucc : (j + 1) * (tagEntrySize m A i).toNat =
            j * (tagEntrySize m A i).toNat + (tagEntrySize m A i).toNat := Nat.succ_mul _ _
        have hnext : cursor + load32 k₁.mem (tagAddr m A i + 8) =
            tagAddr m A i + BitVec.ofNat 32 (16 + (j + 1) * (tagEntrySize m A i).toNat) := by
          rw [hstride, hsucc, ← hcur]
          bv_omega
        obtain ⟨k', cs, hloop, hwalk⟩ := mmapLoop_bounded hat htype n (j + 1) _ (by omega)
          hstep.setup (hm.walked hstep) (by omega) (by omega)
        refine ⟨k', _, ?_, hstep.trans hwalk⟩
        rw [mmapLoop_entry hbound hsay, hnext]
        exact hloop
      · refine ⟨_, _, mmapLoop_end ?_, Console.emit_load_walked hk .header hsizeIn⟩
        rw [hsize, hstop]
        omega

/-- A string field, wherever it ends. -/
theorem readString_returns {R : Part → Addr → Nat → Prop} {k : Console} (hk : k.Setup) {q : Addr}
    (hq : k.mem q = 0#8) (p : Addr) (hR : ∀ n, R .string p n) :
    ∃ s k', k.readString p = some (s, k') ∧ Walked R k k' [] := by
  obtain ⟨len, hlen⟩ := Option.isSome_iff_exists.mp (strlen_isSome hq p)
  unfold Console.readString
  rw [hlen]
  exact ⟨_, _, rfl, Console.emit_load_walked hk .string (hR _)⟩

/-- And the call that prints it. -/
theorem sayString_returns {R : Part → Addr → Nat → Prop} {k : Console} (hk : k.Setup) {q : Addr}
    (hq : k.mem q = 0#8) (p : Addr) (hR : ∀ n, R .string p n) (format : String)
    (hargs : ∀ s, Console.accepts ((cString (chars format)).length + 1) (cString (chars format))
      [.str (some s)] = true) :
    ∃ k' cs, ((k.readString p).bind fun r => r.2.say format [.str (some r.1)]) = some k' ∧
      Walked R k k' cs := by
  obtain ⟨s, k₁, hread, hwalk⟩ := readString_returns hk hq p hR
  obtain ⟨k', hsay, hsaid⟩ := Console.say_walked hwalk.setup format _ (hargs s)
  refine ⟨k', _, ?_, hwalk.trans hsaid⟩
  rw [hread]
  exact hsay

/-- One tag, of whatever type. -/
theorem visitTag_bounded {i : Nat} (hat : At m A total i) {k : Console} (hk : k.Setup)
    (hm : RunsOn m k) {q : Addr} (hhigh : 4000 ≤ q.toNat) (hq : m q = 0#8) {fuel : Nat}
    (hfuel : total ≤ fuel) :
    ∃ k' cs, visitTag fuel (tagAddr m A i) k = some k' ∧ Walked (HeadersInside A total) k k' cs := by
  have hoff := hat.offset
  have htype : load32 k.mem (tagAddr m A i) = tagType m A i := by
    have hword := hat.word hm (o := 0) (by omega)
    rwa [BitVec.add_zero] at hword
  have hfirst : Walked (HeadersInside A total) k (k.emit (.load .header (tagAddr m A i) 4)) [] := by
    refine Console.emit_load_walked hk .header ?_
    intro _
    have hin := hat.inside (o := 0) (n := 4) (by omega)
    rwa [BitVec.add_zero] at hin
  have hfields : ∀ offs : List Nat, Walked (HeadersInside A total) k
      ((k.emit (.load .header (tagAddr m A i) 4)).readFields (tagAddr m A i) offs) [] := fun offs =>
    hfirst.trans (Console.readFields_walked hfirst.setup fun _ _ => headersInside_field _ 4)
  have hnul : ∀ {k' : Console} {cs}, Walked (HeadersInside A total) k k' cs → k'.mem q = 0#8 :=
    fun hw => (hm.walked hw q hhigh).trans hq
  unfold visitTag Console.read32
  dsimp only
  rw [htype]
  by_cases h1 : tagType m A i = 1#32
  · rw [if_pos h1]
    obtain ⟨k', cs, hrun, hwalk⟩ := sayString_returns hfirst.setup (hnul hfirst)
      (tagAddr m A i + 8) (headersInside_string _) "Command line = %s\n" fun _ => rfl
    exact ⟨k', _, hrun, hfirst.trans hwalk⟩
  rw [if_neg h1]
  by_cases h2 : tagType m A i = 2#32
  · rw [if_pos h2]
    obtain ⟨k', cs, hrun, hwalk⟩ := sayString_returns hfirst.setup (hnul hfirst)
      (tagAddr m A i + 8) (headersInside_string _) "Boot loader name = %s\n" fun _ => rfl
    exact ⟨k', _, hrun, hfirst.trans hwalk⟩
  rw [if_neg h2]
  by_cases h3 : tagType m A i = 3#32
  · rw [if_pos h3]
    have hend := hfields [8, 12]
    obtain ⟨s, k₁, hread, hwalk⟩ := readString_returns hend.setup (hnul hend)
      (tagAddr m A i + 16) (headersInside_string _)
    obtain ⟨k', hsay, hsaid⟩ := Console.say_walked hwalk.setup
      "Module at %x-%x. Command line %s\n" [.word (load32 k.mem (tagAddr m A i + 8)),
        .word (load32 k.mem (tagAddr m A i + 12)), .str (some s)] rfl
    have hstep := congrArg (fun o => Option.bind o fun r => r.2.say "Module at %x-%x. Command line %s\n"
      [.word (load32 k.mem (tagAddr m A i + 8)), .word (load32 k.mem (tagAddr m A i + 12)),
        .str (some r.1)]) hread
    exact ⟨k', _, hstep.trans hsay, (hend.trans hwalk).trans hsaid⟩
  rw [if_neg h3]
  by_cases h4 : tagType m A i = 4#32
  · rw [if_pos h4]
    have hupper := hfields [8, 12]
    obtain ⟨k', hsay, hsaid⟩ := Console.say_walked hupper.setup
      "mem_lower = %dKB, mem_upper = %dKB\n" [.word (load32 k.mem (tagAddr m A i + 8)),
        .word (load32 k.mem (tagAddr m A i + 12))] rfl
    exact ⟨k', _, hsay, hupper.trans hsaid⟩
  rw [if_neg h4]
  by_cases h5 : tagType m A i = 5#32
  · rw [if_pos h5]
    have hpart := hfields [8, 12, 16]
    obtain ⟨k', hsay, hsaid⟩ := Console.say_walked hpart.setup "Boot device %x,%d,%d\n"
      [.word (load32 k.mem (tagAddr m A i + 8)), .word (load32 k.mem (tagAddr m A i + 12)),
        .word (load32 k.mem (tagAddr m A i + 16))] rfl
    exact ⟨k', _, hsay, hpart.trans hsaid⟩
  rw [if_neg h5]
  by_cases h6 : tagType m A i = 6#32
  · rw [if_pos h6]
    obtain ⟨k₁, hsay, hsaid⟩ := Console.say_walked hfirst.setup "Memory map:\n" [] rfl
    have hall := hfirst.trans hsaid
    have hsize := hat.size
    obtain ⟨k', cs, hloop, hwalk⟩ := mmapLoop_bounded hat h6 fuel 0 k₁ (by omega) hall.setup
      (hm.walked hall) (by omega) (by omega)
    refine ⟨k', _, ?_, hall.trans hwalk⟩
    rw [Nat.zero_mul] at hloop
    rw [hsay]
    exact hloop
  · rw [if_neg h6]
    exact ⟨_, _, rfl, hfirst⟩

/-! ## All tags -/

/-- From tag number `i` the walk comes to the end tag number `i + c`. -/
theorem tagLoop_bounded (hhigh : 0xC0000000 ≤ A.toNat) (hfits : A.toNat + total < 2 ^ 32)
    (h : DeclaredInside m A total) {fuel : Nat} (hfuel : total ≤ fuel) :
    ∀ (c i n : Nat) (k : Console), tagType m A (i + c) = 0#32 →
      (∀ j < i + c, tagType m A j ≠ 0#32) → c < n → k.Setup → RunsOn m k →
      ∃ k' cs, tagLoop fuel n (tagAddr m A i) k = some (tagAddr m A (i + c), k') ∧
        Walked (HeadersInside A total) k k' cs
  | _, _, 0, _, _, _, hn, _, _ => absurd hn (Nat.not_lt_zero _)
  | c, i, n + 1, k, hend, hbefore, hn, hk, hm => by
      have hin := tagOffset_inside h i fun j hj => hbefore j (Nat.lt_of_lt_of_le hj (Nat.le_add_right i c))
      have haddr : (tagAddr m A i).toNat = A.toNat + tagOffset m A i := by
        unfold tagAddr
        bv_omega
      have htype : load32 k.mem (tagAddr m A i) = tagType m A i := hm.load32 (by omega) (by omega)
      have hsize : load32 k.mem (tagAddr m A i + 4) = tagSize m A i :=
        hm.load32 (by bv_omega) (by bv_omega)
      have hfirst : HeadersInside A total .header (tagAddr m A i) 4 := fun _ => by
        unfold Inside
        omega
      have hsecond : HeadersInside A total .header (tagAddr m A i + 4) 4 := fun _ => by
        unfold Inside
        bv_omega
      have htypeRead := Console.emit_load_walked hk .header hfirst
      cases c with
      | zero => exact ⟨_, _, tagLoop_end (htype.trans hend), htypeRead⟩
      | succ c =>
          have hno : NoEnd m A i := fun j hj => hbefore j (by omega)
          have hat : At m A total i := ⟨hhigh, hfits, h, hno⟩
          -- the end tag's type is a NUL for every string to end at
          have hlast := tagOffset_inside h (i + (c + 1)) hbefore
          have hlastAddr : (tagAddr m A (i + (c + 1))).toNat = A.toNat + tagOffset m A (i + (c + 1)) := by
            unfold tagAddr
            bv_omega
          have hnul : m (tagAddr m A (i + (c + 1))) = 0#8 := byte_of_load32 hend
          have hagain := htypeRead.trans (Console.emit_load_walked htypeRead.setup .header hfirst)
          have hheader : Walked (HeadersInside A total) k (k.readHeader (tagAddr m A i)) [] :=
            hagain.trans (Console.emit_load_walked hagain.setup .header hsecond)
          obtain ⟨k₁, hsay, hsaid⟩ := Console.say_walked hheader.setup "Tag %x, Size %x\n"
            [.word (load32 k.mem (tagAddr m A i)), .word (load32 k.mem (tagAddr m A i + 4))] rfl
          have htop := hheader.trans hsaid
          obtain ⟨k₂, cs, hvisit, hvisited⟩ := visitTag_bounded hat htop.setup (hm.walked htop)
            (by omega) hnul hfuel
          have hall := htop.trans hvisited
          have hstep := hall.trans (Console.emit_load_walked hall.setup .header hsecond)
          have hnext : tagAddr m A i + padded (load32 k₂.mem (tagAddr m A i + 4)) =
              tagAddr m A (i + 1) := by
            rw [tagAddr_succ, (hm.walked hall).load32 (by bv_omega) (by bv_omega)]
            rfl
          have hplace : i + (c + 1) = i + 1 + c := by omega
          rw [hplace] at hend hbefore ⊢
          obtain ⟨k', cs', hloop, hwalk⟩ := tagLoop_bounded hhigh hfits h hfuel c (i + 1) n _ hend
            hbefore (Nat.lt_of_succ_lt_succ hn) hstep.setup (hm.walked hstep)
          refine ⟨k', _, ?_, hstep.trans hwalk⟩
          rw [tagLoop_tag (htype ▸ hno i (Nat.le_refl i)) hsay hvisit, hnext]
          exact hloop

theorem walkInfo_bounded (hhigh : 0xC0000000 ≤ A.toNat) (hfits : A.toNat + total < 2 ^ 32)
    (h : DeclaredInside m A total) {k : Console} (hk : k.Setup) (hm : RunsOn m k) {fuel : Nat}
    (hfuel : total < fuel) :
    ∃ k' cs, walkInfo fuel A k = some k' ∧ Walked (HeadersInside A total) k k' cs := by
  obtain ⟨e, -, hend, hbefore⟩ := endTag_reached h _ 0 (Nat.le_refl _)
    fun j hj => absurd hj (Nat.not_lt_zero j)
  have hcount : e < total := by
    -- each tag before the end takes at least 8 bytes
    have hgrow : ∀ i ≤ e, i + 8 ≤ tagOffset m A i := by
      intro i
      induction i with
      | zero => exact fun _ => Nat.le_refl 8
      | succ i ih =>
          intro hi
          obtain ⟨hpad, -⟩ := h.next i fun j hj => hbefore j (by omega)
          have hle := (le_padded hpad).2
          have hsucc := tagOffset_succ (m := m) (A := A) i
          have hprev := ih (by omega)
          omega
    have hlast := hgrow e (Nat.le_refl e)
    have hin := tagOffset_inside h e hbefore
    omega
  have hinside : HeadersInside A total .total A 4 := headersInside_total A 4
  have hread := Console.emit_load_walked hk .total hinside
  obtain ⟨k₁, hsay, hsaid⟩ := Console.say_walked hread.setup "Multiboot info size: %d bytes\n"
    [.word (load32 k.mem A)] rfl
  have htop := hread.trans hsaid
  obtain ⟨k₂, cs, hloop, hwalk⟩ := tagLoop_bounded hhigh hfits h (Nat.le_of_lt hfuel) e 0 fuel k₁
    (by rwa [Nat.zero_add]) (by rwa [Nat.zero_add]) (Nat.lt_trans hcount hfuel) htop.setup
    (hm.walked htop)
  rw [Nat.zero_add] at hloop
  have hall := htop.trans hwalk
  have hlast : HeadersInside A total .header (tagAddr m A e + 4) 4 := fun _ => by
    have hin := tagOffset_inside h e hbefore
    unfold Inside tagAddr
    bv_omega
  have hlastRead := hall.trans (Console.emit_load_walked hall.setup .header hlast)
  obtain ⟨k₃, hsay₃, hsaid₃⟩ := Console.say_walked hlastRead.setup
    "Total multiboot info size: %d bytes\n"
    [.word (tagAddr m A e + padded (load32 k₂.mem (tagAddr m A e + 4)) - A)] rfl
  obtain ⟨k₄, hsay₄, hsaid₄⟩ := Console.say_walked hsaid₃.setup "Multiboot validation complete!\n" [] rfl
  refine ⟨k₄, _, ?_, (hlastRead.trans hsaid₃).trans hsaid₄⟩
  rw [walkInfo_eq, hsay, Option.bind_some]
  rw [show A + 8 = tagAddr m A 0 from rfl, hloop, Option.bind_some]
  dsimp only
  rw [hsay₃, Option.bind_some, hsay₄]

/-- On memory whose declared sizes keep inside the block, `validate_boot` ends,
and the tag headers and memory-map entries it reads are inside
`[addr, addr + size)`. -/
theorem validateBoot_bounded (m : Mem) (addr : BitVec 32) (haligned : addr &&& 7#32 = 0#32)
    (hfits : infoBase addr + (load32 m (infoAddr addr)).toNat < 2 ^ 32)
    (h : DeclaredInside m (infoAddr addr) (load32 m (infoAddr addr)).toNat) :
    ∀ fuel, (load32 m (infoAddr addr)).toNat < fuel → ∃ k',
      validateBoot fuel multibootMagic addr (Console.boot m) = some k' ∧
        ∀ l ∈ k'.loads, l.1 = .header ∨ l.1 = .entry →
          Inside (infoAddr addr) (load32 m (infoAddr addr)).toNat l.2.1 l.2.2 := by
  intro fuel hfuel
  obtain ⟨hbase, hhigh⟩ := infoAddr_toNat addr (by omega)
  obtain ⟨k₁, k₂, hsay, hconvert, hwalk⟩ := convertInfo_walked
    (HeadersInside (infoAddr addr) (load32 m (infoAddr addr)).toNat) addr (Console.boot_setup m)
  obtain ⟨k', cs, hrun, hinfo⟩ := walkInfo_bounded hhigh (by omega) h hwalk.setup
    (RunsOn.walked (fun _ _ => rfl) hwalk) hfuel
  have hall := hwalk.trans hinfo
  obtain ⟨ls, hls, hin⟩ := hall.loads
  refine ⟨k', ?_, ?_⟩
  · rw [validateBoot_eq haligned hsay hconvert]
    exact hrun
  · intro l hl
    have hboot : (Console.boot m).loads = [] := rfl
    rw [hls, hboot, List.nil_append] at hl
    exact hin l hl

end Bounds

/-- Memory with the sample block at `0xC0010000`. -/
def sampleInfo : Mem := memOf 0xC0010000#32 (encodeBlock 0#32 sampleTags)

theorem sampleInfo_declared : DeclaredInside sampleInfo 0xC0010000#32 72 := by
  have hend : ∀ i, NoEnd sampleInfo 0xC0010000#32 i → i = 0 ∨ i = 1 := by
    intro i hno
    rcases Nat.lt_or_ge i 2 with hsmall | hlarge
    · omega
    · exact absurd (by decide +kernel) (hno 2 hlarge)
  refine ⟨by decide, fun i hno => ?_, fun i hno h6 => ?_⟩
  · rcases hend i hno with rfl | rfl
    · decide +kernel
    · decide +kernel
  · rcases hend i hno with rfl | rfl
    · exact absurd h6 (by decide +kernel)
    · have hes : tagEntrySize sampleInfo 0xC0010000#32 1 = 24#32 := by decide +kernel
      have hsize : tagSize sampleInfo 0xC0010000#32 1 = 40#32 := by decide +kernel
      have hoff : tagOffset sampleInfo 0xC0010000#32 1 = 24 := by decide +kernel
      rw [hes, hsize, hoff]
      refine ⟨by decide, fun j hj => ?_⟩
      have hj' : 16 + j * 24 < 40 := hj
      show 24 + 16 + j * 24 + 24 ≤ 72
      omega

theorem validateBoot_bounded_sample : ∃ k',
    validateBoot 100 multibootMagic 0x10000#32 (Console.boot sampleInfo) = some k' ∧
      ∀ l ∈ k'.loads, l.1 = .header ∨ l.1 = .entry →
        Inside 0xC0010000#32 (load32 sampleInfo 0xC0010000#32).toNat l.2.1 l.2.2 := by
  have htotal : (load32 sampleInfo (infoAddr 0x10000#32)).toNat = 72 := by decide +kernel
  exact validateBoot_bounded sampleInfo 0x10000#32 (by decide) (by rw [htotal]; decide)
    (by rw [htotal]; exact sampleInfo_declared) 100 (by rw [htotal]; decide)

/-! ## A tag of size 0 -/

/-- A tag whose padded size is 0 is visited for ever. -/
theorem tagLoop_stuck {m : Mem} {p : Addr} (hp : 4000 ≤ p.toNat) (hfits : p.toNat + 8 ≤ 2 ^ 32)
    (htype : load32 m p ≠ 0#32) (hother : ∀ t ∈ [1#32, 2#32, 3#32, 4#32, 5#32, 6#32], load32 m p ≠ t)
    (hsize : padded (load32 m (p + 4)) = 0#32) (fuel : Nat) :
    ∀ (n : Nat) (k : Console), k.Setup → RunsOn m k → tagLoop fuel n p k = none
  | 0, _, _, _ => rfl
  | n + 1, k, hk, hm => by
      have hread : ∀ {k : Console}, RunsOn m k → load32 k.mem p = load32 m p := fun hm =>
        hm.load32 hp (by omega)
      have hload : ∀ {k : Console}, k.Setup → ∀ q : Addr,
          Walked (fun _ _ _ => True) k (k.emit (.load .header q 4)) [] := fun hk q =>
        Console.emit_load_walked hk .header trivial
      have htypeRead := hload hk p
      have hagain := htypeRead.trans (hload htypeRead.setup p)
      have hheader : Walked (fun _ _ _ => True) k (k.readHeader p) [] :=
        hagain.trans (hload hagain.setup (p + 4))
      obtain ⟨k₁, hsay, hsaid⟩ := Console.say_walked hheader.setup "Tag %x, Size %x\n"
        [.word (load32 k.mem p), .word (load32 k.mem (p + 4))] rfl
      have htop := hheader.trans hsaid
      have hvisit : visitTag fuel p k₁ = some (k₁.emit (.load .header p 4)) := by
        unfold visitTag Console.read32
        dsimp only
        rw [hread (hm.walked htop), if_neg (hother _ (by decide)), if_neg (hother _ (by decide)),
          if_neg (hother _ (by decide)), if_neg (hother _ (by decide)),
          if_neg (hother _ (by decide)), if_neg (hother _ (by decide))]
      have hvisited := htop.trans (hload htop.setup p)
      have hall := hvisited.trans (hload hvisited.setup (p + 4))
      have hstay : p + padded (load32 (k₁.emit (.load .header p 4)).mem (p + 4)) = p := by
        rw [(hm.walked hvisited).load32 (by bv_omega) (by bv_omega), hsize]
        exact BitVec.add_zero p
      rw [tagLoop_tag (by rw [hread hm]; exact htype) hsay hvisit, hstay]
      exact tagLoop_stuck hp hfits htype hother hsize fuel n _ hall.setup (hm.walked hall)

theorem walkInfo_stuck {m : Mem} {A : Addr} (hlow : 4000 ≤ A.toNat) (hfits : A.toNat + 16 < 2 ^ 32)
    (htype : load32 m (A + 8) ≠ 0#32)
    (hother : ∀ t ∈ [1#32, 2#32, 3#32, 4#32, 5#32, 6#32], load32 m (A + 8) ≠ t)
    (hsize : padded (load32 m (A + 8 + 4)) = 0#32) (fuel : Nat) {k : Console} (hk : k.Setup)
    (hm : RunsOn m k) : walkInfo fuel A k = none := by
  have hread : Walked (fun _ _ _ => True) k (k.emit (.load .total A 4)) [] :=
    Console.emit_load_walked hk .total trivial
  obtain ⟨k₁, hsay, hsaid⟩ := Console.say_walked hread.setup "Multiboot info size: %d bytes\n"
    [.word (load32 k.mem A)] rfl
  have hall := hread.trans hsaid
  rw [walkInfo_eq, hsay, Option.bind_some, tagLoop_stuck (by bv_omega) (by bv_omega) htype hother
    hsize fuel fuel k₁ hall.setup (hm.walked hall)]
  rfl

/-- A block of 24 bytes whose first tag has type 7 and size 0. -/
def stuckInfo : Mem :=
  memOf 0xC0010000#32 (le32 24#32 ++ le32 0#32 ++ le32 7#32 ++ le32 0#32 ++ endTag)

/-- However many passes the loop is given, `validate_boot` does not end on it. -/
theorem validateBoot_diverges :
    0x10000#32 &&& 7#32 = 0#32 ∧ load32 stuckInfo (infoAddr 0x10000#32) = 24#32 ∧
      ∀ fuel, validateBoot fuel multibootMagic 0x10000#32 (Console.boot stuckInfo) = none := by
  have haddr : infoAddr 0x10000#32 = 0xC0010000#32 := by decide +kernel
  have htype : load32 stuckInfo (0xC0010000#32 + 8) = 7#32 := by decide +kernel
  have hsize : padded (load32 stuckInfo (0xC0010000#32 + 8 + 4)) = 0#32 := by decide +kernel
  refine ⟨by decide, by decide +kernel, fun fuel => ?_⟩
  obtain ⟨k₁, k₂, hsay, hconvert, hwalk⟩ := convertInfo_walked (fun _ _ _ => True) 0x10000#32
    (Console.boot_setup stuckInfo)
  rw [haddr] at hconvert
  rw [validateBoot_eq (by decide) hsay hconvert]
  have hstart : RunsOn stuckInfo (Console.boot stuckInfo) := fun _ _ => rfl
  refine walkInfo_stuck (by decide) (by decide) ?_ ?_ hsize fuel hwalk.setup (hstart.walked hwalk)
  · rw [htype]
    decide
  · intro t ht heq
    have hseven : 7#32 ∈ [1#32, 2#32, 3#32, 4#32, 5#32, 6#32] := by rwa [← htype, heq]
    exact absurd hseven (by decide)

end RedOS
