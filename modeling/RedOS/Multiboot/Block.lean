/-
# `RedOS.Multiboot.Block` — `validate_boot` on a well-formed block

A block of boot information is a list of tags, each padded to 8 bytes, between a
total size and an end tag.  A `Tag` carries what makes it well formed; `encode`
says which bytes it is, `calls` what `validate_boot` has to say about it.  The
walk over an encoded block says exactly that, of every tag and of every entry of
every memory map, and reads nothing outside the block.

    mmapLoop_walked     the entries of one memory map, each once
    visitTag_walked     one tag
    tagLoop_walked      all tags
    validateBoot_walks  the block
-/
import RedOS.Multiboot.Walk

namespace RedOS

open ByteMemory

/-! ## Blocks -/

/-- What the fields of a tag need: strings end inside it, fixed fields fit, and a
memory map is made of whole entries. -/
structure SoundBody (type : BitVec 32) (body : List (BitVec 8)) : Prop where
  string : type = 1#32 ∨ type = 2#32 → 0#8 ∈ body
  module : type = 3#32 → 8 ≤ body.length ∧ 0#8 ∈ body.drop 8
  meminfo : type = 4#32 → 8 ≤ body.length
  bootdev : type = 5#32 → 12 ≤ body.length
  mmap : type = 6#32 → 8 ≤ body.length ∧ 24 ≤ (get32 body 0).toNat ∧
    (get32 body 0).toNat ∣ body.length - 8

/-- A tag without the end tag's type: what follows its header, and the padding. -/
structure Tag where
  type : BitVec 32
  body : List (BitVec 8)
  padding : List (BitVec 8)
  type_ne : type ≠ 0#32
  padding_length : padding.length = (8 - body.length % 8) % 8
  sound : SoundBody type body

/-- The fields of `multiboot_mmap_entry` that are used. -/
structure MmapEntry where
  addr : BitVec 64
  len : BitVec 64
  type : BitVec 32

namespace MmapEntry

/-- The entry at offset `off`. -/
def decode (bs : List (BitVec 8)) (off : Nat) : MmapEntry where
  addr := get64 bs off
  len := get64 bs (off + 8)
  type := get32 bs (off + 16)

def call (e : MmapEntry) : List (BitVec 8) × List Arg :=
  RedOS.call regionFormat (regionArgs e.addr e.len e.type)

end MmapEntry

namespace Tag

/-- `tag->size` -/
def size (t : Tag) : Nat := 8 + t.body.length

/-- With the padding. -/
def length (t : Tag) : Nat := 8 + t.body.length + t.padding.length

def encode (t : Tag) : List (BitVec 8) :=
  le32 t.type ++ (le32 (BitVec.ofNat 32 t.size) ++ (t.body ++ t.padding))

/-- `entry_size` -/
def entrySize (t : Tag) : Nat := (get32 t.body 0).toNat

/-- How many entries a memory map has. -/
def entryCount (t : Tag) : Nat := (t.body.length - 8) / t.entrySize

/-- The entry number `j`. -/
def entry (t : Tag) (j : Nat) : MmapEntry := .decode t.body (8 + j * t.entrySize)

def entries (t : Tag) : List MmapEntry := (List.range t.entryCount).map t.entry

/-- What the `switch` prints. -/
def bodyCalls (t : Tag) : List (List (BitVec 8) × List Arg) :=
  if t.type = 1#32 then [call "Command line = %s\n" [.str (some (cString t.body))]]
  else if t.type = 2#32 then [call "Boot loader name = %s\n" [.str (some (cString t.body))]]
  else if t.type = 3#32 then
    [call "Module at %x-%x. Command line %s\n" [.word (get32 t.body 0), .word (get32 t.body 4),
      .str (some (cString (t.body.drop 8)))]]
  else if t.type = 4#32 then
    [call "mem_lower = %dKB, mem_upper = %dKB\n" [.word (get32 t.body 0), .word (get32 t.body 4)]]
  else if t.type = 5#32 then
    [call "Boot device %x,%d,%d\n"
      [.word (get32 t.body 0), .word (get32 t.body 4), .word (get32 t.body 8)]]
  else if t.type = 6#32 then call "Memory map:\n" [] :: t.entries.map MmapEntry.call
  else []

def calls (t : Tag) : List (List (BitVec 8) × List Arg) :=
  call "Tag %x, Size %x\n" [.word t.type, .word (BitVec.ofNat 32 t.size)] :: t.bodyCalls

end Tag

/-- The end tag. -/
def endTag : List (BitVec 8) := le32 0#32 ++ le32 8#32

/-- All padded sizes, the end tag's apart. -/
def tagsLength (tags : List Tag) : Nat := tags.foldr (fun t n => t.length + n) 0

theorem tagsLength_cons (t : Tag) (tags : List Tag) :
    tagsLength (t :: tags) = t.length + tagsLength tags := rfl

/-- `total_size` -/
def totalSize (tags : List Tag) : Nat := 16 + tagsLength tags

/-- The block: total size, a reserved word, the tags, the end tag. -/
def encodeBlock (reserved : BitVec 32) (tags : List Tag) : List (BitVec 8) :=
  le32 (BitVec.ofNat 32 (totalSize tags)) ++ (le32 reserved ++ (tags.flatMap Tag.encode ++ endTag))

/-- The `n` bytes from `p` on are inside the block of `total` bytes at `A`. -/
def Inside (A : Addr) (total : Nat) (p : Addr) (n : Nat) : Prop :=
  A.toNat ≤ p.toNat ∧ p.toNat + n ≤ A.toNat + total

theorem length_lt_totalSize (tags : List Tag) : tags.length < totalSize tags := by
  have hle : tags.length ≤ tagsLength tags := by
    induction tags with
    | nil => exact Nat.le_refl 0
    | cons t tags ih =>
        have hlen : t.length = 8 + t.body.length + t.padding.length := rfl
        rw [List.length_cons, tagsLength_cons]
        omega
  unfold totalSize
  omega

theorem entryCount_lt {tags : List Tag} {t : Tag} (h : t ∈ tags) :
    t.entryCount < totalSize tags := by
  have hle : t.length ≤ tagsLength tags := by
    induction tags with
    | nil => exact absurd h List.not_mem_nil
    | cons u tags ih =>
        rw [tagsLength_cons]
        rcases List.mem_cons.mp h with rfl | hmem
        · exact Nat.le_add_right _ _
        · exact Nat.le_trans (ih hmem) (Nat.le_add_left _ _)
  have hcount : t.entryCount ≤ t.body.length - 8 := Nat.div_le_self _ _
  have hlen : t.length = 8 + t.body.length + t.padding.length := rfl
  unfold totalSize
  omega

/-! ## A tag in memory -/

/-- Where a tag of the block is: above `KERNEL_VIRTUAL_BASE`, with the block going
on behind it. -/
structure Placed (A : Addr) (total : Nat) (p : Addr) (len : Nat) : Prop where
  high : 0xC0000000 ≤ A.toNat
  fits : A.toNat + total ≤ 2 ^ 32
  start : A.toNat ≤ p.toNat
  stop : p.toNat + len + 8 ≤ A.toNat + total

theorem Walked.holds {R : Part → Addr → Nat → Prop} {k k' : Console}
    {cs : List (List (BitVec 8) × List Arg)} (h : Walked R k k' cs) {p : Addr}
    {bs : List (BitVec 8)} (hbs : Holds k.mem p bs) (hp : 4000 ≤ p.toNat)
    (hend : p.toNat + bs.length ≤ 2 ^ 32) : Holds k'.mem p bs := by
  refine hbs.congr fun i hi => h.kept _ ?_
  bv_omega

namespace Tag

theorem encode_length (t : Tag) : t.encode.length = t.length := by
  unfold encode length
  simp only [List.length_append]
  show 4 + (4 + (t.body.length + t.padding.length)) = _
  omega

variable {t : Tag} {m : Mem} {p : Addr}

theorem load_type (h : Holds m p t.encode) : load32 m p = t.type := load32_holds_le32 h

theorem load_size (h : Holds m p t.encode) : load32 m (p + 4) = BitVec.ofNat 32 t.size :=
  load32_holds_le32 (holds_append.mp h).2

theorem holds_body (h : Holds m p t.encode) : Holds m (p + 8) t.body := by
  have hrest := (holds_append.mp (holds_append.mp h).2).2
  have hplace : p + BitVec.ofNat 32 (le32 t.type).length +
      BitVec.ofNat 32 (le32 (BitVec.ofNat 32 t.size)).length = p + 8 := by
    show p + 4 + 4 = p + 8
    bv_omega
  rw [hplace] at hrest
  exact (holds_append.mp hrest).1

/-- The command line of a module tag. -/
theorem holds_cmdline (h : Holds m p t.encode) (hlen : 8 ≤ t.body.length) :
    Holds m (p + 16) (t.body.drop 8) := by
  have hbody := holds_body h
  rw [← List.take_append_drop 8 t.body] at hbody
  have hrest := (holds_append.mp hbody).2
  rw [List.length_take, Nat.min_eq_left hlen] at hrest
  have hplace : p + 8 + BitVec.ofNat 32 8 = p + 16 := by bv_omega
  rwa [hplace] at hrest

/-- A word of the body. -/
theorem load_body (h : Holds m p t.encode) (off : Nat) (hoff : off + 4 ≤ t.body.length) :
    load32 m (p + BitVec.ofNat 32 (8 + off)) = get32 t.body off := by
  rw [BitVec.ofNat_add, ← BitVec.add_assoc]
  exact load32_holds (holds_body h) off hoff

theorem load64_body (h : Holds m p t.encode) (off : Nat) (hoff : off + 8 ≤ t.body.length) :
    load64 m (p + BitVec.ofNat 32 (8 + off)) = get64 t.body off := by
  rw [BitVec.ofNat_add, ← BitVec.add_assoc]
  exact load64_holds (holds_body h) off hoff

end Tag

theorem flatMap_encode_length (tags : List Tag) :
    (tags.flatMap Tag.encode).length = tagsLength tags := by
  induction tags with
  | nil => rfl
  | cons t tags ih =>
      rw [List.flatMap_cons, List.length_append, t.encode_length, ih, tagsLength_cons]

/-! ## The memory map -/

namespace Tag

variable {t : Tag}

/-- A memory map is its entries. -/
theorem body_length (h : t.type = 6#32) : t.body.length = 8 + t.entryCount * t.entrySize := by
  obtain ⟨hlen, -, hdvd⟩ := t.sound.mmap h
  have hcancel : t.entryCount * t.entrySize = t.body.length - 8 := Nat.div_mul_cancel hdvd
  omega

theorem entrySize_le (h : t.type = 6#32) : 24 ≤ t.entrySize := (t.sound.mmap h).2.1

/-- Entry `j` ends before the body does. -/
theorem entry_end (h : t.type = 6#32) {j : Nat} (hj : j < t.entryCount) :
    8 + j * t.entrySize + 24 ≤ t.body.length := by
  have hmul : (j + 1) * t.entrySize ≤ t.entryCount * t.entrySize := Nat.mul_le_mul_right _ hj
  have hsucc : (j + 1) * t.entrySize = j * t.entrySize + t.entrySize := Nat.succ_mul _ _
  have hsize := entrySize_le h
  have hbody := body_length h
  omega

end Tag

section Walk

variable {A : Addr} {total : Nat} {p : Addr} {t : Tag} {k : Console}

/-- A field of the tag is inside the block. -/
theorem Placed.inside (hat : Placed A total p t.length) {o n : Nat} (ho : o + n ≤ t.size) :
    Inside A total (p + BitVec.ofNat 32 o) n := by
  obtain ⟨hhigh, hfits, hstart, hstop⟩ := hat
  unfold Tag.length at hstop
  unfold Tag.size at ho
  unfold Inside
  bv_omega

theorem Placed.holds {R : Part → Addr → Nat → Prop} {k' : Console} {cs : List (List (BitVec 8) × List Arg)}
    (hat : Placed A total p t.length) (h : Walked R k k' cs) (hbs : Holds k.mem p t.encode) :
    Holds k'.mem p t.encode := by
  obtain ⟨hhigh, hfits, hstart, hstop⟩ := hat
  refine h.holds hbs (by omega) ?_
  rw [Tag.encode_length]
  omega

/-- The loop is at entry `j`, and goes on exactly if there is one. -/
theorem mmap_bound (hat : Placed A total p t.length) (htype : t.type = 6#32) {j : Nat}
    (hj : j ≤ t.entryCount) :
    (p + BitVec.ofNat 32 (8 + (8 + j * t.entrySize))).toNat < (p + BitVec.ofNat 32 t.size).toNat ↔
      j < t.entryCount := by
  obtain ⟨hhigh, hfits, hstart, hstop⟩ := hat
  have hbody := Tag.body_length htype
  have hsize := Tag.entrySize_le htype
  unfold Tag.length at hstop
  unfold Tag.size
  by_cases hlt : j < t.entryCount
  · have hend := Tag.entry_end htype hlt
    refine iff_of_true ?_ hlt
    bv_omega
  · obtain rfl : j = t.entryCount := Nat.le_antisymm hj (Nat.le_of_not_lt hlt)
    refine iff_of_false ?_ hlt
    bv_omega

/-- From entry `j` on, the remaining `c` entries are visited, each once. -/
theorem mmapLoop_walked (hat : Placed A total p t.length) (htype : t.type = 6#32) :
    ∀ (c j n : Nat) (k : Console), j + c = t.entryCount → c < n → k.Setup →
      Holds k.mem p t.encode →
      ∃ k', mmapLoop p n (p + BitVec.ofNat 32 (8 + (8 + j * t.entrySize))) k = some k' ∧
        Walked (fun _ => Inside A total) k k' ((List.range' j c).map fun i => (t.entry i).call)
  | _, _, 0, _, _, hn, _, _ => absurd hn (Nat.not_lt_zero _)
  | 0, j, n + 1, k, hj, _, hk, h => by
      have hread : Walked (fun _ => Inside A total) k (k.emit (.load .header (p + 4) 4)) [] :=
        Console.emit_load_walked hk .header (hat.inside (o := 4) (by unfold Tag.size; omega))
      refine ⟨k.emit (.load .header (p + 4) 4), ?_, hread⟩
      refine mmapLoop_end ?_
      rw [Tag.load_size h, mmap_bound hat htype (by omega)]
      omega
  | c + 1, j, n + 1, k, hj, hn, hk, h => by
      have hlt : j < t.entryCount := by omega
      have hend := Tag.entry_end htype hlt
      have hbody := Tag.body_length htype
      generalize hcur : p + BitVec.ofNat 32 (8 + (8 + j * t.entrySize)) = cursor
      -- the entry's fields, at their offsets
      have hshift : ∀ c : Nat, cursor + BitVec.ofNat 32 c =
          p + BitVec.ofNat 32 (8 + (8 + j * t.entrySize + c)) := by
        intro c
        rw [← hcur, BitVec.add_assoc, ← BitVec.ofNat_add, Nat.add_assoc 8]
      have hin : ∀ c n : Nat, c + n ≤ 24 → Inside A total (cursor + BitVec.ofNat 32 c) n := by
        intro c n hcn
        rw [hshift]
        exact hat.inside (by unfold Tag.size; omega)
      have haddr : load64 k.mem cursor = (t.entry j).addr := by
        rw [← hcur]
        exact Tag.load64_body h _ (by omega)
      have hlen : load64 k.mem (cursor + 8) = (t.entry j).len :=
        (congrArg (load64 k.mem) (hshift 8)).trans (Tag.load64_body h _ (by omega))
      have htyp : load32 k.mem (cursor + 16) = (t.entry j).type :=
        (congrArg (load32 k.mem) (hshift 16)).trans (Tag.load_body h _ (by omega))
      -- the pass
      have hbound : cursor.toNat < (p + load32 k.mem (p + 4)).toNat := by
        rw [Tag.load_size h, ← hcur]
        exact (mmap_bound hat htype (by omega)).mpr hlt
      have hread : Walked (fun _ => Inside A total) k (k.readEntry p cursor) [] :=
        Console.readEntry_walked hk (hat.inside (o := 4) (by unfold Tag.size; omega)) hin
      obtain ⟨k₁, hsay, hsaid⟩ := Console.say_walked hread.setup regionFormat
        (regionArgs (t.entry j).addr (t.entry j).len (t.entry j).type) rfl
      have hall := hread.trans hsaid
      have hstep := hall.trans (Console.emit_load_walked (n := 4) hall.setup .field
        (hat.inside (o := 8) (by unfold Tag.size; omega)))
      have hsize : load32 k₁.mem (p + 8) = BitVec.ofNat 32 t.entrySize := by
        have hword : get32 t.body 0 = BitVec.ofNat 32 t.entrySize := by
          unfold Tag.entrySize
          bv_omega
        exact (Tag.load_body (hat.holds hall h) 0 (by omega)).trans hword
      have hnext : cursor + load32 k₁.mem (p + 8) =
          p + BitVec.ofNat 32 (8 + (8 + (j + 1) * t.entrySize)) := by
        rw [hsize, hshift, Nat.succ_mul, Nat.add_assoc 8 (j * t.entrySize)]
      have hpass : mmapLoop p (n + 1) cursor k = mmapLoop p n
          (cursor + load32 k₁.mem (p + 8)) (k₁.emit (.load .field (p + 8) 4)) := by
        refine mmapLoop_entry hbound ?_
        rw [haddr, hlen, htyp]
        exact hsay
      obtain ⟨k', hloop, hwalk⟩ := mmapLoop_walked hat htype c (j + 1) n _ (by omega)
        (Nat.lt_of_succ_lt_succ hn) hstep.setup (hat.holds hstep h)
      refine ⟨k', ?_, ?_⟩
      · rw [hpass, hnext]
        exact hloop
      · rw [List.range'_succ, List.map_cons]
        exact hstep.trans hwalk

/-! ## A tag -/

/-- The two string tags. -/
theorem sayString_walked (hat : Placed A total p t.length) (hk : k.Setup)
    (h : Holds k.mem p t.encode) (hnul : 0#8 ∈ t.body) (format : String)
    (hargs : ∀ s, Console.accepts ((cString (chars format)).length + 1) (cString (chars format))
      [.str (some s)] = true) :
    ∃ k', ((k.readString (p + 8)).bind fun r => r.2.say format [.str (some r.1)]) = some k' ∧
      Walked (fun _ => Inside A total) k k' [call format [.str (some (cString t.body))]] := by
  have hlt := cString_lt hnul
  obtain ⟨hhigh, hfits, hstart, hstop⟩ := hat
  have hsmall : t.body.length ≤ 2 ^ 32 := by
    unfold Tag.length at hstop
    omega
  have hin : Inside A total (p + 8) ((cString t.body).length + 1) :=
    Placed.inside (t := t) (o := 8) ⟨hhigh, hfits, hstart, hstop⟩ (by unfold Tag.size; omega)
  obtain ⟨k₁, hread, hwalk⟩ := readString_walked (R := fun _ => Inside A total) hk
    (Tag.holds_body h) hnul hsmall hin
  obtain ⟨k₂, hsay, hsaid⟩ := Console.say_walked hwalk.setup format _ (hargs (cString t.body))
  refine ⟨k₂, ?_, hwalk.trans hsaid⟩
  rw [hread]
  exact hsay

/-- One tag: what the `switch` prints of it. -/
theorem visitTag_walked (hat : Placed A total p t.length) (hk : k.Setup)
    (h : Holds k.mem p t.encode) {fuel : Nat} (hfuel : t.type = 6#32 → t.entryCount < fuel) :
    ∃ k', visitTag fuel p k = some k' ∧ Walked (fun _ => Inside A total) k k' t.bodyCalls := by
  have htype := Tag.load_type h
  have hfirst : Walked (fun _ => Inside A total) k (k.emit (.load .header p 4)) [] := by
    have hin := hat.inside (o := 0) (n := 4) (by unfold Tag.size; omega)
    rw [BitVec.add_zero] at hin
    exact Console.emit_load_walked hk .header hin
  have hfields : ∀ {offs : List Nat} {n : Nat}, (∀ off ∈ offs, off + 4 ≤ 8 + n) → n ≤ t.body.length →
      Walked (fun _ => Inside A total) k ((k.emit (.load .header p 4)).readFields p offs) [] :=
    fun hoffs hn => hfirst.trans (Console.readFields_walked hfirst.setup fun off hoff =>
      hat.inside (Nat.le_trans (hoffs off hoff) (Nat.add_le_add_left hn 8)))
  have h₁ := hat.holds hfirst h
  unfold visitTag Console.read32 Tag.bodyCalls
  dsimp only
  rw [htype]
  by_cases h1 : t.type = 1#32
  · rw [if_pos h1, if_pos h1]
    obtain ⟨k', hrun, hwalk⟩ := sayString_walked hat hfirst.setup h₁ (t.sound.string (.inl h1))
      "Command line = %s\n" fun _ => rfl
    exact ⟨k', hrun, hfirst.trans hwalk⟩
  rw [if_neg h1, if_neg h1]
  by_cases h2 : t.type = 2#32
  · rw [if_pos h2, if_pos h2]
    obtain ⟨k', hrun, hwalk⟩ := sayString_walked hat hfirst.setup h₁ (t.sound.string (.inr h2))
      "Boot loader name = %s\n" fun _ => rfl
    exact ⟨k', hrun, hfirst.trans hwalk⟩
  rw [if_neg h2, if_neg h2]
  by_cases h3 : t.type = 3#32
  · rw [if_pos h3, if_pos h3]
    obtain ⟨hlen, hnul⟩ := t.sound.module h3
    have hend := @hfields [8, 12] 8 (by decide) hlen
    have hcmdline := Tag.holds_cmdline (hat.holds hend h) hlen
    have hlt := cString_lt hnul
    rw [List.length_drop] at hlt
    have hsize : t.body.length ≤ 2 ^ 32 := by
      obtain ⟨-, hfits, -, hstop⟩ := hat
      unfold Tag.length at hstop
      omega
    have hin : Inside A total (p + 16) ((cString (t.body.drop 8)).length + 1) :=
      hat.inside (o := 16) (by unfold Tag.size; omega)
    obtain ⟨k₁, hread, hstring⟩ := readString_walked (R := fun _ => Inside A total) hend.setup
      hcmdline hnul (by rw [List.length_drop]; omega) hin
    have hall := hend.trans hstring
    obtain ⟨k', hsay, hsaid⟩ := Console.say_walked hall.setup
      "Module at %x-%x. Command line %s\n" [.word (get32 t.body 0), .word (get32 t.body 4),
        .str (some (cString (t.body.drop 8)))] rfl
    refine ⟨k', ?_, hall.trans hsaid⟩
    rw [← Tag.load_body h 0 (by omega), ← Tag.load_body h 4 (by omega)] at hsay
    have hstep := congrArg (fun o => Option.bind o fun r => r.2.say "Module at %x-%x. Command line %s\n"
      [.word (load32 k.mem (p + BitVec.ofNat 32 (8 + 0))),
        .word (load32 k.mem (p + BitVec.ofNat 32 (8 + 4))), .str (some r.1)]) hread
    exact hstep.trans hsay
  rw [if_neg h3, if_neg h3]
  by_cases h4 : t.type = 4#32
  · rw [if_pos h4, if_pos h4]
    have hlen := t.sound.meminfo h4
    have hupper := @hfields [8, 12] 8 (by decide) hlen
    obtain ⟨k', hsay, hsaid⟩ := Console.say_walked hupper.setup
      "mem_lower = %dKB, mem_upper = %dKB\n" [.word (get32 t.body 0), .word (get32 t.body 4)] rfl
    refine ⟨k', ?_, hupper.trans hsaid⟩
    rw [← Tag.load_body h 0 (by omega), ← Tag.load_body h 4 (by omega)] at hsay
    exact hsay
  rw [if_neg h4, if_neg h4]
  by_cases h5 : t.type = 5#32
  · rw [if_pos h5, if_pos h5]
    have hlen := t.sound.bootdev h5
    have hpart := @hfields [8, 12, 16] 12 (by decide) hlen
    obtain ⟨k', hsay, hsaid⟩ := Console.say_walked hpart.setup "Boot device %x,%d,%d\n"
      [.word (get32 t.body 0), .word (get32 t.body 4), .word (get32 t.body 8)] rfl
    refine ⟨k', ?_, hpart.trans hsaid⟩
    rw [← Tag.load_body h 0 (by omega), ← Tag.load_body h 4 (by omega),
      ← Tag.load_body h 8 (by omega)] at hsay
    exact hsay
  rw [if_neg h5, if_neg h5]
  by_cases h6 : t.type = 6#32
  · rw [if_pos h6, if_pos h6]
    obtain ⟨k₁, hsay, hsaid⟩ := Console.say_walked hfirst.setup "Memory map:\n" [] rfl
    have hall := hfirst.trans hsaid
    obtain ⟨k', hloop, hwalk⟩ := mmapLoop_walked hat h6 t.entryCount 0 fuel k₁ (Nat.zero_add _)
      (hfuel h6) hall.setup (hat.holds hall h)
    refine ⟨k', ?_, ?_⟩
    · rw [Nat.zero_mul] at hloop
      exact (congrArg (fun o => Option.bind o fun k => mmapLoop p fuel (p + 16) k) hsay).trans hloop
    · have hentries : (List.range' 0 t.entryCount).map (fun i => (t.entry i).call) =
          t.entries.map MmapEntry.call := by
        unfold Tag.entries
        rw [List.range_eq_range', List.map_map]
        rfl
      have hwhole := hall.trans hwalk
      rw [hentries] at hwhole
      exact hwhole
  · rw [if_neg h6, if_neg h6]
    exact ⟨_, rfl, hfirst⟩

theorem padded_size (hat : Placed A total p t.length) :
    padded (BitVec.ofNat 32 t.size) = BitVec.ofNat 32 t.length := by
  obtain ⟨hhigh, hfits, hstart, hstop⟩ := hat
  have hpad := t.padding_length
  unfold Tag.length at hstop ⊢
  unfold Tag.size
  apply BitVec.eq_of_toNat_eq
  rw [padded_toNat (by bv_omega)]
  bv_omega

/-! ## All tags -/

/-- The tags from `p` on, up to the end tag, each visited once. -/
theorem tagLoop_walked (hhigh : 0xC0000000 ≤ A.toNat) (hfits : A.toNat + total ≤ 2 ^ 32)
    (fuel : Nat) : ∀ (tags : List Tag) (n : Nat) (p : Addr) (k : Console),
      (∀ t ∈ tags, t.type = 6#32 → t.entryCount < fuel) → tags.length < n → k.Setup →
      Holds k.mem p (tags.flatMap Tag.encode ++ endTag) → A.toNat ≤ p.toNat →
      p.toNat + tagsLength tags + 8 = A.toNat + total →
      ∃ k', tagLoop fuel n p k = some (p + BitVec.ofNat 32 (tagsLength tags), k') ∧
        Walked (fun _ => Inside A total) k k' (tags.flatMap Tag.calls) ∧
        load32 k'.mem (p + BitVec.ofNat 32 (tagsLength tags) + 4) = 8#32
  | _, 0, _, _, _, hn, _, _, _, _ => absurd hn (Nat.not_lt_zero _)
  | [], n + 1, p, k, _, _, hk, h, hstart, hstop => by
      have hplace : p + BitVec.ofNat 32 (tagsLength []) = p := BitVec.add_zero p
      have hend : Holds k.mem p (le32 0#32 ++ (le32 8#32 ++ [])) := h
      have htype : load32 k.mem p = 0#32 := load32_holds_le32 hend
      have hsize : load32 k.mem (p + 4) = 8#32 := load32_holds_le32 (holds_append.mp hend).2
      have hin : Inside A total p 4 := by
        have hnil : tagsLength [] = 0 := rfl
        unfold Inside
        omega
      rw [hplace]
      exact ⟨k.emit (.load .header p 4), tagLoop_end htype, Console.emit_load_walked hk .header hin, hsize⟩
  | t :: tags, n + 1, p, k, hfuel, hn, hk, h, hstart, hstop => by
      rw [List.flatMap_cons, List.append_assoc] at h
      obtain ⟨ht, hrest⟩ := holds_append.mp h
      rw [Tag.encode_length] at hrest
      rw [tagsLength_cons] at hstop
      have hat : Placed A total p t.length := ⟨hhigh, hfits, hstart, by omega⟩
      -- the header
      have hfirst : Inside A total p 4 := by
        have hin := hat.inside (o := 0) (n := 4) (by unfold Tag.size; omega)
        rwa [BitVec.add_zero] at hin
      have hsecond : Inside A total (p + 4) 4 := hat.inside (o := 4) (by unfold Tag.size; omega)
      have htypeRead : Walked (fun _ => Inside A total) k (k.emit (.load .header p 4)) [] :=
        Console.emit_load_walked hk .header hfirst
      have hagain := htypeRead.trans (Console.emit_load_walked htypeRead.setup .header hfirst)
      have hheader : Walked (fun _ => Inside A total) k (k.readHeader p) [] :=
        hagain.trans (Console.emit_load_walked hagain.setup .header hsecond)
      obtain ⟨k₁, hsay, hsaid⟩ := Console.say_walked hheader.setup "Tag %x, Size %x\n"
        [.word t.type, .word (BitVec.ofNat 32 t.size)] rfl
      have htop := hheader.trans hsaid
      obtain ⟨k₂, hvisit, hvisited⟩ := visitTag_walked hat htop.setup (hat.holds htop ht)
        (hfuel t List.mem_cons_self)
      have hall := htop.trans hvisited
      have hstep := hall.trans (Console.emit_load_walked hall.setup .header hsecond)
      -- and on to the next tag
      have hnext : p + padded (load32 k₂.mem (p + 4)) = p + BitVec.ofNat 32 t.length := by
        rw [Tag.load_size (hat.holds hall ht), padded_size hat]
      have hplace : (p + BitVec.ofNat 32 t.length).toNat = p.toNat + t.length := by bv_omega
      have hholds : Holds (k₂.emit (.load .header (p + 4) 4)).mem (p + BitVec.ofNat 32 t.length)
          (tags.flatMap Tag.encode ++ endTag) := by
        refine hstep.holds hrest (by omega) ?_
        rw [List.length_append, flatMap_encode_length, hplace]
        show _ + (_ + 8) ≤ _
        omega
      obtain ⟨k', hloop, hwalk, hend⟩ := tagLoop_walked hhigh hfits fuel tags n _ _
        (fun t ht => hfuel t (List.mem_cons_of_mem _ ht)) (Nat.lt_of_succ_lt_succ hn) hstep.setup
        hholds (by omega) (by omega)
      have hsum : p + BitVec.ofNat 32 t.length + BitVec.ofNat 32 (tagsLength tags) =
          p + BitVec.ofNat 32 (tagsLength (t :: tags)) := by
        rw [BitVec.add_assoc, ← BitVec.ofNat_add]
        rfl
      rw [hsum] at hloop hend
      refine ⟨k', ?_, ?_, hend⟩
      · rw [tagLoop_tag ?_ ?_ hvisit, hnext]
        · exact hloop
        · rw [Tag.load_type ht]
          exact t.type_ne
        · rw [Tag.load_type ht, Tag.load_size ht]
          exact hsay
      · have hwhole := hstep.trans hwalk
        rw [List.append_nil] at hwhole
        rw [List.flatMap_cons]
        exact hwhole

/-! ## The block -/

/-- Where the information is, as the kernel addresses it. -/
def infoAddr (addr : BitVec 32) : Addr :=
  if addr.toNat < 0xC0000000 then addr + 0xC0000000#32 else addr

/-- What is printed about the information address. -/
def addrCalls (addr : BitVec 32) : List (List (BitVec 8) × List Arg) :=
  call "Validating multiboot information at virtual address %x\n" [.word addr] ::
    if addr.toNat < 0xC0000000 then
      [call "Multiboot info pointer appears to be a physical address, converting...\n" [],
        call "Converted to virtual address: %x\n" [.word (infoAddr addr)]]
    else []

/-- Everything printed about a block of the tags `tags`. -/
def blockCalls (addr : BitVec 32) (tags : List Tag) : List (List (BitVec 8) × List Arg) :=
  addrCalls addr ++
    (call "Multiboot info size: %d bytes\n" [.word (BitVec.ofNat 32 (totalSize tags))] ::
      (tags.flatMap Tag.calls ++
        [call "Total multiboot info size: %d bytes\n" [.word (BitVec.ofNat 32 (totalSize tags))],
          call "Multiboot validation complete!\n" []]))

/-- The address before it is cut to 32 bits. -/
def infoBase (addr : BitVec 32) : Nat :=
  if addr.toNat < 0xC0000000 then addr.toNat + 0xC0000000 else addr.toNat

theorem infoAddr_toNat (addr : BitVec 32) (h : infoBase addr < 2 ^ 32) :
    (infoAddr addr).toNat = infoBase addr ∧ 0xC0000000 ≤ (infoAddr addr).toNat := by
  unfold infoAddr infoBase at *
  by_cases hphys : addr.toNat < 0xC0000000
  · simp only [if_pos hphys] at h ⊢
    bv_omega
  · simp only [if_neg hphys]
    exact ⟨trivial, Nat.le_of_not_lt hphys⟩

/-- `validate_boot` up to the total size, whatever is in memory. -/
theorem convertInfo_walked (R : Part → Addr → Nat → Prop) (addr : BitVec 32) (hk : k.Setup) :
    ∃ k₁ k', k.say "Validating multiboot information at virtual address %x\n" [.word addr] = some k₁ ∧
      convertInfo addr k₁ = some (infoAddr addr, k') ∧ Walked R k k' (addrCalls addr) := by
  obtain ⟨k₁, hsay, hsaid⟩ := Console.say_walked (R := R) hk
    "Validating multiboot information at virtual address %x\n" [.word addr] rfl
  unfold convertInfo addrCalls infoAddr
  by_cases hphys : addr.toNat < 0xC0000000
  · simp only [if_pos hphys]
    obtain ⟨k₂, hsay₂, hsaid₂⟩ := Console.say_walked (R := R) hsaid.setup
      "Multiboot info pointer appears to be a physical address, converting...\n" [] rfl
    obtain ⟨k₃, hsay₃, hsaid₃⟩ := Console.say_walked (R := R) hsaid₂.setup
      "Converted to virtual address: %x\n" [.word (addr + 0xC0000000#32)] rfl
    refine ⟨k₁, k₃, hsay, ?_, (hsaid.trans hsaid₂).trans hsaid₃⟩
    rw [hsay₂, Option.bind_eq_bind, Option.bind_some, hsay₃]
    rfl
  · simp only [if_neg hphys]
    exact ⟨k₁, k₁, hsay, rfl, hsaid⟩

theorem walkInfo_walked (hhigh : 0xC0000000 ≤ A.toNat) {reserved : BitVec 32} {tags : List Tag}
    (hfits : A.toNat + totalSize tags ≤ 2 ^ 32) (hk : k.Setup)
    (h : Holds k.mem A (encodeBlock reserved tags)) {fuel : Nat} (hfuel : totalSize tags ≤ fuel) :
    ∃ k', walkInfo fuel A k = some k' ∧
      Walked (fun _ => Inside A (totalSize tags)) k k'
        (call "Multiboot info size: %d bytes\n" [.word (BitVec.ofNat 32 (totalSize tags))] ::
          (tags.flatMap Tag.calls ++
            [call "Total multiboot info size: %d bytes\n" [.word (BitVec.ofNat 32 (totalSize tags))],
              call "Multiboot validation complete!\n" []])) := by
  have htotal : totalSize tags = 16 + tagsLength tags := rfl
  have hread : Walked (fun _ => Inside A (totalSize tags)) k (k.emit (.load .total A 4)) [] := by
    refine Console.emit_load_walked hk .total ?_
    unfold Inside
    omega
  obtain ⟨hsizeAt, hrest⟩ := holds_append.mp h
  have hsize : load32 k.mem A = BitVec.ofNat 32 (totalSize tags) := load32_holds_le32 h
  obtain ⟨k₁, hsay, hsaid⟩ := Console.say_walked hread.setup "Multiboot info size: %d bytes\n"
    [.word (BitVec.ofNat 32 (totalSize tags))] rfl
  have htop := hread.trans hsaid
  -- the tags
  have hfirst : Holds k.mem (A + 8) (tags.flatMap Tag.encode ++ endTag) := by
    have htags := (holds_append.mp hrest).2
    have hplace : A + BitVec.ofNat 32 (le32 (BitVec.ofNat 32 (totalSize tags))).length +
        BitVec.ofNat 32 (le32 reserved).length = A + 8 := by
      show A + 4 + 4 = A + 8
      bv_omega
    rwa [hplace] at htags
  have hstart : (A + 8).toNat = A.toNat + 8 := by bv_omega
  have hlen : (tags.flatMap Tag.encode ++ endTag).length = tagsLength tags + 8 := by
    rw [List.length_append, flatMap_encode_length]
    rfl
  obtain ⟨k₂, hloop, hwalk, hend⟩ := tagLoop_walked hhigh hfits fuel tags fuel (A + 8) k₁
    (fun t ht _ => Nat.lt_of_lt_of_le (entryCount_lt ht) hfuel)
    (Nat.lt_of_lt_of_le (length_lt_totalSize tags) hfuel) htop.setup
    (htop.holds hfirst (by omega) (by omega)) (by omega) (by omega)
  have hall := htop.trans hwalk
  -- behind the end tag
  have hin : Inside A (totalSize tags)
      (A + 8 + BitVec.ofNat 32 (tagsLength tags) + 4) 4 := by
    unfold Inside
    bv_omega
  have hlast := hall.trans (Console.emit_load_walked hall.setup .header hin)
  have htag : A + 8 + BitVec.ofNat 32 (tagsLength tags) + padded 8#32 - A =
      BitVec.ofNat 32 (totalSize tags) := by
    rw [show padded 8#32 = 8#32 from rfl, htotal]
    bv_omega
  obtain ⟨k₃, hsay₃, hsaid₃⟩ := Console.say_walked hlast.setup
    "Total multiboot info size: %d bytes\n" [.word (BitVec.ofNat 32 (totalSize tags))] rfl
  obtain ⟨k₄, hsay₄, hsaid₄⟩ := Console.say_walked hsaid₃.setup "Multiboot validation complete!\n" [] rfl
  refine ⟨k₄, ?_, ?_⟩
  · rw [walkInfo_eq, hsize, hsay, Option.bind_some, hloop, Option.bind_some]
    dsimp only
    rw [hend, htag, hsay₃, Option.bind_some, hsay₄]
  · have hwhole := (hlast.trans hsaid₃).trans hsaid₄
    rw [List.append_nil, List.append_assoc] at hwhole
    exact hwhole

theorem encodeBlock_length (reserved : BitVec 32) (tags : List Tag) :
    (encodeBlock reserved tags).length = totalSize tags := by
  have htotal : totalSize tags = 16 + tagsLength tags := rfl
  unfold encodeBlock
  rw [List.length_append, List.length_append, List.length_append, flatMap_encode_length, htotal]
  show 4 + (4 + (_ + 8)) = _
  omega

/-- A boot on a well-formed block says what its tags ask for. -/
theorem validateBoot_walked {m : Mem} {addr reserved : BitVec 32} {tags : List Tag}
    (haligned : addr &&& 7#32 = 0#32) (hfits : infoBase addr + totalSize tags ≤ 2 ^ 32)
    (hblock : Holds m (infoAddr addr) (encodeBlock reserved tags)) {fuel : Nat}
    (hfuel : totalSize tags ≤ fuel) :
    ∃ k', validateBoot fuel multibootMagic addr (Console.boot m) = some k' ∧
      Walked (fun _ => Inside (infoAddr addr) (totalSize tags)) (Console.boot m) k'
        (blockCalls addr tags) := by
  have htotal : totalSize tags = 16 + tagsLength tags := rfl
  obtain ⟨hbase, hhigh⟩ := infoAddr_toNat addr (by omega)
  obtain ⟨k₁, k₂, hsay, hconvert, hwalk⟩ := convertInfo_walked
    (fun _ => Inside (infoAddr addr) (totalSize tags)) addr (Console.boot_setup m)
  have hlen := encodeBlock_length reserved tags
  have hholds : Holds k₂.mem (infoAddr addr) (encodeBlock reserved tags) :=
    hwalk.holds hblock (by omega) (by omega)
  obtain ⟨k', hrun, hinfo⟩ := walkInfo_walked hhigh (by omega) hwalk.setup hholds hfuel
  refine ⟨k', ?_, hwalk.trans hinfo⟩
  rw [validateBoot_eq haligned hsay hconvert]
  exact hrun

/-- For every well-formed block and the right magic, `validate_boot` returns,
calls `printf` for every tag and every memory-map entry once, in order, with
their fields, and at last with a total equal to `total_size`; and every byte of
the information it reads is inside the block. -/
theorem validateBoot_walks (m : Mem) (addr reserved : BitVec 32) (tags : List Tag)
    (haligned : addr &&& 7#32 = 0#32) (hfits : infoBase addr + totalSize tags ≤ 2 ^ 32)
    (hblock : Holds m (infoAddr addr) (encodeBlock reserved tags)) :
    ∀ fuel, totalSize tags ≤ fuel → ∃ k',
      validateBoot fuel multibootMagic addr (Console.boot m) = some k' ∧
        k'.calls = blockCalls addr tags ∧
        ∀ l ∈ k'.loads, Inside (infoAddr addr) (totalSize tags) l.2.1 l.2.2 := by
  intro fuel hfuel
  obtain ⟨k', hrun, hwalk⟩ := validateBoot_walked haligned hfits hblock hfuel
  obtain ⟨ls, hls, hin⟩ := hwalk.loads
  refine ⟨k', hrun, hwalk.calls, ?_⟩
  intro l hl
  have hboot : (Console.boot m).loads = [] := rfl
  rw [hls, hboot, List.nil_append] at hl
  exact hin l hl

end Walk

/-- A command line and a memory map with one entry. -/
def sampleTags : List Tag :=
  [{ type := 1#32
     body := chars "quiet" ++ [0#8]
     padding := [0#8, 0#8]
     type_ne := by decide
     padding_length := by decide
     sound := ⟨by decide, by decide, by decide, by decide, by decide⟩ },
   { type := 6#32
     body := le32 24#32 ++ le32 0#32 ++ le32 0x100000#32 ++ le32 0#32 ++ le32 0x7ee0000#32 ++
       le32 0#32 ++ le32 1#32 ++ le32 0#32
     padding := []
     type_ne := by decide
     padding_length := by decide
     sound := ⟨by decide, by decide, by decide, by decide, by decide⟩ }]

theorem validateBoot_walks_sample : ∃ k',
    validateBoot 100 multibootMagic 0x10000#32
        (Console.boot (memOf 0xC0010000#32 (encodeBlock 0#32 sampleTags))) = some k' ∧
      k'.calls = blockCalls 0x10000#32 sampleTags ∧
      ∀ l ∈ k'.loads, Inside 0xC0010000#32 (totalSize sampleTags) l.2.1 l.2.2 :=
  validateBoot_walks _ 0x10000#32 0#32 sampleTags (by decide) (by decide)
    (memOf_holds (by decide)) 100 (by decide)

end RedOS
