/-
# `RedOS.Multiboot.Regions` — what a printed memory map tells

`printf` knows no `%0`: it prints the format of a region line as it is from the
first `%08x` on.  So the line of an entry has the high half of `addr` in it and
nothing else of the entry, and of two maps of the same length the lines tell
exactly whether these halves are the same (`regionText_eq_iff`).

    mapTag_entries       every list of entries is a memory map
    printf_region        the line printed for an entry
    region_lines         the lines determine the map of no entries, and no other
-/
import RedOS.Console.Render
import RedOS.Multiboot.Block

namespace RedOS

open ByteMemory Numeral

/-! ## Maps -/

/-- An entry of 24 bytes; the last word is reserved. -/
def MmapEntry.encode (e : MmapEntry) : List (BitVec 8) :=
  le64 e.addr ++ (le64 e.len ++ (le32 e.type ++ le32 0#32))

/-- `entry_size`, `entry_version` and the entries. -/
def mapBody (es : List MmapEntry) : List (BitVec 8) :=
  le32 24#32 ++ (le32 0#32 ++ es.flatMap MmapEntry.encode)

theorem flatMap_encode_entries (es : List MmapEntry) :
    (es.flatMap MmapEntry.encode).length = 24 * es.length := by
  induction es with
  | nil => rfl
  | cons e es ih =>
      rw [List.flatMap_cons, List.length_append, ih, List.length_cons]
      show 24 + 24 * es.length = _
      omega

theorem mapBody_length (es : List MmapEntry) : (mapBody es).length = 8 + 24 * es.length := by
  unfold mapBody
  rw [List.length_append, List.length_append, flatMap_encode_entries]
  show 4 + (4 + 24 * es.length) = _
  omega

theorem mapBody_entrySize (es : List MmapEntry) : get32 (mapBody es) 0 = 24#32 := get32_le32 _ _

theorem mapBody_padding (es : List MmapEntry) :
    ([] : List (BitVec 8)).length = (8 - (mapBody es).length % 8) % 8 := by
  rw [mapBody_length, List.length_nil]
  omega

theorem mapBody_sound (es : List MmapEntry) : SoundBody 6#32 (mapBody es) where
  string h := by rcases h with h | h <;> exact absurd h (by decide)
  module h := absurd h (by decide)
  meminfo h := absurd h (by decide)
  bootdev h := absurd h (by decide)
  mmap _ := by
    rw [mapBody_entrySize, mapBody_length, Nat.add_sub_cancel_left]
    exact ⟨Nat.le_add_right _ _, Nat.le_refl 24, Nat.dvd_mul_right 24 _⟩

theorem mmapType_ne : 6#32 ≠ 0#32 := by decide

/-- The memory map of any entries. -/
def mapTag (es : List MmapEntry) : Tag where
  type := 6#32
  body := mapBody es
  padding := []
  type_ne := mmapType_ne
  padding_length := mapBody_padding es
  sound := mapBody_sound es

/-- An entry reads back from where it is. -/
theorem decode_encode (e : MmapEntry) (before after : List (BitVec 8)) :
    MmapEntry.decode (before ++ (e.encode ++ after)) before.length = e := by
  have haddr : get64 (before ++ (e.encode ++ after)) before.length = e.addr := by
    have h := get64_append before (e.encode ++ after) 0
    rw [Nat.add_zero] at h
    rw [h, MmapEntry.encode, List.append_assoc, get64_le64]
  have hlen : get64 (before ++ (e.encode ++ after)) (before.length + 8) = e.len := by
    rw [get64_append, MmapEntry.encode, List.append_assoc]
    have h := get64_append (le64 e.addr) (le64 e.len ++ (le32 e.type ++ le32 0#32) ++ after) 0
    rw [List.append_assoc, get64_le64] at h
    rw [List.append_assoc]
    exact h
  have htype : get32 (before ++ (e.encode ++ after)) (before.length + 16) = e.type := by
    have hsplit : e.encode ++ after =
        le64 e.addr ++ le64 e.len ++ (le32 e.type ++ (le32 0#32 ++ after)) := by
      unfold MmapEntry.encode
      simp only [List.append_assoc]
    rw [get32_append, hsplit]
    exact (get32_append _ _ 0).trans (get32_le32 _ _)
  unfold MmapEntry.decode
  rw [haddr, hlen, htype]

theorem mapTag_entrySize (es : List MmapEntry) : (mapTag es).entrySize = 24 := by
  show (get32 (mapBody es) 0).toNat = 24
  rw [mapBody_entrySize]
  rfl

theorem mapTag_entryCount (es : List MmapEntry) : (mapTag es).entryCount = es.length := by
  unfold Tag.entryCount
  rw [mapTag_entrySize]
  show ((mapBody es).length - 8) / 24 = _
  rw [mapBody_length, Nat.add_sub_cancel_left]
  exact Nat.mul_div_cancel_left _ (by decide)

/-- Every list of entries is a memory map. -/
theorem mapTag_entries (es : List MmapEntry) : (mapTag es).entries = es := by
  unfold Tag.entries
  rw [mapTag_entryCount]
  apply List.ext_getElem
  · rw [List.length_map, List.length_range]
  intro j hj hj'
  rw [List.getElem_map, List.getElem_range]
  unfold Tag.entry
  rw [mapTag_entrySize]
  -- the entries before, this one and those behind it
  have hsplit : mapBody es = le32 24#32 ++ (le32 0#32 ++ (es.take j).flatMap MmapEntry.encode) ++
      (es[j].encode ++ (es.drop (j + 1)).flatMap MmapEntry.encode) := by
    unfold mapBody
    conv_lhs => rw [← List.take_append_drop j es, List.drop_eq_getElem_cons hj', List.flatMap_append,
      List.flatMap_cons]
    simp only [List.append_assoc]
  have hlen : (le32 24#32 ++ (le32 0#32 ++ (es.take j).flatMap MmapEntry.encode)).length =
      8 + j * 24 := by
    have h := mapBody_length (es.take j)
    rw [List.length_take, Nat.min_eq_left (Nat.le_of_lt hj')] at h
    rw [Nat.mul_comm]
    exact h
  show MmapEntry.decode (mapBody es) (8 + j * 24) = es[j]
  rw [hsplit, ← hlen]
  exact decode_encode _ _ _

/-! ## Lines -/

/-- `(unsigned)(mmap->addr >> 32)` -/
def MmapEntry.high (e : MmapEntry) : BitVec 32 := (e.addr >>> 32).setWidth 32

/-- What a region line is before the `%08x`. -/
def regionHead (e : MmapEntry) : List (BitVec 8) :=
  chars "  Region: base=0x" ++ numeral upperDigit 16 e.high.toNat

/-- And from there on. -/
def regionTail : List (BitVec 8) := chars "08x, length=%x%08x, type=%d\n"

/-- The region line of an entry. -/
def regionLine (e : MmapEntry) : List (BitVec 8) := regionHead e ++ 37#8 :: regionTail

theorem regionLine_renders (e : MmapEntry) :
    renderWith printed (cString (chars regionFormat)) (regionArgs e.addr e.len e.type) =
      some (regionLine e) := by
  have hformat : cString (chars regionFormat) =
      chars "  Region: base=" ++ 37#8 :: 120#8 :: 37#8 :: 48#8 :: regionTail.tail := by decide +kernel
  have htail : regionTail = 48#8 :: regionTail.tail := by decide +kernel
  have hhead : chars "  Region: base=0x" = chars "  Region: base=" ++ chars "0x" := by decide +kernel
  have hordinary : ∀ c ∈ chars "  Region: base=", c ≠ 37#8 := by decide +kernel
  -- `%0` is no directive
  have hrest : ∀ args, renderWith reference (37#8 :: 48#8 :: regionTail.tail) args =
      some (37#8 :: 48#8 :: regionTail.tail) := renderWith_unknown (by decide) rfl _
  apply renderWith_printed
  rw [hformat, renderWith_run hordinary, Option.map_eq_some_iff]
  refine ⟨_, (renderWith_directive (by decide) rfl _ _ _ _).mpr ⟨_, _, rfl, hrest _, rfl⟩, ?_⟩
  rw [← htail, regionLine, regionHead, hhead, List.append_assoc, List.append_assoc, List.append_assoc]
  rfl

theorem numeral_plain (n : Nat) {c : BitVec 8} (hc : c = 37#8 ∨ c = 10#8) :
    c ∉ numeral upperDigit 16 n := by
  have hdigit : ∀ d : Nat, d < 16 → upperDigit d ≠ 37#8 ∧ upperDigit d ≠ 10#8 := by decide
  intro hmem
  obtain ⟨d, hd, rfl⟩ := of_mem_numeral (by decide) hmem
  rcases hc with h | h
  · exact (hdigit d hd).1 h
  · exact (hdigit d hd).2 h

theorem regionHead_plain (e : MmapEntry) {c : BitVec 8} (hc : c = 37#8 ∨ c = 10#8) :
    c ∉ regionHead e := by
  have hplain : 37#8 ∉ chars "  Region: base=0x" ∧ 10#8 ∉ chars "  Region: base=0x" := by
    decide +kernel
  intro hmem
  rcases List.mem_append.mp hmem with h | h
  · rcases hc with rfl | rfl
    · exact hplain.1 h
    · exact hplain.2 h
  · exact numeral_plain _ hc h

theorem regionLine_length (e : MmapEntry) : (regionLine e).length ≤ intMax := by
  have hhead : (chars "  Region: base=0x").length = 17 := by decide +kernel
  have htail : regionTail.length = 28 := by decide +kernel
  have hnumeral := @numeral_length_le 16 _ _ upperDigit (by decide) 8 (by decide) e.high.isLt
  unfold regionLine regionHead intMax
  rw [List.length_append, List.length_append, List.length_cons, hhead, htail]
  omega

/-- What `printf` prints for an entry, on any console. -/
theorem printf_region (e : MmapEntry) (k : Console) :
    k.printf (chars regionFormat) (regionArgs e.addr e.len e.type) =
      some (((regionLine e).length : Int),
        ((k.emit (.printf (cString (chars regionFormat)) (regionArgs e.addr e.len e.type))).print
          (regionLine e)).emit .ret) :=
  printf_text (regionLine_renders e) (regionLine_length e) k

/-- One line, which ends with it. -/
theorem regionLine_ends (e : MmapEntry) :
    ∃ line, regionLine e = line ++ [10#8] ∧ 10#8 ∉ line := by
  have htail : regionTail = regionTail.dropLast ++ [10#8] ∧ 10#8 ∉ 37#8 :: regionTail.dropLast := by
    decide +kernel
  refine ⟨regionHead e ++ 37#8 :: regionTail.dropLast, ?_, ?_⟩
  · conv_lhs => rw [regionLine, htail.1]
    rw [List.append_assoc, List.cons_append]
  · intro hmem
    rcases List.mem_append.mp hmem with h | h
    · exact regionHead_plain e (Or.inr rfl) h
    · exact htail.2 h

/-- Of a line its entry's high half of `addr` can be read, and where it ends. -/
theorem regionLine_append_inj {e e' : MmapEntry} {rest rest' : List (BitVec 8)} :
    regionLine e ++ rest = regionLine e' ++ rest' ↔ e.high = e'.high ∧ rest = rest' := by
  have hvalue : ∀ d : Nat, d < 16 →
      ((List.range 16).find? fun d' => upperDigit d' = upperDigit d) = some d := by decide
  constructor
  · intro h
    rw [regionLine, regionLine, List.append_assoc, List.append_assoc, List.cons_append,
      List.cons_append] at h
    obtain ⟨hhead, htail⟩ := eq_of_append_cons (regionHead_plain e (Or.inl rfl))
      (regionHead_plain e' (Or.inl rfl)) h
    have hnumeral := List.append_cancel_left hhead
    have hnat : e.high.toNat = e'.high.toNat :=
      @numeral_injective 16 _ upperDigit (fun b => (List.range 16).find? fun d => upperDigit d = b)
        (by decide) hvalue _ _ hnumeral
    exact ⟨BitVec.eq_of_toNat_eq hnat, List.append_cancel_left htail⟩
  · rintro ⟨hhigh, rfl⟩
    rw [regionLine, regionLine, regionHead, regionHead, hhigh]

theorem regionText_ne_nil (e : MmapEntry) (es : List MmapEntry) : (e :: es).flatMap regionLine ≠ [] := by
  obtain ⟨line, hline, -⟩ := regionLine_ends e
  rw [List.flatMap_cons, hline]
  simp

/-- Two lists of entries print the same lines exactly if their high halves are
the same. -/
theorem regionText_eq_iff : ∀ {es es' : List MmapEntry}, es.flatMap regionLine = es'.flatMap regionLine ↔
    es.map MmapEntry.high = es'.map MmapEntry.high
  | [], [] => iff_of_true rfl rfl
  | [], e :: es => iff_of_false (regionText_ne_nil e es).symm (List.cons_ne_nil _ _).symm
  | e :: es, [] => iff_of_false (regionText_ne_nil e es) (List.cons_ne_nil _ _)
  | e :: es, e' :: es' => by
      rw [List.flatMap_cons, List.flatMap_cons, regionLine_append_inj, regionText_eq_iff, List.map_cons,
        List.map_cons, List.cons.injEq]

/-! ## What the lines are to tell -/

/-- Every entry makes one line, its fields can be read back from the line, and no
other map of as many entries prints the same text. -/
structure RegionsFaithful (t : Tag) : Prop where
  line : ∀ e ∈ t.entries, ∃ line, regionLine e = line ++ [10#8] ∧ 10#8 ∉ line
  readable : ∃ read : List (BitVec 8) → MmapEntry, ∀ t' : Tag, t'.type = 6#32 →
    t'.entryCount = t.entryCount → ∀ e ∈ t'.entries, read (regionLine e) = e
  apart : ∀ t' : Tag, t'.type = 6#32 → t'.entryCount = t.entryCount →
    t'.entries.flatMap regionLine = t.entries.flatMap regionLine → t'.entries = t.entries

theorem Tag.entries_length (t : Tag) : t.entries.length = t.entryCount := by
  unfold Tag.entries
  rw [List.length_map, List.length_range]

theorem Tag.entries_eq_nil {t : Tag} (h : t.entryCount = 0) : t.entries = [] :=
  List.eq_nil_of_length_eq_zero (t.entries_length.trans h)

theorem regionsFaithful_iff (t : Tag) : RegionsFaithful t ↔ t.entries = [] := by
  constructor
  · intro h
    cases hes : t.entries with
    | nil => rfl
    | cons e es =>
        -- the same map with another type in its first entry
        let e' : MmapEntry := { e with type := e.type + 1#32 }
        have hcount : (mapTag (e' :: es)).entryCount = t.entryCount := by
          rw [mapTag_entryCount, ← t.entries_length, hes, List.length_cons, List.length_cons]
        have htext : (mapTag (e' :: es)).entries.flatMap regionLine = t.entries.flatMap regionLine := by
          rw [mapTag_entries, hes, regionText_eq_iff]
          rfl
        have hsame := h.apart _ rfl hcount htext
        rw [mapTag_entries, hes] at hsame
        have htype : e.type + 1#32 = e.type := congrArg MmapEntry.type (List.cons.inj hsame).1
        exact absurd htype (by bv_omega)
  · intro hnil
    have hcount : t.entryCount = 0 := by
      rw [← t.entries_length, hnil]
      rfl
    have hnone : ∀ t' : Tag, t'.entryCount = t.entryCount → t'.entries = [] :=
      fun t' h => Tag.entries_eq_nil (h.trans hcount)
    refine ⟨fun e _ => regionLine_ends e, ⟨fun _ => ⟨0#64, 0#64, 0#32⟩, ?_⟩,
      fun t' _ h _ => (hnone t' h).trans hnil.symm⟩
    intro t' _ h e he
    rw [hnone t' h] at he
    exact absurd he List.not_mem_nil

theorem bodyCalls_mmap {t : Tag} (htype : t.type = 6#32) :
    t.bodyCalls = call "Memory map:\n" [] :: t.entries.map MmapEntry.call := by
  unfold Tag.bodyCalls
  rw [htype]
  rfl

/-- **The printed memory map.**  For every memory-map tag of a well-formed block
`validate_boot` calls `printf` once for every entry, which prints the entry's
region line; and these lines determine the entries only where there are none. -/
theorem region_lines (m : Mem) (addr reserved : BitVec 32) (tags : List Tag)
    (haligned : addr &&& 7#32 = 0#32) (hfits : infoBase addr + totalSize tags ≤ 2 ^ 32)
    (hblock : Holds m (infoAddr addr) (encodeBlock reserved tags)) :
    (∀ fuel, totalSize tags ≤ fuel → ∃ k',
      validateBoot fuel multibootMagic addr (Console.boot m) = some k' ∧
        k'.calls = blockCalls addr tags) ∧
    (∀ (e : MmapEntry) (k : Console), k.printf (chars regionFormat) (regionArgs e.addr e.len e.type) =
      some (((regionLine e).length : Int),
        ((k.emit (.printf (cString (chars regionFormat)) (regionArgs e.addr e.len e.type))).print
          (regionLine e)).emit .ret)) ∧
    ∀ t ∈ tags, t.type = 6#32 →
      t.bodyCalls = call "Memory map:\n" [] :: t.entries.map MmapEntry.call ∧
        (RegionsFaithful t ↔ t.entries = []) := by
  refine ⟨?_, printf_region, ?_⟩
  · intro fuel hfuel
    obtain ⟨k', hrun, hwalk⟩ := validateBoot_walked haligned hfits hblock hfuel
    exact ⟨k', hrun, hwalk.calls⟩
  · intro t _ htype
    exact ⟨bodyCalls_mmap htype, regionsFaithful_iff t⟩

theorem region_lines_small :
    let tags := [mapTag [⟨0#64, 0x9FC00#64, 1#32⟩, ⟨0x100000#64, 0x7EE0000#64, 1#32⟩]]
    (∃ k', validateBoot 80 multibootMagic 0x10000#32
        (Console.boot (memOf 0xC0010000#32 (encodeBlock 0#32 tags))) = some k' ∧
      k'.calls = blockCalls 0x10000#32 tags) ∧
      ∀ t ∈ tags, RegionsFaithful t ↔ t.entries = [] := by
  intro tags
  have htags : totalSize tags = 80 := by decide
  have hholds : Holds (memOf 0xC0010000#32 (encodeBlock 0#32 tags)) 0xC0010000#32
      (encodeBlock 0#32 tags) := memOf_holds (by rw [encodeBlock_length, htags]; decide)
  obtain ⟨hrun, -, hmap⟩ := region_lines _ 0x10000#32 0#32 tags (by decide) (by rw [htags]; decide) hholds
  refine ⟨hrun 80 (Nat.le_of_eq htags), fun t ht => (hmap t ht ?_).2⟩
  rw [List.mem_singleton.mp ht]
  rfl

/-- Two maps of one entry that share no field and print one text. -/
theorem regions_look_alike :
    let e : MmapEntry := ⟨0#64, 0x9FC00#64, 1#32⟩
    let e' : MmapEntry := ⟨0x100000#64, 0x7EE0000#64, 2#32⟩
    (mapTag [e]).entries = [e] ∧ (mapTag [e']).entries = [e'] ∧ e ≠ e' ∧
      (∀ entry ∈ [e, e'], ∀ k : Console,
        k.printf (chars regionFormat) (regionArgs entry.addr entry.len entry.type) =
          some (47, ((k.emit (.printf (chars regionFormat)
            (regionArgs entry.addr entry.len entry.type))).print
              (chars "  Region: base=0x0%08x, length=%x%08x, type=%d\n")).emit .ret)) ∧
      ¬ RegionsFaithful (mapTag [e]) := by
  intro e e'
  refine ⟨mapTag_entries _, mapTag_entries _, ?_, ?_, ?_⟩
  · intro h
    exact absurd (congrArg MmapEntry.type h) (by decide)
  · intro entry hentry k
    have hformat : cString (chars regionFormat) = chars regionFormat := by decide +kernel
    have hline : ∀ entry ∈ [e, e'], regionLine entry =
        chars "  Region: base=0x0%08x, length=%x%08x, type=%d\n" := by
      intro entry hentry
      have hhigh : entry.high = 0#32 := by
        rcases List.mem_pair.mp hentry with rfl | rfl <;> decide
      rw [regionLine, regionHead, hhigh]
      decide +kernel
    have hlen : (chars "  Region: base=0x0%08x, length=%x%08x, type=%d\n").length = 47 := by
      decide +kernel
    have hprintf := printf_region entry k
    rw [hformat, hline entry hentry, hlen] at hprintf
    exact hprintf
  · intro h
    have hnil := (regionsFaithful_iff _).mp h
    rw [mapTag_entries] at hnil
    exact absurd hnil (List.cons_ne_nil _ _)

end RedOS
