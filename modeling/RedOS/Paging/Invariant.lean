/-
# `RedOS.Paging.Invariant` — who owns which frame, and what the tables mean

Two invariants of the paging state machine, each about its own half of the
state, and kept by every `Step`:

    Owned     marked frames = reserved ⊎ live pages ⊎ page tables
    Mapped    the directory names one created table per used slot, no table
              twice, and a page translates to what the observer noted

`Mapped` needs from `Owned` only that the frame taken for a new table was not
in use; `Owned` needs nothing from memory.  Slots 0 and 768 hold the boot table,
which is no created table, so `Mapped` says nothing about their pages; slot
1023 is the directory itself and is left out altogether.
-/
import RedOS.Paging.Steps

namespace RedOS

open ByteMemory X86Paging Runs

/-- Below the recursive slot. -/
def Below (v : Addr) : Prop := slot v < 1023

/-- In none of the slots 0, 768 and 1023. -/
def User (v : Addr) : Prop := slot v ≠ 0 ∧ slot v ≠ 768 ∧ slot v ≠ 1023

instance (v : Addr) : Decidable (Below v) := inferInstanceAs (Decidable (_ < _))

instance (v : Addr) : Decidable (User v) := inferInstanceAs (Decidable (_ ∧ _))

theorem User.below {v : Addr} (h : User v) : Below v := by
  have := slot_lt v
  obtain ⟨_, _, h1023⟩ := h
  unfold Below
  omega

theorem Op.At.mono {P Q : Addr → Prop} (h : ∀ v, P v → Q v) : ∀ {op : Op}, op.At P → op.At Q
  | .kmalloc, _ => trivial
  | .kfree _, _ => trivial
  | .map v _ _, hv => h v hv
  | .unmap v, hv => h v hv

/-! ## Frames -/

/-- The frames of the live pages. -/
def livePages (live : Finset Addr) : Finset Nat := live.image frameOf

/-- Every marked frame has exactly one owner. -/
structure Owned (L : Layout) (b : Bitmap) (live : Finset Addr) (tables : Finset Nat) : Prop where
  marked_eq : marked b = reserved L ∪ livePages live ∪ tables
  live_eq : ∀ a ∈ live, a = frameAddr (frameOf a)
  reserved_live : Disjoint (reserved L) (livePages live)
  reserved_tables : Disjoint (reserved L) tables
  live_tables : Disjoint (livePages live) tables

section Owned

variable {L : Layout} {b : Bitmap} {live : Finset Addr} {tables : Finset Nat}

theorem reserved_of_lt_end {f : Nat} (hf : 256 ≤ f) (hend : 4096 * f < L.kernelPhysicalEnd)
    (htot : f < totalFrames) : f ∈ reserved L := by
  rw [mem_reserved]
  refine ⟨htot, Or.inr ⟨?_, hend⟩⟩
  omega

theorem zero_mem_reserved (L : Layout) : 0 ∈ reserved L := by
  rw [mem_reserved]
  exact ⟨by decide, Or.inl (by decide)⟩

theorem directoryFrame_mem_reserved (L : Layout) : L.directoryFrame ∈ reserved L := by
  obtain ⟨hlo, hhi⟩ := L.directoryFrame_bounds
  have hend := L.directoryFrame_lt_end
  refine reserved_of_lt_end hlo ?_ ?_
  · omega
  · unfold totalFrames
    omega

theorem tableFrame_mem_reserved (L : Layout) : L.tableFrame ∈ reserved L := by
  obtain ⟨hlo, hhi⟩ := L.directoryFrame_bounds
  have hend := L.directoryFrame_lt_end
  rw [L.tableFrame_eq]
  refine reserved_of_lt_end ?_ hend ?_
  · omega
  · unfold totalFrames
    omega

theorem Owned.reserved_subset (h : Owned L b live tables) {f : Nat} (hf : f ∈ reserved L) :
    f ∈ marked b := by
  rw [h.marked_eq]
  exact Finset.mem_union_left _ (Finset.mem_union_left _ hf)

theorem Owned.tables_subset (h : Owned L b live tables) {f : Nat} (hf : f ∈ tables) :
    f ∈ marked b := by
  rw [h.marked_eq]
  exact Finset.mem_union_right _ hf

theorem Owned.live_subset (h : Owned L b live tables) {f : Nat} (hf : f ∈ livePages live) :
    f ∈ marked b := by
  rw [h.marked_eq]
  exact Finset.mem_union_left _ (Finset.mem_union_right _ hf)

theorem Owned.lt_of_mem_tables (h : Owned L b live tables) {f : Nat} (hf : f ∈ tables) :
    f < totalFrames := lt_of_mem_marked (h.tables_subset hf)

/-- The addresses of live pages and their frames determine each other. -/
theorem Owned.mem_livePages (h : Owned L b live tables) {f : Nat} (hf : f < 2 ^ 20) :
    f ∈ livePages live ↔ frameAddr f ∈ live := by
  unfold livePages
  rw [Finset.mem_image]
  constructor
  · rintro ⟨a, ha, rfl⟩
    rw [← h.live_eq a ha]
    exact ha
  · intro ha
    exact ⟨frameAddr f, ha, frameOf_frameAddr hf⟩

theorem Owned.card_livePages (h : Owned L b live tables) : (livePages live).card = live.card := by
  refine Finset.card_image_of_injOn ?_
  intro a ha a' ha' heq
  rw [h.live_eq a ha, h.live_eq a' ha', show frameOf a = frameOf a' from heq]

/-- A fresh frame has no owner yet. -/
theorem Owned.fresh_not_mem (h : Owned L b live tables) {k : Nat} (hk : Fresh b k) :
    k ∉ reserved L ∧ k ∉ livePages live ∧ k ∉ tables :=
  ⟨fun hr => hk.unmarked (h.reserved_subset hr), fun hl => hk.unmarked (h.live_subset hl),
    fun ht => hk.unmarked (h.tables_subset ht)⟩

theorem livePages_insert (live : Finset Addr) {k : Nat} (hk : k < 2 ^ 20) :
    livePages (insert (frameAddr k) live) = insert k (livePages live) := by
  unfold livePages
  rw [Finset.image_insert, frameOf_frameAddr hk]

/-- `kmalloc_physical_page` gives the fresh frame to its caller. -/
theorem Owned.kmalloc (h : Owned L b live tables) {k : Nat} (hk : Fresh b k) :
    Owned L (allocFrame b).2 (insert (frameAddr k) live) tables := by
  obtain ⟨hr, hl, ht⟩ := h.fresh_not_mem hk
  have hpages := livePages_insert live hk.lt_addresses
  constructor
  · rw [hk.after, h.marked_eq, hpages, Finset.union_insert, Finset.insert_union]
  · intro a ha
    rcases Finset.mem_insert.mp ha with rfl | ha
    · rw [frameOf_frameAddr hk.lt_addresses]
    · exact h.live_eq a ha
  · rw [hpages, Finset.disjoint_insert_right]
    exact ⟨hr, h.reserved_live⟩
  · exact h.reserved_tables
  · rw [hpages, Finset.disjoint_insert_left]
    exact ⟨ht, h.live_tables⟩

/-- `get_page_table` keeps the fresh frame as a table. -/
theorem Owned.newTable (h : Owned L b live tables) {k : Nat} (hk : Fresh b k) :
    Owned L (allocFrame b).2 live (insert k tables) := by
  obtain ⟨hr, hl, ht⟩ := h.fresh_not_mem hk
  constructor
  · rw [hk.after, h.marked_eq, Finset.union_insert]
  · exact h.live_eq
  · exact h.reserved_live
  · rw [Finset.disjoint_insert_right]
    exact ⟨hr, h.reserved_tables⟩
  · rw [Finset.disjoint_insert_right]
    exact ⟨hl, h.live_tables⟩

theorem Owned.livePages_erase (h : Owned L b live tables) {a : Addr} (ha : a ∈ live) :
    livePages (live.erase a) = (livePages live).erase (frameOf a) := by
  ext f
  unfold livePages
  simp only [Finset.mem_image, Finset.mem_erase]
  constructor
  · rintro ⟨a', ⟨hne, ha'⟩, rfl⟩
    refine ⟨fun heq => hne ?_, a', ha', rfl⟩
    rw [h.live_eq a' ha', h.live_eq a ha, heq]
  · rintro ⟨hne, a', ha', rfl⟩
    exact ⟨a', ⟨fun heq => hne (congrArg frameOf heq), ha'⟩, rfl⟩

/-- Freeing a live page releases its frame and no other. -/
theorem Owned.kfree (h : Owned L b live tables) {a : Addr} (ha : a ∈ live) :
    Owned L (freeFrame b a) (live.erase a) tables := by
  have hmem : frameOf a ∈ livePages live := Finset.mem_image_of_mem _ ha
  have hr : frameOf a ∉ reserved L := fun hr => Finset.disjoint_left.mp h.reserved_live hr hmem
  have ht : frameOf a ∉ tables := Finset.disjoint_left.mp h.live_tables hmem
  have hpages := h.livePages_erase ha
  constructor
  · rw [freeFrame, marked_clearFrame, h.marked_eq, hpages, Finset.erase_union_distrib,
      Finset.erase_union_distrib, Finset.erase_eq_of_notMem hr, Finset.erase_eq_of_notMem ht]
  · exact fun a' ha' => h.live_eq a' (Finset.mem_of_mem_erase ha')
  · rw [hpages]
    exact h.reserved_live.mono_right (Finset.erase_subset _ _)
  · exact h.reserved_tables
  · rw [hpages]
    exact h.live_tables.mono_left (Finset.erase_subset _ _)

/-- The three kinds of frames are counted once each. -/
theorem Owned.card (h : Owned L b live tables) :
    (marked b).card = (reserved L).card + live.card + tables.card := by
  rw [h.marked_eq, Finset.card_union_of_disjoint, Finset.card_union_of_disjoint h.reserved_live,
    h.card_livePages]
  rw [Finset.disjoint_union_left]
  exact ⟨h.reserved_tables, h.live_tables⟩

end Owned

/-! ## Tables -/

/-- What the memory holds for the observer's `mapping`. -/
structure Mapped (L : Layout) (m : Mem) (tables : Finset Nat) (mapping : Nat → Option Addr) :
    Prop where
  /-- Slots 0 and 768 share the boot table. -/
  boot : ∀ i, i = 0 ∨ i = 768 → entry m L.directoryFrame i = bootEntry L.tableFrame
  /-- Every other slot is empty or names a created table. -/
  user : ∀ i, i < 1023 → i ≠ 0 → i ≠ 768 →
    entry m L.directoryFrame i = 0#32 ∨
      ∃ t ∈ tables, entry m L.directoryFrame i = bootEntry t
  /-- No table serves two slots. -/
  once : ∀ i j, i < 1023 → j < 1023 → i ≠ 0 → i ≠ 768 → j ≠ 0 → j ≠ 768 →
    Present (entry m L.directoryFrame i) →
    entry m L.directoryFrame i = entry m L.directoryFrame j → i = j
  /-- Created tables are neither the directory nor the boot table. -/
  apart : ∀ t ∈ tables, t < 2 ^ 20 ∧ t ≠ L.directoryFrame ∧ t ≠ L.tableFrame
  noted : ∀ v, User v → lookup m L.directoryFrame v = (mapping (frameOf v)).map frameOf

section Mapped

variable {L : Layout} {m : Mem} {tables : Finset Nat} {mapping : Nat → Option Addr}

/-- The table of a slot in use was created for it. -/
theorem Mapped.table_mem (h : Mapped L m tables mapping) {v : Addr} (hv : User v)
    (hp : Present (entry m L.directoryFrame (slot v))) :
    tableOf m L.directoryFrame v ∈ tables ∧
      entry m L.directoryFrame (slot v) = bootEntry (tableOf m L.directoryFrame v) := by
  rcases h.user (slot v) hv.below hv.1 hv.2.1 with h0 | ⟨t, ht, he⟩
  · rw [h0] at hp
    exact absurd hp not_present_zero
  · have htab : tableOf m L.directoryFrame v = t := by
      rw [tableOf, he, frameOf_bootEntry (h.apart t ht).1]
    rw [htab]
    exact ⟨ht, he⟩

/-- Before a table is created every user slot is empty. -/
theorem Mapped.absent_of_no_tables (h : Mapped L m ∅ mapping) {v : Addr} (hv : User v) :
    ¬ Present (entry m L.directoryFrame (slot v)) := fun hp =>
  absurd (h.table_mem hv hp).1 (Finset.notMem_empty _)

/-- The boot table serves slots 0 and 768. -/
theorem Mapped.boot_table (h : Mapped L m tables mapping) {v : Addr}
    (hv : slot v = 0 ∨ slot v = 768) : tableOf m L.directoryFrame v = L.tableFrame := by
  rw [tableOf, h.boot _ hv, frameOf_bootEntry (tableFrame_lt L)]

theorem Mapped.table_ne_directory (h : Mapped L m tables mapping) {v : Addr} (hv : Below v)
    (hp : Present (entry m L.directoryFrame (slot v))) :
    tableOf m L.directoryFrame v ≠ L.directoryFrame := by
  by_cases hb : slot v = 0 ∨ slot v = 768
  · rw [h.boot_table hb]
    exact tableFrame_ne_directoryFrame L
  · have huser : User v := ⟨fun h0 => hb (Or.inl h0), fun h0 => hb (Or.inr h0), by
      unfold Below at hv; omega⟩
    exact (h.apart _ (h.table_mem huser hp).1).2.1

/-- Two pages that share a table share the slot. -/
theorem Mapped.slot_of_table (h : Mapped L m tables mapping) {v w : Addr} (hv : User v)
    (hw : User w) (hpv : Present (entry m L.directoryFrame (slot v)))
    (hpw : Present (entry m L.directoryFrame (slot w)))
    (heq : tableOf m L.directoryFrame v = tableOf m L.directoryFrame w) : slot v = slot w := by
  have hev := (h.table_mem hv hpv).2
  have hew := (h.table_mem hw hpw).2
  refine h.once _ _ hv.below hw.below hv.1 hv.2.1 hw.1 hw.2.1 hpv ?_
  rw [hev, hew, heq]

/-- A store into a table changes no directory entry. -/
theorem entry_directory_put {t j i : Nat} (x : BitVec 32) (ht : t < 2 ^ 20) (hj : j < 1024)
    (hi : i < 1024) (htd : t ≠ L.directoryFrame) :
    entry (setEntry m t j x) L.directoryFrame i = entry m L.directoryFrame i := by
  rw [entry_setEntry m x ht hj (directoryFrame_lt L) hi, if_neg]
  exact fun h => htd h.1.symm

/-- Everything but the pages' meaning survives where the directory does. -/
theorem Mapped.of_directory {m' : Mem} {tables' : Finset Nat} {mapping' : Nat → Option Addr}
    (h : Mapped L m tables mapping) (hsub : tables ⊆ tables')
    (hdir : ∀ i, i < 1023 → entry m' L.directoryFrame i = entry m L.directoryFrame i)
    (hapart : ∀ t ∈ tables', t < 2 ^ 20 ∧ t ≠ L.directoryFrame ∧ t ≠ L.tableFrame)
    (hnoted : ∀ v, User v → lookup m' L.directoryFrame v = (mapping' (frameOf v)).map frameOf) :
    Mapped L m' tables' mapping' := by
  refine ⟨?_, ?_, ?_,
    hapart, hnoted⟩
  · intro i hi
    rw [hdir i (by omega), h.boot i hi]
  · intro i hi h0 h768
    rw [hdir i hi]
    exact (h.user i hi h0 h768).imp_right fun ⟨t, ht, he⟩ => ⟨t, hsub ht, he⟩
  · intro i j hi hj h0 h768 h0' h768' hp heq
    rw [hdir i hi] at hp heq
    rw [hdir j hj] at heq
    exact h.once i j hi hj h0 h768 h0' h768' hp heq

/-- Zeroing an unused frame. -/
theorem Mapped.zeroFrame (h : Mapped L m tables mapping) {k : Nat} (hk : k < 2 ^ 20)
    (hkd : k ≠ L.directoryFrame) (hkt : k ∉ tables) :
    Mapped L (zeroFrame m k) tables mapping := by
  refine h.of_directory (Finset.Subset.refl _) (?_) h.apart ?_
  · intro i hi
    rw [entry_zeroFrame m hk (directoryFrame_lt L) (by omega), if_neg (Ne.symm hkd)]
  · intro v hv
    rw [lookup_zeroFrame (directoryFrame_lt L) hk hkd, h.noted v hv]
    intro hp heq
    exact hkt (heq ▸ (h.table_mem hv hp).1)

/-- A store into the table of a user page: the page means what was stored. -/
theorem Mapped.put_user (h : Mapped L m tables mapping) {v : Addr} {x : BitVec 32}
    {o : Option Addr} (hv : User v) (hp : Present (entry m L.directoryFrame (slot v)))
    (hx : (if Present x then some (frameOf x) else none) = o.map frameOf) :
    Mapped L (setEntry m (tableOf m L.directoryFrame v) (index v) x) tables
      (Function.update mapping (frameOf v) o) := by
  have ht := (h.table_mem hv hp).1
  obtain ⟨ht20, htd, -⟩ := h.apart _ ht
  refine h.of_directory (Finset.Subset.refl _) (?_) h.apart ?_
  · intro i hi
    exact entry_directory_put x ht20 (index_lt v) (by omega) htd
  · intro w hw
    by_cases hpage : frameOf w = frameOf v
    · rw [lookup_of_frameOf _ _ hpage, lookup_setEntry x (directoryFrame_lt L) hp htd, hx, hpage,
        Function.update_self]
    · rw [Function.update_of_ne hpage, ← h.noted w hw]
      refine lookup_setEntry_ne x (directoryFrame_lt L) ht20 (index_lt v) htd ?_
      intro hpw heq hidx
      have hslot := h.slot_of_table hw hv hpw hp heq
      exact hpage (by rw [frameOf_eq w, frameOf_eq v, hslot, hidx])

/-- A store into the boot table concerns no user page. -/
theorem Mapped.put_boot (h : Mapped L m tables mapping) {v : Addr} (x : BitVec 32)
    (o : Option Addr) (hv : slot v = 0 ∨ slot v = 768) :
    Mapped L (setEntry m (tableOf m L.directoryFrame v) (index v) x) tables
      (Function.update mapping (frameOf v) o) := by
  have hne := tableFrame_ne_directoryFrame L
  rw [h.boot_table hv]
  refine h.of_directory (Finset.Subset.refl _) (?_) h.apart ?_
  · intro i hi
    exact entry_directory_put x (tableFrame_lt L) (index_lt v) (by omega) hne
  · intro w hw
    have hpage : frameOf w ≠ frameOf v := by
      intro heq
      have := (slot_index_of_frameOf heq).1
      obtain ⟨h0, h768, -⟩ := hw
      omega
    rw [Function.update_of_ne hpage, ← h.noted w hw]
    refine lookup_setEntry_ne x (directoryFrame_lt L) (tableFrame_lt L) (index_lt v) hne
      ?_
    intro hpw heq
    exact absurd heq (h.apart _ (h.table_mem hw hpw).1).2.2

/-- A store into the table of any page below the recursive slot. -/
theorem Mapped.put (h : Mapped L m tables mapping) {v : Addr} {x : BitVec 32}
    {o : Option Addr} (hv : Below v) (hp : Present (entry m L.directoryFrame (slot v)))
    (hx : (if Present x then some (frameOf x) else none) = o.map frameOf) :
    Mapped L (setEntry m (tableOf m L.directoryFrame v) (index v) x) tables
      (Function.update mapping (frameOf v) o) := by
  by_cases hb : slot v = 0 ∨ slot v = 768
  · exact h.put_boot x o hb
  · refine h.put_user ⟨fun h0 => hb (Or.inl h0), fun h0 => hb (Or.inr h0), ?_⟩ hp hx
    unfold Below at hv
    omega

/-- An empty slot is a user slot. -/
theorem Mapped.user_of_absent (h : Mapped L m tables mapping) {v : Addr} (hv : Below v)
    (hp : ¬ Present (entry m L.directoryFrame (slot v))) : User v := by
  have hboot : ¬ (slot v = 0 ∨ slot v = 768) := fun hb =>
    hp (by rw [h.boot _ hb]; exact present_bootEntry _)
  unfold Below at hv
  exact ⟨fun h0 => hboot (Or.inl h0), fun h0 => hboot (Or.inr h0), by omega⟩

/-- The zeroed frame `k` as the table of an empty slot. -/
theorem Mapped.newTable (h : Mapped L m tables mapping) {v : Addr} {k : Nat} (hv : User v)
    (hp : ¬ Present (entry m L.directoryFrame (slot v))) (hk : k < 2 ^ 20)
    (hkd : k ≠ L.directoryFrame) (hkb : k ≠ L.tableFrame) (hkt : k ∉ tables)
    (hzero : ∀ j, j < 1024 → entry m k j = 0#32) :
    Mapped L (setEntry m L.directoryFrame (slot v) (bootEntry k)) (insert k tables) mapping := by
  have hd := directoryFrame_lt L
  have hent : ∀ f i, f < 2 ^ 20 → i < 1024 →
      entry (setEntry m L.directoryFrame (slot v) (bootEntry k)) f i =
        if f = L.directoryFrame ∧ i = slot v then bootEntry k else entry m f i :=
    fun f i hf hi => entry_setEntry m (bootEntry k) hd (slot_lt v) hf hi
  have hself : entry (setEntry m L.directoryFrame (slot v) (bootEntry k)) L.directoryFrame (slot v)
      = bootEntry k := by rw [hent _ _ hd (slot_lt v), if_pos ⟨rfl, rfl⟩]
  have hother : ∀ i, i < 1024 → i ≠ slot v →
      entry (setEntry m L.directoryFrame (slot v) (bootEntry k)) L.directoryFrame i
        = entry m L.directoryFrame i := fun i hi hne => by
    rw [hent _ _ hd hi, if_neg fun h => hne h.2]
  -- no old slot names `k`
  have hnew : ∀ i, i < 1023 → i ≠ 0 → i ≠ 768 → entry m L.directoryFrame i ≠ bootEntry k := by
    intro i hi h0 h768 heq
    rcases h.user i hi h0 h768 with hz | ⟨t, ht, he⟩
    · rw [hz] at heq
      exact not_present_zero (heq ▸ present_bootEntry k)
    · have htk := congrArg frameOf (he.symm.trans heq)
      rw [frameOf_bootEntry (h.apart t ht).1, frameOf_bootEntry hk] at htk
      exact hkt (htk ▸ ht)
  refine ⟨?_, ?_, ?_,
    ?_, ?_⟩
  · intro i hi
    obtain ⟨hv0, hv768, -⟩ := hv
    rw [hother i (by omega) (by omega), h.boot i hi]
  · intro i hi h0 h768
    by_cases hiv : i = slot v
    · subst hiv
      exact Or.inr ⟨k, Finset.mem_insert_self _ _, hself⟩
    · rw [hother i (by omega) hiv]
      exact (h.user i hi h0 h768).imp_right fun ⟨t, ht, he⟩ => ⟨t, Finset.mem_insert_of_mem ht, he⟩
  · intro i j hi hj h0 h768 h0' h768' hpi heq
    by_cases hiv : i = slot v
    · by_cases hjv : j = slot v
      · rw [hiv, hjv]
      · rw [hiv, hself, hother j (by omega) hjv] at heq
        exact absurd heq.symm (hnew j hj h0' h768')
    · rw [hother i (by omega) hiv] at hpi heq
      by_cases hjv : j = slot v
      · rw [hjv, hself] at heq
        exact absurd heq (hnew i hi h0 h768)
      · rw [hother j (by omega) hjv] at heq
        exact h.once i j hi hj h0 h768 h0' h768' hpi heq
  · intro t ht
    rcases Finset.mem_insert.mp ht with rfl | ht
    · exact ⟨hk, hkd, hkb⟩
    · exact h.apart t ht
  · intro w hw
    by_cases hwv : slot w = slot v
    · -- the new table is empty, and so was the slot
      have habs : lookup m L.directoryFrame w = none := lookup_of_absent (by rwa [hwv])
      have htab : tableOf (setEntry m L.directoryFrame (slot v) (bootEntry k)) L.directoryFrame w
          = k := by rw [tableOf, hwv, hself, frameOf_bootEntry hk]
      have hpte : entry (setEntry m L.directoryFrame (slot v) (bootEntry k)) k (index w) = 0#32 := by
        rw [hent _ _ hk (index_lt w), if_neg fun h => hkd h.1, hzero _ (index_lt w)]
      rw [← h.noted w hw, habs, lookup, htab, hpte, if_neg fun h => not_present_zero h.2]
    · rw [← h.noted w hw]
      refine lookup_congr (hother _ (slot_lt w) hwv) ?_
      intro hpw
      obtain ⟨ht20, htd, -⟩ := h.apart _ (h.table_mem hw hpw).1
      rw [hent _ _ ht20 (index_lt w), if_neg fun h => htd h.1]

end Mapped

/-- A stored page entry refers to the physical argument's frame. -/
theorem pageEntry_meaning (p fl : BitVec 32) :
    (if Present (pageEntry p fl) then some (frameOf (pageEntry p fl)) else none)
      = (some p).map frameOf := by
  have hp : Present (pageEntry p fl) := present_or_one _
  rw [if_pos hp, Option.map_some, pageEntry, BitVec.or_assoc]
  exact congrArg some (frameOf_or_flags p _ (flags_and_frameMask fl))

/-! ## The invariant -/

structure Inv (L : Layout) (s : Sys) : Prop where
  dir : s.machine.currentPageDirectory = p2v (frameAddr L.directoryFrame)
  cr3 : s.machine.cr3 = frameAddr L.directoryFrame
  owned : Owned L s.machine.frameBitmap s.live s.tables
  mapped : Mapped L s.machine.mem s.tables s.mapping

section Inv

variable {L : Layout} {s : Sys}

theorem Inv.founded (h : Inv L s) : Founded L.directoryFrame s.machine Below where
  dir := h.dir
  zero := h.owned.reserved_subset (zero_mem_reserved L)
  table := by
    intro v hv hp
    by_cases hb : slot v = 0 ∨ slot v = 768
    · rw [h.mapped.boot_table hb]
      exact lt_of_mem_marked (h.owned.reserved_subset (tableFrame_mem_reserved L))
    · have huser : User v := ⟨fun h0 => hb (Or.inl h0), fun h0 => hb (Or.inr h0), by
        unfold Below at hv; omega⟩
      exact h.owned.lt_of_mem_tables (h.mapped.table_mem huser hp).1

/-- A fresh frame is no frame the tables are made of. -/
theorem Inv.fresh_apart (h : Inv L s) {k : Nat} (hk : Fresh s.machine.frameBitmap k) :
    k ≠ L.directoryFrame ∧ k ≠ L.tableFrame ∧ k ∉ s.tables := by
  obtain ⟨hr, -, ht⟩ := h.owned.fresh_not_mem hk
  refine ⟨?_, ?_, ht⟩
  · rintro rfl
    exact hr (directoryFrame_mem_reserved L)
  · rintro rfl
    exact hr (tableFrame_mem_reserved L)

/-- The tables with a cleared frame in `v`'s slot, before the page is stored. -/
theorem Inv.mapped_newTable (h : Inv L s) {v : Addr} {k : Nat} (hv : Below v)
    (hp : ¬ Present (entry s.machine.mem L.directoryFrame (slot v)))
    (hk : Fresh s.machine.frameBitmap k) :
    Mapped L (setEntry (zeroFrame s.machine.mem k) L.directoryFrame (slot v) (bootEntry k))
        (insert k s.tables) s.mapping ∧
      entry (setEntry (zeroFrame s.machine.mem k) L.directoryFrame (slot v) (bootEntry k))
        L.directoryFrame (slot v) = bootEntry k := by
  obtain ⟨hkd, hkb, hkt⟩ := h.fresh_apart hk
  have hk20 := hk.lt_addresses
  have hd := directoryFrame_lt L
  have hzero : ∀ i, i < 1024 → entry (zeroFrame s.machine.mem k) L.directoryFrame i
      = entry s.machine.mem L.directoryFrame i := fun i hi => by
    rw [entry_zeroFrame _ hk20 hd hi, if_neg (Ne.symm hkd)]
  constructor
  · refine (h.mapped.zeroFrame hk20 hkd hkt).newTable (h.mapped.user_of_absent hv hp) ?_ hk20 hkd hkb
      hkt ?_
    · rwa [hzero _ (slot_lt v)]
    · intro j hj
      rw [entry_zeroFrame _ hk20 hk20 hj, if_pos rfl]
  · rw [entry_setEntry _ _ hd (slot_lt v) hd (slot_lt v), if_pos ⟨rfl, rfl⟩]

/-- **Every step below the recursive slot keeps the invariant.** -/
theorem Inv.step (h : Inv L s) {op : Op} {s' : Sys} (hop : op.At Below)
    (hstep : Step L.directoryFrame s op s') : Inv L s' := by
  obtain ⟨hdir, hcr3, howned, hmapped⟩ := h
  have h : Inv L s := ⟨hdir, hcr3, howned, hmapped⟩
  cases hstep with
  | kmallocFull _ => exact h
  | kmallocFresh hk =>
      obtain ⟨hkd, -, hkt⟩ := h.fresh_apart hk
      refine ⟨hdir, hcr3, ?_, hmapped.zeroFrame hk.lt_addresses hkd hkt⟩
      simpa only [Machine.take_frameBitmap] using howned.kmalloc hk
  | kfreeNull => exact h
  | kfree _ hl => exact ⟨hdir, hcr3, howned.kfree hl, hmapped⟩
  | mapTable hp => exact ⟨hdir, hcr3, howned, hmapped.put hop hp (pageEntry_meaning _ _)⟩
  | mapFull _ _ => exact h
  | @mapFresh v p fl k hp hk =>
      obtain ⟨htable, hself⟩ := h.mapped_newTable hop hp hk
      have hput := htable.put_user (x := pageEntry p fl) (o := some p)
        (hmapped.user_of_absent hop hp) (by rw [hself]; exact present_bootEntry k)
        (pageEntry_meaning p fl)
      rw [tableOf, hself, frameOf_bootEntry hk.lt_addresses] at hput
      refine ⟨hdir, hcr3, ?_, hput⟩
      simpa only [Machine.put_frameBitmap, Machine.take_frameBitmap] using howned.newTable hk
  | unmapTable hp => exact ⟨hdir, hcr3, howned, hmapped.put hop hp rfl⟩
  | @unmapAbsent v hp =>
      refine ⟨hdir, hcr3, howned, hmapped.of_directory (Finset.Subset.refl _) (fun _ _ => rfl)
        hmapped.apart ?_⟩
      intro w hw
      by_cases hpage : frameOf w = frameOf v
      · have hslot := (slot_index_of_frameOf hpage).1
        rw [lookup_of_absent (by rwa [hslot]), hpage]
        simp only [Function.update_self, Option.map_none]
      · rw [hmapped.noted w hw]
        simp only [Function.update_of_ne hpage]

/-! ## The start -/

/-- What `init_paging` leaves. -/
def initMachine (L : Layout) (m : Mem) : Machine where
  mem := setEntry m L.directoryFrame 1023 (bootEntry L.directoryFrame)
  cr3 := frameAddr L.directoryFrame
  frameBitmap := initFrames L
  kernelPageDirectory := p2v (frameAddr L.directoryFrame)
  currentPageDirectory := p2v (frameAddr L.directoryFrame)

/-- `init_paging` needs to reach the directory, nothing else. -/
theorem initPaging_eq {tr : Translation} {m : Mem}
    (hr : Reaches tr m (frameAddr L.directoryFrame) L.directoryFrame) :
    initPaging tr L (bootMachine L m) = .ok () (initMachine L m) := by
  have hentry : v2p (p2v (frameAddr L.directoryFrame)) ||| pagePresent ||| pageWrite
      = bootEntry L.directoryFrame := by
    rw [v2p_p2v, tableEntry_eq (directoryFrame_lt L)]
  have hw := writeWord_entry (s := {
      mem := m
      cr3 := frameAddr L.directoryFrame
      frameBitmap := initFrames L
      kernelPageDirectory := p2v (frameAddr L.directoryFrame)
      currentPageDirectory := p2v (frameAddr L.directoryFrame) })
    (bootEntry L.directoryFrame) hr (j := 1023) (by decide)
  unfold initPaging bootMachine
  rw [frameAddr_directory, modify_bind, get_bind, modify_bind]
  dsimp only
  rw [hentry, bind_ok hw, initMachine, Machine.put]
  rfl

theorem start_eq {tr : Translation} {m : Mem}
    (hr : Reaches tr m (frameAddr L.directoryFrame) L.directoryFrame) :
    start tr L m = ⟨initMachine L m, ∅, ∅, fun _ => none, none⟩ := by
  rw [start, initPaging_eq hr]

theorem mapped_init {m : Mem} (hm : BootTables L m) :
    Mapped L (initMachine L m).mem ∅ fun _ => none := by
  have hd := directoryFrame_lt L
  have hent : ∀ i, i < 1023 → entry (initMachine L m).mem L.directoryFrame i
      = if i = 0 ∨ i = 768 then bootEntry L.tableFrame else 0#32 := by
    intro i hi
    rw [initMachine, entry_setEntry _ _ hd (by decide) hd (by omega), if_neg (by omega),
      hm.directory i (by omega)]
  have huser : ∀ i, i < 1023 → i ≠ 0 → i ≠ 768 →
      entry (initMachine L m).mem L.directoryFrame i = 0#32 := by
    intro i hi h0 h768
    rw [hent i hi, if_neg (by omega)]
  refine ⟨?_, fun i hi h0 h768 => Or.inl (huser i hi h0 h768),
    ?_, fun t ht => absurd ht (Finset.notMem_empty t),
    ?_⟩
  · intro i hi
    rw [hent i (by omega), if_pos hi]
  · intro i j hi _ h0 h768 _ _ hp
    rw [huser i hi h0 h768] at hp
    exact absurd hp not_present_zero
  · intro v hv
    rw [lookup_of_absent, Option.map_none]
    rw [huser _ hv.below hv.1 hv.2.1]
    exact not_present_zero

theorem owned_init (L : Layout) : Owned L (initFrames L) ∅ ∅ where
  marked_eq := by
    rw [marked_initFrames, livePages, Finset.image_empty, Finset.union_empty, Finset.union_empty]
  live_eq := fun a ha => absurd ha (Finset.notMem_empty a)
  reserved_live := Finset.disjoint_empty_right _
  reserved_tables := Finset.disjoint_empty_right _
  live_tables := Finset.disjoint_empty_right _

/-- **The invariant holds after `init_paging`.** -/
theorem inv_start {tr : Translation} {m : Mem} (hm : BootTables L m)
    (hr : Reaches tr m (frameAddr L.directoryFrame) L.directoryFrame) : Inv L (start tr L m) := by
  rw [start_eq hr]
  exact ⟨rfl, rfl, owned_init L, mapped_init hm⟩

end Inv

end RedOS
