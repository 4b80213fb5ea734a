/-
# `RedOS.Paging.Spaces` — several page directories over one frame allocator

`switch_page_directory` makes another directory current; the operations of
`paging.c` then work on that one, but all of them take their frames from the
same bitmap.  `Separate D` says what keeps the directories in `D` out of each
other's way: their frames and their page tables are marked, no table is used
twice or is a directory or a live page.  With direct accesses an operation on
one directory of `D` keeps `Separate D`, and every other directory translates as
before (`Separate.step`).

The one operation that breaks it is `kfree_physical_page` on a directory's own
frame: the frame is handed out again, as a table of the directory that is
current (`freed_directory_reused`).

A state with several directories is made by whoever fills them in, so nothing
is known of it but `Separate`; frame 0 may even be unmarked, and `alloc_frame`
then returns `NULL` once although frames are left (`Step.orNull`).
-/
import RedOS.Paging.Reach

namespace RedOS

open ByteMemory X86Paging Runs

/-- `switch_page_directory` -/
def switchPageDirectory (dir : Addr) : Kernel Unit :=
  modify fun s => { s with currentPageDirectory := dir, cr3 := v2p dir }

/-- The machine after a switch to the directory in frame `d`. -/
def Machine.switched (s : Machine) (d : Nat) : Machine :=
  { s with currentPageDirectory := p2v (frameAddr d), cr3 := frameAddr d }

theorem switchPageDirectory_frame (s : Machine) (d : Nat) :
    switchPageDirectory (p2v (frameAddr d)) s = .ok () (s.switched d) := by
  unfold switchPageDirectory Machine.switched
  rw [v2p_p2v]
  rfl

/-- `switch_page_directory` and then `get_physical_address`. -/
def addressUnder (d : Nat) (v : Addr) : Kernel Addr := do
  switchPageDirectory (p2v (frameAddr d))
  getPhysicalAddress direct v

/-- A directory slot other than 0, 768 and 1023. -/
def UserSlot (i : Nat) : Prop := i < 1024 ∧ i ≠ 0 ∧ i ≠ 768 ∧ i ≠ 1023

/-- `t` is a page table of the directory in frame `d`. -/
def UserTable (m : Mem) (d t : Nat) : Prop :=
  ∃ i, UserSlot i ∧ Present (entry m d i) ∧ frameOf (entry m d i) = t

theorem User.userSlot {v : Addr} (h : User v) : UserSlot (slot v) := ⟨slot_lt v, h⟩

theorem User.userTable {m : Mem} {d : Nat} {v : Addr} (h : User v)
    (hp : Present (entry m d (slot v))) : UserTable m d (tableOf m d v) :=
  ⟨slot v, h.userSlot, hp, rfl⟩

/-- The directories in the frames `D` share no frame they depend on. -/
structure Separate (D : Finset Nat) (m : Mem) (b : Bitmap) (live : Finset Addr) : Prop where
  dirs : ∀ d ∈ D, d ∈ marked b
  tables : ∀ d ∈ D, ∀ t, UserTable m d t → t ∈ marked b ∧ t ∉ D ∧ t ∉ livePages live
  disjoint : ∀ d ∈ D, ∀ e ∈ D, d ≠ e → ∀ t, UserTable m d t → ¬ UserTable m e t
  /-- `kmalloc_physical_page` returned the live pages, and nobody freed them. -/
  pages : ∀ a ∈ live, a = frameAddr (frameOf a) ∧ frameOf a ∈ marked b

/-- No frame of `D` is freed. -/
def Op.Spares (D : Finset Nat) : Op → Prop
  | .kfree a => frameOf a ∉ D
  | _ => True

instance (D : Finset Nat) : ∀ op : Op, Decidable (op.Spares D)
  | .kmalloc => isTrue trivial
  | .kfree a => inferInstanceAs (Decidable (frameOf a ∉ D))
  | .map _ _ _ => isTrue trivial
  | .unmap _ => isTrue trivial

theorem lt_addresses_of_marked {b : Bitmap} {f : Nat} (h : f ∈ marked b) : f < 2 ^ 20 := by
  have := lt_of_mem_marked h
  unfold totalFrames at this
  omega

section Separate

variable {D : Finset Nat} {m m' : Mem} {b b' : Bitmap} {live : Finset Addr} {d : Nat} {v : Addr}

theorem userTable_congr (h : ∀ i, i < 1024 → entry m' d i = entry m d i) {t : Nat} :
    UserTable m' d t ↔ UserTable m d t := by
  constructor
  · rintro ⟨i, hi, hp, ht⟩
    rw [h i hi.1] at hp ht
    exact ⟨i, hi, hp, ht⟩
  · rintro ⟨i, hi, hp, ht⟩
    rw [← h i hi.1] at hp ht
    exact ⟨i, hi, hp, ht⟩

/-- Memories that agree on the directories, and no frame freed. -/
theorem Separate.of_agree (h : Separate D m b live)
    (hdir : ∀ d ∈ D, ∀ i, i < 1024 → entry m' d i = entry m d i) (hb : marked b ⊆ marked b') :
    Separate D m' b' live := by
  refine ⟨fun d hd => hb (h.dirs d hd), ?_, ?_,
    fun a ha => (h.pages a ha).imp_right fun hmem => hb hmem⟩
  · intro d hd t ht
    obtain ⟨hmem, hrest⟩ := h.tables d hd t ((userTable_congr (hdir d hd)).mp ht)
    exact ⟨hb hmem, hrest⟩
  · intro d hd e he hne t ht ht'
    exact h.disjoint d hd e he hne t ((userTable_congr (hdir d hd)).mp ht)
      ((userTable_congr (hdir e he)).mp ht')

theorem Separate.of_bitmap (h : Separate D m b live) (hb : marked b ⊆ marked b') :
    Separate D m b' live := h.of_agree (fun _ _ _ _ => rfl) hb

/-! ### An unmarked frame is nobody's -/

theorem Separate.entry_zeroFrame (h : Separate D m b live) {k : Nat} (hk : k < 2 ^ 20)
    (hfree : k ∉ marked b) {e : Nat} (he : e ∈ D) {i : Nat} (hi : i < 1024) :
    entry (zeroFrame m k) e i = entry m e i := by
  have hmem := h.dirs e he
  rw [X86Paging.entry_zeroFrame m hk (lt_addresses_of_marked hmem) hi, if_neg]
  exact fun heq => hfree (heq ▸ hmem)

theorem Separate.zeroFrame (h : Separate D m b live) {k : Nat} (hk : k < 2 ^ 20)
    (hfree : k ∉ marked b) (hb : marked b ⊆ marked b') : Separate D (zeroFrame m k) b' live :=
  h.of_agree (fun _ he _ hi => h.entry_zeroFrame hk hfree he hi) hb

theorem Separate.lookup_zeroFrame (h : Separate D m b live) {k : Nat} (hk : k < 2 ^ 20)
    (hfree : k ∉ marked b) {e : Nat} (he : e ∈ D) (hv : User v) :
    lookup (X86Paging.zeroFrame m k) e v = lookup m e v := by
  have hmem := h.dirs e he
  refine X86Paging.lookup_zeroFrame (lt_addresses_of_marked hmem) hk ?_ ?_
  · exact fun heq => hfree (heq ▸ hmem)
  · intro hp heq
    exact hfree (heq ▸ (h.tables e he _ (hv.userTable hp)).1)

/-! ### A store into a table of `d` -/

theorem Separate.put (h : Separate D m b live) (hd : d ∈ D) {t j : Nat} (x : BitVec 32)
    (ht : UserTable m d t) (hj : j < 1024) : Separate D (setEntry m t j x) b live := by
  obtain ⟨hmem, hD, -⟩ := h.tables d hd t ht
  refine h.of_agree (?_) (Finset.Subset.refl _)
  intro e he i hi
  rw [entry_setEntry m x (lt_addresses_of_marked hmem) hj (lt_addresses_of_marked (h.dirs e he)) hi,
    if_neg]
  exact fun heq => hD (heq.1 ▸ he)

theorem Separate.lookup_put (h : Separate D m b live) (hd : d ∈ D) {t j : Nat} (x : BitVec 32)
    (ht : UserTable m d t) (hj : j < 1024) {e : Nat} (he : e ∈ D) (hne : e ≠ d) (hv : User v) :
    lookup (setEntry m t j x) e v = lookup m e v := by
  obtain ⟨hmem, hD, -⟩ := h.tables d hd t ht
  refine lookup_setEntry_ne x (lt_addresses_of_marked (h.dirs e he)) (lt_addresses_of_marked hmem) hj
    (fun heq => hD (heq ▸ he)) ?_
  intro hp heq
  exact absurd (heq ▸ hv.userTable hp) (h.disjoint d hd e he (Ne.symm hne) t ht)

/-! ### A store into a slot of `d` -/

/-- The directory `d` with `k` in an empty slot has one more table. -/
theorem userTable_newTable (hd : d < 2 ^ 20) {k : Nat} (hk : k < 2 ^ 20) {t : Nat}
    (ht : UserTable (setEntry m d (slot v) (bootEntry k)) d t) : t = k ∨ UserTable m d t := by
  obtain ⟨i, hi, hp, heq⟩ := ht
  rw [entry_setEntry m _ hd (slot_lt v) hd hi.1] at hp heq
  split at hp
  next hslot =>
    rw [if_pos hslot, frameOf_bootEntry hk] at heq
    exact Or.inl heq.symm
  next hslot =>
    rw [if_neg hslot] at heq
    exact Or.inr ⟨i, hi, hp, heq⟩

theorem userTable_self (hd : d < 2 ^ 20) {k : Nat} (hk : k < 2 ^ 20) (hv : User v) :
    UserTable (setEntry m d (slot v) (bootEntry k)) d k := by
  refine ⟨slot v, hv.userSlot, ?_, ?_⟩
  · rw [entry_setEntry m _ hd (slot_lt v) hd (slot_lt v), if_pos ⟨rfl, rfl⟩]
    exact present_bootEntry k
  · rw [entry_setEntry m _ hd (slot_lt v) hd (slot_lt v), if_pos ⟨rfl, rfl⟩]
    exact frameOf_bootEntry hk

/-- ... and the others have the tables they had. -/
theorem Separate.entry_other (h : Separate D m b live) (hd : d ∈ D) (x : BitVec 32) {e : Nat}
    (he : e ∈ D) (hne : e ≠ d) {i : Nat} (hi : i < 1024) :
    entry (setEntry m d (slot v) x) e i = entry m e i := by
  rw [entry_setEntry m x (lt_addresses_of_marked (h.dirs d hd)) (slot_lt v)
    (lt_addresses_of_marked (h.dirs e he)) hi, if_neg fun heq => hne heq.1]

theorem Separate.newTable (h : Separate D m b live) (hd : d ∈ D) {k : Nat} (hk : k ∈ marked b)
    (hkD : k ∉ D) (hkl : k ∉ livePages live) (hkt : ∀ e ∈ D, ¬ UserTable m e k) :
    Separate D (setEntry m d (slot v) (bootEntry k)) b live := by
  have hk20 := lt_addresses_of_marked hk
  have hd20 := lt_addresses_of_marked (h.dirs d hd)
  have hold : ∀ e ∈ D, ∀ t, UserTable (setEntry m d (slot v) (bootEntry k)) e t →
      (e = d ∧ t = k) ∨ UserTable m e t := by
    intro e he t ht
    by_cases hne : e = d
    · subst hne
      exact (userTable_newTable hd20 hk20 ht).imp_left fun heq => ⟨rfl, heq⟩
    · exact Or.inr ((userTable_congr fun i hi => h.entry_other hd _ he hne hi).mp ht)
  refine ⟨h.dirs, ?_, ?_, h.pages⟩
  · intro e he t ht
    rcases hold e he t ht with ⟨-, htk⟩ | hold
    · rw [htk]
      exact ⟨hk, hkD, hkl⟩
    · exact h.tables e he t hold
  · intro e he e' he' hne t ht ht'
    rcases hold e he t ht with ⟨hed, htk⟩ | ht
    · rcases hold e' he' t ht' with ⟨hed', -⟩ | ht'
      · exact hne (hed.trans hed'.symm)
      · exact hkt e' he' (htk ▸ ht')
    · rcases hold e' he' t ht' with ⟨-, htk⟩ | ht'
      · exact hkt e he (htk ▸ ht)
      · exact h.disjoint e he e' he' hne t ht ht'

theorem Separate.lookup_slot (h : Separate D m b live) (hd : d ∈ D) (x : BitVec 32) {e : Nat}
    (he : e ∈ D) (hne : e ≠ d) {w : Addr} (hv : User v) :
    lookup (setEntry m d (slot w) x) e v = lookup m e v := by
  refine lookup_congr (h.entry_other hd x he hne (slot_lt v)) ?_
  intro hp
  obtain ⟨-, hD, -⟩ := h.tables e he _ (hv.userTable hp)
  rw [entry_setEntry m x (lt_addresses_of_marked (h.dirs d hd)) (slot_lt w) (tableOf_lt _ _ _)
    (index_lt v), if_neg]
  exact fun heq => hD (heq.1 ▸ hd)

/-! ### Pages -/

theorem Separate.fresh_not_mem (h : Separate D m b live) {k : Nat} (hk : k ∉ marked b) :
    k ∉ D ∧ k ∉ livePages live ∧ ∀ e ∈ D, ¬ UserTable m e k := by
  refine ⟨fun hD => hk (h.dirs k hD), ?_, fun e he ht => hk (h.tables e he k ht).1⟩
  intro hl
  obtain ⟨a, ha, heq⟩ := Finset.mem_image.mp hl
  exact hk (heq ▸ (h.pages a ha).2)

/-- A page handed out belongs to no directory. -/
theorem Separate.kmalloc (h : Separate D m b live) {k : Nat} (hk : Fresh b k) :
    Separate D (X86Paging.zeroFrame m k) (allocFrame b).2 (insert (frameAddr k) live) := by
  have hk20 := hk.lt_addresses
  have hsub : marked b ⊆ marked (allocFrame b).2 := by
    rw [hk.after]
    exact Finset.subset_insert k _
  have hzero := h.zeroFrame hk20 hk.unmarked hsub
  refine ⟨hzero.dirs, ?_, hzero.disjoint, ?_⟩
  · intro e he t ht
    have hold := h.tables e he t
      ((userTable_congr fun i hi => h.entry_zeroFrame hk20 hk.unmarked he hi).mp ht)
    refine ⟨hsub hold.1, hold.2.1, ?_⟩
    rw [livePages_insert live hk20, Finset.mem_insert, not_or]
    exact ⟨fun heq => hk.unmarked (heq ▸ hold.1), hold.2.2⟩
  · intro a ha
    rcases Finset.mem_insert.mp ha with rfl | ha
    · rw [frameOf_frameAddr hk20, hk.after]
      exact ⟨rfl, Finset.mem_insert_self k _⟩
    · exact hzero.pages a ha

/-- A page freed was nobody else's. -/
theorem Separate.kfree (h : Separate D m b live) {a : Addr} (ha : a ∈ live)
    (hspare : frameOf a ∉ D) :
    Separate D m (freeFrame b a) (live.erase a) := by
  have hmarked : ∀ f, f ∈ marked b → f ≠ frameOf a → f ∈ marked (freeFrame b a) := by
    intro f hf hne
    rw [freeFrame, marked_clearFrame]
    exact Finset.mem_erase_of_ne_of_mem hne hf
  have hpage : frameOf a ∈ livePages live := Finset.mem_image_of_mem _ ha
  refine ⟨?_, ?_, h.disjoint, ?_⟩
  · intro e he
    exact hmarked e (h.dirs e he) fun heq => hspare (heq ▸ he)
  · intro e he t ht
    obtain ⟨hmem, hD, hl⟩ := h.tables e he t ht
    refine ⟨hmarked t hmem fun heq => hl (heq ▸ hpage), hD, fun hlt => hl ?_⟩
    exact Finset.image_subset_image (Finset.erase_subset a live) hlt
  · intro c hc
    obtain ⟨hne, hc⟩ := Finset.mem_erase.mp hc
    obtain ⟨haddr, hmem⟩ := h.pages c hc
    refine ⟨haddr, hmarked _ hmem fun heq => hne ?_⟩
    rw [haddr, (h.pages a ha).1, heq]

end Separate

/-! ## Frame 0 -/

/-- Unmarked, frame 0 is the first one handed out, and its address is `NULL`. -/
theorem allocFrame_null {b : Bitmap} (h0 : 0 ∉ marked b) :
    (allocFrame b).1 = 0#32 ∧ marked (allocFrame b).2 = insert 0 (marked b) := by
  rcases allocFrame_eq b with ⟨k, -, -, hmin, haddr, hafter⟩ | ⟨hall, -⟩
  · have hk : k = 0 := by
      rcases Nat.eq_zero_or_pos k with hk | hpos
      · exact hk
      · exact absurd (hmin 0 hpos) h0
    subst hk
    exact ⟨haddr, hafter⟩
  · exact absurd (hall 0 (by decide)) h0

section Null

variable {d : Nat} {s : Machine} {v : Addr} {b : Bitmap}

theorem kmallocPhysicalPage_null (halloc : allocFrameM s = .ok 0#32 { s with frameBitmap := b }) :
    kmallocPhysicalPage direct s = .ok 0#32 { s with frameBitmap := b } := by
  unfold kmallocPhysicalPage
  rw [bind_ok halloc, if_pos rfl]
  rfl

theorem getPageTable_null (hdir : s.currentPageDirectory = p2v (frameAddr d))
    (hp : ¬ Present (entry s.mem d (slot v)))
    (halloc : allocFrameM s = .ok 0#32 { s with frameBitmap := b }) :
    getPageTable direct v true s = .ok 0#32 { s with frameBitmap := b } := by
  have hread : readWord direct (s.currentPageDirectory + 4#32 * (v >>> 22)) s
      = .ok (entry s.mem d (slot v)) s := by
    rw [hdir, shift_slot]
    exact readWord_entry (reaches_direct _ _ _) (slot_lt v)
  unfold getPageTable
  rw [get_bind, bind_ok hread, if_neg hp, if_pos rfl, bind_ok halloc, if_pos rfl]
  rfl

theorem mapPageToFrame_null (p fl : BitVec 32)
    (hdir : s.currentPageDirectory = p2v (frameAddr d))
    (hp : ¬ Present (entry s.mem d (slot v)))
    (halloc : allocFrameM s = .ok 0#32 { s with frameBitmap := b }) :
    mapPageToFrame direct v p fl s = .ok () { s with frameBitmap := b } := by
  unfold mapPageToFrame
  rw [bind_ok (getPageTable_null hdir hp halloc), if_pos rfl]
  rfl

end Null

/-- A call takes its step, or it is the one that marks frame 0 and gets nothing. -/
theorem exec_orNull {d : Nat} {s s' : Sys} {op : Op}
    (hdir : s.machine.currentPageDirectory = p2v (frameAddr d))
    (htable : ∀ v, User v → Present (entry s.machine.mem d (slot v)) →
      tableOf s.machine.mem d v < totalFrames)
    (hop : op.At User) (hfault : s.fault = none) (hexec : exec direct s op = some s') :
    Step d s op s' ∨ ∃ b, marked b = insert 0 (marked s.machine.frameBitmap) ∧
      s' = { s with machine := { s.machine with frameBitmap := b } } := by
  by_cases h0 : 0 ∈ marked s.machine.frameBitmap
  · exact Or.inl (step_of_exec_direct ⟨hdir, h0, htable⟩ hop hfault hexec)
  · obtain ⟨b, halloc, hb⟩ : ∃ b,
        allocFrameM s.machine = .ok 0#32 { s.machine with frameBitmap := b } ∧
          marked b = insert 0 (marked s.machine.frameBitmap) := by
      obtain ⟨hnull, hafter⟩ := allocFrame_null h0
      refine ⟨_, ?_, hafter⟩
      rw [allocFrameM, hnull]
    cases op with
    | kmalloc =>
        refine Or.inr ⟨b, hb, ?_⟩
        rw [exec_ok hfault (show s.Allows .kmalloc from trivial) (kmallocPhysicalPage_null halloc)]
          at hexec
        simp only [Sys.record, if_pos] at hexec
        exact (Option.some.inj hexec).symm
    | kfree a =>
        obtain ⟨t, hstep, ht⟩ := exec_kfree (d := d) hfault (allows_of_exec hfault hexec)
        exact Or.inl (Option.some.inj ((ht direct).symm.trans hexec) ▸ hstep)
    | map v p fl =>
        by_cases hp : Present (entry s.machine.mem d (slot v))
        · obtain ⟨t, hstep, ht⟩ := exec_mapTable (p := p) hdir hfault hp (htable v hop hp)
          have hopens := opens_direct d s.machine (.map v p fl)
          exact Or.inl (Option.some.inj ((ht direct hopens).symm.trans hexec) ▸ hstep)
        · refine Or.inr ⟨b, hb, ?_⟩
          have hret : Op.perform direct (.map v p fl) s.machine
              = .ok 0#32 { s.machine with frameBitmap := b } :=
            bind_ok (mapPageToFrame_null p fl hdir hp halloc)
          have hgot := tableGot_of_ok (getPageTable_null hdir hp halloc)
          have hnew : createdTable direct v s.machine = ∅ := by
            rw [createdTable, hgot, if_neg fun h => h.2 rfl]
          rw [exec_ok hfault (show s.Allows (.map v p fl) from trivial) hret] at hexec
          simp only [Sys.record, hnew, hgot, if_pos, Finset.union_empty] at hexec
          exact (Option.some.inj hexec).symm
    | unmap v =>
        obtain ⟨t, hstep, ht⟩ := exec_unmap hdir hfault (htable v hop)
        have hopens := opens_direct d s.machine (.unmap v)
        exact Or.inl (Option.some.inj ((ht direct hopens).symm.trans hexec) ▸ hstep)

/-! ## One call -/

/-- The directories of `D` and the live pages are apart in the state `s`. -/
def Sys.Separate (D : Finset Nat) (s : Sys) : Prop :=
  RedOS.Separate D s.machine.mem s.machine.frameBitmap s.live

section Step

variable {D : Finset Nat} {d : Nat} {s s' : Sys} {op : Op}

theorem Sys.Separate.table_lt (h : s.Separate D) (hd : d ∈ D) {v : Addr} (hv : User v)
    (hp : Present (entry s.machine.mem d (slot v))) : tableOf s.machine.mem d v < totalFrames :=
  lt_of_mem_marked (h.tables d hd _ (hv.userTable hp)).1

/-- **A step on one directory** keeps the directories apart and the others as
they are. -/
theorem Sys.Separate.step (h : s.Separate D) (hd : d ∈ D) (hop : op.At User) (hspare : op.Spares D)
    (hstep : Step d s op s') :
    s'.Separate D ∧ ∀ e ∈ D, e ≠ d → ∀ v, User v →
      lookup s'.machine.mem e v = lookup s.machine.mem e v := by
  have hput : ∀ {v : Addr} (x : BitVec 32), User v → Present (entry s.machine.mem d (slot v)) →
      RedOS.Separate D (setEntry s.machine.mem (tableOf s.machine.mem d v) (index v) x)
          s.machine.frameBitmap s.live ∧
        ∀ e ∈ D, e ≠ d → ∀ w, User w →
          lookup (setEntry s.machine.mem (tableOf s.machine.mem d v) (index v) x) e w
            = lookup s.machine.mem e w := fun x hv hp =>
    ⟨h.put hd x (hv.userTable hp) (index_lt _), fun e he hne w hw =>
      h.lookup_put hd x (hv.userTable hp) (index_lt _) he hne hw⟩
  cases hstep with
  | kmallocFull _ => exact ⟨h, fun _ _ _ _ _ => rfl⟩
  | kmallocFresh hk =>
      simp only [Sys.Separate, Machine.take_mem, Machine.take_frameBitmap]
      exact ⟨h.kmalloc hk, fun e he _ v hv => h.lookup_zeroFrame hk.lt_addresses hk.unmarked he hv⟩
  | kfreeNull => exact ⟨h, fun _ _ _ _ _ => rfl⟩
  | kfree _ hl => exact ⟨h.kfree hl hspare, fun _ _ _ _ _ => rfl⟩
  | mapTable hp => exact hput _ hop hp
  | mapFull _ _ => exact ⟨h, fun _ _ _ _ _ => rfl⟩
  | @mapFresh v p fl k hp hk =>
      obtain ⟨hkD, hkl, hkt⟩ := h.fresh_not_mem hk.unmarked
      have hk20 := hk.lt_addresses
      have hafter := hk.after
      simp only [Sys.Separate, Machine.put_mem, Machine.put_frameBitmap, Machine.take_mem,
        Machine.take_frameBitmap]
      generalize (allocFrame s.machine.frameBitmap).2 = b' at hafter ⊢
      have hkm : k ∈ marked b' := by
        rw [hafter]
        exact Finset.mem_insert_self k _
      have hsub : marked s.machine.frameBitmap ⊆ marked b' := by
        rw [hafter]
        exact Finset.subset_insert k _
      have hzero := Separate.zeroFrame h hk20 hk.unmarked hsub
      have hdir := hzero.newTable (v := v) hd hkm hkD hkl fun e he ht => hkt e he
        ((userTable_congr fun i hi => h.entry_zeroFrame hk20 hk.unmarked he hi).mp ht)
      have htable : UserTable (setEntry (zeroFrame s.machine.mem k) d (slot v) (bootEntry k)) d k :=
        userTable_self (lt_addresses_of_marked (h.dirs d hd)) hk20 hop
      refine ⟨hdir.put hd (pageEntry p fl) htable (index_lt v), ?_⟩
      intro e he hne w hw
      calc lookup (setEntry (setEntry (zeroFrame s.machine.mem k) d (slot v) (bootEntry k)) k
            (index v) (pageEntry p fl)) e w
          = lookup (setEntry (zeroFrame s.machine.mem k) d (slot v) (bootEntry k)) e w :=
            hdir.lookup_put hd (pageEntry p fl) htable (index_lt v) he hne hw
        _ = lookup (zeroFrame s.machine.mem k) e w := hzero.lookup_slot hd (bootEntry k) he hne hw
        _ = lookup s.machine.mem e w := h.lookup_zeroFrame hk20 hk.unmarked he hw
  | unmapTable hp => exact hput _ hop hp
  | unmapAbsent _ => exact ⟨h, fun _ _ _ _ _ => rfl⟩

/-- Marking frame 0 concerns nobody. -/
theorem Sys.Separate.mark (h : s.Separate D) {b : Bitmap} {f : Nat}
    (hb : marked b = insert f (marked s.machine.frameBitmap)) :
    Sys.Separate D { s with machine := { s.machine with frameBitmap := b } } :=
  h.of_bitmap (by
    rw [hb]
    exact Finset.subset_insert f _)

/-- The directory in frame `d` is one of `D` and current, and nothing has faulted. -/
structure Current (D : Finset Nat) (d : Nat) (s : Sys) : Prop where
  mem : d ∈ D
  current : s.machine.currentPageDirectory = p2v (frameAddr d)
  fault : s.fault = none
  separate : s.Separate D

/-- **One call** under the directory `d`. -/
theorem Current.exec (h : Current D d s) (hop : op.At User) (hspare : op.Spares D)
    (hexec : exec direct s op = some s') :
    Current D d s' ∧ ∀ e ∈ D, e ≠ d → ∀ v, User v →
      lookup s'.machine.mem e v = lookup s.machine.mem e v := by
  have htable : ∀ v, User v → Present (entry s.machine.mem d (slot v)) →
      tableOf s.machine.mem d v < totalFrames := fun v hv hp => h.separate.table_lt h.mem hv hp
  rcases exec_orNull h.current htable hop h.fault hexec with hstep | ⟨b, hb, heq⟩
  · obtain ⟨hsep, hkept⟩ := h.separate.step h.mem hop hspare hstep
    obtain ⟨hfault, hcurrent⟩ := hstep.books
    exact ⟨⟨h.mem, hcurrent.trans h.current, hfault.trans h.fault, hsep⟩, hkept⟩
  · rw [heq]
    exact ⟨⟨h.mem, h.current, h.fault, h.separate.mark hb⟩, fun _ _ _ _ _ => rfl⟩

/-- Any directory of `D` may be made current. -/
theorem Current.switch (h : Current D d s) {e : Nat} (he : e ∈ D) :
    Current D e { s with machine := s.machine.switched e } := ⟨he, rfl, h.fault, h.separate⟩

/-- What `get_physical_address` answers under the directory in frame `e`. -/
theorem addressUnder_lookup {m : Machine} {e : Nat} {v : Addr}
    (ht : Present (entry m.mem e (slot v)) → tableOf m.mem e v < totalFrames) :
    addressUnder e v m = .ok
      (((lookup m.mem e v).map fun f => frameAddr f + (v &&& offsetMask)).getD 0#32)
      (m.switched e) := by
  have hget := getPhysicalAddress_lookup (s := m.switched e) (d := e) (v := v) rfl ht
  unfold addressUnder
  rw [bind_ok (switchPageDirectory_frame m e), hget]
  rfl

theorem Current.addressUnder (h : Current D d s) {e : Nat} (he : e ∈ D) {v : Addr} (hv : User v) :
    addressUnder e v s.machine = .ok
      (((lookup s.machine.mem e v).map fun f => frameAddr f + (v &&& offsetMask)).getD 0#32)
      (s.machine.switched e) :=
  addressUnder_lookup fun hp => h.separate.table_lt he hv hp

end Step

section Alternation

variable {D : Finset Nat} {d e : Nat} {s s' : Sys}

/-- **Address spaces do not interfere.**  After any calls made under `d`, a
switch to another directory finds the translations it had before, and the
directories are as far apart as they were. -/
theorem address_spaces_apart {ops : List Op} (h : Current D d s) (he : e ∈ D) (hne : e ≠ d)
    (hops : ∀ op ∈ ops, op.At User ∧ op.Spares D) (hrun : run (exec direct) s ops = some s') :
    (∀ v, User v → ∃ a, addressUnder e v s.machine = .ok a (s.machine.switched e) ∧
      addressUnder e v s'.machine = .ok a (s'.machine.switched e)) ∧
    Current D d s' ∧ Current D e { s' with machine := s'.machine.switched e } := by
  have hkeep : Current D d s' ∧ ∀ v, User v →
      lookup s'.machine.mem e v = lookup s.machine.mem e v := by
    refine run_invariant (I := fun t => Current D d t ∧ ∀ v, User v →
        lookup t.machine.mem e v = lookup s.machine.mem e v)
      (P := fun _ op => op.At User ∧ op.Spares D) (?_)
      ⟨h, fun _ _ => rfl⟩ (along_of_mem _ hops) hrun
    intro t op t' ht hop hexec
    obtain ⟨ht', hkept⟩ := ht.1.exec hop.1 hop.2 hexec
    exact ⟨ht', fun v hv => (hkept e he hne v hv).trans (ht.2 v hv)⟩
  obtain ⟨h', hlookup⟩ := hkeep
  refine ⟨fun v hv => ⟨_, h.addressUnder he hv, ?_⟩, h', h'.switch he⟩
  rw [h'.addressUnder he hv, hlookup v hv]

/-- A call under the current directory, or a switch. -/
inductive SpaceOp where
  | call (op : Op)
  | switch (d : Nat)

def execSpace (s : Sys) : SpaceOp → Option Sys
  | .call op => exec direct s op
  | .switch d =>
      match switchPageDirectory (p2v (frameAddr d)) s.machine with
      | .ok _ m => some { s with machine := m }
      | .error e m => some { s with machine := m, fault := some e.addr }

/-- Calls as above, but none under the directory `e`, and switches within `D`. -/
def SpaceOp.Leaves (D : Finset Nat) (e : Nat) (s : Sys) : SpaceOp → Prop
  | .call op => op.At User ∧ op.Spares D ∧
      s.machine.currentPageDirectory ≠ p2v (frameAddr e)
  | .switch d => d ∈ D

/-- **Switches and calls may alternate**: a directory translates as it did when
the last call was made under it. -/
theorem address_spaces_alternate {acts : List SpaceOp} (h : Current D d s) (he : e ∈ D)
    (hacts : Along execSpace (SpaceOp.Leaves D e) s acts)
    (hrun : run execSpace s acts = some s') :
    (∃ d', Current D d' s') ∧
      ∀ v, User v → lookup s'.machine.mem e v = lookup s.machine.mem e v := by
  refine run_invariant (I := fun t => (∃ d', Current D d' t) ∧ ∀ v, User v →
      lookup t.machine.mem e v = lookup s.machine.mem e v)
    (?_) ⟨⟨d, h⟩, fun _ _ => rfl⟩ hacts hrun
  intro t act t' ht hact hexec
  obtain ⟨⟨d', hd'⟩, hsame⟩ := ht
  cases act with
  | call op =>
      obtain ⟨hop, hspare, hother⟩ := hact
      obtain ⟨ht', hkept⟩ := hd'.exec hop hspare hexec
      have hne : e ≠ d' := fun heq => hother (heq ▸ hd'.current)
      exact ⟨⟨d', ht'⟩, fun v hv => (hkept e he hne v hv).trans (hsame v hv)⟩
  | switch d'' =>
      rw [execSpace, switchPageDirectory_frame] at hexec
      exact Option.some.inj hexec ▸ ⟨⟨d'', hd'.switch hact⟩, hsame⟩

/-! ### A directory that is a live page -/

/-- A directory without tables. -/
theorem no_userTable {m : Mem} (h : ∀ i, UserSlot i → entry m d i = 0#32) (t : Nat) :
    ¬ UserTable m d t := by
  rintro ⟨i, hi, hp, -⟩
  rw [h i hi] at hp
  exact not_present_zero hp

/-- Two empty directories, the second in a live page. -/
theorem separate_pair {m : Mem} {b : Bitmap} {k : Nat} (hk : k < 2 ^ 20) (hd : d ∈ marked b)
    (hkm : k ∈ marked b) (hdm : ∀ i, UserSlot i → entry m d i = 0#32)
    (hkz : ∀ i, UserSlot i → entry m k i = 0#32) : Separate {d, k} m b {frameAddr k} := by
  have hnone : ∀ e ∈ ({d, k} : Finset Nat), ∀ t, ¬ UserTable m e t := by
    intro e he
    rcases Finset.mem_insert.mp he with rfl | he
    · exact no_userTable hdm
    · rw [Finset.mem_singleton.mp he]
      exact no_userTable hkz
  refine ⟨?_, fun e he t ht => absurd ht (hnone e he t),
    fun e he _ _ _ t ht => absurd ht (hnone e he t), ?_⟩
  · intro e he
    rcases Finset.mem_insert.mp he with rfl | he
    · exact hd
    · exact Finset.mem_singleton.mp he ▸ hkm
  · intro a ha
    rw [Finset.mem_singleton.mp ha, frameOf_frameAddr hk]
    exact ⟨rfl, hkm⟩

/-- One page of a small kernel, frame 267, taken as a second directory. -/
theorem two_directories :
    ∃ s, exec direct (start direct Layout.small smallMem) .kmalloc = some s ∧ Inv Layout.small s ∧
      Current {Layout.small.directoryFrame, 267} Layout.small.directoryFrame s ∧
      frameAddr 267 ∈ s.live ∧ s.tables = ∅ ∧ (∀ f, f ∈ marked s.machine.frameBitmap ↔ f < 268) ∧
      ∀ i, i < 1024 → entry s.machine.mem 267 i = 0#32 := by
  obtain ⟨hinv, hfault⟩ := start_direct bootTables_small
  have hstart := start_eq (reaches_direct smallMem (frameAddr Layout.small.directoryFrame)
    Layout.small.directoryFrame)
  have hallow : (start direct Layout.small smallMem).Allows .kmalloc := trivial
  obtain ⟨s, hs⟩ := exec_some direct hallow
  have hop : Op.kmalloc.At Below := trivial
  obtain ⟨hinv', hfault'⟩ := hinv.exec_direct hfault hop hs
  have hstep := step_of_exec_direct hinv.founded hop hfault hs
  refine ⟨s, hs, hinv', ?_⟩
  generalize start direct Layout.small smallMem = s₀ at hstart hstep
  have hmarked : ∀ f, f ∈ marked s₀.machine.frameBitmap ↔ f < 267 := by
    rw [hstart]
    exact marked_small
  have hlive : s₀.live = ∅ := by rw [hstart]
  have htables : s₀.tables = ∅ := by rw [hstart]
  cases hstep with
  | kmallocFull hfull =>
      have := (hmarked 267).mp (hfull.all 267 (by decide))
      omega
  | @kmallocFresh k hk =>
      obtain rfl := hk.leastFree.eq (leastFree_of_below (by decide) hmarked)
      have hzero : ∀ i, i < 1024 → entry (zeroFrame s₀.machine.mem 267) 267 i = 0#32 := by
        intro i hi
        rw [entry_zeroFrame _ (by decide) (by decide) hi, if_pos rfl]
      have hempty : ∀ i, UserSlot i →
          entry (zeroFrame s₀.machine.mem 267) Layout.small.directoryFrame i = 0#32 := by
        intro i hi
        have hmapped := hinv'.mapped
        simp only [Machine.take_mem, htables] at hmapped
        obtain ⟨hlt, h0, h768, h1023⟩ := hi
        rcases hmapped.user i (by omega) h0 h768 with hz | ⟨t, ht, -⟩
        · exact hz
        · exact absurd ht (Finset.notMem_empty t)
      have hmarked' : ∀ f, f ∈ marked (allocFrame s₀.machine.frameBitmap).2 ↔ f < 268 := by
        intro f
        rw [hk.after, Finset.mem_insert, hmarked]
        omega
      refine ⟨⟨Finset.mem_insert_self _ _, hinv'.dir, hfault', ?_⟩, Finset.mem_insert_self _ _,
        htables, ?_, hzero⟩
      · simp only [Sys.Separate, Machine.take_mem, Machine.take_frameBitmap, hlive]
        refine separate_pair (by decide) ((hmarked' _).mpr (by decide)) ((hmarked' _).mpr (by decide))
          hempty fun i hi => hzero i hi.1
      · simp only [Machine.take_frameBitmap]
        exact hmarked'

/-- Mapping a page under the first directory leaves what the second answers. -/
theorem address_spaces_apart_small :
    ∃ s s', exec direct (start direct Layout.small smallMem) .kmalloc = some s ∧
      run (exec direct) s [.map 0x00401000#32 0x10B000#32 3#32] = some s' ∧
      ∃ a, addressUnder 267 0x00401000#32 s.machine = .ok a (s.machine.switched 267) ∧
        addressUnder 267 0x00401000#32 s'.machine = .ok a (s'.machine.switched 267) := by
  obtain ⟨s, hs, -, hcur, -⟩ := two_directories
  obtain ⟨s', hs'⟩ := run_exec_some direct [.map 0x00401000#32 0x10B000#32 3#32] s
    (by simp [Sys.Allows])
  have hmem : 267 ∈ ({Layout.small.directoryFrame, 267} : Finset Nat) :=
    Finset.mem_insert_of_mem (Finset.mem_singleton_self _)
  exact ⟨s, s', hs, hs', (address_spaces_apart hcur hmem (by decide) (by decide) hs').1
    0x00401000#32 (by decide)⟩

/-- Freed while the first directory is current, the second one's frame becomes a
page table of the first, and the page mapped through it is an entry of the second. -/
theorem freed_directory_reused :
    ∃ s s', exec direct (start direct Layout.small smallMem) .kmalloc = some s ∧
      Current {Layout.small.directoryFrame, 267} Layout.small.directoryFrame s ∧
      run (exec direct) s [.kfree 0x10B000#32, .map 0x00401000#32 0x10B000#32 3#32] = some s' ∧
      addressUnder 267 0x00401000#32 s.machine = .ok 0#32 (s.machine.switched 267) ∧
      addressUnder 267 0x00401000#32 s'.machine = .ok 0x10B000#32 (s'.machine.switched 267) := by
  obtain ⟨s, hs, hinv, hcur, hlive, htables, hmarked, hzero⟩ := two_directories
  have hmem : 267 ∈ ({Layout.small.directoryFrame, 267} : Finset Nat) :=
    Finset.mem_insert_of_mem (Finset.mem_singleton_self _)
  have huser : User 0x00401000#32 := by decide
  -- before: an empty directory
  have hbefore := hcur.addressUnder hmem huser
  rw [lookup_of_absent (by
    rw [hzero _ (slot_lt _)]
    exact not_present_zero)] at hbefore
  -- the page is freed
  have haddr : frameAddr 267 = 0x10B000#32 := rfl
  have hallow : s.Allows (.kfree 0x10B000#32) := Or.inr (haddr ▸ hlive)
  obtain ⟨s₁, hs₁⟩ := exec_some direct hallow
  have hop₁ : (Op.kfree 0x10B000#32).At Below := trivial
  obtain ⟨hinv₁, hfault₁⟩ := hinv.exec_direct hcur.fault hop₁ hs₁
  have hstep₁ := step_of_exec_direct hinv.founded hop₁ hcur.fault hs₁
  have hmarked₁ : ∀ f, f ∈ marked s₁.machine.frameBitmap ↔ f < 267 := by
    cases hstep₁ with
    | kfree _ _ =>
        intro f
        show f ∈ marked (clearFrame s.machine.frameBitmap 0x10B000#32) ↔ f < 267
        have hframe : frameOf 0x10B000#32 = 267 := by decide
        rw [marked_clearFrame, hframe, Finset.mem_erase, hmarked]
        omega
  have htables₁ : s₁.tables = ∅ := by
    cases hstep₁ with
    | kfree _ _ => exact htables
  -- and becomes a table
  obtain ⟨s₂, hs₂⟩ := exec_some direct
    (show s₁.Allows (.map 0x00401000#32 0x10B000#32 3#32) from trivial)
  have hstep₂ := step_of_exec_direct hinv₁.founded (show Op.At Below (.map _ _ _) from huser.below)
    hfault₁ hs₂
  have hbyte : ∃ m : Mem, s₂.machine.mem = setEntry m 267 1 0x10B003#32 := by
    cases hstep₂ with
    | mapTable hp =>
        have hmapped := hinv₁.mapped
        rw [htables₁] at hmapped
        exact absurd hp (hmapped.absent_of_no_tables huser)
    | mapFull _ hfull =>
        have := (hmarked₁ 267).mp (hfull.all 267 (by decide))
        omega
    | @mapFresh _ _ _ k _ hk =>
        obtain rfl := hk.leastFree.eq (leastFree_of_below (by decide) hmarked₁)
        exact ⟨_, by
          rw [Machine.put_mem]
          rfl⟩
  obtain ⟨m, hm⟩ := hbyte
  have hentry : entry s₂.machine.mem 267 1 = 0x10B003#32 := by
    rw [hm, entry_setEntry m _ (by decide) (by decide) (by decide) (by decide), if_pos ⟨rfl, rfl⟩]
  have hslot : slot 0x00401000#32 = 1 := by decide
  have hindex : index 0x00401000#32 = 1 := by decide
  have hframe : frameOf 0x10B003#32 = 267 := by decide
  have htable : tableOf s₂.machine.mem 267 0x00401000#32 = 267 := by
    rw [tableOf, hslot, hentry, hframe]
  have hafter := addressUnder_lookup (m := s₂.machine) (e := 267) (v := 0x00401000#32) fun _ => by
    rw [htable]
    decide
  rw [lookup, htable, hslot, hindex, hentry, hframe, if_pos (by decide)] at hafter
  refine ⟨s, s₂, hs, hcur, ?_, hbefore, hafter⟩
  rw [run_cons, hs₁, Option.bind_some, run_cons, hs₂]
  rfl

end Alternation

end RedOS
