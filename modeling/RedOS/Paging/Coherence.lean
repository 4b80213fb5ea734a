/-
# `RedOS.Paging.Coherence` — no translation of a finished call is stale

In a call the tables change in at most three places: the bytes of a fresh frame,
which no walk goes through; an empty slot of the directory, where no walk was
present; and the table entry of the call's own page, which `invlpg` follows.  So
between two accesses at most that one page is cached wrongly, and between two
calls none is (`no_stale_translation`), as long as the accesses through `P2V`
hit the frames they are meant for.

They need not: a frame above 4 MB is cleared through whatever the caller has
mapped at its `P2V` address.  If that is a page table, its pages vanish behind
the TLB's back (`stale_translation`).
-/
import RedOS.Paging.Cached
import RedOS.Paging.Rights
import RedOS.Paging.SelfMap

namespace RedOS

open ByteMemory X86Paging Runs Commands Prog

/-! ## The walks a call leaves alone -/

section Walks

variable {L : Layout} {m : Mem} {tables : Finset Nat} {mapping : Nat → Option Addr} {s s' : Sys}

/-- The table of a page, slot by slot. -/
theorem Mapped.table_cases (h : Mapped L m tables mapping) (hself : SelfMapped L m) {w : Addr}
    (hp : Present (entry m L.directoryFrame (slot w))) :
    (User w ∧ tableOf m L.directoryFrame w ∈ tables) ∨
      tableOf m L.directoryFrame w = L.tableFrame ∨
      (slot w = 1023 ∧ tableOf m L.directoryFrame w = L.directoryFrame) := by
  by_cases hb : slot w = 0 ∨ slot w = 768
  · exact Or.inr (Or.inl (h.boot_table hb))
  · by_cases h1023 : slot w = 1023
    · refine Or.inr (Or.inr ⟨h1023, ?_⟩)
      rw [tableOf, h1023, hself, frameOf_bootEntry (directoryFrame_lt L)]
    · have huser : User w := ⟨fun h0 => hb (Or.inl h0), fun h768 => hb (Or.inr h768), h1023⟩
      exact Or.inl ⟨huser, (h.table_mem huser hp).1⟩

/-- No walk goes through a frame that is no table. -/
theorem Mapped.unwalked (h : Mapped L m tables mapping) (hself : SelfMapped L m) {k : Nat}
    (hkd : k ≠ L.directoryFrame) (hkb : k ≠ L.tableFrame) (hkt : k ∉ tables) :
    Unwalked m L.directoryFrame k := by
  intro m' hm' w
  refine pageWalk_congr (entry_agree hm' (directoryFrame_lt L) (slot_lt w) (Ne.symm hkd)) ?_
  intro hp
  refine entry_agree hm' (tableOf_lt _ _ _) (index_lt w) ?_
  rcases h.table_cases hself hp with ⟨-, ht⟩ | ht | ⟨-, ht⟩
  · exact fun heq => hkt (heq ▸ ht)
  · exact fun heq => hkb (heq.symm.trans ht)
  · exact fun heq => hkd (heq.symm.trans ht)

/-- In particular through none that is not in use. -/
theorem Inv.unwalked (h : Inv L s) (hself : SelfMapped L s.machine.mem) {k : Nat}
    (hk : Fresh s.machine.frameBitmap k) : Unwalked s.machine.mem L.directoryFrame k := by
  obtain ⟨hkd, hkb, hkt⟩ := h.fresh_apart hk
  exact h.mapped.unwalked hself hkd hkb hkt

/-- A store into a user page's entry changes the walk of that page only. -/
theorem Mapped.walk_put (h : Mapped L m tables mapping) (hself : SelfMapped L m) {v w : Addr}
    (x : BitVec 32) (hv : User v) (hp : Present (entry m L.directoryFrame (slot v)))
    (hpage : frameOf w ≠ frameOf v) :
    pageWalk (setEntry m (tableOf m L.directoryFrame v) (index v) x) L.directoryFrame w
      = pageWalk m L.directoryFrame w := by
  obtain ⟨ht20, htd, htb⟩ := h.apart _ (h.table_mem hv hp).1
  refine pageWalk_congr (entry_directory_put x ht20 (index_lt v) (slot_lt w) htd) ?_
  intro hpw
  rw [entry_setEntry m x ht20 (index_lt v) (tableOf_lt _ _ _) (index_lt w), if_neg]
  rintro ⟨htable, hindex⟩
  rcases h.table_cases hself hpw with ⟨hw, -⟩ | ht | ⟨-, ht⟩
  · have hslot := h.slot_of_table hw hv hpw hp htable
    exact hpage (by rw [frameOf_eq w, frameOf_eq v, hslot, hindex])
  · exact htb (htable.symm.trans ht)
  · exact htd (htable.symm.trans ht)

/-- A table hung into an empty slot changes no walk that was present. -/
theorem walk_slot {v w : Addr} {q : Page} (x : BitVec 32) (hp : ¬ Present (entry m L.directoryFrame (slot v)))
    (hwalk : pageWalk m L.directoryFrame w = some q) :
    pageWalk (setEntry m L.directoryFrame (slot v) x) L.directoryFrame w = some q := by
  obtain ⟨hpw, hpte⟩ := pageWalk_present hwalk
  have hd := directoryFrame_lt L
  rw [← hwalk]
  refine pageWalk_congr ?_ ?_
  · rw [entry_setEntry m x hd (slot_lt v) hd (slot_lt w), if_neg]
    exact fun heq => hp (heq.2 ▸ hpw)
  · intro _
    rw [entry_setEntry m x hd (slot_lt v) (tableOf_lt _ _ _) (index_lt w), if_neg]
    rintro ⟨htable, hindex⟩
    rw [htable, hindex] at hpte
    exact hp hpte

end Walks

/-! ## Whole calls -/

/-- Every cached page is as the current tables have it. -/
def Cached.Coherent (c : Cached) : Prop := c.tlb.Coherent c.machine.mem (frameOf c.machine.cr3)

def CachedSys.Coherent (s : CachedSys) : Prop :=
  s.tlb.Coherent s.sys.machine.mem (frameOf s.sys.machine.cr3)

theorem Agrees.coherent {s : Machine} {c : Cached} (h : Agrees s none c) : c.Coherent := by
  obtain ⟨rfl, htlb⟩ := h
  exact Tlb.agreesBut_none.mp htlb

/-- The accesses of the call leave a coherent TLB coherent. -/
def Clean (tr : Translation) (S : Schedule) (s : Machine) (op : Op) : Prop :=
  Returns (Agrees s none) (op.code.interp (Command.performCached tr S)) fun _ t => t.Coherent

section Calls

variable {tr : Translation} {S : Schedule} {L : Layout} {s : Sys}

theorem returns_then_zero {p : Code Unit} {s s' : Machine}
    (h : Returns (Agrees s none) (p.interp (Command.performCached tr S))
      fun _ => Agrees s' none) :
    Returns (Agrees s none) ((do
      p
      pure 0#32 : Code Addr).interp (Command.performCached tr S)) fun _ t => t.Coherent := by
  rw [interp_bind]
  exact h.bind fun _ => Returns.pure fun t ht => ht.coherent

theorem Inv.clean_map (h : Inv L s) (hself : SelfMapped L s.machine.mem) {v p fl : BitVec 32}
    (hv : User v) (hopens : Opens tr L.directoryFrame s.machine (.map v p fl)) :
    Clean tr S s.machine (.map v p fl) := by
  obtain ⟨hreach, htable, hfresh⟩ := hopens
  have hcr3 : frameOf s.machine.cr3 = L.directoryFrame := by
    rw [h.cr3, frameOf_frameAddr (directoryFrame_lt L)]
  by_cases hp : Present (entry s.machine.mem L.directoryFrame (slot v))
  · refine returns_then_zero (returns_mapPageToFrame_present p fl h.dir hreach hp
      (p2v_frameAddr_ne_zero (h.founded.table v hv.below hp)) (htable hp) ?_)
    intro w q hw hq
    rw [hcr3] at hq ⊢
    rw [h.mapped.walk_put hself _ hv hp hw]
    exact hq
  · rcases fresh_or_full h.founded.zero with ⟨k, hk⟩ | hfull
    · obtain ⟨hkr, hd', hk'⟩ := hfresh hp k hk
      obtain ⟨hkd, -, -⟩ := h.fresh_apart hk
      obtain ⟨hmapped, hentry⟩ := h.mapped_newTable hv.below hp hk
      have hself' := h.selfMapped_newTable hself hv.below hk (bootEntry k)
      have htable' : tableOf (setEntry (zeroFrame s.machine.mem k) L.directoryFrame (slot v)
          (bootEntry k)) L.directoryFrame v = k := by
        rw [tableOf, hentry, frameOf_bootEntry hk.lt_addresses]
      refine returns_then_zero (returns_mapPageToFrame_fresh p fl h.dir hreach hp hk.lt_addresses
        hk.addr_ne_zero (p2v_frameAddr_ne_zero hk.lt) hk.addr hkr hd' hk'
        (hcr3 ▸ h.unwalked hself hk) (?_) ?_)
      · intro w q hq
        rw [hcr3] at hq ⊢
        refine walk_slot _ (fun habs => hp ?_) hq
        rwa [entry_zeroFrame _ hk.lt_addresses (directoryFrame_lt L) (slot_lt v),
          if_neg (Ne.symm hkd)] at habs
      · intro w q hw hq
        rw [hcr3] at hq ⊢
        have hput := hmapped.walk_put hself' (pageEntry p fl) hv
          (by rw [hentry]; exact present_bootEntry k) hw
        rw [htable'] at hput
        rw [hput]
        exact hq
    · exact returns_then_zero (returns_mapPageToFrame_full p fl h.dir hreach hp hfull.alloc)

theorem Inv.clean_unmap (h : Inv L s) (hself : SelfMapped L s.machine.mem) {v : Addr}
    (hv : User v) (hopens : Opens tr L.directoryFrame s.machine (.unmap v)) :
    Clean tr S s.machine (.unmap v) := by
  obtain ⟨hreach, htable⟩ := hopens
  have hcr3 : frameOf s.machine.cr3 = L.directoryFrame := by
    rw [h.cr3, frameOf_frameAddr (directoryFrame_lt L)]
  by_cases hp : Present (entry s.machine.mem L.directoryFrame (slot v))
  · refine returns_then_zero (returns_unmapPage_present h.dir hreach hp
      (p2v_frameAddr_ne_zero (h.founded.table v hv.below hp)) (htable hp) ?_)
    intro w q hw hq
    rw [hcr3] at hq ⊢
    rw [h.mapped.walk_put hself _ hv hp hw]
    exact hq
  · exact returns_then_zero (returns_unmapPage_absent h.dir hreach hp)

theorem Inv.clean_kmalloc (h : Inv L s) (hself : SelfMapped L s.machine.mem)
    (hopens : Opens tr L.directoryFrame s.machine .kmalloc) : Clean tr S s.machine .kmalloc := by
  have hcr3 : frameOf s.machine.cr3 = L.directoryFrame := by
    rw [h.cr3, frameOf_frameAddr (directoryFrame_lt L)]
  rcases fresh_or_full h.founded.zero with ⟨k, hk⟩ | hfull
  · exact (returns_kmallocPhysicalPage_fresh hk.lt_addresses hk.addr_ne_zero hk.addr (hopens k hk)
      (hcr3 ▸ h.unwalked hself hk)).mono fun _ t ht => ht.coherent
  · exact (returns_kmallocPhysicalPage_full hfull.alloc).mono fun _ t ht => ht.coherent

theorem clean_kfree (m : Machine) (a : Addr) : Clean tr S m (.kfree a) := by
  unfold Clean Op.code
  rw [interp_bind]
  refine (returns_kfreePhysicalPage a).bind fun _ => Returns.pure ?_
  intro t ht
  obtain ⟨b, hb⟩ := ht
  exact hb.coherent

/-- **One call**, whatever is cached meanwhile. -/
theorem Inv.clean (h : Inv L s) (hself : SelfMapped L s.machine.mem) {op : Op} (hop : op.At User)
    (hopens : Opens tr L.directoryFrame s.machine op) : Clean tr S s.machine op := by
  cases op with
  | kmalloc => exact h.clean_kmalloc hself hopens
  | kfree a => exact clean_kfree _ a
  | map v p fl => exact h.clean_map hself hop hopens
  | unmap v => exact h.clean_unmap hself hop hopens

end Calls

/-! ## Runs -/

/-- What a run keeps whose calls find their frames. -/
structure CacheInv (L : Layout) (s : CachedSys) : Prop where
  inv : Inv L s.sys
  self : SelfMapped L s.sys.machine.mem
  fault : s.sys.fault = none
  coherent : s.Coherent

/-- The call is outside slots 0, 768 and 1023 and finds its frames. -/
def OpensUser (tr : Translation) (L : Layout) (s : CachedSys) (op : Op) : Prop :=
  op.At User ∧ Opens tr L.directoryFrame s.sys.machine op

section Runs

variable {tr : Translation} {S : Schedule} {L : Layout} {m : Mem} {t : Tlb} {s s' : CachedSys}

/-- The fills after a call keep the TLB coherent. -/
theorem Cached.Coherent.fill {c : Cached} (h : c.Coherent) : (c.fill S).Coherent :=
  Tlb.agreesBut_none.mp ((Tlb.agreesBut_none.mpr h).fillAll _)

/-- A clean call and the fills after it. -/
theorem call_coherent {op : Op} (hs : s.Coherent) (hclean : Clean tr S s.sys.machine op) :
    ∃ r c, callCached tr S op.code ⟨s.sys.machine, s.tlb, s.time⟩ = .ok r c ∧ c.Coherent := by
  obtain ⟨r, c, hrun, hc⟩ := hclean ⟨s.sys.machine, s.tlb, s.time⟩
    ⟨rfl, Tlb.agreesBut_none.mpr hs⟩
  refine ⟨r, c.fill S, ?_, hc.fill⟩
  unfold callCached
  rw [bind_of_ok hrun]
  rfl

theorem CacheInv.step (h : CacheInv L s) {op : Op} (hop : OpensUser tr L s op)
    (hexec : execCached tr S s op = some s') : CacheInv L s' := by
  obtain ⟨hat, hopens⟩ := hop
  have hbelow := hat.mono fun _ => User.below
  have hsys : exec tr s.sys op = some s'.sys := by
    rw [← execCached_sys tr S, hexec]
    rfl
  obtain ⟨u, hstep, hu⟩ := exec_step h.inv.founded hbelow h.fault (allows_of_exec h.fault hsys)
  obtain rfl := Option.some.inj ((hu tr hopens).symm.trans hsys)
  refine ⟨h.inv.step hbelow hstep, h.inv.selfMapped_step h.self hbelow hstep, ?_, ?_⟩
  · exact hstep.books.1.trans h.fault
  · obtain ⟨r, c, hcall, hc⟩ := call_coherent (S := S) h.coherent (h.inv.clean h.self hat hopens)
    rw [execCached, h.fault] at hexec
    simp only [if_pos (allows_of_exec h.fault hsys), hcall] at hexec
    obtain rfl := Option.some.inj hexec
    cases op <;> exact hc

/-- A load of CR3 is the last access of `init_paging`. -/
theorem initPagingCode_empties : Ensures ((initPagingCode L).interp (Command.performCached tr S))
    fun _ c => c.tlb = Tlb.empty := by
  unfold initPagingCode
  simp only [interp_bind, interp_one, interp_pure]
  refine Ensures.bind fun _ => Ensures.bind fun x => Ensures.bind fun _ => Ensures.bind ?_
  intro _ c u c' h
  have hload : (Command.loadCr3 x).performCached tr S c = .ok 0#32
      { c.fill S with machine := { c.machine with cr3 := x }, tlb := Tlb.empty } := rfl
  rw [bind_of_ok hload] at h
  cases h
  rfl

theorem startCached_coherent (hr : Reaches tr m (frameAddr L.directoryFrame) L.directoryFrame) :
    (startCached tr S t L m).Coherent := by
  have hfault : (startCached tr S t L m).sys.fault = none := by
    rw [startCached_sys, start_eq hr]
  unfold startCached at hfault ⊢
  cases hrun : (initPagingCode L).interp (Command.performCached tr S) ⟨bootMachine L m, t, 0⟩ with
  | ok u c =>
      have hcall : callCached tr S (initPagingCode L) ⟨bootMachine L m, t, 0⟩ = .ok u (c.fill S) := by
        unfold callCached
        rw [bind_of_ok hrun]
        rfl
      have hempty : c.Coherent := by
        unfold Cached.Coherent
        rw [initPagingCode_empties _ u c hrun]
        exact Tlb.coherent_empty
      rw [hcall]
      exact hempty.fill
  | error e c =>
      have hcall : callCached tr S (initPagingCode L) ⟨bootMachine L m, t, 0⟩ = .error e c := by
        unfold callCached
        rw [bind_of_error hrun]
      rw [hcall] at hfault
      cases hfault

theorem cacheInv_start (hm : BootTables L m)
    (hr : Reaches tr m (frameAddr L.directoryFrame) L.directoryFrame) :
    CacheInv L (startCached tr S t L m) := by
  have hsys := startCached_sys tr S t L m
  refine ⟨hsys ▸ inv_start hm hr, ?_, ?_, startCached_coherent hr⟩
  · rw [hsys, start_eq hr]
    exact selfMapped_init L m
  · rw [hsys, start_eq hr]

/-- **No stale translation.**  Along a run whose calls find their frames, after
each call every cached page is as the page tables have it, whatever was in the
TLB at the start and whatever is cached when. -/
theorem no_stale_translation {ops : List Op} (hm : BootTables L m)
    (hr : Reaches tr m (frameAddr L.directoryFrame) L.directoryFrame)
    (hops : Along (execCached tr S) (OpensUser tr L) (startCached tr S t L m) ops)
    (hrun : run (execCached tr S) (startCached tr S t L m) ops = some s) :
    s.sys.fault = none ∧ s.Coherent := by
  have h : CacheInv L s :=
    run_invariant (fun _ _ _ hs hop hexec => hs.step hop hexec) (cacheInv_start hm hr) hops hrun
  exact ⟨h.fault, h.coherent⟩

theorem no_stale_translation_small :
    ∃ s, run (execCached mmu fun _ => [0x00400000#32])
        (startCached mmu (fun _ => [0x00400000#32]) Tlb.empty Layout.small smallMem)
        [.map 0x00400000#32 0x5000#32 3#32] = some s ∧ s.sys.fault = none ∧ s.Coherent := by
  have hr : Reaches mmu smallMem (frameAddr Layout.small.directoryFrame)
    Layout.small.directoryFrame := bootTables_small.directMap.reaches_directory
  obtain ⟨hopens, -⟩ := first_mapping (v := 0x00400000#32) 0x5000#32 3#32 (by decide) rfl
  have hallow : (start mmu Layout.small smallMem).Allows (.map 0x00400000#32 0x5000#32 3#32) := trivial
  obtain ⟨u, hu⟩ := exec_some mmu hallow
  rw [← startCached_sys mmu (fun _ => [0x00400000#32]) Tlb.empty] at hopens hu
  obtain ⟨s, hs, -⟩ := execCached_of_exec (fun _ => [0x00400000#32]) hu
  have hrun : run (execCached mmu fun _ => [0x00400000#32])
      (startCached mmu (fun _ => [0x00400000#32]) Tlb.empty Layout.small smallMem)
      [.map 0x00400000#32 0x5000#32 3#32] = some s := run_cons_some.mpr ⟨s, hs, rfl⟩
  have halong : Along (execCached mmu fun _ => [0x00400000#32]) (OpensUser mmu Layout.small)
      (startCached mmu (fun _ => [0x00400000#32]) Tlb.empty Layout.small smallMem)
      [.map 0x00400000#32 0x5000#32 3#32] := ⟨⟨by decide, hopens⟩, fun _ _ => trivial⟩
  exact ⟨s, hrun, no_stale_translation bootTables_small hr halong hrun⟩

/-! ### A table cleared behind the TLB -/

/-- A page above 4 MB is cleared wherever its `P2V` address is mapped. -/
theorem FitInv.kmalloc_elsewhere {s : Sys} (h : FitInv L s) {k g : Nat}
    (hk : Fresh s.machine.frameBitmap k) (hg : g < 2 ^ 20) (hgd : g ≠ L.directoryFrame)
    (hlook : lookup s.machine.mem L.directoryFrame (p2v (frameAddr k)) = some g)
    (htable : tableOf s.machine.mem L.directoryFrame (p2v (frameAddr k)) ≠ g) :
    ∃ s', exec mmu s .kmalloc = some s' ∧ s'.fault = none ∧
      s'.machine.mem = zeroFrame s.machine.mem g ∧ s'.machine.cr3 = s.machine.cr3 ∧
      s'.machine.currentPageDirectory = s.machine.currentPageDirectory := by
  have hkt := hk.lt
  unfold totalFrames at hkt
  have hframe : frameOf s.machine.cr3 = L.directoryFrame := by
    rw [h.inv.cr3, frameOf_frameAddr (directoryFrame_lt L)]
  have hperf : Op.perform mmu .kmalloc s.machine = .ok _ _ :=
    kmallocPhysicalPage_window hg hk.addr_ne_zero hk.addr fun m' hm' i hi => by
      refine window_mmu (by omega) ?_ hi
      rw [hframe, ← hlook]
      exact lookup_congr (entry_agree hm' (directoryFrame_lt L) (slot_lt _) (Ne.symm hgd))
        fun _ => entry_agree hm' (tableOf_lt _ _ _) (index_lt _) htable
  have hallow : s.Allows .kmalloc := trivial
  exact ⟨_, exec_ok h.fault hallow hperf, h.fault, rfl, rfl, rfl⟩

/-- With the frames below 1022 used, frame 1022 becomes the table of the first
page above the direct map, which is mapped to frame 1023; then that frame
becomes the table of page `0x00400000`. -/
theorem two_tables :
    ∃ s₁ s, run (exec mmu) (start mmu Layout.small smallMem)
        (List.replicate 755 .kmalloc ++ [.map 0xC0400000#32 0x3FF000#32 3#32]) = some s₁ ∧
      s₁.fault = none ∧ exec mmu s₁ (.map 0x00400000#32 0x5000#32 3#32) = some s ∧
      FitInv Layout.small s ∧ (∀ f, f ∈ marked s.machine.frameBitmap ↔ f < 1024) ∧
      entry s.machine.mem Layout.small.directoryFrame 769 = bootEntry 1022 ∧
      entry s.machine.mem Layout.small.directoryFrame 1 = bootEntry 1023 ∧
      ¬ Present (entry s.machine.mem Layout.small.directoryFrame 2) ∧
      lookup s.machine.mem Layout.small.directoryFrame 0xC0400000#32 = some 1023 ∧
      lookup s.machine.mem Layout.small.directoryFrame 0x00400000#32 = some 5 := by
  obtain ⟨-, s₀, hrun, hfit, htables, hmap, hmarked⟩ :=
    kmalloc_run bootTables_small reserved_small 755 (by decide)
  have hmapped := hfit.inv.mapped
  rw [htables] at hmapped
  have habsent : ∀ v, User v →
      ¬ Present (entry s₀.machine.mem Layout.small.directoryFrame (slot v)) :=
    fun _ hv => hmapped.absent_of_no_tables hv
  obtain ⟨-, s₁, hs₁, hfit₁, hmarked₁, hmap₁, hdir₁⟩ := hfit.map_fresh (by decide) hmarked
    (v := 0xC0400000#32) 0x3FF000#32 3#32 (by decide) (habsent _ (by decide))
  have habsent₁ : ¬ Present (entry s₁.machine.mem Layout.small.directoryFrame
      (slot 0x00400000#32)) := by
    rw [hdir₁ _ (slot_lt _), if_neg (by decide)]
    exact habsent _ (by decide)
  obtain ⟨-, s, hs, hfit₂, hmarked₂, hmap₂, hdir₂⟩ := hfit₁.map_fresh (by decide) hmarked₁
    (v := 0x00400000#32) 0x5000#32 3#32 (by decide) habsent₁
  have hnoted : ∀ v, User v → lookup s.machine.mem Layout.small.directoryFrame v = _ :=
    hfit₂.inv.mapped.noted
  refine ⟨s₁, s, ?_, hfit₁.fault, hs, hfit₂, hmarked₂, ?_, ?_, ?_, ?_, ?_⟩
  · rw [run_append, hrun, Option.bind_some]
    exact run_cons_some.mpr ⟨s₁, hs₁, rfl⟩
  · rw [hdir₂ _ (by decide), if_neg (by decide), hdir₁ _ (by decide), if_pos (by decide)]
  · rw [hdir₂ _ (by decide), if_pos (by decide)]
  · rw [hdir₂ _ (by decide), if_neg (by decide), hdir₁ _ (by decide), if_neg (by decide)]
    exact habsent 0x00800000#32 (by decide)
  · rw [hnoted _ (by decide), hmap₂, hmap₁, Function.update_of_ne (by decide), Function.update_self]
    rfl
  · rw [hnoted _ (by decide), hmap₂, Function.update_self]
    rfl

/-- Then the next page handed out is frame 1024, and clearing it clears the table. -/
theorem table_cleared :
    ∃ s₁ s s', run (exec mmu) (start mmu Layout.small smallMem)
        (List.replicate 755 .kmalloc ++ [.map 0xC0400000#32 0x3FF000#32 3#32]) = some s₁ ∧
      s₁.fault = none ∧ exec mmu s₁ (.map 0x00400000#32 0x5000#32 3#32) = some s ∧
      s.fault = none ∧ run (exec mmu) s [.kmalloc, .unmap 0x00800000#32] = some s' ∧
      s'.fault = none ∧
      pageWalk s.machine.mem (frameOf s.machine.cr3) 0x00400000#32 ≠ none ∧
      pageWalk s'.machine.mem (frameOf s'.machine.cr3) 0x00400000#32 = none := by
  obtain ⟨s₁, s, hs₁, hfault₁, hs, hfit, hmarked, h769, h1, h2, hwindow, hpage⟩ := two_tables
  have hd := directoryFrame_lt Layout.small
  have hframe : frameOf s.machine.cr3 = Layout.small.directoryFrame := by
    rw [hfit.inv.cr3, frameOf_frameAddr hd]
  have hk := fresh_of_leastFree hfit.inv.founded.zero (leastFree_of_below (by decide) hmarked)
  have htable : tableOf s.machine.mem Layout.small.directoryFrame 0xC0400000#32 ≠ 1023 := by
    rw [tableOf, show slot 0xC0400000#32 = 769 from rfl, h769]
    decide
  obtain ⟨t, ht, hfault, hmem, hcr3, hdir⟩ :=
    hfit.kmalloc_elsewhere hk (by decide) (by decide) hwindow htable
  -- the directory is as it was, the table is empty
  have hentry : ∀ i, i < 1024 → entry t.machine.mem Layout.small.directoryFrame i
      = entry s.machine.mem Layout.small.directoryFrame i := fun i hi => by
    rw [hmem, entry_zeroFrame _ (by decide) hd hi, if_neg (by decide)]
  have hdirect : DirectMap Layout.small t.machine.mem := by
    rw [hmem]
    exact hfit.direct.zeroFrame (by decide) (by decide) (by decide)
  have hreach : Reaches mmu t.machine.mem t.machine.cr3 Layout.small.directoryFrame := by
    rw [hcr3, hfit.inv.cr3]
    exact hdirect.reaches_directory
  have habsent : ¬ Present (entry t.machine.mem Layout.small.directoryFrame
      (slot 0x00800000#32)) := by
    rw [hentry _ (slot_lt _)]
    exact h2
  have hret : Op.perform mmu (.unmap 0x00800000#32) t.machine = .ok 0#32 t.machine :=
    bind_ok (unmapPage_absent (hdir.trans hfit.inv.dir) hreach habsent)
  have hallow : t.Allows (.unmap 0x00800000#32) := trivial
  refine ⟨s₁, s, _, hs₁, hfault₁, hs, hfit.fault,
    run_cons_some.mpr ⟨t, ht, run_cons_some.mpr ⟨_, exec_ok hfault hallow hret, rfl⟩⟩, hfault, ?_, ?_⟩
  · intro hnone
    rw [hframe] at hnone
    have hsome := pageWalk_frame s.machine.mem Layout.small.directoryFrame 0x00400000#32
    rw [hnone, hpage] at hsome
    cases hsome
  · show pageWalk t.machine.mem (frameOf t.machine.cr3) 0x00400000#32 = none
    have hslot : slot 0x00400000#32 = 1 := by decide
    have htab : tableOf t.machine.mem Layout.small.directoryFrame 0x00400000#32 = 1023 := by
      rw [tableOf, hslot, hentry _ (by decide), h1, frameOf_bootEntry (by decide)]
    have hzero : entry t.machine.mem 1023 (index 0x00400000#32) = 0#32 := by
      rw [hmem, entry_zeroFrame _ (by decide) (by decide) (index_lt _), if_pos rfl]
    rw [hcr3, hframe, pageWalk, htab, hzero, if_neg fun hp => not_present_zero hp.2]

/-- **A stale translation.**  Page `0x00400000` is cached when it is mapped, and
stays cached when its table is cleared and another page is unmapped. -/
theorem stale_translation :
    ∃ s, run (execCached mmu fun _ => [0x00400000#32])
        (startCached mmu (fun _ => [0x00400000#32]) Tlb.empty Layout.small smallMem)
        (List.replicate 755 .kmalloc ++ [.map 0xC0400000#32 0x3FF000#32 3#32] ++
          [.map 0x00400000#32 0x5000#32 3#32, .kmalloc, .unmap 0x00800000#32]) = some s ∧
      s.sys.fault = none ∧ ¬ s.Coherent := by
  obtain ⟨u₁, u₂, u, hu₁, hfault₁, hu₂, hfault₂, hu, hfault, hwalk₂, hwalk⟩ := table_cleared
  rw [← startCached_sys mmu (fun _ => [0x00400000#32]) Tlb.empty] at hu₁
  obtain ⟨s₁, hs₁, rfl⟩ := runCached_of_run (fun _ => [0x00400000#32]) hu₁
  obtain ⟨s₂, hs₂, rfl⟩ := execCached_of_exec (fun _ => [0x00400000#32]) hu₂
  obtain ⟨s, hs, rfl⟩ := runCached_of_run (fun _ => [0x00400000#32]) hu
  have hcached₂ : (s₂.tlb 0x400).isSome := by
    obtain ⟨t, k, ht⟩ := execCached_fills hfault₁ hs₂ hfault₂
    obtain ⟨q, hq⟩ := Option.ne_none_iff_exists'.mp hwalk₂
    rw [ht]
    show ((t.fill _ _ 0x00400000#32) 0x400).isSome
    rw [Tlb.fill_present hq, show frameOf 0x00400000#32 = 0x400 by decide, Function.update_self]
    rfl
  have hcached : (s.tlb 0x400).isSome :=
    run_invariant (I := fun s : CachedSys => (s.tlb 0x400).isSome)
      (P := fun _ op => op.At fun v => frameOf v ≠ 0x400)
      (fun _ _ _ hc hop hexec => execCached_keeps hop hexec hc) hcached₂
      (along_of_mem _ (by decide)) hs
  refine ⟨s, ?_, hfault, ?_⟩
  · rw [run_append, hs₁, Option.bind_some]
    exact run_cons_some.mpr ⟨s₂, hs₂, hs⟩
  · intro hcoherent
    obtain ⟨q, hq⟩ := Option.isSome_iff_exists.mp hcached
    have := hcoherent 0x00400000#32 q hq
    rw [hwalk] at this
    cases this

end Runs

end RedOS
