/-
# `RedOS.Paging.Mmu` — the paging interface behind its own page tables

Now `P2V(x)` is a virtual address like any other, and reaches `x` only while the
tables say so.  The first 4 MB are behind the boot table in slot 768
(`DirectMap`); a frame further up is reached only where somebody has mapped it
at its `P2V` address (`Windowed`).  `reaches_mmu` turns "the 4096 addresses from
`P2V(f)` reach frame `f`" into one question about `lookup`, and with it

    exec_mmu_step    while the frames an operation touches are windowed, the
                     operation takes the same `Step` as with direct accesses

so what `Inv` says about direct runs carries over to these.
-/
import RedOS.Paging.Direct

namespace RedOS

open ByteMemory X86Paging Runs

/-! ## Windows and lookups -/

theorem page_of_p2v {f i : Nat} (hf : f < 0x40000) (hi : i < 4096) :
    frameOf (p2v (frameAddr f) + BitVec.ofNat 32 i) = 0xC0000 + f ∧
      (p2v (frameAddr f) + BitVec.ofNat 32 i) &&& offsetMask = BitVec.ofNat 32 i := by
  have hfa := frameAddr_toNat (f := f) (by omega)
  have hv : (p2v (frameAddr f) + BitVec.ofNat 32 i).toNat = 0xC0000000 + 4096 * f + i := by
    unfold p2v kernelVirtualBase
    bv_omega
  constructor
  · rw [frameOf, hv]
    omega
  · apply BitVec.eq_of_toNat_eq
    rw [and_offsetMask_toNat, hv, BitVec.toNat_ofNat]
    omega

theorem page_p2v {f : Nat} (hf : f < 0x40000) : frameOf (p2v (frameAddr f)) = 0xC0000 + f := by
  have h := (page_of_p2v hf (i := 0) (by decide)).1
  rwa [BitVec.add_zero] at h

theorem frameAddr_inj {f g : Nat} (hf : f < 2 ^ 20) (hg : g < 2 ^ 20)
    (h : frameAddr f = frameAddr g) : f = g := by
  rw [← frameOf_frameAddr hf, h, frameOf_frameAddr hg]

/-- Where the page at `P2V(f)` is mapped to frame `g`, its addresses reach `g`. -/
theorem window_mmu {m : Mem} {cr3 : Addr} {f g i : Nat} (hf : f < 0x40000)
    (h : lookup m (frameOf cr3) (p2v (frameAddr f)) = some g) (hi : i < 4096) :
    mmu m cr3 (p2v (frameAddr f) + BitVec.ofNat 32 i) = some (frameAddr g + BitVec.ofNat 32 i) := by
  obtain ⟨hpage, hoff⟩ := page_of_p2v hf hi
  rw [mmu, walk_lookup, lookup_of_frameOf m _ (hpage.trans (page_p2v hf).symm), h, hoff]
  rfl

/-- A window is one translation, that of its page. -/
theorem reaches_mmu {m : Mem} {cr3 : Addr} {f : Nat} (hf : f < 0x40000) :
    Reaches mmu m cr3 f ↔ lookup m (frameOf cr3) (p2v (frameAddr f)) = some f := by
  constructor
  · intro h
    have h0 := h 0 (by decide)
    rw [BitVec.add_zero, BitVec.add_zero, mmu, walk_lookup, Option.map_eq_some_iff] at h0
    obtain ⟨g, hg, heq⟩ := h0
    have hoff := (page_of_p2v hf (i := 0) (by decide)).2
    rw [BitVec.add_zero] at hoff
    rw [hoff, BitVec.add_zero] at heq
    have hg20 : g < 2 ^ 20 := by
      unfold lookup at hg
      split at hg
      · exact Option.some.inj hg ▸ frameOf_lt _
      · cases hg
    rw [hg, frameAddr_inj hg20 (by omega) heq]
  · exact fun h i hi => window_mmu hf h hi

/-- A window whose table is elsewhere is stable under stores into its frame. -/
theorem reachesStably_mmu {m : Mem} {cr3 : Addr} {f : Nat} (hf : f < 0x40000)
    (h : Reaches mmu m cr3 f) (hd : frameOf cr3 ≠ f)
    (ht : tableOf m (frameOf cr3) (p2v (frameAddr f)) ≠ f) : ReachesStably mmu m cr3 f := by
  intro m' hm'
  rw [reaches_mmu hf] at h ⊢
  rw [← h]
  exact lookup_congr (entry_agree hm' (frameOf_lt _) (slot_lt _) hd)
    fun _ => entry_agree hm' (tableOf_lt _ _ _) (index_lt _) ht

/-! ## The direct map of the first 4 MB -/

section DirectMap

variable {L : Layout} {m : Mem}

theorem DirectMap.reaches (h : DirectMap L m) {f : Nat} (hf : f < 1024) :
    Reaches mmu m (frameAddr L.directoryFrame) f := by
  rw [reaches_mmu (by omega), frameOf_frameAddr (directoryFrame_lt L)]
  have hpage := page_p2v (f := f) (by omega)
  have hslot : slot (p2v (frameAddr f)) = 768 := by
    rw [slot_eq, hpage]
    omega
  have hindex : index (p2v (frameAddr f)) = f := by
    have := frameOf_eq (p2v (frameAddr f))
    omega
  rw [h.lookup hslot, hindex]

theorem DirectMap.reaches_directory (h : DirectMap L m) :
    Reaches mmu m (frameAddr L.directoryFrame) L.directoryFrame := by
  have := L.directoryFrame_bounds
  exact h.reaches (by omega)

theorem directMap_init (hm : BootTables L m) : DirectMap L (initMachine L m).mem :=
  hm.directMap.setEntry _ (directoryFrame_lt L) (by decide)
    (Ne.symm (tableFrame_ne_directoryFrame L)) fun _ => by decide

/-- Away from slots 0, 768 and 1023 no step touches the direct map. -/
theorem Inv.directMap_step {s s' : Sys} (h : Inv L s) (hd : DirectMap L s.machine.mem) {op : Op}
    (hop : op.At User) (hstep : Step L.directoryFrame s op s') : DirectMap L s'.machine.mem := by
  have hput : ∀ {v : Addr} (x : BitVec 32), User v →
      Present (entry s.machine.mem L.directoryFrame (slot v)) →
      DirectMap L (X86Paging.setEntry s.machine.mem (tableOf s.machine.mem L.directoryFrame v)
        (index v) x) := by
    intro v x hv hp
    obtain ⟨ht20, htd, htb⟩ := h.mapped.apart _ (h.mapped.table_mem hv hp).1
    exact hd.setEntry x ht20 (index_lt v) htb fun heq => absurd heq htd
  cases hstep with
  | kmallocFull _ => exact hd
  | kmallocFresh hk =>
      obtain ⟨hkd, hkb, -⟩ := h.fresh_apart hk
      exact hd.zeroFrame hk.lt_addresses hkd hkb
  | kfreeNull => exact hd
  | kfree _ _ => exact hd
  | mapTable hp => exact hput _ hop hp
  | mapFull _ _ => exact hd
  | @mapFresh v _ _ k hp hk =>
      obtain ⟨hkd, hkb, -⟩ := h.fresh_apart hk
      have hk20 := hk.lt_addresses
      exact ((hd.zeroFrame hk20 hkd hkb).setEntry _ (directoryFrame_lt L) (slot_lt v)
        (Ne.symm (tableFrame_ne_directoryFrame L)) fun _ => hop.2.1).setEntry _ hk20 (index_lt v)
        hkb fun heq => absurd heq hkd
  | unmapTable hp => exact hput _ hop hp
  | unmapAbsent _ => exact hd

end DirectMap

/-! ## Frames further up -/

/-- Frame `f` is below 4 MB, or mapped to itself at its `P2V` address. -/
def Windowed (s : Sys) (f : Nat) : Prop :=
  f < 1024 ∨ ∃ p, s.mapping (frameOf (p2v (frameAddr f))) = some p ∧ frameOf p = f

/-- `op` gets as far as `alloc_frame`. -/
def Allocates (L : Layout) (s : Sys) : Op → Prop
  | .kmalloc => True
  | .map v _ _ => ¬ Present (entry s.machine.mem L.directoryFrame (slot v))
  | _ => False

/-- If `op` allocates, the lowest unmarked frame is windowed. -/
def AllocFits (L : Layout) (s : Sys) (op : Op) : Prop :=
  Allocates L s op → ∀ k, LeastFree s.machine.frameBitmap k → Windowed s k

/-- The page table `op` goes through is windowed. -/
def TableFits (L : Layout) (s : Sys) : Op → Prop
  | .map v _ _ => Present (entry s.machine.mem L.directoryFrame (slot v)) →
      Windowed s (tableOf s.machine.mem L.directoryFrame v)
  | .unmap v => Present (entry s.machine.mem L.directoryFrame (slot v)) →
      Windowed s (tableOf s.machine.mem L.directoryFrame v)
  | _ => True

section Windowed

variable {L : Layout} {s : Sys}

/-- The `P2V` address of a managed frame above 4 MB lies in a user slot. -/
theorem user_p2v {f : Nat} (hlo : 1024 ≤ f) (hhi : f < totalFrames) : User (p2v (frameAddr f)) := by
  unfold totalFrames at hhi
  have hpage := page_p2v (f := f) (by omega)
  unfold User
  rw [slot_eq, hpage]
  omega

/-- **A managed frame is reached exactly where it is windowed.** -/
theorem Inv.reaches_iff (h : Inv L s) (hd : DirectMap L s.machine.mem) {f : Nat}
    (hf : f < totalFrames) : Reaches mmu s.machine.mem s.machine.cr3 f ↔ Windowed s f := by
  rw [h.cr3]
  by_cases hlow : f < 1024
  · exact iff_of_true (hd.reaches hlow) (Or.inl hlow)
  · have huser := user_p2v (by omega) hf
    unfold totalFrames at hf
    rw [reaches_mmu (by omega), frameOf_frameAddr (directoryFrame_lt L), h.mapped.noted _ huser,
      Option.map_eq_some_iff]
    exact ⟨Or.inr, fun hw => hw.resolve_left hlow⟩

/-- The table behind the window of a frame is not that frame. -/
theorem Inv.window_table (h : Inv L s) (hd : DirectMap L s.machine.mem) {k : Nat}
    (hk : Fresh s.machine.frameBitmap k) (hw : Windowed s k) :
    tableOf s.machine.mem L.directoryFrame (p2v (frameAddr k)) ≠ k ∧
      Present (entry s.machine.mem L.directoryFrame (slot (p2v (frameAddr k)))) := by
  obtain ⟨-, hkb, hkt⟩ := h.fresh_apart hk
  have hktot := hk.lt
  unfold totalFrames at hktot
  by_cases hlow : k < 1024
  · have hslot : slot (p2v (frameAddr k)) = 768 := by
      rw [slot_eq, page_p2v (by omega)]
      omega
    rw [tableOf, hslot, hd.slot768, frameOf_bootEntry (tableFrame_lt L)]
    exact ⟨Ne.symm hkb, present_bootEntry _⟩
  · have huser := user_p2v (by omega) hk.lt
    have hreach := (h.reaches_iff hd hk.lt).mpr hw
    rw [reaches_mmu (by omega), h.cr3, frameOf_frameAddr (directoryFrame_lt L)] at hreach
    have hp : Present (entry s.machine.mem L.directoryFrame (slot (p2v (frameAddr k)))) := by
      by_contra hp
      rw [lookup_of_absent hp] at hreach
      cases hreach
    exact ⟨fun heq => hkt (heq ▸ (h.mapped.table_mem huser hp).1), hp⟩

theorem Inv.reachesStably (h : Inv L s) (hd : DirectMap L s.machine.mem) {k : Nat}
    (hk : Fresh s.machine.frameBitmap k) (hw : Windowed s k) :
    ReachesStably mmu s.machine.mem s.machine.cr3 k := by
  obtain ⟨hkd, -, -⟩ := h.fresh_apart hk
  have hktot := hk.lt
  unfold totalFrames at hktot
  refine reachesStably_mmu (by omega) ((h.reaches_iff hd hk.lt).mpr hw) ?_ ?_
  · rw [h.cr3, frameOf_frameAddr (directoryFrame_lt L)]
    exact Ne.symm hkd
  · rw [h.cr3, frameOf_frameAddr (directoryFrame_lt L)]
    exact (h.window_table hd hk hw).1

/-- The new table stays in reach when the directory is updated. -/
theorem Inv.reaches_newTable (h : Inv L s) (hd : DirectMap L s.machine.mem) {v : Addr} {k : Nat}
    (hp : ¬ Present (entry s.machine.mem L.directoryFrame (slot v)))
    (hk : Fresh s.machine.frameBitmap k) (hw : Windowed s k) :
    Reaches mmu (setEntry (zeroFrame s.machine.mem k) L.directoryFrame (slot v) (bootEntry k))
      s.machine.cr3 k := by
  obtain ⟨hkd, -, -⟩ := h.fresh_apart hk
  obtain ⟨htk, hpk⟩ := h.window_table hd hk hw
  have hdlt := directoryFrame_lt L
  have hktot := hk.lt
  unfold totalFrames at hktot
  have hk20 : k < 2 ^ 20 := by omega
  have hreach := (h.reaches_iff hd hk.lt).mpr hw
  rw [reaches_mmu (by omega), h.cr3, frameOf_frameAddr hdlt] at hreach ⊢
  have hslot : slot (p2v (frameAddr k)) ≠ slot v := fun heq => hp (heq ▸ hpk)
  have htd : tableOf s.machine.mem L.directoryFrame (p2v (frameAddr k)) ≠ L.directoryFrame := by
    refine h.mapped.table_ne_directory ?_ hpk
    unfold Below
    rw [slot_eq, page_p2v (by omega)]
    omega
  rw [← hreach]
  refine lookup_congr ?_ ?_
  · rw [entry_setEntry _ _ hdlt (slot_lt v) hdlt (slot_lt _), if_neg fun heq => hslot heq.2,
      entry_zeroFrame _ hk20 hdlt (slot_lt _), if_neg (Ne.symm hkd)]
  · intro _
    rw [entry_setEntry _ _ hdlt (slot_lt v) (tableOf_lt _ _ _) (index_lt _),
      if_neg fun heq => htd heq.1, entry_zeroFrame _ hk20 (tableOf_lt _ _ _) (index_lt _),
      if_neg htk]

/-- What an operation touches is open where it fits. -/
theorem Inv.opens_mmu (h : Inv L s) (hd : DirectMap L s.machine.mem) {op : Op} (hop : op.At Below)
    (halloc : AllocFits L s op) (htable : TableFits L s op) :
    Opens mmu L.directoryFrame s.machine op := by
  have hdir : Reaches mmu s.machine.mem s.machine.cr3 L.directoryFrame := by
    rw [h.cr3]
    exact hd.reaches_directory
  have htab : ∀ v, Below v → Present (entry s.machine.mem L.directoryFrame (slot v)) →
      Windowed s (tableOf s.machine.mem L.directoryFrame v) →
      Reaches mmu s.machine.mem s.machine.cr3 (tableOf s.machine.mem L.directoryFrame v) :=
    fun v hv hp hw => (h.reaches_iff hd (h.founded.table v hv hp)).mpr hw
  cases op with
  | kmalloc => exact fun k hk => h.reachesStably hd hk (halloc trivial k hk.leastFree)
  | kfree a => exact trivial
  | map v p fl =>
      refine ⟨hdir, fun hp => htab v hop hp (htable hp), ?_⟩
      intro hp k hk
      have hw := halloc hp k hk.leastFree
      obtain ⟨hkd, hkb, -⟩ := h.fresh_apart hk
      refine ⟨h.reachesStably hd hk hw, ?_, h.reaches_newTable hd hp hk hw⟩
      rw [h.cr3]
      exact (hd.zeroFrame hk.lt_addresses hkd hkb).reaches_directory
  | unmap v => exact ⟨hdir, fun hp => htab v hop hp (htable hp)⟩

/-- **A call that fits takes its step**, as it would with direct accesses. -/
theorem Inv.exec_mmu_step (h : Inv L s) (hd : DirectMap L s.machine.mem) (hfault : s.fault = none)
    {op : Op} {s' : Sys} (hop : op.At Below) (halloc : AllocFits L s op)
    (htable : TableFits L s op) (hexec : exec mmu s op = some s') :
    Step L.directoryFrame s op s' := by
  obtain ⟨t, hstep, ht⟩ := exec_step h.founded hop hfault (allows_of_exec hfault hexec)
  rw [ht mmu (h.opens_mmu hd hop halloc htable)] at hexec
  exact Option.some.inj hexec ▸ hstep

end Windowed

end RedOS
