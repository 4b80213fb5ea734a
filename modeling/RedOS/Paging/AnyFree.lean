/-
# `RedOS.Paging.AnyFree` — `kfree_physical_page` called with anything

`free_frame` clears the bit of whatever address it is given: a live page, a free
one, an address out of range or in the middle of a page.  Nothing in
`paging.c` remembers what was handed out, so the reserved frames are safe just
as long as nobody frees an address inside one: until then every page handed out
is outside them (`reserved_under_free`), and the very next call after such a
free hands one of them out, or frame 0 under the name `NULL`.
-/
import RedOS.Paging.Mmu

namespace RedOS

open ByteMemory X86Paging Runs

/-- A call to the frame allocator; any address may be freed. -/
inductive FrameOp where
  | kmalloc
  | kfree (addr : Addr)

/-- The machine a call leaves behind, unless it faulted. -/
def leaves {α : Type} : EStateM.Result PageFault Machine α → Option Machine
  | .ok _ s => some s
  | .error _ _ => none

def execFrame (tr : Translation) (s : Machine) : FrameOp → Option Machine
  | .kmalloc => leaves (kmallocPhysicalPage tr s)
  | .kfree addr => leaves (kfreePhysicalPage addr s)

/-- A free that touches no reserved frame: `NULL`, which is ignored, or an
address in another frame. -/
def FrameOp.Spares (L : Layout) : FrameOp → Prop
  | .kmalloc => True
  | .kfree addr => addr = 0#32 ∨ frameOf addr ∉ reserved L

theorem spares_kfree {L : Layout} {addr : Addr} : (FrameOp.kfree addr).Spares L ↔
    addr = 0#32 ∨ ¬ (frameOf addr < totalFrames ∧ Reserved L (frameOf addr)) := by
  rw [FrameOp.Spares, mem_reserved]

instance (L : Layout) : DecidablePred (FrameOp.Spares L)
  | .kmalloc => isTrue trivial
  | .kfree _ => decidable_of_iff' _ spares_kfree

/-- Below 1 MB or inside the kernel image. -/
def OffLimits (L : Layout) (r : Addr) : Prop :=
  r.toNat < 0x100000 ∨ (0x100000 ≤ r.toNat ∧ r.toNat < L.kernelPhysicalEnd)

section AnyFree

variable {tr : Translation} {L : Layout} {s₀ s s' : Machine} {r : Addr}

theorem offLimits_frameAddr {k : Nat} (hk : k < totalFrames) :
    OffLimits L (frameAddr k) ↔ k ∈ reserved L := by
  unfold totalFrames at hk
  rw [OffLimits, frameAddr_toNat (by omega), mem_reserved, Reserved]
  unfold totalFrames
  constructor <;> omega

/-! ## What the calls do to the bitmap -/

theorem writeWord_frameBitmap {p x : Addr} (h : writeWord tr p x s = .ok () s') :
    s'.frameBitmap = s.frameBitmap := by
  unfold writeWord at h
  split at h
  · cases h
    rfl
  · cases h

theorem memset_frameBitmap {p : Addr} {b : BitVec 8} : ∀ {n : Nat} {s s' : Machine},
    memset tr p b n s = .ok () s' → s'.frameBitmap = s.frameBitmap
  | 0, _, _, h => by
      cases h
      rfl
  | n + 1, _, _, h => by
      obtain ⟨_, t, hn, hbyte⟩ := bind_eq_ok h
      rw [← memset_frameBitmap hn]
      unfold writeByte at hbyte
      split at hbyte
      · cases hbyte
        rfl
      · cases hbyte

/-- A call that returns has returned what `alloc_frame` gave it. -/
theorem kmallocPhysicalPage_ok (h : kmallocPhysicalPage tr s = .ok r s') :
    r = (allocFrame s.frameBitmap).1 ∧ s'.frameBitmap = (allocFrame s.frameBitmap).2 := by
  have halloc : allocFrameM s = .ok (allocFrame s.frameBitmap).1
      { s with frameBitmap := (allocFrame s.frameBitmap).2 } := rfl
  generalize allocFrame s.frameBitmap = ab at halloc ⊢
  unfold kmallocPhysicalPage at h
  generalize pageSize = n at h
  rw [bind_ok halloc] at h
  split at h
  · next h0 =>
    cases h
    exact ⟨h0.symm, rfl⟩
  · obtain ⟨_, t', hset, h⟩ := bind_eq_ok h
    cases h
    exact ⟨rfl, memset_frameBitmap hset⟩

theorem kfreePhysicalPage_ok {a : Addr} (h : kfreePhysicalPage a s = .ok () s') :
    s'.frameBitmap = if a = 0#32 then s.frameBitmap else freeFrame s.frameBitmap a := by
  unfold kfreePhysicalPage at h
  split at h
  · next h0 =>
    cases h
    rw [if_pos h0]
  · next h0 =>
    cases h
    rw [if_neg h0]

/-- `init_paging` builds its bitmap before anything can fault. -/
theorem initPaging_ok (h : initPaging tr L s₀ = .ok () s) : s.frameBitmap = initFrames L := by
  unfold initPaging at h
  rw [modify_bind, get_bind, modify_bind] at h
  obtain ⟨_, t, hw, h⟩ := bind_eq_ok h
  cases h
  exact writeWord_frameBitmap hw

/-! ## Runs -/

/-- The reserved frames are marked. -/
def Kept (L : Layout) (s : Machine) : Prop := reserved L ⊆ marked s.frameBitmap

/-- While the reserved frames are marked, what is handed out is not one of them. -/
theorem Kept.kmalloc (h : Kept L s) (hcall : kmallocPhysicalPage tr s = .ok r s') :
    Kept L s' ∧ (r ≠ 0#32 → ¬ OffLimits L r) ∧ (r = 0#32 → s'.frameBitmap = s.frameBitmap) := by
  obtain ⟨hr, hb⟩ := kmallocPhysicalPage_ok hcall
  rcases fresh_or_full (h (zero_mem_reserved L)) with ⟨k, hk⟩ | hfull
  · rw [hk.addr] at hr
    refine ⟨?_, ?_, fun h0 => absurd (hr ▸ h0) hk.addr_ne_zero⟩
    · rw [Kept, hb, hk.after]
      exact h.trans (Finset.subset_insert _ _)
    · intro _ hoff
      rw [hr, offLimits_frameAddr hk.lt] at hoff
      exact hk.unmarked (h hoff)
  · rw [hfull.alloc] at hr hb
    refine ⟨?_, fun h0 => absurd hr h0, fun _ => hb⟩
    rw [Kept, hb]
    exact h

theorem Kept.kfree {a : Addr} (h : Kept L s) (ha : a = 0#32 ∨ frameOf a ∉ reserved L)
    (hcall : kfreePhysicalPage a s = .ok () s') : Kept L s' := by
  rw [Kept, kfreePhysicalPage_ok hcall]
  split
  · exact h
  · next h0 =>
    rw [freeFrame, marked_clearFrame]
    exact fun f hf => Finset.mem_erase.mpr ⟨fun heq => ha.resolve_left h0 (heq ▸ hf), h hf⟩

theorem leaves_eq_some {α : Type} {res : EStateM.Result PageFault Machine α} :
    leaves res = some s ↔ ∃ r, res = .ok r s := by
  cases res with
  | ok r t => simp [leaves]
  | error e t => simp [leaves]

theorem Kept.step {op : FrameOp} (h : Kept L s) (hop : op.Spares L)
    (hexec : execFrame tr s op = some s') : Kept L s' := by
  cases op with
  | kmalloc =>
      rw [execFrame, leaves_eq_some] at hexec
      obtain ⟨r, hcall⟩ := hexec
      exact (h.kmalloc hcall).1
  | kfree a =>
      rw [execFrame, leaves_eq_some] at hexec
      obtain ⟨u, hcall⟩ := hexec
      exact h.kfree hop hcall

/-- The reserved frames are the first ones, so one of them that is freed is the
next to be handed out. -/
theorem Kept.alloc_freed {a : Addr} (h : Kept L s) (ha : a ≠ 0#32) (hmem : frameOf a ∈ reserved L)
    (hfree : kfreePhysicalPage a s = .ok () s') :
    (allocFrame s'.frameBitmap).1 = frameAddr (frameOf a) ∧
      (allocFrame s'.frameBitmap).2 ≠ s'.frameBitmap := by
  have hlt := (mem_reserved.mp hmem).1
  have hmarked : marked s'.frameBitmap = (marked s.frameBitmap).erase (frameOf a) := by
    rw [kfreePhysicalPage_ok hfree, if_neg ha, freeFrame, marked_clearFrame]
  have hnot : frameOf a ∉ marked s'.frameBitmap := by
    rw [hmarked]
    exact Finset.notMem_erase _ _
  have hleast : LeastFree s'.frameBitmap (frameOf a) := by
    refine ⟨hlt, hnot, ?_⟩
    intro j hj
    rw [hmarked]
    refine Finset.mem_erase.mpr ⟨by omega, h (mem_reserved.mpr ⟨by omega, ?_⟩)⟩
    have hres := (mem_reserved.mp hmem).2
    unfold Reserved at hres ⊢
    omega
  rcases allocFrame_eq s'.frameBitmap with ⟨k, hk, hfree, hmin, haddr, hafter⟩ | ⟨hall, -⟩
  · obtain rfl := hleast.eq ⟨hk, hfree, hmin⟩
    refine ⟨haddr, fun heq => hnot ?_⟩
    rw [← heq, hafter]
    exact Finset.mem_insert_self _ _
  · exact absurd (hall _ hlt) hnot

/-- **Any free that spares the reserved frames is harmless**, and the first that
does not is answered by the next call. -/
theorem reserved_under_free {ops : List FrameOp} {s₁ : Machine}
    (hinit : initPaging tr L s₀ = .ok () s₁) (hops : ∀ op ∈ ops, op.Spares L)
    (hrun : run (execFrame tr) s₁ ops = some s) :
    (∀ r s', kmallocPhysicalPage tr s = .ok r s' →
      (r ≠ 0#32 → ¬ OffLimits L r) ∧ (r = 0#32 → s'.frameBitmap = s.frameBitmap)) ∧
    ∀ a s' r t, a ≠ 0#32 → frameOf a ∈ reserved L → kfreePhysicalPage a s = .ok () s' →
      kmallocPhysicalPage tr s' = .ok r t →
      r = frameAddr (frameOf a) ∧ t.frameBitmap ≠ s'.frameBitmap := by
  have hkept : Kept L s₁ := by
    rw [Kept, initPaging_ok hinit, marked_initFrames]
  have h : Kept L s :=
    run_invariant (P := fun _ op => op.Spares L) (fun _ _ _ hs hop hexec => hs.step hop hexec)
      hkept (along_of_mem _ hops) hrun
  refine ⟨fun r s' hcall => (h.kmalloc hcall).2, ?_⟩
  intro a s' r t ha hmem hfree hcall
  obtain ⟨hr, hb⟩ := kmallocPhysicalPage_ok hcall
  rw [hr, hb]
  exact h.alloc_freed ha hmem hfree

theorem initPaging_small : initPaging mmu Layout.small (bootMachine Layout.small smallMem)
    = .ok () (initMachine Layout.small smallMem) :=
  initPaging_eq bootTables_small.directMap.reaches_directory

/-- An unaligned address in a page nobody holds, and one beyond the memory. -/
theorem reserved_under_free_small :
    ∃ s, run (execFrame mmu) (initMachine Layout.small smallMem)
        [.kfree 0#32, .kfree 0x00300001#32, .kfree 0xFFFFFFFF#32] = some s ∧
      ∀ r s', kmallocPhysicalPage mmu s = .ok r s' →
        (r ≠ 0#32 → ¬ OffLimits Layout.small r) ∧ (r = 0#32 → s'.frameBitmap = s.frameBitmap) := by
  have hrun : run (execFrame mmu) (initMachine Layout.small smallMem)
      [.kfree 0#32, .kfree 0x00300001#32, .kfree 0xFFFFFFFF#32] = some _ := rfl
  have hops : ∀ op ∈ [FrameOp.kfree 0#32, .kfree 0x00300001#32, .kfree 0xFFFFFFFF#32],
      op.Spares Layout.small := by decide
  exact ⟨_, hrun, (reserved_under_free initPaging_small hops hrun).1⟩

/-- The allocator's 0: `NULL`, with whatever `alloc_frame` did to the bitmap. -/
theorem kmallocPhysicalPage_zero (h0 : (allocFrame s.frameBitmap).1 = 0#32) :
    kmallocPhysicalPage tr s
      = .ok 0#32 { s with frameBitmap := (allocFrame s.frameBitmap).2 } := by
  unfold kmallocPhysicalPage
  rw [bind_ok (allocFrameM_eq h0), if_pos rfl]
  rfl

/-- The state after a first free of an address in a reserved frame. -/
def freedSmall (a : Addr) : Machine :=
  { initMachine Layout.small smallMem with frameBitmap := freeFrame (initFrames Layout.small) a }

theorem freedSmall_spec {a : Addr} (ha : a ≠ 0#32) (hmem : frameOf a ∈ reserved Layout.small) :
    run (execFrame mmu) (initMachine Layout.small smallMem) [.kfree a] = some (freedSmall a) ∧
      (allocFrame (freedSmall a).frameBitmap).1 = frameAddr (frameOf a) ∧
      (allocFrame (freedSmall a).frameBitmap).2 ≠ (freedSmall a).frameBitmap := by
  have hfree : kfreePhysicalPage a (initMachine Layout.small smallMem) = .ok () (freedSmall a) :=
    kfreePhysicalPage_ne ha
  have hkept : Kept Layout.small (initMachine Layout.small smallMem) := by
    rw [Kept, initMachine, marked_initFrames]
  refine ⟨?_, hkept.alloc_freed ha hmem hfree⟩
  rw [run_cons, execFrame, hfree]
  rfl

/-- **A freed kernel page is handed out**, and after a free of address 1 the
answer `NULL` has taken frame 0. -/
theorem kernel_page_handed_out :
    (∃ s t, run (execFrame mmu) (initMachine Layout.small smallMem) [.kfree 0x00100000#32]
        = some s ∧ kmallocPhysicalPage mmu s = .ok 0x00100000#32 t) ∧
    ∃ s t, run (execFrame mmu) (initMachine Layout.small smallMem) [.kfree 1#32] = some s ∧
      kmallocPhysicalPage mmu s = .ok 0#32 t ∧ t.frameBitmap ≠ s.frameBitmap := by
  constructor
  · obtain ⟨hrun, halloc, -⟩ := freedSmall_spec (a := 0x00100000#32) (by decide)
      (mem_reserved.mpr (by decide))
    -- frame 256 is neither of the two tables, and in the direct map
    have hd : DirectMap Layout.small (initMachine Layout.small smallMem).mem :=
      directMap_init bootTables_small
    have hcr3 : frameOf (frameAddr Layout.small.directoryFrame) = Layout.small.directoryFrame :=
      frameOf_frameAddr (directoryFrame_lt _)
    have htable : tableOf (initMachine Layout.small smallMem).mem Layout.small.directoryFrame
        (p2v (frameAddr 256)) = Layout.small.tableFrame := by
      rw [tableOf, show slot (p2v (frameAddr 256)) = 768 by decide, hd.slot768,
        frameOf_bootEntry (tableFrame_lt _)]
    have hreach : ReachesStably mmu (freedSmall 0x00100000#32).mem (freedSmall 0x00100000#32).cr3
        256 := by
      refine reachesStably_mmu (by decide) (hd.reaches (by decide)) ?_ ?_
      · exact hcr3 ▸ by decide
      · have h := htable
        rw [← hcr3] at h
        exact h ▸ by decide
    generalize freedSmall 0x00100000#32 = s at hrun halloc hreach
    have hcall := kmallocPhysicalPage_fresh (k := 256) (by decide) (by decide) halloc hreach
    rw [show frameAddr 256 = 0x00100000#32 by decide] at hcall
    exact ⟨s, _, hrun, hcall⟩
  · obtain ⟨hrun, halloc, hchanged⟩ := freedSmall_spec (a := 1#32) (by decide)
      (mem_reserved.mpr (by decide))
    rw [show frameAddr (frameOf 1#32) = 0#32 by decide] at halloc
    generalize freedSmall 1#32 = s at hrun halloc hchanged
    have hcall := @kmallocPhysicalPage_zero mmu _ halloc
    generalize allocFrame s.frameBitmap = ab at hcall hchanged
    exact ⟨s, _, hrun, hcall, hchanged⟩

end AnyFree

end RedOS
