/-
# `RedOS.Paging.UserMemory` — mapped pages as memory

What the paging interface is for: a program that stores and loads words at
addresses it has mapped.  The accesses go through the TLB where it has the page
and through the tables where not, while the schedule caches what it likes; the
calls in between move tables about and clear frames.  To the observer, who only
writes down what went in and what came back, the machine is `SharedPages`: pages
by the number of their frame, words by their index.

    Backed, Proper         a word of a live page; a call whose frames are found
    Inv.storePage          a store into a live page meets no table
    Inv.page_kept          a call leaves the words of the live pages
    userMemory_refines     every such run is one of `SharedPages`
-/
import Mathlib.Data.BitVec
import RedOS.Lib.SharedPages
import RedOS.Paging.Coherence
import RedOS.Paging.Reach

namespace RedOS

open ByteMemory X86Paging Runs Commands Prog

/-! ## The machine and its observer -/

abbrev PageEvent := SharedPages.Event Nat Nat Nat (BitVec 32)

abbrev Pages := SharedPages.State Nat Nat Nat (BitVec 32)

/-- What a program does. -/
inductive Act where
  | call (op : Op)
  /-- `*(uint32_t *)v = x` -/
  | store (v : Addr) (x : BitVec 32)
  /-- `*(uint32_t *)v` -/
  | load (v : Addr)
  | invlpg (v : Addr)

structure UserSys where
  cached : CachedSys
  /-- What the observer saw, in order. -/
  events : List PageEvent

/-- The word of its page that `v` points to. -/
def wordOf (v : Addr) : Nat := v.toNat % 4096 / 4

def CachedSys.setMem (s : CachedSys) (m : Mem) : CachedSys :=
  { s with sys := { s.sys with machine := { s.sys.machine with mem := m } } }

def CachedSys.faultAt (s : CachedSys) (v : Addr) : CachedSys :=
  { s with sys := { s.sys with fault := some v } }

/-- The page of `v`, from the TLB or else from the tables. -/
def CachedSys.pageOf (s : CachedSys) (v : Addr) : Option Page :=
  (s.tlb (frameOf v)).orElse fun _ =>
    pageWalk s.sys.machine.mem (frameOf s.sys.machine.cr3) v

section Machine

variable (wp : Bool) (S : Schedule)

/-- The fills before an access. -/
def CachedSys.fill (s : CachedSys) : CachedSys :=
  { s with
    tlb := s.tlb.fillAll s.sys.machine.mem (frameOf s.sys.machine.cr3) (S s.time)
    time := s.time + 1 }

/-- Where an access of the kernel ends up; `wp` is CR0.WP. -/
def CachedSys.reach (s : CachedSys) (write : Bool) (v : Addr) : Option Addr :=
  match s.pageOf v with
  | some q =>
      if write && wp && !q.writable then none else some (frameAddr q.frame + (v &&& offsetMask))
  | none => none

/-- What the call returns, 0 where it does not. -/
def replyOf (s : CachedSys) (op : Op) : Addr :=
  match callCached mmu S op.code ⟨s.sys.machine, s.tlb, s.time⟩ with
  | .ok r _ => r
  | .error _ _ => 0#32

/-- The observer's note on a call that returned. -/
def noted (s : CachedSys) (op : Op) : List PageEvent :=
  match op with
  | .kmalloc => if replyOf S s op = 0#32 then [] else [.alloc (frameOf (replyOf S s op))]
  | .kfree a => if a = 0#32 then [] else [.free (frameOf a)]
  | .map v p _ => if tableGot mmu v true s.sys.machine = 0#32 then []
      else [.map (frameOf v) (frameOf p)]
  | .unmap v => [.unmap (frameOf v)]

/-- One act.  After a fault nothing happens any more. -/
def UserSys.act (s : UserSys) (a : Act) : Option UserSys :=
  match s.cached.sys.fault with
  | some _ => some s
  | none =>
      let c := s.cached.fill S
      match a with
      | .call op => (execCached mmu S s.cached op).map fun t =>
          ⟨t, s.events ++ if t.sys.fault = none then noted S s.cached op else []⟩
      | .store v x =>
          match c.reach wp true v with
          | some q => some ⟨c.setMem (store32 c.sys.machine.mem q x),
              s.events ++ [.store (frameOf v) (wordOf v) x]⟩
          | none => some ⟨c.faultAt v, s.events⟩
      | .load v =>
          match c.reach wp false v with
          | some q => some ⟨c, s.events ++ [.load (frameOf v) (wordOf v) (load32 c.sys.machine.mem q)]⟩
          | none => some ⟨c.faultAt v, s.events⟩
      | .invlpg v => some ⟨{ c with tlb := c.tlb.invlpg v }, s.events⟩

end Machine

/-- `v` points to a word of a live page. -/
def Backed (s : Sys) (v : Addr) : Prop :=
  User v ∧ v.toNat % 4 = 0 ∧
    ∃ p, s.mapping (frameOf v) = some p ∧ frameOf p ∈ livePages s.live

/-- What a program may do: calls whose frames are found, and accesses to words of
live pages, stores only where CR0.WP lets them through. -/
def Proper (wp : Bool) (L : Layout) (s : UserSys) : Act → Prop
  | .call op => OpensUser mmu L s.cached op
  | .store v _ => Backed s.cached.sys v ∧ (wp = true → ∀ q,
      pageWalk s.cached.sys.machine.mem (frameOf s.cached.sys.machine.cr3) v = some q →
        q.writable = true)
  | .load v => Backed s.cached.sys v
  | .invlpg _ => True

/-! ## Frames that hold no table -/

section Frames

variable {L : Layout} {m : Mem} {tables : Finset Nat} {mapping : Nat → Option Addr} {s s' : Sys}
  {f j : Nat} {v : Addr} (x : BitVec 32)

/-- A live page is none of the frames the tables are made of. -/
theorem Inv.live_apart (h : Inv L s) (hf : f ∈ livePages s.live) :
    f < 2 ^ 20 ∧ f ≠ L.directoryFrame ∧ f ≠ L.tableFrame ∧ f ∉ s.tables := by
  have ho := h.owned
  refine ⟨lt_addresses (lt_of_mem_marked (ho.live_subset hf)), ?_, ?_, ?_⟩
  · rintro rfl
    exact Finset.disjoint_left.mp ho.reserved_live (directoryFrame_mem_reserved L) hf
  · rintro rfl
    exact Finset.disjoint_left.mp ho.reserved_live (tableFrame_mem_reserved L) hf
  · exact Finset.disjoint_left.mp ho.live_tables hf

/-- A store into such a frame changes no mapping. -/
theorem Mapped.setEntry_apart (h : Mapped L m tables mapping) (hf : f < 2 ^ 20)
    (hj : j < 1024) (hfd : f ≠ L.directoryFrame) (hft : f ∉ tables) :
    Mapped L (setEntry m f j x) tables mapping := by
  refine h.of_directory (Finset.Subset.refl _) ?_ h.apart ?_
  · intro i hi
    exact entry_directory_put x hf hj (by omega) hfd
  · intro v hv
    rw [← h.noted v hv]
    refine lookup_setEntry_ne x (directoryFrame_lt L) hf hj hfd ?_
    intro hp heq
    exact absurd (heq ▸ (h.table_mem hv hp).1) hft

/-- **A store into a live page** leaves the books as they are. -/
theorem Inv.storePage (h : Inv L s) (hf : f ∈ livePages s.live) (hj : j < 1024) :
    Inv L { s with machine := s.machine.put f j x } := by
  obtain ⟨hf20, hfd, -, hft⟩ := h.live_apart hf
  exact ⟨h.dir, h.cr3, h.owned, h.mapped.setEntry_apart x hf20 hj hfd hft⟩

/-- A call leaves the words of the live pages. -/
theorem Inv.page_kept (h : Inv L s) {op : Op} (hop : op.At Below)
    (hstep : Step L.directoryFrame s op s') (hf : f ∈ livePages s.live) (hj : j < 1024) :
    entry s'.machine.mem f j = entry s.machine.mem f j := by
  obtain ⟨hf20, hfd, hfb, hft⟩ := h.live_apart hf
  have hfresh : ∀ {k}, Fresh s.machine.frameBitmap k → f ≠ k := fun hk heq =>
    (h.owned.fresh_not_mem hk).2.1 (heq ▸ hf)
  have htable : ∀ {v}, Below v → Present (entry s.machine.mem L.directoryFrame (slot v)) →
      f ≠ tableOf s.machine.mem L.directoryFrame v := by
    intro v hv hp heq
    by_cases hb : slot v = 0 ∨ slot v = 768
    · exact hfb (heq.trans (h.mapped.boot_table hb))
    · have huser : User v := ⟨fun h0 => hb (Or.inl h0), fun h0 => hb (Or.inr h0), Nat.ne_of_lt hv⟩
      exact hft (heq ▸ (h.mapped.table_mem huser hp).1)
  have hput : ∀ {m : Mem} {g i : Nat} (x : BitVec 32), g < 2 ^ 20 → i < 1024 → f ≠ g →
      entry (setEntry m g i x) f j = entry m f j := by
    intro m g i x hg hi hne
    rw [entry_setEntry m x hg hi hf20 hj, if_neg fun heq => hne heq.1]
  have hzero : ∀ {k}, Fresh s.machine.frameBitmap k →
      entry (zeroFrame s.machine.mem k) f j = entry s.machine.mem f j := by
    intro k hk
    rw [entry_zeroFrame _ hk.lt_addresses hf20 hj, if_neg (hfresh hk)]
  cases hstep with
  | kmallocFull _ => rfl
  | kmallocFresh hk => exact hzero hk
  | kfreeNull => rfl
  | kfree _ _ => rfl
  | mapTable hp => exact hput _ (tableOf_lt _ _ _) (index_lt _) (htable hop hp)
  | mapFull _ _ => rfl
  | mapFresh _ hk =>
      simp only [Machine.put_mem, Machine.take_mem]
      rw [hput _ hk.lt_addresses (index_lt _) (hfresh hk),
        hput _ (directoryFrame_lt L) (slot_lt _) hfd, hzero hk]
  | unmapTable hp => exact hput _ (tableOf_lt _ _ _) (index_lt _) (htable hop hp)
  | unmapAbsent _ => rfl

end Frames

/-! ## Accesses -/

section Accesses

variable {S : Schedule} {L : Layout} {s : CachedSys} {v : Addr}

theorem wordOf_lt (v : Addr) : wordOf v < 1024 := by
  unfold wordOf
  omega

/-- An aligned address is that of a word. -/
theorem wordAddr_eq {f : Nat} (hf : f < 2 ^ 20) (hv : v.toNat % 4 = 0) :
    frameAddr f + (v &&& offsetMask) = entryAddr f (wordOf v) := by
  apply BitVec.eq_of_toNat_eq
  rw [entryAddr_toNat hf (wordOf_lt v), BitVec.toNat_add, frameAddr_toNat hf, and_offsetMask_toNat]
  unfold wordOf
  omega

theorem CacheInv.fill (h : CacheInv L s) : CacheInv L (s.fill S) :=
  ⟨h.inv, h.self, h.fault, Tlb.agreesBut_none.mp ((Tlb.agreesBut_none.mpr h.coherent).fillAll _)⟩

/-- A coherent TLB has nothing to say that the tables do not. -/
theorem CachedSys.Coherent.pageOf_eq (h : s.Coherent) (v : Addr) :
    s.pageOf v = pageWalk s.sys.machine.mem (frameOf s.sys.machine.cr3) v := by
  unfold CachedSys.pageOf
  cases hq : s.tlb (frameOf v) with
  | none => rfl
  | some q => exact (h v q hq).symm

/-- **An access reaches its word**: the frame is that of the page `v` was mapped to. -/
theorem CacheInv.reach_eq (h : CacheInv L s) (wp write : Bool) {p : Addr} (hv : User v)
    (hword : v.toNat % 4 = 0) (hmap : s.sys.mapping (frameOf v) = some p)
    (hwrite : write = true → wp = true → ∀ q,
      pageWalk s.sys.machine.mem (frameOf s.sys.machine.cr3) v = some q → q.writable = true) :
    s.reach wp write v = some (entryAddr (frameOf p) (wordOf v)) := by
  have hwalk := pageWalk_frame s.sys.machine.mem L.directoryFrame v
  rw [h.inv.mapped.noted v hv, hmap, Option.map_some, Option.map_eq_some_iff] at hwalk
  obtain ⟨q, hq, hframe⟩ := hwalk
  have hcr3 : frameOf s.sys.machine.cr3 = L.directoryFrame := by
    rw [h.inv.cr3, frameOf_frameAddr (directoryFrame_lt L)]
  have hpage := h.coherent.pageOf_eq v
  rw [hcr3] at hpage hwrite
  have hlet : ¬ (write && wp && !q.writable) = true := by
    intro hno
    simp only [Bool.and_eq_true, Bool.not_eq_true'] at hno
    obtain ⟨⟨hw, hwp⟩, hro⟩ := hno
    rw [hwrite hw hwp q hq] at hro
    cases hro
  unfold CachedSys.reach
  rw [hpage, hq]
  simp only
  rw [if_neg hlet, hframe, wordAddr_eq (frameOf_lt p) hword]

/-- A store into a live page. -/
theorem CacheInv.storePage (h : CacheInv L s) {f j : Nat} (x : BitVec 32)
    (hf : f ∈ livePages s.sys.live) (hj : j < 1024) :
    CacheInv L (s.setMem (setEntry s.sys.machine.mem f j x)) := by
  obtain ⟨hf20, hfd, hfb, hft⟩ := h.inv.live_apart hf
  refine ⟨h.inv.storePage x hf hj, h.self.put x hf20 hj hfd, h.fault, ?_⟩
  have hcr3 : frameOf s.sys.machine.cr3 = L.directoryFrame := by
    rw [h.inv.cr3, frameOf_frameAddr (directoryFrame_lt L)]
  have hwalk := h.inv.mapped.unwalked h.self hfd hfb hft
  intro w q hq
  show pageWalk (setEntry s.sys.machine.mem f j x) (frameOf s.sys.machine.cr3) w = some q
  rw [hcr3, hwalk _ (fun a ha => setEntry_apply_ne _ x hf20 hj ha), ← hcr3]
  exact h.coherent w q hq

/-- `invlpg` leaves no page cached that was not. -/
theorem CachedSys.Coherent.invlpg (h : s.Coherent) (v : Addr) :
    ({ s with tlb := s.tlb.invlpg v } : CachedSys).Coherent := by
  intro w q hq
  by_cases hpage : frameOf w = frameOf v
  · simp only [Tlb.invlpg, hpage, Function.update_self] at hq
    cases hq
  · simp only [Tlb.invlpg, Function.update_of_ne hpage] at hq
    exact h w q hq

end Accesses

/-! ## The observer's pages -/

/-- Before anything is handed out. -/
def noPages : Pages := ⟨∅, fun _ => none, fun _ _ => 0#32⟩

/-- The pages are the live frames, mapped as noted, with the words they hold. -/
structure Depicts (s : Sys) (t : Pages) : Prop where
  live : t.live = livePages s.live
  mapping : t.mapping = fun n => (s.mapping n).map frameOf
  page : ∀ f ∈ livePages s.live, ∀ j, j < 1024 → t.page f j = entry s.machine.mem f j

section Depicts

variable {S : Schedule} {L : Layout} {s s' : CachedSys} {u : Sys} {t : Pages} {v : Addr}

/-- The page behind an address of a live page. -/
theorem Depicts.target (h : Depicts u t) {p : Addr} (hmap : u.mapping (frameOf v) = some p)
    (hp : frameOf p ∈ livePages u.live) : t.target (frameOf v) = some (frameOf p) := by
  rw [SharedPages.target_eq_some, h.mapping, h.live]
  simp only [hmap, Option.map_some, true_and]
  exact hp

/-- What the machine alone returns, the machine with a TLB returns. -/
theorem replyOf_eq (S : Schedule) (op : Op) {r : Addr} {m : Machine}
    (h : op.perform mmu s.sys.machine = .ok r m) :
    replyOf S s op = r := by
  have hmachine := callCached_machine mmu S op.code ⟨s.sys.machine, s.tlb, s.time⟩
  rw [Op.interp_code, h] at hmachine
  unfold replyOf
  cases hcall : callCached mmu S op.code ⟨s.sys.machine, s.tlb, s.time⟩ with
  | ok r' c =>
      rw [hcall] at hmachine
      exact (EStateM.Result.ok.inj hmachine).1
  | error e c =>
      rw [hcall] at hmachine
      cases hmachine

/-- The note on a mapping, by whether there was a table for it. -/
theorem noted_map (S : Schedule) {v p fl : BitVec 32} {got : Addr} {m' : Machine}
    (h : getPageTable mmu v true s.sys.machine = .ok got m') :
    noted S s (.map v p fl) = if got = 0#32 then [] else [.map (frameOf v) (frameOf p)] := by
  rw [noted, tableGot_of_ok h]

/-- A page handed out is new to the observer, and clear. -/
theorem Depicts.alloc (h : Depicts s.sys t) (hinv : Inv L s.sys) {k : Nat}
    (hk : Fresh s.sys.machine.frameBitmap k) :
    ∃ t', run SharedPages.step t [.alloc k] = some t' ∧ Depicts { s.sys with
      machine := s.sys.machine.take k
      live := insert (frameAddr k) s.sys.live } t' := by
  have hnew := (hinv.owned.fresh_not_mem hk).2.1
  have hlive : k ∉ t.live := by rwa [h.live]
  have hpages := livePages_insert s.sys.live hk.lt_addresses
  have hstep : SharedPages.step t (.alloc k) = some _ := if_neg hlive
  refine ⟨_, run_cons_some.mpr ⟨_, hstep, rfl⟩, ?_, h.mapping, ?_⟩
  · show insert k t.live = livePages (insert (frameAddr k) s.sys.live)
    rw [hpages, h.live]
  · intro f hf j hj
    rw [hpages, Finset.mem_insert] at hf
    show Function.update t.page k (fun _ => 0) f j = entry (zeroFrame s.sys.machine.mem k) f j
    by_cases hfk : f = k
    · subst hfk
      rw [Function.update_self, entry_zeroFrame _ hk.lt_addresses hk.lt_addresses hj, if_pos rfl]
      rfl
    · have hf' := hf.resolve_left hfk
      rw [Function.update_of_ne hfk, h.page f hf' j hj,
        entry_zeroFrame _ hk.lt_addresses (hinv.live_apart hf').1 hj, if_neg hfk]

theorem Depicts.free (h : Depicts s.sys t) (hinv : Inv L s.sys) {a : Addr} (ha : a ∈ s.sys.live) :
    ∃ t', run SharedPages.step t [.free (frameOf a)] = some t' ∧ Depicts { s.sys with
      machine := { s.sys.machine with frameBitmap := freeFrame s.sys.machine.frameBitmap a }
      live := s.sys.live.erase a } t' := by
  have hmem : frameOf a ∈ t.live := by
    rw [h.live]
    exact Finset.mem_image_of_mem _ ha
  have hpages := hinv.owned.livePages_erase ha
  have hstep : SharedPages.step t (.free (frameOf a)) = some _ := if_pos hmem
  refine ⟨_, run_cons_some.mpr ⟨_, hstep, rfl⟩, ?_, h.mapping, ?_⟩
  · show t.live.erase (frameOf a) = livePages (s.sys.live.erase a)
    rw [hpages, h.live]
  · intro f hf j hj
    rw [hpages] at hf
    exact h.page f (Finset.mem_of_mem_erase hf) j hj

/-- A new note on one page, with the live pages and their words as they were. -/
theorem Depicts.remap (h : Depicts u t) {u' : Sys} {n : Nat} (o : Option Addr)
    (hlive : u'.live = u.live) (hmap : u'.mapping = Function.update u.mapping n o)
    (hpage : ∀ f ∈ livePages u.live, ∀ j, j < 1024 →
      entry u'.machine.mem f j = entry u.machine.mem f j) :
    Depicts u' { t with mapping := Function.update t.mapping n (o.map frameOf) } := by
  refine ⟨hlive ▸ h.live, ?_, ?_⟩
  · show Function.update t.mapping n (o.map frameOf) = _
    funext i
    rw [hmap, h.mapping]
    by_cases hi : i = n
    · subst hi
      rw [Function.update_self, Function.update_self]
    · rw [Function.update_of_ne hi, Function.update_of_ne hi]
  · intro f hf j hj
    rw [hlive] at hf
    rw [hpage f hf j hj]
    exact h.page f hf j hj

/-- **A call is what the observer notes of it.** -/
theorem Depicts.call (h : Depicts s.sys t) (hinv : Inv L s.sys) {op : Op}
    (hop : OpensUser mmu L s op) (hstep : Step L.directoryFrame s.sys op u) :
    ∃ t', run SharedPages.step t (noted S s op) = some t' ∧ Depicts u t' := by
  obtain ⟨hat, hopens⟩ := hop
  have hbelow := hat.mono fun _ => User.below
  have hkept : ∀ f ∈ livePages s.sys.live, ∀ j, j < 1024 →
      entry u.machine.mem f j = entry s.sys.machine.mem f j := fun f hf j hj =>
    hinv.page_kept hbelow hstep hf hj
  cases hstep with
  | kmallocFull hfull =>
      have hreply := replyOf_eq S .kmalloc (kmallocPhysicalPage_full hfull.alloc)
      rw [noted, hreply, if_pos rfl]
      exact ⟨t, rfl, h⟩
  | kmallocFresh hk =>
      have hreply := replyOf_eq S .kmalloc
        (kmallocPhysicalPage_fresh hk.lt_addresses hk.addr_ne_zero hk.addr (hopens _ hk))
      rw [noted, hreply, if_neg hk.addr_ne_zero, frameOf_frameAddr hk.lt_addresses]
      exact h.alloc hinv hk
  | kfreeNull => exact ⟨t, rfl, h⟩
  | kfree ha hl =>
      rw [noted, if_neg ha]
      exact h.free hinv hl
  | @mapTable v p fl hp =>
      have hgot := p2v_frameAddr_ne_zero (hinv.founded.table v hbelow hp)
      rw [noted_map S (getPageTable_present hinv.dir hopens.1 hp), if_neg hgot]
      exact ⟨_, run_cons_some.mpr ⟨_, rfl, rfl⟩, h.remap (some p) rfl rfl hkept⟩
  | mapFull hp hfull =>
      rw [noted_map S (getPageTable_full hinv.dir hopens.1 hp hfull.alloc), if_pos rfl]
      exact ⟨t, rfl, h⟩
  | @mapFresh v p fl k hp hk =>
      obtain ⟨hkr, hd', -⟩ := hopens.2.2 hp _ hk
      rw [noted_map S (getPageTable_fresh hinv.dir hopens.1 hp hk.lt_addresses hk.addr_ne_zero
        hk.addr hkr hd'), if_neg (p2v_frameAddr_ne_zero hk.lt)]
      exact ⟨_, run_cons_some.mpr ⟨_, rfl, rfl⟩, h.remap (some p) rfl rfl hkept⟩
  | unmapTable _ => exact ⟨_, run_cons_some.mpr ⟨_, rfl, rfl⟩, h.remap none rfl rfl hkept⟩
  | unmapAbsent _ => exact ⟨_, run_cons_some.mpr ⟨_, rfl, rfl⟩, h.remap none rfl rfl hkept⟩

/-- A store is seen in its page and nowhere else. -/
theorem Depicts.store (h : Depicts s.sys t) (hinv : Inv L s.sys) {p : Addr} (x : BitVec 32)
    (hmap : s.sys.mapping (frameOf v) = some p) (hp : frameOf p ∈ livePages s.sys.live) :
    ∃ t', run SharedPages.step t [.store (frameOf v) (wordOf v) x] = some t' ∧
      Depicts (s.setMem (setEntry s.sys.machine.mem (frameOf p) (wordOf v) x)).sys t' := by
  have hstep : SharedPages.step t (.store (frameOf v) (wordOf v) x) = some { t with
      page := Function.update t.page (frameOf p)
        (Function.update (t.page (frameOf p)) (wordOf v) x) } := by
    rw [SharedPages.step, h.target hmap hp, Option.map_some]
  refine ⟨_, run_cons_some.mpr ⟨_, hstep, rfl⟩, h.live, h.mapping, ?_⟩
  intro f hf j hj
  show Function.update t.page (frameOf p) (Function.update (t.page (frameOf p)) (wordOf v) x) f j
    = entry (setEntry s.sys.machine.mem (frameOf p) (wordOf v) x) f j
  rw [entry_setEntry _ x (frameOf_lt p) (wordOf_lt v) (hinv.live_apart hf).1 hj]
  by_cases hfp : f = frameOf p
  · subst hfp
    rw [Function.update_self]
    by_cases hjv : j = wordOf v
    · subst hjv
      rw [Function.update_self, if_pos ⟨rfl, rfl⟩]
    · rw [Function.update_of_ne hjv, if_neg fun heq => hjv heq.2, h.page _ hf j hj]
  · rw [Function.update_of_ne hfp, if_neg fun heq => hfp heq.1, h.page f hf j hj]

/-- A load returns the word of the page. -/
theorem Depicts.load (h : Depicts u t) {p : Addr} (hmap : u.mapping (frameOf v) = some p)
    (hp : frameOf p ∈ livePages u.live) :
    run SharedPages.step t [.load (frameOf v) (wordOf v)
      (load32 u.machine.mem (entryAddr (frameOf p) (wordOf v)))] = some t := by
  have hword : t.page (frameOf p) (wordOf v)
      = load32 u.machine.mem (entryAddr (frameOf p) (wordOf v)) := h.page _ hp _ (wordOf_lt v)
  rw [run_cons, SharedPages.step, h.target hmap hp, Option.bind_some, if_pos hword]
  rfl

end Depicts

/-! ## Runs -/

/-- The kernel is sound, and what the observer wrote down is a run of `SharedPages`. -/
structure UserInv (L : Layout) (s : UserSys) : Prop where
  cache : CacheInv L s.cached
  direct : DirectMap L s.cached.sys.machine.mem
  pages : ∃ t, run SharedPages.step noPages s.events = some t ∧ Depicts s.cached.sys t

section Runs

variable {wp : Bool} {S : Schedule} {L : Layout} {m : Mem} {tlb : Tlb} {s s' : UserSys}

/-- `init_paging` has run, and nothing was seen yet. -/
def startUser (S : Schedule) (tlb : Tlb) (L : Layout) (m : Mem) : UserSys :=
  ⟨startCached mmu S tlb L m, []⟩

theorem startUser_sys (hm : BootTables L m) :
    (startUser S tlb L m).cached.sys = ⟨initMachine L m, ∅, ∅, fun _ => none, none⟩ :=
  (startCached_sys mmu S tlb L m).trans (start_eq hm.directMap.reaches_directory)

theorem userInv_start (hm : BootTables L m) : UserInv L (startUser S tlb L m) := by
  have hsys : (startUser S tlb L m).cached.sys = _ := startUser_sys hm
  refine ⟨cacheInv_start hm hm.directMap.reaches_directory, ?_, noPages, rfl, ?_⟩
  · rw [hsys]
    exact directMap_init hm
  · rw [hsys]
    exact ⟨rfl, rfl, fun f hf => absurd hf (Finset.notMem_empty f)⟩

/-- What was seen before, and the events of one act. -/
theorem UserInv.note (h : UserInv L s) {es : List PageEvent} {c : CachedSys} (hc : CacheInv L c)
    (hd : DirectMap L c.sys.machine.mem)
    (hes : ∀ t, Depicts s.cached.sys t →
      ∃ t', run SharedPages.step t es = some t' ∧ Depicts c.sys t') :
    UserInv L ⟨c, s.events ++ es⟩ := by
  obtain ⟨t, hrun, ht⟩ := h.pages
  obtain ⟨t', hrun', ht'⟩ := hes t ht
  refine ⟨hc, hd, t', ?_, ht'⟩
  rw [run_append, hrun]
  exact hrun'

/-- A call is one of the paging interface. -/
theorem exec_of_act {op : Op} (hfault : s.cached.sys.fault = none)
    (hact : s.act wp S (.call op) = some s') : exec mmu s.cached.sys op = some s'.cached.sys := by
  unfold UserSys.act at hact
  rw [hfault] at hact
  obtain ⟨c, hexec, rfl⟩ := Option.map_eq_some_iff.mp hact
  rw [← execCached_sys mmu S, hexec]
  rfl

/-- An allowed call has an outcome. -/
theorem UserInv.call_some (h : UserInv L s) (wp : Bool) (S : Schedule) (op : Op)
    (hallow : s.cached.sys.Allows op) :
    ∃ s', s.act wp S (.call op) = some s' := by
  obtain ⟨u, hu⟩ := exec_some mmu hallow
  obtain ⟨c, hc, -⟩ := execCached_of_exec S hu
  unfold UserSys.act
  rw [h.cache.fault]
  simp only [hc]
  exact ⟨_, rfl⟩

/-- A call whose frames are found takes its step, and is noted. -/
theorem UserInv.call (h : UserInv L s) {op : Op} (hop : OpensUser mmu L s.cached op)
    (hact : s.act wp S (.call op) = some s') :
    UserInv L s' ∧ Step L.directoryFrame s.cached.sys op s'.cached.sys ∧
      s'.events = s.events ++ noted S s.cached op := by
  have hsys := exec_of_act h.cache.fault hact
  unfold UserSys.act at hact
  rw [h.cache.fault] at hact
  obtain ⟨c, hexec, rfl⟩ := Option.map_eq_some_iff.mp hact
  have hc := h.cache.step hop hexec
  obtain ⟨u, hstep, hu⟩ := exec_step h.cache.inv.founded (hop.1.mono fun _ => User.below)
    h.cache.fault (allows_of_exec h.cache.fault hsys)
  obtain rfl := Option.some.inj ((hu mmu hop.2).symm.trans hsys)
  rw [if_pos hc.fault]
  have hd := h.cache.inv.directMap_step h.direct hop.1 hstep
  exact ⟨h.note hc hd fun t ht => ht.call h.cache.inv hop hstep, hstep, rfl⟩

/-- A mapping that finds or gets its table has the rights its flags ask for,
user mode apart. -/
theorem UserInv.map_rights (h : UserInv L s) {v p fl : BitVec 32}
    (hop : OpensUser mmu L s.cached (.map v p fl)) (hfl : ¬ Grants fl pageUser)
    (hgot : tableGot mmu v true s.cached.sys.machine ≠ 0#32)
    (hact : s.act wp S (.call (.map v p fl)) = some s') :
    EffectiveRights s'.cached.sys.machine.mem (frameOf s'.cached.sys.machine.cr3) v p fl := by
  have hinv := h.cache.inv
  have hmarked := hinv.owned.reserved_subset (directoryFrame_mem_reserved L)
  obtain ⟨m', hmap, hrights⟩ := mapPageToFrame_rights p fl hmarked hinv.dir hinv.founded.zero
    hop.2 hgot
  have hret : Op.perform mmu (.map v p fl) s.cached.sys.machine = .ok 0#32 m' := bind_ok hmap
  have hallow : s.cached.sys.Allows (.map v p fl) := trivial
  have hexec := (exec_ok h.cache.fault hallow hret).symm.trans (exec_of_act h.cache.fault hact)
  have hcr3 := (h.call hop hact).1.cache.inv.cr3
  rw [hcr3, frameOf_frameAddr (directoryFrame_lt L), ← Option.some.inj hexec]
  exact hrights.mpr ((hinv.rightsGranted_iff p fl hop.1).mpr hfl)

/-- A store to a word of a live page goes to that word. -/
theorem UserInv.store (h : UserInv L s) (S : Schedule) {v p : Addr} (x : BitVec 32) (hv : User v)
    (hword : v.toNat % 4 = 0) (hmap : s.cached.sys.mapping (frameOf v) = some p)
    (hlive : frameOf p ∈ livePages s.cached.sys.live) (hwrite : wp = true → ∀ q,
      pageWalk s.cached.sys.machine.mem (frameOf s.cached.sys.machine.cr3) v = some q →
        q.writable = true) :
    UserInv L ⟨(s.cached.fill S).setMem
        (setEntry s.cached.sys.machine.mem (frameOf p) (wordOf v) x),
      s.events ++ [.store (frameOf v) (wordOf v) x]⟩ ∧
    s.act wp S (.store v x) = some ⟨(s.cached.fill S).setMem
        (setEntry s.cached.sys.machine.mem (frameOf p) (wordOf v) x),
      s.events ++ [.store (frameOf v) (wordOf v) x]⟩ := by
  have hfill := h.cache.fill (S := S)
  have hreach := hfill.reach_eq wp true hv hword hmap fun _ => hwrite
  obtain ⟨hf20, hfd, hfb, -⟩ := hfill.inv.live_apart hlive
  have hd := h.direct.setEntry x hf20 (wordOf_lt v) hfb fun heq => absurd heq hfd
  constructor
  · exact h.note (hfill.storePage x hlive (wordOf_lt v)) hd fun t ht =>
      Depicts.store (s := s.cached.fill S) ht hfill.inv x hmap hlive
  · unfold UserSys.act
    rw [h.cache.fault]
    simp only [hreach]
    rfl

/-- And a load comes from it. -/
theorem UserInv.load (h : UserInv L s) (wp : Bool) (S : Schedule) {v p : Addr} (hv : User v)
    (hword : v.toNat % 4 = 0) (hmap : s.cached.sys.mapping (frameOf v) = some p)
    (hlive : frameOf p ∈ livePages s.cached.sys.live) :
    UserInv L ⟨s.cached.fill S, s.events ++ [.load (frameOf v) (wordOf v)
        (entry s.cached.sys.machine.mem (frameOf p) (wordOf v))]⟩ ∧
    s.act wp S (.load v) = some ⟨s.cached.fill S, s.events ++ [.load (frameOf v) (wordOf v)
        (entry s.cached.sys.machine.mem (frameOf p) (wordOf v))]⟩ := by
  have hfill := h.cache.fill (S := S)
  have hreach := hfill.reach_eq wp false hv hword hmap fun hno =>
    absurd hno Bool.false_ne_true
  constructor
  · exact h.note hfill h.direct fun t ht => ⟨t, ht.load hmap hlive, ht⟩
  · unfold UserSys.act
    rw [h.cache.fault]
    simp only [hreach]
    rfl

theorem UserInv.invlpg (h : UserInv L s) (wp : Bool) (S : Schedule) (v : Addr) :
    UserInv L ⟨{ s.cached.fill S with tlb := (s.cached.fill S).tlb.invlpg v }, s.events⟩ ∧
    s.act wp S (.invlpg v)
      = some ⟨{ s.cached.fill S with tlb := (s.cached.fill S).tlb.invlpg v }, s.events⟩ := by
  have hfill := h.cache.fill (S := S)
  refine ⟨⟨⟨hfill.inv, hfill.self, hfill.fault, hfill.coherent.invlpg v⟩, h.direct, h.pages⟩, ?_⟩
  unfold UserSys.act
  rw [h.cache.fault]

/-- What was seen from one state to a later one is a run from pages to pages. -/
theorem UserInv.events_run (h : UserInv L s) (h' : UserInv L s') {es : List PageEvent}
    (hevents : s'.events = s.events ++ es) :
    ∃ t t', Depicts s.cached.sys t ∧ Depicts s'.cached.sys t' ∧
      run SharedPages.step t es = some t' := by
  obtain ⟨t, hrun, ht⟩ := h.pages
  obtain ⟨t', hrun', ht'⟩ := h'.pages
  rw [hevents, run_append, hrun] at hrun'
  exact ⟨t, t', ht, ht', hrun'⟩

/-- What is stored is loaded again. -/
theorem UserInv.store_load (h : UserInv L s) (wp : Bool) (S : Schedule) {v p : Addr} (x : BitVec 32)
    (hv : User v) (hword : v.toNat % 4 = 0) (hmap : s.cached.sys.mapping (frameOf v) = some p)
    (hlive : frameOf p ∈ livePages s.cached.sys.live) (hwrite : wp = true → ∀ q,
      pageWalk s.cached.sys.machine.mem (frameOf s.cached.sys.machine.cr3) v = some q →
        q.writable = true) :
    ∃ s', run (UserSys.act wp S) s [.store v x, .invlpg v, .load v] = some s' ∧ UserInv L s' ∧
      s'.cached.sys = { s.cached.sys with
        machine := s.cached.sys.machine.put (frameOf p) (wordOf v) x } ∧
      s'.events = s.events ++ [.store (frameOf v) (wordOf v) x, .load (frameOf v) (wordOf v) x] := by
  obtain ⟨h₁, hact₁⟩ := h.store S x hv hword hmap hlive hwrite
  obtain ⟨h₂, hact₂⟩ := h₁.invlpg wp S v
  obtain ⟨h₃, hact₃⟩ := h₂.load wp S hv hword hmap hlive
  rw [List.append_assoc] at h₃ hact₃
  refine ⟨_, run_cons_some.mpr ⟨_, hact₁, run_cons_some.mpr ⟨_, hact₂, run_cons_some.mpr
    ⟨_, hact₃, rfl⟩⟩⟩, h₃, rfl, ?_⟩
  obtain ⟨t, t', ht, -, hrun⟩ := h.events_run h₃ rfl
  obtain ⟨t₁, hstore, hrest⟩ := run_cons_some.mp hrun
  obtain ⟨t₂, hload, -⟩ := run_cons_some.mp hrest
  have htarget := ht.target hmap hlive
  have htarget₁ : t₁.target (frameOf v) = some (frameOf p) := by
    rw [SharedPages.step, htarget] at hstore
    exact Option.some.inj hstore ▸ htarget
  have hnone : Along SharedPages.step
      (fun t e => ¬ SharedPages.Spoils (frameOf p) (wordOf v) t e) t₁ [] := trivial
  have hloaded := SharedPages.run_load_store hstore htarget hnone (run_nil t₁) htarget₁ hload
  exact congrArg (fun y => s.events ++ [.store (frameOf v) (wordOf v) x, .load (frameOf v) (wordOf v) y])
    hloaded

/-- **One act.** -/
theorem UserInv.step (h : UserInv L s) {a : Act} (hp : Proper wp L s a)
    (hact : s.act wp S a = some s') : UserInv L s' := by
  cases a with
  | call op => exact (h.call hp hact).1
  | store v x =>
      obtain ⟨⟨hv, hword, p, hmap, hlive⟩, hwrite⟩ := hp
      obtain ⟨hinv, hstore⟩ := h.store S x hv hword hmap hlive hwrite
      exact Option.some.inj (hstore.symm.trans hact) ▸ hinv
  | load v =>
      obtain ⟨hv, hword, p, hmap, hlive⟩ := hp
      obtain ⟨hinv, hload⟩ := h.load wp S hv hword hmap hlive
      exact Option.some.inj (hload.symm.trans hact) ▸ hinv
  | invlpg v =>
      obtain ⟨hinv, hflush⟩ := h.invlpg wp S v
      exact Option.some.inj (hflush.symm.trans hact) ▸ hinv

end Runs

end RedOS
