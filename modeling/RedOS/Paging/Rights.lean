/-
# `RedOS.Paging.Rights` — what may be done with a mapped page

`map_page_to_frame` puts the caller's flags into the table entry, but a right
needs the directory entry as well, and that one is written by `get_page_table`,
once and with fixed flags, when the table is created.  It grants stores and not
user mode.  So a mapping has the rights of its flags exactly where the directory
entry it goes through already grants them (`RightsGranted`).

The result is about every state that any run reaches, recursive slot included,
so nothing is known about the tables there.  What the proof needs is only the
bookkeeping, which no store can reach: the directory's address, and that its
frame is marked and never freed (`Booked`).
-/
import RedOS.Paging.Reach
import RedOS.Lib.X86Tlb
import RedOS.Lib.Commands

namespace RedOS

open ByteMemory X86Paging Runs

/-! ## Bookkeeping -/

/-- The directory is the same, and no frame was freed. -/
structure KeepsBooks (s s' : Machine) : Prop where
  dir : s'.currentPageDirectory = s.currentPageDirectory
  cr3 : s'.cr3 = s.cr3
  marked : marked s.frameBitmap ⊆ marked s'.frameBitmap

theorem KeepsBooks.refl (s : Machine) : KeepsBooks s s := ⟨rfl, rfl, Finset.Subset.refl _⟩

theorem KeepsBooks.trans {s s' s'' : Machine} (h : KeepsBooks s s') (h' : KeepsBooks s' s'') :
    KeepsBooks s s'' :=
  ⟨h'.dir.trans h.dir, h'.cr3.trans h.cr3, h.marked.trans h'.marked⟩

/-- Called anywhere, `x` keeps the books. -/
def Kernel.Keeps {α : Type} (x : Kernel α) : Prop := Commands.Keeps KeepsBooks x

section Keeps

variable {α β : Type} (tr : Translation)

theorem Kernel.Keeps.pure (a : α) : Kernel.Keeps (pure a) := Commands.Keeps.pure KeepsBooks.refl a

theorem Kernel.Keeps.get : Kernel.Keeps (get : Kernel Machine) :=
  Commands.Keeps.get KeepsBooks.refl

theorem Kernel.Keeps.bind {x : Kernel α} {f : α → Kernel β} (hx : x.Keeps)
    (hf : ∀ a, (f a).Keeps) : (x >>= f).Keeps :=
  Commands.Keeps.bind (R := KeepsBooks) (fun _ _ _ h h' => h.trans h') hx hf

theorem Kernel.Keeps.ite {c : Prop} [Decidable c] {x y : Kernel α} (hx : x.Keeps) (hy : y.Keeps) :
    (if c then x else y).Keeps := Commands.Keeps.ite hx hy

theorem readWord_keeps (p : Addr) : (readWord tr p).Keeps := by
  intro s
  unfold readWord
  split
  · exact KeepsBooks.refl s
  · exact KeepsBooks.refl s

theorem writeWord_keeps (p : Addr) (x : BitVec 32) : (writeWord tr p x).Keeps := by
  intro s
  unfold writeWord
  split
  · exact ⟨rfl, rfl, Finset.Subset.refl _⟩
  · exact KeepsBooks.refl s

theorem writeByte_keeps (p : Addr) (b : BitVec 8) : (writeByte tr p b).Keeps := by
  intro s
  unfold writeByte
  split
  · exact ⟨rfl, rfl, Finset.Subset.refl _⟩
  · exact KeepsBooks.refl s

theorem memset_keeps (p : Addr) (b : BitVec 8) : ∀ n, (memset tr p b n).Keeps
  | 0 => Kernel.Keeps.pure ()
  | n + 1 => (memset_keeps p b n).bind fun _ => writeByte_keeps tr _ b

/-- Another bitmap with no fewer marks. -/
theorem KeepsBooks.bitmap (s : Machine) {b : Bitmap} (h : RedOS.marked s.frameBitmap ⊆ RedOS.marked b) :
    KeepsBooks s { s with frameBitmap := b } := ⟨rfl, rfl, h⟩

theorem allocFrameM_keeps : allocFrameM.Keeps := by
  intro s
  rw [@allocFrameM_eq s _ rfl]
  refine KeepsBooks.bitmap s ?_
  rcases allocFrame_eq s.frameBitmap with ⟨k, -, -, -, -, hafter⟩ | ⟨-, hfull⟩
  · rw [hafter]
    exact Finset.subset_insert k _
  · have hsame : (allocFrame s.frameBitmap).2 = s.frameBitmap := congrArg Prod.snd hfull
    rw [hsame]

theorem getPageTable_keeps (v : Addr) (create : Bool) : (getPageTable tr v create).Keeps := by
  refine Kernel.Keeps.get.bind fun s => (readWord_keeps tr _).bind ?_
  intro pde
  refine (Kernel.Keeps.pure _).ite (Kernel.Keeps.ite ?_ (Kernel.Keeps.pure _))
  refine allocFrameM_keeps.bind fun t => (Kernel.Keeps.pure _).ite ?_
  exact (memset_keeps tr _ _ _).bind fun _ => (writeWord_keeps tr _ _).bind fun _ =>
    Kernel.Keeps.pure _

theorem mapPageToFrame_keeps (v p fl : BitVec 32) : (mapPageToFrame tr v p fl).Keeps := by
  refine (getPageTable_keeps tr v true).bind fun t => (Kernel.Keeps.pure _).ite ?_
  exact (writeWord_keeps tr _ _).bind fun _ => Kernel.Keeps.pure ()

theorem unmapPage_keeps (v : Addr) : (unmapPage tr v).Keeps := by
  refine (getPageTable_keeps tr v false).bind fun t => (Kernel.Keeps.pure _).ite ?_
  exact (writeWord_keeps tr _ _).bind fun _ => Kernel.Keeps.pure ()

theorem kmallocPhysicalPage_keeps : (kmallocPhysicalPage tr).Keeps := by
  refine allocFrameM_keeps.bind fun t => (Kernel.Keeps.pure _).ite ?_
  exact (memset_keeps tr _ _ _).bind fun _ => Kernel.Keeps.pure _

end Keeps

/-- The page handed out was not in use. -/
theorem kmallocPhysicalPage_unmarked {tr : Translation} {s s' : Machine} {r : Addr}
    (h : kmallocPhysicalPage tr s = .ok r s') (hr : r ≠ 0#32) :
    frameOf r ∉ marked s.frameBitmap := by
  have hreturn : r = (allocFrame s.frameBitmap).1 := by
    obtain ⟨frame, b, halloc, hframe⟩ : ∃ frame b,
        allocFrameM s = .ok frame { s with frameBitmap := b } ∧ frame = (allocFrame s.frameBitmap).1 :=
      ⟨_, _, allocFrameM_eq rfl, rfl⟩
    rw [← hframe]
    unfold kmallocPhysicalPage at h
    rw [bind_ok halloc] at h
    split at h
    next h0 =>
      injection h with hret
      exact absurd hret.symm hr
    next h0 =>
      cases hmem : memset tr (p2v frame) 0#8 pageSize { s with frameBitmap := b } with
      | ok u t =>
          rw [bind_ok hmem] at h
          exact (EStateM.Result.ok.inj (show EStateM.Result.ok frame t = .ok r s' from h)).1.symm
      | error e t =>
          rw [bind_error hmem] at h
          cases h
  rcases allocFrame_eq s.frameBitmap with ⟨k, hk, hnot, -, haddr, -⟩ | ⟨-, hfull⟩
  · have hk20 : k < 2 ^ 20 := by
      unfold totalFrames at hk
      omega
    rwa [hreturn, haddr, frameOf_frameAddr hk20]
  · exact absurd (hreturn.trans (congrArg Prod.fst hfull)) hr

/-- What every run keeps of the variables of `paging.c`, wherever its stores went. -/
structure Booked (L : Layout) (s : Sys) : Prop where
  dir : s.machine.currentPageDirectory = p2v (frameAddr L.directoryFrame)
  cr3 : s.machine.cr3 = frameAddr L.directoryFrame
  reserved : reserved L ⊆ marked s.machine.frameBitmap
  live : ∀ a ∈ s.live, frameOf a ∉ RedOS.reserved L

section Booked

variable {L : Layout} {s s' : Sys} {tr : Translation}

theorem Booked.keeps (h : Booked L s) {m : Machine} (hm : KeepsBooks s.machine m)
    {t : Sys} (htm : t.machine = m) (hlive : ∀ a ∈ t.live, frameOf a ∉ RedOS.reserved L) :
    Booked L t := by
  subst htm
  exact ⟨hm.dir.trans h.dir, hm.cr3.trans h.cr3, h.reserved.trans hm.marked, hlive⟩

/-- Outcome by outcome. -/
theorem Booked.perform (h : Booked L s) (tr : Translation) {op : Op} (hallow : s.Allows op) :
    (∀ r m, op.perform tr s.machine = .ok r m → Booked L (s.record tr r m op)) ∧
      ∀ e m, op.perform tr s.machine = .error e m →
        Booked L { s with machine := m, fault := some e.addr } := by
  have hkeeps : op.perform tr |>.Keeps → ∀ res, op.perform tr s.machine = res →
      KeepsBooks s.machine (Commands.stateOf res) := fun hk res hres => hres ▸ hk s.machine
  cases op with
  | kmalloc =>
      have hk := hkeeps (kmallocPhysicalPage_keeps tr)
      refine ⟨fun r m hres => h.keeps (hk _ hres) rfl ?_,
        fun e m hres => h.keeps (hk _ hres) rfl h.live⟩
      intro a ha
      simp only [Sys.record] at ha
      split at ha
      next => exact h.live a ha
      next hr =>
        rcases Finset.mem_insert.mp ha with rfl | ha
        · exact fun hres' => kmallocPhysicalPage_unmarked hres hr (h.reserved hres')
        · exact h.live a ha
  | map v p fl =>
      have hk := hkeeps ((mapPageToFrame_keeps tr v p fl).bind fun _ => Kernel.Keeps.pure _)
      exact ⟨fun r m hres => h.keeps (hk _ hres) rfl h.live,
        fun e m hres => h.keeps (hk _ hres) rfl h.live⟩
  | unmap v =>
      have hk := hkeeps ((unmapPage_keeps tr v).bind fun _ => Kernel.Keeps.pure _)
      exact ⟨fun r m hres => h.keeps (hk _ hres) rfl h.live,
        fun e m hres => h.keeps (hk _ hres) rfl h.live⟩
  | kfree a =>
      by_cases ha : a = 0#32
      · subst ha
        have hret : Op.perform tr (.kfree 0#32) s.machine = .ok 0#32 s.machine :=
          bind_ok kfreePhysicalPage_null
        constructor
        · intro r m hres
          cases hret.symm.trans hres
          exact h.keeps (KeepsBooks.refl _) rfl h.live
        · intro e m hres
          cases hret.symm.trans hres
      · have hlive := hallow.resolve_left ha
        have hret : Op.perform tr (.kfree a) s.machine = .ok 0#32
            { s.machine with frameBitmap := freeFrame s.machine.frameBitmap a } :=
          bind_ok (kfreePhysicalPage_ne ha)
        constructor
        · intro r m hres
          cases hret.symm.trans hres
          refine ⟨h.dir, h.cr3, ?_, ?_⟩
          · show RedOS.reserved L ⊆ marked (clearFrame s.machine.frameBitmap a)
            rw [marked_clearFrame]
            exact Finset.subset_erase.mpr ⟨h.reserved, h.live a hlive⟩
          · intro b hb
            simp only [Sys.record, if_neg ha] at hb
            exact h.live b (Finset.mem_of_mem_erase hb)
        · intro e m hres
          cases hret.symm.trans hres

theorem Booked.step (h : Booked L s) {op : Op} (hexec : exec tr s op = some s') : Booked L s' := by
  unfold exec at hexec
  split at hexec
  next => exact Option.some.inj hexec ▸ h
  next =>
    split at hexec
    next hallow =>
      obtain ⟨hok, herror⟩ := h.perform tr hallow
      split at hexec
      next r m hres => exact Option.some.inj hexec ▸ hok r m hres
      next e m hres => exact Option.some.inj hexec ▸ herror e m hres
    next => cases hexec

/-- A store changes memory or faults. -/
theorem writeWord_outcome (tr : Translation) (p : Addr) (x : BitVec 32) (m : Machine) :
    (∃ m', writeWord tr p x m = .ok () { m with mem := m' }) ∨
      writeWord tr p x m = .error ⟨p⟩ m := by
  unfold writeWord
  split
  · exact Or.inl ⟨_, rfl⟩
  · exact Or.inr rfl

/-- `init_paging` leaves the variables as it does with direct accesses, whether
or not the store of the recursive entry goes through. -/
theorem initPaging_outcome (tr : Translation) (L : Layout) (m : Mem) :
    ∃ m', initPaging tr L (bootMachine L m) = .ok () { initMachine L m with mem := m' } ∨
      ∃ e, initPaging tr L (bootMachine L m) = .error e { initMachine L m with mem := m' } := by
  unfold initPaging bootMachine
  rw [frameAddr_directory, modify_bind, get_bind, modify_bind]
  dsimp only
  rcases writeWord_outcome tr (p2v (frameAddr L.directoryFrame) + 4#32 * 1023#32)
    (v2p (p2v (frameAddr L.directoryFrame)) ||| pagePresent ||| pageWrite) {
      mem := m
      cr3 := frameAddr L.directoryFrame
      frameBitmap := initFrames L
      kernelPageDirectory := p2v (frameAddr L.directoryFrame)
      currentPageDirectory := p2v (frameAddr L.directoryFrame) } with ⟨m', hw⟩ | hw
  · exact ⟨m', Or.inl (by rw [bind_ok hw]; rfl)⟩
  · exact ⟨m, Or.inr ⟨_, bind_error hw⟩⟩

theorem booked_start (tr : Translation) (L : Layout) (m : Mem) : Booked L (start tr L m) := by
  have hbooks : ∀ (m' : Mem) (fault : Option Addr), Booked L
      { machine := { initMachine L m with mem := m' }, live := ∅, tables := ∅,
        mapping := fun _ => none, fault := fault } := by
    intro m' fault
    refine ⟨rfl, rfl, ?_, fun a ha => absurd ha (Finset.notMem_empty a)⟩
    show RedOS.reserved L ⊆ marked (initFrames L)
    rw [marked_initFrames]
  obtain ⟨m', hok | ⟨e, herror⟩⟩ := initPaging_outcome tr L m
  · rw [start, hok]
    exact hbooks m' none
  · rw [start, herror]
    exact hbooks m' (some e.addr)

theorem booked_run {m : Mem} {ops : List Op} (hrun : run (exec tr) (start tr L m) ops = some s) :
    Booked L s :=
  run_keeps (fun _ _ _ hs hexec => hs.step hexec) (booked_start tr L m) hrun

end Booked

/-! ## Rights -/

/-- The walk of `v` is present, on the frame of `physAddr`, and grants what
`flags` asks for and no more. -/
def EffectiveRights (m : Mem) (d : Nat) (virtAddr physAddr flags : BitVec 32) : Prop :=
  pageWalk m d virtAddr = some {
    frame := frameOf physAddr
    writable := decide (Grants flags pageWrite)
    user := decide (Grants flags pageUser) }

/-- The directory entry that `virtAddr` will be walked through grants what
`flags` asks for; `m` is the memory before the call.  The three cases are a new
table, a table entry that is its own directory entry, and any other. -/
def RightsGranted (m : Mem) (d : Nat) (virtAddr physAddr flags : BitVec 32) : Prop :=
  let grantsAll (e : BitVec 32) : Prop :=
    (Grants flags pageWrite → Grants e pageWrite) ∧ (Grants flags pageUser → Grants e pageUser)
  let pde := entry m d (slot virtAddr)
  if ¬ Present pde then ¬ Grants flags pageUser
  else if frameOf pde = d ∧ index virtAddr = slot virtAddr then
    let pte := entry m (frameOf physAddr) (index virtAddr)
    frameOf physAddr = d ∨ Present pte ∧ frameOf pte = frameOf physAddr ∧ grantsAll pte
  else grantsAll pde

theorem pageEntry_frame (p fl : BitVec 32) : frameOf (pageEntry p fl) = frameOf p := by
  rw [pageEntry, BitVec.or_assoc]
  exact frameOf_or_flags p _ (flags_and_frameMask fl)

theorem pageEntry_present (p fl : BitVec 32) : Present (pageEntry p fl) := present_or_one _

/-- The two rights are stored as the flags have them. -/
theorem pageEntry_grants (p fl : BitVec 32) {right : BitVec 32}
    (hr : right = pageWrite ∨ right = pageUser) : Grants (pageEntry p fl) right ↔ Grants fl right := by
  have hmask : frameMask &&& right = 0#32 ∧ 0xFFF#32 &&& right = right ∧
      pagePresent &&& right = 0#32 := by
    rcases hr with rfl | rfl
    · decide
    · decide
  obtain ⟨hframe, hflags, hpresent⟩ := hmask
  have hbits : pageEntry p fl &&& right = fl &&& right := by
    rw [pageEntry, BitVec.and_or_distrib_right, BitVec.and_or_distrib_right, BitVec.and_assoc,
      BitVec.and_assoc, hframe, hflags, hpresent, BitVec.and_zero, BitVec.zero_or, BitVec.or_zero]
  rw [Grants, Grants, hbits]

/-- A table hung up by `get_page_table` grants stores and not user mode. -/
theorem bootEntry_grants (k : Nat) :
    Grants (bootEntry k) pageWrite ∧ ¬ Grants (bootEntry k) pageUser := by
  rw [Grants, Grants, bootEntry_and k (by decide), bootEntry_and k (by decide)]
  decide

/-- The stored entry behind `pde` grants the flags exactly if `pde` does. -/
theorem pageOf_flags (pde p fl : BitVec 32) :
    pageOf pde (pageEntry p fl) = {
        frame := frameOf p
        writable := decide (Grants fl pageWrite)
        user := decide (Grants fl pageUser) } ↔
      (Grants fl pageWrite → Grants pde pageWrite) ∧ (Grants fl pageUser → Grants pde pageUser) := by
  have hw := pageEntry_grants p fl (Or.inl rfl)
  have hu := pageEntry_grants p fl (Or.inr rfl)
  have hwrite : writeBit = pageWrite := rfl
  have huser : userBit = pageUser := rfl
  rw [pageOf, Page.mk.injEq, decide_eq_decide, decide_eq_decide, hwrite, huser, hw, hu,
    pageEntry_frame, and_iff_right_iff_imp, and_iff_right_iff_imp]
  exact ⟨fun h => h.2, fun h => ⟨rfl, h⟩⟩

/-- ... and as a directory entry it adds nothing to what `pte` grants. -/
theorem pageOf_entry (pte p fl : BitVec 32) :
    pageOf (pageEntry p fl) pte = {
        frame := frameOf p
        writable := decide (Grants fl pageWrite)
        user := decide (Grants fl pageUser) } ↔
      frameOf pte = frameOf p ∧
        (Grants fl pageWrite → Grants pte pageWrite) ∧ (Grants fl pageUser → Grants pte pageUser) := by
  have hw := pageEntry_grants p fl (Or.inl rfl)
  have hu := pageEntry_grants p fl (Or.inr rfl)
  have hwrite : writeBit = pageWrite := rfl
  have huser : userBit = pageUser := rfl
  rw [pageOf, Page.mk.injEq, decide_eq_decide, decide_eq_decide, hwrite, huser, hw, hu,
    and_iff_left_iff_imp, and_iff_left_iff_imp]

section Rights

variable {m : Mem} {d : Nat} {v p fl : BitVec 32}

/-- Through a table that is not the directory, or at another index. -/
theorem rights_table (hd : d < 2 ^ 20) (hp : Present (entry m d (slot v)))
    (hother : ¬ (tableOf m d v = d ∧ index v = slot v)) :
    EffectiveRights (setEntry m (tableOf m d v) (index v) (pageEntry p fl)) d v p fl ↔
      RightsGranted m d v p fl := by
  have ht20 := tableOf_lt m d v
  have hdir : entry (setEntry m (tableOf m d v) (index v) (pageEntry p fl)) d (slot v)
      = entry m d (slot v) := by
    rw [entry_setEntry m _ ht20 (index_lt v) hd (slot_lt v), if_neg]
    exact fun h => hother ⟨h.1.symm, h.2.symm⟩
  have htab : entry (setEntry m (tableOf m d v) (index v) (pageEntry p fl))
      (frameOf (entry m d (slot v))) (index v) = pageEntry p fl := by
    rw [entry_setEntry m _ ht20 (index_lt v) (frameOf_lt _) (index_lt v)]
    exact if_pos ⟨rfl, rfl⟩
  have hwalk := pageWalk_of_entries hdir hp htab (pageEntry_present p fl)
  rw [EffectiveRights, hwalk, Option.some.injEq, pageOf_flags, RightsGranted]
  dsimp only
  rw [if_neg (not_not.mpr hp), if_neg (show ¬ (frameOf (entry m d (slot v)) = d ∧ _) from hother)]

/-- The entry stored is the directory entry of `v` itself. -/
theorem rights_self (hd : d < 2 ^ 20) (hp : Present (entry m d (slot v)))
    (hself : tableOf m d v = d ∧ index v = slot v) :
    EffectiveRights (setEntry m (tableOf m d v) (index v) (pageEntry p fl)) d v p fl ↔
      RightsGranted m d v p fl := by
  obtain ⟨htd, hidx⟩ := hself
  have hent : ∀ f, f < 2 ^ 20 → entry (setEntry m d (slot v) (pageEntry p fl)) f (slot v)
      = if f = d then pageEntry p fl else entry m f (slot v) := by
    intro f hf
    rw [entry_setEntry m _ hd (slot_lt v) hf (slot_lt v)]
    simp only [and_true]
  have hdir := hent d hd
  rw [if_pos rfl] at hdir
  have hcond : frameOf (entry m d (slot v)) = d ∧ index v = slot v := ⟨htd, hidx⟩
  rw [EffectiveRights, RightsGranted, htd]
  dsimp only
  rw [if_neg (not_not.mpr hp), if_pos hcond, hidx]
  by_cases hpd : frameOf p = d
  · have htab : entry (setEntry m d (slot v) (pageEntry p fl)) (frameOf (pageEntry p fl)) (index v)
        = pageEntry p fl := by
      rw [hidx, hent _ (frameOf_lt _), pageEntry_frame, if_pos hpd]
    have hwalk := pageWalk_of_entries hdir (pageEntry_present p fl) htab (pageEntry_present p fl)
    rw [hwalk, Option.some.injEq, pageOf_flags]
    refine iff_of_true ⟨?_, ?_⟩ (Or.inl hpd)
    · intro h
      exact (pageEntry_grants p fl (Or.inl rfl)).mpr h
    · intro h
      exact (pageEntry_grants p fl (Or.inr rfl)).mpr h
  · have htab : entry (setEntry m d (slot v) (pageEntry p fl)) (frameOf (pageEntry p fl)) (index v)
        = entry m (frameOf p) (slot v) := by
      rw [hidx, hent _ (frameOf_lt _), pageEntry_frame, if_neg hpd]
    by_cases he : Present (entry m (frameOf p) (slot v))
    · have hwalk := pageWalk_of_entries hdir (pageEntry_present p fl) htab he
      rw [hwalk, Option.some.injEq, pageOf_entry]
      exact ⟨fun h => Or.inr ⟨he, h⟩, fun h => (h.resolve_left hpd).2⟩
    · refine iff_of_false (?_) fun h => he (h.resolve_left hpd).1
      intro h
      have hboth := (pageWalk_present h).2
      rw [tableOf, hdir, htab] at hboth
      exact he hboth

/-- Through the table created for an empty slot. -/
theorem rights_newTable (hd : d < 2 ^ 20) {k : Nat} (hk : k < 2 ^ 20) (hkd : k ≠ d)
    (hp : ¬ Present (entry m d (slot v))) :
    EffectiveRights (setEntry (setEntry (zeroFrame m k) d (slot v) (bootEntry k)) k (index v)
      (pageEntry p fl)) d v p fl ↔ RightsGranted m d v p fl := by
  have hdir : entry (setEntry (setEntry (zeroFrame m k) d (slot v) (bootEntry k)) k (index v)
      (pageEntry p fl)) d (slot v) = bootEntry k := by
    rw [entry_setEntry _ _ hk (index_lt v) hd (slot_lt v), if_neg fun h => hkd h.1.symm,
      entry_setEntry _ _ hd (slot_lt v) hd (slot_lt v), if_pos ⟨rfl, rfl⟩]
  have htab : entry (setEntry (setEntry (zeroFrame m k) d (slot v) (bootEntry k)) k (index v)
      (pageEntry p fl)) (frameOf (bootEntry k)) (index v) = pageEntry p fl := by
    rw [frameOf_bootEntry hk, entry_setEntry _ _ hk (index_lt v) hk (index_lt v), if_pos ⟨rfl, rfl⟩]
  have hwalk := pageWalk_of_entries hdir (present_bootEntry k) htab (pageEntry_present p fl)
  obtain ⟨hwrite, huser⟩ := bootEntry_grants k
  rw [EffectiveRights, hwalk, Option.some.injEq, pageOf_flags, RightsGranted]
  dsimp only
  rw [if_pos hp]
  constructor
  · exact fun h hu => huser (h.2 hu)
  · exact fun h => ⟨fun _ => hwrite, fun hu => absurd hu h⟩

end Rights

section Success

variable {tr : Translation} {s : Machine} {d : Nat} {v : Addr}

/-- **What a successful call leaves.** -/
theorem mapPageToFrame_rights (p fl : BitVec 32) (hd : d ∈ marked s.frameBitmap)
    (hdir : s.currentPageDirectory = p2v (frameAddr d)) (hzero : 0 ∈ marked s.frameBitmap)
    (hopens : Opens tr d s (.map v p fl)) (hgot : tableGot tr v true s ≠ 0#32) :
    ∃ s', mapPageToFrame tr v p fl s = .ok () s' ∧
      (EffectiveRights s'.mem d v p fl ↔ RightsGranted s.mem d v p fl) := by
  obtain ⟨hreach, htable, hfresh⟩ := hopens
  have hd20 : d < 2 ^ 20 := by
    have := lt_of_mem_marked hd
    unfold totalFrames at this
    omega
  by_cases hp : Present (entry s.mem d (slot v))
  · rw [tableGot_of_ok (getPageTable_present hdir hreach hp)] at hgot
    refine ⟨_, mapPageToFrame_present p fl hdir hreach hp hgot (htable hp), ?_⟩
    rw [Machine.put_mem]
    by_cases hself : tableOf s.mem d v = d ∧ index v = slot v
    · exact rights_self hd20 hp hself
    · exact rights_table hd20 hp hself
  · rcases fresh_or_full hzero with ⟨k, hk⟩ | hfull
    · obtain ⟨hstable, hdir', hnew⟩ := hfresh hp k hk
      have hkd : k ≠ d := fun heq => hk.unmarked (heq ▸ hd)
      refine ⟨_, mapPageToFrame_fresh p fl hdir hreach hp hk.lt_addresses hk.addr_ne_zero
        (p2v_frameAddr_ne_zero hk.lt) hk.addr hstable hdir' hnew, ?_⟩
      exact rights_newTable hd20 hk.lt_addresses hkd hp
    · rw [tableGot_of_ok (getPageTable_full hdir hreach hp hfull.alloc)] at hgot
      exact absurd rfl hgot

end Success

section Rights

variable {L : Layout} {m : Mem} {s : Sys} {ops : List Op} {tr : Translation} {v : Addr}

/-- While only user slots are mapped, every directory entry is one that
`get_page_table` wrote, and user mode is what is missing. -/
theorem Inv.rightsGranted_iff (h : Inv L s) (p fl : BitVec 32) (hv : User v) :
    RightsGranted s.machine.mem L.directoryFrame v p fl ↔ ¬ Grants fl pageUser := by
  unfold RightsGranted
  by_cases hp : Present (entry s.machine.mem L.directoryFrame (slot v))
  · obtain ⟨htable, hentry⟩ := h.mapped.table_mem hv hp
    obtain ⟨ht20, htd, -⟩ := h.mapped.apart _ htable
    obtain ⟨hwrite, huser⟩ := bootEntry_grants _
    have hother : ¬ (frameOf (entry s.machine.mem L.directoryFrame (slot v)) = L.directoryFrame ∧
        index v = slot v) := fun hself => htd hself.1
    dsimp only
    rw [if_neg (not_not.mpr hp), if_neg hother, hentry]
    constructor
    · exact fun hall hu => huser (hall.2 hu)
    · exact fun hno => ⟨fun _ => hwrite, fun hu => absurd hu hno⟩
  · dsimp only
    rw [if_pos hp]

/-- The first mapping of a small kernel gets frame 267 as its table. -/
theorem first_mapping (p fl : BitVec 32) (hv : User v) (hm : smallMem = m) :
    Opens mmu Layout.small.directoryFrame (start mmu Layout.small m).machine (.map v p fl) ∧
      tableGot mmu v true (start mmu Layout.small m).machine ≠ 0#32 ∧
      ¬ Present (entry (start mmu Layout.small m).machine.mem Layout.small.directoryFrame (slot v)) := by
  have hboot : BootTables Layout.small m := hm ▸ bootTables_small
  have hr : Reaches mmu m (frameAddr Layout.small.directoryFrame) Layout.small.directoryFrame :=
    hboot.directMap.reaches_directory
  have hfit := fitInv_start hboot
  have hstart := start_eq hr
  generalize start mmu Layout.small m = s₀ at hfit hstart ⊢
  have habsent : ¬ Present (entry s₀.machine.mem Layout.small.directoryFrame (slot v)) := by
    have hmapped := hfit.inv.mapped
    have htables : s₀.tables = ∅ := by rw [hstart]
    rw [htables] at hmapped
    exact hmapped.absent_of_no_tables hv
  have hmarked : ∀ f, f ∈ marked s₀.machine.frameBitmap ↔ f < 267 := by
    rw [hstart]
    exact marked_small
  have hk := fresh_of_leastFree hfit.inv.founded.zero (leastFree_of_below (by decide) hmarked)
  obtain ⟨⟨-, halloc, htable⟩, -⟩ := hfit.map_fresh (by decide) hmarked p fl hv habsent
  have hopens : Opens mmu Layout.small.directoryFrame s₀.machine (.map v p fl) :=
    hfit.inv.opens_mmu hfit.direct hv.below halloc htable
  refine ⟨hopens, ?_, habsent⟩
  obtain ⟨hreach, -, hfresh⟩ := hopens
  obtain ⟨hstable, hdir', -⟩ := hfresh habsent _ hk
  rw [tableGot_of_ok (getPageTable_fresh hfit.inv.dir hreach habsent hk.lt_addresses
    hk.addr_ne_zero hk.addr hstable hdir')]
  exact p2v_frameAddr_ne_zero hk.lt

end Rights

end RedOS
