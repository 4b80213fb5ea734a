/-
# `RedOS.Boot.PagingLog` — what the log of `paging.c` tells

The messages each paging call logs, and a reader who keeps a ledger from them:
the frames handed out and not taken back, and what is mapped where.  The
messages up to `DEBUG_LEVEL_DEBUG`, the level `kernel_main` sets, are enough
(`log_tells`): the ledger has the frames the bitmap has marked and the
translations the page tables make.

    Op.messages          the messages of a call
    Ledger.read          what the reader writes down
    Inv.read_messages    one call
-/
import RedOS.Boot.KernelMain
import RedOS.Paging.Rights

namespace RedOS

open ByteMemory X86Paging Runs

/-! ## The messages -/

/-- of `set_frame` -/
def setFrameMessages (frameAddr : Addr) : List PagingMessage :=
  let idx := frameAddr / 4096#32 / 32#32
  if idx.toNat < 512 then [] else [.setFrameOutOfBounds idx]

/-- of `clear_frame` -/
def clearFrameMessages (frameAddr : Addr) : List PagingMessage :=
  let idx := frameAddr / 4096#32 / 32#32
  if idx.toNat < 512 then [] else [.clearFrameOutOfBounds idx]

/-- of `first_free_frame` -/
def firstFreeFrameMessages (b : Bitmap) : List PagingMessage :=
  if firstFreeFrame b = 0xFFFFFFFF#32 then [.noFreeFrames] else []

/-- of `alloc_frame` -/
def allocFrameMessages (b : Bitmap) : List PagingMessage :=
  let frame := firstFreeFrame b
  firstFreeFrameMessages b ++
    if frame = 0xFFFFFFFF#32 then []
    else .allocatedFrame (frame * 4096#32) :: setFrameMessages (frame * 4096#32)

/-- of `free_frame` -/
def freeFrameMessages (frameAddr : Addr) : List PagingMessage :=
  .freeingFrame frameAddr :: clearFrameMessages frameAddr

section Calls

variable (tr : Translation)

/-- of a `get_page_table` that returns -/
def getPageTableMessages (virtAddr : Addr) (create : Bool) (s : Machine) : List PagingMessage :=
  match readWord tr (s.currentPageDirectory + 4#32 * (virtAddr >>> 22)) s with
  | .error _ _ => []
  | .ok pde _ =>
      if Present pde then [.existingPageTable (pde &&& frameMask) virtAddr]
      else if create then
        let pageTableAddr := (allocFrame s.frameBitmap).1
        allocFrameMessages s.frameBitmap ++
          if pageTableAddr = 0#32 then [.failedToAllocate virtAddr]
          else [.createdPageTable pageTableAddr virtAddr]
      else []

/-- of a call that returns -/
def Op.messages (s : Machine) : Op → List PagingMessage
  | .kmalloc => allocFrameMessages s.frameBitmap
  | .kfree a => if a = 0#32 then [] else freeFrameMessages a
  | .map v p fl => .mapping v p fl :: (getPageTableMessages tr v true s ++
      [if tableGot tr v true s = 0#32 then .failedToGetTable v else .mapped v p])
  | .unmap v => .unmapping v :: (getPageTableMessages tr v false s ++
      [if tableGot tr v false s = 0#32 then .tableNotFound v else .unmapped v])

structure Logged where
  sys : Sys
  /-- The messages of the calls that returned. -/
  log : List PagingMessage

def execLogged (s : Logged) (op : Op) : Option Logged :=
  (exec tr s.sys op).map fun t =>
    ⟨t, s.log ++ if t.fault = none then op.messages tr s.sys.machine else []⟩

end Calls

/-- `debug_format_and_write` returns at once where the level is above `debug_level`. -/
def PagingMessage.level (m : PagingMessage) : Int :=
  match m.call with
  | .log level _ _ => level
  | .setTarget _ | .setLevel _ | .enableSerial _ => 0

/-- No complaint about a frame outside the bitmap. -/
def PagingMessage.InBounds : PagingMessage → Prop
  | .setFrameOutOfBounds _ | .clearFrameOutOfBounds _ => False
  | _ => True

/-- Neither an error nor a warning. -/
def PagingMessage.Calm : PagingMessage → Prop
  | .setFrameOutOfBounds _ | .clearFrameOutOfBounds _ | .noFreeFrames | .failedToAllocate _
  | .failedToGetTable _ | .tableNotFound _ => False
  | _ => True

structure Ledger where
  /-- Frames handed out and not taken back. -/
  taken : Finset Nat
  mapping : Nat → Option Addr
  /-- `mapping` as it was before the latest attempt. -/
  before : Nat → Option Addr

def Ledger.empty : Ledger := ⟨∅, fun _ => none, fun _ => none⟩

def Ledger.read (l : Ledger) : PagingMessage → Ledger
  | .allocatedFrame frame => { l with taken := insert (frameOf frame) l.taken }
  | .freeingFrame frame => { l with taken := l.taken.erase (frameOf frame) }
  | .mapping virt phys _ => { l with
      mapping := Function.update l.mapping (frameOf virt) (some phys)
      before := l.mapping }
  | .failedToGetTable _ => { l with mapping := l.before }
  | .unmapping virt => { l with mapping := Function.update l.mapping (frameOf virt) none }
  | _ => l

def Ledger.readAll (l : Ledger) (log : List PagingMessage) : Ledger := log.foldl Ledger.read l

/-- The ledger is right about the system. -/
structure Ledger.Matches (l : Ledger) (s : Sys) : Prop where
  taken : l.taken = livePages s.live ∪ s.tables
  mapping : l.mapping = s.mapping

theorem Ledger.Matches.update {l : Ledger} {s : Sys} (h : l.Matches s) (n : Nat) (o : Option Addr) :
    Function.update l.mapping n o = Function.update s.mapping n o := by
  rw [h.mapping]

section Cases

variable {tr : Translation} {b : Bitmap} {k d : Nat} {s : Machine} {v : Addr}

theorem index_in_bounds {a : Addr} (h : frameOf a < totalFrames) :
    (a / 4096#32 / 32#32).toNat < 512 := by
  rw [(frame_index a).1]
  unfold totalFrames at h
  omega

theorem allocFrameMessages_fresh (hk : Fresh b k) :
    allocFrameMessages b = [.allocatedFrame (frameAddr k)] := by
  have haddr := hk.addr
  have hne := hk.addr_ne_zero
  unfold allocFrame at haddr
  by_cases hfull : firstFreeFrame b = 0xFFFFFFFF#32
  · rw [if_pos hfull] at haddr
    exact absurd haddr.symm hne
  · rw [if_neg hfull] at haddr
    have hframe : frameOf (firstFreeFrame b * 4096#32) < totalFrames := by
      rw [show firstFreeFrame b * 4096#32 = frameAddr k from haddr, frameOf_frameAddr hk.lt_addresses]
      exact hk.lt
    unfold allocFrameMessages firstFreeFrameMessages setFrameMessages
    simp only [if_neg hfull, if_pos (index_in_bounds hframe)]
    rw [show firstFreeFrame b * 4096#32 = frameAddr k from haddr]
    rfl

theorem allocFrameMessages_full (hfull : Full b) : allocFrameMessages b = [.noFreeFrames] := by
  have hnone : PackedSet.firstClear b = none :=
    PackedSet.firstClear_eq_none.mpr fun f hf => mem_marked.mp (hfull.all f hf)
  have hframe : firstFreeFrame b = 0xFFFFFFFF#32 := by
    rw [firstFreeFrame_eq, hnone]
    rfl
  unfold allocFrameMessages firstFreeFrameMessages
  simp only [if_pos hframe, List.append_nil]

theorem freeFrameMessages_marked {a : Addr} (h : frameOf a < totalFrames) :
    freeFrameMessages a = [.freeingFrame a] := by
  unfold freeFrameMessages clearFrameMessages
  simp only [if_pos (index_in_bounds h)]

theorem getPageTableMessages_present {create : Bool}
    (hdir : s.currentPageDirectory = p2v (frameAddr d)) (hd : Reaches tr s.mem s.cr3 d)
    (hp : Present (entry s.mem d (slot v))) :
    getPageTableMessages tr v create s = [.existingPageTable (frameAddr (tableOf s.mem d v)) v] := by
  unfold getPageTableMessages
  rw [readWord_directory v hdir hd]
  simp only [if_pos hp, and_frameMask_eq]
  rfl

theorem getPageTableMessages_absent (hdir : s.currentPageDirectory = p2v (frameAddr d))
    (hd : Reaches tr s.mem s.cr3 d) (hp : ¬ Present (entry s.mem d (slot v))) :
    getPageTableMessages tr v false s = [] := by
  unfold getPageTableMessages
  rw [readWord_directory v hdir hd]
  simp only [if_neg hp, Bool.false_eq_true, if_false]

theorem getPageTableMessages_full (hdir : s.currentPageDirectory = p2v (frameAddr d))
    (hd : Reaches tr s.mem s.cr3 d) (hp : ¬ Present (entry s.mem d (slot v)))
    (hfull : Full s.frameBitmap) :
    getPageTableMessages tr v true s = [.noFreeFrames, .failedToAllocate v] := by
  unfold getPageTableMessages
  rw [readWord_directory v hdir hd]
  simp only [if_neg hp, if_true, allocFrameMessages_full hfull, hfull.alloc]
  rfl

theorem getPageTableMessages_fresh (hdir : s.currentPageDirectory = p2v (frameAddr d))
    (hd : Reaches tr s.mem s.cr3 d) (hp : ¬ Present (entry s.mem d (slot v)))
    (hk : Fresh s.frameBitmap k) :
    getPageTableMessages tr v true s
      = [.allocatedFrame (frameAddr k), .createdPageTable (frameAddr k) v] := by
  unfold getPageTableMessages
  rw [readWord_directory v hdir hd]
  simp only [if_neg hp, if_true, allocFrameMessages_fresh hk, hk.addr, if_neg hk.addr_ne_zero]
  rfl

end Cases

/-! ## Calls -/

section Runs

variable {tr : Translation} {L : Layout} {m : Mem} {s s' : Sys} {op : Op} {l : Ledger}

/-- **The messages of a call say what it does**, none is about a frame outside the
bitmap, and there is a complaint only where a frame or a table is missing. -/
theorem Inv.read_messages (h : Inv L s) (hl : l.Matches s) (hop : op.At Below)
    (hopens : Opens tr L.directoryFrame s.machine op) (hstep : Step L.directoryFrame s op s') :
    (l.readAll (op.messages tr s.machine)).Matches s' ∧
      (∀ m ∈ op.messages tr s.machine, m.InBounds) ∧
      ((Allocates L s op → ¬ Full s.machine.frameBitmap) →
        (∀ v, op = .unmap v → Present (entry s.machine.mem L.directoryFrame (slot v))) →
        ∀ m ∈ op.messages tr s.machine, m.Calm) := by
  cases hstep with
  | kmallocFull hfull =>
      rw [Op.messages, allocFrameMessages_full hfull]
      refine ⟨hl, by simp [PagingMessage.InBounds], ?_⟩
      intro hroom
      exact absurd hfull (hroom trivial)
  | @kmallocFresh k hk =>
      rw [Op.messages, allocFrameMessages_fresh hk]
      refine ⟨⟨?_, hl.mapping⟩, by simp [PagingMessage.InBounds], by simp [PagingMessage.Calm]⟩
      show insert (frameOf (frameAddr k)) l.taken = livePages (insert (frameAddr k) s.live) ∪ s.tables
      rw [frameOf_frameAddr hk.lt_addresses, hl.taken, livePages_insert _ hk.lt_addresses,
        Finset.insert_union]
  | kfreeNull =>
      rw [Op.messages, if_pos rfl]
      exact ⟨hl, by simp, by simp⟩
  | @kfree a ha hmem =>
      have hpage : frameOf a ∈ livePages s.live := Finset.mem_image_of_mem _ hmem
      have htab : frameOf a ∉ s.tables := Finset.disjoint_left.mp h.owned.live_tables hpage
      have hbound := lt_of_mem_marked (h.owned.live_subset hpage)
      rw [Op.messages, if_neg ha, freeFrameMessages_marked hbound]
      refine ⟨⟨?_, hl.mapping⟩, by simp [PagingMessage.InBounds], by simp [PagingMessage.Calm]⟩
      show l.taken.erase (frameOf a) = livePages (s.live.erase a) ∪ s.tables
      rw [hl.taken, h.owned.livePages_erase hmem, Finset.erase_union_distrib,
        Finset.erase_eq_of_notMem htab]
  | @mapTable v p fl hp =>
      have hgot := p2v_frameAddr_ne_zero (h.founded.table v hop hp)
      rw [Op.messages, getPageTableMessages_present h.dir hopens.1 hp,
        tableGot_of_ok (getPageTable_present h.dir hopens.1 hp), if_neg hgot]
      refine ⟨⟨hl.taken, ?_⟩, by simp [PagingMessage.InBounds], by simp [PagingMessage.Calm]⟩
      exact hl.update (frameOf v) (some p)
  | @mapFull v p fl hp hfull =>
      rw [Op.messages, getPageTableMessages_full h.dir hopens.1 hp hfull,
        tableGot_of_ok (getPageTable_full h.dir hopens.1 hp hfull.alloc), if_pos rfl]
      -- the attempt is taken back
      refine ⟨⟨hl.taken, hl.mapping⟩, by simp [PagingMessage.InBounds], ?_⟩
      intro hroom
      exact absurd hfull (hroom hp)
  | @mapFresh v p fl k hp hk =>
      obtain ⟨hkr, hd', -⟩ := hopens.2.2 hp k hk
      rw [Op.messages, getPageTableMessages_fresh h.dir hopens.1 hp hk,
        tableGot_of_ok (getPageTable_fresh h.dir hopens.1 hp hk.lt_addresses hk.addr_ne_zero hk.addr
          hkr hd'), if_neg (p2v_frameAddr_ne_zero hk.lt)]
      refine ⟨⟨?_, ?_⟩, by simp [PagingMessage.InBounds], by simp [PagingMessage.Calm]⟩
      · show insert (frameOf (frameAddr k)) l.taken = livePages s.live ∪ insert k s.tables
        rw [frameOf_frameAddr hk.lt_addresses, hl.taken, Finset.union_insert]
      · exact hl.update (frameOf v) (some p)
  | @unmapTable v hp =>
      have hgot := p2v_frameAddr_ne_zero (h.founded.table v hop hp)
      rw [Op.messages, getPageTableMessages_present h.dir hopens.1 hp,
        tableGot_of_ok (getPageTable_present h.dir hopens.1 hp), if_neg hgot]
      refine ⟨⟨hl.taken, ?_⟩, by simp [PagingMessage.InBounds], by simp [PagingMessage.Calm]⟩
      exact hl.update (frameOf v) none
  | @unmapAbsent v hp =>
      rw [Op.messages, getPageTableMessages_absent h.dir hopens.1 hp,
        tableGot_of_ok (getPageTable_absent h.dir hopens.1 hp), if_pos rfl]
      refine ⟨⟨hl.taken, ?_⟩, by simp [PagingMessage.InBounds], ?_⟩
      · exact hl.update (frameOf v) none
      · intro _ htable
        exact absurd (htable v rfl) hp

/-- The kernel is sound, and the ledger kept from the log is right. -/
structure LogInv (L : Layout) (s : Logged) : Prop where
  inv : Inv L s.sys
  fault : s.sys.fault = none
  ledger : (Ledger.empty.readAll s.log).Matches s.sys
  bounds : ∀ m ∈ s.log, m.InBounds

theorem LogInv.step {s s' : Logged} (h : LogInv L s) (hop : op.At Below)
    (hopens : Opens tr L.directoryFrame s.sys.machine op) (hexec : execLogged tr s op = some s') :
    LogInv L s' := by
  obtain ⟨t, ht, rfl⟩ := Option.map_eq_some_iff.mp hexec
  obtain ⟨u, hstep, hu⟩ := exec_step h.inv.founded hop h.fault (allows_of_exec h.fault ht)
  obtain rfl := Option.some.inj ((hu tr hopens).symm.trans ht)
  have hfault := hstep.books.1.trans h.fault
  obtain ⟨hread, hbounds, -⟩ := h.inv.read_messages h.ledger hop hopens hstep
  rw [if_pos hfault]
  refine ⟨h.inv.step hop hstep, hfault, ?_, ?_⟩
  · show (Ledger.empty.readAll (s.log ++ op.messages tr s.sys.machine)).Matches _
    rw [Ledger.readAll, List.foldl_append]
    exact hread
  · intro m hm
    rcases List.mem_append.mp hm with hm | hm
    · exact h.bounds m hm
    · exact hbounds m hm

end Runs

end RedOS
