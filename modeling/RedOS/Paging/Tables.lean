/-
# `RedOS.Paging.Tables` — the operations of `paging.c` on physical memory

`Kernel` is a state and page-fault monad over the machine: the physical memory,
`cr3`, and the variables of `paging.c`.  The C code touches memory only through
pointers obtained with `P2V`, and what such an access reaches is a parameter,

    direct    P2V(x) is physical x
    mmu       the pointer is walked through the tables `cr3` points to

so that the same functions are read once as the idealised and once as the real
kernel.  Left out: the `debug_*` and `printf` messages, and `invlpg`, which no
walk of memory can see.

`Reaches tr m cr3 f` says that the window `P2V` opens on frame `f` is the frame
itself; under it every access of the functions below is an access to `entry`s
of frames, and each function has one equation per branch.
-/
import RedOS.Boot.DirectMap
import RedOS.Paging.Frames

namespace RedOS

open ByteMemory X86Paging

structure Machine where
  /-- physical memory -/
  mem : Mem
  cr3 : Addr
  frameBitmap : Bitmap
  kernelPageDirectory : Addr
  currentPageDirectory : Addr

/-- The access to `addr` faulted; no handler is installed. -/
structure PageFault where
  addr : Addr

abbrev Kernel := EStateM PageFault Machine

/-- Memory and `cr3` to the physical address a pointer reaches. -/
abbrev Translation := Mem → Addr → Addr → Option Addr

/-- `P2V` -/
def p2v (addr : Addr) : Addr := addr + kernelVirtualBase

/-- `V2P` -/
def v2p (addr : Addr) : Addr := addr - kernelVirtualBase

/-- `PAGE_PRESENT` -/
def pagePresent : BitVec 32 := 0x001#32

/-- `PAGE_WRITE` -/
def pageWrite : BitVec 32 := 0x002#32

/-- `PAGE_USER` -/
def pageUser : BitVec 32 := 0x004#32

/-- Accesses through `P2V(x)` are accesses to physical `x`. -/
def direct : Translation := fun _ _ v => some (v2p v)

/-- Accesses go through the page tables. -/
def mmu : Translation := walk

section Operations

variable (tr : Translation)

/-! ## Accesses -/

def readWord (p : Addr) : Kernel (BitVec 32) := fun s =>
  match tr s.mem s.cr3 p with
  | some q => .ok (load32 s.mem q) s
  | none => .error ⟨p⟩ s

def writeWord (p : Addr) (x : BitVec 32) : Kernel Unit := fun s =>
  match tr s.mem s.cr3 p with
  | some q => .ok () { s with mem := store32 s.mem q x }
  | none => .error ⟨p⟩ s

def writeByte (p : Addr) (b : BitVec 8) : Kernel Unit := fun s =>
  match tr s.mem s.cr3 p with
  | some q => .ok () { s with mem := store8 s.mem q b }
  | none => .error ⟨p⟩ s

/-- `memset`, the byte loop in ascending order. -/
def memset (p : Addr) (b : BitVec 8) : Nat → Kernel Unit
  | 0 => pure ()
  | n + 1 => do
      memset p b n
      writeByte tr (p + BitVec.ofNat 32 n) b

/-! ## The functions of `paging.c` -/

/-- `alloc_frame` -/
def allocFrameM : Kernel Addr := fun s =>
  .ok (allocFrame s.frameBitmap).1 { s with frameBitmap := (allocFrame s.frameBitmap).2 }

/-- `get_page_table`: the pointer to the table, 0 for `NULL`. -/
def getPageTable (virtAddr : Addr) (create : Bool) : Kernel Addr := do
  let s ← get
  let pdindex := virtAddr >>> 22
  -- Check if the page table already exists
  let pde ← readWord tr (s.currentPageDirectory + 4#32 * pdindex)
  if Present pde then
    pure (p2v (pde &&& frameMask))
  else if create then do
    let pageTableAddr ← allocFrameM
    if pageTableAddr = 0#32 then
      pure 0#32
    else do
      -- Clear the new page table
      memset tr (p2v pageTableAddr) 0#8 pageSize
      -- Add the page table to the page directory
      writeWord tr (s.currentPageDirectory + 4#32 * pdindex)
        (pageTableAddr ||| pagePresent ||| pageWrite)
      pure (p2v pageTableAddr)
  else pure 0#32

/-- `init_paging` -/
def initPaging (L : Layout) : Kernel Unit := do
  modify fun s => { s with frameBitmap := initFrames L }
  -- Get the current page directory from CR3
  let s ← get
  let cr3Value := s.cr3
  let dir := p2v cr3Value
  modify fun s => { s with kernelPageDirectory := dir, currentPageDirectory := dir }
  -- Set up recursive page directory entry
  writeWord tr (dir + 4#32 * 1023#32) (v2p dir ||| pagePresent ||| pageWrite)
  -- Update the page directory
  modify fun s => { s with cr3 := cr3Value }

/-- `kmalloc_physical_page` -/
def kmallocPhysicalPage : Kernel Addr := do
  let frame ← allocFrameM
  if frame = 0#32 then
    pure 0#32
  else do
    let virtAddr := p2v frame
    memset tr virtAddr 0#8 pageSize
    pure frame

/-- `kfree_physical_page` -/
def kfreePhysicalPage (addr : Addr) : Kernel Unit :=
  if addr = 0#32 then pure ()
  else modify fun s => { s with frameBitmap := freeFrame s.frameBitmap addr }

/-- `flush_tlb_entry`: `invlpg`, no effect on memory. -/
def flushTlbEntry (_addr : Addr) : Kernel Unit := pure ()

/-- The entry `map_page_to_frame` stores. -/
def pageEntry (physAddr flags : BitVec 32) : BitVec 32 :=
  (physAddr &&& frameMask) ||| (flags &&& 0xFFF#32) ||| pagePresent

/-- `map_page_to_frame` -/
def mapPageToFrame (virtAddr physAddr flags : BitVec 32) : Kernel Unit := do
  let ptindex := (virtAddr >>> 12) &&& 0x3FF#32
  let table ← getPageTable tr virtAddr true
  if table = 0#32 then
    pure ()
  else do
    writeWord tr (table + 4#32 * ptindex) (pageEntry physAddr flags)
    flushTlbEntry virtAddr

/-- `unmap_page` -/
def unmapPage (virtAddr : Addr) : Kernel Unit := do
  let ptindex := (virtAddr >>> 12) &&& 0x3FF#32
  let table ← getPageTable tr virtAddr false
  if table = 0#32 then
    pure ()
  else do
    -- Clear the page table entry
    writeWord tr (table + 4#32 * ptindex) 0#32
    flushTlbEntry virtAddr

/-- `get_physical_address` -/
def getPhysicalAddress (virtAddr : Addr) : Kernel Addr := do
  let ptindex := (virtAddr >>> 12) &&& 0x3FF#32
  let table ← getPageTable tr virtAddr false
  if table = 0#32 then
    pure 0#32
  else do
    let pte ← readWord tr (table + 4#32 * ptindex)
    if Present pte then
      let frameAddr := pte &&& frameMask
      let offset := virtAddr &&& 0xFFF#32
      pure (frameAddr + offset)
    else pure 0#32

end Operations

/-! ## Binding -/

section Bind

variable {α β : Type} {x : Kernel α} {f : α → Kernel β} {s s' : Machine}

theorem bind_ok {a : α} (h : x s = .ok a s') : (x >>= f) s = f a s' := by
  show EStateM.bind x f s = _
  simp only [EStateM.bind, h]

theorem get_bind {g : Machine → Kernel β} : ((get : Kernel Machine) >>= g) s = g s s := rfl

theorem modify_bind {f : Machine → Machine} {g : Unit → Kernel β} :
    ((modify f : Kernel Unit) >>= g) s = g () (f s) := rfl

theorem bind_error {e : PageFault} (h : x s = .error e s') : (x >>= f) s = .error e s' := by
  show EStateM.bind x f s = _
  simp only [EStateM.bind, h]

/-- What a sequence returns, its second half returns. -/
theorem bind_eq_ok {r : β} (h : (x >>= f) s = .ok r s') :
    ∃ a t, x s = .ok a t ∧ f a t = .ok r s' := by
  cases hx : x s with
  | ok a t =>
      rw [bind_ok hx] at h
      exact ⟨a, t, rfl, h⟩
  | error e t =>
      rw [bind_error hx] at h
      cases h

end Bind

/-! ## Windows on frames

Seen through a window, the code does two things to the state: it takes a frame,
and it stores an entry. -/

/-- Frame `k` marked and zeroed. -/
def Machine.take (s : Machine) (k : Nat) : Machine :=
  { s with frameBitmap := (allocFrame s.frameBitmap).2, mem := zeroFrame s.mem k }

/-- Entry `j` of frame `f` stored. -/
def Machine.put (s : Machine) (f j : Nat) (x : BitVec 32) : Machine :=
  { s with mem := setEntry s.mem f j x }

@[simp] theorem Machine.take_frameBitmap (s : Machine) (k : Nat) :
    (s.take k).frameBitmap = (allocFrame s.frameBitmap).2 := by rw [Machine.take]

@[simp] theorem Machine.take_mem (s : Machine) (k : Nat) : (s.take k).mem = zeroFrame s.mem k := rfl

@[simp] theorem Machine.put_frameBitmap (s : Machine) (f j : Nat) (x : BitVec 32) :
    (s.put f j x).frameBitmap = s.frameBitmap := rfl

@[simp] theorem Machine.put_mem (s : Machine) (f j : Nat) (x : BitVec 32) :
    (s.put f j x).mem = setEntry s.mem f j x := rfl

/-- The 4096 addresses from `P2V` of frame `f` reach the bytes of the frame. -/
def Reaches (tr : Translation) (m : Mem) (cr3 : Addr) (f : Nat) : Prop :=
  ∀ i, i < 4096 → tr m cr3 (p2v (frameAddr f) + BitVec.ofNat 32 i)
    = some (frameAddr f + BitVec.ofNat 32 i)

/-- ... and keep reaching them whatever is written into the frame. -/
def ReachesStably (tr : Translation) (m : Mem) (cr3 : Addr) (f : Nat) : Prop :=
  ∀ m' : Mem, (∀ q, frameOf q ≠ f → m' q = m q) → Reaches tr m' cr3 f

theorem word_offset (j : Nat) : 4#32 * BitVec.ofNat 32 j = BitVec.ofNat 32 (4 * j) := by
  apply BitVec.eq_of_toNat_eq
  simp only [BitVec.toNat_ofNat, BitVec.toNat_mul]
  omega

theorem Reaches.entry {tr : Translation} {m : Mem} {cr3 : Addr} {f j : Nat}
    (h : Reaches tr m cr3 f) (hj : j < 1024) :
    tr m cr3 (p2v (frameAddr f) + 4#32 * BitVec.ofNat 32 j) = some (entryAddr f j) := by
  rw [word_offset, h (4 * j) (by omega), ← word_offset, frameAddr_add_entry]

section Windows

variable {tr : Translation} {s : Machine} {f : Nat}

theorem readWord_entry {j : Nat} (h : Reaches tr s.mem s.cr3 f) (hj : j < 1024) :
    readWord tr (p2v (frameAddr f) + 4#32 * BitVec.ofNat 32 j) s = .ok (entry s.mem f j) s := by
  simp only [readWord, h.entry hj, entry]

theorem writeWord_entry {j : Nat} (x : BitVec 32) (h : Reaches tr s.mem s.cr3 f)
    (hj : j < 1024) :
    writeWord tr (p2v (frameAddr f) + 4#32 * BitVec.ofNat 32 j) x s = .ok () (s.put f j x) := by
  simp only [writeWord, h.entry hj, Machine.put, setEntry]

/-- `n` bytes of the frame that the addresses from `p` reach, filled from its start. -/
theorem memset_window {p : Addr} (hf : f < 2 ^ 20) (b : BitVec 8)
    (h : ∀ m' : Mem, (∀ q, frameOf q ≠ f → m' q = s.mem q) → ∀ i, i < 4096 →
      tr m' s.cr3 (p + BitVec.ofNat 32 i) = some (frameAddr f + BitVec.ofNat 32 i)) :
    ∀ n, n ≤ 4096 → memset tr p b n s = .ok () { s with mem := fill s.mem (frameAddr f) n b }
  | 0, _ => by
      rw [fill_zero]
      rfl
  | n + 1, hn => by
      have hreach := h (fill s.mem (frameAddr f) n b) fun q hq =>
        fill_frame_ne s.mem hf (by omega) b hq
      have ih := memset_window hf b h n (by omega)
      rw [memset, bind_ok ih, fill_succ s.mem (frameAddr f) (by omega) b]
      simp only [writeByte, hreach n (by omega)]

/-- `memset(P2V(f), 0, PAGE_SIZE)` zeroes exactly frame `f`. -/
theorem memset_frame (hf : f < 2 ^ 20) (h : ReachesStably tr s.mem s.cr3 f) :
    memset tr (p2v (frameAddr f)) 0#8 pageSize s = .ok () { s with mem := zeroFrame s.mem f } :=
  memset_window hf 0#8 h 4096 (Nat.le_refl _)

/-- Where the first byte is not mapped, `memset` faults on it and has written nothing. -/
theorem memset_fault {p : Addr} (b : BitVec 8) (h : tr s.mem s.cr3 p = none) :
    ∀ n, memset tr p b (n + 1) s = .error ⟨p⟩ s
  | 0 => by
      have hw : writeByte tr (p + BitVec.ofNat 32 0) b s = .error ⟨p⟩ s := by
        rw [BitVec.add_zero]
        simp only [writeByte, h]
      rw [memset, bind_ok (show memset tr p b 0 s = .ok () s from rfl), hw]
  | n + 1 => by rw [memset, bind_error (memset_fault b h n)]

end Windows

/-! ## One equation per branch

`d` is the frame of the current page directory. -/

section Branches

variable {tr : Translation} {s : Machine} {d : Nat} {v : Addr}

/-- The directory entry of an address. -/
theorem readWord_directory (v : Addr) (hdir : s.currentPageDirectory = p2v (frameAddr d))
    (hd : Reaches tr s.mem s.cr3 d) :
    readWord tr (s.currentPageDirectory + 4#32 * (v >>> 22)) s = .ok (entry s.mem d (slot v)) s := by
  rw [hdir, shift_slot]
  exact readWord_entry hd (slot_lt v)

theorem allocFrameM_eq {a : Addr} (h : (allocFrame s.frameBitmap).1 = a) :
    allocFrameM s = .ok a { s with frameBitmap := (allocFrame s.frameBitmap).2 } := by
  simp only [allocFrameM, h]

theorem allocFrameM_full (hfull : allocFrame s.frameBitmap = (0#32, s.frameBitmap)) :
    allocFrameM s = .ok 0#32 s := by
  simp only [allocFrameM, hfull]

theorem getPageTable_present {create : Bool} (hdir : s.currentPageDirectory = p2v (frameAddr d))
    (hd : Reaches tr s.mem s.cr3 d) (hp : Present (entry s.mem d (slot v))) :
    getPageTable tr v create s = .ok (p2v (frameAddr (tableOf s.mem d v))) s := by
  have hread := readWord_directory v hdir hd
  unfold getPageTable
  rw [get_bind, bind_ok hread, if_pos hp, and_frameMask_eq]
  rfl

theorem getPageTable_absent (hdir : s.currentPageDirectory = p2v (frameAddr d))
    (hd : Reaches tr s.mem s.cr3 d) (hp : ¬ Present (entry s.mem d (slot v))) :
    getPageTable tr v false s = .ok 0#32 s := by
  have hread := readWord_directory v hdir hd
  unfold getPageTable
  rw [get_bind, bind_ok hread, if_neg hp]
  rfl

/-- No frame is left: `NULL`, and nothing has changed. -/
theorem getPageTable_full (hdir : s.currentPageDirectory = p2v (frameAddr d))
    (hd : Reaches tr s.mem s.cr3 d) (hp : ¬ Present (entry s.mem d (slot v)))
    (hfull : allocFrame s.frameBitmap = (0#32, s.frameBitmap)) :
    getPageTable tr v true s = .ok 0#32 s := by
  have hread := readWord_directory v hdir hd
  have halloc := allocFrameM_full hfull
  unfold getPageTable
  rw [get_bind, bind_ok hread, if_neg hp, if_pos rfl,
    bind_ok halloc]
  rfl

/-- The three flag bits or-ed onto a frame address are added to it. -/
theorem tableEntry_eq {k : Nat} (hk : k < 2 ^ 20) :
    frameAddr k ||| pagePresent ||| pageWrite = bootEntry k := by
  have h3 : frameAddr k &&& 3#32 = 0#32 := by
    have h := and_frameMask_eq (frameAddr k)
    rw [frameOf_frameAddr hk] at h
    rw [← h, BitVec.and_assoc, show frameMask &&& 3#32 = 0#32 by decide, BitVec.and_zero]
  rw [BitVec.or_assoc, show pagePresent ||| pageWrite = 3#32 by decide,
    ← BitVec.add_eq_or_of_and_eq_zero _ _ h3, bootEntry, frameAddr]
  apply BitVec.eq_of_toNat_eq
  simp only [BitVec.toNat_add, BitVec.toNat_ofNat]
  omega

/-- A fresh frame becomes the table. -/
theorem getPageTable_fresh {k : Nat} (hdir : s.currentPageDirectory = p2v (frameAddr d))
    (hd : Reaches tr s.mem s.cr3 d) (hp : ¬ Present (entry s.mem d (slot v)))
    (hk : k < 2 ^ 20) (hk0 : frameAddr k ≠ 0#32) (halloc : (allocFrame s.frameBitmap).1 = frameAddr k)
    (hkr : ReachesStably tr s.mem s.cr3 k) (hd' : Reaches tr (zeroFrame s.mem k) s.cr3 d) :
    getPageTable tr v true s
      = .ok (p2v (frameAddr k)) ((s.take k).put d (slot v) (bootEntry k)) := by
  have hread := readWord_directory v hdir hd
  have ha := allocFrameM_eq halloc
  have hm : memset tr (p2v (frameAddr k)) 0#8 pageSize
      { s with frameBitmap := (allocFrame s.frameBitmap).2 } = .ok () (s.take k) := by
    rw [memset_frame (s := { s with frameBitmap := (allocFrame s.frameBitmap).2 }) hk hkr,
      Machine.take]
  have hw := writeWord_entry (s := s.take k) (bootEntry k) hd' (slot_lt v)
  rw [← shift_slot, ← hdir] at hw
  unfold getPageTable
  rw [get_bind, bind_ok hread, if_neg hp, if_pos rfl, bind_ok ha, if_neg hk0, bind_ok hm,
    tableEntry_eq hk, bind_ok hw]
  rfl

/-- A fresh frame that is not mapped at its `P2V` address: the frame is marked,
memory is as it was. -/
theorem getPageTable_fault {k : Nat} (hdir : s.currentPageDirectory = p2v (frameAddr d))
    (hd : Reaches tr s.mem s.cr3 d) (hp : ¬ Present (entry s.mem d (slot v)))
    (hk0 : frameAddr k ≠ 0#32) (halloc : (allocFrame s.frameBitmap).1 = frameAddr k)
    (hnone : tr s.mem s.cr3 (p2v (frameAddr k)) = none) :
    getPageTable tr v true s = .error ⟨p2v (frameAddr k)⟩
      { s with frameBitmap := (allocFrame s.frameBitmap).2 } := by
  have hread := readWord_directory v hdir hd
  have ha := allocFrameM_eq halloc
  have hm := memset_fault (s := { s with frameBitmap := (allocFrame s.frameBitmap).2 }) 0#8 hnone
    4095
  unfold getPageTable
  rw [get_bind, bind_ok hread, if_neg hp, if_pos rfl, bind_ok ha, if_neg hk0]
  exact bind_error hm

/-! ### Callers of `get_page_table` -/

theorem mapPageToFrame_present (p fl : BitVec 32)
    (hdir : s.currentPageDirectory = p2v (frameAddr d)) (hd : Reaches tr s.mem s.cr3 d)
    (hp : Present (entry s.mem d (slot v)))
    (ht0 : p2v (frameAddr (tableOf s.mem d v)) ≠ 0#32)
    (ht : Reaches tr s.mem s.cr3 (tableOf s.mem d v)) :
    mapPageToFrame tr v p fl s
      = .ok () (s.put (tableOf s.mem d v) (index v) (pageEntry p fl)) := by
  unfold mapPageToFrame
  rw [bind_ok (getPageTable_present hdir hd hp), if_neg ht0, shift_index,
    bind_ok (writeWord_entry _ ht (index_lt v))]
  rfl

theorem mapPageToFrame_full (p fl : BitVec 32)
    (hdir : s.currentPageDirectory = p2v (frameAddr d)) (hd : Reaches tr s.mem s.cr3 d)
    (hp : ¬ Present (entry s.mem d (slot v)))
    (hfull : allocFrame s.frameBitmap = (0#32, s.frameBitmap)) :
    mapPageToFrame tr v p fl s = .ok () s := by
  unfold mapPageToFrame
  rw [bind_ok (getPageTable_full hdir hd hp hfull), if_pos rfl]
  rfl

theorem mapPageToFrame_fresh (p fl : BitVec 32) {k : Nat}
    (hdir : s.currentPageDirectory = p2v (frameAddr d)) (hd : Reaches tr s.mem s.cr3 d)
    (hp : ¬ Present (entry s.mem d (slot v))) (hk : k < 2 ^ 20) (hk0 : frameAddr k ≠ 0#32)
    (hkv : p2v (frameAddr k) ≠ 0#32) (halloc : (allocFrame s.frameBitmap).1 = frameAddr k)
    (hkr : ReachesStably tr s.mem s.cr3 k) (hd' : Reaches tr (zeroFrame s.mem k) s.cr3 d)
    (hk' : Reaches tr (setEntry (zeroFrame s.mem k) d (slot v) (bootEntry k)) s.cr3 k) :
    mapPageToFrame tr v p fl s = .ok ()
      (((s.take k).put d (slot v) (bootEntry k)).put k (index v) (pageEntry p fl)) := by
  unfold mapPageToFrame
  rw [bind_ok (getPageTable_fresh hdir hd hp hk hk0 halloc hkr hd'), if_neg hkv, shift_index,
    bind_ok (writeWord_entry (s := (s.take k).put d (slot v) (bootEntry k)) _ hk' (index_lt v))]
  rfl

theorem unmapPage_present (hdir : s.currentPageDirectory = p2v (frameAddr d))
    (hd : Reaches tr s.mem s.cr3 d) (hp : Present (entry s.mem d (slot v)))
    (ht0 : p2v (frameAddr (tableOf s.mem d v)) ≠ 0#32)
    (ht : Reaches tr s.mem s.cr3 (tableOf s.mem d v)) :
    unmapPage tr v s = .ok () (s.put (tableOf s.mem d v) (index v) 0#32) := by
  unfold unmapPage
  rw [bind_ok (getPageTable_present hdir hd hp), if_neg ht0, shift_index,
    bind_ok (writeWord_entry _ ht (index_lt v))]
  rfl

theorem unmapPage_absent (hdir : s.currentPageDirectory = p2v (frameAddr d))
    (hd : Reaches tr s.mem s.cr3 d) (hp : ¬ Present (entry s.mem d (slot v))) :
    unmapPage tr v s = .ok () s := by
  unfold unmapPage
  rw [bind_ok (getPageTable_absent hdir hd hp), if_pos rfl]
  rfl

theorem getPhysicalAddress_absent (hdir : s.currentPageDirectory = p2v (frameAddr d))
    (hd : Reaches tr s.mem s.cr3 d) (hp : ¬ Present (entry s.mem d (slot v))) :
    getPhysicalAddress tr v s = .ok 0#32 s := by
  unfold getPhysicalAddress
  rw [bind_ok (getPageTable_absent hdir hd hp), if_pos rfl]
  rfl

theorem getPhysicalAddress_present (hdir : s.currentPageDirectory = p2v (frameAddr d))
    (hd : Reaches tr s.mem s.cr3 d) (hp : Present (entry s.mem d (slot v)))
    (ht0 : p2v (frameAddr (tableOf s.mem d v)) ≠ 0#32)
    (ht : Reaches tr s.mem s.cr3 (tableOf s.mem d v)) :
    getPhysicalAddress tr v s = .ok
      (if Present (entry s.mem (tableOf s.mem d v) (index v)) then
        (entry s.mem (tableOf s.mem d v) (index v) &&& frameMask) + (v &&& offsetMask)
      else 0#32) s := by
  unfold getPhysicalAddress
  rw [bind_ok (getPageTable_present hdir hd hp), if_neg ht0, shift_index,
    bind_ok (readWord_entry ht (index_lt v))]
  split <;> rfl

/-- A page handed out: its bit set, and the frame behind its `P2V` address zeroed. -/
theorem kmallocPhysicalPage_window {k g : Nat} (hg : g < 2 ^ 20) (hk0 : frameAddr k ≠ 0#32)
    (halloc : (allocFrame s.frameBitmap).1 = frameAddr k)
    (hwin : ∀ m' : Mem, (∀ q, frameOf q ≠ g → m' q = s.mem q) → ∀ i, i < 4096 →
      tr m' s.cr3 (p2v (frameAddr k) + BitVec.ofNat 32 i)
        = some (frameAddr g + BitVec.ofNat 32 i)) :
    kmallocPhysicalPage tr s = .ok (frameAddr k)
      { s with frameBitmap := (allocFrame s.frameBitmap).2, mem := zeroFrame s.mem g } := by
  generalize hb : allocFrame s.frameBitmap = ab at halloc ⊢
  obtain ⟨a, b⟩ := ab
  have ha : allocFrameM s = .ok (frameAddr k) { s with frameBitmap := b } := by
    simp only [allocFrameM, hb, ← halloc]
  have hm : memset tr (p2v (frameAddr k)) 0#8 pageSize { s with frameBitmap := b }
      = .ok () { s with frameBitmap := b, mem := zeroFrame s.mem g } :=
    memset_window (s := { s with frameBitmap := b }) hg 0#8 hwin 4096 (Nat.le_refl _)
  unfold kmallocPhysicalPage
  rw [bind_ok ha, if_neg hk0, bind_ok hm]
  rfl

/-- A page handed out: zeroed, and its bit set. -/
theorem kmallocPhysicalPage_fresh {k : Nat} (hk : k < 2 ^ 20) (hk0 : frameAddr k ≠ 0#32)
    (halloc : (allocFrame s.frameBitmap).1 = frameAddr k)
    (hkr : ReachesStably tr s.mem s.cr3 k) :
    kmallocPhysicalPage tr s = .ok (frameAddr k) (s.take k) := by
  rw [kmallocPhysicalPage_window hk hk0 halloc hkr, Machine.take]

/-- A fresh frame that is not mapped at its `P2V` address. -/
theorem kmallocPhysicalPage_fault {k : Nat} (hk0 : frameAddr k ≠ 0#32)
    (halloc : (allocFrame s.frameBitmap).1 = frameAddr k)
    (hnone : tr s.mem s.cr3 (p2v (frameAddr k)) = none) :
    kmallocPhysicalPage tr s = .error ⟨p2v (frameAddr k)⟩
      { s with frameBitmap := (allocFrame s.frameBitmap).2 } := by
  have ha := allocFrameM_eq halloc
  have hm := memset_fault (s := { s with frameBitmap := (allocFrame s.frameBitmap).2 }) 0#8 hnone
    4095
  unfold kmallocPhysicalPage
  rw [bind_ok ha, if_neg hk0]
  exact bind_error hm

theorem kmallocPhysicalPage_full (hfull : allocFrame s.frameBitmap = (0#32, s.frameBitmap)) :
    kmallocPhysicalPage tr s = .ok 0#32 s := by
  have ha := allocFrameM_full hfull
  unfold kmallocPhysicalPage
  rw [bind_ok ha, if_pos rfl]
  rfl

theorem kfreePhysicalPage_null : kfreePhysicalPage 0#32 s = .ok () s := rfl

theorem kfreePhysicalPage_ne {a : Addr} (ha : a ≠ 0#32) :
    kfreePhysicalPage a s = .ok () { s with frameBitmap := freeFrame s.frameBitmap a } := by
  unfold kfreePhysicalPage
  rw [if_neg ha]
  rfl

end Branches

/-! ## Direct accesses reach every frame -/

theorem reaches_direct (m : Mem) (cr3 : Addr) (f : Nat) : Reaches direct m cr3 f := by
  intro i _
  simp only [direct, v2p, p2v, Option.some.injEq]
  bv_omega

theorem reachesStably_direct (m : Mem) (cr3 : Addr) (f : Nat) : ReachesStably direct m cr3 f :=
  fun m' _ => reaches_direct m' cr3 f

end RedOS
