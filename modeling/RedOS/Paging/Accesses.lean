/-
# `RedOS.Paging.Accesses` — the functions of `paging.c`, access by access

`Tables` says what each function does to the machine.  What a processor with a
TLB may do in the middle of one is invisible there, so the functions are spelt
out once more as programs of single accesses, `invlpg` and the load of CR3 among
them.  Run with the machine alone, the programs are the functions:

    interp_getPageTableCode, interp_mapPageToFrameCode, ..., Op.interp_code
-/
import RedOS.Paging.Steps
import RedOS.Lib.Commands

namespace RedOS

open ByteMemory X86Paging Commands Prog

/-- One access, to memory, to a variable of `paging.c` or to a control register. -/
inductive Command where
  | readWord (addr : Addr)
  | writeWord (addr x : BitVec 32)
  | writeByte (addr : Addr) (b : BitVec 8)
  /-- `alloc_frame`, which touches `frame_bitmap` only -/
  | allocFrame
  /-- `free_frame` -/
  | freeFrame (addr : Addr)
  /-- the loops of `init_paging` over `frame_bitmap` -/
  | setBitmap (b : Bitmap)
  | currentPageDirectory
  | setPageDirectories (dir : Addr)
  | invlpg (addr : Addr)
  | readCr3
  | loadCr3 (addr : Addr)

/-- What the access does; where there is no reply it is 0. -/
def Command.perform (tr : Translation) : Command → Kernel (BitVec 32)
  | .readWord p => RedOS.readWord tr p
  | .writeWord p x => do
      RedOS.writeWord tr p x
      pure 0#32
  | .writeByte p b => do
      RedOS.writeByte tr p b
      pure 0#32
  | .allocFrame => allocFrameM
  | .freeFrame a => do
      modify fun s => { s with frameBitmap := RedOS.freeFrame s.frameBitmap a }
      pure 0#32
  | .setBitmap b => do
      modify fun s => { s with frameBitmap := b }
      pure 0#32
  | .currentPageDirectory => do
      let s ← get
      pure s.currentPageDirectory
  | .setPageDirectories dir => do
      modify fun s => { s with kernelPageDirectory := dir, currentPageDirectory := dir }
      pure 0#32
  | .invlpg _ => pure 0#32
  | .readCr3 => do
      let s ← get
      pure s.cr3
  | .loadCr3 a => do
      modify fun s => { s with cr3 := a }
      pure 0#32

abbrev Code := Prog Command (BitVec 32)

def memsetCode (p : Addr) (b : BitVec 8) : Nat → Code Unit
  | 0 => pure ()
  | n + 1 => do
      memsetCode p b n
      let _ ← one (.writeByte (p + BitVec.ofNat 32 n) b)

/-- `get_page_table` -/
def getPageTableCode (virtAddr : Addr) (create : Bool) : Code Addr := do
  let dir ← one .currentPageDirectory
  let pdindex := virtAddr >>> 22
  let pde ← one (.readWord (dir + 4#32 * pdindex))
  if Present pde then
    pure (p2v (pde &&& frameMask))
  else if create then do
    let pageTableAddr ← one .allocFrame
    if pageTableAddr = 0#32 then
      pure 0#32
    else do
      memsetCode (p2v pageTableAddr) 0#8 pageSize
      let _ ← one (.writeWord (dir + 4#32 * pdindex) (pageTableAddr ||| pagePresent ||| pageWrite))
      pure (p2v pageTableAddr)
  else pure 0#32

/-- `map_page_to_frame` -/
def mapPageToFrameCode (virtAddr physAddr flags : BitVec 32) : Code Unit := do
  let ptindex := (virtAddr >>> 12) &&& 0x3FF#32
  let table ← getPageTableCode virtAddr true
  if table = 0#32 then
    pure ()
  else do
    let _ ← one (.writeWord (table + 4#32 * ptindex) (pageEntry physAddr flags))
    let _ ← one (.invlpg virtAddr)

/-- `unmap_page` -/
def unmapPageCode (virtAddr : Addr) : Code Unit := do
  let ptindex := (virtAddr >>> 12) &&& 0x3FF#32
  let table ← getPageTableCode virtAddr false
  if table = 0#32 then
    pure ()
  else do
    let _ ← one (.writeWord (table + 4#32 * ptindex) 0#32)
    let _ ← one (.invlpg virtAddr)

/-- `kmalloc_physical_page` -/
def kmallocPhysicalPageCode : Code Addr := do
  let frame ← one .allocFrame
  if frame = 0#32 then
    pure 0#32
  else do
    memsetCode (p2v frame) 0#8 pageSize
    pure frame

/-- `kfree_physical_page` -/
def kfreePhysicalPageCode (addr : Addr) : Code Unit := do
  if addr = 0#32 then pure ()
  else
    let _ ← one (.freeFrame addr)

/-- `init_paging` -/
def initPagingCode (L : Layout) : Code Unit := do
  let _ ← one (.setBitmap (initFrames L))
  let cr3Value ← one .readCr3
  let dir := p2v cr3Value
  let _ ← one (.setPageDirectories dir)
  let _ ← one (.writeWord (dir + 4#32 * 1023#32) (v2p dir ||| pagePresent ||| pageWrite))
  let _ ← one (.loadCr3 cr3Value)

/-- The call of `op`. -/
def Op.code : Op → Code Addr
  | .kmalloc => kmallocPhysicalPageCode
  | .kfree a => do
      kfreePhysicalPageCode a
      pure 0#32
  | .map v p fl => do
      mapPageToFrameCode v p fl
      pure 0#32
  | .unmap v => do
      unmapPageCode v
      pure 0#32

/-! ## The programs are the functions -/

section Functions

variable (tr : Translation)

theorem interp_memsetCode (p : Addr) (b : BitVec 8) :
    ∀ n, (memsetCode p b n).interp (Command.perform tr) = memset tr p b n
  | 0 => rfl
  | n + 1 => by
      rw [memsetCode, memset, interp_bind, interp_memsetCode p b n]
      simp only [interp_bind, interp_one, interp_pure, Command.perform, bind_assoc, pure_bind,
        bind_pure_unit]

theorem interp_getPageTableCode (v : Addr) (create : Bool) :
    (getPageTableCode v create).interp (Command.perform tr) = getPageTable tr v create := by
  unfold getPageTableCode getPageTable
  simp only [interp_bind, interp_one, interp_ite, interp_pure, interp_memsetCode, Command.perform,
    bind_assoc, pure_bind]

theorem interp_mapPageToFrameCode (v p fl : BitVec 32) :
    (mapPageToFrameCode v p fl).interp (Command.perform tr) = mapPageToFrame tr v p fl := by
  unfold mapPageToFrameCode mapPageToFrame flushTlbEntry
  simp only [interp_bind, interp_one, interp_ite, interp_pure, interp_getPageTableCode,
    Command.perform, bind_assoc, pure_bind]

theorem interp_unmapPageCode (v : Addr) :
    (unmapPageCode v).interp (Command.perform tr) = unmapPage tr v := by
  unfold unmapPageCode unmapPage flushTlbEntry
  simp only [interp_bind, interp_one, interp_ite, interp_pure, interp_getPageTableCode,
    Command.perform, bind_assoc, pure_bind]

theorem interp_kmallocPhysicalPageCode :
    kmallocPhysicalPageCode.interp (Command.perform tr) = kmallocPhysicalPage tr := by
  unfold kmallocPhysicalPageCode kmallocPhysicalPage
  simp only [interp_bind, interp_one, interp_ite, interp_pure, interp_memsetCode, Command.perform]

theorem interp_kfreePhysicalPageCode (a : Addr) :
    (kfreePhysicalPageCode a).interp (Command.perform tr) = kfreePhysicalPage a := by
  unfold kfreePhysicalPageCode kfreePhysicalPage
  simp only [interp_bind, interp_one, interp_ite, interp_pure, Command.perform, bind_assoc,
    pure_bind, bind_pure_unit]

theorem interp_initPagingCode (L : Layout) :
    (initPagingCode L).interp (Command.perform tr) = initPaging tr L := by
  unfold initPagingCode initPaging
  simp only [interp_bind, interp_one, interp_pure, Command.perform, bind_assoc, pure_bind]
  rfl

/-- **The calls are the calls.** -/
theorem Op.interp_code (op : Op) : op.code.interp (Command.perform tr) = op.perform tr := by
  cases op with
  | kmalloc => exact interp_kmallocPhysicalPageCode tr
  | kfree a =>
      simp only [Op.code, Op.perform, interp_bind, interp_pure, interp_kfreePhysicalPageCode]
  | map v p fl =>
      simp only [Op.code, Op.perform, interp_bind, interp_pure, interp_mapPageToFrameCode]
  | unmap v => simp only [Op.code, Op.perform, interp_bind, interp_pure, interp_unmapPageCode]

end Functions

end RedOS
