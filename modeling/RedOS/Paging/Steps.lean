/-
# `RedOS.Paging.Steps` — the paging interface as a state machine

An `Op` is a call of one of the four operations of `paging.h` that change
something.  A `Sys` is the machine together with what an observer of the calls
knows: which pages are live, which frames became page tables, and which physical
address each page was last mapped to.  `exec` runs the C code and lets the
observer record what it saw; a call that breaks its contract is refused, and a
page fault stops the system for good.

`Step` is the same transition on frames and entries, one constructor per path
through the code, and does not mention how memory is accessed.  `exec_step`
connects them: under `Opens`, which lists the frames the path touches through
`P2V`, the code takes exactly that step.
-/
import RedOS.Paging.Tables
import RedOS.Lib.Runs

namespace RedOS

open ByteMemory X86Paging Runs

inductive Op where
  | kmalloc
  | kfree (addr : Addr)
  | map (virtAddr physAddr flags : BitVec 32)
  | unmap (virtAddr : Addr)
deriving DecidableEq

/-- The call; a procedure without a result returns 0. -/
def Op.perform (tr : Translation) : Op → Kernel Addr
  | .kmalloc => kmallocPhysicalPage tr
  | .kfree a => do
      kfreePhysicalPage a
      pure 0#32
  | .map v p fl => do
      mapPageToFrame tr v p fl
      pure 0#32
  | .unmap v => do
      unmapPage tr v
      pure 0#32

/-- The virtual addresses of the call all satisfy `P`. -/
def Op.At (P : Addr → Prop) : Op → Prop
  | .kmalloc => True
  | .kfree _ => True
  | .map v _ _ => P v
  | .unmap v => P v

instance (P : Addr → Prop) [DecidablePred P] : ∀ op : Op, Decidable (op.At P)
  | .kmalloc => isTrue trivial
  | .kfree _ => isTrue trivial
  | .map v _ _ => inferInstanceAs (Decidable (P v))
  | .unmap v => inferInstanceAs (Decidable (P v))

structure Sys where
  machine : Machine
  /-- Addresses `kmalloc_physical_page` returned and nobody freed since. -/
  live : Finset Addr
  /-- Frames `get_page_table` turned into page tables. -/
  tables : Finset Nat
  /-- Page to the physical argument of its latest successful mapping that was
  not followed by an unmapping. -/
  mapping : Nat → Option Addr
  /-- The address of the access that faulted. -/
  fault : Option Addr

/-- A page is freed once, by its address; `NULL` may be freed at any time. -/
def Sys.Allows (s : Sys) : Op → Prop
  | .kfree a => a = 0#32 ∨ a ∈ s.live
  | _ => True

instance (s : Sys) : ∀ op : Op, Decidable (s.Allows op)
  | .kmalloc => isTrue trivial
  | .kfree a => inferInstanceAs (Decidable (a = 0#32 ∨ a ∈ s.live))
  | .map _ _ _ => isTrue trivial
  | .unmap _ => isTrue trivial

/-- What `get_page_table` returns, `NULL` where it does not return. -/
def tableGot (tr : Translation) (v : Addr) (create : Bool) (m : Machine) : Addr :=
  match getPageTable tr v create m with
  | .ok t _ => t
  | .error _ _ => 0#32

/-- A table is created where there is one now and was none before. -/
def createdTable (tr : Translation) (v : Addr) (m : Machine) : Finset Nat :=
  if tableGot tr v false m = 0#32 ∧ tableGot tr v true m ≠ 0#32 then
    {frameOf (v2p (tableGot tr v true m))}
  else ∅

/-- The observer's notes on a call that returned `r`. -/
def Sys.record (tr : Translation) (s : Sys) (r : Addr) (m : Machine) : Op → Sys
  | .kmalloc => { s with
      machine := m
      live := if r = 0#32 then s.live else insert r s.live }
  | .kfree a => { s with
      machine := m
      live := if a = 0#32 then s.live else s.live.erase a }
  | .map v p _ => { s with
      machine := m
      tables := s.tables ∪ createdTable tr v s.machine
      -- the mapping succeeds when there is a table to store it in
      mapping := if tableGot tr v true s.machine = 0#32 then s.mapping
        else Function.update s.mapping (frameOf v) (some p) }
  | .unmap v => { s with
      machine := m
      mapping := Function.update s.mapping (frameOf v) none }

/-- One call.  After a fault nothing happens any more. -/
def exec (tr : Translation) (s : Sys) (op : Op) : Option Sys :=
  match s.fault with
  | some _ => some s
  | none =>
      if s.Allows op then
        match op.perform tr s.machine with
        | .ok r m => some (s.record tr r m op)
        | .error e m => some { s with machine := m, fault := some e.addr }
      else none

/-- An allowed call has an outcome, if only a fault. -/
theorem exec_some (tr : Translation) {s : Sys} {op : Op} (h : s.Allows op) :
    ∃ s', exec tr s op = some s' := by
  unfold exec
  split
  · exact ⟨_, rfl⟩
  · rw [if_pos h]
    split <;> exact ⟨_, rfl⟩

/-- A call that was made was allowed. -/
theorem allows_of_exec {tr : Translation} {s s' : Sys} {op : Op} (hfault : s.fault = none)
    (h : exec tr s op = some s') : s.Allows op := by
  by_contra hn
  rw [exec, hfault] at h
  simp only [if_neg hn] at h
  cases h

/-- Calls that are allowed in every state run to the end. -/
theorem run_exec_some (tr : Translation) : ∀ (ops : List Op) (s : Sys),
    (∀ op ∈ ops, ∀ s : Sys, s.Allows op) → ∃ s', run (exec tr) s ops = some s'
  | [], s, _ => ⟨s, rfl⟩
  | op :: ops, s, h => by
      obtain ⟨t, ht⟩ := exec_some tr (h op List.mem_cons_self s)
      obtain ⟨s', hs'⟩ := run_exec_some tr ops t fun o ho => h o (List.mem_cons_of_mem op ho)
      exact ⟨s', run_cons_some.mpr ⟨t, ht, hs'⟩⟩

/-! ## The state `init_paging` leaves -/

/-- What `init_paging` finds: memory with the tables of `setup_page_tables`,
`cr3` as loaded there, and its own variables still zero. -/
def bootMachine (L : Layout) (m : Mem) : Machine where
  mem := m
  cr3 := BitVec.ofNat 32 L.bootPageDirectory
  frameBitmap := Vector.replicate 512 0#32
  kernelPageDirectory := 0#32
  currentPageDirectory := 0#32

/-- `init_paging` run on the boot state, and an observer with empty notes. -/
def start (tr : Translation) (L : Layout) (m : Mem) : Sys :=
  match initPaging tr L (bootMachine L m) with
  | .ok _ s => { machine := s, live := ∅, tables := ∅, mapping := fun _ => none, fault := none }
  | .error e s =>
      { machine := s, live := ∅, tables := ∅, mapping := fun _ => none, fault := some e.addr }

/-! ## Steps on frames -/

/-- The paths of the code; `d` is the frame of the directory. -/
inductive Step (d : Nat) (s : Sys) : Op → Sys → Prop where
  | kmallocFull (h : Full s.machine.frameBitmap) : Step d s .kmalloc s
  | kmallocFresh {k : Nat} (h : Fresh s.machine.frameBitmap k) :
      Step d s .kmalloc { s with
        machine := s.machine.take k
        live := insert (frameAddr k) s.live }
  | kfreeNull : Step d s (.kfree 0#32) s
  | kfree {a : Addr} (ha : a ≠ 0#32) (hl : a ∈ s.live) :
      Step d s (.kfree a) { s with
        machine := { s.machine with frameBitmap := freeFrame s.machine.frameBitmap a }
        live := s.live.erase a }
  | mapTable {v p fl : BitVec 32} (hp : Present (entry s.machine.mem d (slot v))) :
      Step d s (.map v p fl) { s with
        machine := s.machine.put (tableOf s.machine.mem d v) (index v) (pageEntry p fl)
        mapping := Function.update s.mapping (frameOf v) (some p) }
  | mapFull {v p fl : BitVec 32} (hp : ¬ Present (entry s.machine.mem d (slot v)))
      (h : Full s.machine.frameBitmap) : Step d s (.map v p fl) s
  | mapFresh {v p fl : BitVec 32} {k : Nat} (hp : ¬ Present (entry s.machine.mem d (slot v)))
      (h : Fresh s.machine.frameBitmap k) :
      Step d s (.map v p fl) { s with
        machine := (((s.machine.take k).put d (slot v) (bootEntry k)).put k (index v)
          (pageEntry p fl))
        tables := insert k s.tables
        mapping := Function.update s.mapping (frameOf v) (some p) }
  | unmapTable {v : Addr} (hp : Present (entry s.machine.mem d (slot v))) :
      Step d s (.unmap v) { s with
        machine := s.machine.put (tableOf s.machine.mem d v) (index v) 0#32
        mapping := Function.update s.mapping (frameOf v) none }
  | unmapAbsent {v : Addr} (hp : ¬ Present (entry s.machine.mem d (slot v))) :
      Step d s (.unmap v) { s with mapping := Function.update s.mapping (frameOf v) none }

/-- A step does not fault, and the directory stays current. -/
theorem Step.books {d : Nat} {s s' : Sys} {op : Op} (h : Step d s op s') :
    s'.fault = s.fault ∧ s'.machine.currentPageDirectory = s.machine.currentPageDirectory := by
  cases h <;> exact ⟨rfl, rfl⟩

/-- The directory and the tables it names are where the code will look. -/
structure Founded (d : Nat) (s : Machine) (P : Addr → Prop) : Prop where
  dir : s.currentPageDirectory = p2v (frameAddr d)
  zero : 0 ∈ marked s.frameBitmap
  table : ∀ v, P v → Present (entry s.mem d (slot v)) → tableOf s.mem d v < totalFrames

/-- The frames that the code touches through `P2V` are where `P2V` says. -/
def Opens (tr : Translation) (d : Nat) (s : Machine) : Op → Prop
  | .kmalloc => ∀ k, Fresh s.frameBitmap k → ReachesStably tr s.mem s.cr3 k
  | .kfree _ => True
  | .map v _ _ => Reaches tr s.mem s.cr3 d ∧
      (Present (entry s.mem d (slot v)) → Reaches tr s.mem s.cr3 (tableOf s.mem d v)) ∧
      (¬ Present (entry s.mem d (slot v)) → ∀ k, Fresh s.frameBitmap k →
        ReachesStably tr s.mem s.cr3 k ∧ Reaches tr (zeroFrame s.mem k) s.cr3 d ∧
        Reaches tr (setEntry (zeroFrame s.mem k) d (slot v) (bootEntry k)) s.cr3 k)
  | .unmap v => Reaches tr s.mem s.cr3 d ∧
      (Present (entry s.mem d (slot v)) → Reaches tr s.mem s.cr3 (tableOf s.mem d v))

/-- The `P2V` address of a frame the kernel manages is not 0. -/
theorem p2v_frameAddr_ne_zero {f : Nat} (hf : f < totalFrames) : p2v (frameAddr f) ≠ 0#32 := by
  unfold totalFrames at hf
  have h := frameAddr_toNat (f := f) (by omega)
  unfold p2v kernelVirtualBase
  bv_omega

theorem v2p_p2v (a : Addr) : v2p (p2v a) = a := by
  unfold v2p p2v
  bv_omega

section Connection

variable {d : Nat} {s : Sys} {P : Addr → Prop}

theorem tableGot_of_ok {tr : Translation} {v t : Addr} {create : Bool} {m m' : Machine}
    (h : getPageTable tr v create m = .ok t m') : tableGot tr v create m = t := by
  rw [tableGot, h]

/-- With a table in place nothing is created. -/
theorem createdTable_present {tr : Translation} {v : Addr} {m : Machine}
    (hdir : m.currentPageDirectory = p2v (frameAddr d)) (hd : Reaches tr m.mem m.cr3 d)
    (hp : Present (entry m.mem d (slot v))) (ht : tableOf m.mem d v < totalFrames) :
    createdTable tr v m = ∅ := by
  rw [createdTable, tableGot_of_ok (getPageTable_present hdir hd hp),
    if_neg fun h => p2v_frameAddr_ne_zero ht h.1]

theorem exec_ok {tr : Translation} {op : Op} {r : Addr} {m : Machine} (hfault : s.fault = none)
    (hallow : s.Allows op) (h : op.perform tr s.machine = .ok r m) :
    exec tr s op = some (s.record tr r m op) := by
  rw [exec, hfault]
  simp only [if_pos hallow, h]

/-! ### Calls that take no frame -/

theorem exec_kfree {a : Addr} (hfault : s.fault = none) (hallow : s.Allows (.kfree a)) :
    ∃ s', Step d s (.kfree a) s' ∧ ∀ tr, exec tr s (.kfree a) = some s' := by
  by_cases ha : a = 0#32
  · subst ha
    refine ⟨_, .kfreeNull, ?_⟩
    intro tr
    have hret : Op.perform tr (.kfree 0#32) s.machine = .ok 0#32 s.machine :=
      bind_ok kfreePhysicalPage_null
    rw [exec_ok hfault hallow hret]
    simp only [Sys.record, if_pos]
  · refine ⟨_, .kfree ha (hallow.resolve_left ha), ?_⟩
    intro tr
    have hret : Op.perform tr (.kfree a) s.machine = .ok 0#32 _ :=
      bind_ok (kfreePhysicalPage_ne ha)
    rw [exec_ok hfault hallow hret]
    simp only [Sys.record, if_neg ha]

theorem exec_mapTable {v p fl : BitVec 32}
    (hdir : s.machine.currentPageDirectory = p2v (frameAddr d)) (hfault : s.fault = none)
    (hp : Present (entry s.machine.mem d (slot v))) (ht : tableOf s.machine.mem d v < totalFrames) :
    ∃ s', Step d s (.map v p fl) s' ∧
      ∀ tr, Opens tr d s.machine (.map v p fl) → exec tr s (.map v p fl) = some s' := by
  refine ⟨_, .mapTable hp, ?_⟩
  intro tr ho
  have hperf := mapPageToFrame_present p fl hdir ho.1 hp (p2v_frameAddr_ne_zero ht) (ho.2.1 hp)
  have hret : Op.perform tr (.map v p fl) s.machine = .ok 0#32 _ := bind_ok hperf
  rw [exec_ok hfault (show s.Allows (.map v p fl) from trivial) hret]
  simp only [Sys.record, createdTable_present hdir ho.1 hp ht, Finset.union_empty,
    tableGot_of_ok (getPageTable_present hdir ho.1 hp), if_neg (p2v_frameAddr_ne_zero ht)]

theorem exec_unmap {v : Addr} (hdir : s.machine.currentPageDirectory = p2v (frameAddr d))
    (hfault : s.fault = none)
    (ht : Present (entry s.machine.mem d (slot v)) → tableOf s.machine.mem d v < totalFrames) :
    ∃ s', Step d s (.unmap v) s' ∧
      ∀ tr, Opens tr d s.machine (.unmap v) → exec tr s (.unmap v) = some s' := by
  by_cases hp : Present (entry s.machine.mem d (slot v))
  · refine ⟨_, .unmapTable hp, ?_⟩
    intro tr ho
    have hperf := unmapPage_present hdir ho.1 hp (p2v_frameAddr_ne_zero (ht hp)) (ho.2 hp)
    have hret : Op.perform tr (.unmap v) s.machine = .ok 0#32 _ := bind_ok hperf
    rw [exec_ok hfault (show s.Allows (.unmap v) from trivial) hret]
    rfl
  · refine ⟨_, .unmapAbsent hp, ?_⟩
    intro tr ho
    have hret : Op.perform tr (.unmap v) s.machine = .ok 0#32 s.machine :=
      bind_ok (unmapPage_absent hdir ho.1 hp)
    rw [exec_ok hfault (show s.Allows (.unmap v) from trivial) hret]
    rfl

/-- **The code takes the step**, whichever way memory is accessed. -/
theorem exec_step {op : Op} (hs : Founded d s.machine P) (hop : op.At P)
    (hfault : s.fault = none) (hallow : s.Allows op) :
    ∃ s', Step d s op s' ∧ ∀ tr, Opens tr d s.machine op → exec tr s op = some s' := by
  cases op with
  | kmalloc =>
      rcases fresh_or_full hs.zero with ⟨k, hk⟩ | hfull
      · refine ⟨_, .kmallocFresh hk, ?_⟩
        intro tr ho
        rw [exec_ok hfault hallow
          (kmallocPhysicalPage_fresh hk.lt_addresses hk.addr_ne_zero hk.addr (ho k hk))]
        simp only [Sys.record, if_neg hk.addr_ne_zero]
      · refine ⟨_, .kmallocFull hfull, ?_⟩
        intro tr _
        rw [exec_ok hfault hallow (kmallocPhysicalPage_full hfull.alloc)]
        simp only [Sys.record, if_pos]
  | kfree a =>
      obtain ⟨s', hstep, hexec⟩ := exec_kfree hfault hallow
      exact ⟨s', hstep, fun tr _ => hexec tr⟩
  | map v p fl =>
      by_cases hp : Present (entry s.machine.mem d (slot v))
      · exact exec_mapTable hs.dir hfault hp (hs.table v hop hp)
      · rcases fresh_or_full hs.zero with ⟨k, hk⟩ | hfull
        · refine ⟨_, .mapFresh hp hk, ?_⟩
          intro tr ho
          obtain ⟨hkr, hd', hk'⟩ := ho.2.2 hp k hk
          have hkv := p2v_frameAddr_ne_zero hk.lt
          have hperf := mapPageToFrame_fresh p fl hs.dir ho.1 hp hk.lt_addresses
            hk.addr_ne_zero hkv hk.addr hkr hd' hk'
          have hret : Op.perform tr (.map v p fl) s.machine = .ok 0#32 _ := bind_ok hperf
          have hgot := tableGot_of_ok
            (getPageTable_fresh hs.dir ho.1 hp hk.lt_addresses hk.addr_ne_zero hk.addr hkr hd')
          have hnew : createdTable tr v s.machine = {k} := by
            rw [createdTable, tableGot_of_ok (getPageTable_absent hs.dir ho.1 hp), hgot,
              if_pos ⟨rfl, hkv⟩, v2p_p2v, frameOf_frameAddr hk.lt_addresses]
          rw [exec_ok hfault hallow hret]
          simp only [Sys.record, hnew, hgot, if_neg hkv, Finset.union_singleton]
        · refine ⟨_, .mapFull hp hfull, ?_⟩
          intro tr ho
          have hgot := tableGot_of_ok (getPageTable_full hs.dir ho.1 hp hfull.alloc)
          have hret : Op.perform tr (.map v p fl) s.machine = .ok 0#32 s.machine :=
            bind_ok (mapPageToFrame_full p fl hs.dir ho.1 hp hfull.alloc)
          have hnew : createdTable tr v s.machine = ∅ := by
            rw [createdTable, hgot, if_neg fun h => h.2 rfl]
          rw [exec_ok hfault hallow hret]
          simp only [Sys.record, hnew, hgot, if_pos, Finset.union_empty]
  | unmap v => exact exec_unmap hs.dir hfault (hs.table v hop)

/-- Direct accesses open every frame. -/
theorem opens_direct (d : Nat) (m : Machine) (op : Op) : Opens direct d m op := by
  cases op with
  | kmalloc => exact fun k _ => reachesStably_direct _ _ k
  | kfree a => exact trivial
  | map v p fl =>
      exact ⟨reaches_direct _ _ _, fun _ => reaches_direct _ _ _, fun _ k _ =>
        ⟨reachesStably_direct _ _ k, reaches_direct _ _ _, reaches_direct _ _ _⟩⟩
  | unmap v => exact ⟨reaches_direct _ _ _, fun _ => reaches_direct _ _ _⟩

/-- With direct accesses every allowed call is a step. -/
theorem step_of_exec_direct {op : Op} {s' : Sys} (hs : Founded d s.machine P) (hop : op.At P)
    (hfault : s.fault = none) (h : exec direct s op = some s') : Step d s op s' := by
  obtain ⟨t, hstep, ht⟩ := exec_step hs hop hfault (allows_of_exec hfault h)
  rw [ht direct (opens_direct d s.machine op)] at h
  exact Option.some.inj h ▸ hstep

end Connection

end RedOS
