/-
# `RedOS.Lib.X86Segment` — segments of a 32-bit x86 in protected mode

A descriptor is eight bytes of a table, with its base and its limit in pieces.
Loading a segment register looks the selector up, checks the descriptor against
the privilege level, and keeps it: from then on the register translates offsets
without the table.  A fault is `none`.

    load_some                                what a load leaves behind
    flat_reads, flat_writes, flat_fetches    a flat segment is the identity

There is one table, the global one; a selector with the table indicator set is
refused, and so is a jump through a gate.
-/
import RedOS.Lib.ByteMemory

namespace X86Segment

open ByteMemory

/-! ## Descriptors -/

structure Descriptor where
  base : BitVec 32
  limit : BitVec 20
  access : BitVec 8
  /-- granularity, default size, long mode, available -/
  flags : BitVec 4
  deriving DecidableEq, Repr

/-- The descriptor in the eight bytes from `p` on. -/
def descriptorAt (m : Mem) (p : Addr) : Descriptor where
  base := m (p + 7) ++ m (p + 4) ++ load16 m (p + 2)
  limit := (m (p + 6)).extractLsb' 0 4 ++ load16 m p
  access := m (p + 5)
  flags := (m (p + 6)).extractLsb' 4 4

namespace Descriptor

variable (d : Descriptor)

def present : Bool := d.access.getLsbD 7

/-- The descriptor privilege level. -/
def dpl : BitVec 2 := d.access.extractLsb' 5 2

/-- Of code or data; the others are gates and the like. -/
def isSegment : Bool := d.access.getLsbD 4

def executable : Bool := d.access.getLsbD 3

/-- Bit 2 of the access byte: conforming code, data that expands down. -/
def direction : Bool := d.access.getLsbD 2

/-- Bit 1: readable code, writable data. -/
def permitted : Bool := d.access.getLsbD 1

/-- 32-bit operands, or a 32-bit stack pointer. -/
def big : Bool := d.flags.getLsbD 2

/-- The last offset, in bytes. -/
def limitBytes : Nat := if d.flags.getLsbD 3 then d.limit.toNat * 4096 + 4095 else d.limit.toNat

/-- The `n` bytes from `offset` on are in the segment. -/
def reaches (offset : BitVec 32) (n : Nat) : Bool :=
  if !d.executable && d.direction then
    decide (d.limitBytes < offset.toNat ∧ offset.toNat + n ≤ if d.big then 2 ^ 32 else 2 ^ 16)
  else decide (offset.toNat + n ≤ d.limitBytes + 1)

/-- What the processor leaves in the table when it has loaded the descriptor. -/
def touched : Descriptor := { d with access := d.access ||| 1#8 }

end Descriptor

/-! ## Segment registers -/

/-- A register: the selector, and the descriptor that was loaded with it, none
for a null selector. -/
structure Register where
  selector : BitVec 16
  hidden : Option Descriptor
  deriving DecidableEq, Repr

namespace Register

/-- Linear address of a read of `n` bytes. -/
def read (r : Register) (offset : BitVec 32) (n : Nat) : Option Addr :=
  match r.hidden with
  | none => none
  | some d => if (!d.executable || d.permitted) && d.reaches offset n then some (d.base + offset) else none

/-- Linear address of a write of `n` bytes. -/
def write (r : Register) (offset : BitVec 32) (n : Nat) : Option Addr :=
  match r.hidden with
  | none => none
  | some d => if !d.executable && d.permitted && d.reaches offset n then some (d.base + offset) else none

/-- Linear address of an instruction of `n` bytes. -/
def fetch (r : Register) (offset : BitVec 32) (n : Nat) : Option Addr :=
  match r.hidden with
  | none => none
  | some d => if d.executable && d.reaches offset n then some (d.base + offset) else none

/-- The requested privilege level; in CS, the current one. -/
def rpl (r : Register) : BitVec 2 := r.selector.extractLsb' 0 2

end Register

/-- GDTR -/
structure Table where
  base : Addr
  limit : BitVec 16
  deriving DecidableEq, Repr

/-- The index of a selector. -/
def index (selector : BitVec 16) : Nat := (selector.extractLsb' 3 13).toNat

/-- Where the descriptor of a selector is; `none` outside the table. -/
def Table.lookup (t : Table) (selector : BitVec 16) : Option Addr :=
  if !selector.getLsbD 2 && decide (8 * index selector + 7 ≤ t.limit.toNat) then
    some (t.base + BitVec.ofNat 32 (8 * index selector))
  else none

/-- The processor sets bit 0 of the access byte when it loads a descriptor. -/
def touch (m : Mem) (p : Addr) : Mem := store8 m (p + 5) (m (p + 5) ||| 1#8)

/-- A register with the descriptor at `p`, once the checks are done. -/
def loaded (selector : BitVec 16) (p : Addr) (m : Mem) : Register × Mem :=
  (⟨selector, some (descriptorAt m p).touched⟩, touch m p)

/-- A load of DS, ES, FS or GS at the privilege level `cpl`. -/
def loadData (t : Table) (cpl : BitVec 2) (selector : BitVec 16) (m : Mem) : Option (Register × Mem) :=
  if index selector = 0 && !selector.getLsbD 2 then some (⟨selector, none⟩, m)
  else
    match t.lookup selector with
    | none => none
    | some p =>
        let d := descriptorAt m p
        let allowed := (d.executable && d.direction) ||
          (decide ((selector.extractLsb' 0 2).toNat ≤ d.dpl.toNat) && decide (cpl.toNat ≤ d.dpl.toNat))
        if d.isSegment && (!d.executable || d.permitted) && allowed && d.present then
          some (loaded selector p m)
        else none

/-- A load of SS. -/
def loadStack (t : Table) (cpl : BitVec 2) (selector : BitVec 16) (m : Mem) : Option (Register × Mem) :=
  if index selector = 0 && !selector.getLsbD 2 then none
  else
    match t.lookup selector with
    | none => none
    | some p =>
        let d := descriptorAt m p
        if selector.extractLsb' 0 2 = cpl && d.isSegment && !d.executable && d.permitted && d.dpl = cpl
            && d.present then
          some (loaded selector p m)
        else none

/-- A far jump: CS gets the selector with the privilege level it had. -/
def loadCode (t : Table) (cpl : BitVec 2) (selector : BitVec 16) (m : Mem) : Option (Register × Mem) :=
  if index selector = 0 && !selector.getLsbD 2 then none
  else
    match t.lookup selector with
    | none => none
    | some p =>
        let d := descriptorAt m p
        let allowed := if d.direction then decide (d.dpl.toNat ≤ cpl.toNat)
          else decide ((selector.extractLsb' 0 2).toNat ≤ cpl.toNat) && d.dpl = cpl
        if d.isSegment && d.executable && allowed && d.present then
          some (loaded (selector.extractLsb' 2 14 ++ cpl) p m)
        else none

/-! ## What a load does -/

/-- The three kinds of load. -/
inductive Load
  | data
  | stack
  | code
  deriving DecidableEq, Repr

def Load.run : Load → Table → BitVec 2 → BitVec 16 → Mem → Option (Register × Mem)
  | .data => loadData
  | .stack => loadStack
  | .code => loadCode

/-- A load that goes through leaves a null selector, or the descriptor that the
table has for the selector, marked in both places. -/
theorem load_some {l : Load} {t : Table} {cpl : BitVec 2} {selector : BitVec 16} {m m' : Mem} {r : Register}
    (h : l.run t cpl selector m = some (r, m')) :
    (r.hidden = none ∧ m' = m) ∨
      ∃ p, t.lookup selector = some p ∧ r.hidden = some (descriptorAt m p).touched ∧ m' = touch m p := by
  have hloaded : ∀ {s : BitVec 16} {p : Addr}, some (loaded s p m) = some (r, m') →
      r.hidden = some (descriptorAt m p).touched ∧ m' = touch m p := by
    intro s p hsome
    obtain ⟨rfl, rfl⟩ := Prod.mk.inj (Option.some.inj hsome)
    exact ⟨rfl, rfl⟩
  cases l with
  | data =>
      change loadData t cpl selector m = _ at h
      unfold loadData at h
      split at h
      · obtain ⟨rfl, rfl⟩ := Prod.mk.inj (Option.some.inj h)
        exact .inl ⟨rfl, rfl⟩
      split at h
      · nomatch h
      next p hp =>
        obtain ⟨-, hsome⟩ := Option.ite_none_right_eq_some.mp h
        exact .inr ⟨p, hp, hloaded hsome⟩
  | stack =>
      change loadStack t cpl selector m = _ at h
      unfold loadStack at h
      split at h
      · nomatch h
      split at h
      · nomatch h
      next p hp =>
        obtain ⟨-, hsome⟩ := Option.ite_none_right_eq_some.mp h
        exact .inr ⟨p, hp, hloaded hsome⟩
  | code =>
      change loadCode t cpl selector m = _ at h
      unfold loadCode at h
      split at h
      · nomatch h
      split at h
      · nomatch h
      next p hp =>
        obtain ⟨-, hsome⟩ := Option.ite_none_right_eq_some.mp h
        exact .inr ⟨p, hp, hloaded hsome⟩

/-! ## Reading a descriptor -/

theorem descriptorAt_congr {m m' : Mem} {p : Addr} (h : ∀ q, InBlock p 8 q → m q = m' q) :
    descriptorAt m p = descriptorAt m' p := by
  have hbyte : ∀ i : Nat, i < 8 → m (p + BitVec.ofNat 32 i) = m' (p + BitVec.ofNat 32 i) := by
    intro i hi
    exact h _ (inBlock_offset p hi (by decide))
  have hlow : load16 m p = load16 m' p :=
    load16_congr fun q hq => h q (Nat.lt_trans hq (by decide))
  have hmiddle : load16 m (p + 2) = load16 m' (p + 2) := by
    refine load16_congr ?_
    intro q hq
    refine h q ?_
    unfold InBlock at hq ⊢
    bv_omega
  unfold descriptorAt
  rw [hlow, hmiddle, show m (p + 4) = m' (p + 4) from hbyte 4 (by decide),
    show m (p + 5) = m' (p + 5) from hbyte 5 (by decide),
    show m (p + 6) = m' (p + 6) from hbyte 6 (by decide),
    show m (p + 7) = m' (p + 7) from hbyte 7 (by decide)]

/-- The mark of the processor changes the access byte and nothing else. -/
theorem touch_apply_ne (m : Mem) {p q : Addr} (h : q ≠ p + 5) : touch m p q = m q :=
  store8_ne m _ h

theorem descriptorAt_touch (m : Mem) (p : Addr) :
    descriptorAt (touch m p) p = (descriptorAt m p).touched := by
  have hne : ∀ i : BitVec 32, i ≠ 5#32 → touch m p (p + i) = m (p + i) := by
    intro i hi
    refine touch_apply_ne m ?_
    intro h
    exact hi (BitVec.add_right_inj p |>.mp h)
  have hlow : load16 (touch m p) p = load16 m p := by
    have hzero := hne 0#32 (by decide)
    rw [BitVec.add_zero] at hzero
    unfold load16
    rw [hzero, show touch m p (p + 1) = m (p + 1) from hne 1#32 (by decide)]
  have hmiddle : load16 (touch m p) (p + 2) = load16 m (p + 2) := by
    unfold load16
    rw [BitVec.add_assoc, show touch m p (p + 2) = m (p + 2) from hne 2#32 (by decide),
      show touch m p (p + (2 + 1)) = m (p + (2 + 1)) from hne 3#32 (by decide)]
  unfold descriptorAt
  rw [hlow, hmiddle, show touch m p (p + 4) = m (p + 4) from hne 4#32 (by decide),
    show touch m p (p + 6) = m (p + 6) from hne 6#32 (by decide),
    show touch m p (p + 7) = m (p + 7) from hne 7#32 (by decide)]
  exact congrArg (fun a => Descriptor.mk _ _ a _) (store8_self m (p + 5) _)

/-! ## Flat segments -/

/-- From 0 to the end of the address space. -/
structure Descriptor.Flat (d : Descriptor) : Prop where
  base : d.base = 0#32
  limit : d.limitBytes = 2 ^ 32 - 1
  upward : (!d.executable && d.direction) = false

theorem Descriptor.Flat.reaches {d : Descriptor} (hd : d.Flat) {offset : BitVec 32} {n : Nat}
    (h : offset.toNat + n ≤ 2 ^ 32) : d.reaches offset n = true := by
  unfold Descriptor.reaches
  rw [hd.upward, if_neg Bool.false_ne_true, hd.limit]
  exact decide_eq_true h

section Flat

variable {r : Register} {d : Descriptor} {offset : BitVec 32} {n : Nat}

theorem flat_reads (hr : r.hidden = some d) (hd : d.Flat) (hpermitted : (!d.executable || d.permitted) = true)
    (h : offset.toNat + n ≤ 2 ^ 32) : r.read offset n = some offset := by
  unfold Register.read
  rw [hr]
  dsimp only
  rw [hpermitted, hd.reaches h, hd.base, BitVec.zero_add]
  rfl

theorem flat_writes (hr : r.hidden = some d) (hd : d.Flat) (hpermitted : (!d.executable && d.permitted) = true)
    (h : offset.toNat + n ≤ 2 ^ 32) : r.write offset n = some offset := by
  unfold Register.write
  rw [hr]
  dsimp only
  rw [hpermitted, hd.reaches h, hd.base, BitVec.zero_add]
  rfl

theorem flat_fetches (hr : r.hidden = some d) (hd : d.Flat) (hexecutable : d.executable = true)
    (h : offset.toNat + n ≤ 2 ^ 32) : r.fetch offset n = some offset := by
  unfold Register.fetch
  rw [hr]
  dsimp only
  rw [hexecutable, hd.reaches h, hd.base, BitVec.zero_add]
  rfl

end Flat

end X86Segment
