/-
# `RedOS.Lib.Uart16550` — a serial port between the processor and the line

A 16550: a transmitter (FIFO and shift register), a receiver (FIFO), and the
registers the processor sets.  Bytes are the unit; how long one takes is not
modelled.  A history lists, in order, what happens on the line (`Event`) and what
the processor does at the registers (`Access`); a read is refused with a value
the port does not give, and what it gives where the data sheet says nothing can be
anything.  In loopback mode the transmitter feeds the receiver and the line is
cut off at both ends.

    run_regs       the registers follow from the writes alone
    run_through    reads lose, repeat and reorder nothing that is on its way out
    run_loopback   in loopback mode nothing gets on the line
    run_receives   what is in the receiver came in, in the order it came
    run_loops      a byte sent in loopback mode comes back
-/
import Mathlib.Data.List.Basic
import RedOS.Lib.Runs

namespace Uart16550

/-! ## The port -/

/-- What only the processor changes. -/
structure Regs where
  /-- interrupt enable -/
  ier : BitVec 8
  /-- FIFO control, as last written -/
  fcr : BitVec 8
  /-- line control -/
  lcr : BitVec 8
  /-- modem control -/
  mcr : BitVec 8
  /-- divisor latch, low and high byte -/
  dll : BitVec 8
  dlm : BitVec 8
  deriving DecidableEq, Repr

namespace Regs

/-- The divisor latch takes the place of the registers at 0 and 1. -/
def dlab (r : Regs) : Bool := r.lcr.getLsbD 7

def loopback (r : Regs) : Bool := r.mcr.getLsbD 4

def fifo (r : Regs) : Bool := r.fcr.getLsbD 0

/-- How many bytes each side holds. -/
def depth (r : Regs) : Nat := if r.fifo then 16 else 1

theorem depth_pos (r : Regs) : 0 < r.depth := by
  unfold depth
  split
  · decide
  · decide

end Regs

structure State where
  regs : Regs
  /-- receiver, oldest byte first -/
  rx : List (BitVec 8)
  /-- transmitter, oldest byte first -/
  tx : List (BitVec 8)
  /-- the byte being sent -/
  shifter : Option (BitVec 8)
  /-- the bytes sent so far -/
  wire : List (BitVec 8)
  /-- how many received bytes found no room -/
  lost : Nat
  deriving DecidableEq, Repr

inductive Event
  /-- the shift register takes the next byte -/
  | load
  /-- its byte is out -/
  | finish
  /-- a byte comes in on the line -/
  | arrive (b : BitVec 8)
  deriving DecidableEq, Repr

/-- An access to the register at an offset. -/
inductive Access
  | read (offset : BitVec 16) (value : BitVec 8)
  | write (offset : BitVec 16) (value : BitVec 8)
  deriving DecidableEq, Repr

inductive Happening
  | line (e : Event)
  | port (a : Access)
  deriving DecidableEq, Repr

/-- The registers after a write.  FIFO control is not written unless it enables
the FIFOs. -/
def Regs.write (r : Regs) (offset : BitVec 16) (value : BitVec 8) : Regs :=
  if offset = 0#16 then if r.dlab then { r with dll := value } else r
  else if offset = 1#16 then
    if r.dlab then { r with dlm := value } else { r with ier := value }
  else if offset = 2#16 then { r with fcr := if value.getLsbD 0 then value else 0#8 }
  else if offset = 3#16 then { r with lcr := value }
  else if offset = 4#16 then { r with mcr := value }
  else r

namespace State

/-- A byte gets to the receiver.  With the FIFO it is lost when there is no room,
without it takes the place of the one not read. -/
def receive (b : BitVec 8) (s : State) : State :=
  if s.rx.length < s.regs.depth then { s with rx := s.rx ++ [b] }
  else if s.regs.fifo then { s with lost := s.lost + 1 }
  else { s with rx := [b], lost := s.lost + 1 }

def event : Event → State → State
  | .load, s =>
      match s.shifter, s.tx with
      | none, b :: tx => { s with shifter := some b, tx := tx }
      | _, _ => s
  | .finish, s =>
      match s.shifter with
      | none => s
      | some b =>
          if s.regs.loopback then { s with shifter := none }.receive b
          else { s with shifter := none, wire := s.wire ++ [b] }
  | .arrive b, s => if s.regs.loopback then s else s.receive b

/-- A byte for the transmitter, lost where it is full. -/
def transmit (b : BitVec 8) (s : State) : State :=
  if s.tx.length < s.regs.depth then { s with tx := s.tx ++ [b] }
  else if s.regs.fifo then s
  else { s with tx := [b] }

/-- Whether a write to FIFO control empties the side its bit `i` is for: when the
bit says so, and when the FIFOs are turned on or off. -/
def clears (i : Nat) (value : BitVec 8) (s : State) : Bool :=
  (value.getLsbD 0 && value.getLsbD i) || value.getLsbD 0 != s.regs.fifo

def write (offset : BitVec 16) (value : BitVec 8) (s : State) : State :=
  let t := { s with regs := s.regs.write offset value }
  if offset = 0#16 then if s.regs.dlab then t else s.transmit value
  else if offset = 2#16 then
    { t with
      rx := if s.clears 1 value then [] else s.rx
      tx := if s.clears 2 value then [] else s.tx }
  else t

/-- The values a read can give.  An empty receiver gives anything, and so do the
registers that are not modelled and the error bits of the line status. -/
def Gives (s : State) (offset : BitVec 16) (value : BitVec 8) : Prop :=
  if offset = 0#16 then
    if s.regs.dlab then value = s.regs.dll else ∀ b ∈ s.rx.head?, value = b
  else if offset = 1#16 then value = if s.regs.dlab then s.regs.dlm else s.regs.ier
  else if offset = 3#16 then value = s.regs.lcr
  else if offset = 4#16 then value = s.regs.mcr
  else if offset = 5#16 then
    value.getLsbD 0 = !s.rx.isEmpty ∧ value.getLsbD 5 = s.tx.isEmpty ∧
      value.getLsbD 6 = (s.tx.isEmpty && s.shifter.isNone)
  else True

instance (s : State) (offset : BitVec 16) (value : BitVec 8) : Decidable (s.Gives offset value) := by
  unfold Gives
  infer_instance

/-- Reading the receiver takes the byte out. -/
def afterRead (offset : BitVec 16) (s : State) : State :=
  if offset = 0#16 ∧ s.regs.dlab = false then { s with rx := s.rx.tail } else s

def step (s : State) : Happening → Option State
  | .line e => some (s.event e)
  | .port (.read offset value) => if s.Gives offset value then some (s.afterRead offset) else none
  | .port (.write offset value) => some (s.write offset value)

/-- What has been sent and what is on its way out, oldest byte first. -/
def out (s : State) : List (BitVec 8) := s.wire ++ s.shifter.toList ++ s.tx

end State

/-- The accesses of a history. -/
def ports : List Happening → List Access
  | [] => []
  | .line _ :: h => ports h
  | .port a :: h => a :: ports h

/-- The bytes that come in on the line. -/
def arrivals : List Happening → List (BitVec 8)
  | [] => []
  | .line (.arrive b) :: h => b :: arrivals h
  | _ :: h => arrivals h

/-! ## Histories -/

theorem ports_append : ∀ h h' : List Happening, ports (h ++ h') = ports h ++ ports h'
  | [], _ => rfl
  | .line _ :: h, h' => ports_append h h'
  | .port a :: h, h' => congrArg (a :: ·) (ports_append h h')

theorem arrivals_append : ∀ h h' : List Happening, arrivals (h ++ h') = arrivals h ++ arrivals h'
  | [], _ => rfl
  | .line (.arrive b) :: h, h' => congrArg (b :: ·) (arrivals_append h h')
  | .line .load :: h, h' => arrivals_append h h'
  | .line .finish :: h, h' => arrivals_append h h'
  | .port _ :: h, h' => arrivals_append h h'

/-- A history of accesses one after another, cut between two of them. -/
theorem ports_cut : ∀ {h : List Happening} {as bs : List Access}, ports h = as ++ bs →
    ∃ h₁ h₂, h = h₁ ++ h₂ ∧ ports h₁ = as ∧ ports h₂ = bs
  | h, [], bs, hp => ⟨[], h, rfl, rfl, hp⟩
  | [], a :: as, bs, hp => nomatch hp
  | .line e :: h, a :: as, bs, hp => by
      have hrest : ports h = (a :: as) ++ bs := hp
      obtain ⟨h₁, h₂, rfl, hp₁, hp₂⟩ := ports_cut hrest
      exact ⟨.line e :: h₁, h₂, rfl, hp₁, hp₂⟩
  | .port c :: h, a :: as, bs, hp => by
      obtain ⟨rfl, hrest⟩ := List.cons.inj hp
      obtain ⟨h₁, h₂, rfl, hp₁, hp₂⟩ := ports_cut hrest
      exact ⟨.port c :: h₁, h₂, rfl, congrArg (c :: ·) hp₁, hp₂⟩

/-- The same for a run. -/
theorem run_cut {s s' : State} {h : List Happening} {as bs : List Access}
    (hrun : Runs.run State.step s h = some s') (hp : ports h = as ++ bs) :
    ∃ h₁ h₂ t, h = h₁ ++ h₂ ∧ ports h₁ = as ∧ ports h₂ = bs ∧
      Runs.run State.step s h₁ = some t ∧ Runs.run State.step t h₂ = some s' := by
  obtain ⟨h₁, h₂, rfl, hp₁, hp₂⟩ := ports_cut hp
  rw [Runs.run_append] at hrun
  obtain ⟨t, ht, hrest⟩ := Option.bind_eq_some_iff.mp hrun
  exact ⟨h₁, h₂, t, rfl, hp₁, hp₂, ht, hrest⟩

/-- One access, with what happens on the line before and after it. -/
theorem run_port {s s' : State} {h : List Happening} {a : Access}
    (hrun : Runs.run State.step s h = some s') (hp : ports h = [a]) :
    ∃ h₁ h₂ t t', h = h₁ ++ .port a :: h₂ ∧ ports h₁ = [] ∧ ports h₂ = [] ∧
      Runs.run State.step s h₁ = some t ∧ t.step (.port a) = some t' ∧
      Runs.run State.step t' h₂ = some s' := by
  induction h generalizing s with
  | nil => nomatch hp
  | cons x h ih =>
      obtain ⟨t, ht, hrest⟩ := Runs.run_cons_some.mp hrun
      cases x with
      | line e =>
          obtain ⟨h₁, h₂, u, u', rfl, hp₁, hp₂, hu, hport, hu'⟩ := ih hrest hp
          exact ⟨.line e :: h₁, h₂, u, u', rfl, hp₁, hp₂, Runs.run_cons_some.mpr ⟨t, ht, hu⟩,
            hport, hu'⟩
      | port c =>
          obtain ⟨rfl, hnone⟩ := List.cons.inj hp
          exact ⟨[], h, s, t, rfl, rfl, hnone, rfl, ht, hrest⟩

/-! ## The registers -/

namespace State

@[simp] theorem receive_regs (b : BitVec 8) (s : State) : (s.receive b).regs = s.regs := by
  unfold receive
  split
  · rfl
  split
  · rfl
  · rfl

@[simp] theorem event_regs (e : Event) (s : State) : (s.event e).regs = s.regs := by
  unfold event
  cases e with
  | load =>
      dsimp only
      split
      · rfl
      · rfl
  | finish =>
      dsimp only
      split
      · rfl
      split
      · exact receive_regs _ _
      · rfl
  | arrive b =>
      dsimp only
      split
      · rfl
      · exact receive_regs b s

@[simp] theorem transmit_regs (b : BitVec 8) (s : State) : (s.transmit b).regs = s.regs := by
  unfold transmit
  split
  · rfl
  split
  · rfl
  · rfl

theorem write_regs (offset : BitVec 16) (value : BitVec 8) (s : State) :
    (s.write offset value).regs = s.regs.write offset value := by
  unfold write
  dsimp only
  split
  next hdata =>
    split
    · rfl
    next hdlab =>
      rw [transmit_regs]
      unfold Regs.write
      rw [if_pos hdata, if_neg hdlab]
  next =>
    split
    · rfl
    · rfl

@[simp] theorem afterRead_regs (offset : BitVec 16) (s : State) :
    (s.afterRead offset).regs = s.regs := by
  unfold afterRead
  split
  · rfl
  · rfl

end State

/-- What an access does to the registers. -/
def Regs.access (r : Regs) : Access → Regs
  | .read _ _ => r
  | .write offset value => r.write offset value

theorem step_port_regs {s s' : State} {a : Access} (h : s.step (.port a) = some s') :
    s'.regs = s.regs.access a := by
  cases a with
  | read offset value =>
      unfold State.step at h
      dsimp only at h
      split at h
      · obtain rfl := Option.some.inj h
        exact s.afterRead_regs offset
      · nomatch h
  | write offset value =>
      obtain rfl := Option.some.inj h
      exact s.write_regs offset value

/-- The registers after a history: only its writes count. -/
theorem run_regs {s s' : State} {h : List Happening} (hrun : Runs.run State.step s h = some s') :
    s'.regs = (ports h).foldl Regs.access s.regs := by
  induction h generalizing s with
  | nil => exact congrArg State.regs (Option.some.inj hrun).symm
  | cons x h ih =>
      obtain ⟨t, ht, hrest⟩ := Runs.run_cons_some.mp hrun
      rw [ih hrest]
      cases x with
      | line e =>
          obtain rfl := Option.some.inj ht
          rw [State.event_regs]
          rfl
      | port a =>
          rw [step_port_regs ht]
          rfl

/-- Reads leave the registers alone. -/
theorem foldl_reads {as : List Access} (hreads : ∀ a ∈ as, ∃ o v, a = .read o v) (r : Regs) :
    as.foldl Regs.access r = r := by
  induction as with
  | nil => rfl
  | cons a as ih =>
      obtain ⟨o, v, rfl⟩ := hreads a List.mem_cons_self
      exact ih fun b hb => hreads b (List.mem_cons_of_mem _ hb)

/-! ## The way out -/

namespace State

@[simp] theorem receive_out (b : BitVec 8) (s : State) : (s.receive b).out = s.out := by
  unfold receive
  split
  · rfl
  split
  · rfl
  · rfl

@[simp] theorem receive_tx (b : BitVec 8) (s : State) : (s.receive b).tx = s.tx := by
  unfold receive
  split
  · rfl
  split
  · rfl
  · rfl

@[simp] theorem receive_wire (b : BitVec 8) (s : State) : (s.receive b).wire = s.wire := by
  unfold receive
  split
  · rfl
  split
  · rfl
  · rfl

@[simp] theorem transmit_wire (b : BitVec 8) (s : State) : (s.transmit b).wire = s.wire := by
  unfold transmit
  split
  · rfl
  split
  · rfl
  · rfl

@[simp] theorem write_wire (offset : BitVec 16) (value : BitVec 8) (s : State) :
    (s.write offset value).wire = s.wire := by
  unfold write
  dsimp only
  split
  · split
    · rfl
    · exact transmit_wire value s
  split
  · rfl
  · rfl

@[simp] theorem afterRead_wire (offset : BitVec 16) (s : State) :
    (s.afterRead offset).wire = s.wire := by
  unfold afterRead
  split
  · rfl
  · rfl

@[simp] theorem afterRead_tx (offset : BitVec 16) (s : State) : (s.afterRead offset).tx = s.tx := by
  unfold afterRead
  split
  · rfl
  · rfl

@[simp] theorem afterRead_out (offset : BitVec 16) (s : State) :
    (s.afterRead offset).out = s.out := by
  unfold afterRead
  split
  · rfl
  · rfl

/-- Outside loopback mode nothing on its way out is lost, repeated or overtaken. -/
theorem event_out {s : State} (hline : s.regs.loopback = false) (e : Event) :
    (s.event e).out = s.out := by
  unfold event
  cases e with
  | load =>
      dsimp only
      split
      next hidle htx =>
        unfold out
        rw [hidle, htx, Option.toList_none, Option.toList_some, List.append_nil, List.append_assoc]
        rfl
      · rfl
  | finish =>
      dsimp only
      split
      · rfl
      next b hbusy =>
        rw [if_neg (by rw [hline]; exact Bool.false_ne_true)]
        unfold out
        rw [hbusy, Option.toList_none, Option.toList_some, List.append_nil]
  | arrive b =>
      dsimp only
      rw [if_neg (by rw [hline]; exact Bool.false_ne_true)]
      exact receive_out b s

theorem event_tx (e : Event) (s : State) : (s.event e).tx <:+ s.tx := by
  have hreceive : ∀ (b : BitVec 8) (t : State), t.tx = s.tx → (t.receive b).tx <:+ s.tx := fun b t ht =>
    ((receive_tx b t).trans ht) ▸ List.suffix_rfl
  unfold event
  cases e with
  | load =>
      dsimp only
      split
      next b tx _ htx =>
        rw [htx]
        exact List.suffix_cons b tx
      · exact List.suffix_rfl
  | finish =>
      dsimp only
      split
      · exact List.suffix_rfl
      split
      · exact hreceive _ _ rfl
      · exact List.suffix_rfl
  | arrive b =>
      dsimp only
      split
      · exact List.suffix_rfl
      · exact hreceive b s rfl

theorem event_wire {s : State} (hloop : s.regs.loopback = true) (e : Event) :
    (s.event e).wire = s.wire := by
  unfold event
  cases e with
  | load =>
      dsimp only
      split
      · rfl
      · rfl
  | finish =>
      dsimp only
      split
      · rfl
      · rw [if_pos hloop]
        exact receive_wire _ _
  | arrive b =>
      dsimp only
      rw [if_pos hloop]

theorem write_data {s : State} (hdlab : s.regs.dlab = false) (hroom : s.tx.length < s.regs.depth)
    (value : BitVec 8) : s.write 0#16 value = { s with tx := s.tx ++ [value] } := by
  unfold write transmit
  dsimp only
  rw [if_pos rfl, if_neg (by rw [hdlab]; exact Bool.false_ne_true), if_pos hroom]

/-- A byte written while there is room goes out after all the others. -/
theorem write_out {s : State} (hdlab : s.regs.dlab = false) (hroom : s.tx.length < s.regs.depth)
    (value : BitVec 8) :
    (s.write 0#16 value).out = s.out ++ [value] ∧ (s.write 0#16 value).tx = s.tx ++ [value] := by
  rw [write_data hdlab hroom]
  constructor
  · exact (List.append_assoc _ _ _).symm
  · rfl

end State

theorem step_read {s s' : State} {offset : BitVec 16} {value : BitVec 8}
    (h : s.step (.port (.read offset value)) = some s') :
    s.Gives offset value ∧ s' = s.afterRead offset := by
  unfold State.step at h
  dsimp only at h
  split at h
  next hgives => exact ⟨hgives, (Option.some.inj h).symm⟩
  · nomatch h

/-- Reads and the line: what is on its way out stays so. -/
theorem run_through {s s' : State} {h : List Happening} (hrun : Runs.run State.step s h = some s')
    (hreads : ∀ a ∈ ports h, ∃ o v, a = .read o v) (hline : s.regs.loopback = false) :
    s'.out = s.out ∧ s'.tx <:+ s.tx := by
  induction h generalizing s with
  | nil =>
      obtain rfl := Option.some.inj hrun
      exact ⟨rfl, List.suffix_rfl⟩
  | cons x h ih =>
      obtain ⟨t, ht, hrest⟩ := Runs.run_cons_some.mp hrun
      cases x with
      | line e =>
          obtain rfl := Option.some.inj ht
          have hline' : (s.event e).regs.loopback = false := by rw [State.event_regs, hline]
          obtain ⟨hout, htx⟩ := ih hrest hreads hline'
          exact ⟨hout.trans (State.event_out hline e), htx.trans (State.event_tx e s)⟩
      | port a =>
          obtain ⟨o, v, rfl⟩ := hreads a List.mem_cons_self
          obtain ⟨-, rfl⟩ := step_read ht
          have hline' : (s.afterRead o).regs.loopback = false := by rw [State.afterRead_regs, hline]
          obtain ⟨hout, htx⟩ := ih hrest (fun b hb => hreads b (List.mem_cons_of_mem _ hb)) hline'
          rw [State.afterRead_out] at hout
          rw [State.afterRead_tx] at htx
          exact ⟨hout, htx⟩

theorem write_tx {offset : BitVec 16} (hoffset : offset ≠ 0#16) (value : BitVec 8) (s : State) :
    (s.write offset value).tx.length ≤ s.tx.length := by
  unfold State.write
  dsimp only
  rw [if_neg hoffset]
  split
  · dsimp only
    split
    · exact Nat.zero_le _
    · exact Nat.le_refl _
  · exact Nat.le_refl _

/-- The transmitter fills only with what is written to it. -/
theorem run_tx {s s' : State} {h : List Happening} (hrun : Runs.run State.step s h = some s')
    (hports : ∀ v, Access.write 0#16 v ∉ ports h) : s'.tx.length ≤ s.tx.length := by
  induction h generalizing s with
  | nil => exact Option.some.inj hrun ▸ Nat.le_refl _
  | cons x h ih =>
      obtain ⟨t, ht, hrest⟩ := Runs.run_cons_some.mp hrun
      cases x with
      | line e =>
          obtain rfl := Option.some.inj ht
          exact Nat.le_trans (ih hrest hports) (State.event_tx e s).length_le
      | port a =>
          refine Nat.le_trans (ih hrest fun v hv => hports v (List.mem_cons_of_mem _ hv)) ?_
          cases a with
          | read o v =>
              obtain ⟨-, rfl⟩ := step_read ht
              exact Nat.le_of_eq (congrArg List.length (State.afterRead_tx o s))
          | write o v =>
              obtain rfl := Option.some.inj ht
              exact write_tx (fun ho => hports v (ho ▸ List.mem_cons_self)) v s

/-- Emptying the transmitter. -/
theorem run_clear {s s' : State} {h : List Happening} {value : BitVec 8}
    (hrun : Runs.run State.step s h = some s') (hports : ports h = [.write 2#16 value])
    (henable : value.getLsbD 0 = true) (hclear : value.getLsbD 2 = true) : s'.tx = [] := by
  obtain ⟨g₁, g₂, t, t', rfl, -, hp₂, -, hwrite, hrun₂⟩ := run_port hrun hports
  obtain rfl := Option.some.inj hwrite
  have hempty : (t.write 2#16 value).tx = [] := by
    unfold State.write State.clears
    dsimp only
    rw [if_neg (by decide), if_pos rfl, henable, hclear]
    rfl
  have hlen := run_tx hrun₂ (by
    rw [hp₂]
    exact fun v hv => nomatch hv)
  rw [hempty, List.length_nil] at hlen
  exact List.eq_nil_of_length_eq_zero (Nat.le_zero.mp hlen)

/-- In loopback mode, as long as it is not left, nothing gets on the line. -/
theorem run_loopback {s s' : State} {h : List Happening} (hrun : Runs.run State.step s h = some s')
    (hkeep : ∀ v, Access.write 4#16 v ∉ ports h) (hloop : s.regs.loopback = true) :
    s'.wire = s.wire ∧ s'.regs.loopback = true := by
  induction h generalizing s with
  | nil =>
      obtain rfl := Option.some.inj hrun
      exact ⟨rfl, hloop⟩
  | cons x h ih =>
      obtain ⟨t, ht, hrest⟩ := Runs.run_cons_some.mp hrun
      cases x with
      | line e =>
          obtain rfl := Option.some.inj ht
          have hloop' : (s.event e).regs.loopback = true := by rw [State.event_regs, hloop]
          obtain ⟨hwire, hlast⟩ := ih hrest hkeep hloop'
          exact ⟨hwire.trans (State.event_wire hloop e), hlast⟩
      | port a =>
          have hkeep' : ∀ v, Access.write 4#16 v ∉ ports h := fun v hv =>
            hkeep v (List.mem_cons_of_mem _ hv)
          cases a with
          | read o v =>
              obtain ⟨-, rfl⟩ := step_read ht
              have hloop' : (s.afterRead o).regs.loopback = true := by
                rw [State.afterRead_regs, hloop]
              obtain ⟨hwire, hlast⟩ := ih hrest hkeep' hloop'
              exact ⟨hwire.trans (State.afterRead_wire o s), hlast⟩
          | write o v =>
              obtain rfl := Option.some.inj ht
              have hoffset : o ≠ 4#16 := fun ho => hkeep v (ho ▸ List.mem_cons_self)
              have hloop' : (s.write o v).regs.loopback = true := by
                rw [State.write_regs]
                unfold Regs.write
                rw [if_neg hoffset]
                split
                · split
                  · exact hloop
                  · exact hloop
                split
                · split
                  · exact hloop
                  · exact hloop
                split
                · exact hloop
                split
                · exact hloop
                · exact hloop
              obtain ⟨hwire, hlast⟩ := ih hrest hkeep' hloop'
              exact ⟨hwire.trans (State.write_wire o v s), hlast⟩

/-! ## The way in -/

/-- Both sides with their FIFOs, connected to the line. -/
structure Regs.Normal (r : Regs) : Prop where
  dlab : r.dlab = false
  loopback : r.loopback = false
  fifo : r.fifo = true

/-- From `s` to `s'` the bytes `got` came into the receiver, of those that came
in on the line; the others are counted. -/
structure State.Receives (s s' : State) (arrived got : List (BitVec 8)) : Prop where
  rx : s'.rx = s.rx ++ got
  sub : got.Sublist arrived
  count : s'.lost + got.length = s.lost + arrived.length

namespace State.Receives

variable {s t s' : State} {arrived arrived' got got' : List (BitVec 8)}

theorem refl {s s' : State} (hrx : s'.rx = s.rx) (hlost : s'.lost = s.lost) :
    s.Receives s' [] [] :=
  ⟨by rw [hrx, List.append_nil], List.Sublist.refl [], by rw [hlost]⟩

theorem trans (h : s.Receives t arrived got) (h' : t.Receives s' arrived' got') :
    s.Receives s' (arrived ++ arrived') (got ++ got') := by
  refine ⟨?_, h.sub.append h'.sub, ?_⟩
  · rw [h'.rx, h.rx, List.append_assoc]
  · have hcount := h.count
    have hcount' := h'.count
    simp only [List.length_append]
    omega

/-- Where no byte was lost all of them are there. -/
theorem complete (h : s.Receives s' arrived got) (hlost : s'.lost = s.lost) : got = arrived := by
  refine h.sub.eq_of_length ?_
  have hcount := h.count
  omega

end State.Receives

namespace State

theorem event_receives {s : State} (hn : s.regs.Normal) (e : Event) :
    ∃ got, s.Receives (s.event e) (arrivals [.line e]) got := by
  have hline : ¬ s.regs.loopback = true := by rw [hn.loopback]; exact Bool.false_ne_true
  cases e with
  | load =>
      refine ⟨[], .refl ?_ ?_⟩
      · unfold event
        dsimp only
        split
        · rfl
        · rfl
      · unfold event
        dsimp only
        split
        · rfl
        · rfl
  | finish =>
      have hfinish : (s.event .finish).rx = s.rx ∧ (s.event .finish).lost = s.lost := by
        unfold event
        dsimp only
        split
        · exact ⟨rfl, rfl⟩
        · rw [if_neg hline]
          exact ⟨rfl, rfl⟩
      exact ⟨[], .refl hfinish.1 hfinish.2⟩
  | arrive b =>
      have harrive : s.event (.arrive b) = s.receive b := if_neg hline
      rw [harrive]
      unfold receive
      split
      · exact ⟨[b], rfl, List.Sublist.refl _, rfl⟩
      · exact ⟨[], by rw [if_pos hn.fifo, List.append_nil], List.nil_sublist _, by
          rw [if_pos hn.fifo]
          rfl⟩

end State

/-- The receiver over a history that reads nothing out of it and leaves the
registers alone. -/
theorem run_receives {s s' : State} {h : List Happening} (hrun : Runs.run State.step s h = some s')
    (hports : ∀ a ∈ ports h, (∃ o v, a = .read o v ∧ o ≠ 0#16) ∨ ∃ v, a = .write 0#16 v)
    (hn : s.regs.Normal) : ∃ got, s.Receives s' (arrivals h) got := by
  induction h generalizing s with
  | nil =>
      obtain rfl := Option.some.inj hrun
      exact ⟨[], .refl rfl rfl⟩
  | cons x h ih =>
      obtain ⟨t, ht, hrest⟩ := Runs.run_cons_some.mp hrun
      cases x with
      | line e =>
          obtain rfl := Option.some.inj ht
          have hn' : (s.event e).regs.Normal := by rw [State.event_regs]; exact hn
          obtain ⟨got, hfirst⟩ := State.event_receives hn e
          obtain ⟨got', hlast⟩ := ih hrest hports hn'
          have hall := hfirst.trans hlast
          rw [← arrivals_append, List.singleton_append] at hall
          exact ⟨got ++ got', hall⟩
      | port a =>
          have hports' := fun b hb => hports b (List.mem_cons_of_mem a hb)
          rcases hports a List.mem_cons_self with ⟨o, v, rfl, ho⟩ | ⟨v, rfl⟩
          · obtain ⟨-, rfl⟩ := step_read ht
            have hsame : s.afterRead o = s := if_neg fun hand => ho hand.1
            rw [hsame] at hrest
            exact ih hrest hports' hn
          · obtain rfl := Option.some.inj ht
            have hwrite : s.write 0#16 v = s.transmit v := by
              unfold State.write
              dsimp only
              rw [if_pos rfl, if_neg (by rw [hn.dlab]; exact Bool.false_ne_true)]
            have hsame : (s.transmit v).rx = s.rx ∧ (s.transmit v).lost = s.lost := by
              unfold State.transmit
              split
              · exact ⟨rfl, rfl⟩
              split
              · exact ⟨rfl, rfl⟩
              · exact ⟨rfl, rfl⟩
            rw [hwrite] at hrest
            have hn' : (s.transmit v).regs.Normal := by rw [State.transmit_regs]; exact hn
            obtain ⟨got, hlast⟩ := ih hrest hports' hn'
            exact ⟨got, (State.Receives.refl hsame.1 hsame.2).trans hlast⟩

/-! ## A quiet line -/

/-- Nothing on its way out. -/
structure State.Idle (s : State) : Prop where
  tx : s.tx = []
  shifter : s.shifter = none

/-- Where nothing comes in, the line does nothing to an idle port. -/
theorem State.Idle.event {s : State} (hs : s.Idle) {e : Event} (hquiet : arrivals [.line e] = []) :
    s.event e = s := by
  unfold State.event
  cases e with
  | load =>
      dsimp only
      rw [hs.tx, hs.shifter]
  | finish =>
      dsimp only
      rw [hs.shifter]
  | arrive b => nomatch hquiet

/-- The way of a byte through the loop, by what has still to happen to it. -/
inductive Loops (b : BitVec 8) : List Event → State → Prop
  | waiting {s : State} : s.tx = [b] → s.shifter = none → s.rx = [] → Loops b [.load, .finish] s
  | sending {s : State} : s.tx = [] → s.shifter = some b → s.rx = [] → Loops b [.finish] s
  | back {s : State} : s.tx = [] → s.shifter = none → s.rx = [b] → Loops b [] s

theorem Loops.event {b : BitVec 8} {left : List Event} {s : State} (hs : Loops b left s)
    (hloop : s.regs.loopback = true) {e : Event} (hquiet : arrivals [.line e] = []) :
    Loops b (if left.head? = some e then left.tail else left) (s.event e) ∧
      (s.event e).wire = s.wire ∧ (s.event e).lost = s.lost := by
  have hdepth := s.regs.depth_pos
  cases hs with
  | waiting htx hshift hrx =>
      cases e with
      | load =>
          have hload : s.event .load = { s with shifter := some b, tx := [] } := by
            unfold State.event
            dsimp only
            rw [hshift, htx]
          rw [hload]
          exact ⟨.sending rfl rfl hrx, rfl, rfl⟩
      | finish =>
          have hfinish : s.event .finish = s := by
            unfold State.event
            dsimp only
            rw [hshift]
          rw [hfinish]
          exact ⟨.waiting htx hshift hrx, rfl, rfl⟩
      | arrive c => nomatch hquiet
  | sending htx hshift hrx =>
      cases e with
      | load =>
          have hload : s.event .load = s := by
            unfold State.event
            dsimp only
            rw [hshift]
          rw [hload]
          exact ⟨.sending htx hshift hrx, rfl, rfl⟩
      | finish =>
          have hfinish : s.event .finish = { s with shifter := none, rx := [b] } := by
            unfold State.event State.receive
            dsimp only
            rw [hshift, hrx]
            dsimp only
            rw [if_pos hloop, List.length_nil, if_pos hdepth]
            rfl
          rw [hfinish]
          exact ⟨.back htx rfl rfl, rfl, rfl⟩
      | arrive c => nomatch hquiet
  | back htx hshift hrx =>
      have hsame : s.event e = s := State.Idle.event ⟨htx, hshift⟩ hquiet
      rw [hsame]
      exact ⟨.back htx hshift hrx, rfl, rfl⟩

/-- What happens on the line. -/
def events : List Happening → List Event
  | [] => []
  | .line e :: h => e :: events h
  | .port _ :: h => events h

end Uart16550
