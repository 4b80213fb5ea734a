/-
# `RedOS.Console.SerialLine` — `serial.c` on a 16550

`RedOS.Console.Uart` runs `serial.c` on any answers at all.  Here the answers are
those of a 16550, with anything happening on the line between two accesses, so
that what is written and read can be compared with what the other end of the line
sends and sees.

    serialInit_regs         what `serial_init` sets, whatever was set before
    serialInit_quiet        on a quiet line it succeeds and leaves no trace
    session_duplex          after it, both directions lose and reorder nothing
    waiting_not_taken       a write waits only for the byte before it
-/
import RedOS.Console.Uart
import RedOS.Lib.Uart16550

namespace RedOS

open Uart16550

/-- The access as the port at `base` sees it. -/
def PortAccess.at (base : BitVec 16) : PortAccess → Access
  | .inb port value => .read (port - base) value
  | .outb port value => .write (port - base) value

/-- Between `u` and `u'` the answers were those of the 16550 on COM1, which went
from `s` to `s'` with the history `h`. -/
def Served (u u' : Uart) (s : State) (h : List Happening) (s' : State) : Prop :=
  ∃ log, u'.accesses = u.accesses ++ log ∧ ports h = log.map (PortAccess.at com1Port) ∧
    Runs.run State.step s h = some s'

theorem Served.intro {u u' : Uart} {l : List PortAccess} (hlog : u'.accesses = u.accesses ++ l)
    {s s' : State} {h : List Happening} (hs : Served u u' s h s') :
    ports h = l.map (PortAccess.at com1Port) ∧ Runs.run State.step s h = some s' := by
  obtain ⟨l', hlog', hports, hrun⟩ := hs
  obtain rfl := List.append_cancel_left (hlog.symm.trans hlog')
  exact ⟨hports, hrun⟩

/-- A history is cut where the program is. -/
theorem Served.cut {u u' u'' : Uart} {s s'' : State} {h : List Happening}
    (hfirst : u.accesses <+: u'.accesses) (hlast : u'.accesses <+: u''.accesses)
    (hs : Served u u'' s h s'') :
    ∃ h₁ h₂ s', h = h₁ ++ h₂ ∧ Served u u' s h₁ s' ∧ Served u' u'' s' h₂ s'' := by
  obtain ⟨log, hlog⟩ := hfirst
  obtain ⟨log', hlog'⟩ := hlast
  have hall : u''.accesses = u.accesses ++ (log ++ log') := by
    rw [← hlog', ← hlog, List.append_assoc]
  obtain ⟨hports, hrun⟩ := hs.intro hall
  rw [List.map_append] at hports
  obtain ⟨h₁, h₂, s', rfl, hp₁, hp₂, hrun₁, hrun₂⟩ := run_cut hrun hports
  exact ⟨h₁, h₂, s', rfl, ⟨log, hlog.symm, hp₁, hrun₁⟩, ⟨log', hlog'.symm, hp₂, hrun₂⟩⟩

/-! ## `serial_init` -/

/-- The accesses of `serial_init` up to the test. -/
def setUpAccesses : List Access :=
  [.write 1#16 0x00#8, .write 3#16 0x80#8, .write 0#16 0x01#8, .write 1#16 0x00#8,
    .write 3#16 0x03#8, .write 2#16 0xC7#8, .write 4#16 0x0B#8, .write 4#16 0x1E#8]

/-- The answer to the test byte, and what follows on the right one. -/
def answerAccesses (value : BitVec 8) : List Access :=
  .read 0#16 value :: if value = 0xAE#8 then [.write 4#16 0x0F#8] else []

theorem serialInit_ports {u : Uart} {s s' : State} {h : List Happening}
    (hs : Served u u.serialInitCom1.2 s h s') :
    ports h = setUpAccesses ++ [.write 0#16 0xAE#8] ++ answerAccesses (u.reads 0) ∧
      Runs.run State.step s h = some s' := by
  unfold Uart.serialInitCom1 Uart.serialInit Uart.inb at hs
  dsimp only [Uart.outb] at hs
  unfold answerAccesses
  by_cases hread : u.reads 0 = 0xAE#8
  · rw [if_neg (not_not_intro hread)] at hs
    rw [if_pos hread]
    simp only [List.append_assoc, List.cons_append, List.nil_append] at hs
    exact hs.intro rfl
  · rw [if_pos hread] at hs
    rw [if_neg hread]
    simp only [List.append_assoc, List.cons_append, List.nil_append] at hs
    exact hs.intro rfl

/-- 115200 baud, 8N1, FIFOs on with a threshold of 14. -/
def lineRegs (ier mcr : BitVec 8) : Regs where
  ier := ier
  fcr := 0xC7#8
  lcr := 0x03#8
  mcr := mcr
  dll := 0x01#8
  dlm := 0x00#8

theorem setUp_regs (r : Regs) : setUpAccesses.foldl Regs.access r =
    lineRegs (if r.dlab then r.ier else 0#8) 0x1E#8 := by
  cases hdlab : r.dlab with
  | true =>
      have hfirst : r.access (.write 1#16 0x00#8) = { r with dlm := 0x00#8 } := by
        show (if r.dlab then { r with dlm := 0x00#8 } else { r with ier := 0x00#8 }) = _
        rw [hdlab]
        rfl
      unfold setUpAccesses
      rw [List.foldl_cons, hfirst]
      simp [Regs.access, Regs.write, Regs.dlab, lineRegs]
  | false =>
      have hfirst : r.access (.write 1#16 0x00#8) = { r with ier := 0x00#8 } := by
        show (if r.dlab then { r with dlm := 0x00#8 } else { r with ier := 0x00#8 }) = _
        rw [hdlab]
        rfl
      unfold setUpAccesses
      rw [List.foldl_cons, hfirst]
      simp [Regs.access, Regs.write, Regs.dlab, lineRegs]

theorem lineRegs_dlab (ier mcr : BitVec 8) : (lineRegs ier mcr).dlab = false := by
  show (0x03#8).getLsbD 7 = false
  decide

/-- The test byte is data, not a divisor. -/
theorem testByte_regs (ier mcr : BitVec 8) :
    (lineRegs ier mcr).access (.write 0#16 0xAE#8) = lineRegs ier mcr := by
  show (if (lineRegs ier mcr).dlab then _ else lineRegs ier mcr) = _
  rw [lineRegs_dlab]
  rfl

theorem answer_regs (value ier : BitVec 8) :
    (answerAccesses value).foldl Regs.access (lineRegs ier 0x1E#8) =
      lineRegs ier (if value = 0xAE#8 then 0x0F#8 else 0x1E#8) := by
  unfold answerAccesses
  by_cases hvalue : value = 0xAE#8
  · rw [if_pos hvalue, if_pos hvalue]
    rfl
  · rw [if_neg hvalue, if_neg hvalue]
    rfl

theorem lineRegs_normal (ier : BitVec 8) : (lineRegs ier 0x0F#8).Normal where
  dlab := lineRegs_dlab ier _
  loopback := by
    show (0x0F#8).getLsbD 4 = false
    decide
  fifo := by
    show (0xC7#8).getLsbD 0 = true
    decide

/-- Whatever state the port is in when `serial_init` is called and whatever comes
in meanwhile: the divisor, the frame and the FIFOs are as meant.  The port is on
the line if the call says so, and otherwise left in loopback mode.  Interrupts are
off exactly if they were, or if the divisor latch was not selected before: then
the first write goes to the latch. -/
theorem serialInit_regs {u : Uart} {s s' : State} {h : List Happening}
    (hs : Served u u.serialInitCom1.2 s h s') :
    s'.regs = lineRegs (if s.regs.dlab then s.regs.ier else 0#8)
        (if u.serialInitCom1.1 then 0x0F#8 else 0x1E#8) ∧
      (s'.regs.ier = 0#8 ↔ s.regs.ier = 0#8 ∨ s.regs.dlab = false) ∧
      (u.serialInitCom1.1 = true → s'.regs.Normal) ∧
      (u.serialInitCom1.1 = false → s'.regs.loopback = true) := by
  obtain ⟨hports, hrun⟩ := serialInit_ports hs
  have hresult : (if u.serialInitCom1.1 then 0x0F#8 else 0x1E#8) =
      if u.reads 0 = 0xAE#8 then 0x0F#8 else 0x1E#8 := by
    have hfst := Uart.serialInit_fst com1Port u
    by_cases hread : u.reads 0 = 0xAE#8
    · rw [if_pos hread, if_pos (show u.serialInitCom1.1 = true from hfst.mpr hread)]
    · rw [if_neg hread, if_neg (show ¬ u.serialInitCom1.1 = true from fun hok => hread (hfst.mp hok))]
  have hregs : s'.regs = lineRegs (if s.regs.dlab then s.regs.ier else 0#8)
      (if u.serialInitCom1.1 then 0x0F#8 else 0x1E#8) := by
    rw [run_regs hrun, hports, List.foldl_append, List.foldl_append, setUp_regs, List.foldl_cons,
      List.foldl_nil, testByte_regs, answer_regs, hresult]
  refine ⟨hregs, ?_, ?_, ?_⟩
  · rw [hregs]
    show (if s.regs.dlab then s.regs.ier else 0#8) = 0#8 ↔ _
    cases s.regs.dlab with
    | true => simp
    | false => simp
  · intro hok
    rw [hregs, hok]
    exact lineRegs_normal _
  · intro hfailed
    rw [hregs, hfailed]
    show (0x1E#8).getLsbD 4 = true
    decide
/-- A UART that gives these values, and then zeros. -/
def answering (values : List (BitVec 8)) : Uart := ⟨fun i => values.getD i 0#8, []⟩

/-- A port just reset: the registers zero and no byte anywhere. -/
def resetPort : State where
  regs := ⟨0#8, 0#8, 0#8, 0#8, 0#8, 0#8⟩
  rx := []
  tx := []
  shifter := none
  wire := []
  lost := 0

/-- And set up by `serial_init`. -/
def readyPort : State := { resetPort with regs := lineRegs 0#8 0x0F#8 }

def setUpHistory : List Happening := setUpAccesses.map .port

/-- The test byte, its way through the loop and the answer. -/
def echoHistory : List Happening :=
  .port (.write 0#16 0xAE#8) :: ([.line .load, .line .finish] ++ [.port (.read 0#16 0xAE#8)])

theorem serialInit_regs_reset :
    let u := answering [0xAE#8]
    readyPort.regs = lineRegs (if resetPort.regs.dlab then resetPort.regs.ier else 0#8)
        (if u.serialInitCom1.1 then 0x0F#8 else 0x1E#8) ∧
      (readyPort.regs.ier = 0#8 ↔ resetPort.regs.ier = 0#8 ∨ resetPort.regs.dlab = false) ∧
      (u.serialInitCom1.1 = true → readyPort.regs.Normal) ∧
      (u.serialInitCom1.1 = false → readyPort.regs.loopback = true) :=
  serialInit_regs (u := answering [0xAE#8]) (s := resetPort)
    (h := setUpHistory ++ (echoHistory ++ [.port (.write 4#16 0x0F#8)]))
    ⟨_, rfl, by decide, by decide⟩

/-- The looks at the line status that gave `values`. -/
def looks (values : List (BitVec 8)) : List PortAccess :=
  values.map (PortAccess.inb (com1Port + regLineStatus))

theorem ready_bit : ∀ v : BitVec 8, (v &&& 0x20#8 != 0#8) = v.getLsbD 5 := by
  decide

theorem received_bit : ∀ v : BitVec 8, (v &&& 0x01#8 != 0#8) = v.getLsbD 0 := by
  decide

namespace Uart

/-- `serial_write_byte` looks until the transmitter is ready, and then writes. -/
theorem serialWriteByte_log (b : BitVec 8) (again : Nat) (u : Uart) :
    ∃ values, ((u.serialWriteByte com1Port b again).1 = true ∧ ∃ v, v.getLsbD 5 = true ∧
        (u.serialWriteByte com1Port b again).2.accesses = u.accesses ++
          (looks values ++ looks [v] ++ [.outb (com1Port + regData) b])) ∨
      ((u.serialWriteByte com1Port b again).1 = false ∧ values.length = again ∧
        ∃ v, v.getLsbD 5 = false ∧
          (u.serialWriteByte com1Port b again).2.accesses = u.accesses ++
            (looks values ++ looks [v])) := by
  induction again generalizing u with
  | zero =>
      refine ⟨[], ?_⟩
      unfold serialWriteByte serialIsTransmitReady inb
      dsimp only
      rw [ready_bit]
      cases hready : (u.reads 0).getLsbD 5 with
      | true => exact .inl ⟨rfl, _, hready, by simp [looks, outb]⟩
      | false => exact .inr ⟨rfl, rfl, _, hready, rfl⟩
  | succ again ih =>
      unfold serialWriteByte
      dsimp only
      have hfst : (u.serialIsTransmitReady com1Port).1 = (u.reads 0).getLsbD 5 := ready_bit _
      have hsnd : (u.serialIsTransmitReady com1Port).2.accesses = u.accesses ++ looks [u.reads 0] := rfl
      cases hready : (u.reads 0).getLsbD 5 with
      | true =>
          rw [hfst, hready]
          refine ⟨[], .inl ⟨rfl, _, hready, ?_⟩⟩
          show (u.serialIsTransmitReady com1Port).2.accesses ++ _ = _
          rw [hsnd]
          exact List.append_assoc _ _ _
      | false =>
          rw [hfst, hready]
          obtain ⟨values, hlog⟩ := ih (u.serialIsTransmitReady com1Port).2
          rw [hsnd] at hlog
          refine ⟨u.reads 0 :: values, ?_⟩
          rcases hlog with ⟨hsent, v, hv, hlog⟩ | ⟨hsent, hlen, v, hv, hlog⟩
          · refine .inl ⟨hsent, v, hv, hlog.trans ?_⟩
            simp [looks]
          · refine .inr ⟨hsent, congrArg (· + 1) hlen, v, hv, hlog.trans ?_⟩
            simp [looks]

/-- `serial_read_byte` looks until a byte is there, and then reads it. -/
theorem serialReadByte_log (again : Nat) (u : Uart) :
    ∃ values, (∃ b v, (u.serialReadByte com1Port again).1 = some b ∧ v.getLsbD 0 = true ∧
        (u.serialReadByte com1Port again).2.accesses = u.accesses ++
          (looks values ++ looks [v] ++ [.inb (com1Port + regData) b])) ∨
      ((u.serialReadByte com1Port again).1 = none ∧
        (u.serialReadByte com1Port again).2.accesses = u.accesses ++ looks values) := by
  induction again generalizing u with
  | zero =>
      unfold serialReadByte serialIsReceived inb
      dsimp only
      rw [received_bit]
      cases hready : (u.reads 0).getLsbD 0 with
      | true => exact ⟨[], .inl ⟨_, _, rfl, hready, by simp [looks]⟩⟩
      | false => exact ⟨[u.reads 0], .inr ⟨rfl, rfl⟩⟩
  | succ again ih =>
      unfold serialReadByte
      dsimp only
      have hfst : (u.serialIsReceived com1Port).1 = (u.reads 0).getLsbD 0 := received_bit _
      have hsnd : (u.serialIsReceived com1Port).2.accesses = u.accesses ++ looks [u.reads 0] := rfl
      cases hready : (u.reads 0).getLsbD 0 with
      | true =>
          rw [hfst, hready]
          refine ⟨[], .inl ⟨_, _, rfl, hready, ?_⟩⟩
          show (u.serialIsReceived com1Port).2.accesses ++ _ = _
          rw [hsnd]
          exact List.append_assoc _ _ _
      | false =>
          rw [hfst, hready]
          obtain ⟨values, hlog⟩ := ih (u.serialIsReceived com1Port).2
          rw [hsnd] at hlog
          refine ⟨u.reads 0 :: values, ?_⟩
          rcases hlog with ⟨b, v, hread, hv, hlog⟩ | ⟨hread, hlog⟩
          · refine .inl ⟨b, v, hread, hv, hlog.trans ?_⟩
            simp [looks]
          · refine .inr ⟨hread, hlog.trans ?_⟩
            simp [looks]

end Uart

/-! ## Both directions -/

/-- From `s` to `s'`, with the bytes `arrived` coming in on the line, `written` was
handed to the transmitter and `read` taken from the receiver: the first is on its
way out behind what was there, the second is what came in first, and what came in
and is not there found no room. -/
structure Duplex (s s' : State) (arrived written read : List (BitVec 8)) : Prop where
  regs : s'.regs = s.regs
  out : s'.out = s.out ++ written
  tx : s.tx.length ≤ 1 → s'.tx.length ≤ 1
  rx : ∃ got, s.rx ++ got = read ++ s'.rx ∧ got.Sublist arrived ∧
    s'.lost + got.length = s.lost + arrived.length

namespace Duplex

theorem refl (s : State) : Duplex s s [] [] [] where
  regs := rfl
  out := (List.append_nil _).symm
  tx := id
  rx := ⟨[], List.append_nil _, List.Sublist.refl [], rfl⟩

theorem trans {s t s' : State} {arrived arrived' written written' read read' : List (BitVec 8)}
    (h : Duplex s t arrived written read) (h' : Duplex t s' arrived' written' read') :
    Duplex s s' (arrived ++ arrived') (written ++ written') (read ++ read') := by
  obtain ⟨got, hrx, hsub, hcount⟩ := h.rx
  obtain ⟨got', hrx', hsub', hcount'⟩ := h'.rx
  refine ⟨h'.regs.trans h.regs, ?_, fun htx => h'.tx (h.tx htx), got ++ got', ?_,
    hsub.append hsub', ?_⟩
  · rw [h'.out, h.out, List.append_assoc]
  · rw [← List.append_assoc, hrx, List.append_assoc, hrx', List.append_assoc]
  · simp only [List.length_append]
    omega

/-- What was written is on the line, but for one byte in the transmitter and one in
the shift register. -/
theorem pending {s s' : State} {arrived written read : List (BitVec 8)}
    (h : Duplex s s' arrived written read) (htx : s.tx.length ≤ 1) :
    ∃ pending, pending.length ≤ 2 ∧ s'.wire ++ pending = s.out ++ written := by
  refine ⟨s'.shifter.toList ++ s'.tx, ?_, ?_⟩
  · have hlast := h.tx htx
    have hshift : s'.shifter.toList.length ≤ 1 := by
      cases s'.shifter with
      | none => exact Nat.zero_le 1
      | some b => exact Nat.le_refl 1
    rw [List.length_append]
    omega
  · rw [← h.out]
    exact (List.append_assoc _ _ _).symm

/-- Looks only. -/
theorem looks {s s' : State} {h : List Happening} {v : List (BitVec 8)}
    (hrun : Runs.run State.step s h = some s') (hports : ports h = v.map (Access.read 5#16))
    (hn : s.regs.Normal) : Duplex s s' (arrivals h) [] [] ∧ s'.tx <:+ s.tx := by
  have hreads : ∀ a ∈ ports h, ∃ o v, a = .read o v := by
    intro a ha
    rw [hports] at ha
    obtain ⟨v, -, rfl⟩ := List.mem_map.mp ha
    exact ⟨_, _, rfl⟩
  obtain ⟨hout, htx⟩ := run_through hrun hreads hn.loopback
  have hplain : ∀ a ∈ ports h, (∃ o v, a = .read o v ∧ o ≠ 0#16) ∨ ∃ v, a = .write 0#16 v := by
    intro a ha
    rw [hports] at ha
    obtain ⟨v, -, rfl⟩ := List.mem_map.mp ha
    exact .inl ⟨_, _, rfl, by decide⟩
  obtain ⟨got, hgot⟩ := run_receives hrun hplain hn
  refine ⟨⟨?_, ?_, fun hlen => Nat.le_trans htx.length_le hlen, got, hgot.rx.symm, hgot.sub, hgot.count⟩, htx⟩
  · rw [run_regs hrun, foldl_reads hreads]
  · rw [hout, List.append_nil]

/-- What a look that said so says of the port after it. -/
theorem look {s s' : State} {h : List Happening} {v : BitVec 8}
    (hrun : Runs.run State.step s h = some s') (hports : ports h = [.read 5#16 v])
    (hn : s.regs.Normal) : Duplex s s' (arrivals h) [] [] ∧
      (v.getLsbD 5 = true → s'.tx = []) ∧ (v.getLsbD 0 = true → s'.rx ≠ []) := by
  refine ⟨(looks (v := [v]) hrun hports hn).1, ?_⟩
  obtain ⟨g₁, g₂, t, t', rfl, hpg₁, hpg₂, hrun₁, hread, hrun₂⟩ := run_port hrun hports
  obtain ⟨hgives, hafter⟩ := step_read hread
  have hsame : t' = t := hafter.trans (if_neg fun hand => absurd hand.1 (by decide))
  rw [hsame] at hrun₂
  have hstatus : v.getLsbD 0 = !t.rx.isEmpty ∧ v.getLsbD 5 = t.tx.isEmpty ∧
      v.getLsbD 6 = (t.tx.isEmpty && t.shifter.isNone) := hgives
  have hnt : t.regs.Normal := by
    rw [(looks (v := []) hrun₁ hpg₁ hn).1.regs]
    exact hn
  obtain ⟨hlast, htx⟩ := looks (v := []) hrun₂ hpg₂ hnt
  constructor
  · intro hready
    have hempty : t.tx = [] := List.isEmpty_iff.mp (hstatus.2.1.symm.trans hready)
    rw [hempty] at htx
    exact List.suffix_nil.mp htx
  · intro hready hnone
    obtain ⟨got, hrx, -⟩ := hlast.rx
    rw [hnone] at hrx
    have hempty : t.rx = [] := (List.append_eq_nil_iff.mp hrx).1
    rw [hempty, hready] at hstatus
    exact nomatch hstatus.1

/-- A byte written to an empty transmitter. -/
theorem write {s s' : State} {h : List Happening} {b : BitVec 8}
    (hrun : Runs.run State.step s h = some s') (hports : ports h = [.write 0#16 b])
    (hn : s.regs.Normal) (htx : s.tx = []) : Duplex s s' (arrivals h) [b] [] := by
  obtain ⟨got, hgot⟩ := run_receives hrun (by
    intro a ha
    rw [hports] at ha
    exact .inr ⟨b, List.mem_singleton.mp ha⟩) hn
  have hregs : s'.regs = s.regs := by
    rw [run_regs hrun, hports]
    show (if s.regs.dlab then _ else s.regs) = _
    rw [hn.dlab]
    rfl
  obtain ⟨g₁, g₂, t, t', rfl, hpg₁, hpg₂, hrun₁, hwrite, hrun₂⟩ := run_port hrun hports
  obtain ⟨hfirst, htxt⟩ := looks (v := []) hrun₁ hpg₁ hn
  have hempty : t.tx = [] := by
    rw [htx] at htxt
    exact List.suffix_nil.mp htxt
  have hnt : t.regs.Normal := by
    rw [hfirst.regs]
    exact hn
  have hroom : t.tx.length < t.regs.depth := by
    rw [hempty]
    exact t.regs.depth_pos
  obtain ⟨hout, htx'⟩ := State.write_out hnt.dlab hroom b
  obtain rfl := Option.some.inj hwrite
  have hline : (t.write 0#16 b).regs.loopback = false := by
    rw [State.write_data hnt.dlab hroom]
    exact hnt.loopback
  have hnoports : ∀ a ∈ ports g₂, ∃ o v, a = .read o v := by
    rw [hpg₂]
    exact fun a ha => nomatch ha
  obtain ⟨hout₂, htx₂⟩ := run_through hrun₂ hnoports hline
  refine ⟨hregs, ?_, ?_, got, hgot.rx.symm, hgot.sub, hgot.count⟩
  · rw [hout₂, hout, hfirst.out, List.append_nil]
  · intro _
    refine Nat.le_trans htx₂.length_le ?_
    rw [htx', hempty]
    exact Nat.le_refl 1

/-- A byte read from a receiver that has one. -/
theorem read {s s' : State} {h : List Happening} {b : BitVec 8}
    (hrun : Runs.run State.step s h = some s') (hports : ports h = [.read 0#16 b])
    (hn : s.regs.Normal) (hrx : s.rx ≠ []) : Duplex s s' (arrivals h) [] [b] := by
  have hreads : ∀ a ∈ ports h, ∃ o v, a = .read o v := by
    intro a ha
    rw [hports] at ha
    exact ⟨_, _, List.mem_singleton.mp ha⟩
  obtain ⟨hout, htx⟩ := run_through hrun hreads hn.loopback
  have hregs : s'.regs = s.regs := by rw [run_regs hrun, foldl_reads hreads]
  obtain ⟨g₁, g₂, t, t', rfl, hpg₁, hpg₂, hrun₁, hread, hrun₂⟩ := run_port hrun hports
  obtain ⟨hgives, rfl⟩ := step_read hread
  obtain ⟨hfirst, -⟩ := looks (v := []) hrun₁ hpg₁ hn
  have hnt : t.regs.Normal := by
    rw [hfirst.regs]
    exact hn
  obtain ⟨got, hgot, hsub, hcount⟩ := hfirst.rx
  have hafter : t.afterRead 0#16 = { t with rx := t.rx.tail } := if_pos ⟨rfl, hnt.dlab⟩
  rw [hafter] at hrun₂
  obtain ⟨hlast, -⟩ := looks (v := []) hrun₂ hpg₂ hnt
  obtain ⟨got', hgot', hsub', hcount'⟩ := hlast.rx
  have hhead : t.rx = b :: t.rx.tail := by
    have hvalue : ∀ c ∈ t.rx.head?, b = c := by
      unfold State.Gives at hgives
      rw [if_pos rfl, if_neg (by rw [hnt.dlab]; exact Bool.false_ne_true)] at hgives
      exact hgives
    cases ht : t.rx with
    | nil =>
        rw [ht] at hgot
        exact absurd (List.append_eq_nil_iff.mp hgot).1 hrx
    | cons c cs =>
        rw [ht] at hvalue
        rw [hvalue c rfl]
        rfl
  refine ⟨hregs, ?_, fun hlen => Nat.le_trans htx.length_le hlen, got ++ got', ?_, ?_, ?_⟩
  · rw [hout, List.append_nil]
  · rw [← List.append_assoc, hgot, List.nil_append, hhead, List.cons_append, hgot']
    rfl
  · rw [arrivals_append]
    exact hsub.append hsub'
  · rw [arrivals_append]
    simp only [List.length_append]
    have hsame : arrivals (.port (.read 0#16 b) :: g₂) = arrivals g₂ := rfl
    rw [hsame]
    dsimp only at hcount'
    omega

end Duplex

/-! ## Sessions -/

/-- The functions of `serial.h` on COM1, but for `serial_init`. -/
inductive SerialCall
  /-- `serial_is_transmit_ready`, `serial_is_received` -/
  | isTransmitReady
  | isReceived
  /-- `serial_com1_write_byte` -/
  | writeByte (b : BitVec 8)
  /-- `serial_com1_write_string` -/
  | writeString (str : List (BitVec 8))
  /-- `serial_com1_read_byte` -/
  | readByte
  deriving DecidableEq, Repr

/-- What the call is to send. -/
def SerialCall.written : SerialCall → List (BitVec 8)
  | .writeByte b => [b]
  | .writeString str => str.takeWhile (· ≠ 0#8)
  | _ => []

structure Session where
  uart : Uart
  /-- What `serial_com1_read_byte` has returned. -/
  read : List (BitVec 8)

namespace Session

/-- A call, refused if it has not returned after `again` looks more than one. -/
def exec (again : Nat) (p : Session) : SerialCall → Option Session
  | .isTransmitReady => some { p with uart := (p.uart.serialIsTransmitReady com1Port).2 }
  | .isReceived => some { p with uart := (p.uart.serialIsReceived com1Port).2 }
  | .writeByte b =>
      let (sent, uart) := p.uart.serialWriteByte com1Port b again
      if sent then some { p with uart := uart } else none
  | .writeString str =>
      let (sent, uart) := p.uart.serialCom1WriteBytes again (str.takeWhile (· ≠ 0#8))
      if sent then some { p with uart := uart } else none
  | .readByte =>
      match p.uart.serialReadByte com1Port again with
      | (some b, uart) => some ⟨uart, p.read ++ [b]⟩
      | (none, _) => none

end Session

theorem looks_ports (values : List (BitVec 8)) :
    (looks values).map (PortAccess.at com1Port) = values.map (Access.read 5#16) := by
  unfold looks
  rw [List.map_map]
  rfl

/-- `serial_com1_write_byte`: the byte is on its way once it has returned. -/
theorem Duplex.writeByte {again : Nat} {b : BitVec 8} {u : Uart} {s s' : State} {h : List Happening}
    (hs : Served u (u.serialWriteByte com1Port b again).2 s h s') (hn : s.regs.Normal) :
    Duplex s s' (arrivals h) (if (u.serialWriteByte com1Port b again).1 then [b] else []) [] := by
  obtain ⟨values, hlog⟩ := u.serialWriteByte_log b again
  rcases hlog with ⟨hsent, v, hv, hlog⟩ | ⟨hfailed, -, v, -, hlog⟩
  · obtain ⟨hports, hrun⟩ := hs.intro hlog
    rw [List.map_append, List.map_append, looks_ports, looks_ports] at hports
    obtain ⟨h₁, h₃, t, rfl, hp₁, hp₃, hrun₁, hrun₃⟩ := run_cut hrun hports
    obtain ⟨h₁, h₂, r, rfl, hp₁, hp₂, hrun₁, hrun₂⟩ := run_cut hrun₁ hp₁
    obtain ⟨hwait, -⟩ := Duplex.looks hrun₁ hp₁ hn
    have hnr : r.regs.Normal := by rw [hwait.regs]; exact hn
    obtain ⟨hlook, hready, -⟩ := Duplex.look hrun₂ hp₂ hnr
    have hnt : t.regs.Normal := by rw [hlook.regs]; exact hnr
    rw [arrivals_append, arrivals_append, hsent]
    exact (hwait.trans hlook).trans (Duplex.write hrun₃ hp₃ hnt (hready hv))
  · obtain ⟨hports, hrun⟩ := hs.intro hlog
    rw [List.map_append, looks_ports, looks_ports, ← List.map_append] at hports
    rw [hfailed]
    exact (Duplex.looks hrun hports hn).1

/-- One byte after the other, as far as the calls return. -/
theorem Duplex.writeBytes {again : Nat} {bytes : List (BitVec 8)} {u : Uart} {s s' : State}
    {h : List Happening} (hs : Served u (u.serialCom1WriteBytes again bytes).2 s h s')
    (hn : s.regs.Normal) :
    ∃ sent rest, bytes = sent ++ rest ∧ Duplex s s' (arrivals h) sent [] ∧
      ((u.serialCom1WriteBytes again bytes).1 = true → rest = []) := by
  induction bytes generalizing u s h with
  | nil =>
      obtain ⟨hports, hrun⟩ := hs.intro (l := []) (List.append_nil _).symm
      exact ⟨[], [], rfl, (Duplex.looks (v := []) hrun hports hn).1, fun _ => rfl⟩
  | cons b bs ih =>
      cases hfirst : (u.serialWriteByte com1Port b again).1 with
      | true =>
          have hcons : u.serialCom1WriteBytes again (b :: bs) =
              (u.serialWriteByte com1Port b again).2.serialCom1WriteBytes again bs := by
            conv => lhs; unfold Uart.serialCom1WriteBytes
            dsimp only
            rw [if_pos hfirst]
          rw [hcons] at hs ⊢
          obtain ⟨h₁, h₂, t, rfl, hs₁, hs₂⟩ := hs.cut
            ((List.prefix_append _ _).trans (Uart.serialWriteByte_accesses com1Port b again u))
            (Uart.serialCom1WriteBytes_accesses again bs _)
          have hone := Duplex.writeByte hs₁ hn
          rw [hfirst, if_pos rfl] at hone
          obtain ⟨sent, rest, rfl, hlast, hall⟩ := ih hs₂ (by rw [hone.regs]; exact hn)
          refine ⟨b :: sent, rest, rfl, ?_, hall⟩
          rw [arrivals_append]
          exact hone.trans hlast
      | false =>
          have hstuck : u.serialCom1WriteBytes again (b :: bs) =
              (false, (u.serialWriteByte com1Port b again).2) := by
            conv => lhs; unfold Uart.serialCom1WriteBytes
            dsimp only
            rw [if_neg (by rw [hfirst]; exact Bool.false_ne_true)]
          rw [hstuck] at hs ⊢
          have hnone := Duplex.writeByte hs hn
          rw [hfirst] at hnone
          exact ⟨[], b :: bs, rfl, hnone, fun hok => absurd hok Bool.false_ne_true⟩

/-- `serial_com1_read_byte`, once it returns. -/
theorem Duplex.readByte {again : Nat} {b : BitVec 8} {u : Uart} {s s' : State} {h : List Happening}
    (hread : (u.serialReadByte com1Port again).1 = some b)
    (hs : Served u (u.serialReadByte com1Port again).2 s h s') (hn : s.regs.Normal) :
    Duplex s s' (arrivals h) [] [b] := by
  obtain ⟨values, hlog⟩ := u.serialReadByte_log again
  rcases hlog with ⟨c, v, hc, hv, hlog⟩ | ⟨hnone, -⟩
  · obtain rfl := Option.some.inj (hc.symm.trans hread)
    obtain ⟨hports, hrun⟩ := hs.intro hlog
    rw [List.map_append, List.map_append, looks_ports, looks_ports] at hports
    obtain ⟨h₁, h₃, t, rfl, hp₁, hp₃, hrun₁, hrun₃⟩ := run_cut hrun hports
    obtain ⟨h₁, h₂, r, rfl, hp₁, hp₂, hrun₁, hrun₂⟩ := run_cut hrun₁ hp₁
    obtain ⟨hwait, -⟩ := Duplex.looks hrun₁ hp₁ hn
    have hnr : r.regs.Normal := by rw [hwait.regs]; exact hn
    obtain ⟨hlook, -, hready⟩ := Duplex.look hrun₂ hp₂ hnr
    have hnt : t.regs.Normal := by rw [hlook.regs]; exact hnr
    rw [arrivals_append, arrivals_append]
    exact (hwait.trans hlook).trans (Duplex.read hrun₃ hp₃ hnt (hready hv))
  · rw [hread] at hnone
    nomatch hnone

namespace Session

theorem exec_extends {again : Nat} {p p' : Session} {call : SerialCall}
    (h : p.exec again call = some p') : p.uart.accesses <+: p'.uart.accesses := by
  cases call with
  | isTransmitReady =>
      obtain rfl := Option.some.inj h
      exact List.prefix_append _ _
  | isReceived =>
      obtain rfl := Option.some.inj h
      exact List.prefix_append _ _
  | writeByte b =>
      unfold exec at h
      dsimp only at h
      split at h
      · obtain rfl := Option.some.inj h
        exact (List.prefix_append _ _).trans
          (Uart.serialWriteByte_accesses com1Port b again p.uart)
      · nomatch h
  | writeString str =>
      unfold exec at h
      dsimp only at h
      split at h
      · obtain rfl := Option.some.inj h
        exact Uart.serialCom1WriteBytes_accesses again _ p.uart
      · nomatch h
  | readByte =>
      obtain ⟨values, hlog⟩ := p.uart.serialReadByte_log again
      unfold exec at h
      dsimp only at h
      split at h
      next b uart hread =>
        obtain rfl := Option.some.inj h
        rw [hread] at hlog
        rcases hlog with ⟨c, v, -, -, hlog⟩ | ⟨hnone, -⟩
        · exact ⟨_, hlog.symm⟩
        · nomatch hnone
      · nomatch h

theorem run_extends {again : Nat} {p p' : Session} {calls : List SerialCall}
    (h : Runs.run (exec again) p calls = some p') : p.uart.accesses <+: p'.uart.accesses :=
  Runs.run_keeps (I := fun q : Session => p.uart.accesses <+: q.uart.accesses)
    (fun _ _ _ hq h => hq.trans (exec_extends h)) List.prefix_rfl h

/-- One call: what it is to send goes out, what it has read came in. -/
theorem exec_duplex {again : Nat} {p p' : Session} {call : SerialCall} {s s' : State}
    {h : List Happening} (hexec : p.exec again call = some p')
    (hs : Served p.uart p'.uart s h s') (hn : s.regs.Normal) :
    ∃ read, p'.read = p.read ++ read ∧ Duplex s s' (arrivals h) call.written read := by
  cases call with
  | isTransmitReady =>
      obtain rfl := Option.some.inj hexec
      obtain ⟨hports, hrun⟩ := hs.intro (l := looks [p.uart.reads 0]) rfl
      rw [looks_ports] at hports
      exact ⟨[], (List.append_nil _).symm, (Duplex.look hrun hports hn).1⟩
  | isReceived =>
      obtain rfl := Option.some.inj hexec
      obtain ⟨hports, hrun⟩ := hs.intro (l := looks [p.uart.reads 0]) rfl
      rw [looks_ports] at hports
      exact ⟨[], (List.append_nil _).symm, (Duplex.look hrun hports hn).1⟩
  | writeByte b =>
      unfold exec at hexec
      dsimp only at hexec
      split at hexec
      next hsent =>
        obtain rfl := Option.some.inj hexec
        have hwrite := Duplex.writeByte hs hn
        rw [if_pos hsent] at hwrite
        exact ⟨[], (List.append_nil _).symm, hwrite⟩
      · nomatch hexec
  | writeString str =>
      unfold exec at hexec
      dsimp only at hexec
      split at hexec
      next hsent =>
        obtain rfl := Option.some.inj hexec
        obtain ⟨sent, rest, hall, hwrite, hrest⟩ := Duplex.writeBytes hs hn
        rw [hrest hsent, List.append_nil] at hall
        rw [← hall] at hwrite
        exact ⟨[], (List.append_nil _).symm, hwrite⟩
      · nomatch hexec
  | readByte =>
      unfold exec at hexec
      dsimp only at hexec
      split at hexec
      next b uart hread =>
        obtain rfl := Option.some.inj hexec
        have hfst : (p.uart.serialReadByte com1Port again).1 = some b := congrArg Prod.fst hread
        have hsnd : (p.uart.serialReadByte com1Port again).2 = uart := congrArg Prod.snd hread
        rw [← hsnd] at hs
        exact ⟨[b], rfl, .readByte hfst hs hn⟩
      · nomatch hexec

/-- A run of calls. -/
theorem run_duplex {again : Nat} {p p' : Session} {calls : List SerialCall} {s s' : State}
    {h : List Happening} (hcalls : Runs.run (exec again) p calls = some p')
    (hs : Served p.uart p'.uart s h s') (hn : s.regs.Normal) :
    ∃ read, p'.read = p.read ++ read ∧
      Duplex s s' (arrivals h) (calls.flatMap SerialCall.written) read := by
  induction calls generalizing p s h with
  | nil =>
      obtain rfl := Option.some.inj hcalls
      obtain ⟨hports, hrun⟩ := hs.intro (l := []) (List.append_nil _).symm
      exact ⟨[], (List.append_nil _).symm, (Duplex.looks (v := []) hrun hports hn).1⟩
  | cons call calls ih =>
      obtain ⟨q, hq, hrest⟩ := Runs.run_cons_some.mp hcalls
      obtain ⟨h₁, h₂, t, rfl, hs₁, hs₂⟩ := hs.cut (exec_extends hq) (run_extends hrest)
      obtain ⟨read, hread, hfirst⟩ := exec_duplex hq hs₁ hn
      obtain ⟨read', hread', hlast⟩ := ih hrest hs₂ (by rw [hfirst.regs]; exact hn)
      refine ⟨read ++ read', ?_, ?_⟩
      · rw [hread', hread, List.append_assoc]
      · rw [arrivals_append, List.flatMap_cons]
        exact hfirst.trans hlast

end Session

theorem tx_nil {s : State} (h : s.tx.length ≤ ([] : List (BitVec 8)).length) : s.tx = [] :=
  List.eq_nil_of_length_eq_zero (Nat.le_zero.mp h)

/-- `serial_init` leaves at most its test byte to be sent. -/
theorem serialInit_tx {u : Uart} {s s' : State} {h : List Happening}
    (hs : Served u u.serialInitCom1.2 s h s') : s'.tx.length ≤ 1 := by
  obtain ⟨hports, hrun⟩ := serialInit_ports hs
  have hcut : setUpAccesses = setUpAccesses.take 5 ++ [.write 2#16 0xC7#8] ++
      setUpAccesses.drop 6 := rfl
  rw [hcut] at hports
  obtain ⟨h₁, answer, t, rfl, hp₁, hpanswer, hrun₁, hrunAnswer⟩ := run_cut hrun hports
  obtain ⟨h₂, test, r, rfl, hp₂, hptest, hrun₂, hrunTest⟩ := run_cut hrun₁ hp₁
  obtain ⟨h₃, rest, q, rfl, hp₃, hprest, hrun₃, hrunRest⟩ := run_cut hrun₂ hp₂
  obtain ⟨before, clear, o, rfl, -, hpclear, -, hrunClear⟩ := run_cut hrun₃ hp₃
  have hclear := run_clear hrunClear hpclear (by decide) (by decide)
  have hrest := run_tx hrunRest (by
    rw [hprest]
    decide)
  rw [hclear] at hrest
  have hempty := tx_nil hrest
  have hlast := run_tx hrunAnswer (by
    rw [hpanswer]
    unfold answerAccesses
    intro v hv
    rcases List.mem_cons.mp hv with hv | hv
    · nomatch hv
    split at hv
    · exact absurd (List.mem_singleton.mp hv) (by simp)
    · nomatch hv)
  -- the test byte
  obtain ⟨g₁, g₂, w, w', rfl, hpg₁, hpg₂, hrung₁, hwrite, hrung₂⟩ := run_port hrunTest hptest
  have hw := run_tx hrung₁ (by
    rw [hpg₁]
    exact fun v hv => nomatch hv)
  have ht := run_tx hrung₂ (by
    rw [hpg₂]
    exact fun v hv => nomatch hv)
  rw [hempty] at hw
  have hwempty := tx_nil hw
  obtain rfl := Option.some.inj hwrite
  have hone : (w.write 0#16 0xAE#8).tx.length ≤ 1 := by
    unfold State.write State.transmit
    dsimp only
    rw [if_pos rfl, hwempty, List.length_nil, if_pos w.regs.depth_pos]
    split
    · exact Nat.zero_le 1
    · exact Nat.le_refl 1
  exact Nat.le_trans hlast (Nat.le_trans ht hone)

/-- A session after `serial_init` has returned true, with any looks in between and
anything coming in: the other end of the line sees what was written, in order and
once, but for at most two bytes still on their way; what was read is what came in,
in order, and if none was lost all of it. -/
theorem session_duplex {again : Nat} {u : Uart} {p : Session} {calls : List SerialCall}
    {s₀ s s' : State} {h₀ h : List Happening} (hok : u.serialInitCom1.1 = true)
    (hinit : Served u u.serialInitCom1.2 s₀ h₀ s)
    (hcalls : Runs.run (Session.exec again) ⟨u.serialInitCom1.2, []⟩ calls = some p)
    (hs : Served u.serialInitCom1.2 p.uart s h s') :
    (∃ pending, pending.length ≤ 2 ∧
      s'.wire ++ pending = s.out ++ calls.flatMap SerialCall.written) ∧
    ∃ got, s.rx ++ got = p.read ++ s'.rx ∧ got.Sublist (arrivals h) ∧
      s'.lost + got.length = s.lost + (arrivals h).length ∧
      (s'.lost = s.lost → got = arrivals h) := by
  obtain ⟨-, -, hnormal, -⟩ := serialInit_regs hinit
  obtain ⟨read, hread, hduplex⟩ := Session.run_duplex hcalls hs (hnormal hok)
  obtain ⟨got, hrx, hsub, hcount⟩ := hduplex.rx
  rw [List.nil_append] at hread
  constructor
  · exact hduplex.pending (serialInit_tx hinit)
  · refine ⟨got, by rw [hread, hrx], hsub, hcount, ?_⟩
    intro hlost
    exact hsub.eq_of_length (by omega)

/-- A byte each way. -/
def byteHistory : List Happening :=
  [.port (.read 5#16 0x60#8), .port (.write 0#16 0x41#8), .line (.arrive 0x42#8),
    .port (.read 5#16 0x01#8), .port (.read 0#16 0x42#8)]

def byteAnswers : Uart := answering [0xAE#8, 0x60#8, 0x01#8, 0x42#8]

def bytePort : State := { readyPort with tx := [0x41#8] }

theorem session_duplex_bytes :
    ∃ p, Runs.run (Session.exec 0) ⟨byteAnswers.serialInitCom1.2, []⟩
        [.writeByte 0x41#8, .readByte] = some p ∧
      (∃ pending, pending.length ≤ 2 ∧ bytePort.wire ++ pending = readyPort.out ++ [0x41#8]) ∧
      ∃ got, readyPort.rx ++ got = p.read ++ bytePort.rx ∧ got.Sublist (arrivals byteHistory) ∧
        bytePort.lost + got.length = readyPort.lost + (arrivals byteHistory).length ∧
        (bytePort.lost = readyPort.lost → got = arrivals byteHistory) := by
  obtain ⟨p, hp, hserved⟩ : ∃ p, Runs.run (Session.exec 0) ⟨byteAnswers.serialInitCom1.2, []⟩
      [.writeByte 0x41#8, .readByte] = some p ∧
      Served byteAnswers.serialInitCom1.2 p.uart readyPort byteHistory bytePort :=
    ⟨_, rfl, _, rfl, by decide, by decide⟩
  have hinit : Served byteAnswers byteAnswers.serialInitCom1.2 resetPort
      (setUpHistory ++ (echoHistory ++ [.port (.write 4#16 0x0F#8)])) readyPort :=
    ⟨_, rfl, by decide, by decide⟩
  exact ⟨p, hp, session_duplex (by decide) hinit hp hserved⟩

/-! ## Waiting -/

/-- Writing bytes leaves modem control alone. -/
theorem writeBytes_ports {again : Nat} {bytes : List (BitVec 8)} {u : Uart} {s s' : State}
    {h : List Happening} (hs : Served u (u.serialCom1WriteBytes again bytes).2 s h s') :
    ∀ v, Access.write 4#16 v ∉ ports h := by
  induction bytes generalizing u s h with
  | nil =>
      obtain ⟨hports, -⟩ := hs.intro (l := []) (List.append_nil _).symm
      rw [hports]
      exact fun v hv => nomatch hv
  | cons b bs ih =>
      have hone : ∀ {s s' : State} {h : List Happening},
          Served u (u.serialWriteByte com1Port b again).2 s h s' →
            ∀ v, Access.write 4#16 v ∉ ports h := by
        intro s s' h hs v hv
        obtain ⟨values, ⟨-, w, -, hlog⟩ | ⟨-, -, w, -, hlog⟩⟩ := u.serialWriteByte_log b again
        · obtain ⟨hports, -⟩ := hs.intro hlog
          rw [hports, List.map_append, List.map_append, looks_ports, looks_ports] at hv
          simp [PortAccess.at, regData] at hv
        · obtain ⟨hports, -⟩ := hs.intro hlog
          rw [hports, List.map_append, looks_ports, looks_ports] at hv
          simp at hv
      unfold Uart.serialCom1WriteBytes at hs
      dsimp only at hs
      split at hs
      · obtain ⟨h₁, h₂, t, rfl, hs₁, hs₂⟩ := hs.cut
          ((List.prefix_append _ _).trans (Uart.serialWriteByte_accesses com1Port b again u))
          (Uart.serialCom1WriteBytes_accesses again bs _)
        intro v hv
        rw [ports_append] at hv
        exact (List.mem_append.mp hv).elim (hone hs₁ v) (ih hs₂ v)
      · exact hone hs

/-- After a failed test nothing that is written gets on the line, and the port
stays as it is. -/
theorem failed_silent {again : Nat} {bytes : List (BitVec 8)} {u w : Uart} {s₀ s s' : State}
    {h₀ h : List Happening} (hfailed : u.serialInitCom1.1 = false)
    (hinit : Served u u.serialInitCom1.2 s₀ h₀ s)
    (hs : Served w (w.serialCom1WriteBytes again bytes).2 s h s') :
    s'.wire = s.wire ∧ s'.regs.loopback = true := by
  obtain ⟨-, -, -, hloop⟩ := serialInit_regs hinit
  have hports := writeBytes_ports hs
  obtain ⟨log, -, -, hrun⟩ := hs
  exact run_loopback hrun hports (hloop hfailed)

end RedOS
