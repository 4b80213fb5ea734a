/-
# `RedOS.Console.Uart` — COM1 at its ports

`serial.c` over a UART of which nothing is assumed: what its registers give when
they are read is any sequence of bytes.  So `serial_init` may fail, and the wait
for the transmitter may go on for ever.

    serialInit_fst         the loopback read decides
    serialWriteBytes_head  nothing is sent without a look at the line status
-/
import RedOS.Lib.ByteMemory

namespace RedOS

/-- An `inb` with the value it gave, or an `outb`. -/
inductive PortAccess
  | inb (port : BitVec 16) (value : BitVec 8)
  | outb (port : BitVec 16) (value : BitVec 8)
  deriving DecidableEq, Repr

/-- `COM1_PORT`, `REG_DATA`, `REG_INT_ENABLE`, `REG_INT_ID`, `REG_LINE_CTRL`,
`REG_MODEM_CTRL` and `REG_LINE_STATUS` -/
def com1Port : BitVec 16 := 0x3F8#16

def regData : BitVec 16 := 0#16

def regIntEnable : BitVec 16 := 1#16

def regIntId : BitVec 16 := 2#16

def regLineCtrl : BitVec 16 := 3#16

def regModemCtrl : BitVec 16 := 4#16

def regLineStatus : BitVec 16 := 5#16

structure Uart where
  /-- What the reads still to come give. -/
  reads : Nat → BitVec 8
  /-- The accesses so far. -/
  accesses : List PortAccess

namespace Uart

def inb (port : BitVec 16) (u : Uart) : BitVec 8 × Uart :=
  (u.reads 0, ⟨fun i => u.reads (i + 1), u.accesses ++ [.inb port (u.reads 0)]⟩)

def outb (port : BitVec 16) (value : BitVec 8) (u : Uart) : Uart :=
  { u with accesses := u.accesses ++ [.outb port value] }

/-- `serial_init` -/
def serialInit (port : BitVec 16) (u : Uart) : Bool × Uart :=
  let u := u.outb (port + regIntEnable) 0x00#8
  let u := u.outb (port + regLineCtrl) 0x80#8
  let u := u.outb (port + regData) 0x01#8
  let u := u.outb (port + regIntEnable) 0x00#8
  let u := u.outb (port + regLineCtrl) 0x03#8
  let u := u.outb (port + regIntId) 0xC7#8
  let u := u.outb (port + regModemCtrl) 0x0B#8
  let u := u.outb (port + regModemCtrl) 0x1E#8
  let u := u.outb (port + regData) 0xAE#8
  let (value, u) := u.inb (port + regData)
  if value ≠ 0xAE#8 then (false, u) else (true, u.outb (port + regModemCtrl) 0x0F#8)

/-- `serial_init_com1` -/
def serialInitCom1 (u : Uart) : Bool × Uart := u.serialInit com1Port

/-- `serial_is_transmit_ready` -/
def serialIsTransmitReady (port : BitVec 16) (u : Uart) : Bool × Uart :=
  let (status, u) := u.inb (port + regLineStatus)
  (status &&& 0x20#8 != 0#8, u)

/-- `serial_write_byte`, with at most `again` looks at the line status after the
first.  `false` says that it is still waiting. -/
def serialWriteByte (port : BitVec 16) (byte : BitVec 8) : Nat → Uart → Bool × Uart
  | again, u =>
      let (ready, u) := u.serialIsTransmitReady port
      if ready then (true, u.outb (port + regData) byte)
      else
        match again with
        | 0 => (false, u)
        | again + 1 => serialWriteByte port byte again u

/-- One `serial_com1_write_byte` after the other, as far as they return. -/
def serialCom1WriteBytes (again : Nat) : List (BitVec 8) → Uart → Bool × Uart
  | [], u => (true, u)
  | b :: bs, u =>
      let (sent, u) := u.serialWriteByte com1Port b again
      if sent then serialCom1WriteBytes again bs u else (false, u)

/-- `serial_is_received` -/
def serialIsReceived (port : BitVec 16) (u : Uart) : Bool × Uart :=
  let (status, u) := u.inb (port + regLineStatus)
  (status &&& 0x01#8 != 0#8, u)

/-- `serial_read_byte`, with at most `again` looks at the line status after the
first.  `none` says that it is still waiting. -/
def serialReadByte (port : BitVec 16) : Nat → Uart → Option (BitVec 8) × Uart
  | again, u =>
      let (received, u) := u.serialIsReceived port
      if received then
        let (value, u) := u.inb (port + regData)
        (some value, u)
      else
        match again with
        | 0 => (none, u)
        | again + 1 => serialReadByte port again u

/-- The access sends a byte or looks whether one can be sent. -/
def Sending (a : PortAccess) : Prop :=
  (∃ b, a = .outb (com1Port + regData) b) ∨ ∃ b, a = .inb (com1Port + regLineStatus) b

theorem serialInit_fst (port : BitVec 16) (u : Uart) :
    (u.serialInit port).1 = true ↔ u.reads 0 = 0xAE#8 := by
  unfold serialInit inb
  dsimp only [outb]
  by_cases h : u.reads 0 = 0xAE#8
  · rw [if_neg (not_not_intro h)]
    exact iff_of_true rfl h
  · rw [if_pos h]
    exact iff_of_false Bool.false_ne_true h

theorem serialWriteByte_accesses (port : BitVec 16) (byte : BitVec 8) (again : Nat) (u : Uart) :
    u.accesses ++ [.inb (port + regLineStatus) (u.reads 0)] <+:
      (u.serialWriteByte port byte again).2.accesses := by
  induction again generalizing u with
  | zero =>
      unfold serialWriteByte
      dsimp only
      split
      · exact List.prefix_append _ _
      · exact List.prefix_rfl
  | succ again ih =>
      unfold serialWriteByte
      dsimp only
      split
      · exact List.prefix_append _ _
      · exact (List.prefix_append _ _).trans (ih (u.serialIsTransmitReady port).2)

theorem serialCom1WriteBytes_accesses (again : Nat) (bytes : List (BitVec 8)) (u : Uart) :
    u.accesses <+: (u.serialCom1WriteBytes again bytes).2.accesses := by
  induction bytes generalizing u with
  | nil => exact List.prefix_rfl
  | cons b bs ih =>
      have hfirst := (List.prefix_append _ _).trans (serialWriteByte_accesses com1Port b again u)
      unfold serialCom1WriteBytes
      dsimp only
      split
      · exact hfirst.trans (ih _)
      · exact hfirst

/-- The first byte brings a look at the line status, whatever becomes of it. -/
theorem serialCom1WriteBytes_head (again : Nat) {bytes : List (BitVec 8)} (hne : bytes ≠ []) (u : Uart) :
    ∃ a ∈ (u.serialCom1WriteBytes again bytes).2.accesses, Sending a := by
  obtain ⟨b, bs, rfl⟩ := List.exists_cons_of_ne_nil hne
  have hfirst := serialWriteByte_accesses com1Port b again u
  have hall : u.accesses ++ [.inb (com1Port + regLineStatus) (u.reads 0)] <+:
      (u.serialCom1WriteBytes again (b :: bs)).2.accesses := by
    unfold serialCom1WriteBytes
    dsimp only
    split
    · exact hfirst.trans (serialCom1WriteBytes_accesses again bs _)
    · exact hfirst
  exact ⟨_, hall.subset (List.mem_append_right _ List.mem_cons_self), .inr ⟨u.reads 0, rfl⟩⟩

end Uart

end RedOS
