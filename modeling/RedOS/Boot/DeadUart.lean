/-
# `RedOS.Boot.DeadUart` — a UART that failed its test

`debug_init` leaves COM1 out of the debug target when `serial_init_com1` fails.
Its caller does not look: `kernel_main` turns the terminal's mirroring on and the
target to everything right after it, and with the first message it logs
`serial_write_byte` waits for the transmitter.

    setUpOutput_spec          the state before that message
    welcome_sent              the message is sent
    failed_uart_unused_iff    so the UART is left alone only if it passed
-/
import RedOS.Console.Uart
import RedOS.Boot.KernelMain

namespace RedOS

namespace Subsystem

/-- The bytes sent to COM1 so far. -/
def sent (s : Subsystem) : List (BitVec 8) := s.debug.console.sent

/-- The first calls turn the mirroring on and the target to everything, whatever
`serial_init_com1` returned. -/
theorem setUpOutput_spec (serialOk : Bool) (s : Subsystem) :
    ∃ s', Runs.run kernelExec s (setUpOutput serialOk) = some s' ∧ s'.debug.level = 4 ∧
      s'.debug.target = 0xFF#32 ∧ s'.debug.console.terminalSerial = true := by
  obtain ⟨s₁, h₁⟩ := debugInit_isSome serialOk s
  exact ⟨_, Runs.run_cons_some.mpr ⟨s₁, h₁, rfl⟩, rfl, rfl, rfl⟩

/-- "RedOS kernel starting..." goes to COM1. -/
theorem welcome_sent (serialOk : Bool) (v : View) (s : Subsystem) :
    ∃ s', kernelMain serialOk v s = some s' ∧ s'.sent.drop s.sent.length ≠ [] := by
  obtain ⟨s', hrun⟩ := kernelMain_returns serialOk v s
  refine ⟨s', hrun, ?_⟩
  obtain ⟨s₁, hsetup, hlevel, htarget, hmirror⟩ := setUpOutput_spec serialOk s
  obtain ⟨body, hbody⟩ := @messageBody_isSome (chars "RedOS kernel starting...") []
    (by decide +kernel) 3
  have hthrough : 3 ≤ s₁.debug.level := by
    rw [hlevel]
    decide
  have hlog := Debug.log_write hthrough hbody
  have hvga : s₁.debug.toVga = true := by
    unfold Debug.toVga
    rw [htarget]
    decide
  have hsends := (Debug.write_sends (levelPrefix 3 ++ body ++ [13#8, 10#8, 0#8]) s₁.debug).sent
  unfold kernelMain kernelMainRest at hrun
  rw [Runs.run_append, hsetup, Option.bind_some] at hrun
  obtain ⟨s₂, hwelcome, hrest⟩ := Runs.run_cons_some.mp hrun
  have hexec : s₁.kernelExec (.debug (debugInfo "RedOS kernel starting..." [])) = some { s₁ with
      debug := s₁.debug.write (levelPrefix 3 ++ body ++ [13#8, 10#8, 0#8]) } :=
    congrArg (Option.map fun d => ({ s₁ with debug := d } : Subsystem)) hlog
  obtain rfl := Option.some.inj (hexec.symm.trans hwelcome)
  -- the line begins with the '[' of its prefix
  have hhead : ∃ bs, s₁.debug.mirroredPart (cString (levelPrefix 3 ++ body ++ [13#8, 10#8, 0#8])) = 91#8 :: bs := by
    have hopen : levelPrefix 3 = 91#8 :: chars "INFO]  " := by decide +kernel
    have hbracket : serialForm 91#8 = [91#8] := by decide
    unfold Debug.mirroredPart cString
    rw [hvga, hmirror, hopen, List.cons_append, List.cons_append,
      List.takeWhile_cons_of_pos (by decide), Bool.true_and, if_pos rfl, List.flatMap_cons, hbracket]
    exact ⟨_, rfl⟩
  obtain ⟨bs, hbs⟩ := hhead
  rw [hbs, List.cons_append] at hsends
  have hbefore : s.sent.length ≤ s₁.debug.console.sent.length := (kernelRun_extends hsetup).sent.length_le
  have hafter : (Debug.write (levelPrefix 3 ++ body ++ [13#8, 10#8, 0#8]) s₁.debug).console.sent.length ≤
      s'.sent.length := (kernelRun_extends hrest).sent.length_le
  have hlen := congrArg List.length hsends
  rw [List.length_append, List.length_cons] at hlen
  refine fun hnil => absurd (List.drop_eq_nil_iff.mp hnil) ?_
  omega

end Subsystem

/-- The port accesses of `kernel_main` once `serial_init_com1` has returned: each
byte it sends is waited for, at most `again` more times, and written. -/
def kernelMainAccesses (again : Nat) (v : View) (s : Subsystem) (u : Uart) : Option (List PortAccess) :=
  let (serialOk, u) := u.serialInitCom1
  (kernelMain serialOk v s).map fun s' =>
    (Uart.serialCom1WriteBytes again (s'.sent.drop s.sent.length) ⟨u.reads, []⟩).2.accesses

theorem welcome_polled (again : Nat) (v : View) (s : Subsystem) (u : Uart) :
    ∃ accesses, kernelMainAccesses again v s u = some accesses ∧ ∃ a ∈ accesses, Uart.Sending a := by
  obtain ⟨s', hrun, hne⟩ := Subsystem.welcome_sent u.serialInitCom1.1 v s
  refine ⟨_, congrArg (Option.map _) hrun, ?_⟩
  exact Uart.serialCom1WriteBytes_head again hne ⟨u.serialInitCom1.2.reads, []⟩

/-- Whatever the UART answers, whatever `kernel_main` prints: a UART that failed
is left alone exactly if it did not fail. -/
theorem failed_uart_unused_iff (cr0 : BitVec 32) (k : Console) (again : Nat) (v : View) (u : Uart) :
    ∃ accesses, kernelMainAccesses again v (Subsystem.start cr0 k) u = some accesses ∧
      ((u.serialInitCom1.1 = false → ∀ a ∈ accesses, ¬ Uart.Sending a) ↔ u.reads 0 = 0xAE#8) := by
  obtain ⟨accesses, hrun, a, ha, hsending⟩ := welcome_polled again v (Subsystem.start cr0 k) u
  refine ⟨accesses, hrun, ?_⟩
  rw [← Uart.serialInit_fst com1Port u]
  show (u.serialInitCom1.1 = false → _) ↔ u.serialInitCom1.1 = true
  cases u.serialInitCom1.1 with
  | true => exact iff_of_true (fun h => nomatch h) rfl
  | false => exact iff_of_false (fun h => h rfl a ha hsending) Bool.false_ne_true

/-- A UART that gives zeros fails its test, and `kernel_main` polls it all the
same. -/
theorem failed_uart_polled :
    let u : Uart := ⟨fun _ => 0#8, []⟩
    let s := Subsystem.start 0x80000001#32 (Console.boot fun _ => 0#8)
    u.serialInitCom1.1 = false ∧ ∃ accesses, kernelMainAccesses 0 smallView s u = some accesses ∧
      ∃ a ∈ accesses, Uart.Sending a :=
  ⟨by decide, welcome_polled 0 smallView _ _⟩

end RedOS
