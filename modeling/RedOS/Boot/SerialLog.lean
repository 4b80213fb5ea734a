/-
# `RedOS.Boot.SerialLog` — the boot log at the other end of the line

`kernel_main` on a real port: everything it prints goes through
`serial_com1_write_byte`, and what `serial_init` has left behind decides whether
any of it gets out.

    kernelMain_line    the log is on the line, or the port is looped for good
-/
import RedOS.Console.SerialLine
import RedOS.Boot.DeadUart

namespace RedOS

open Uart16550

/-- What `kernel_main` prints on a 16550 in any state, whatever it shows and
whatever happens on the line.  If `serial_init` succeeds the other end sees it in
order and once, as far as the calls return, and but for at most two bytes still on
their way.  If it fails the port stays in loopback mode, and not a byte of it ever
gets there. -/
theorem kernelMain_line {again : Nat} {v : View} {sub : Subsystem} {u : Uart}
    {accesses : List PortAccess} {s₀ s s' : State} {h₀ h : List Happening}
    (hinit : Served u u.serialInitCom1.2 s₀ h₀ s)
    (hmain : kernelMainAccesses again v sub u = some accesses)
    (hports : ports h = accesses.map (PortAccess.at com1Port))
    (hrun : Runs.run State.step s h = some s') :
    ∃ sub' text, kernelMain u.serialInitCom1.1 v sub = some sub' ∧ sub'.sent = sub.sent ++ text ∧
      (u.serialInitCom1.1 = true → ∃ sent rest pending, text = sent ++ rest ∧
        s'.wire ++ pending = s.out ++ sent ∧ pending.length ≤ 2 ∧
        ((Uart.serialCom1WriteBytes again text ⟨u.serialInitCom1.2.reads, []⟩).1 = true → rest = [])) ∧
      (u.serialInitCom1.1 = false → s'.wire = s.wire ∧ s'.regs.loopback = true) := by
  obtain ⟨sub', hsub, haccesses⟩ := Option.map_eq_some_iff.mp hmain
  obtain ⟨text, htext⟩ := (kernelMain_extends hsub).sent
  have hdrop : sub'.sent.drop sub.sent.length = text := by
    show sub'.debug.console.sent.drop sub.debug.console.sent.length = text
    rw [← htext, List.drop_left']
    rfl
  rw [hdrop] at haccesses
  have hserved : Served ⟨u.serialInitCom1.2.reads, []⟩
      (Uart.serialCom1WriteBytes again text ⟨u.serialInitCom1.2.reads, []⟩).2 s h s' :=
    ⟨accesses, haccesses, hports, hrun⟩
  refine ⟨sub', text, hsub, htext.symm, ?_, fun hfailed => failed_silent hfailed hinit hserved⟩
  intro hok
  obtain ⟨-, -, hnormal, -⟩ := serialInit_regs hinit
  obtain ⟨sent, rest, hsplit, hduplex, hall⟩ := Duplex.writeBytes hserved (hnormal hok)
  obtain ⟨pending, hlen, hwire⟩ := hduplex.pending (serialInit_tx hinit)
  exact ⟨sent, rest, pending, hsplit, hwire, hlen, hall⟩

/-- A port whose test byte was not through the loop when the answer was read. -/
def loopedPort : State := { resetPort with regs := lineRegs 0#8 0x1E#8, tx := [0xAE#8] }

/-- There the first look at the line status finds the test byte, and `kernel_main`
waits for it. -/
theorem kernelMain_line_looped :
    let sub := Subsystem.start 0x80000001#32 (Console.boot fun _ => 0#8)
    let u := answering []
    ∃ sub' text, kernelMain u.serialInitCom1.1 smallView sub = some sub' ∧
      sub'.sent = sub.sent ++ text ∧
      (u.serialInitCom1.1 = true → ∃ sent rest pending, text = sent ++ rest ∧
        loopedPort.wire ++ pending = loopedPort.out ++ sent ∧ pending.length ≤ 2 ∧
        ((Uart.serialCom1WriteBytes 0 text ⟨u.serialInitCom1.2.reads, []⟩).1 = true → rest = [])) ∧
      (u.serialInitCom1.1 = false → loopedPort.wire = loopedPort.wire ∧
        loopedPort.regs.loopback = true) := by
  intro sub u
  have hinit : Served (answering []) (answering []).serialInitCom1.2 resetPort
      (setUpHistory ++ [.port (.write 0#16 0xAE#8), .port (.read 0#16 0x00#8)]) loopedPort :=
    ⟨_, rfl, by decide, by decide⟩
  obtain ⟨sub', hsub, hne⟩ := Subsystem.welcome_sent (answering []).serialInitCom1.1 smallView sub
  obtain ⟨b, bs, hbytes⟩ := List.exists_cons_of_ne_nil hne
  have haccesses : kernelMainAccesses 0 smallView sub (answering []) =
      some [.inb (com1Port + regLineStatus) 0x00#8] := by
    unfold kernelMainAccesses
    dsimp only
    rw [hsub, Option.map_some, hbytes]
    rfl
  have hlook : Runs.run State.step loopedPort [.port (.read 5#16 0x00#8)] = some loopedPort := by decide
  exact kernelMain_line hinit haccesses (by decide) hlook

end RedOS
