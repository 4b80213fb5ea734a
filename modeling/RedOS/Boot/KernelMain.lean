/-
# `RedOS.Boot.KernelMain` — `kernel.c`: what the kernel says while it boots

`kernel_main` and the paging functions it calls, by their calls of the console
code.  The values they print and the course the paging functions take are the
parameter `View`: what the console code does does not depend on them.

    PagingMessage.call    what `paging.c` logs
    kernelMain            the calls, in order
    kernelMain_returns    every format finds its arguments
-/
import RedOS.Console.Panic

namespace RedOS

/-! ## What `paging.c` logs -/

inductive PagingMessage
  | setFrameOutOfBounds (idx : BitVec 32)
  | clearFrameOutOfBounds (idx : BitVec 32)
  | noFreeFrames
  | allocatedFrame (frame : BitVec 32)
  | freeingFrame (frame : BitVec 32)
  | existingPageTable (table virt : BitVec 32)
  | failedToAllocate (virt : BitVec 32)
  | createdPageTable (table virt : BitVec 32)
  | mapping (virt phys flags : BitVec 32)
  | failedToGetTable (virt : BitVec 32)
  | mapped (virt phys : BitVec 32)
  | unmapping (virt : BitVec 32)
  | tableNotFound (virt : BitVec 32)
  | unmapped (virt : BitVec 32)

/-- `(virt_addr >> 12) & 0x3FF` -/
def ptIndex (virt : BitVec 32) : BitVec 32 := virt >>> 12 &&& 0x3FF#32

/-- The call of `debug.c` that a message is. -/
def PagingMessage.call : PagingMessage → DebugCall
  | .setFrameOutOfBounds idx =>
      debugError "set_frame: Frame index %u out of bounds (max %u)" [.word idx, .word 511#32]
  | .clearFrameOutOfBounds idx =>
      debugError "clear_frame: Frame index %u out of bounds (max %u)" [.word idx, .word 511#32]
  | .noFreeFrames => debugError "No free frames available!" []
  | .allocatedFrame frame => debugDebug "Allocated frame at physical address %x" [.word frame]
  | .freeingFrame frame => debugDebug "Freeing frame at physical address %x" [.word frame]
  | .existingPageTable table virt =>
      debugTrace "Using existing page table at physical %x for address %x" [.word table, .word virt]
  | .failedToAllocate virt => debugError "Failed to allocate page table for address %x" [.word virt]
  | .createdPageTable table virt =>
      debugTrace "Created new page table at physical %x for address %x" [.word table, .word virt]
  | .mapping virt phys flags =>
      debugDebug "Mapping virtual %x to physical %x with flags %x" [.word virt, .word phys, .word flags]
  | .failedToGetTable virt =>
      debugError "Failed to get page table for virtual address %x" [.word virt]
  | .mapped virt phys =>
      debugTrace "Mapped virtual %x to physical %x (PD idx: %u, PT idx: %u)"
        [.word virt, .word phys, .word (virt >>> 22), .word (ptIndex virt)]
  | .unmapping virt => debugDebug "Unmapping virtual address %x" [.word virt]
  | .tableNotFound virt => debugWarning "Page table not found for virtual address %x" [.word virt]
  | .unmapped virt =>
      debugTrace "Unmapped virtual address %x (PD idx: %u, PT idx: %u)"
        [.word virt, .word (virt >>> 22), .word (ptIndex virt)]

/-! ## `kernel.c` -/

/-- A call of the console code, from the kernel's own or from `debug.c`. -/
inductive KernelCall
  | debugInit (serialOk : Bool)
  | debug (c : DebugCall)
  | printfEnableSerial (enable : Bool)
  | putcharEnableSerial (enable : Bool)
  | printf (format : List (BitVec 8)) (args : List Arg)
  /-- `debug_print` -/
  | debugPrint (format : List (BitVec 8)) (args : List Arg)

/-- `debug_vprint` -/
def Debug.vprint (format : List (BitVec 8)) (args : List Arg) (d : Debug) : Option Debug :=
  (vsnprintf (debugBufferSize - 1) format args).map fun stored =>
    let messageLen := min (vsnprintfCount stored) (debugBufferSize - 1)
    d.write (stored.take messageLen ++ [0#8])

def Subsystem.onConsole (f : Console → Console) (s : Subsystem) : Subsystem :=
  { s with debug := { s.debug with console := f s.debug.console } }

def Subsystem.kernelExec (s : Subsystem) : KernelCall → Option Subsystem
  | .debugInit serialOk => s.debugInit serialOk
  | .debug c => (s.debug.exec c).map fun d => { s with debug := d }
  | .printfEnableSerial enable => some (s.onConsole fun k => { k with printfSerial := enable })
  | .putcharEnableSerial enable => some (s.onConsole fun k => { k with putcharSerial := enable })
  | .printf format args => (s.debug.console.printf format args).map fun r => s.onConsole fun _ => r.2
  | .debugPrint format args => (s.debug.vprint format args).map fun d => { s with debug := d }

/-- What `print_paging_info` finds. -/
structure PagingInfo where
  enabled : Bool
  cr3 : BitVec 32
  /-- `current_page_directory` -/
  current : BitVec 32
  usedFrames : BitVec 32

/-- The values `kernel_main` prints and what the paging functions log on the way. -/
structure View where
  /-- `&kernel_main` and the symbols of the linker script -/
  kernelMain : BitVec 32
  virtualStart : BitVec 32
  virtualEnd : BitVec 32
  physicalStart : BitVec 32
  physicalEnd : BitVec 32
  /-- of the `set_frame` calls in `init_paging` -/
  initMessages : List PagingMessage
  cr3 : BitVec 32
  before : PagingInfo
  /-- of the three `kmalloc_physical_page` calls -/
  allocMessages : List PagingMessage
  page1 : BitVec 32
  page2 : BitVec 32
  page3 : BitVec 32
  mapMessages : List PagingMessage
  readValue : BitVec 32
  unmapMessages : List PagingMessage
  freeMessages : List PagingMessage
  after : PagingInfo
  /-- the eight lines of the hex dump -/
  dumpLines : List (List (BitVec 8))
  /-- for the panic of a kernel outside the higher half -/
  registers : Registers

def say (format : String) (args : List Arg) : KernelCall := .printf (chars format) args

def logPaging (ms : List PagingMessage) : List KernelCall := ms.map fun m => .debug m.call

/-- `test_debugging_levels` -/
def testDebuggingLevels : List KernelCall :=
  [.debug (debugError "This is an ERROR level message" []),
    .debug (debugWarning "This is a WARNING level message" []),
    .debug (debugInfo "This is an INFO level message" []),
    .debug (debugDebug "This is a DEBUG level message" []),
    .debug (debugTrace "This is a TRACE level message" []),
    say "\nTesting printf redirection to serial port\n" []]

/-- `print_kernel_memory_layout`.  The symbols are `uint32_t`, so the difference
of their addresses counts words. -/
def printKernelMemoryLayout (v : View) : List KernelCall :=
  [say "Kernel Memory Layout:\n" [],
    say "  Virtual Start:  %x\n" [.word v.virtualStart],
    say "  Virtual End:    %x\n" [.word v.virtualEnd],
    say "  Physical Start: %x\n" [.word v.physicalStart],
    say "  Physical End:   %x\n" [.word v.physicalEnd],
    say "  Virtual Size:   %u KB\n" [.word ((v.virtualEnd - v.virtualStart).sshiftRight 2 / 1024#32)]]

/-- `P2V` -/
def p2vWord (a : BitVec 32) : BitVec 32 := a + 0xC0000000#32

/-- `init_paging` -/
def initPagingCalls (v : View) : List KernelCall :=
  [say "Initializing paging system...\n" [],
    say "Marking kernel physical memory as used: %x - %x\n" [.word v.physicalStart, .word v.physicalEnd]] ++
  logPaging v.initMessages ++
  [say "Current page directory at physical: %x, virtual: %x\n" [.word v.cr3, .word (p2vWord v.cr3)],
    .debug (debugInfo "Paging system initialized successfully" []),
    say "Paging system initialized!\n" []]

/-- `print_paging_info` -/
def printPagingInfo (i : PagingInfo) : List KernelCall :=
  let free := 16384#32 - i.usedFrames
  [say "Paging Information:\n" [],
    say "  Paging enabled: %s\n" [.str (some (chars (if i.enabled then "YES" else "NO")))],
    say "  Page Directory (CR3): %x (Physical)\n" [.word i.cr3],
    say "  Page Directory Virtual: %x\n" [.word i.current],
    say "  Used physical frames: %u/%u (%u KB)\n"
      [.word i.usedFrames, .word 16384#32, .word (i.usedFrames * 4096#32 / 1024#32)],
    say "  Free physical frames: %u/%u (%u KB)\n"
      [.word free, .word 16384#32, .word (free * 4096#32 / 1024#32)],
    .debug (debugTrace "Page directory at physical %x, virtual %x" [.word i.cr3, .word i.current])]

/-- `test_memory_mapping` up to the comparison -/
def tryMapping (v : View) : List KernelCall :=
  [.debug (debugInfo "Testing virtual memory mapping" []),
    say "\nTesting virtual memory mapping:\n" []] ++
  logPaging v.allocMessages ++
  [say "  Allocated page 1 at physical: %x, virtual: %x\n" [.word v.page1, .word (p2vWord v.page1)],
    say "  Allocated page 2 at physical: %x, virtual: %x\n" [.word v.page2, .word (p2vWord v.page2)],
    say "  Allocated page 3 at physical: %x, virtual: %x\n" [.word v.page3, .word (p2vWord v.page3)],
    say "  Mapping virtual %x to physical %x\n" [.word 0xD0000000#32, .word v.page1]] ++
  logPaging v.mapMessages ++
  [.debug (debugDebug "Writing test pattern to mapped memory" []),
    say "  Writing test pattern to mapped memory...\n" [],
    say "  Reading back value: %x (expected 0xDEADBEEF)\n" [.word v.readValue]]

/-- and after it -/
def cleanUp (v : View) : List KernelCall :=
  [.debug (debugDebug "Cleaning up test allocations" []),
    say "\nCleaning up test allocations:\n" [],
    say "  Unmapping virtual address %x\n" [.word 0xD0000000#32]] ++
  logPaging v.unmapMessages ++
  say "  Freeing physical pages\n" [] :: logPaging v.freeMessages

def testResult (readValue : BitVec 32) : DebugCall :=
  if readValue ≠ 0xDEADBEEF#32 then
    debugError "Memory test failed! Expected 0xDEADBEEF, got %x" [.word readValue]
  else debugInfo "Memory test passed successfully" []

/-- `test_memory_mapping` -/
def testMemoryMapping (v : View) : List KernelCall :=
  tryMapping v ++ .debug (testResult v.readValue) :: cleanUp v

/-- `debug_hex_dump`, line by line. -/
def debugHexDump (lines : List (List (BitVec 8))) : List KernelCall :=
  lines.map fun line => .debugPrint (chars "%s\r\n") [.str (some line)]

/-- The first calls of `kernel_main`, with what `serial_init_com1` returned. -/
def setUpOutput (serialOk : Bool) : List KernelCall :=
  [.debugInit serialOk,
    .debug (.enableSerial true), .printfEnableSerial false, .putcharEnableSerial false,
    .debug (.setLevel 4), .debug (.setTarget 0xFF#32)]

/-- What `kernel_main` does when it finds itself in the higher half. -/
def higherHalfCalls (v : View) : List KernelCall :=
  .debug (debugInfo "Kernel is running in the higher half (0xC0000000+)" []) ::
    (printKernelMemoryLayout v ++ initPagingCalls v ++ printPagingInfo v.before ++ testMemoryMapping v ++
      printPagingInfo v.after ++ .debug (debugInfo "Memory dump of kernel start area" []) ::
      debugHexDump v.dumpLines ++
      [.debug (debugInfo "Testing debug output targets" []),
        .debug (.setTarget 1#32),
        .debug (debugInfo "This message should only appear on VGA (not in serial log)" []),
        .debug (.setTarget 2#32),
        .debug (debugInfo "This message should only appear in serial log (not on VGA)" []),
        .debug (.setTarget 0xFF#32),
        .debug (debugInfo "This message should appear in both VGA and serial log" []),
        .debug (debugInfo "RedOS successfully booted in higher half mode!" []),
        say "\nRedOS successfully booted in higher half mode!\n" []])

/-- And when not: the panic does not return. -/
def lowerHalfCalls (v : View) : List KernelCall :=
  .debug (debugError "Kernel is NOT running in the higher half!" []) ::
    .debug (.setTarget 0xFF#32) ::
    (panicLogs v.registers (chars "Kernel not in higher half")).map .debug

/-- `kernel_main` after its first calls. -/
def kernelMainRest (v : View) : List KernelCall :=
  .debug (debugInfo "RedOS kernel starting..." []) ::
    .debug (debugInfo "Serial debugging enabled" []) ::
    (testDebuggingLevels ++
      say "Kernel Main function called at virtual address %x!\n" [.word v.kernelMain] ::
      if 0xC0000000#32 ≤ v.kernelMain then higherHalfCalls v else lowerHalfCalls v)

/-- `kernel_main`, up to its return or to the loop of `panic`. -/
def kernelMain (serialOk : Bool) (v : View) (s : Subsystem) : Option Subsystem :=
  Runs.run Subsystem.kernelExec s (setUpOutput serialOk ++ kernelMainRest v)

/-! ## It returns -/

namespace KernelCall

/-- The arguments are what the format asks for. -/
def accepted : KernelCall → Bool
  | .debug c => c.accepted
  | .printf format args => Console.accepts ((cString format).length + 1) (cString format) args
  | .debugPrint format args => vaccepts (cString format) args
  | .debugInit _ | .printfEnableSerial _ | .putcharEnableSerial _ => true

/-- The call without the values of its arguments. -/
def kind : KernelCall → KernelCall
  | .debug c => .debug c.kind
  | .printf format args => .printf format (args.map Arg.kind)
  | .debugPrint format args => .debugPrint format (args.map Arg.kind)
  | .debugInit serialOk => .debugInit serialOk
  | .printfEnableSerial enable => .printfEnableSerial enable
  | .putcharEnableSerial enable => .putcharEnableSerial enable

theorem accepted_kind (c : KernelCall) : c.kind.accepted = c.accepted := by
  cases c with
  | debug c => exact c.accepted_kind
  | printf format args => exact Console.accepts_kind _ _ args
  | debugPrint format args => exact vaccepts_kind _ args
  | debugInit serialOk => rfl
  | printfEnableSerial enable => rfl
  | putcharEnableSerial enable => rfl

/-- Of the arguments of many calls only the kinds count. -/
theorem all_accepted_kind (calls : List KernelCall) :
    (calls.map kind).all accepted = calls.all accepted := by
  rw [List.all_map]
  exact congrArg (calls.all ·) (funext accepted_kind)

end KernelCall

/-- A literal format by its characters. -/
theorem say_ofList {text : List Char} {args : List Arg}
    (h : let format := cString (text.map fun c => BitVec.ofNat 8 c.toNat)
      Console.accepts (format.length + 1) format (args.map Arg.kind) = true) :
    (say (String.ofList text) args).accepted = true :=
  Console.accepts_ofList h

theorem log_ofList {text : List Char} {args : List Arg}
    (h : vaccepts (cString (text.map fun c => BitVec.ofNat 8 c.toNat)) (args.map Arg.kind) = true) :
    vaccepts (cString (chars (String.ofList text))) args = true := by
  rw [chars_ofList]
  exact (vaccepts_kind _ args).symm.trans h

theorem PagingMessage.call_accepted (m : PagingMessage) : m.call.accepted = true := by
  rw [← DebugCall.accepted_kind]
  cases m with
  | setFrameOutOfBounds idx => exact (by decide +kernel : (setFrameOutOfBounds 0#32).call.kind.accepted = true)
  | clearFrameOutOfBounds idx =>
      exact (by decide +kernel : (clearFrameOutOfBounds 0#32).call.kind.accepted = true)
  | noFreeFrames => decide +kernel
  | allocatedFrame frame => exact (by decide +kernel : (allocatedFrame 0#32).call.kind.accepted = true)
  | freeingFrame frame => exact (by decide +kernel : (freeingFrame 0#32).call.kind.accepted = true)
  | existingPageTable table virt =>
      exact (by decide +kernel : (existingPageTable 0#32 0#32).call.kind.accepted = true)
  | failedToAllocate virt => exact (by decide +kernel : (failedToAllocate 0#32).call.kind.accepted = true)
  | createdPageTable table virt =>
      exact (by decide +kernel : (createdPageTable 0#32 0#32).call.kind.accepted = true)
  | mapping virt phys flags =>
      exact (by decide +kernel : (mapping 0#32 0#32 0#32).call.kind.accepted = true)
  | failedToGetTable virt => exact (by decide +kernel : (failedToGetTable 0#32).call.kind.accepted = true)
  | mapped virt phys => exact (by decide +kernel : (mapped 0#32 0#32).call.kind.accepted = true)
  | unmapping virt => exact (by decide +kernel : (unmapping 0#32).call.kind.accepted = true)
  | tableNotFound virt => exact (by decide +kernel : (tableNotFound 0#32).call.kind.accepted = true)
  | unmapped virt => exact (by decide +kernel : (unmapped 0#32).call.kind.accepted = true)

theorem logPaging_accepted (ms : List PagingMessage) :
    (logPaging ms).all KernelCall.accepted = true := by
  unfold logPaging
  rw [List.all_map]
  exact List.all_eq_true.mpr fun m _ => m.call_accepted

theorem printKernelMemoryLayout_accepted (v : View) :
    (printKernelMemoryLayout v).all KernelCall.accepted = true := by
  refine List.all_eq_true.mpr ?_
  unfold printKernelMemoryLayout
  simp only [List.forall_mem_cons]
  repeat' apply And.intro
  any_goals exact say_ofList rfl
  exact fun c hc => nomatch hc

theorem initPagingCalls_accepted (v : View) : (initPagingCalls v).all KernelCall.accepted = true := by
  have hmessages := List.all_eq_true.mp (logPaging_accepted v.initMessages)
  refine List.all_eq_true.mpr ?_
  unfold initPagingCalls
  simp only [List.forall_mem_append, List.forall_mem_cons]
  refine ⟨⟨⟨say_ofList rfl, say_ofList rfl, fun c hc => nomatch hc⟩, hmessages⟩, say_ofList rfl,
    log_ofList rfl, say_ofList rfl, ?_⟩
  exact fun c hc => nomatch hc

theorem printPagingInfo_accepted (i : PagingInfo) :
    (printPagingInfo i).all KernelCall.accepted = true := by
  refine List.all_eq_true.mpr ?_
  unfold printPagingInfo
  simp only [List.forall_mem_cons]
  refine ⟨say_ofList rfl, say_ofList rfl, say_ofList rfl, say_ofList rfl, say_ofList rfl, say_ofList rfl,
    log_ofList rfl, ?_⟩
  exact fun c hc => nomatch hc

theorem testResult_accepted (readValue : BitVec 32) : (testResult readValue).accepted = true := by
  unfold testResult
  split
  · exact log_ofList rfl
  · exact log_ofList rfl

theorem testMemoryMapping_accepted (v : View) :
    (testMemoryMapping v).all KernelCall.accepted = true := by
  have htry : (tryMapping v).all KernelCall.accepted = true := by
    have halloc := List.all_eq_true.mp (logPaging_accepted v.allocMessages)
    have hmap := List.all_eq_true.mp (logPaging_accepted v.mapMessages)
    refine List.all_eq_true.mpr ?_
    unfold tryMapping
    simp only [List.forall_mem_append, List.forall_mem_cons]
    refine ⟨⟨⟨⟨⟨log_ofList rfl, say_ofList rfl, ?_⟩, halloc⟩, say_ofList rfl, say_ofList rfl, say_ofList rfl,
      say_ofList rfl, ?_⟩, hmap⟩, log_ofList rfl, say_ofList rfl, say_ofList rfl, ?_⟩
    all_goals exact fun c hc => nomatch hc
  have hclean : (cleanUp v).all KernelCall.accepted = true := by
    have hunmap := List.all_eq_true.mp (logPaging_accepted v.unmapMessages)
    have hfree := List.all_eq_true.mp (logPaging_accepted v.freeMessages)
    refine List.all_eq_true.mpr ?_
    unfold cleanUp
    simp only [List.forall_mem_append, List.forall_mem_cons]
    refine ⟨⟨⟨log_ofList rfl, say_ofList rfl, say_ofList rfl, ?_⟩, hunmap⟩, say_ofList rfl, hfree⟩
    exact fun c hc => nomatch hc
  unfold testMemoryMapping
  rw [List.all_append, List.all_cons, htry, hclean, Bool.and_true, Bool.true_and]
  exact testResult_accepted v.readValue

theorem debugHexDump_accepted (lines : List (List (BitVec 8))) :
    (debugHexDump lines).all KernelCall.accepted = true := by
  unfold debugHexDump
  rw [List.all_map]
  refine List.all_eq_true.mpr ?_
  intro line _
  show vaccepts (cString (chars "%s\r\n")) [.str (some line)] = true
  exact (vaccepts_kind _ _).symm.trans rfl

theorem kernelMainRest_accepted (v : View) :
    (kernelMainRest v).all KernelCall.accepted = true := by
  have hhigher : (higherHalfCalls v).all KernelCall.accepted = true := by
    have hdump := List.all_eq_true.mp (debugHexDump_accepted v.dumpLines)
    refine List.all_eq_true.mpr ?_
    unfold higherHalfCalls
    simp only [List.forall_mem_append, List.forall_mem_cons]
    refine ⟨log_ofList rfl, ⟨⟨⟨⟨⟨List.all_eq_true.mp (printKernelMemoryLayout_accepted v),
      List.all_eq_true.mp (initPagingCalls_accepted v)⟩, List.all_eq_true.mp (printPagingInfo_accepted _)⟩,
      List.all_eq_true.mp (testMemoryMapping_accepted v)⟩, List.all_eq_true.mp (printPagingInfo_accepted _)⟩,
      log_ofList rfl, hdump⟩, log_ofList rfl, rfl, log_ofList rfl, rfl, log_ofList rfl, rfl,
      log_ofList rfl, log_ofList rfl, say_ofList rfl, ?_⟩
    exact fun c hc => nomatch hc
  have hlower : (lowerHalfCalls v).all KernelCall.accepted = true := by
    have hpanic : ((panicLogs v.registers (chars "Kernel not in higher half")).map KernelCall.debug).all
        KernelCall.accepted = true := by
      rw [List.all_map]
      exact panicLogs_accepted v.registers _
    unfold lowerHalfCalls
    rw [List.all_cons, List.all_cons, hpanic]
    exact congrArg (· && _) (log_ofList rfl)
  have htest : ∀ c ∈ testDebuggingLevels, c.accepted = true := by
    unfold testDebuggingLevels
    simp only [List.forall_mem_cons]
    refine ⟨log_ofList rfl, log_ofList rfl, log_ofList rfl, log_ofList rfl, log_ofList rfl, say_ofList rfl, ?_⟩
    exact fun c hc => nomatch hc
  refine List.all_eq_true.mpr ?_
  unfold kernelMainRest
  simp only [List.forall_mem_append, List.forall_mem_cons]
  refine ⟨log_ofList rfl, log_ofList rfl, htest, say_ofList rfl, ?_⟩
  split
  · exact List.all_eq_true.mp hhigher
  · exact List.all_eq_true.mp hlower

namespace Subsystem

theorem debugInit_isSome (serialOk : Bool) (s : Subsystem) : ∃ s', s.debugInit serialOk = some s' := by
  cases hs : s.initialized with
  | true => exact ⟨s, if_pos hs⟩
  | false =>
      obtain ⟨d, hd⟩ := debugInit_returns serialOk s hs
      exact ⟨_, hd⟩

theorem kernelExec_returns {c : KernelCall} (h : c.accepted = true) (s : Subsystem) :
    ∃ s', s.kernelExec c = some s' := by
  cases c with
  | debugInit serialOk => exact debugInit_isSome serialOk s
  | debug c =>
      obtain ⟨d, hd⟩ := Debug.exec_returns h s.debug
      exact ⟨_, congrArg (Option.map _) hd⟩
  | printfEnableSerial enable => exact ⟨_, rfl⟩
  | putcharEnableSerial enable => exact ⟨_, rfl⟩
  | printf format args =>
      obtain ⟨r, k, hk⟩ := Console.printf_returns h s.debug.console
      exact ⟨_, congrArg (Option.map _) hk⟩
  | debugPrint format args =>
      obtain ⟨text, htext⟩ := Option.isSome_iff_exists.mp
        (vsnprintfLoop_isSome (debugBufferSize - 1) _ _ [] h)
      have hstored : vsnprintf (debugBufferSize - 1) format args = some (text ++ [0#8]) :=
        congrArg (Option.map (· ++ [0#8])) htext
      unfold kernelExec Debug.vprint
      dsimp only
      rw [hstored]
      exact ⟨_, rfl⟩

theorem kernelRun_returns {calls : List KernelCall} (h : calls.all KernelCall.accepted = true)
    (s : Subsystem) : ∃ s', Runs.run kernelExec s calls = some s' := by
  induction calls generalizing s with
  | nil => exact ⟨s, rfl⟩
  | cons c cs ih =>
      obtain ⟨hc, hcs⟩ := Bool.and_eq_true_iff.mp h
      obtain ⟨s₁, h₁⟩ := kernelExec_returns hc s
      obtain ⟨s', h'⟩ := ih hcs s₁
      exact ⟨s', Runs.run_cons_some.mpr ⟨s₁, h₁, h'⟩⟩

/-- No call takes back what is in the trace. -/
theorem kernelExec_extends {s s' : Subsystem} {c : KernelCall} (h : s.kernelExec c = some s') :
    Console.Extends s.debug.console s'.debug.console := by
  cases c with
  | debugInit serialOk =>
      have hinit : s.debugInit serialOk = some s' := h
      unfold debugInit at hinit
      split at hinit
      · exact Option.some.inj hinit ▸ .refl s.debug.console
      · obtain ⟨d, hd, rfl⟩ := Option.map_eq_some_iff.mp hinit
        exact Debug.run_extends (d := { s.debug with level := 3, target := _ }) hd
  | debug c =>
      obtain ⟨d, hd, rfl⟩ := Option.map_eq_some_iff.mp h
      exact Debug.exec_extends hd
  | printfEnableSerial enable => exact Option.some.inj h ▸ .of_trace_eq rfl
  | putcharEnableSerial enable => exact Option.some.inj h ▸ .of_trace_eq rfl
  | printf format args =>
      obtain ⟨r, hr, rfl⟩ := Option.map_eq_some_iff.mp h
      exact Console.printf_extends hr
  | debugPrint format args =>
      obtain ⟨d, hd, rfl⟩ := Option.map_eq_some_iff.mp h
      obtain ⟨stored, -, rfl⟩ := Option.map_eq_some_iff.mp hd
      exact Debug.write_extends _ s.debug

theorem kernelRun_extends {calls : List KernelCall} {s s' : Subsystem}
    (h : Runs.run kernelExec s calls = some s') : Console.Extends s.debug.console s'.debug.console :=
  Runs.run_keeps (I := fun t => Console.Extends s.debug.console t.debug.console)
    (fun _ _ _ ht h => ht.trans (kernelExec_extends h)) (.refl s.debug.console) h

end Subsystem

theorem setUpOutput_accepted (serialOk : Bool) :
    (setUpOutput serialOk).all KernelCall.accepted = true := rfl

/-- Every call of `kernel_main` returns. -/
theorem kernelMain_returns (serialOk : Bool) (v : View) (s : Subsystem) :
    ∃ s', kernelMain serialOk v s = some s' := by
  refine Subsystem.kernelRun_returns ?_ s
  rw [List.all_append, setUpOutput_accepted, kernelMainRest_accepted]
  rfl

theorem kernelMain_extends {serialOk : Bool} {v : View} {s s' : Subsystem}
    (h : kernelMain serialOk v s = some s') : Console.Extends s.debug.console s'.debug.console :=
  Subsystem.kernelRun_extends h

/-- What a kernel at `0xC0101000` might print. -/
def smallView : View where
  kernelMain := 0xC0101000#32
  virtualStart := 0xC0100000#32
  virtualEnd := 0xC010B000#32
  physicalStart := 0x100000#32
  physicalEnd := 0x10B000#32
  initMessages := []
  cr3 := 0x101000#32
  before := ⟨true, 0x101000#32, 0xC0101000#32, 267#32⟩
  allocMessages := [.allocatedFrame 0x10B000#32, .allocatedFrame 0x10C000#32, .allocatedFrame 0x10D000#32]
  page1 := 0x10B000#32
  page2 := 0x10C000#32
  page3 := 0x10D000#32
  mapMessages := [.mapping 0xD0000000#32 0x10B000#32 3#32, .allocatedFrame 0x10E000#32]
  readValue := 0xDEADBEEF#32
  unmapMessages := [.unmapping 0xD0000000#32]
  freeMessages := [.freeingFrame 0x10B000#32, .freeingFrame 0x10C000#32, .freeingFrame 0x10D000#32]
  after := ⟨true, 0x101000#32, 0xC0101000#32, 268#32⟩
  dumpLines := []
  registers := zeroRegisters

end RedOS
