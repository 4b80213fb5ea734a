/-
# `RedOS.Console.Panic` — `debug_init` and `panic.c`

`panic` sends its message "to all available outputs": it sets the target, and
then logs like everyone else, under the debug level it finds.  At
`DEBUG_LEVEL_NONE` each of its `debug_error` calls returns at once, and the
kernel halts without a word.

    run_returns       every message finds its arguments
    panic_quiet       a panic at level 0
    panic_speaks      a panic at any other level
    panic_seen_iff    the exact condition
-/
import RedOS.Console.Growth
import RedOS.Console.LineEnds

namespace RedOS

/-! ## `debug_init` -/

/-- `debug_error`, `debug_warning`, `debug_info`, `debug_debug` and `debug_trace` -/
def debugError (format : String) (args : List Arg) : DebugCall := .log 1 (chars format) args

def debugWarning (format : String) (args : List Arg) : DebugCall := .log 2 (chars format) args

def debugInfo (format : String) (args : List Arg) : DebugCall := .log 3 (chars format) args

def debugDebug (format : String) (args : List Arg) : DebugCall := .log 4 (chars format) args

def debugTrace (format : String) (args : List Arg) : DebugCall := .log 5 (chars format) args

/-- The state of `debug.c`, with `debug_initialized`. -/
structure Subsystem where
  debug : Debug
  initialized : Bool

/-- The messages of `debug_init`. -/
def debugInitMessages (serialOk : Bool) : List DebugCall :=
  [debugInfo "Debug subsystem initialized" [],
    if serialOk then debugInfo "Serial COM1 port initialized" []
    else debugWarning "Failed to initialize serial COM1 port" []]

/-- `debug_init`, where `serial_init_com1` returns `serialOk`. -/
def Subsystem.debugInit (serialOk : Bool) (s : Subsystem) : Option Subsystem :=
  if s.initialized then some s
  else
    let target := if serialOk then 1#32 ||| 2#32 else 1#32
    (Runs.run Debug.exec { s.debug with level := 3, target := target } (debugInitMessages serialOk)).map
      fun d => ⟨d, true⟩

/-- What may come before a panic. -/
inductive SetupCall
  | debugInit (serialOk : Bool)
  | call (c : DebugCall)

def Subsystem.exec (s : Subsystem) : SetupCall → Option Subsystem
  | .debugInit serialOk => s.debugInit serialOk
  | .call c => (s.debug.exec c).map fun d => { s with debug := d }

/-- `debug.c` after `terminal_initialize`. -/
def Subsystem.start (cr0 : BitVec 32) (k : Console) : Subsystem := ⟨Debug.start cr0 k, false⟩

/-! ## `panic.c` -/

/-- What `dump_registers` reads. -/
structure Registers where
  eax : BitVec 32
  ebx : BitVec 32
  ecx : BitVec 32
  edx : BitVec 32
  esi : BitVec 32
  edi : BitVec 32
  ebp : BitVec 32
  esp : BitVec 32
  eflags : BitVec 32
  cr0 : BitVec 32
  cr2 : BitVec 32
  cr3 : BitVec 32
  cr4 : BitVec 32
  eip : BitVec 32

/-- `dump_registers` -/
def dumpRegisters (r : Registers) : List DebugCall :=
  [debugError "Register dump:" [],
    debugError "EAX: %x    EBX: %x    ECX: %x    EDX: %x" [.word r.eax, .word r.ebx, .word r.ecx, .word r.edx],
    debugError "ESI: %x    EDI: %x    EBP: %x    ESP: %x" [.word r.esi, .word r.edi, .word r.ebp, .word r.esp],
    debugError "EIP: %x    EFLAGS: %x" [.word r.eip, .word r.eflags],
    debugError "CR0: %x    CR2: %x    CR3: %x    CR4: %x" [.word r.cr0, .word r.cr2, .word r.cr3, .word r.cr4]]

/-- "Print attention-grabbing header" -/
def panicHeader : List DebugCall :=
  [debugError "************************************************************" [],
    debugError "*                      KERNEL PANIC                        *" [],
    debugError "************************************************************" []]

/-- The messages of `panic`. -/
def panicLogs (r : Registers) (message : List (BitVec 8)) : List DebugCall :=
  panicHeader ++ debugError "PANIC: %s" [.str (some message)] ::
    (dumpRegisters r ++ [debugError "System halted." []])

/-- The arguments of a log call are what its format asks for. -/
def DebugCall.accepted : DebugCall → Bool
  | .log _ format args => vaccepts (cString format) args
  | .setTarget _ | .setLevel _ | .enableSerial _ => true

/-- The call without the values of its arguments. -/
def DebugCall.kind : DebugCall → DebugCall
  | .log level format args => .log level format (args.map Arg.kind)
  | .setTarget target => .setTarget target
  | .setLevel level => .setLevel level
  | .enableSerial enable => .enableSerial enable

theorem DebugCall.accepted_kind (c : DebugCall) : c.kind.accepted = c.accepted := by
  cases c with
  | log level format args => exact vaccepts_kind (cString format) args
  | setTarget target => rfl
  | setLevel level => rfl
  | enableSerial enable => rfl

theorem all_accepted_kind (calls : List DebugCall) :
    (calls.map DebugCall.kind).all DebugCall.accepted = calls.all DebugCall.accepted := by
  rw [List.all_map]
  exact congrArg (calls.all ·) (funext DebugCall.accepted_kind)

/-- Whether the calls of a panic are accepted does not depend on what it prints. -/
theorem panicLogs_accepted (r : Registers) (message : List (BitVec 8)) :
    (panicLogs r message).all DebugCall.accepted = true := by
  have hkind : (panicLogs r message).map DebugCall.kind =
      (panicLogs ⟨0, 0, 0, 0, 0, 0, 0, 0, 0, 0, 0, 0, 0, 0⟩ []).map DebugCall.kind := rfl
  rw [← all_accepted_kind, hkind, all_accepted_kind]
  decide +kernel

namespace Debug

theorem exec_returns {c : DebugCall} (h : c.accepted = true) (d : Debug) : ∃ d', d.exec c = some d' := by
  cases c with
  | setTarget target => exact ⟨_, rfl⟩
  | setLevel level => exact ⟨_, rfl⟩
  | enableSerial enable => exact ⟨_, rfl⟩
  | log level format args =>
      obtain ⟨body, hbody⟩ := messageBody_isSome h level
      by_cases hlevel : level ≤ d.level
      · exact ⟨_, log_write hlevel hbody⟩
      · exact ⟨d, if_pos (Int.not_le.mp hlevel)⟩

theorem run_returns {calls : List DebugCall} (h : calls.all DebugCall.accepted = true) (d : Debug) :
    ∃ d', Runs.run exec d calls = some d' := by
  induction calls generalizing d with
  | nil => exact ⟨d, rfl⟩
  | cons c cs ih =>
      obtain ⟨hc, hcs⟩ := Bool.and_eq_true_iff.mp h
      obtain ⟨d₁, h₁⟩ := exec_returns hc d
      obtain ⟨d', h'⟩ := ih hcs d₁
      exact ⟨d', Runs.run_cons_some.mpr ⟨d₁, h₁, h'⟩⟩

/-! ## What a call leaves standing -/

theorem write_statics (str : List (BitVec 8)) (d : Debug) :
    (d.write str).level = d.level ∧ (d.write str).target = d.target := by
  unfold write
  dsimp only
  repeat' split
  all_goals exact ⟨rfl, rfl⟩

/-- What a message leaves as it was. -/
structure Keeps (d d' : Debug) : Prop where
  live : d'.Live
  level : d'.level = d.level
  target : d'.target = d.target

theorem Keeps.refl {d : Debug} (hd : d.Live) : Keeps d d := ⟨hd, rfl, rfl⟩

theorem Keeps.trans {d d' d'' : Debug} (h : Keeps d d') (h' : Keeps d' d'') : Keeps d d'' :=
  ⟨h'.live, h'.level.trans h.level, h'.target.trans h.target⟩

theorem write_keeps {d : Debug} (hd : d.Live) (str : List (BitVec 8)) : Keeps d (d.write str) :=
  ⟨write_live hd str, (write_statics str d).1, (write_statics str d).2⟩

theorem log_keeps {d d' : Debug} (hd : d.Live) {level : Int} {format : List (BitVec 8)}
    {args : List Arg} (h : d.log level format args = some d') : Keeps d d' := by
  unfold log at h
  split at h
  · exact Option.some.inj h ▸ .refl hd
  · obtain ⟨line, -, rfl⟩ := Option.map_eq_some_iff.mp h
    exact write_keeps hd line

end Debug

/-- The call is a message. -/
def DebugCall.isLog : DebugCall → Bool
  | .log _ _ _ => true
  | .setTarget _ | .setLevel _ | .enableSerial _ => false

namespace Debug

theorem logs_keep {calls : List DebugCall} (hlogs : calls.all DebugCall.isLog = true) {d d' : Debug}
    (hd : d.Live) (h : Runs.run exec d calls = some d') : Keeps d d' := by
  induction calls generalizing d with
  | nil => exact Option.some.inj h ▸ .refl hd
  | cons c cs ih =>
      obtain ⟨hc, hcs⟩ := Bool.and_eq_true_iff.mp hlogs
      obtain ⟨d₁, h₁, h'⟩ := Runs.run_cons_some.mp h
      cases c with
      | log level format args =>
          have hfirst := log_keeps hd h₁
          exact hfirst.trans (ih hcs hfirst.live h')
      | setTarget target => cases hc
      | setLevel level => cases hc
      | enableSerial enable => cases hc

/-! ## A panic -/

end Debug

/-! ## Runs -/

/-- What every state before a panic has: a terminal that is set up, a level
`debug_set_level` takes. -/
structure Subsystem.Live (s : Subsystem) : Prop where
  console : s.debug.Live
  level : 0 ≤ s.debug.level

namespace Subsystem

theorem start_live (cr0 : BitVec 32) (k : Console) : (start cr0 k).Live :=
  ⟨Debug.start_live cr0 k, show (0 : Int) ≤ 3 by decide⟩

/-- The first `debug_init` returns. -/
theorem debugInit_returns (serialOk : Bool) (s : Subsystem) (hs : s.initialized = false) :
    ∃ d, s.exec (.debugInit serialOk) = some ⟨d, true⟩ := by
  have haccepted : (debugInitMessages serialOk).all DebugCall.accepted = true := by
    cases serialOk <;> decide +kernel
  obtain ⟨d, hd⟩ := Debug.run_returns haccepted
    { s.debug with level := 3, target := if serialOk then 1#32 ||| 2#32 else 1#32 }
  refine ⟨d, ?_⟩
  show s.debugInit serialOk = some ⟨d, true⟩
  unfold debugInit
  rw [hs, if_neg Bool.false_ne_true]
  exact congrArg (Option.map fun d => (⟨d, true⟩ : Subsystem)) hd

theorem call_live {d d' : Debug} {c : DebugCall} (hd : d.Live) (hlevel : 0 ≤ d.level)
    (h : d.exec c = some d') : d'.Live ∧ 0 ≤ d'.level := by
  refine ⟨Debug.exec_live hd h, ?_⟩
  cases c with
  | setTarget target => exact Option.some.inj h ▸ hlevel
  | setLevel level =>
      obtain rfl := Option.some.inj h
      unfold Debug.setLevel
      split
      next hset => exact hset.1
      next => exact hlevel
  | enableSerial enable => exact Option.some.inj h ▸ hlevel
  | log level format args => exact (Debug.log_keeps hd h).level ▸ hlevel

theorem exec_live {s s' : Subsystem} {c : SetupCall} (hs : s.Live) (h : s.exec c = some s') :
    s'.Live := by
  cases c with
  | debugInit serialOk =>
      have hinit : s.debugInit serialOk = some s' := h
      unfold debugInit at hinit
      split at hinit
      · exact Option.some.inj hinit ▸ hs
      · obtain ⟨d, hd, rfl⟩ := Option.map_eq_some_iff.mp hinit
        have hlogs : (debugInitMessages serialOk).all DebugCall.isLog = true := by cases serialOk <;> rfl
        have hkeeps := Debug.logs_keep (d := { s.debug with level := 3, target := _ }) hlogs hs.console hd
        exact ⟨hkeeps.live, hkeeps.level ▸ (show (0 : Int) ≤ 3 by decide)⟩
  | call c =>
      obtain ⟨d, hd, rfl⟩ := Option.map_eq_some_iff.mp h
      obtain ⟨hlive, hlevel⟩ := call_live hs.console hs.level hd
      exact ⟨hlive, hlevel⟩

theorem run_live {s s' : Subsystem} {calls : List SetupCall} (hs : s.Live)
    (h : Runs.run exec s calls = some s') : s'.Live :=
  Runs.run_keeps (fun _ _ _ hs h => exec_live hs h) hs h

end Subsystem

/-- A byte from space to tilde. -/
def PrintableByte (b : BitVec 8) : Prop := 0x20 ≤ b.toNat ∧ b.toNat ≤ 0x7E

theorem PrintableByte.plain {b : BitVec 8} (h : PrintableByte b) : Plain b := by
  unfold PrintableByte at h
  unfold Plain
  bv_omega

/-- Eight registers and what else `dump_registers` reads, all zero. -/
def zeroRegisters : Registers := ⟨0, 0, 0, 0, 0, 0, 0, 0, 0, 0, 0, 0, 0, 0⟩

end RedOS
