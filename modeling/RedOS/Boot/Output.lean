/-
# `RedOS.Boot.Output` — what the console code is for

A `Transcript` has no memory and no buffers: a sheet that is written on, the bytes
sent to the other end of COM1, and the switches that say which text goes where.
Each call of the console code is a change of it, and the console code refines it:
after any calls the screen is the end of the sheet and COM1 has got the bytes.

| | |
| :-- | :-- |
| `exec_realizes` | one call, from related states to related states |
| `console_output` | any run of calls after `terminal_initialize` |
| `Transcript.run_later` | what was sent before has no influence |
| `kernelMain_independent` | so `kernel_main` shows and sends the same over any memory |
-/
import RedOS.Boot.KernelMain
import RedOS.Lib.Dispatch

namespace RedOS

open ByteMemory ScrollPage Dispatch

/-! ## The calls -/

/-- `puts` -/
def Console.puts (str : List (BitVec 8)) (k : Console) : Option (Int × Console) :=
  k.printf (chars "%s\n") [.str (some str)]

/-- A call from outside of `tty.h`, `stdio.h` or `debug.h`. -/
inductive ConsoleCall
  | terminalInitialize (cr0 : BitVec 32)
  /-- `terminal_putchar`, `terminal_write`, `terminal_setcolor` -/
  | terminal (i : Input)
  | terminalWritestring (str : List (BitVec 8))
  | putchar (ic : BitVec 32)
  | puts (str : List (BitVec 8))
  /-- the calls `kernel_main` makes -/
  | kernel (c : KernelCall)

namespace Subsystem

def consoleExec (s : Subsystem) : ConsoleCall → Option Subsystem
  | .terminalInitialize cr0 => some (s.onConsole fun k => k.terminalInitialize cr0)
  | .terminal i => some (s.onConsole fun k => k.feed i)
  | .terminalWritestring str => some (s.onConsole fun k => k.terminalWritestring str)
  | .putchar ic => some (s.onConsole fun k => k.putchar (ic.setWidth 8))
  | .puts str => (s.debug.console.puts str).map fun r => s.onConsole fun _ => r.2
  | .kernel c => s.kernelExec c

end Subsystem

/-! ## The transcript -/

structure Transcript where
  sheet : Sheet
  /-- the bytes sent to COM1 -/
  sent : List (BitVec 8)
  terminalSerial : Bool
  putcharSerial : Bool
  printfSerial : Bool
  level : Int
  target : BitVec 32
  initialized : Bool

namespace Transcript

/-- A text for the terminal. -/
def write (text : List (BitVec 8)) (o : Transcript) : Transcript :=
  { o with
    sheet := o.sheet.write text
    sent := o.sent ++ if o.terminalSerial then text.flatMap serialForm else [] }

/-- What a byte becomes on COM1 that has passed `putchar`, and `print` as well if
`printed`. -/
def copies (printed : Bool) (o : Transcript) (b : BitVec 8) : List (BitVec 8) :=
  if o.terminalSerial then serialForm b
  else (if o.putcharSerial then serialForm b else []) ++
    if printed && o.printfSerial then serialForm b else []

def put (printed : Bool) (text : List (BitVec 8)) (o : Transcript) : Transcript :=
  { o with sheet := o.sheet.write text, sent := o.sent ++ text.flatMap (o.copies printed) }

def printf (format : List (BitVec 8)) (args : List Arg) (o : Transcript) : Option Transcript :=
  (printfOut ((cString format).length + 1) (cString format) args 0).map fun r => o.put true r.2

/-- A text for the targets of `debug.c`. -/
def debugWrite (text : List (BitVec 8)) (o : Transcript) : Transcript :=
  { o with
    sheet := if o.target &&& 1#32 != 0#32 then o.sheet.write text else o.sheet
    sent := o.sent ++
      ((if o.target &&& 1#32 != 0#32 && o.terminalSerial then text.flatMap serialForm else []) ++
        if o.target &&& 2#32 != 0#32 && !o.terminalSerial then text else []) }

def debugExec (o : Transcript) : DebugCall → Option Transcript
  | .setTarget target => some { o with target := target }
  | .setLevel level => some (if 0 ≤ level ∧ level ≤ 5 then { o with level := level } else o)
  | .enableSerial enable => some { o with terminalSerial := enable }
  | .log level format args =>
      if o.level < level then some o
      else (messageBody level format args).map fun body =>
        o.debugWrite (cString (levelPrefix level ++ body ++ [13#8, 10#8, 0#8]))

theorem debugExec_initialized {o o' : Transcript} {c : DebugCall} (h : o.debugExec c = some o') :
    o'.initialized = o.initialized := by
  cases c with
  | setTarget target => exact Option.some.inj h ▸ rfl
  | setLevel level =>
      obtain rfl := Option.some.inj h
      split
      · rfl
      · rfl
  | enableSerial enable => exact Option.some.inj h ▸ rfl
  | log level format args =>
      unfold debugExec at h
      dsimp only at h
      split at h
      · exact Option.some.inj h ▸ rfl
      · obtain ⟨body, -, rfl⟩ := Option.map_eq_some_iff.mp h
        rfl

def debugInit (serialOk : Bool) (o : Transcript) : Option Transcript :=
  if o.initialized then some o
  else
    let target := if serialOk then 1#32 ||| 2#32 else 1#32
    (Runs.run debugExec { o with level := 3, target := target } (debugInitMessages serialOk)).map
      fun o => { o with initialized := true }

/-- The text of `debug_print`, which has no prefix and no line end. -/
def rawBody (format : List (BitVec 8)) (args : List Arg) : Option (List (BitVec 8)) :=
  vsnprintfLoop (debugBufferSize - 1) (cString format) args []

def kernelExec (o : Transcript) : KernelCall → Option Transcript
  | .debugInit serialOk => o.debugInit serialOk
  | .debug c => o.debugExec c
  | .printfEnableSerial enable => some { o with printfSerial := enable }
  | .putcharEnableSerial enable => some { o with putcharSerial := enable }
  | .printf format args => o.printf format args
  | .debugPrint format args => (rawBody format args).map fun body => o.debugWrite (cString (body ++ [0#8]))

def exec (o : Transcript) : ConsoleCall → Option Transcript
  | .terminalInitialize cr0 => some { o.write (Console.initText cr0) with sheet := Sheet.initialized cr0 }
  | .terminal (.putchar c) => some (o.write [c])
  | .terminal (.write data) => some (o.write data)
  | .terminal (.setcolor color) => some { o with sheet := o.sheet.setcolor color }
  | .terminalWritestring str => some (o.write (cString str))
  | .putchar ic => some (o.put false [ic.setWidth 8])
  | .puts str => o.printf (chars "%s\n") [.str (some str)]
  | .kernel c => o.kernelExec c

end Transcript

/-! ## The console shows it -/

/-- The screen is the end of the sheet, COM1 has got the bytes, and the flags are
the switches. -/
structure Console.Realizes (k : Console) (o : Transcript) : Prop where
  fits : BufferFits k.buffer
  tail : Tail k o.sheet
  sent : k.sent = o.sent
  terminalSerial : k.terminalSerial = o.terminalSerial
  putcharSerial : k.putcharSerial = o.putcharSerial
  printfSerial : k.printfSerial = o.printfSerial

namespace Console.Realizes

variable {k k' : Console} {o : Transcript}

/-- A step that sends bytes and goes on with the sheet. -/
theorem step {out : List (BitVec 8)} {sheet : Sheet} (h : k.Realizes o) (hs : Sends k k' out)
    (hbuffer : k'.buffer = k.buffer) (ht : Tail k' sheet) :
    k'.Realizes { o with sheet := sheet, sent := o.sent ++ out } where
  fits := hbuffer ▸ h.fits
  tail := ht
  sent := by rw [hs.sent, h.sent]
  terminalSerial := hs.terminal.trans h.terminalSerial
  putcharSerial := hs.putchar.trans h.putcharSerial
  printfSerial := hs.printf.trans h.printfSerial

/-- What is not on the outside may change. -/
theorem same {o' : Transcript} (h : k.Realizes o) (hsheet : o'.sheet = o.sheet) (hsent : o'.sent = o.sent)
    (hflags : (o'.terminalSerial, o'.putcharSerial) = (o.terminalSerial, o.putcharSerial))
    (hprintf : o'.printfSerial = o.printfSerial) : k.Realizes o' where
  fits := h.fits
  tail := hsheet ▸ h.tail
  sent := h.sent.trans hsent.symm
  terminalSerial := h.terminalSerial.trans (congrArg Prod.fst hflags).symm
  putcharSerial := h.putcharSerial.trans (congrArg Prod.snd hflags).symm
  printfSerial := h.printfSerial.trans hprintf.symm

theorem terminalWrite (h : k.Realizes o) (text : List (BitVec 8)) :
    (k.terminalWrite text).Realizes (o.write text) := by
  have hs := terminalWrite_sends text k
  rw [h.terminalSerial] at hs
  exact h.step hs (terminalWrite_spec (h.tail.ready h.fits) text).1.buffer
    (h.tail.write h.fits text)

end Console.Realizes

/-- Bytes sent to COM1 are not seen on the screen. -/
theorem Tail.crlf {k : Console} {s : Sheet} (h : Tail k s) (b : BitVec 8) (on : Bool) :
    Tail (if on then (if b = 10#8 then k.serialCom1WriteByte 13#8 else k).serialCom1WriteByte b
      else k) s := by
  cases on with
  | false => exact h
  | true =>
      rw [if_pos rfl]
      split
      · exact ⟨h.shows, h.color⟩
      · exact ⟨h.shows, h.color⟩

theorem Tail.printByte {k : Console} {s : Sheet} (hb : Console.BufferFits k.buffer) (h : Tail k s)
    (b : BitVec 8) : Tail (k.printByte b) (s.putchar b) := by
  unfold Console.printByte Console.putchar
  exact ((h.putchar hb b).crlf b _).crlf b _

theorem Tail.print {k : Console} {s : Sheet} (hb : Console.BufferFits k.buffer) (h : Tail k s)
    (text : List (BitVec 8)) : Tail (k.print text) (s.write text) := by
  induction text generalizing k s with
  | nil => exact h
  | cons b bs ih =>
      have hbuf := (Console.printByte_spec (h.ready hb) b).1.buffer
      exact ih (hbuf ▸ hb) (h.printByte hb b)

namespace Console

/-- A byte through `putchar` alone. -/
theorem putchar_sends (b : BitVec 8) (k : Console) : Sends k (k.putchar b)
    (if k.terminalSerial then serialForm b else if k.putcharSerial then serialForm b else []) := by
  have hterm := terminalPutchar_sends b k
  have hall : Sends k (k.putchar b) _ := hterm.trans (crlf_sends b
    ((k.terminalPutchar b).putcharSerial && !(k.terminalPutchar b).terminalSerial) _)
  rw [hterm.terminal, hterm.putchar] at hall
  cases hon : k.terminalSerial with
  | true =>
      rw [hon, Bool.not_true, Bool.and_false] at hall
      exact List.append_nil (serialForm b) ▸ hall
  | false =>
      rw [hon, Bool.not_false, Bool.and_true] at hall
      exact hall

theorem storeCell_sends (index : Nat) (entry : BitVec 16) (k : Console) :
    Sends k (k.storeCell index entry) [] := by
  refine .nothing ?_ rfl rfl rfl
  unfold sent storeCell
  rw [List.filterMap_append]
  exact List.append_nil _

/-- Clearing the screen sends nothing. -/
theorem cleared_sends (cr0 : BitVec 32) (k : Console) :
    Sends k ((k.reset cr0).clearRows vgaHeight) [] := by
  have hrow : ∀ (y n : Nat) (k : Console), Sends k (k.clearRow y n) [] := by
    intro y n k
    induction n with
    | zero => exact .refl k
    | succ n ih =>
        rw [clearRow_succ]
        exact ih.trans (storeCell_sends _ _ _)
  have hrows : ∀ (n : Nat) (k : Console), Sends k (k.clearRows n) [] := by
    intro n k
    induction n with
    | zero => exact .refl k
    | succ n ih =>
        rw [clearRows_succ]
        exact ih.trans (hrow n vgaWidth _)
  have hreset : Sends k (k.reset cr0) [] := .nothing rfl rfl rfl rfl
  exact hreset.trans (hrows vgaHeight _)

/-- `terminal_initialize` starts a sheet, whatever was there before. -/
theorem terminalInitialize_realizes (cr0 : BitVec 32) {k : Console} {o : Transcript} (hsent : k.sent = o.sent)
    (hterminal : k.terminalSerial = o.terminalSerial) (hputchar : k.putcharSerial = o.putcharSerial)
    (hprintf : k.printfSerial = o.printfSerial) :
    (k.terminalInitialize cr0).Realizes
      { o.write (initText cr0) with sheet := Sheet.initialized cr0 } := by
  obtain ⟨hbuffer, -⟩ := initialize_emits cr0 k
  have hcleared := cleared_sends cr0 k
  have hwrite := hcleared.trans (terminalWrite_sends (initText cr0) _)
  rw [hcleared.terminal, ← terminalInitialize_eq, hterminal, List.nil_append] at hwrite
  have hfits : BufferFits (k.terminalInitialize cr0).buffer := by
    rw [hbuffer]
    exact bufferFits_getVgaBuffer cr0
  have htail := Tail.initialized cr0 k
  generalize k.terminalInitialize cr0 = k' at *
  generalize Sheet.initialized cr0 = sheet at *
  generalize initText cr0 = text at *
  exact ⟨hfits, htail, hwrite.sent.trans (congrArg (· ++ _) hsent), hwrite.terminal.trans hterminal,
    hwrite.putchar.trans hputchar, hwrite.printf.trans hprintf⟩

namespace Realizes

variable {k : Console} {o : Transcript}

theorem putchar (h : k.Realizes o) (b : BitVec 8) : (k.putchar b).Realizes (o.put false [b]) := by
  have hs := putchar_sends b k
  have hcopies : (if k.terminalSerial then serialForm b
      else if k.putcharSerial then serialForm b else []) = [b].flatMap (o.copies false) := by
    rw [List.flatMap_singleton, h.terminalSerial, h.putcharSerial]
    unfold Transcript.copies
    rw [Bool.false_and, if_neg Bool.false_ne_true, List.append_nil]
  rw [hcopies] at hs
  obtain ⟨hterm, hready⟩ := terminalPutchar_spec (h.tail.ready h.fits) b
  have hcrlf := (crlf_spec hready b
    ((k.terminalPutchar b).putcharSerial && !(k.terminalPutchar b).terminalSerial)).1
  exact h.step hs (hcrlf.buffer.trans hterm.buffer) ((h.tail.putchar h.fits b).crlf b _)

theorem print (h : k.Realizes o) (text : List (BitVec 8)) : (k.print text).Realizes (o.put true text) := by
  have hs := print_sends text k
  have hcopies : k.mirrored = o.copies true := by
    funext b
    unfold mirrored Transcript.copies
    rw [h.terminalSerial, h.putcharSerial, h.printfSerial, Bool.true_and]
  rw [hcopies] at hs
  exact h.step hs (print_spec (h.tail.ready h.fits) text).1.buffer (h.tail.print h.fits text)

/-- What only adds to the trace that is not for COM1. -/
theorem emit {e : Event} (h : k.Realizes o) (he : e.com1? = none) : (k.emit e).Realizes o :=
  ⟨h.fits, ⟨h.tail.shows, h.tail.color⟩, by
    have hsent := (emit_sends he k).sent
    rw [List.append_nil] at hsent
    exact hsent.trans h.sent, h.terminalSerial, h.putcharSerial, h.printfSerial⟩

theorem printf (h : k.Realizes o) (format : List (BitVec 8)) (args : List Arg) :
    Option.Rel Realizes ((k.printf format args).map Prod.snd) (o.printf format args) := by
  rw [printf_eq]
  unfold Transcript.printf
  cases printfOut ((cString format).length + 1) (cString format) args 0 with
  | none => exact .none
  | some r =>
      have hcall : (k.emit (.printf (cString format) args)).Realizes o := h.emit rfl
      have hret : (((k.emit (.printf (cString format) args)).print r.2).emit .ret).Realizes
          (o.put true r.2) := (hcall.print r.2).emit rfl
      exact .some hret

end Realizes

end Console

/-- The same of the statics of `debug.c`. -/
structure Debug.Realizes (d : Debug) (o : Transcript) : Prop where
  console : d.console.Realizes o
  level : d.level = o.level
  target : d.target = o.target

structure Subsystem.Realizes (s : Subsystem) (o : Transcript) : Prop where
  debug : s.debug.Realizes o
  initialized : s.initialized = o.initialized

namespace Debug

theorem write_console (str : List (BitVec 8)) (d : Debug) :
    ∃ k, k = (if d.toVga then d.console.terminalWritestring str else d.console) ∧
      (d.write str).console =
        if d.toSerial && !k.terminalSerial then k.serialCom1WriteString str else k := by
  refine ⟨_, rfl, ?_⟩
  unfold write
  cases hvga : d.toVga with
  | true =>
      dsimp only
      rw [if_pos rfl, if_pos rfl]
      split
      next hdirect => exact (if_pos hdirect).symm
      next hdirect => exact (if_neg hdirect).symm
  | false =>
      dsimp only
      rw [if_neg Bool.false_ne_true, if_neg Bool.false_ne_true]
      split
      · rfl
      · rfl

/-- `debug_write`, by what it does to the console. -/
theorem write_shows {d : Debug} {o : Transcript} (h : d.console.Realizes o) (htarget : d.target = o.target)
    (str : List (BitVec 8)) : (d.write str).console.Realizes (o.debugWrite (cString str)) := by
  have hs := write_sends str d
  unfold mirroredPart directPart toVga toSerial at hs
  rw [h.terminalSerial, htarget] at hs
  have hready := h.tail.ready h.fits
  have hserial : ∀ {k : Console} {s : Sheet}, Tail k s →
      Tail (k.serialCom1WriteString str) s ∧ (k.serialCom1WriteString str).buffer = k.buffer := by
    intro k s ht
    unfold Console.serialCom1WriteString
    rw [Console.serialWrite_eq]
    exact ⟨⟨ht.shows, ht.color⟩, rfl⟩
  obtain ⟨k, hk, hconsole⟩ := write_console str d
  have hdrawn : Tail k (if o.target &&& 1#32 != 0#32 then o.sheet.write (cString str) else o.sheet) ∧
      k.buffer = d.console.buffer := by
    rw [hk]
    unfold toVga
    rw [htarget]
    split
    · exact ⟨h.tail.write h.fits (cString str), (Console.terminalWrite_spec hready (cString str)).1.buffer⟩
    · exact ⟨h.tail, rfl⟩
  obtain ⟨htail, hbuffer⟩ := hdrawn
  rw [hconsole] at hs ⊢
  refine h.step hs ?_ ?_
  · split
    · exact (hserial htail).2.trans hbuffer
    · exact hbuffer
  · split
    · exact (hserial htail).1
    · exact htail

theorem write_realizes {d : Debug} {o : Transcript} (h : d.Realizes o) (str : List (BitVec 8)) :
    (d.write str).Realizes (o.debugWrite (cString str)) := by
  obtain ⟨hlevel, htarget⟩ := write_statics str d
  exact ⟨write_shows h.console h.target str, hlevel.trans h.level, htarget.trans h.target⟩

/-- The arguments are not what the format asks for. -/
theorem debugLine_none {level : Int} {format : List (BitVec 8)} {args : List Arg}
    (h : messageBody level format args = none) : debugLine level format args = none := by
  have hpre := levelPrefix_length level
  have hsize : ¬ debugBufferSize - (levelPrefix level).length - 2 = 0 ∧
      ¬ debugBufferSize - (levelPrefix level).length - 2 = 1 := by
    unfold debugBufferSize
    omega
  have hstored : vsnprintf (debugBufferSize - (levelPrefix level).length - 2) format args = none := by
    unfold vsnprintf
    rw [if_neg hsize.1, if_neg hsize.2]
    exact congrArg (Option.map (· ++ [0#8])) h
  unfold debugLine
  dsimp only
  rw [hstored]
  rfl

theorem log_realizes {d : Debug} {o : Transcript} (h : d.Realizes o) (level : Int)
    (format : List (BitVec 8)) (args : List Arg) :
    Option.Rel Realizes (d.log level format args) (o.debugExec (.log level format args)) := by
  unfold log Transcript.debugExec
  dsimp only
  rw [h.level]
  by_cases hlevel : o.level < level
  · rw [if_pos hlevel, if_pos hlevel]
    exact .some h
  · rw [if_neg hlevel, if_neg hlevel]
    cases hbody : messageBody level format args with
    | none =>
        have hnone : debugLine level format args = none := debugLine_none hbody
        rw [hnone]
        exact .none
    | some body =>
        rw [debugLine_eq hbody]
        exact .some (write_realizes h _)

theorem exec_realizes {d : Debug} {o : Transcript} (h : d.Realizes o) (c : DebugCall) :
    Option.Rel Realizes (d.exec c) (o.debugExec c) := by
  cases c with
  | setTarget target => exact .some ⟨h.console.same rfl rfl rfl rfl, h.level, rfl⟩
  | setLevel level =>
      refine .some ?_
      unfold setLevel
      split
      · exact ⟨h.console.same rfl rfl rfl rfl, rfl, h.target⟩
      · exact h
  | enableSerial enable =>
      refine .some ⟨⟨h.console.fits, ⟨h.console.tail.shows, h.console.tail.color⟩, h.console.sent, rfl,
        h.console.putcharSerial, h.console.printfSerial⟩, h.level, h.target⟩
  | log level format args => exact log_realizes h level format args

end Debug

namespace Subsystem

variable {s : Subsystem} {o : Transcript}

theorem debugInit_realizes (h : s.Realizes o) (serialOk : Bool) :
    Option.Rel Realizes (s.debugInit serialOk) (o.debugInit serialOk) := by
  unfold debugInit Transcript.debugInit
  rw [h.initialized]
  by_cases hinit : o.initialized = true
  · rw [if_pos hinit, if_pos hinit]
    exact .some h
  · rw [if_neg hinit, if_neg hinit]
    dsimp only
    generalize (if serialOk then 1#32 ||| 2#32 else 1#32) = target
    have hstart : Debug.Realizes { s.debug with level := 3, target := target }
        { o with level := 3, target := target } :=
      ⟨h.debug.console.same rfl rfl rfl rfl, rfl, rfl⟩
    have hrun := Runs.run_rel (fun d o c hd => Debug.exec_realizes hd c)
      (debugInitMessages serialOk) hstart
    exact rel_map (fun (d : Debug) (o : Transcript) (hd : d.Realizes o) => ⟨⟨hd.console.same rfl rfl rfl rfl, hd.level, hd.target⟩, rfl⟩) hrun

/-- `debug_vprint` writes its text. -/
theorem vprint_eq (format : List (BitVec 8)) (args : List Arg) (d : Debug) :
    d.vprint format args = (Transcript.rawBody format args).map fun body => d.write (body ++ [0#8]) := by
  have hsize : ¬ debugBufferSize - 1 = 0 ∧ ¬ debugBufferSize - 1 = 1 := by decide
  unfold Debug.vprint vsnprintf Transcript.rawBody
  rw [if_neg hsize.1, if_neg hsize.2]
  cases hbody : vsnprintfLoop (debugBufferSize - 1) (cString format) args [] with
  | none => rfl
  | some body =>
      have hlen := vsnprintfLoop_length _ _ _ _ _ (Nat.zero_le _) hbody
      have hcount : min (vsnprintfCount (body ++ [0#8])) (debugBufferSize - 1) = body.length := by
        unfold vsnprintfCount
        rw [List.length_append, List.length_singleton]
        omega
      show some (d.write (List.take _ _ ++ [0#8])) = some (d.write (body ++ [0#8]))
      rw [hcount, List.take_left']
      rfl

/-- A call of `debug.h` does not touch `debug_initialized`. -/
theorem debug_realizes (h : s.Realizes o) (c : DebugCall) :
    Option.Rel Realizes ((s.debug.exec c).map fun d => { s with debug := d }) (o.debugExec c) := by
  rcases rel_answers (Debug.exec_realizes h.debug c) with ⟨hs, ho⟩ | ⟨d, o', hs, ho, hd⟩
  · rw [hs, ho]
    exact .none
  · rw [hs, ho]
    exact .some ⟨hd, h.initialized.trans (Transcript.debugExec_initialized ho).symm⟩

/-- Something done to the console alone. -/
theorem onConsole_realizes (h : s.Realizes o) {f : Console → Console} {o' : Transcript}
    (hk : (f s.debug.console).Realizes o')
    (hstatics : (o'.level, o'.target, o'.initialized) = (o.level, o.target, o.initialized)) :
    (s.onConsole f).Realizes o' :=
  ⟨⟨hk, h.debug.level.trans (congrArg Prod.fst hstatics).symm,
    h.debug.target.trans (congrArg (·.2.1) hstatics).symm⟩,
    h.initialized.trans (congrArg (·.2.2) hstatics).symm⟩

theorem printf_realizes (h : s.Realizes o) (format : List (BitVec 8)) (args : List Arg) :
    Option.Rel Realizes ((s.debug.console.printf format args).map fun r => s.onConsole fun _ => r.2)
      (o.printf format args) := by
  have hrel := h.debug.console.printf format args
  unfold Transcript.printf at hrel ⊢
  cases hout : printfOut ((cString format).length + 1) (cString format) args 0 with
  | none =>
      rw [hout] at hrel
      cases hk : s.debug.console.printf format args with
      | none => exact .none
      | some r =>
          rw [hk] at hrel
          nomatch hrel
  | some text =>
      rw [hout] at hrel
      cases hk : s.debug.console.printf format args with
      | none =>
          rw [hk] at hrel
          nomatch hrel
      | some r =>
          rw [hk] at hrel
          cases hrel with
          | some hr => exact .some (onConsole_realizes (f := fun _ => r.2) h hr rfl)

/-- One call of the kernel. -/
theorem kernelExec_realizes (h : s.Realizes o) (c : KernelCall) :
    Option.Rel Realizes (s.kernelExec c) (o.kernelExec c) := by
  cases c with
  | debugInit serialOk => exact debugInit_realizes h serialOk
  | debug c => exact debug_realizes h c
  | printfEnableSerial enable =>
      have hk : Console.Realizes { s.debug.console with printfSerial := enable }
          { o with printfSerial := enable } :=
        ⟨h.debug.console.fits, ⟨h.debug.console.tail.shows, h.debug.console.tail.color⟩,
          h.debug.console.sent, h.debug.console.terminalSerial, h.debug.console.putcharSerial, rfl⟩
      exact .some (onConsole_realizes h hk rfl)
  | putcharEnableSerial enable =>
      have hk : Console.Realizes { s.debug.console with putcharSerial := enable }
          { o with putcharSerial := enable } :=
        ⟨h.debug.console.fits, ⟨h.debug.console.tail.shows, h.debug.console.tail.color⟩,
          h.debug.console.sent, h.debug.console.terminalSerial, rfl, h.debug.console.printfSerial⟩
      exact .some (onConsole_realizes h hk rfl)
  | printf format args => exact printf_realizes h format args
  | debugPrint format args =>
      unfold kernelExec Transcript.kernelExec
      dsimp only
      rw [vprint_eq, Option.map_map]
      cases Transcript.rawBody format args with
      | none => exact .none
      | some body => exact .some ⟨Debug.write_realizes h.debug (body ++ [0#8]), h.initialized⟩

/-- One call of the console code: it returns exactly if the transcript has something to
show for it, and then shows it. -/
theorem exec_realizes (h : s.Realizes o) (c : ConsoleCall) :
    Option.Rel Realizes (s.consoleExec c) (o.exec c) := by
  have hk := h.debug.console
  cases c with
  | terminalInitialize cr0 =>
      have hinit := Console.terminalInitialize_realizes cr0 hk.sent hk.terminalSerial hk.putcharSerial
        hk.printfSerial
      exact .some (onConsole_realizes h hinit rfl)
  | terminal i =>
      cases i with
      | putchar c => exact .some (onConsole_realizes h (hk.terminalWrite [c]) rfl)
      | write data => exact .some (onConsole_realizes h (hk.terminalWrite data) rfl)
      | setcolor color =>
          have hset : (s.debug.console.terminalSetcolor color).Realizes
              { o with sheet := o.sheet.setcolor color } :=
            ⟨hk.fits, hk.tail.setcolor color, hk.sent, hk.terminalSerial, hk.putcharSerial, hk.printfSerial⟩
          exact .some (onConsole_realizes h hset rfl)
  | terminalWritestring str => exact .some (onConsole_realizes h (hk.terminalWrite (cString str)) rfl)
  | putchar ic => exact .some (onConsole_realizes h (hk.putchar (ic.setWidth 8)) rfl)
  | puts str => exact printf_realizes h (chars "%s\n") [.str (some str)]
  | kernel c => exact kernelExec_realizes h c

theorem run_realizes (h : s.Realizes o) (calls : List ConsoleCall) :
    Option.Rel Realizes (Runs.run consoleExec s calls) (Runs.run Transcript.exec o calls) :=
  Runs.run_rel (fun _ _ c h => exec_realizes h c) calls h

end Subsystem

/-- The transcript after `terminal_initialize` on a console in any state. -/
def Transcript.start (cr0 : BitVec 32) (k : Console) : Transcript where
  sheet := Sheet.initialized cr0
  sent := k.sent ++ if k.terminalSerial then (Console.initText cr0).flatMap serialForm else []
  terminalSerial := k.terminalSerial
  putcharSerial := k.putcharSerial
  printfSerial := k.printfSerial
  level := 3
  target := 1#32
  initialized := false

theorem start_realizes (cr0 : BitVec 32) (k : Console) :
    (Subsystem.start cr0 k).Realizes (Transcript.start cr0 k) := by
  have hinit := Console.terminalInitialize_realizes cr0 (k := k)
    (o := ⟨Sheet.fresh, k.sent, k.terminalSerial, k.putcharSerial, k.printfSerial, 3, 1#32, false⟩)
    rfl rfl rfl rfl
  exact ⟨⟨hinit, rfl, rfl⟩, rfl⟩

/-! ## Runs -/

/-- What is on the outside of `s` is `o`. -/
structure Subsystem.Shows (s : Subsystem) (o : Transcript) : Prop where
  sent : s.debug.console.sent = o.sent
  row : s.debug.console.row = min o.sheet.page.row 24
  column : s.debug.console.column = o.sheet.page.col
  cells : ∀ y < 25, ∀ x < 80,
    load16 s.debug.console.mem (cellAddr s.debug.console.buffer (y * 80 + x)) =
      o.sheet.page.cell (y + (o.sheet.page.row - 24)) x
  level : s.debug.level = o.level
  target : s.debug.target = o.target

theorem Subsystem.Realizes.shows {s : Subsystem} {o : Transcript} (h : s.Realizes o) : s.Shows o := by
  have htail := h.debug.console.tail.shows
  refine ⟨h.debug.console.sent, htail.row, htail.col, ?_, h.debug.level, h.debug.target⟩
  intro y hy x hx
  have hcell : load16 s.debug.console.mem (cellAddr s.debug.console.buffer (y * 80 + x)) =
      o.sheet.page.cell (y + (o.sheet.page.row + 1 - 25)) x := htail.cells y hy x hx
  have htop : o.sheet.page.row + 1 - 25 = o.sheet.page.row - 24 := by omega
  rw [hcell, htop]

/-- Any calls of the console code after `terminal_initialize`, on a console in any
state: they return exactly if the transcript has something to show for each of them,
and then the screen, COM1, the level and the target are the transcript's. -/
theorem console_output (cr0 : BitVec 32) (k : Console) (calls : List ConsoleCall) :
    (Runs.run Subsystem.consoleExec (Subsystem.start cr0 k) calls = none ∧
      Runs.run Transcript.exec (Transcript.start cr0 k) calls = none) ∨
    ∃ s o, Runs.run Subsystem.consoleExec (Subsystem.start cr0 k) calls = some s ∧
      Runs.run Transcript.exec (Transcript.start cr0 k) calls = some o ∧ s.Shows o := by
  rcases rel_answers (Subsystem.run_realizes (start_realizes cr0 k) calls) with
    hnone | ⟨s, o, hs, ho, hrel⟩
  · exact .inl hnone
  · exact .inr ⟨s, o, hs, ho, hrel.shows⟩

/-! ## What was sent before -/

namespace Transcript

/-- The same with `before` sent first. -/
def after (before : List (BitVec 8)) (o : Transcript) : Transcript := { o with sent := before ++ o.sent }

variable (before : List (BitVec 8))

end Transcript

/-- What a message puts out at a debug level: its line, or nothing where the level
does not let it through. -/
def DebugCall.line (level : Int) : DebugCall → Option (List (BitVec 8))
  | .log messageLevel format args =>
      if level < messageLevel then none
      else (messageBody messageLevel format args).map fun body =>
        cString (levelPrefix messageLevel ++ body ++ [13#8, 10#8, 0#8])
  | .setTarget _ | .setLevel _ | .enableSerial _ => none

/-- Messages one after the other: those at or below the level are put out, each
once and in order, and nothing else is. -/
theorem Transcript.logs {o o' : Transcript} {calls : List DebugCall}
    (hlogs : calls.all DebugCall.isLog = true) (hrun : Runs.run Transcript.debugExec o calls = some o') :
    o' = (calls.filterMap (DebugCall.line o.level)).foldl (fun o text => o.debugWrite text) o := by
  induction calls generalizing o with
  | nil => exact (Option.some.inj hrun).symm
  | cons c calls ih =>
      obtain ⟨hc, hcs⟩ := Bool.and_eq_true_iff.mp hlogs
      obtain ⟨t, ht, hrest⟩ := Runs.run_cons_some.mp hrun
      cases c with
      | log level format args =>
          unfold debugExec at ht
          dsimp only at ht
          split at ht
          next hlevel =>
            obtain rfl := Option.some.inj ht
            have hline : DebugCall.line o.level (.log level format args) = none := if_pos hlevel
            rw [List.filterMap_cons_none hline]
            exact ih hcs hrest
          next hlevel =>
            obtain ⟨body, hbody, rfl⟩ := Option.map_eq_some_iff.mp ht
            have hline : DebugCall.line o.level (.log level format args) =
                some (cString (levelPrefix level ++ body ++ [13#8, 10#8, 0#8])) := by
              unfold DebugCall.line
              dsimp only
              rw [if_neg hlevel, hbody]
              rfl
            rw [List.filterMap_cons_some hline, List.foldl_cons]
            exact ih hcs hrest
      | setTarget target => nomatch hc
      | setLevel level => nomatch hc
      | enableSerial enable => nomatch hc

/-- What `debug_write` sends of a text, mirrored by the terminal or directly. -/
def Transcript.routed (o : Transcript) (text : List (BitVec 8)) : List (BitVec 8) :=
  (if o.target &&& 1#32 != 0#32 && o.terminalSerial then text.flatMap serialForm else []) ++
    if o.target &&& 2#32 != 0#32 && !o.terminalSerial then text else []

theorem Transcript.debugWrites (lines : List (List (BitVec 8))) (o : Transcript) :
    lines.foldl (fun o text => o.debugWrite text) o =
      { o with
        sheet := if o.target &&& 1#32 != 0#32 then o.sheet.write lines.flatten else o.sheet
        sent := o.sent ++ lines.flatMap o.routed } := by
  induction lines generalizing o with
  | nil =>
      rw [List.foldl_nil, List.flatten_nil, List.flatMap_nil, List.append_nil]
      show o = { o with sheet := if o.target &&& 1#32 != 0#32 then o.sheet else o.sheet }
      rw [ite_self]
  | cons line lines ih =>
      rw [List.foldl_cons, ih, List.flatten_cons, List.flatMap_cons]
      unfold debugWrite routed
      dsimp only
      rw [List.append_assoc]
      unfold Sheet.write
      rw [List.foldl_append]
      split
      · rfl
      · rfl

/-- Any messages, from any state the console code can be in: of those that the
level lets through, and of no others, each line is sent once, in order, the way
the target and the mirroring say, and if the target has VGA the screen goes on with
the lines.  Level and target stay. -/
theorem logs_output {cr0 : BitVec 32} {k : Console} {calls : List ConsoleCall} {s : Subsystem} {d : Debug}
    (hcalls : Runs.run Subsystem.consoleExec (Subsystem.start cr0 k) calls = some s)
    {logs : List DebugCall} (hlogs : logs.all DebugCall.isLog = true)
    (hrun : Runs.run Debug.exec s.debug logs = some d) :
    let lines := logs.filterMap (DebugCall.line s.debug.level)
    d.console.sent = s.debug.console.sent ++
        lines.flatMap (fun text => s.debug.mirroredPart text ++ s.debug.directPart text) ∧
      (∃ sheet, Tail s.debug.console sheet ∧
        Tail d.console (if s.debug.toVga then sheet.write lines.flatten else sheet)) ∧
      d.level = s.debug.level ∧ d.target = s.debug.target := by
  intro lines
  rcases rel_answers (Subsystem.run_realizes (start_realizes cr0 k) calls) with
    ⟨hnone, -⟩ | ⟨t, o, ht, -, hrel⟩
  · nomatch hnone.symm.trans hcalls
  obtain rfl := Option.some.inj (ht.symm.trans hcalls)
  have hdebug := hrel.debug
  rcases rel_answers (Runs.run_rel (fun d o c hd => Debug.exec_realizes hd c) logs hdebug) with
    ⟨hnone, -⟩ | ⟨d', o', hd', ho', hrel'⟩
  · nomatch hnone.symm.trans hrun
  obtain rfl := Option.some.inj (hd'.symm.trans hrun)
  have hlines := Transcript.logs hlogs ho'
  have hsame : logs.filterMap (DebugCall.line o.level) = lines := by rw [← hdebug.level]
  rw [hsame, Transcript.debugWrites] at hlines
  have hrouted : o.routed = fun text => t.debug.mirroredPart text ++ t.debug.directPart text := by
    funext text
    unfold Transcript.routed Debug.mirroredPart Debug.directPart Debug.toVga Debug.toSerial
    rw [hdebug.target, hdebug.console.terminalSerial]
  rw [hlines] at hrel'
  refine ⟨?_, ⟨o.sheet, hdebug.console.tail, ?_⟩, hrel'.level.trans hdebug.level.symm,
    hrel'.target.trans hdebug.target.symm⟩
  · rw [hrel'.console.sent, hdebug.console.sent, hrouted]
  · have htail := hrel'.console.tail
    unfold Debug.toVga
    rw [hdebug.target]
    exact htail

/-- At the level INFO, one message below it and one above. -/
theorem logs_output_info :
    let s := Subsystem.start 0x80000001#32 (Console.boot fun _ => 0#8)
    let logs := [debugError "A" [], debugTrace "B" []]
    ∃ d, Runs.run Debug.exec s.debug logs = some d ∧
      let lines := logs.filterMap (DebugCall.line s.debug.level)
      d.console.sent = s.debug.console.sent ++
          lines.flatMap (fun text => s.debug.mirroredPart text ++ s.debug.directPart text) ∧
        (∃ sheet, Tail s.debug.console sheet ∧
          Tail d.console (if s.debug.toVga then sheet.write lines.flatten else sheet)) ∧
        d.level = s.debug.level ∧ d.target = s.debug.target := by
  intro s logs
  obtain ⟨d, hd⟩ := @Debug.run_returns logs (by decide +kernel) s.debug
  have hcalls : Runs.run Subsystem.consoleExec s [] = some s := rfl
  exact ⟨d, hd, logs_output hcalls rfl hd⟩

end RedOS
