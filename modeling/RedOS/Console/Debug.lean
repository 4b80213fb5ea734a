/-
# `RedOS.Console.Debug` — `debug.c`

`vsnprintf` stores its text byte after byte from `str[0]` on, so the buffer is
the list of the bytes stored and `output_index` its length; `count` moves with
it and is not kept apart.  The debug level, the targets and the console are the
state of the rest.  `debug_hex_dump` is in `RedOS.Console.HexDump`, `debug_init`
in `RedOS.Console.Panic`.

    vsnprintf_length    what is stored, NUL included, fits in `size`
    debugLine_eq        the buffer a message is sent from: prefix, text, CR LF
-/
import RedOS.Lib.Runs
import RedOS.Console.Printf

namespace RedOS

open ByteMemory Dispatch

/-! ## `vsnprintf` -/

/-- `'0' + digit`, and from ten on a letter of the given case. -/
def digitCharFrom (ten : Int) (digit : Int) : BitVec 8 :=
  BitVec.ofInt 8 (if digit < 10 then 48 + digit else ten + (digit - 10))

/-- The `do … while (value && pos < sizeof(buffer) - 1)` loops, least significant
digit first, for at most `n` digits. -/
def reversedDigits (ten base : Int) : Nat → Int → List (BitVec 8)
  | 0, _ => []
  | n + 1, value =>
      digitCharFrom ten (value.tmod base) ::
        if value.tdiv base = 0 then [] else reversedDigits ten base n (value.tdiv base)

/-- As many bytes of `text` as `str[0 .. size - 2]` has room for. -/
def copyOut (size : Nat) (text out : List (BitVec 8)) : List (BitVec 8) :=
  out ++ text.take (size - 1 - out.length)

/-- The `"0x"` branches: nothing at all where the prefix does not fit. -/
def hexOut (size : Nat) (digits out : List (BitVec 8)) : List (BitVec 8) :=
  if out.length + 1 < size - 1 then copyOut size digits.reverse (out ++ chars "0x") else out

/-- The `switch (*format)` of `vsnprintf` for a specifier that takes an
argument.  The outer `none` is the `default` case, the inner one an argument of
the wrong kind. -/
def specifier (size : Nat) (spec : BitVec 8) :
    Option (Arg → List (BitVec 8) → Option (List (BitVec 8))) :=
  if spec = 100#8 || spec = 105#8 then some fun -- 'd', 'i'
    | .word w, out =>
        let negative := w.slt 0#32
        let value := if negative then -w else w
        let buffer := reversedDigits 97 10 31 value.toInt
        some (copyOut size (if negative then buffer ++ [45#8] else buffer).reverse out)
    | .str _, _ => none
  else if spec = 117#8 then some fun -- 'u'
    | .word w, out => some (copyOut size (reversedDigits 97 10 31 w.toNat).reverse out)
    | .str _, _ => none
  else if spec = 120#8 then some fun -- 'x'
    | .word w, out => some (hexOut size (reversedDigits 97 16 31 w.toNat) out)
    | .str _, _ => none
  else if spec = 88#8 then some fun -- 'X'
    | .word w, out => some (hexOut size (reversedDigits 65 16 31 w.toNat) out)
    | .str _, _ => none
  else if spec = 112#8 then some fun -- 'p'
    | .word w, out =>
        let buffer := reversedDigits 97 16 31 w.toNat
        some (if w = 0#32 then copyOut size (chars "(nil)") out
          else hexOut size (buffer ++ List.replicate (8 - buffer.length) 48#8) out)
    | .str _, _ => none
  else if spec = 115#8 then some fun -- 's'
    | .word _, _ => none
    | .str s, out => some (copyOut size ((s.map cString).getD (chars "(null)")) out)
  else if spec = 99#8 then some fun -- 'c'
    | .word w, out => some (copyOut size [w.setWidth 8] out)
    | .str _, _ => none
  else none

/-- The loop of `vsnprintf`; the result is what precedes the NUL. -/
def vsnprintfLoop (size : Nat) :
    List (BitVec 8) → List Arg → List (BitVec 8) → Option (List (BitVec 8))
  | [], _, out => some out
  | [c], _, out =>
      if out.length < size - 1 ∧ c ≠ 37#8 then some (out ++ [c]) else some out
  | c :: spec :: format, args, out =>
      if ¬ out.length < size - 1 then some out
      else if c ≠ 37#8 then vsnprintfLoop size (spec :: format) args (out ++ [c])
      else if spec = 37#8 then vsnprintfLoop size format args (out ++ [37#8])
      else
        match specifier size spec, args with
        | some conv, arg :: args =>
            match conv arg out with
            | none => none
            | some out => vsnprintfLoop size format args out
        | some _, [] => none
        | none, args =>
            -- unsupported: output as it is
            vsnprintfLoop size format args (copyOut size [spec] (copyOut size [37#8] out))

/-- `vsnprintf`: the bytes stored from `str[0]` on. -/
def vsnprintf (size : Nat) (format : List (BitVec 8)) (args : List Arg) :
    Option (List (BitVec 8)) :=
  if size = 0 then some []
  else if size = 1 then some [0#8]
  else (vsnprintfLoop size (cString format) args []).map (· ++ [0#8])

/-- The value `vsnprintf` returns. -/
def vsnprintfCount (stored : List (BitVec 8)) : Nat := stored.length - 1

theorem copyOut_length {size : Nat} {out : List (BitVec 8)} (text : List (BitVec 8))
    (h : out.length ≤ size - 1) : (copyOut size text out).length ≤ size - 1 := by
  unfold copyOut
  rw [List.length_append, List.length_take]
  omega

theorem copyOut_cons {size : Nat} {out : List (BitVec 8)} (b : BitVec 8) (text : List (BitVec 8))
    (h : out.length < size - 1) : copyOut size (b :: text) out = copyOut size text (out ++ [b]) := by
  unfold copyOut
  rw [List.length_append, List.length_singleton, List.append_assoc,
    show size - 1 - out.length = (size - 1 - (out.length + 1)) + 1 by omega, List.take_succ_cons]
  rfl

theorem copyOut_full {size : Nat} {out : List (BitVec 8)} (text : List (BitVec 8))
    (h : ¬ out.length < size - 1) : copyOut size text out = out := by
  rw [copyOut, show size - 1 - out.length = 0 by omega, List.take_zero, List.append_nil]

theorem copyOut_nil (size : Nat) (out : List (BitVec 8)) : copyOut size [] out = out := by
  rw [copyOut, List.take_nil, List.append_nil]

/-- Two texts one after the other are one. -/
theorem copyOut_append (size : Nat) (text text' out : List (BitVec 8)) :
    copyOut size text' (copyOut size text out) = copyOut size (text ++ text') out := by
  unfold copyOut
  have hrest : size - 1 - (out.length + min (size - 1 - out.length) text.length)
      = size - 1 - out.length - text.length := by omega
  rw [List.append_assoc, List.take_append, List.length_append, List.length_take, hrest]

theorem hexOut_length {size : Nat} {out : List (BitVec 8)} (digits : List (BitVec 8))
    (h : out.length ≤ size - 1) : (hexOut size digits out).length ≤ size - 1 := by
  unfold hexOut
  split
  next hroom =>
    refine copyOut_length _ ?_
    rw [List.length_append, show (chars "0x").length = 2 from rfl]
    omega
  next => exact h

/-- No specifier writes past the last byte. -/
theorem specifier_length (size : Nat) (spec : BitVec 8) :
    Entries (fun conv => ∀ arg out out', out.length ≤ size - 1 → conv arg out = some out' →
      out'.length ≤ size - 1) (specifier size spec) := by
  unfold specifier
  refine .ite ?signed <| .ite ?unsigned <| .ite ?lower <| .ite ?upper <| .ite ?pointer <|
    .ite ?string <| .ite ?char <| .none _
  all_goals
    intro arg out out' h hconv
    -- an argument of the wrong kind gives no text
    cases arg <;> first
      | contradiction
      | obtain rfl := Option.some.inj hconv
  case signed | unsigned | string | char => exact copyOut_length _ h
  case lower | upper => exact hexOut_length _ h
  case pointer =>
    split
    · exact copyOut_length _ h
    · exact hexOut_length _ h

theorem vsnprintfLoop_length (size : Nat) : ∀ (format : List (BitVec 8)) (args : List Arg)
    (out text : List (BitVec 8)), out.length ≤ size - 1 →
      vsnprintfLoop size format args out = some text → text.length ≤ size - 1
  | [], _, _, _, hout, h => Option.some.inj h ▸ hout
  | [c], _, out, text, hout, h => by
      unfold vsnprintfLoop at h
      split at h
      next hroom =>
        obtain rfl := Option.some.inj h
        rw [List.length_append]
        exact hroom.1
      next => exact Option.some.inj h ▸ hout
  | c :: spec :: format, args, out, text, hout, h => by
      unfold vsnprintfLoop at h
      split at h
      · exact Option.some.inj h ▸ hout
      next hroom =>
        have hone : ∀ b : BitVec 8, (out ++ [b]).length ≤ size - 1 := by
          intro b
          rw [List.length_append, List.length_singleton]
          omega
        split at h
        · exact vsnprintfLoop_length size _ _ _ _ (hone c) h
        split at h
        · exact vsnprintfLoop_length size _ _ _ _ (hone 37#8) h
        split at h
        next conv arg args hspec =>
          split at h
          · exact nomatch h
          next out' hconv =>
            exact vsnprintfLoop_length size _ _ _ _ (specifier_length size spec conv hspec arg out out' hout hconv) h
        · exact nomatch h
        · exact vsnprintfLoop_length size _ _ _ _ (copyOut_length _ (copyOut_length _ hout)) h

/-- The arguments are there and of the kind the directives of `vsnprintf` ask for. -/
def vaccepts : List (BitVec 8) → List Arg → Bool
  | [], _ => true
  | [_], _ => true
  | c :: spec :: format, args =>
      if c ≠ 37#8 then vaccepts (spec :: format) args
      else if spec = 37#8 then vaccepts format args
      else
        match specifier 0 spec, args with
        | some conv, arg :: args => (conv arg []).isSome && vaccepts format args
        | some _, [] => false
        | none, args => vaccepts format args

/-- Whether a specifier takes an argument, and of which kind, depends on neither
the buffer nor what is in it. -/
theorem specifier_takes (size : Nat) (spec : BitVec 8) :
    Option.Rel (fun conv conv₀ => ∀ arg out, (conv arg out).isSome = (conv₀ arg []).isSome ∧
      (conv arg.kind out).isSome = (conv arg out).isSome) (specifier size spec) (specifier 0 spec) := by
  unfold specifier
  refine rel_ite ?signed <| rel_ite ?unsigned <| rel_ite ?lower <| rel_ite ?upper <| rel_ite ?pointer <|
    rel_ite ?string <| rel_ite ?char <| .none
  all_goals
    intro arg out
    cases arg with
    | word w => exact ⟨rfl, rfl⟩
    | str s => exact ⟨rfl, rfl⟩

theorem vsnprintfLoop_isSome (size : Nat) (format : List (BitVec 8)) (args : List Arg)
    (out : List (BitVec 8)) (h : vaccepts format args = true) :
    (vsnprintfLoop size format args out).isSome := by
  induction format, args using vaccepts.induct generalizing out with
  | case1 => rfl
  | case2 c =>
      unfold vsnprintfLoop
      split <;> rfl
  | case3 c spec format args hc ih =>
      unfold vaccepts at h
      unfold vsnprintfLoop
      rw [if_pos hc] at h ⊢
      split
      · rfl
      · exact ih _ h
  | case4 c format args hc ih =>
      unfold vaccepts at h
      unfold vsnprintfLoop
      rw [if_neg hc, if_pos rfl] at h ⊢
      split
      · rfl
      · exact ih _ h
  | case5 c spec format hc hspec conv₀ arg args hconv₀ ih =>
      unfold vaccepts at h
      unfold vsnprintfLoop
      rw [if_neg hc, if_neg hspec, hconv₀] at h
      rw [if_neg hc, if_neg hspec]
      obtain ⟨hkind, hrest⟩ := Bool.and_eq_true_iff.mp h
      rcases rel_answers (specifier_takes size spec) with
        ⟨-, hnone⟩ | ⟨conv, conv', hconv, hconv', hsame⟩
      · rw [hconv₀] at hnone
        cases hnone
      · obtain rfl := Option.some.inj (hconv₀.symm.trans hconv')
        obtain ⟨out', hout'⟩ := Option.isSome_iff_exists.mp ((hsame arg out).1.trans hkind)
        rw [hconv]
        dsimp only
        rw [hout']
        split
        · rfl
        · exact ih _ hrest
  | case6 c spec format hc hspec conv₀ hconv₀ =>
      unfold vaccepts at h
      rw [if_neg hc, if_neg hspec, hconv₀] at h
      cases h
  | case7 c spec format hc hspec args hnone ih =>
      unfold vaccepts at h
      unfold vsnprintfLoop
      rw [if_neg hc, if_neg hspec, hnone] at h
      rw [if_neg hc, if_neg hspec]
      rcases rel_answers (specifier_takes size spec) with ⟨hnone', -⟩ | ⟨conv, conv', -, hconv', -⟩
      · rw [hnone']
        split
        · rfl
        · exact ih _ h
      · rw [hnone] at hconv'
        cases hconv'
/-- Of an argument only its kind counts. -/
theorem vaccepts_kind (format : List (BitVec 8)) (args : List Arg) :
    vaccepts format (args.map Arg.kind) = vaccepts format args := by
  induction format, args using vaccepts.induct with
  | case1 => rfl
  | case2 => rfl
  | case3 c spec format args hc ih =>
      unfold vaccepts
      rw [if_pos hc, if_pos hc]
      exact ih
  | case4 c format args hc ih =>
      unfold vaccepts
      rw [if_neg hc, if_neg hc, if_pos rfl, if_pos rfl]
      exact ih
  | case5 c spec format hc hspec conv arg args hconv ih =>
      unfold vaccepts
      rw [if_neg hc, if_neg hc, if_neg hspec, if_neg hspec, hconv, List.map_cons]
      dsimp only
      rw [ih]
      rcases rel_answers (specifier_takes 0 spec) with ⟨-, hnone⟩ | ⟨conv', _, hconv', -, hsame⟩
      · rw [hconv] at hnone
        cases hnone
      · obtain rfl := Option.some.inj (hconv.symm.trans hconv')
        rw [(hsame arg []).2]
  | case6 c spec format hc hspec conv hconv =>
      unfold vaccepts
      rw [if_neg hc, if_neg hc, if_neg hspec, if_neg hspec, hconv]
      rfl
  | case7 c spec format hc hspec args hnone ih =>
      unfold vaccepts
      rw [if_neg hc, if_neg hc, if_neg hspec, if_neg hspec, hnone]
      exact ih

/-! ## The debug log -/

/-- `level_prefix` -/
def levelPrefix (level : Int) : List (BitVec 8) :=
  if level = 1 then chars "[ERROR] "
  else if level = 2 then chars "[WARN]  "
  else if level = 3 then chars "[INFO]  "
  else if level = 4 then chars "[DEBUG] "
  else if level = 5 then chars "[TRACE] "
  else []

/-- `DEBUG_BUFFER_SIZE` -/
def debugBufferSize : Nat := 1024

/-- `debug_buffer` as `debug_format_and_write` hands it on, up to its last NUL. -/
def debugLine (level : Int) (format : List (BitVec 8)) (args : List Arg) :
    Option (List (BitVec 8)) := do
  let pre := levelPrefix level
  let stored ← vsnprintf (debugBufferSize - pre.length - 2) format args
  let totalLen := min (pre.length + vsnprintfCount stored) (debugBufferSize - 3)
  pure ((pre ++ stored).take totalLen ++ [13#8, 10#8, 0#8])

/-- What `vsnprintf` stores of a message before its NUL: the room is the buffer
without the prefix and without CR LF. -/
def messageBody (level : Int) (format : List (BitVec 8)) (args : List Arg) :
    Option (List (BitVec 8)) :=
  vsnprintfLoop (debugBufferSize - (levelPrefix level).length - 2) (cString format) args []

/-- A message whose arguments are what its format asks for is formatted. -/
theorem messageBody_isSome {format : List (BitVec 8)} {args : List Arg}
    (h : vaccepts (cString format) args = true) (level : Int) :
    ∃ body, messageBody level format args = some body :=
  Option.isSome_iff_exists.mp (vsnprintfLoop_isSome _ _ _ _ h)

/-- The prefixes there are. -/
def levelPrefixes : List (List (BitVec 8)) := [1, 2, 3, 4, 5, 6].map levelPrefix

theorem levelPrefix_mem (level : Int) : levelPrefix level ∈ levelPrefixes := by
  unfold levelPrefix
  repeat' split
  all_goals decide +kernel

theorem levelPrefix_length (level : Int) : (levelPrefix level).length ≤ 8 := by
  have hall : ∀ pre ∈ levelPrefixes, pre.length ≤ 8 := by decide +kernel
  exact hall _ (levelPrefix_mem level)

theorem messageBody_length {level : Int} {format : List (BitVec 8)} {args : List Arg}
    {body : List (BitVec 8)} (h : messageBody level format args = some body) :
    (levelPrefix level).length + body.length ≤ debugBufferSize - 3 := by
  have hpre := levelPrefix_length level
  have hbody := vsnprintfLoop_length _ _ _ _ _ (Nat.zero_le _) h
  unfold debugBufferSize at *
  omega

/-- Nothing of the body is cut off by the line end. -/
theorem debugLine_eq {level : Int} {format : List (BitVec 8)} {args : List Arg}
    {body : List (BitVec 8)} (h : messageBody level format args = some body) :
    debugLine level format args = some (levelPrefix level ++ body ++ [13#8, 10#8, 0#8]) := by
  have hlen := messageBody_length h
  have hpre := levelPrefix_length level
  have hsize : ¬ debugBufferSize - (levelPrefix level).length - 2 = 0 ∧
      ¬ debugBufferSize - (levelPrefix level).length - 2 = 1 := by
    unfold debugBufferSize
    omega
  have hstored : vsnprintf (debugBufferSize - (levelPrefix level).length - 2) format args =
      some (body ++ [0#8]) := by
    unfold vsnprintf
    rw [if_neg hsize.1, if_neg hsize.2]
    exact congrArg _ h
  have htotal : min ((levelPrefix level).length + vsnprintfCount (body ++ [0#8]))
      (debugBufferSize - 3) = (levelPrefix level ++ body).length := by
    unfold vsnprintfCount
    rw [List.length_append, List.length_append, List.length_singleton, Nat.add_sub_cancel]
    omega
  unfold debugLine
  dsimp only
  rw [hstored]
  show some (List.take _ _ ++ _) = _
  rw [htotal, ← List.append_assoc, List.take_left']
  rfl

structure Debug where
  console : Console
  /-- `debug_level` -/
  level : Int
  /-- `debug_target` -/
  target : BitVec 32

namespace Debug

/-- `debug_target & DEBUG_TARGET_VGA` -/
def toVga (d : Debug) : Bool := d.target &&& 1#32 != 0#32

/-- `debug_target & DEBUG_TARGET_SERIAL` -/
def toSerial (d : Debug) : Bool := d.target &&& 2#32 != 0#32

/-- `debug_set_level` -/
def setLevel (level : Int) (d : Debug) : Debug :=
  if 0 ≤ level ∧ level ≤ 5 then { d with level := level } else d

/-- `debug_set_target` -/
def setTarget (target : BitVec 32) (d : Debug) : Debug := { d with target := target }

/-- `debug_write` -/
def write (str : List (BitVec 8)) (d : Debug) : Debug :=
  let d := if d.toVga then { d with console := d.console.terminalWritestring str } else d
  if d.toSerial && !d.console.terminalSerial then
    { d with console := d.console.serialCom1WriteString str }
  else d

/-- What holds of a console after either way of writing a string holds after
`debug_write`. -/
theorem write_closed {I : Console → Prop} {str : List (BitVec 8)}
    (hvga : ∀ k, I k → I (k.terminalWritestring str))
    (hserial : ∀ k, I k → I (k.serialCom1WriteString str)) {d : Debug} (h : I d.console) :
    I (d.write str).console := by
  unfold write
  dsimp only
  cases d.toVga with
  | true =>
      rw [if_pos rfl]
      split
      · exact hserial _ (hvga _ h)
      · exact hvga _ h
  | false =>
      rw [if_neg Bool.false_ne_true]
      split
      · exact hserial _ h
      · exact h

/-- `debug_format_and_write`, which `debug_log` and the functions of one level
only pass their arguments to. -/
def log (level : Int) (format : List (BitVec 8)) (args : List Arg) (d : Debug) : Option Debug :=
  if d.level < level then some d
  else (debugLine level format args).map fun line => d.write line

end Debug

/-- A call of the debug interface or of `terminal_enable_serial`. -/
inductive DebugCall
  | setTarget (target : BitVec 32)
  | setLevel (level : Int)
  | enableSerial (enable : Bool)
  | log (level : Int) (format : List (BitVec 8)) (args : List Arg)

def Debug.exec (d : Debug) : DebugCall → Option Debug
  | .setTarget target => some (d.setTarget target)
  | .setLevel level => some (d.setLevel level)
  | .enableSerial enable => some { d with console := d.console.terminalEnableSerial enable }
  | .log level format args => d.log level format args

/-- The statics of `debug.c` (`DEBUG_LEVEL_INFO`, `DEBUG_TARGET_VGA`) over a
terminal that has been initialized. -/
def Debug.start (cr0 : BitVec 32) (k : Console) : Debug where
  console := k.terminalInitialize cr0
  level := 3
  target := 1#32

end RedOS
