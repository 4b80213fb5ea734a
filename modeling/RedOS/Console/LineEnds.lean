/-
# `RedOS.Console.LineEnds` — the line ends of one message on COM1

`debug_format_and_write` ends a message with CR LF, "for serial console".  Sent by
`debug_write` these bytes go out as they are, a LF inside the text without a CR.
Mirrored by `terminal_putchar` every LF gets a CR, also the one that has it:

    LF         in the text    at the end
    direct     LF             CR LF
    mirrored   CR LF          CR CR LF

    write_sends      what `debug_write` sends, whatever target and mirroring are
    routes_differ    the two routes never give the same well-ended lines
-/
import RedOS.Console.Mirror

namespace RedOS

namespace Debug

/-- The part of `debug_write`'s string that the terminal mirrors. -/
def mirroredPart (text : List (BitVec 8)) (d : Debug) : List (BitVec 8) :=
  if d.toVga && d.console.terminalSerial then text.flatMap serialForm else []

/-- And the part it sends itself. -/
def directPart (text : List (BitVec 8)) (d : Debug) : List (BitVec 8) :=
  if d.toSerial && !d.console.terminalSerial then text else []

theorem write_sends (str : List (BitVec 8)) (d : Debug) :
    Console.Sends d.console (d.write str).console
      (d.mirroredPart (cString str) ++ d.directPart (cString str)) := by
  have hdirect : ∀ k : Console, k.terminalSerial = d.console.terminalSerial →
      Console.Sends k (if d.toSerial && !k.terminalSerial then k.serialCom1WriteString str else k)
        (d.directPart (cString str)) := by
    intro k hflag
    unfold directPart
    rw [← hflag]
    split
    · exact Console.serialWrite_sends (cString str) k
    · exact .refl k
  have hwrite := Console.terminalWrite_sends (cString str) d.console
  unfold write mirroredPart
  cases hvga : d.toVga with
  | true =>
      rw [if_pos rfl, Bool.true_and]
      have hall := hwrite.trans (hdirect _ hwrite.terminal)
      dsimp only
      split at hall
      · rw [if_pos ‹_›]
        exact hall
      · rw [if_neg ‹_›]
        exact hall
  | false =>
      have hall := hdirect d.console rfl
      rw [if_neg Bool.false_ne_true]
      split at hall
      · rw [if_pos ‹_›]
        exact hall
      · rw [if_neg ‹_›]
        exact hall

end Debug

/-! ## Lines -/

/-- One or more lines, each ended by one CR LF pair and no more: no LF but that
of the pair, and no CR right before it. -/
def CrLfLines (bytes : List (BitVec 8)) : Prop :=
  ∃ lines : List (List (BitVec 8)), lines ≠ [] ∧
    (∀ line ∈ lines, 10#8 ∉ line ∧ line.getLast? ≠ some 13#8) ∧
    bytes = lines.flatMap (· ++ [13#8, 10#8])

/-- The two routes of a message give the same lines. -/
structure SameLines (mirrored direct : List (BitVec 8)) : Prop where
  same : mirrored = direct
  mirrored_lines : CrLfLines mirrored
  direct_lines : CrLfLines direct

theorem CrLfLines.lineFeed_mem {bytes : List (BitVec 8)} (h : CrLfLines bytes) : 10#8 ∈ bytes := by
  obtain ⟨lines, hne, -, rfl⟩ := h
  obtain ⟨line, rest, rfl⟩ := List.exists_cons_of_ne_nil hne
  rw [List.flatMap_cons]
  exact List.mem_append_left _ (List.mem_append_right _ (List.mem_cons_of_mem _ List.mem_cons_self))

/-- On a serial line every LF of a text takes one byte more. -/
theorem serialForm_flatMap_length (text : List (BitVec 8)) :
    (text.flatMap serialForm).length = text.length + text.count 10#8 := by
  induction text with
  | nil => rfl
  | cons b bs ih =>
      rw [List.flatMap_cons, List.length_append, ih, List.length_cons, List.count_cons]
      unfold serialForm
      by_cases hlf : b = 10#8
      · rw [if_pos hlf, if_pos (beq_iff_eq.mpr hlf)]
        show 2 + _ = _
        omega
      · rw [if_neg hlf, if_neg (by rwa [beq_iff_eq])]
        show 1 + _ = _
        omega

theorem not_sameLines (text : List (BitVec 8)) : ¬ SameLines (text.flatMap serialForm) text := by
  intro h
  have hlen := congrArg List.length h.same
  have hcount := List.count_pos_iff.mpr h.direct_lines.lineFeed_mem
  rw [serialForm_flatMap_length] at hlen
  omega

/-! ## The two routes -/

namespace Debug

/-- `debug_log` with the terminal's mirroring set first. -/
def logWith (mirroring : Bool) (level : Int) (format : List (BitVec 8)) (args : List Arg) (d : Debug) :
    Option Debug :=
  log level format args { d with console := d.console.terminalEnableSerial mirroring }

/-- `DEBUG_TARGET_ALL` -/
theorem setTarget_all (d : Debug) :
    (d.setTarget 255#32).toVga = true ∧ (d.setTarget 255#32).toSerial = true :=
  ⟨show (255#32 &&& 1#32 != 0#32) = true by decide, show (255#32 &&& 2#32 != 0#32) = true by decide⟩

/-- A message that its level lets through is written. -/
theorem log_write {d : Debug} {level : Int} (hlevel : level ≤ d.level) {format : List (BitVec 8)}
    {args : List Arg} {body : List (BitVec 8)} (hbody : messageBody level format args = some body) :
    d.log level format args = some (d.write (levelPrefix level ++ body ++ [13#8, 10#8, 0#8])) := by
  unfold log
  rw [if_neg (Int.not_lt.mpr hlevel), debugLine_eq hbody]
  rfl

theorem logWith_sends {d : Debug} (htarget : d.toVga = true ∧ d.toSerial = true) {level : Int}
    (hlevel : level ≤ d.level) {format : List (BitVec 8)} {args : List Arg} {body : List (BitVec 8)}
    (hbody : messageBody level format args = some body) (mirroring : Bool) :
    ∃ d', d.logWith mirroring level format args = some d' ∧
      d'.console.sent = d.console.sent ++
        let text := cString (levelPrefix level ++ body ++ [13#8, 10#8, 0#8])
        if mirroring then text.flatMap serialForm else text := by
  have hset : ∃ s : Debug, s = { d with console := d.console.terminalEnableSerial mirroring } := ⟨_, rfl⟩
  obtain ⟨s, hs⟩ := hset
  have hlog : s.log level format args = some _ := log_write (hs ▸ hlevel) hbody
  have hsent := (write_sends (levelPrefix level ++ body ++ [13#8, 10#8, 0#8]) s).sent
  have hvga : s.toVga = true := hs ▸ htarget.1
  have hserial : s.toSerial = true := hs ▸ htarget.2
  have hflag : s.console.terminalSerial = mirroring := hs ▸ rfl
  have hbefore : s.console.sent = d.console.sent := hs ▸ rfl
  rw [hbefore, mirroredPart, directPart, hvga, hserial, hflag] at hsent
  refine ⟨_, hs ▸ hlog, hsent.trans ?_⟩
  cases mirroring with
  | true => exact congrArg _ (List.append_nil _)
  | false => rfl

end Debug

/-- Whatever a message is and whatever the state it finds, with both targets: the
terminal's mirroring and `debug_write` do not give COM1 the same bytes with one
CR LF at every line break. -/
theorem routes_differ {d : Debug} (htarget : d.toVga = true ∧ d.toSerial = true) {level : Int}
    (hlevel : level ≤ d.level) {format : List (BitVec 8)} {args : List Arg} {body : List (BitVec 8)}
    (hbody : messageBody level format args = some body) :
    ∃ d₁ d₂ mirrored direct, d.logWith true level format args = some d₁ ∧
      d.logWith false level format args = some d₂ ∧
      d₁.console.sent = d.console.sent ++ mirrored ∧ d₂.console.sent = d.console.sent ++ direct ∧
      ¬ SameLines mirrored direct := by
  obtain ⟨d₁, hlog₁, hsent₁⟩ := Debug.logWith_sends htarget hlevel hbody true
  obtain ⟨d₂, hlog₂, hsent₂⟩ := Debug.logWith_sends htarget hlevel hbody false
  exact ⟨d₁, d₂, _, _, hlog₁, hlog₂, hsent₁, hsent₂, not_sameLines _⟩

theorem routes_differ_letter :
    let d := (Debug.start 0x80000001#32 (Console.boot fun _ => 0#8)).setTarget 255#32
    ∃ d₁ d₂ mirrored direct, d.logWith true 3 (chars "A") [] = some d₁ ∧
      d.logWith false 3 (chars "A") [] = some d₂ ∧
      d₁.console.sent = d.console.sent ++ mirrored ∧ d₂.console.sent = d.console.sent ++ direct ∧
      ¬ SameLines mirrored direct := by
  intro d
  have hbody : messageBody 3 (chars "A") [] = some (chars "A") := by decide +kernel
  exact routes_differ (d := d) (Debug.setTarget_all _) (Int.le_refl 3) hbody

/-- A text with a LF inside, by the two routes. -/
theorem line_feed_routes :
    let d := (Debug.start 0x80000001#32 (Console.boot fun _ => 0#8)).setTarget 255#32
    ∃ d₁ d₂, d.logWith true 3 (chars "a\nb") [] = some d₁ ∧
      d.logWith false 3 (chars "a\nb") [] = some d₂ ∧
      d₁.console.sent = d.console.sent ++ chars "[INFO]  a\r\nb\r\r\n" ∧
      d₂.console.sent = d.console.sent ++ chars "[INFO]  a\nb\r\n" ∧
      ¬ SameLines (chars "[INFO]  a\r\nb\r\r\n") (chars "[INFO]  a\nb\r\n") := by
  intro d
  have hbody : messageBody 3 (chars "a\nb") [] = some (chars "a\nb") := by decide +kernel
  have htext : cString (levelPrefix 3 ++ chars "a\nb" ++ [13#8, 10#8, 0#8]) =
      chars "[INFO]  a\nb\r\n" := by decide +kernel
  have hmirrored : (chars "[INFO]  a\nb\r\n").flatMap serialForm =
      chars "[INFO]  a\r\nb\r\r\n" := by decide +kernel
  have htarget : d.toVga = true ∧ d.toSerial = true := Debug.setTarget_all _
  obtain ⟨d₁, hlog₁, hsent₁⟩ := Debug.logWith_sends htarget (Int.le_refl 3) hbody true
  obtain ⟨d₂, hlog₂, hsent₂⟩ := Debug.logWith_sends htarget (Int.le_refl 3) hbody false
  rw [htext] at hsent₁ hsent₂
  refine ⟨d₁, d₂, hlog₁, hlog₂, ?_, hsent₂, ?_⟩
  · rw [← hmirrored]
    exact hsent₁
  · rw [← hmirrored]
    exact not_sameLines _

end RedOS
