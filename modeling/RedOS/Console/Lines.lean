/-
# `RedOS.Console.Lines` — `debug_buffer` and the lines sent from it

`debug_format_and_write` and `debug_vprint` with every store into
`debug_buffer` (1024 bytes, whatever it held before).  The capacity passed on
to `vsnprintf`, its return value, the clamp and the three bytes behind the
message fit to the byte:

    debugFormatAndWrite_spec    prefix, message, CR LF, inside the buffer
    debugVprint_spec            the message alone
-/
import Mathlib.Data.List.TakeWhile
import RedOS.Console.Truncation

namespace RedOS

open Fitting StoreLog

/-- What a call does to `debug_buffer`, and the string `debug_write` finds there,
if it is called. -/
structure Handed where
  stores : Log (BitVec 8)
  written : Option (List (BitVec 8))

/-- The NUL-terminated string at the start of a buffer of `n` bytes. -/
def stringIn (m : Nat → BitVec 8) (n : Nat) : List (BitVec 8) := cString (read m 0 n)

/-- `debug_format_and_write`, on a buffer that holds `before`. -/
def debugFormatAndWrite (before : Nat → BitVec 8) (debugLevel level : Int)
    (format : List (BitVec 8)) (args : List Arg) : Option Handed :=
  if level > debugLevel then some ⟨[], none⟩
  else do
    let pre := levelPrefix level
    -- Copy prefix to buffer
    let preLen := if pre.length ≥ debugBufferSize then debugBufferSize - 1 else pre.length
    let stores := row 0 (pre.take preLen)
    -- Format the message; -2 for \r\n
    let (message, count) ← vsnprintfStores (debugBufferSize - preLen - 2) format args
    let stores := stores ++ offset preLen message
    let messageLen := (BitVec.ofNat 32 count).toInt
    if messageLen < 0 then some ⟨stores, none⟩
    else
      -- Calculate total length ensuring we don't exceed buffer; -3 for \r\n\0
      let totalLen := preLen + messageLen.toNat
      let totalLen := if totalLen > debugBufferSize - 3 then debugBufferSize - 3 else totalLen
      let stores := stores ++ [(totalLen, 13#8), (totalLen + 1, 10#8), (totalLen + 2, 0#8)]
      some ⟨stores, some (stringIn (replay before stores) debugBufferSize)⟩

/-- `debug_vprint` -/
def debugVprint (before : Nat → BitVec 8) (format : List (BitVec 8)) (args : List Arg) :
    Option Handed := do
  -- Format the message
  let (stores, count) ← vsnprintfStores (debugBufferSize - 1) format args
  let messageLen := (BitVec.ofNat 32 count).toInt
  if messageLen < 0 then some ⟨stores, none⟩
  else
    -- Ensure proper null termination
    let messageLen := if messageLen ≥ debugBufferSize then (debugBufferSize : Int) - 1 else messageLen
    let stores := stores ++ [(messageLen.toNat, 0#8)]
    some ⟨stores, some (stringIn (replay before stores) debugBufferSize)⟩

theorem cString_stops {text : List (BitVec 8)} (htext : 0#8 ∉ text) (rest : List (BitVec 8)) :
    cString (text ++ 0#8 :: rest) = text := by
  rw [cString, List.takeWhile_append_of_pos fun b hb => by
    have : b ≠ 0#8 := fun heq => htext (heq ▸ hb)
    simpa using this]
  rw [List.takeWhile_cons_of_neg (by simp), List.append_nil]

theorem cString_clean {text : List (BitVec 8)} (htext : 0#8 ∉ text) : cString text = text := by
  refine List.takeWhile_eq_self_iff.mpr ?_
  intro b hb
  have hne : b ≠ 0#8 := fun heq => htext (heq ▸ hb)
  exact decide_eq_true hne

/-- A text and its NUL at the start of the buffer. -/
theorem stringIn_eq {m : Nat → BitVec 8} {text : List (BitVec 8)} {n : Nat}
    (hread : read m 0 (text.length + 1) = text ++ [0#8]) (htext : 0#8 ∉ text) (hn : text.length < n) :
    stringIn m n = text := by
  obtain ⟨k, rfl⟩ := Nat.exists_eq_add_of_le (show text.length + 1 ≤ n from hn)
  rw [stringIn, read_add, hread, List.append_assoc, List.singleton_append, cString_stops htext]

/-- A text, its NUL, and the rest of the string from that NUL on. -/
theorem stringIn_rows (before : Nat → BitVec 8) {text rest : List (BitVec 8)} {n : Nat}
    (hclean : 0#8 ∉ text ++ rest) (hn : (text ++ rest).length < n) :
    stringIn (replay before (row 0 text ++ [(text.length, 0#8)] ++ row text.length (rest ++ [0#8]))) n
      = text ++ rest := by
  refine stringIn_eq ?_ hclean hn
  have hread := read_rows before (rest ++ [0#8]) [(text.length, 0#8)] (read_row before 0 text)
    fun st hst => by rw [List.mem_singleton.mp hst]
  have hlength : (text ++ rest ++ [0#8]).length = (text ++ rest).length + 1 := List.length_append
  rwa [← List.append_assoc, hlength] at hread

/-- A return value as an `int`. -/
theorem count_toInt {n : Nat} (h : n ≤ intMax) : (BitVec.ofNat 32 n).toInt = n := by
  unfold intMax at h
  rw [BitVec.toInt_eq_toNat_of_lt] <;> rw [BitVec.toNat_ofNat] <;> omega

theorem levelPrefix_clean (level : Int) : 0#8 ∉ levelPrefix level := by
  have hall : ∀ pre ∈ levelPrefixes, 0#8 ∉ pre := by decide +kernel
  exact hall _ (levelPrefix_mem level)

theorem line_clean (level : Int) {ps : List (Piece (BitVec 8))} (hnul : 0#8 ∉ whole ps) (room : Nat) :
    0#8 ∉ levelPrefix level ++ fit room ps ++ [13#8, 10#8] := by
  rw [List.append_assoc, List.mem_append, List.mem_append]
  rintro (h | h | h)
  · exact levelPrefix_clean level h
  · exact hnul (mem_fit h)
  · exact absurd h (by decide)

/-- **A debug line**: the level's prefix, what `vsnprintf` stores of the message
in the room that is left, CR LF; inside the buffer. -/
theorem debugFormatAndWrite_spec (before : Nat → BitVec 8) {debugLevel level : Int}
    (hlevel : level ≤ debugLevel) {format : List (BitVec 8)} {args : List Arg}
    {ps : List (Piece (BitVec 8))} (hps : pieces (cString format) args = some ps)
    (hnul : 0#8 ∉ whole ps) :
    let pre := levelPrefix level
    let text := fit (debugBufferSize - pre.length - 3) ps
    vsnprintfStores (debugBufferSize - pre.length - 2) format args
        = some (row 0 (text ++ [0#8]), text.length) ∧
      ∃ stores, debugFormatAndWrite before debugLevel level format args
          = some ⟨stores ++ [(pre.length + text.length + 2, 0#8)], some (pre ++ text ++ [13#8, 10#8])⟩ ∧
        pre.length + text.length + 2 ≤ 1023 ∧ ∀ st ∈ stores, st.1 < 1024 := by
  intro pre text
  have hpre : pre.length ≤ 8 := levelPrefix_length level
  have hlen : text.length ≤ debugBufferSize - pre.length - 3 := fit_length_le _ _
  have hstores : vsnprintfStores (debugBufferSize - pre.length - 2) format args
      = some (row 0 (text ++ [0#8]), text.length) :=
    vsnprintfStores_fit (by
      unfold debugBufferSize
      omega) hps
  have hclean : 0#8 ∉ pre ++ text ++ [13#8, 10#8] := line_clean level hnul _
  refine ⟨hstores, ?_⟩
  have hcount : (BitVec.ofNat 32 text.length).toInt = text.length := count_toInt (by
    unfold debugBufferSize at hlen
    unfold intMax
    omega)
  have hpreLen : (if pre.length ≥ debugBufferSize then debugBufferSize - 1 else pre.length)
      = pre.length := if_neg (by
    unfold debugBufferSize
    omega)
  have htotal : (if pre.length + text.length > debugBufferSize - 3 then debugBufferSize - 3
      else pre.length + text.length) = pre.length + text.length := if_neg (by
    unfold debugBufferSize at hlen ⊢
    omega)
  have hbound : pre.length + text.length + 2 ≤ 1023 := by
    unfold debugBufferSize at hlen
    omega
  -- the NUL of the message is where CR goes
  have hmessage : row 0 pre ++ row pre.length (text ++ [0#8])
      = row 0 (pre ++ text) ++ [((pre ++ text).length, 0#8)] := by
    rw [row_append, row_append, Nat.zero_add, List.length_append, List.append_assoc]
    rfl
  have hline : [(pre.length + text.length, 13#8), (pre.length + text.length + 1, 10#8),
      (pre.length + text.length + 2, 0#8)] = row (pre ++ text).length [13#8, 10#8, 0#8] := by
    rw [List.length_append]
    rfl
  have hstring : stringIn (replay before (row 0 (pre ++ text) ++ [((pre ++ text).length, 0#8)]
      ++ row (pre ++ text).length [13#8, 10#8, 0#8])) debugBufferSize
      = pre ++ text ++ [13#8, 10#8] := by
    have hstring := @stringIn_rows before (pre ++ text) [13#8, 10#8] debugBufferSize hclean (by
      rw [List.length_append, List.length_append]
      unfold debugBufferSize
      show _ + 2 < 1024
      omega)
    rwa [show ([13#8, 10#8] ++ [0#8] : List (BitVec 8)) = [13#8, 10#8, 0#8] from rfl] at hstring
  refine ⟨row 0 pre ++ row pre.length (text ++ [0#8]) ++ [(pre.length + text.length, 13#8),
    (pre.length + text.length + 1, 10#8)], ?_, hbound, ?_⟩
  · unfold debugFormatAndWrite
    rw [if_neg (Int.not_lt.mpr hlevel)]
    dsimp only
    rw [show (levelPrefix level) = pre from rfl, hpreLen, hstores]
    dsimp only [Option.bind_eq_bind, Option.bind_some]
    rw [hcount, if_neg (Int.not_lt.mpr (Int.natCast_nonneg _)), Int.toNat_natCast, htotal,
      List.take_length, offset_row, Nat.add_zero, hline, hmessage, hstring, ← hmessage, ← hline,
      List.append_assoc _ [(pre.length + text.length, 13#8), _]]
    rfl
  · intro st hst
    rw [hmessage, List.append_assoc, List.mem_append] at hst
    rcases hst with hst | hst
    · have := mem_row hst
      rw [List.length_append] at this
      omega
    · rw [List.length_append] at hst
      simp only [List.mem_append, List.mem_cons, List.not_mem_nil, or_false] at hst
      rcases hst with rfl | rfl | rfl <;> simp only <;> omega

/-- `debug_write` sees the string only. -/
theorem write_string {str str' : List (BitVec 8)} (h : cString str = cString str') (d : Debug) :
    d.write str = d.write str' := by
  have h' : str.takeWhile (· ≠ 0#8) = str'.takeWhile (· ≠ 0#8) := h
  unfold Debug.write Console.terminalWritestring Console.serialCom1WriteString
  rw [h']

/-- The log call of `RedOS.Console.Debug` writes the string handed on here. -/
theorem log_written (before : Nat → BitVec 8) (d : Debug) (level : Int) {format : List (BitVec 8)}
    {args : List Arg} {ps : List (Piece (BitVec 8))} (hps : pieces (cString format) args = some ps)
    (hnul : 0#8 ∉ whole ps) : d.log level format args
      = (debugFormatAndWrite before d.level level format args).map fun handed =>
          (handed.written.map fun str => d.write str).getD d := by
  unfold Debug.log
  by_cases hlevel : d.level < level
  · rw [if_pos hlevel, debugFormatAndWrite, if_pos hlevel]
    rfl
  · obtain ⟨-, stores, hcall, -⟩ :=
      debugFormatAndWrite_spec before (Int.not_lt.mp hlevel) hps hnul
    have hbody : messageBody level format args
        = some (fit (debugBufferSize - (levelPrefix level).length - 3) ps) := by
      rw [messageBody, vsnprintfLoop_fit _ _ _ [] ps hps]
      rfl
    rw [if_neg hlevel, hcall, debugLine_eq hbody]
    refine congrArg some (write_string ?_ d)
    have hclean := line_clean level hnul (debugBufferSize - (levelPrefix level).length - 3)
    generalize fit _ ps = body at hclean ⊢
    have hline : levelPrefix level ++ body ++ [13#8, 10#8, 0#8]
        = (levelPrefix level ++ body ++ [13#8, 10#8]) ++ 0#8 :: [] :=
      (List.append_assoc _ [13#8, 10#8] [0#8]).symm
    rw [hline, cString_stops hclean, cString_clean hclean]

/-- **A message without a line**: what `vsnprintf` stores of it, inside the buffer. -/
theorem debugVprint_spec (before : Nat → BitVec 8) {format : List (BitVec 8)} {args : List Arg}
    {ps : List (Piece (BitVec 8))} (hps : pieces (cString format) args = some ps)
    (hnul : 0#8 ∉ whole ps) :
    let text := fit (debugBufferSize - 2) ps
    vsnprintfStores (debugBufferSize - 1) format args
        = some (row 0 (text ++ [0#8]), text.length) ∧
      debugVprint before format args
        = some ⟨row 0 (text ++ [0#8]) ++ [(text.length, 0#8)], some text⟩ ∧
      ∀ st ∈ row 0 (text ++ [0#8]) ++ [(text.length, 0#8)], st.1 < 1024 := by
  intro text
  have hlen : text.length ≤ debugBufferSize - 2 := fit_length_le _ _
  have hstores : vsnprintfStores (debugBufferSize - 1) format args
      = some (row 0 (text ++ [0#8]), text.length) := vsnprintfStores_fit (by decide) hps
  have hcount : (BitVec.ofNat 32 text.length).toInt = text.length := count_toInt (by
    unfold debugBufferSize at hlen
    unfold intMax
    omega)
  have hclamp : (if (text.length : Int) ≥ debugBufferSize then (debugBufferSize : Int) - 1
      else text.length) = text.length := if_neg (by
    unfold debugBufferSize at hlen ⊢
    omega)
  have hstring : stringIn (replay before (row 0 (text ++ [0#8]) ++ [(text.length, 0#8)]))
      debugBufferSize = text := by
    have hclean : 0#8 ∉ text ++ [] := by
      rw [List.append_nil]
      exact fun h => hnul (mem_fit h)
    have hstring := @stringIn_rows before text [] debugBufferSize hclean (by
      rw [List.append_nil]
      unfold debugBufferSize at hlen ⊢
      omega)
    rw [row_append, Nat.zero_add]
    rwa [List.append_nil] at hstring
  refine ⟨hstores, ?_, ?_⟩
  · unfold debugVprint
    rw [hstores]
    dsimp only [Option.bind_eq_bind, Option.bind_some]
    rw [hcount, if_neg (Int.not_lt.mpr (Int.natCast_nonneg _)), hclamp, Int.toNat_natCast, hstring]
  · intro st hst
    unfold debugBufferSize at hlen
    rcases List.mem_append.mp hst with hst | hst
    · have := mem_row hst
      rw [List.length_append, List.length_singleton] at this
      omega
    · rw [List.mem_singleton.mp hst]
      omega

end RedOS
