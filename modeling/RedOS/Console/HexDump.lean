/-
# `RedOS.Console.HexDump` — `debug_hex_dump`

Sixteen bytes make a line, put together by chained `snprintf` calls at
`line + line_pos`; the lengths these return are added up in `line_pos`, and what
is left of the 128 bytes is an unsigned difference.  It never wraps
(`hexLine_spec`): the calls return at most what they were given, so `line_pos`
stays below 128.

The formats are another matter.  `%08x` and `%02x` are no directives of
`vsnprintf`, which stores them as they stand, so no line shows an address or a
byte (`hex_dump_shows`).
-/
import RedOS.Console.Lines

namespace RedOS

open Fitting Numeral StoreLog

/-- `line`, `line_pos` and the `snprintf` calls made so far: where each wrote and
what size it was given. -/
structure Line where
  stores : Log (BitVec 8)
  linePos : BitVec 32
  calls : List (Nat × Nat)

/-- `line_pos += snprintf(line + line_pos, sizeof(line) - line_pos, format, …)` -/
def Line.print (l : Line) (call : List (BitVec 8) × List Arg) : Option Line := do
  let size := (128#32 - l.linePos).toNat
  let (stores, count) ← vsnprintfStores size call.1 call.2
  some {
    stores := l.stores ++ offset l.linePos.toNat stores
    linePos := l.linePos + BitVec.ofNat 32 count
    calls := l.calls ++ [(l.linePos.toNat, size)] }

/-- The calls for the hexadecimal columns. -/
def hexColumns (data : List (BitVec 8)) (i : Nat) : List (List (BitVec 8) × List Arg) :=
  (List.range 16).flatMap fun j =>
    (match data[i + j]? with
      | some b => [(chars "%02x ", [.word (b.setWidth 32)])]
      | none => [(chars "   ", [])]) ++
    -- Add extra space in the middle
    if j = 7 then [(chars " ", [])] else []

/-- The calls for the characters. -/
def hexCharacters (data : List (BitVec 8)) (i : Nat) : List (List (BitVec 8) × List Arg) :=
  (List.range 16).flatMap fun j =>
    match data[i + j]? with
    | some c =>
        if 32 ≤ c.toNat ∧ c.toNat ≤ 126 then [(chars "%c", [.word (c.setWidth 32)])]
        else [(chars ".", [])]
    | none => []

/-- The calls of one line, in order; the data is at address `a`. -/
def hexCalls (a : BitVec 32) (data : List (BitVec 8)) (i : Nat) :
    List (List (BitVec 8) × List Arg) :=
  [(chars "%08x: ", [.word (a + BitVec.ofNat 32 i)])] ++ hexColumns data i ++
    [(chars "| ", [])] ++ hexCharacters data i ++ [(chars " |", [])]

/-- The line of index `i`. -/
def hexLine (a : BitVec 32) (data : List (BitVec 8)) (i : Nat) : Option Line :=
  (hexCalls a data i).foldlM Line.print ⟨[], 0#32, []⟩

/-- `debug_hex_dump` for at most `n` lines: the strings passed to `debug_write`.
The index wraps; each `line` holds anything before, as does `debug_buffer`. -/
def HexDump.debugHexDump (line : BitVec 32 → Nat → BitVec 8) (a : BitVec 32) (data : List (BitVec 8)) :
    Nat → (Nat → BitVec 8) → BitVec 32 → Option (List (List (BitVec 8)))
  | 0, _, _ => none
  | n + 1, debugBuffer, i =>
      if i.toNat < data.length then do
        let l ← hexLine a data i.toNat
        -- Output the full line
        let handed ← debugVprint debugBuffer (chars "%s\r\n")
          [.str (some (stringIn (replay (line i) l.stores) 128))]
        let rest ← HexDump.debugHexDump line a data n (replay debugBuffer handed.stores) (i + 16#32)
        some (handed.written.toList ++ rest)
      else some []

/-! ## One line -/

/-- The line holds `text` and its NUL, every store was inside it and every call
was given the room that was left. -/
structure Line.Holds (l : Line) (text : List (BitVec 8)) : Prop where
  linePos : l.linePos = BitVec.ofNat 32 text.length
  short : text.length < 128
  content : ∀ before, read (replay before l.stores) 0 text.length = text
  nul : text ≠ [] → ∀ before, replay before l.stores text.length = 0#8
  stores : ∀ st ∈ l.stores, st.1 < 128
  calls : ∀ c ∈ l.calls, 0 < c.2 ∧ c.1 + c.2 = 128

theorem Line.holds_start : (⟨[], 0#32, []⟩ : Line).Holds [] where
  linePos := rfl
  short := by decide
  content _ := rfl
  nul h := absurd rfl h
  stores _ h := nomatch h
  calls _ h := nomatch h

/-- One call: what fits of its text is stored behind the line. -/
theorem Line.Holds.print {l : Line} {text : List (BitVec 8)} (h : l.Holds text)
    {call : List (BitVec 8) × List Arg} {ps : List (Piece (BitVec 8))}
    (hps : pieces (cString call.1) call.2 = some ps) :
    ∃ l', l.print call = some l' ∧ l'.Holds (text ++ fit (127 - text.length) ps) := by
  have hshort := h.short
  have hsize : (128#32 - l.linePos).toNat = 128 - text.length := by
    rw [h.linePos]
    bv_omega
  have hpos : l.linePos.toNat = text.length := by
    rw [h.linePos, BitVec.toNat_ofNat, Nat.mod_eq_of_lt (by omega)]
  have hroom : 1 ≤ 128 - text.length := by omega
  have hstores := vsnprintfStores_fit hroom hps
  rw [show 128 - text.length - 1 = 127 - text.length by omega] at hstores
  have hlen := fit_length_le (127 - text.length) ps
  generalize fit (127 - text.length) ps = more at hstores hlen ⊢
  have hcall : l.print call = some {
      stores := l.stores ++ row text.length (more ++ [0#8])
      linePos := l.linePos + BitVec.ofNat 32 more.length
      calls := l.calls ++ [(text.length, 128 - text.length)] } := by
    unfold Line.print
    dsimp only
    rw [hsize, hpos, hstores]
    dsimp only [Option.bind_eq_bind, Option.bind_some]
    rw [offset_row, Nat.add_zero]
  refine ⟨_, hcall, ?_, ?_, ?_, ?_, ?_, ?_⟩
  · rw [h.linePos, List.length_append]
    exact (BitVec.ofNat_add _ _).symm
  · rw [List.length_append]
    omega
  · intro before
    have hread := read_rows before more [] (h.content before) fun _ hst => nomatch hst
    rw [List.append_nil] at hread
    rw [row_append, ← List.append_assoc, replay_append, read_before, hread]
    rw [List.length_append, Nat.zero_add]
  · intro _ before
    rw [row_append, ← List.append_assoc, replay_append, List.length_append]
    exact Function.update_self _ _ _
  · intro st hst
    rcases List.mem_append.mp hst with hst | hst
    · exact h.stores st hst
    · have := mem_row hst
      rw [List.length_append, List.length_singleton] at this
      omega
  · intro c hc
    rcases List.mem_append.mp hc with hc | hc
    · exact h.calls c hc
    · rw [List.mem_singleton.mp hc]
      exact ⟨by simp only; omega, by simp only; omega⟩

/-- The pieces of a call. -/
def callPieces (call : List (BitVec 8) × List Arg) : List (Piece (BitVec 8)) :=
  (pieces (cString call.1) call.2).getD []

/-- Calls one after the other: the line holds what fits of all their pieces. -/
theorem Line.Holds.prints : ∀ {calls : List (List (BitVec 8) × List Arg)} {l : Line}
    {text : List (BitVec 8)}, l.Holds text →
    (∀ call ∈ calls, vaccepts (cString call.1) call.2 = true) →
    ∃ l', calls.foldlM Line.print l = some l' ∧
      l'.Holds (text ++ fit (127 - text.length) (calls.flatMap callPieces))
  | [], l, text, h, _ => by
      rw [List.flatMap_nil, fit, List.append_nil]
      exact ⟨l, rfl, h⟩
  | call :: calls, l, text, h, haccept => by
      obtain ⟨ps, hps⟩ := pieces_of_vaccepts _ _ (haccept call List.mem_cons_self)
      obtain ⟨l₁, hcall, h₁⟩ := h.print hps
      obtain ⟨l', hcalls, h'⟩ := h₁.prints fun c hc => haccept c (List.mem_cons_of_mem _ hc)
      refine ⟨l', ?_, ?_⟩
      · rw [List.foldlM_cons, hcall]
        exact hcalls
      · have hpieces : callPieces call = ps := by rw [callPieces, hps, Option.getD_some]
        rwa [List.flatMap_cons, hpieces, fit_append, ← List.append_assoc, Nat.sub_sub,
          ← List.length_append]

theorem hexCalls_vaccepts (a : BitVec 32) (data : List (BitVec 8)) (i : Nat) :
    ∀ call ∈ hexCalls a data i, vaccepts (cString call.1) call.2 = true := by
  have hword : ∀ (format : List (BitVec 8)) (w : BitVec 32),
      vaccepts (cString format) [.word 0#32] = true → vaccepts (cString format) [.word w] = true :=
    fun format w h => (vaccepts_kind (cString format) [.word w]).symm.trans h
  intro call hcall
  unfold hexCalls at hcall
  simp only [List.mem_append, List.mem_singleton] at hcall
  rcases hcall with (((rfl | hcolumn) | rfl) | hchar) | rfl
  · exact hword (chars "%08x: ") _ (by decide +kernel)
  · obtain ⟨j, -, hj⟩ := List.mem_flatMap.mp hcolumn
    rcases List.mem_append.mp hj with hj | hj
    · split at hj
      · rw [List.mem_singleton.mp hj]
        exact hword (chars "%02x ") _ (by decide +kernel)
      · rw [List.mem_singleton.mp hj]
        decide +kernel
    · split at hj
      · rw [List.mem_singleton.mp hj]
        decide +kernel
      · exact nomatch hj
  · decide +kernel
  · obtain ⟨j, -, hj⟩ := List.mem_flatMap.mp hchar
    split at hj
    · split at hj
      · rw [List.mem_singleton.mp hj]
        exact hword (chars "%c") _ (by decide +kernel)
      · rw [List.mem_singleton.mp hj]
        decide +kernel
    · exact nomatch hj
  · decide +kernel

/-! ## Its text -/

/-- What the hexadecimal columns show. -/
def columnsText (data : List (BitVec 8)) (i : Nat) : List (BitVec 8) :=
  (List.range 16).flatMap fun j =>
    (match data[i + j]? with
      | some _ => chars "%02x "
      | none => chars "   ") ++
    if j = 7 then chars " " else []

/-- What the columns of characters show. -/
def charactersText (data : List (BitVec 8)) (i : Nat) : List (BitVec 8) :=
  (List.range 16).flatMap fun j =>
    match data[i + j]? with
    | some c => if 32 ≤ c.toNat ∧ c.toNat ≤ 126 then [c] else chars "."
    | none => []

/-- What a line shows. -/
def hexText (data : List (BitVec 8)) (i : Nat) : List (BitVec 8) :=
  chars "%08x: " ++ columnsText data i ++ chars "| " ++ charactersText data i ++ chars " |"

theorem whole_flatMap {α β : Type} (f : β → List (Piece α)) (l : List β) :
    whole (l.flatMap f) = l.flatMap fun b => whole (f b) := List.flatMap_assoc

theorem whole_hexCalls (a : BitVec 32) (data : List (BitVec 8)) (i : Nat) :
    whole ((hexCalls a data i).flatMap callPieces) = hexText data i := by
  have haddr : ∀ w, whole (callPieces (chars "%08x: ", [.word w])) = chars "%08x: " := fun _ => rfl
  have hbyte : ∀ w, whole (callPieces (chars "%02x ", [.word w])) = chars "%02x " := fun _ => rfl
  have hchar : ∀ w : BitVec 32, whole (callPieces (chars "%c", [.word w])) = [w.setWidth 8] :=
    fun _ => rfl
  have hcolumns : (hexColumns data i).flatMap (fun call => whole (callPieces call))
      = columnsText data i := by
    rw [hexColumns, columnsText, List.flatMap_assoc]
    refine List.flatMap_congr ?_
    intro j _
    rw [List.flatMap_append]
    refine congr (congrArg _ ?_) ?_
    · cases data[i + j]? with
      | some b => exact (List.flatMap_singleton _ _).trans (hbyte _)
      | none => rfl
    · split <;> rfl
  have hcharacters : (hexCharacters data i).flatMap (fun call => whole (callPieces call))
      = charactersText data i := by
    rw [hexCharacters, charactersText, List.flatMap_assoc]
    refine List.flatMap_congr ?_
    intro j _
    cases data[i + j]? with
    | none => rfl
    | some c =>
        dsimp only
        split
        · rw [List.flatMap_singleton, hchar, BitVec.setWidth_setWidth_of_le _ (by decide),
            BitVec.setWidth_eq]
        · rfl
  rw [whole_flatMap, hexCalls, List.flatMap_append, List.flatMap_append, List.flatMap_append,
    List.flatMap_append, hcolumns, hcharacters, List.flatMap_singleton, haddr]
  rfl

theorem hexText_length (data : List (BitVec 8)) (i : Nat) : (hexText data i).length ≤ 122 := by
  have hflat : ∀ (f : Nat → List (BitVec 8)) (b n : Nat), (∀ j, (f j).length ≤ b) →
      ((List.range n).flatMap f).length ≤ n * b := by
    intro f b n hf
    induction n with
    | zero => exact Nat.zero_le _
    | succ n ih =>
        rw [List.range_succ, List.flatMap_append, List.length_append, List.flatMap_singleton,
          Nat.succ_mul]
        exact Nat.add_le_add ih (hf n)
  have hcolumns : (columnsText data i).length ≤ 16 * 6 := by
    refine hflat _ 6 16 ?_
    intro j
    rw [List.length_append]
    show _ ≤ 5 + 1
    refine Nat.add_le_add ?_ ?_
    · cases data[i + j]? with
      | some _ => exact (by decide : (chars "%02x ").length ≤ 5)
      | none => decide
    · split <;> decide
  have hcharacters : (charactersText data i).length ≤ 16 * 1 := by
    refine hflat _ 1 16 ?_
    intro j
    cases data[i + j]? with
    | none => decide
    | some c =>
        dsimp only
        split
        · exact Nat.le_refl 1
        · decide
  rw [hexText, List.length_append, List.length_append, List.length_append, List.length_append]
  have hends : (chars "%08x: ").length = 6 ∧ (chars "| ").length = 2 ∧ (chars " |").length = 2 := by
    decide
  omega

theorem hexText_clean (data : List (BitVec 8)) (i : Nat) : 0#8 ∉ hexText data i := by
  have hflat : ∀ f : Nat → List (BitVec 8), (∀ j, 0#8 ∉ f j) → 0#8 ∉ (List.range 16).flatMap f := by
    intro f hf h
    obtain ⟨j, -, hj⟩ := List.mem_flatMap.mp h
    exact hf j hj
  have hcolumns : 0#8 ∉ columnsText data i := by
    refine hflat _ ?_
    intro j h
    rcases List.mem_append.mp h with h | h
    · cases hd : data[i + j]? with
      | some _ =>
          rw [hd] at h
          exact absurd h (by decide : 0#8 ∉ chars "%02x ")
      | none =>
          rw [hd] at h
          exact absurd h (by decide : 0#8 ∉ chars "   ")
    · split at h <;> exact absurd h (by decide)
  have hcharacters : 0#8 ∉ charactersText data i := by
    refine hflat _ ?_
    intro j h
    cases hd : data[i + j]? with
    | none =>
        rw [hd] at h
        exact nomatch h
    | some c =>
        rw [hd] at h
        dsimp only at h
        split at h
        next hprint =>
          rw [← List.mem_singleton.mp h] at hprint
          exact absurd hprint (by decide)
        next => exact absurd h (by decide)
  rw [hexText, List.mem_append, List.mem_append, List.mem_append, List.mem_append]
  rintro ((((h | h) | h) | h) | h)
  · exact absurd h (by decide)
  · exact hcolumns h
  · exact absurd h (by decide)
  · exact hcharacters h
  · exact absurd h (by decide)

/-- **Every call of a line has room**, the line stays inside its 128 bytes, and
this is what it holds. -/
theorem hexLine_spec (a : BitVec 32) (data : List (BitVec 8)) (i : Nat) :
    ∃ l, hexLine a data i = some l ∧ (∀ c ∈ l.calls, 0 < c.2 ∧ c.1 + c.2 = 128) ∧
      (∀ st ∈ l.stores, st.1 < 128) ∧
      ∀ before, stringIn (replay before l.stores) 128 = hexText data i := by
  obtain ⟨l, hl, hholds⟩ := Line.holds_start.prints (hexCalls_vaccepts a data i)
  have hlen := hexText_length data i
  have hwhole := whole_hexCalls a data i
  have htext : [] ++ fit (127 - ([] : List (BitVec 8)).length) ((hexCalls a data i).flatMap callPieces)
      = hexText data i := by
    rw [List.nil_append, ← hwhole]
    refine fit_eq_whole ?_
    rw [hwhole, List.length_nil]
    omega
  rw [htext] at hholds
  refine ⟨l, hl, hholds.calls, hholds.stores, ?_⟩
  intro before
  refine stringIn_eq ?_ (hexText_clean data i) (by omega)
  rw [read_add, hholds.content, Nat.zero_add]
  exact congrArg (_ ++ [·]) (hholds.nul (by
    unfold hexText
    simp [chars]) before)

/-! ## The dump -/

/-- What `debug_print("%s\r\n", line)` hands on. -/
theorem debugVprint_line (before : Nat → BitVec 8) {text : List (BitVec 8)} (htext : 0#8 ∉ text)
    (hlen : text.length ≤ 122) :
    ∃ stores, debugVprint before (chars "%s\r\n") [.str (some text)]
      = some ⟨stores, some (text ++ [13#8, 10#8])⟩ := by
  have hpieces : pieces (cString (chars "%s\r\n")) [.str (some text)]
      = some [plain (cString text), plain [13#8], plain [10#8]] := rfl
  have hwhole : whole [plain (cString text), plain [13#8], plain [10#8]] = text ++ [13#8, 10#8] := by
    rw [cString_clean htext]
    rfl
  have hclean : 0#8 ∉ text ++ [13#8, 10#8] := fun h => by
    rcases List.mem_append.mp h with h | h
    · exact htext h
    · exact absurd h (by decide)
  have hfit : fit (debugBufferSize - 2) [plain (cString text), plain [13#8], plain [10#8]]
      = text ++ [13#8, 10#8] := by
    rw [fit_eq_whole, hwhole]
    rw [hwhole, List.length_append]
    unfold debugBufferSize
    show _ + 2 ≤ 1022
    omega
  obtain ⟨-, hcall, -⟩ := debugVprint_spec before hpieces (hwhole ▸ hclean)
  rw [hfit] at hcall
  exact ⟨_, hcall⟩

/-- One pass of the loop. -/
theorem debugHexDump_step (line : BitVec 32 → Nat → BitVec 8) (a : BitVec 32)
    {data : List (BitVec 8)} (n : Nat) (debugBuffer : Nat → BitVec 8) {i : BitVec 32}
    (hi : i.toNat < data.length) : ∃ debugBuffer',
      HexDump.debugHexDump line a data (n + 1) debugBuffer i
        = (HexDump.debugHexDump line a data n debugBuffer' (i + 16#32)).map
            ((hexText data i.toNat ++ [13#8, 10#8]) :: ·) := by
  obtain ⟨l, hl, -, -, hstring⟩ := hexLine_spec a data i.toNat
  obtain ⟨stores, hprint⟩ := debugVprint_line debugBuffer (hexText_clean data i.toNat)
    (hexText_length data i.toNat)
  refine ⟨replay debugBuffer stores, ?_⟩
  conv_lhs => unfold HexDump.debugHexDump
  rw [if_pos hi, hl]
  dsimp only [Option.bind_eq_bind, Option.bind_some]
  rw [hstring, hprint]
  dsimp only [Option.bind_some]
  cases HexDump.debugHexDump line a data n (replay debugBuffer stores) (i + 16#32) with
  | none => rfl
  | some rest => rfl

/-- The lines from index `16 * k` on, of a buffer the index does not wrap in. -/
theorem debugHexDump_eq (line : BitVec 32 → Nat → BitVec 8) (a : BitVec 32) {data : List (BitVec 8)}
    (hdata : data.length + 16 ≤ 2 ^ 32) : ∀ (n k : Nat) (debugBuffer : Nat → BitVec 8),
      k + n = (data.length + 15) / 16 →
      HexDump.debugHexDump line a data (n + 1) debugBuffer (BitVec.ofNat 32 (16 * k))
        = some ((List.range n).map fun m => hexText data (16 * (k + m)) ++ [13#8, 10#8])
  | 0, k, debugBuffer, hk => by
      have hi : (BitVec.ofNat 32 (16 * k)).toNat = 16 * k := by
        rw [BitVec.toNat_ofNat, Nat.mod_eq_of_lt (by omega)]
      rw [HexDump.debugHexDump, if_neg (by omega)]
      rfl
  | n + 1, k, debugBuffer, hk => by
      have hi : (BitVec.ofNat 32 (16 * k)).toNat = 16 * k := by
        rw [BitVec.toNat_ofNat, Nat.mod_eq_of_lt (by omega)]
      have hlt : (BitVec.ofNat 32 (16 * k)).toNat < data.length := by omega
      obtain ⟨debugBuffer', hstep⟩ := debugHexDump_step line a (n + 1) debugBuffer hlt
      have hnext : BitVec.ofNat 32 (16 * k) + 16#32 = BitVec.ofNat 32 (16 * (k + 1)) := by
        rw [Nat.mul_add]
        exact (BitVec.ofNat_add _ _).symm
      rw [hstep, hnext, debugHexDump_eq line a hdata n (k + 1) debugBuffer' (by omega), hi,
        List.range_succ_eq_map, List.map_cons, List.map_map, Option.map_some]
      refine congrArg (fun rest => some (_ :: rest)) (List.map_congr_left ?_)
      intro m _
      simp only [Function.comp, Nat.succ_eq_add_one]
      rw [show k + 1 + m = k + (m + 1) by omega]

/-- Where the index wraps the loop does not end. -/
theorem debugHexDump_wraps (line : BitVec 32 → Nat → BitVec 8) (a : BitVec 32)
    {data : List (BitVec 8)} (hdata : 2 ^ 32 < data.length + 16) : ∀ (n : Nat)
      (debugBuffer : Nat → BitVec 8) (i : BitVec 32), i.toNat % 16 = 0 →
      HexDump.debugHexDump line a data n debugBuffer i = none
  | 0, _, _, _ => rfl
  | n + 1, debugBuffer, i, hi => by
      have hlt : i.toNat < data.length := by
        have := i.isLt
        omega
      obtain ⟨debugBuffer', hstep⟩ := debugHexDump_step line a n debugBuffer hlt
      rw [hstep, debugHexDump_wraps line a hdata n debugBuffer' (i + 16#32) (by bv_omega),
        Option.map_none]

/-! ## What a dump is to show -/

/-- The digit a character stands for, in either case. -/
def hexValue (b : BitVec 8) : Option Nat :=
  if 48 ≤ b.toNat ∧ b.toNat < 58 then some (b.toNat - 48)
  else if 97 ≤ b.toNat ∧ b.toNat < 103 then some (b.toNat - 87)
  else if 65 ≤ b.toNat ∧ b.toNat < 71 then some (b.toNat - 55)
  else none

/-- A line that shows its address, its bytes in columns of two digits and as
characters; the address may have a `0x`. -/
def LineShows (addr : Nat) (bytes line : List (BitVec 8)) : Prop :=
  ∃ mark address, (mark = [] ∨ mark = chars "0x") ∧ address ≠ [] ∧
    readDigits hexValue 16 address = some addr ∧
    line = mark ++ address ++ chars ": " ++
      ((List.range 16).flatMap fun j =>
        (match bytes[j]? with
          | some b => [lowerDigit (b.toNat / 16), lowerDigit (b.toNat % 16)] ++ chars " "
          | none => chars "   ") ++
        if j = 7 then chars " " else []) ++
      chars "| " ++ charactersText bytes 0 ++ chars " |" ++ [13#8, 10#8]

/-- One line for every sixteen bytes. -/
def Shows (a : BitVec 32) (data : List (BitVec 8)) (lines : List (List (BitVec 8))) : Prop :=
  lines.length = (data.length + 15) / 16 ∧ ∀ k (hk : k < lines.length),
    LineShows ((a.toNat + 16 * k) % 2 ^ 32) ((data.drop (16 * k)).take 16) lines[k]

/-- A line that begins with `%` shows no address. -/
theorem not_lineShows (addr : Nat) (bytes rest : List (BitVec 8)) :
    ¬ LineShows addr bytes (37#8 :: rest) := by
  rintro ⟨mark, address, hmark, hne, hread, hline⟩
  rcases hmark with rfl | rfl
  · obtain ⟨b, digits, rfl⟩ := List.exists_cons_of_ne_nil hne
    have hb : 37#8 = b := (List.cons.inj hline).1
    subst hb
    exact nomatch hread
  · exact absurd (List.cons.inj hline).1 (by decide)

theorem hexText_percent (data : List (BitVec 8)) (i : Nat) :
    ∃ rest, hexText data i ++ [13#8, 10#8] = 37#8 :: rest := ⟨_, rfl⟩

/-- No dump of one byte or more shows the bytes. -/
theorem not_shows {line : BitVec 32 → Nat → BitVec 8} {debugBuffer : Nat → BitVec 8} {a : BitVec 32}
    {data : List (BitVec 8)} (hdata : data ≠ []) {n : Nat} {lines : List (List (BitVec 8))}
    (h : HexDump.debugHexDump line a data n debugBuffer 0#32 = some lines) : ¬ Shows a data lines := by
  rintro ⟨-, hlines⟩
  cases n with
  | zero => exact nomatch h
  | succ n =>
      have hlt : (0#32).toNat < data.length := List.length_pos_of_ne_nil hdata
      obtain ⟨_, hstep⟩ := debugHexDump_step line a n debugBuffer hlt
      rw [hstep] at h
      obtain ⟨rest, -, rfl⟩ := Option.map_eq_some_iff.mp h
      obtain ⟨tail, htail⟩ := hexText_percent data (0#32).toNat
      have hfirst := hlines 0 (Nat.zero_lt_succ _)
      rw [List.getElem_cons_zero, htail] at hfirst
      exact not_lineShows _ _ _ hfirst

/-- **A hex dump shows the bytes** of the empty buffer only. -/
theorem hex_dump_shows (line : BitVec 32 → Nat → BitVec 8) (debugBuffer : Nat → BitVec 8)
    (a : BitVec 32) (data : List (BitVec 8)) :
    (∃ n lines, HexDump.debugHexDump line a data n debugBuffer 0#32 = some lines ∧ Shows a data lines) ↔
      data = [] := by
  constructor
  · rintro ⟨n, lines, h, hshows⟩
    by_contra hdata
    exact not_shows hdata h hshows
  · rintro rfl
    refine ⟨1, [], ?_, rfl, fun k hk => absurd hk (Nat.not_lt_zero k)⟩
    rw [HexDump.debugHexDump]
    rfl

/-- The dump of one byte. -/
theorem debugHexDump_one (a : BitVec 32) (b : BitVec 8) :
    HexDump.debugHexDump (fun _ _ => 0#8) a [b] 2 (fun _ => 0#8) 0#32
      = some [hexText [b] 0 ++ [13#8, 10#8]] := by
  have hlen : [b].length + 16 ≤ 2 ^ 32 := by
    show 1 + 16 ≤ 2 ^ 32
    decide
  exact debugHexDump_eq (fun _ _ => 0#8) a hlen 1 0 (fun _ => 0#8) (by rw [List.length_singleton])

/-- Two buffers with one dump, which has the formats in it. -/
theorem dump_hides_bytes :
    HexDump.debugHexDump (fun _ _ => 0#8) 0x1000#32 [0xAB#8] 2 (fun _ => 0#8) 0#32
        = some [chars "%08x: %02x                                               | . |" ++ [13#8, 10#8]] ∧
      HexDump.debugHexDump (fun _ _ => 0#8) 0x1000#32 [0xCD#8] 2 (fun _ => 0#8) 0#32
        = some [chars "%08x: %02x                                               | . |" ++ [13#8, 10#8]] ∧
      ¬ ∃ n lines, HexDump.debugHexDump (fun _ _ => 0#8) 0x1000#32 [0xAB#8] n (fun _ => 0#8) 0#32
        = some lines ∧ Shows 0x1000#32 [0xAB#8] lines := by
  have htext : hexText [0xAB#8] 0 = chars "%08x: %02x                                               | . |" ∧
      hexText [0xCD#8] 0 = chars "%08x: %02x                                               | . |" := by
    decide +kernel
  refine ⟨?_, ?_, fun ⟨n, lines, h, hshows⟩ => not_shows (List.cons_ne_nil _ []) h hshows⟩
  · rw [debugHexDump_one, htext.1]
  · rw [debugHexDump_one, htext.2]

/-! ## Frames -/

/-- **Every line is framed and stays in its buffer**: a message of a level, a
message without one, and each line of a dump. -/
theorem debug_lines_framed (before : Nat → BitVec 8) {format : List (BitVec 8)} {args : List Arg}
    {ps : List (Piece (BitVec 8))} (hps : pieces (cString format) args = some ps)
    (hnul : 0#8 ∉ whole ps) :
    (∀ debugLevel level : Int, level ≤ debugLevel → ∃ text stores,
      vsnprintfStores (1024 - (levelPrefix level).length - 2) format args
          = some (row 0 (text ++ [0#8]), text.length) ∧
        debugFormatAndWrite before debugLevel level format args
          = some ⟨stores ++ [((levelPrefix level).length + text.length + 2, 0#8)],
            some (levelPrefix level ++ text ++ [13#8, 10#8])⟩ ∧
        (levelPrefix level).length + text.length + 2 ≤ 1023 ∧ ∀ st ∈ stores, st.1 < 1024) ∧
    (∃ text stores,
      vsnprintfStores 1023 format args = some (row 0 (text ++ [0#8]), text.length) ∧
        debugVprint before format args = some ⟨stores, some text⟩ ∧ ∀ st ∈ stores, st.1 < 1024) ∧
    ∀ a data i, ∃ l, hexLine a data i = some l ∧ (∀ c ∈ l.calls, 0 < c.2 ∧ c.1 + c.2 = 128) ∧
      ∀ st ∈ l.stores, st.1 < 128 := by
  refine ⟨?_, ?_, ?_⟩
  · intro debugLevel level hlevel
    obtain ⟨hstored, stores, hcall, hlast, hinside⟩ :=
      debugFormatAndWrite_spec before hlevel hps hnul
    exact ⟨_, stores, hstored, hcall, hlast, hinside⟩
  · obtain ⟨hstored, hcall, hinside⟩ := debugVprint_spec before hps hnul
    exact ⟨_, _, hstored, hcall, hinside⟩
  · intro a data i
    obtain ⟨l, hl, hcalls, hstores, -⟩ := hexLine_spec a data i
    exact ⟨l, hl, hcalls, hstores⟩

theorem debug_lines_framed_small : ∃ text stores,
    debugFormatAndWrite (fun _ => 0#8) 3 (-1) (chars "%s: %d") [.str none, .word 7#32]
      = some ⟨stores ++ [(text.length + 2, 0#8)], some (text ++ [13#8, 10#8])⟩ := by
  have hps : pieces (cString (chars "%s: %d")) [.str none, .word 7#32]
      = some [plain (chars "(null)"), plain [58#8], plain [32#8], plain [55#8]] := rfl
  obtain ⟨text, stores, -, hcall, -⟩ := (debug_lines_framed (fun _ => 0#8) hps (by decide +kernel)).1
    3 (-1) (by decide)
  refine ⟨text, stores, hcall.trans ?_⟩
  rw [show levelPrefix (-1) = [] from rfl, List.nil_append, List.length_nil, Nat.zero_add]

end RedOS
