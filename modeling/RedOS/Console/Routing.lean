/-
# `RedOS.Console.Routing` — where a debug message ends up

Two modules decide about COM1: `debug_write` by the target and by the terminal's
mirroring flag, `terminal_putchar` by its own flag.  For a message without
control bytes the outcome is a small table, in the state the message finds:

    target           mirroring off           mirroring on
    VGA              screen                  screen and COM1
    SERIAL           COM1                    nothing
    VGA and SERIAL   screen and COM1         screen and COM1, by the mirror
    neither          nothing                 nothing

so a message reaches what its target names, once, except in the two cases of
one target with the mirroring on.

    log_shown, log_sent    the table
    log_displays           what was put on the screen is still there on return
    message_routed_iff     the exact condition
-/
import RedOS.Console.Debug
import RedOS.Console.Sheet

namespace RedOS

open ByteMemory ScrollPage

/-! ## What a trace shows -/

/-- The character of a cell stored by `terminal_putentryat`. -/
def Event.char? : Event → Option (BitVec 8)
  | .cell _ entry => some (entry.setWidth 8)
  | .byte _ | .com1 _ | .load _ _ _ | .printf _ _ | .ret => none

def Event.com1? : Event → Option (BitVec 8)
  | .com1 b => some b
  | .cell _ _ | .byte _ | .load _ _ _ | .printf _ _ | .ret => none

/-- A byte that `terminal_putchar` draws and that ends no string. -/
def Plain (b : BitVec 8) : Prop := b ≠ 0#8 ∧ b ≠ 9#8 ∧ b ≠ 10#8 ∧ b ≠ 13#8

theorem vgaEntry_char (c color : BitVec 8) : (vgaEntry c color).setWidth 8 = c := by
  unfold vgaEntry
  apply BitVec.eq_of_getLsbD_eq
  intro i hi
  simp [hi]

namespace Console

/-- The characters drawn so far, in order. -/
def shown (k : Console) : List (BitVec 8) := k.trace.filterMap Event.char?

/-- The bytes sent to COM1 so far. -/
def sent (k : Console) : List (BitVec 8) := k.trace.filterMap Event.com1?

/-- Bytes stored by `scroll` neither draw nor send. -/
theorem quiet_of_stores {k k' : Console} (h : Emits (fun e => ∃ q, e = .byte q) k k') :
    k'.shown = k.shown ∧ k'.sent = k.sent := by
  obtain ⟨es, ht, hes⟩ := h
  have hnone : ∀ f : Event → Option (BitVec 8), (∀ q, f (.byte q) = none) →
      es.filterMap f = [] := by
    intro f hf
    rw [List.filterMap_eq_nil_iff]
    intro e he
    obtain ⟨q, rfl⟩ := hes e he
    exact hf q
  unfold shown sent
  rw [ht, List.filterMap_append, List.filterMap_append, hnone _ fun _ => rfl,
    hnone _ fun _ => rfl, List.append_nil, List.append_nil]
  exact ⟨rfl, rfl⟩

theorem scrollCells_stores (k : Console) : Emits (fun e => ∃ q, e = .byte q) k k.scrollCells := by
  refine ((memmove_emits k.buffer _ (by decide) k).mono ?_).trans
    ((memset_emits _ 0#8 (by decide) _).mono ?_)
  · rintro _ ⟨q, rfl, -⟩
    exact ⟨q, rfl⟩
  · rintro _ ⟨q, rfl, -⟩
    exact ⟨q, rfl⟩

theorem scroll_stores (k : Console) : Emits (fun e => ∃ q, e = .byte q) k k.scroll := by
  have htrace : k.scroll.trace = k.scrollCells.trace := by rw [scroll_eq]
  exact (scrollCells_stores k).trans (.of_trace_eq htrace)

theorem nextRow_quiet (k : Console) : k.nextRow.shown = k.shown ∧ k.nextRow.sent = k.sent := by
  unfold nextRow
  dsimp only
  split
  · exact quiet_of_stores (scroll_stores { k with column := 0, row := k.row + 1 })
  · exact ⟨rfl, rfl⟩

theorem advance_quiet (n : Nat) (k : Console) :
    (k.advance n).shown = k.shown ∧ (k.advance n).sent = k.sent := by
  unfold advance
  split
  · exact nextRow_quiet _
  · exact ⟨rfl, rfl⟩

theorem serialWrite_sent (bytes : List (BitVec 8)) (k : Console) :
    (bytes.foldl (fun k b => k.serialCom1WriteByte b) k).shown = k.shown ∧
      (bytes.foldl (fun k b => k.serialCom1WriteByte b) k).sent = k.sent ++ bytes := by
  have hnone : (bytes.map Event.com1).filterMap Event.char? = [] := by
    rw [List.filterMap_map, List.filterMap_eq_nil_iff]
    exact fun _ _ => rfl
  have hsome : (bytes.map Event.com1).filterMap Event.com1? = bytes := by
    rw [List.filterMap_map]
    exact List.filterMap_some
  rw [serialWrite_eq]
  unfold shown sent
  rw [List.filterMap_append, List.filterMap_append, hnone, hsome, List.append_nil]
  exact ⟨rfl, rfl⟩

/-- The mirror sends where it is on, and draws nothing. -/
theorem mirror_sent (bytes : List (BitVec 8)) (k : Console) :
    (k.mirror bytes).shown = k.shown ∧
      (k.mirror bytes).sent = k.sent ++ if k.terminalSerial then bytes else [] := by
  unfold mirror
  split
  · exact serialWrite_sent bytes k
  · exact ⟨rfl, (List.append_nil _).symm⟩

theorem terminalPutchar_plain {c : BitVec 8} (hc : Plain c) {k : Console} (hk : Ready k) :
    (k.terminalPutchar c).shown = k.shown ++ [c] ∧
      (k.terminalPutchar c).sent = k.sent ++ if k.terminalSerial then [c] else [] := by
  have hready : Ready (k.terminalPutentryat c k.color k.column k.row) := ⟨hk.fits, hk.row, hk.column⟩
  have hflag := (advance_touches hready 1).1.terminalSerial
  obtain ⟨hashown, hasent⟩ := advance_quiet 1 (k.terminalPutentryat c k.color k.column k.row)
  obtain ⟨hmshown, hmsent⟩ :=
    mirror_sent [c] ((k.terminalPutentryat c k.color k.column k.row).advance 1)
  have hdrawn : (k.terminalPutentryat c k.color k.column k.row).shown = k.shown ++ [c] := by
    unfold shown terminalPutentryat storeCell
    rw [List.filterMap_append]
    congr 1
    exact congrArg (fun b => [b]) (vgaEntry_char c k.color)
  have hunsent : (k.terminalPutentryat c k.color k.column k.row).sent = k.sent := by
    unfold sent terminalPutentryat storeCell
    rw [List.filterMap_append]
    exact List.append_nil _
  rw [terminalPutchar_ordinary hc.2.2.1 hc.2.2.2 hc.2.1, hmshown, hmsent, hashown, hasent, hflag,
    hdrawn, hunsent]
  exact ⟨rfl, rfl⟩

theorem terminalWrite_plain {text : List (BitVec 8)} (htext : ∀ b ∈ text, Plain b) {k : Console}
    (hk : Ready k) : (k.terminalWrite text).shown = k.shown ++ text ∧
      (k.terminalWrite text).sent = k.sent ++ if k.terminalSerial then text else [] := by
  induction text generalizing k with
  | nil =>
      refine ⟨(List.append_nil _).symm, ?_⟩
      rw [ite_self]
      exact (List.append_nil _).symm
  | cons c cs ih =>
      obtain ⟨htouch, hready⟩ := terminalPutchar_spec hk c
      obtain ⟨hshown, hsent⟩ := terminalPutchar_plain (htext c List.mem_cons_self) hk
      obtain ⟨hshown', hsent'⟩ := ih (fun b hb => htext b (List.mem_cons_of_mem c hb)) hready
      refine ⟨hshown'.trans ?_, hsent'.trans ?_⟩
      · rw [hshown, List.append_assoc]
        rfl
      · rw [hsent, htouch.terminalSerial, List.append_assoc]
        cases k.terminalSerial with
        | true => rfl
        | false => rfl

theorem terminalWrite_append (text text' : List (BitVec 8)) (k : Console) :
    k.terminalWrite (text ++ text') = (k.terminalWrite text).terminalWrite text' := by
  unfold terminalWrite
  exact List.foldl_append

/-- A CR and a LF draw nothing; mirrored, the LF brings a CR of its own. -/
theorem terminalWrite_crlf {k : Console} (hk : Ready k) :
    (k.terminalWrite [13#8, 10#8]).shown = k.shown ∧
      (k.terminalWrite [13#8, 10#8]).sent =
        k.sent ++ if k.terminalSerial then [13#8, 13#8, 10#8] else [] := by
  have hmirror := mirror_touches [13#8] { k with column := 0 }
  have hfits : BufferFits (mirror [13#8] { k with column := 0 }).buffer := by
    rw [hmirror.buffer]
    exact hk.fits
  have hflag := (nextRow_touches hfits).terminalSerial.trans hmirror.terminalSerial
  obtain ⟨hcr, hcr'⟩ := mirror_sent [13#8] { k with column := 0 }
  obtain ⟨hrow, hrow'⟩ := nextRow_quiet (mirror [13#8] { k with column := 0 })
  obtain ⟨hlf, hlf'⟩ := mirror_sent [13#8, 10#8] (mirror [13#8] { k with column := 0 }).nextRow
  have hboth : k.terminalWrite [13#8, 10#8] =
      (mirror [13#8] { k with column := 0 }).nextRow.mirror [13#8, 10#8] := rfl
  rw [hboth, hlf, hlf', hrow, hrow', hcr, hcr', hflag]
  refine ⟨rfl, ?_⟩
  cases hs : k.terminalSerial with
  | true => exact List.append_assoc k.sent [13#8] [13#8, 10#8]
  | false => exact List.append_assoc k.sent [] []

theorem terminalWrite_line {text : List (BitVec 8)} (htext : ∀ b ∈ text, Plain b) {k : Console}
    (hk : Ready k) : (k.terminalWrite (text ++ [13#8, 10#8])).shown = k.shown ++ text ∧
      (k.terminalWrite (text ++ [13#8, 10#8])).sent =
        k.sent ++ if k.terminalSerial then text ++ [13#8, 13#8, 10#8] else [] := by
  obtain ⟨hshown, hsent⟩ := terminalWrite_plain htext hk
  obtain ⟨hcrlf, hcrlf'⟩ := terminalWrite_crlf (terminalWrite_spec hk text).2
  have hflag := (terminalWrite_spec hk text).1.terminalSerial
  rw [terminalWrite_append, hcrlf, hcrlf', hshown, hsent, hflag]
  refine ⟨rfl, ?_⟩
  cases k.terminalSerial with
  | true => exact List.append_assoc _ _ _
  | false => exact List.append_assoc _ _ _

/-- The text stands on the screen, in reading order from some cell on. -/
def Displays (k : Console) (text : List (BitVec 8)) : Prop :=
  ∃ start, ∀ i b, text[i]? = some b → start + i < vgaWidth * vgaHeight ∧
    (load16 k.mem (cellAddr k.buffer (start + i))).setWidth 8 = b

end Console

/-! ## A line on the sheet -/

namespace Sheet

theorem write_plain {text : List (BitVec 8)} (htext : ∀ b ∈ text, Plain b) (s : Sheet) :
    s.write text =
      { s with page := Page.type vgaWidth (text.map fun c => vgaEntry c s.color) s.page } := by
  induction text generalizing s with
  | nil => rfl
  | cons c cs ih =>
      obtain ⟨-, htab, hlf, hcr⟩ := htext c List.mem_cons_self
      have hput : s.putchar c = { s with page := Page.put vgaWidth (vgaEntry c s.color) s.page } := by
        unfold putchar
        rw [if_neg hlf, if_neg hcr, if_neg htab]
      have hcons : s.write (c :: cs) = (s.putchar c).write cs := rfl
      rw [hcons, ih (fun b hb => htext b (List.mem_cons_of_mem c hb)), hput]
      rfl

theorem write_append (text text' : List (BitVec 8)) (s : Sheet) :
    s.write (text ++ text') = (s.write text).write text' := by
  unfold write
  exact List.foldl_append

end Sheet

/-- A line of at most 1021 bytes takes 14 rows at most, so all of it is on the
screen when the line feed has been done. -/
theorem Tail.displays_line {k : Console} {s : Sheet} (hb : Console.BufferFits k.buffer)
    (h : Tail k s) {text : List (BitVec 8)} (htext : ∀ b ∈ text, Plain b)
    (hlen : text.length ≤ 1021) :
    (k.terminalWrite (text ++ [13#8, 10#8])).Displays text := by
  have hbuf := (Console.terminalWrite_spec (h.ready hb) (text ++ [13#8, 10#8])).1.buffer
  have hafter := (h.write hb (text ++ [13#8, 10#8])).shows.cells
  obtain ⟨hend, hlast, -, hwritten⟩ :=
    Page.type_spec (text.map fun c => vgaEntry c s.color) h.shows.col_lt
  have hsheet : (s.write (text ++ [13#8, 10#8])).page =
      Page.lineFeed (Page.type vgaWidth (text.map fun c => vgaEntry c s.color) s.page).toStart := by
    rw [Sheet.write_append, Sheet.write_plain htext]
    rfl
  have hcol := h.shows.col_lt
  rw [hsheet] at hafter
  generalize hq : Page.type vgaWidth (text.map fun c => vgaEntry c s.color) s.page = q at *
  rw [List.length_map] at hend
  unfold Page.pos vgaWidth at hend
  unfold vgaWidth at hcol hlast
  refine ⟨s.page.row * 80 + s.page.col - 80 * (q.row + 2 - 25), ?_⟩
  intro i b hi
  have hilen : i < text.length := (List.getElem?_eq_some_iff.mp hi).1
  have hentry : (text.map fun c => vgaEntry c s.color)[i]? = some (vgaEntry b s.color) := by
    rw [List.getElem?_map, hi]
    rfl
  -- row and column of the byte on the page
  obtain ⟨r, x, hx, hplace⟩ : ∃ r x, x < 80 ∧ r * 80 + x = s.page.row * 80 + s.page.col + i :=
    ⟨(s.page.row * 80 + s.page.col + i) / 80, (s.page.row * 80 + s.page.col + i) % 80,
      Nat.mod_lt _ (by decide), by omega⟩
  have hcell := hwritten i _ hentry r x hx hplace
  have hy : r - (q.row + 2 - 25) < 25 := by omega
  have hrow : r - (q.row + 2 - 25) + (q.row + 2 - 25) = r := by omega
  have hindex : s.page.row * 80 + s.page.col - 80 * (q.row + 2 - 25) + i =
      (r - (q.row + 2 - 25)) * 80 + x := by omega
  have hscreen := hafter (r - (q.row + 2 - 25)) hy x hx
  refine ⟨hindex ▸ cellIndex_lt hy hx, ?_⟩
  have hmem : load16 (k.terminalWrite (text ++ [13#8, 10#8])).mem
      (cellAddr (k.terminalWrite (text ++ [13#8, 10#8])).buffer
        ((r - (q.row + 2 - 25)) * 80 + x)) = q.cell (r - (q.row + 2 - 25) + (q.row + 2 - 25)) x :=
    hscreen
  rw [hindex, hmem, hrow, hcell, vgaEntry_char]

/-! ## The message -/

/-- The line ends a message may have on COM1: as `debug_write` sends it, and as
the terminal mirrors it. -/
def lineEnds : List (List (BitVec 8)) := [[13#8, 10#8], [13#8, 13#8, 10#8]]

/-- The message `text` logged between `d` and `d'` went where the target says.
With VGA it was drawn, once, and can be read on the screen; without, the screen
is as before.  With SERIAL it was sent to COM1, once, and without not a byte was. -/
structure Routed (d d' : Debug) (text : List (BitVec 8)) : Prop where
  drawn : d'.console.shown = d.console.shown ++ if d.toVga then text else []
  displayed : d.toVga = true → d'.console.Displays text
  kept : d.toVga = false → d'.console.screen = d.console.screen
  sent : if d.toSerial then
      ∃ ending ∈ lineEnds, d'.console.sent = d.console.sent ++ (text ++ ending)
    else d'.console.sent = d.console.sent

/-- The terminal is set up: its screen is the tail of a sheet. -/
def Console.Live (k : Console) : Prop := Console.BufferFits k.buffer ∧ ∃ s, Tail k s

/-- What every state of a run has. -/
def Debug.Live (d : Debug) : Prop := d.console.Live

namespace Debug

theorem cString_line {text : List (BitVec 8)} (htext : ∀ b ∈ text, Plain b) :
    (text ++ [13#8, 10#8, 0#8]).takeWhile (· ≠ 0#8) = text ++ [13#8, 10#8] := by
  induction text with
  | nil => rfl
  | cons c cs ih =>
      have hc : c ≠ 0#8 := (htext c List.mem_cons_self).1
      rw [List.cons_append, List.takeWhile_cons_of_pos (by simpa using hc),
        ih fun b hb => htext b (List.mem_cons_of_mem c hb)]
      rfl

/-- The two halves of `debug_write` for a line. -/
theorem write_line {text : List (BitVec 8)} (htext : ∀ b ∈ text, Plain b) (d : Debug) :
    d.write (text ++ [13#8, 10#8, 0#8]) =
      let k := if d.toVga then d.console.terminalWrite (text ++ [13#8, 10#8]) else d.console
      if d.toSerial && !k.terminalSerial then
        { d with console :=
          (text ++ [13#8, 10#8]).foldl (fun k b => k.serialCom1WriteByte b) k }
      else { d with console := k } := by
  unfold write Console.terminalWritestring Console.serialCom1WriteString
  rw [cString_line htext]
  cases hv : d.toVga with
  | true => rfl
  | false => rfl

section Line

variable {text : List (BitVec 8)} {d : Debug}

/-- The target decides what is drawn. -/
theorem write_shown (htext : ∀ b ∈ text, Plain b) (hd : d.Live) :
    (d.write (text ++ [13#8, 10#8, 0#8])).console.shown =
      d.console.shown ++ if d.toVga then text else [] := by
  obtain ⟨hb, s, htail⟩ := hd
  have hline := (Console.terminalWrite_line htext (htail.ready hb)).1
  rw [write_line htext]
  dsimp only
  cases d.toVga with
  | true =>
      rw [if_pos rfl]
      split
      · rw [(Console.serialWrite_sent _ _).1, hline, if_pos rfl]
      · rw [hline, if_pos rfl]
  | false =>
      rw [if_neg Bool.false_ne_true, if_neg Bool.false_ne_true, List.append_nil]
      split
      · exact (Console.serialWrite_sent _ _).1
      · rfl

/-- The target and the mirroring flag decide what is sent. -/
theorem write_sent (htext : ∀ b ∈ text, Plain b) (hd : d.Live) :
    (d.write (text ++ [13#8, 10#8, 0#8])).console.sent = d.console.sent ++
      if d.console.terminalSerial then (if d.toVga then text ++ [13#8, 13#8, 10#8] else [])
      else if d.toSerial then text ++ [13#8, 10#8] else [] := by
  obtain ⟨hb, s, htail⟩ := hd
  have hready := htail.ready hb
  have hline := (Console.terminalWrite_line htext hready).2
  have hflag := (Console.terminalWrite_spec hready (text ++ [13#8, 10#8])).1.terminalSerial
  rw [write_line htext]
  dsimp only
  cases d.toVga with
  | true =>
      simp only [if_true, hflag]
      cases hm : d.console.terminalSerial with
      | true =>
          rw [hm] at hline
          rw [Bool.not_true, Bool.and_false, if_neg Bool.false_ne_true, if_pos rfl, hline, if_pos rfl]
      | false =>
          rw [hm, if_neg Bool.false_ne_true, List.append_nil] at hline
          rw [Bool.not_false, Bool.and_true, if_neg Bool.false_ne_true]
          split
          · rw [(Console.serialWrite_sent _ _).2, hline]
          · rw [hline, List.append_nil]
  | false =>
      simp only [Bool.false_eq_true, if_false]
      cases d.console.terminalSerial with
      | true => rw [Bool.not_true, Bool.and_false, if_neg Bool.false_ne_true, if_pos rfl, List.append_nil]
      | false =>
          rw [Bool.not_false, Bool.and_true, if_neg Bool.false_ne_true]
          split
          · exact (Console.serialWrite_sent _ _).2
          · exact (List.append_nil _).symm

theorem write_kept (htext : ∀ b ∈ text, Plain b) (hvga : d.toVga = false) :
    (d.write (text ++ [13#8, 10#8, 0#8])).console.screen = d.console.screen := by
  rw [write_line htext, hvga]
  simp only [Bool.false_eq_true, if_false]
  split
  · rw [Console.serialWrite_eq]
    rfl
  · rfl

theorem write_displays (htext : ∀ b ∈ text, Plain b) (hlen : text.length ≤ 1021) (hd : d.Live)
    (hvga : d.toVga = true) : (d.write (text ++ [13#8, 10#8, 0#8])).console.Displays text := by
  obtain ⟨hb, s, htail⟩ := hd
  have hshown := htail.displays_line hb htext hlen
  rw [write_line htext, hvga]
  simp only [if_true]
  split
  · rw [Console.serialWrite_eq]
    exact hshown
  · exact hshown

/-- One message: it is routed by its target unless the mirroring is on and the
target is one of the two alone. -/
theorem routed_write_iff (htext : ∀ b ∈ text, Plain b) (hlen : text.length ≤ 1021) (hd : d.Live) :
    Routed d (d.write (text ++ [13#8, 10#8, 0#8])) text ↔
      (d.console.terminalSerial = false ∨ d.toVga = d.toSerial) := by
  have hsent := write_sent htext hd
  constructor
  · intro h
    have hroute := h.sent
    rw [hsent] at hroute
    cases hm : d.console.terminalSerial with
    | false => exact .inl rfl
    | true =>
        refine .inr ?_
        rw [hm, if_pos rfl] at hroute
        cases hv : d.toVga with
        | true =>
            cases hs : d.toSerial with
            | true => rfl
            | false =>
                -- VGA only: the mirror has sent the line as well
                rw [hv, hs, if_pos rfl, if_neg Bool.false_ne_true] at hroute
                have hlength := congrArg List.length hroute
                simp only [List.length_append, List.length_cons] at hlength
                omega
        | false =>
            cases hs : d.toSerial with
            | false => rfl
            | true =>
                -- SERIAL only: `debug_write` has left the line to a mirror that did not see it
                rw [hv, hs, if_neg Bool.false_ne_true, if_pos rfl, List.append_nil] at hroute
                obtain ⟨ending, hmem, heq⟩ := hroute
                have hlength := congrArg List.length heq
                have hend : 0 < ending.length := by
                  unfold lineEnds at hmem
                  rcases List.mem_cons.mp hmem with rfl | hmem
                  · decide
                  · rw [List.mem_singleton.mp hmem]
                    decide
                simp only [List.length_append] at hlength
                omega
  · intro h
    refine ⟨write_shown htext hd, write_displays htext hlen hd, write_kept htext, ?_⟩
    rw [hsent]
    cases hm : d.console.terminalSerial with
    | false =>
        rw [if_neg Bool.false_ne_true]
        cases d.toSerial with
        | true => exact ⟨[13#8, 10#8], by unfold lineEnds; exact List.mem_cons_self, rfl⟩
        | false => exact List.append_nil _
    | true =>
        rw [if_pos rfl, ← (h.resolve_left (by rw [hm]; decide) : d.toVga = d.toSerial)]
        cases d.toVga with
        | true =>
            exact ⟨[13#8, 13#8, 10#8],
              by unfold lineEnds; exact List.mem_cons_of_mem _ List.mem_cons_self, rfl⟩
        | false => exact List.append_nil _

end Line

/-! ## Runs -/

theorem start_live (cr0 : BitVec 32) (k : Console) : (start cr0 k).Live := by
  refine ⟨?_, Sheet.initialized cr0, Tail.initialized cr0 k⟩
  show Console.BufferFits (k.terminalInitialize cr0).buffer
  rw [(initialize_emits cr0 k).1]
  exact Console.bufferFits_getVgaBuffer cr0

theorem write_live {d : Debug} (hd : d.Live) (str : List (BitVec 8)) : (d.write str).Live := by
  have hvga : ∀ k : Console, k.Live → (k.terminalWritestring str).Live := by
    rintro k ⟨hb, s, htail⟩
    have hbuf := (Console.terminalWrite_spec (htail.ready hb) (str.takeWhile (· ≠ 0#8))).1.buffer
    refine ⟨?_, _, htail.write hb (str.takeWhile (· ≠ 0#8))⟩
    show Console.BufferFits (k.terminalWrite _).buffer
    rw [hbuf]
    exact hb
  have hserial : ∀ k : Console, k.Live → (k.serialCom1WriteString str).Live := by
    rintro k ⟨hb, s, htail⟩
    unfold Console.serialCom1WriteString
    rw [Console.serialWrite_eq]
    exact ⟨hb, s, htail.shows, htail.color⟩
  exact write_closed hvga hserial hd

/-- Every call keeps the terminal set up. -/
theorem exec_live {d d' : Debug} {call : DebugCall} (hd : d.Live) (h : d.exec call = some d') :
    d'.Live := by
  cases call with
  | setTarget target => exact Option.some.inj h ▸ hd
  | setLevel level =>
      obtain rfl := Option.some.inj h
      unfold setLevel
      split
      · exact hd
      · exact hd
  | enableSerial enable =>
      obtain rfl := Option.some.inj h
      obtain ⟨hb, s, htail⟩ := hd
      exact ⟨hb, s, htail.shows, htail.color⟩
  | log level format args =>
      have hlog : d.log level format args = some d' := h
      unfold log at hlog
      split at hlog
      · exact Option.some.inj hlog ▸ hd
      · obtain ⟨line, -, rfl⟩ := Option.map_eq_some_iff.mp hlog
        exact write_live hd line

theorem run_live {d d' : Debug} {calls : List DebugCall} (hd : d.Live)
    (h : Runs.run exec d calls = some d') : d'.Live :=
  Runs.run_keeps (fun _ _ _ hs h => exec_live hs h) hd h

end Debug

theorem levelPrefix_plain (level : Int) : ∀ b ∈ levelPrefix level, Plain b := by
  have hall : ∀ pre ∈ levelPrefixes, ∀ b ∈ pre, b ≠ 0#8 ∧ b ≠ 9#8 ∧ b ≠ 10#8 ∧ b ≠ 13#8 := by
    decide +kernel
  exact hall _ (levelPrefix_mem level)

/-- A message at a level not above the current one, in any state a run of calls
reaches: it goes where the target says exactly when the mirroring is off or the
target names both or neither of VGA and SERIAL. -/
theorem message_routed_iff {cr0 : BitVec 32} {k : Console} {calls : List DebugCall} {d : Debug}
    (hrun : Runs.run Debug.exec (Debug.start cr0 k) calls = some d) {level : Int}
    {format : List (BitVec 8)} {args : List Arg} {body : List (BitVec 8)}
    (hlevel : level ≤ d.level) (hbody : messageBody level format args = some body)
    (hplain : ∀ b ∈ body, Plain b) :
    ∃ d', d.log level format args = some d' ∧
      (Routed d d' (levelPrefix level ++ body) ↔
        (d.console.terminalSerial = false ∨ d.toVga = d.toSerial)) := by
  have hlive := Debug.run_live (Debug.start_live cr0 k) hrun
  have htext : ∀ b ∈ levelPrefix level ++ body, Plain b := fun b hb =>
    (List.mem_append.mp hb).elim (levelPrefix_plain level b) (hplain b)
  have hlen : (levelPrefix level ++ body).length ≤ 1021 := by
    rw [List.length_append]
    exact messageBody_length hbody
  refine ⟨_, ?_, Debug.routed_write_iff htext hlen hlive⟩
  unfold Debug.log
  rw [if_neg (by omega), debugLine_eq hbody]
  rfl

theorem message_routed_iff_error :
    let d := ((Debug.start 0x80000001#32 (Console.boot fun _ => 0#8)).setLevel 4).setTarget 3#32
    ∃ d', d.log 1 (chars "disk %s: %d") [.str (some (chars "hd0")), .word 7#32] = some d' ∧
      (Routed d d' (levelPrefix 1 ++ chars "disk hd0: 7") ↔
        (d.console.terminalSerial = false ∨ d.toVga = d.toSerial)) := by
  intro d
  have hrun : Runs.run Debug.exec (Debug.start 0x80000001#32 (Console.boot fun _ => 0#8))
      [.setLevel 4, .setTarget 3#32] = some d := rfl
  exact message_routed_iff hrun (by decide) rfl (by unfold Plain; decide +kernel)

/-- The line of `kernel_main` that says it should not be in the serial log. -/
def vgaOnlyText : List (BitVec 8) :=
  chars "This message should only appear on VGA (not in serial log)"

/-- With the calls `kernel_main` makes before it, that line reaches COM1 all the
same: the terminal mirrors it. -/
theorem vga_only_message_sent :
    ∃ d d', Runs.run Debug.exec (Debug.start 0x80000001#32 (Console.boot fun _ => 0#8))
        [.enableSerial true, .setLevel 4, .setTarget 255#32, .setTarget 1#32] = some d ∧
      d.log 3 vgaOnlyText [] = some d' ∧ d.toSerial = false ∧
      d'.console.sent = d.console.sent ++ (levelPrefix 3 ++ vgaOnlyText ++ [13#8, 13#8, 10#8]) ∧
      ¬ Routed d d' (levelPrefix 3 ++ vgaOnlyText) := by
  have htext : ∀ b ∈ levelPrefix 3 ++ vgaOnlyText, Plain b := by
    unfold Plain
    decide +kernel
  have hbody : messageBody 3 vgaOnlyText [] = some vgaOnlyText := by decide +kernel
  obtain ⟨d, hd⟩ : ∃ d, Runs.run Debug.exec
      (Debug.start 0x80000001#32 (Console.boot fun _ => 0#8))
      [.enableSerial true, .setLevel 4, .setTarget 255#32, .setTarget 1#32] = some d := ⟨_, rfl⟩
  have hlive := Debug.run_live (Debug.start_live _ _) hd
  have hstate : d.level = 4 ∧ d.target = 1#32 ∧ d.console.terminalSerial = true := by
    obtain rfl := Option.some.inj hd
    exact ⟨rfl, rfl, rfl⟩
  obtain ⟨hlevel, htarget, hmirror⟩ := hstate
  have hvga : d.toVga = true := by rw [Debug.toVga, htarget]; rfl
  have hserial : d.toSerial = false := by rw [Debug.toSerial, htarget]; rfl
  refine ⟨d, d.write (levelPrefix 3 ++ vgaOnlyText ++ [13#8, 10#8, 0#8]), hd, ?_, hserial, ?_, ?_⟩
  · unfold Debug.log
    rw [hlevel, if_neg (by decide), debugLine_eq hbody]
    rfl
  · rw [Debug.write_sent htext hlive, hmirror, hvga]
    rfl
  · rw [Debug.routed_write_iff htext (by decide +kernel) hlive, hmirror, hvga, hserial]
    decide

end RedOS
