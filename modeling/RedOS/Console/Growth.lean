/-
# `RedOS.Console.Growth` — nothing observed is taken back

Every function of the console code adds to the trace and removes nothing, in any
state whatever.  So what was drawn or sent at some moment of a run is still among
what has been drawn or sent at its end.
-/
import RedOS.Console.Render
import RedOS.Console.Routing

namespace RedOS

namespace Console

/-- From `k` to `k'` the trace only grew. -/
def Extends (k k' : Console) : Prop := Emits (fun _ => True) k k'

theorem Extends.of_emits {P : Event → Prop} {k k' : Console} (h : Emits P k k') : Extends k k' :=
  h.mono fun _ _ => trivial

theorem Extends.refl (k : Console) : Extends k k := Emits.refl k

theorem Extends.trans {k k' k'' : Console} (h : Extends k k') (h' : Extends k' k'') : Extends k k'' :=
  Emits.trans h h'

theorem emit_extends (e : Event) (k : Console) : Extends k (k.emit e) := .of_trace_snoc rfl trivial

theorem Extends.emit {k k' : Console} (h : Extends k k') (e : Event) : Extends k (k'.emit e) :=
  h.trans (emit_extends e k')

theorem nextRow_extends (k : Console) : Extends k k.nextRow := by
  unfold nextRow
  dsimp only
  split
  · exact .of_emits (scroll_stores { k with column := 0, row := k.row + 1 })
  · exact .of_trace_eq rfl

theorem advance_extends (n : Nat) (k : Console) : Extends k (k.advance n) := by
  unfold advance
  split
  · exact nextRow_extends { k with column := k.column + n }
  · exact .of_trace_eq rfl

theorem serialWrite_extends (bytes : List (BitVec 8)) (k : Console) :
    Extends k (bytes.foldl (fun k b => k.serialCom1WriteByte b) k) :=
  Emits.foldl bytes k fun b _ k => emit_extends (.com1 b) k

theorem mirror_extends (bytes : List (BitVec 8)) (k : Console) : Extends k (k.mirror bytes) := by
  unfold mirror
  split
  · exact serialWrite_extends bytes k
  · exact .refl k

theorem storeCell_extends (index : Nat) (entry : BitVec 16) (k : Console) :
    Extends k (k.storeCell index entry) := .of_trace_snoc rfl trivial

theorem terminalPutchar_extends (c : BitVec 8) (k : Console) : Extends k (k.terminalPutchar c) := by
  by_cases hlf : c = 10#8
  · subst hlf
    exact (nextRow_extends k).trans (mirror_extends _ _)
  by_cases hcr : c = 13#8
  · subst hcr
    exact mirror_extends [13#8] { k with column := 0 }
  by_cases htab : c = 9#8
  · subst htab
    exact (advance_extends 4 k).trans (mirror_extends _ _)
  · rw [terminalPutchar_ordinary hlf hcr htab]
    exact ((storeCell_extends _ _ k).trans (advance_extends 1 _)).trans (mirror_extends _ _)

theorem terminalWrite_extends (text : List (BitVec 8)) (k : Console) :
    Extends k (k.terminalWrite text) :=
  Emits.foldl text k fun c _ k => terminalPutchar_extends c k

/-- The lines `print` and `putchar` share. -/
theorem crlf_extends (b : BitVec 8) (on : Bool) (k : Console) :
    Extends k (if on then (if b = 10#8 then k.serialCom1WriteByte 13#8 else k).serialCom1WriteByte b
      else k) := by
  split
  · split
    · exact (emit_extends _ k).trans (emit_extends _ _)
    · exact emit_extends _ k
  · exact .refl k

theorem printByte_extends (b : BitVec 8) (k : Console) : Extends k (k.printByte b) :=
  ((terminalPutchar_extends b k).trans (crlf_extends b _ _)).trans (crlf_extends b _ _)

theorem print_extends (text : List (BitVec 8)) (k : Console) : Extends k (k.print text) :=
  Emits.foldl text k fun b _ k => printByte_extends b k

theorem printf_extends {format : List (BitVec 8)} {args : List Arg} {k : Console} {r : Int × Console}
    (h : k.printf format args = some r) : Extends k r.2 := by
  rw [printf_eq] at h
  obtain ⟨s, -, rfl⟩ := Option.map_eq_some_iff.mp h
  exact ((emit_extends _ k).trans (print_extends s.2 _)).trans (emit_extends .ret _)

theorem terminalInitialize_extends (cr0 : BitVec 32) (k : Console) :
    Extends k (k.terminalInitialize cr0) := .of_emits (initialize_emits cr0 k).2

theorem Extends.shown {k k' : Console} (h : Extends k k') : k.shown <+: k'.shown := by
  obtain ⟨es, hes, -⟩ := h
  unfold Console.shown
  rw [hes, List.filterMap_append]
  exact List.prefix_append _ _

theorem Extends.sent {k k' : Console} (h : Extends k k') : k.sent <+: k'.sent := by
  obtain ⟨es, hes, -⟩ := h
  unfold Console.sent
  rw [hes, List.filterMap_append]
  exact List.prefix_append _ _

end Console

namespace Debug

theorem write_extends (str : List (BitVec 8)) (d : Debug) :
    Console.Extends d.console (d.write str).console := by
  have hvga : ∀ k : Console, Console.Extends k (k.terminalWritestring str) :=
    fun k => Console.terminalWrite_extends _ k
  have hserial : ∀ k : Console, Console.Extends k (k.serialCom1WriteString str) :=
    fun k => Console.serialWrite_extends _ k
  exact write_closed (I := fun k => Console.Extends d.console k) (fun k h => h.trans (hvga k))
    (fun k h => h.trans (hserial k)) (.refl d.console)

theorem log_extends {d d' : Debug} {level : Int} {format : List (BitVec 8)} {args : List Arg}
    (h : d.log level format args = some d') : Console.Extends d.console d'.console := by
  unfold log at h
  split at h
  · exact Option.some.inj h ▸ .refl d.console
  · obtain ⟨line, -, rfl⟩ := Option.map_eq_some_iff.mp h
    exact write_extends line d

theorem exec_extends {d d' : Debug} {c : DebugCall} (h : d.exec c = some d') :
    Console.Extends d.console d'.console := by
  cases c with
  | setTarget target => exact Option.some.inj h ▸ .refl d.console
  | setLevel level =>
      obtain rfl := Option.some.inj h
      unfold setLevel
      split <;> exact .refl d.console
  | enableSerial enable => exact Option.some.inj h ▸ .of_trace_eq rfl
  | log level format args => exact log_extends h

theorem run_extends {d d' : Debug} {calls : List DebugCall} (h : Runs.run exec d calls = some d') :
    Console.Extends d.console d'.console :=
  Runs.run_keeps (I := fun t => Console.Extends d.console t.console)
    (fun _ _ _ ht h => ht.trans (exec_extends h)) (.refl d.console) h

end Debug

end RedOS
