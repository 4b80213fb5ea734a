/-
# `RedOS.Console.Mirror` — three mirrors of one text

`print` of `printf.c`, `putchar` and `terminal_putchar` can each copy a byte to
COM1, each by a flag of its own.  The first two look at the flag of the third
and keep quiet when it is on; neither looks at the other's.

    printByte_sends     what one byte of a text becomes on COM1
    mirrors_once_iff    once, whatever the calls, but for texts under two mirrors
-/
import RedOS.Console.Render
import RedOS.Console.Routing

namespace RedOS

/-- A byte on a serial line: CR LF for a LF, every other byte as it is. -/
def serialForm (b : BitVec 8) : List (BitVec 8) := if b = 10#8 then [13#8, 10#8] else [b]

namespace Console

/-! ## What a step sends -/

/-- From `k` to `k'` the bytes `out` went to COM1, and the flags stayed. -/
structure Sends (k k' : Console) (out : List (BitVec 8)) : Prop where
  sent : k'.sent = k.sent ++ out
  terminal : k'.terminalSerial = k.terminalSerial
  putchar : k'.putcharSerial = k.putcharSerial
  printf : k'.printfSerial = k.printfSerial

namespace Sends

variable {k k' k'' : Console} {out out' : List (BitVec 8)}

theorem nothing (hsent : k'.sent = k.sent) (hterminal : k'.terminalSerial = k.terminalSerial)
    (hputchar : k'.putcharSerial = k.putcharSerial) (hprintf : k'.printfSerial = k.printfSerial) :
    Sends k k' [] :=
  ⟨hsent.trans (List.append_nil _).symm, hterminal, hputchar, hprintf⟩

theorem refl (k : Console) : Sends k k [] := nothing rfl rfl rfl rfl

theorem trans (h : Sends k k' out) (h' : Sends k' k'' out') : Sends k k'' (out ++ out') where
  sent := by rw [h'.sent, h.sent, List.append_assoc]
  terminal := h'.terminal.trans h.terminal
  putchar := h'.putchar.trans h.putchar
  printf := h'.printf.trans h.printf

end Sends

theorem nextRow_sends (k : Console) : Sends k k.nextRow [] := by
  have hsent := (nextRow_quiet k).2
  unfold nextRow at hsent ⊢
  dsimp only at hsent ⊢
  split
  · rw [if_pos ‹_›] at hsent
    rw [scroll_eq] at hsent ⊢
    exact .nothing hsent rfl rfl rfl
  · exact .nothing rfl rfl rfl rfl

theorem advance_sends (n : Nat) (k : Console) : Sends k (k.advance n) [] := by
  have hmove : Sends k { k with column := k.column + n } [] := .nothing rfl rfl rfl rfl
  unfold advance
  split
  · exact hmove.trans (nextRow_sends _)
  · exact hmove

theorem serialWrite_sends (bytes : List (BitVec 8)) (k : Console) :
    Sends k (bytes.foldl (fun k b => k.serialCom1WriteByte b) k) bytes := by
  have hsent := (serialWrite_sent bytes k).2
  rw [serialWrite_eq] at hsent ⊢
  exact ⟨hsent, rfl, rfl, rfl⟩

theorem mirror_sends (bytes : List (BitVec 8)) (k : Console) :
    Sends k (k.mirror bytes) (if k.terminalSerial then bytes else []) := by
  unfold mirror
  cases k.terminalSerial with
  | true => exact serialWrite_sends bytes k
  | false => exact .refl k

/-- A byte through `terminal_putchar`. -/
theorem terminalPutchar_sends (c : BitVec 8) (k : Console) :
    Sends k (k.terminalPutchar c) (if k.terminalSerial then serialForm c else []) := by
  by_cases hlf : c = 10#8
  · subst hlf
    have hnext := nextRow_sends k
    have hall := hnext.trans (mirror_sends [13#8, 10#8] k.nextRow)
    rwa [hnext.terminal] at hall
  have hform : serialForm c = [c] := if_neg hlf
  rw [hform]
  by_cases hcr : c = 13#8
  · subst hcr
    have hmove : Sends k { k with column := 0 } [] := .nothing rfl rfl rfl rfl
    exact hmove.trans (mirror_sends [13#8] _)
  by_cases htab : c = 9#8
  · subst htab
    have hmove := advance_sends 4 k
    have hall := hmove.trans (mirror_sends [9#8] _)
    rwa [hmove.terminal] at hall
  · rw [terminalPutchar_ordinary hlf hcr htab]
    have hstore : Sends k (k.terminalPutentryat c k.color k.column k.row) [] := by
      refine .nothing ?_ rfl rfl rfl
      unfold sent terminalPutentryat storeCell
      rw [List.filterMap_append]
      exact List.append_nil _
    have hmove := hstore.trans (advance_sends 1 _)
    have hall := hmove.trans (mirror_sends [c] _)
    rwa [hmove.terminal] at hall

/-- A text through `terminal_write`. -/
theorem terminalWrite_sends (text : List (BitVec 8)) (k : Console) :
    Sends k (k.terminalWrite text) (if k.terminalSerial then text.flatMap serialForm else []) := by
  induction text generalizing k with
  | nil =>
      rw [List.flatMap_nil, ite_self]
      exact .refl k
  | cons c cs ih =>
      have hfirst := terminalPutchar_sends c k
      have hall := hfirst.trans (ih (k.terminalPutchar c))
      rw [hfirst.terminal] at hall
      rw [List.flatMap_cons]
      cases hon : k.terminalSerial with
      | true => rwa [hon] at hall
      | false => rwa [hon] at hall

/-- The lines `print` and `putchar` share. -/
theorem crlf_sends (b : BitVec 8) (on : Bool) (k : Console) :
    Sends k (if on then (if b = 10#8 then k.serialCom1WriteByte 13#8 else k).serialCom1WriteByte b
      else k) (if on then serialForm b else []) := by
  cases on with
  | false => exact .refl k
  | true =>
      unfold serialForm
      by_cases hlf : b = 10#8
      · rw [if_pos rfl, if_pos rfl, if_pos hlf, if_pos hlf, hlf]
        exact serialWrite_sends [13#8, 10#8] k
      · rw [if_pos rfl, if_pos rfl, if_neg hlf, if_neg hlf]
        exact serialWrite_sends [b] k

/-- What a byte of a text becomes on COM1. -/
def mirrored (k : Console) (b : BitVec 8) : List (BitVec 8) :=
  if k.terminalSerial then serialForm b
  else (if k.putcharSerial then serialForm b else []) ++ if k.printfSerial then serialForm b else []

/-- One pass of the loop in `print`. -/
theorem printByte_sends (b : BitVec 8) (k : Console) : Sends k (k.printByte b) (k.mirrored b) := by
  have hterm := terminalPutchar_sends b k
  have hput : Sends k (k.putchar b) _ := hterm.trans (crlf_sends b
    ((k.terminalPutchar b).putcharSerial && !(k.terminalPutchar b).terminalSerial) _)
  have hall : Sends k (k.printByte b) _ := hput.trans (crlf_sends b
    ((k.putchar b).printfSerial && !(k.putchar b).terminalSerial) _)
  rw [hterm.terminal, hterm.putchar, hput.terminal, hput.printf] at hall
  unfold mirrored
  cases hon : k.terminalSerial with
  | true =>
      rw [hon, Bool.not_true, Bool.and_false, Bool.and_false] at hall
      exact (List.append_nil (serialForm b ++ [])).trans (List.append_nil _) ▸ hall
  | false =>
      rw [hon, Bool.not_false, Bool.and_true, Bool.and_true] at hall
      exact hall

theorem mirrored_congr {k k' : Console} {out : List (BitVec 8)} (h : Sends k k' out) :
    k'.mirrored = k.mirrored := by
  funext b
  rw [mirrored, h.terminal, h.putchar, h.printf, mirrored]

theorem print_sends (text : List (BitVec 8)) (k : Console) :
    Sends k (k.print text) (text.flatMap k.mirrored) := by
  induction text generalizing k with
  | nil => exact .refl k
  | cons b bs ih =>
      have hfirst := printByte_sends b k
      have hall := hfirst.trans (ih (k.printByte b))
      rwa [mirrored_congr hfirst] at hall

theorem emit_sends {e : Event} (he : e.com1? = none) (k : Console) : Sends k (k.emit e) [] := by
  refine .nothing ?_ rfl rfl rfl
  unfold sent emit
  rw [List.filterMap_append, List.filterMap_cons_none he]
  exact List.append_nil _

/-- A call of `printf` sends its text, as the mirrors have it. -/
theorem printf_sends {format : List (BitVec 8)} {args : List Arg} {k : Console} {r : Int × Console}
    (h : k.printf format args = some r) : ∃ s, printfOut ((cString format).length + 1)
      (cString format) args 0 = some s ∧ Sends k r.2 (s.2.flatMap k.mirrored) := by
  rw [printf_eq] at h
  obtain ⟨s, hs, rfl⟩ := Option.map_eq_some_iff.mp h
  have hcall := emit_sends (e := .printf (cString format) args) rfl k
  have hall := (hcall.trans (print_sends s.2 _)).trans (emit_sends (e := .ret) rfl _)
  rw [mirrored_congr hcall, List.nil_append, List.append_nil] at hall
  exact ⟨s, hs, hall⟩

end Console

/-! ## Runs -/

/-- A call of `printf` or of the function of one of the three flags. -/
inductive MirrorCall
  | terminalEnableSerial (enable : Bool)
  | printfEnableSerial (enable : Bool)
  | putcharEnableSerial (enable : Bool)
  | printf (format : List (BitVec 8)) (args : List Arg)

/-- The text a call of `printf` emits. -/
def MirrorCall.text : MirrorCall → List (BitVec 8)
  | .printf format args =>
      ((printfOut ((cString format).length + 1) (cString format) args 0).map Prod.snd).getD []
  | _ => []

namespace Console

def invoke (k : Console) : MirrorCall → Option Console
  | .terminalEnableSerial enable => some (k.terminalEnableSerial enable)
  | .printfEnableSerial enable => some { k with printfSerial := enable }
  | .putcharEnableSerial enable => some { k with putcharSerial := enable }
  | .printf format args => (k.printf format args).map Prod.snd

/-- One of the mirrors is enabled. -/
def anyMirror (k : Console) : Bool := k.terminalSerial || k.printfSerial || k.putcharSerial

/-- What should reach COM1: every byte emitted, once, while a mirror is on. -/
def wanted (k : Console) : List MirrorCall → List (BitVec 8)
  | [] => []
  | c :: cs =>
      (if k.anyMirror then c.text.flatMap serialForm else []) ++
        match k.invoke c with
        | some k' => wanted k' cs
        | none => []

/-- The two mirrors that do not know of each other are on, the third is off. -/
def twoMirrors (k : Console) : Bool := k.printfSerial && k.putcharSerial && !k.terminalSerial

theorem mirrored_eq (k : Console) (b : BitVec 8) :
    k.mirrored b = if k.twoMirrors then serialForm b ++ serialForm b
      else if k.anyMirror then serialForm b else [] := by
  unfold mirrored twoMirrors anyMirror
  cases k.terminalSerial <;> cases k.putcharSerial <;> cases k.printfSerial <;> simp

theorem serialForm_length (b : BitVec 8) : 0 < (serialForm b).length := by
  unfold serialForm
  split
  · exact Nat.succ_pos _
  · exact Nat.succ_pos _

/-- A text sent twice is longer than sent once. -/
theorem twice_length (text : List (BitVec 8)) : (text.flatMap serialForm).length + text.length ≤
    (text.flatMap fun b => serialForm b ++ serialForm b).length := by
  induction text with
  | nil => exact Nat.le_refl 0
  | cons b bs ih =>
      have hb := serialForm_length b
      rw [List.flatMap_cons, List.flatMap_cons, List.length_append, List.length_append,
        List.length_append, List.length_cons]
      omega

/-- One text: as wanted but under two mirrors, where it is longer. -/
theorem text_mirrored (k : Console) (text : List (BitVec 8)) :
    (if k.anyMirror then text.flatMap serialForm else []).length ≤ (text.flatMap k.mirrored).length ∧
      (text.flatMap k.mirrored = (if k.anyMirror then text.flatMap serialForm else []) ↔
        (k.twoMirrors = true → text = [])) := by
  have hfun : k.mirrored = fun b => if k.twoMirrors then serialForm b ++ serialForm b
      else if k.anyMirror then serialForm b else [] := funext k.mirrored_eq
  rw [hfun]
  cases htwo : k.twoMirrors with
  | true =>
      have hany : k.anyMirror = true := by
        unfold twoMirrors at htwo
        obtain ⟨hboth, -⟩ := Bool.and_eq_true_iff.mp htwo
        rw [anyMirror, (Bool.and_eq_true_iff.mp hboth).1, Bool.or_true, Bool.true_or]
      have hlonger := twice_length text
      rw [hany]
      simp only [if_true]
      refine ⟨by omega, fun heq _ => ?_, fun h => ?_⟩
      · rw [heq] at hlonger
        exact List.eq_nil_of_length_eq_zero (by omega)
      · rw [h trivial]
        rfl
  | false =>
      cases k.anyMirror with
      | true => exact ⟨Nat.le_refl _, (fun _ h => nomatch h), fun _ => rfl⟩
      | false =>
          refine ⟨Nat.zero_le _, (fun _ h => nomatch h), ?_⟩
          intro _
          exact List.flatMap_eq_nil_iff.mpr fun _ _ => rfl

/-- One call. -/
theorem invoke_sends {k k' : Console} {c : MirrorCall} (h : k.invoke c = some k') :
    k'.sent = k.sent ++ c.text.flatMap k.mirrored := by
  cases c with
  | printf format args =>
      obtain ⟨r, hr, rfl⟩ := Option.map_eq_some_iff.mp h
      obtain ⟨s, hs, hsends⟩ := printf_sends hr
      rw [hsends.sent, MirrorCall.text, hs]
      rfl
  | terminalEnableSerial enable =>
      obtain rfl := Option.some.inj h
      exact (List.append_nil _).symm
  | printfEnableSerial enable =>
      obtain rfl := Option.some.inj h
      exact (List.append_nil _).symm
  | putcharEnableSerial enable =>
      obtain rfl := Option.some.inj h
      exact (List.append_nil _).symm

theorem wanted_cons {k k' : Console} {c : MirrorCall} (h : k.invoke c = some k') (cs : List MirrorCall) :
    k.wanted (c :: cs) =
      (if k.anyMirror then c.text.flatMap serialForm else []) ++ k'.wanted cs := by
  rw [wanted, h]

/-- The call emits nothing, or not under two mirrors. -/
def SingleMirror (k : Console) (c : MirrorCall) : Prop := k.twoMirrors = true → c.text = []

/-- A run sends at least what is wanted, and exactly that where no text is
emitted under two mirrors. -/
theorem run_sends : ∀ {calls : List MirrorCall} {k k' : Console}, Runs.run invoke k calls = some k' →
    ∃ out, k'.sent = k.sent ++ out ∧ (k.wanted calls).length ≤ out.length ∧
      (out = k.wanted calls ↔ Runs.Along invoke SingleMirror k calls)
  | [], k, _, h => by
      obtain rfl := Option.some.inj h
      exact ⟨[], (List.append_nil _).symm, Nat.le_refl _, fun _ => trivial, fun _ => rfl⟩
  | c :: cs, k, k', h => by
      obtain ⟨k₁, hcall, hrest⟩ := Runs.run_cons_some.mp h
      obtain ⟨out, hout, hlen, hiff⟩ := run_sends hrest
      obtain ⟨htext, htextIff⟩ := text_mirrored k c.text
      have hwanted := wanted_cons hcall cs
      have halong : Runs.Along invoke SingleMirror k (c :: cs) ↔
          SingleMirror k c ∧ Runs.Along invoke SingleMirror k₁ cs := by
        refine and_congr_right fun _ => ⟨fun hall => hall k₁ hcall, ?_⟩
        intro hall k₂ hk₂
        exact Option.some.inj (hcall.symm.trans hk₂) ▸ hall
      refine ⟨c.text.flatMap k.mirrored ++ out, ?_, ?_, ?_⟩
      · rw [hout, invoke_sends hcall, List.append_assoc]
      · rw [hwanted, List.length_append, List.length_append]
        exact Nat.add_le_add htext hlen
      · rw [hwanted, halong, ← hiff, SingleMirror, ← htextIff]
        exact append_eq_append_of_le htext hlen

/-- In every run of `printf` calls and flag changes each byte emitted reaches
COM1 once while a mirror is on and not at all otherwise, exactly when no text is
emitted under the two mirrors of `print` and `putchar`. -/
theorem mirrors_once_iff {k k' : Console} {calls : List MirrorCall}
    (h : Runs.run invoke k calls = some k') :
    k'.sent = k.sent ++ k.wanted calls ↔ Runs.Along invoke SingleMirror k calls := by
  obtain ⟨out, hout, -, hiff⟩ := run_sends h
  rw [hout, List.append_cancel_left_eq]
  exact hiff

theorem mirrors_once_single :
    let k := (Console.boot fun _ => 0#8).terminalInitialize 0x80000001#32
    let calls : List MirrorCall := [.terminalEnableSerial true, .printf (chars "A") []]
    ∃ k', Runs.run invoke k calls = some k' ∧
      (k'.sent = k.sent ++ k.wanted calls ↔ Runs.Along invoke SingleMirror k calls) := by
  intro k calls
  obtain ⟨k', h⟩ : ∃ k', Runs.run invoke k calls = some k' := ⟨_, rfl⟩
  exact ⟨k', h, mirrors_once_iff h⟩

theorem terminalInitialize_serial (cr0 : BitVec 32) (k : Console) :
    (k.terminalInitialize cr0).terminalSerial = k.terminalSerial := by
  rw [terminalInitialize_eq, (terminalWrite_sends _ _).terminal]
  exact (clearRows_touches (k.reset cr0) vgaHeight (Nat.le_refl _)).terminalSerial

/-- After `putchar_enable_serial(true)` and `printf_enable_serial(true)` alone,
`printf("A")` sends its one byte twice. -/
theorem mirrors_send_twice :
    let k := (Console.boot fun _ => 0#8).terminalInitialize 0x80000001#32
    let calls : List MirrorCall :=
      [.putcharEnableSerial true, .printfEnableSerial true, .printf (chars "A") []]
    ∃ k', Runs.run invoke k calls = some k' ∧ k.wanted calls = [65#8] ∧
      k'.sent = k.sent ++ [65#8, 65#8] := by
  intro k calls
  have hoff : k.terminalSerial = false := terminalInitialize_serial _ _
  have hout : printfOut ((cString (chars "A")).length + 1) (cString (chars "A")) [] 0 =
      some (1, [65#8]) := by decide +kernel
  have htext : (MirrorCall.printf (chars "A") []).text = [65#8] := by
    rw [MirrorCall.text, hout]
    rfl
  generalize k = k₀ at hoff ⊢
  obtain ⟨k₂, hk₂⟩ : ∃ k₂ : Console, k₂ = { k₀ with putcharSerial := true, printfSerial := true } :=
    ⟨_, rfl⟩
  obtain ⟨k', hcall⟩ : ∃ k', k₂.invoke (.printf (chars "A") []) = some k' := by
    rw [invoke, printf_eq, hout]
    exact ⟨_, rfl⟩
  refine ⟨k', ?_, ?_, ?_⟩
  · show ((Console.invoke { k₀ with putcharSerial := true, printfSerial := true }
      (.printf (chars "A") [])).bind fun k' => some k') = some k'
    rw [← hk₂, hcall]
    rfl
  · have hfirst : k₀.invoke (.putcharEnableSerial true) = some { k₀ with putcharSerial := true } := rfl
    have hsecond : Console.invoke { k₀ with putcharSerial := true } (.printfEnableSerial true) = some k₂ := by
      rw [hk₂]
      rfl
    have hany : k₂.anyMirror = true := by
      rw [hk₂, anyMirror, Bool.or_true]
    rw [wanted_cons hfirst, wanted_cons hsecond, wanted_cons hcall, htext, hany]
    cases k₀.anyMirror <;> cases Console.anyMirror { k₀ with putcharSerial := true } <;> rfl
  · have hsent := invoke_sends hcall
    have hmirrored : k₂.mirrored 65#8 = [65#8, 65#8] := by
      rw [hk₂, mirrored]
      dsimp only
      rw [hoff]
      rfl
    rw [htext, List.flatMap_singleton, hmirrored] at hsent
    rw [hsent, hk₂]
    rfl

end Console

end RedOS
