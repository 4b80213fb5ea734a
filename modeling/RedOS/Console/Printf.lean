/-
# `RedOS.Console.Printf` — `printf.c` and `putchar.c`

`printf` goes through its format once, handing every piece of text to `print`,
which hands every byte to `putchar`.  `va_arg` on an argument that is not there,
or of the wrong kind, has no meaning in C and ends the model with `none`.

    printfLoop_isSome    enough passes for any format whose arguments fit
    printf_returns       so such a call returns
    printf_spec          and touches only the terminal's cells
-/
import RedOS.Lib.Dispatch
import RedOS.Console.Screen

namespace RedOS

open ByteMemory Dispatch

namespace Console

/-- `putchar`.  It returns its argument, a byte, which is never `EOF`. -/
def putchar (c : BitVec 8) (k : Console) : Console :=
  let k := k.terminalWrite [c]
  if k.putcharSerial && !k.terminalSerial then
    let k := if c = 10#8 then k.serialCom1WriteByte 13#8 else k
    k.serialCom1WriteByte c
  else k

/-- One pass of the loop in `print`. -/
def printByte (k : Console) (b : BitVec 8) : Console :=
  let k := k.putchar b
  if k.printfSerial && !k.terminalSerial then
    let k := if b = 10#8 then k.serialCom1WriteByte 13#8 else k
    k.serialCom1WriteByte b
  else k

def print (data : List (BitVec 8)) (k : Console) : Console := data.foldl printByte k

end Console

/-! ## Conversions -/

/-- `(rem < 10) ? (rem + '0') : (rem - 10 + 'A')` -/
def digitChar (rem : Int) : BitVec 8 :=
  BitVec.ofInt 8 (if rem < 10 then rem + 48 else rem - 10 + 65)

/-- The digit loop of `itoa`, least significant digit first.  `num_str` has room
for `n` of them; a 32-bit number has fewer. -/
def itoaDigits (base : Int) : Nat → Int → List (BitVec 8)
  | 0, _ => []
  | n + 1, num =>
      if num = 0 then [] else digitChar (num.tmod base) :: itoaDigits base n (num.tdiv base)

/-- `itoa`; `-num` wraps. -/
def itoa (num : BitVec 32) (base : Int) : List (BitVec 8) :=
  if num = 0#32 then [48#8]
  else
    let isNegative := num.slt 0#32 && base == 10
    let num := if isNegative then -num else num
    let str := itoaDigits base 32 num.toInt
    (if isNegative then str ++ [45#8] else str).reverse

/-- `utoa` -/
def utoa (num : BitVec 32) (base : Int) : List (BitVec 8) :=
  if num = 0#32 then [48#8] else (itoaDigits base 32 num.toNat).reverse

/-- A NUL-terminated string. -/
def cString (s : List (BitVec 8)) : List (BitVec 8) := s.takeWhile (· ≠ 0#8)

/-- An argument of the same kind, without its value. -/
def Arg.kind : Arg → Arg
  | .word _ => .word 0#32
  | .str _ => .str none

/-- What `printf` does with the argument of a directive: the texts it prints one
after the other.  The outer `none` is a character that is no directive, the
inner one an argument of the wrong kind. -/
def directive (spec : BitVec 8) : Option (Arg → Option (List (List (BitVec 8)))) :=
  if spec = 99#8 then some fun -- 'c'
    | .word w => some [[w.setWidth 8]]
    | .str _ => none
  else if spec = 115#8 then some fun -- 's'
    | .word _ => none
    | .str s => some [(s.map cString).getD (chars "(null)")]
  else if spec = 100#8 || spec = 105#8 then some fun -- 'd', 'i'
    | .word w => some [itoa w 10]
    | .str _ => none
  else if spec = 117#8 then some fun -- 'u'
    | .word w => some [utoa w 10]
    | .str _ => none
  else if spec = 120#8 || spec = 88#8 then some fun -- 'x', 'X'
    | .word w => some [chars "0x", utoa w 16]
    | .str _ => none
  else if spec = 112#8 then some fun -- 'p'
    | .word w => some (if w = 0#32 then [chars "(nil)"] else [chars "0x", utoa w 16])
    | .str _ => none
  else none

/-! ## `printf` -/

/-- `INT_MAX` -/
def intMax : Nat := 2147483647

namespace Console

/-- `if (maxrem < len) return -1; print(text, len); written += len`, for each
text.  `maxrem` is what `written` leaves of `INT_MAX`; on the way out there is
no new value of `written`. -/
def printTexts : List (List (BitVec 8)) → Nat → Console → Option Nat × Console
  | [], written, k => (some written, k)
  | text :: texts, written, k =>
      if intMax - written < text.length then (none, k)
      else printTexts texts (written + text.length) (k.print text)

/-- The loop of `printf` for at most `n` passes. -/
def printfLoop : Nat → List (BitVec 8) → List Arg → Nat → Console → Option (Int × Console)
  | 0, _, _, _, _ => none
  | _ + 1, [], _, written, k => some (written, k)
  | n + 1, c :: rest, args, written, k =>
      if c ≠ 37#8 ∨ rest.head? = some 37#8 then
        let format := if c = 37#8 then rest else c :: rest
        let amount := 1 + (format.tail.takeWhile (· ≠ 37#8)).length
        match printTexts [format.take amount] written k with
        | (none, k) => some (-1, k)
        | (some written, k) => printfLoop n (format.drop amount) args written k
      else
        match rest.head?.bind directive, args with
        | some conv, arg :: args =>
            match conv arg with
            | none => none
            | some texts =>
                match printTexts texts written k with
                | (none, k) => some (-1, k)
                | (some written, k) => printfLoop n rest.tail args written k
        | some _, [] => none
        | none, args =>
            -- `format = format_begun_at`: the rest of the format as it is
            match printTexts [c :: rest] written k with
            | (none, k) => some (-1, k)
            | (some written, k) => printfLoop n [] args written k

/-- `printf` -/
def printf (format : List (BitVec 8)) (args : List Arg) (k : Console) : Option (Int × Console) := do
  let format := cString format
  let (r, k) ← printfLoop (format.length + 1) format args 0 (k.emit (.printf format args))
  pure (r, k.emit .ret)

/-! ## What a call touches -/

theorem com1_touches (b : BitVec 8) (k : Console) : Touches k (k.serialCom1WriteByte b) :=
  ⟨fun _ _ => rfl, rfl, rfl, rfl, rfl, rfl, .of_trace_snoc rfl trivial⟩

/-- The lines `print` and `putchar` share: a CR before a LF, then the byte. -/
theorem crlf_spec {k : Console} (hk : Ready k) (b : BitVec 8) (on : Bool) :
    let k' := if on then (if b = 10#8 then k.serialCom1WriteByte 13#8 else k).serialCom1WriteByte b
      else k
    Touches k k' ∧ Ready k' := by
  dsimp only
  split
  · split
    · exact ⟨(com1_touches _ _).trans (com1_touches _ _), hk.fits, hk.row, hk.column⟩
    · exact ⟨com1_touches _ _, hk.fits, hk.row, hk.column⟩
  · exact ⟨.refl k, hk⟩

theorem printByte_spec {k : Console} (hk : Ready k) (b : BitVec 8) :
    Touches k (k.printByte b) ∧ Ready (k.printByte b) := by
  obtain ⟨hterm, hready⟩ := terminalWrite_spec hk [b]
  obtain ⟨hput, hready'⟩ := crlf_spec hready b
    ((k.terminalWrite [b]).putcharSerial && !(k.terminalWrite [b]).terminalSerial)
  obtain ⟨hprint, hready''⟩ := crlf_spec hready' b
    ((k.putchar b).printfSerial && !(k.putchar b).terminalSerial)
  exact ⟨(hterm.trans hput).trans hprint, hready''⟩

theorem print_spec {k : Console} (hk : Ready k) (data : List (BitVec 8)) :
    Touches k (k.print data) ∧ Ready (k.print data) := by
  induction data generalizing k with
  | nil => exact ⟨.refl k, hk⟩
  | cons b bs ih =>
      obtain ⟨ht, hr⟩ := printByte_spec hk b
      obtain ⟨ht', hr'⟩ := ih hr
      exact ⟨ht.trans ht', hr'⟩

theorem printTexts_spec (texts : List (List (BitVec 8))) (written : Nat) {k : Console}
    (hk : Ready k) :
    Touches k (printTexts texts written k).2 ∧ Ready (printTexts texts written k).2 := by
  induction texts generalizing written k with
  | nil => exact ⟨.refl k, hk⟩
  | cons text texts ih =>
      unfold printTexts
      split
      · exact ⟨.refl k, hk⟩
      · obtain ⟨ht, hr⟩ := print_spec hk text
        obtain ⟨ht', hr'⟩ := ih (written + text.length) hr
        exact ⟨ht.trans ht', hr'⟩

/-- One piece of text and then the rest of the loop. -/
theorem afterTexts_spec {texts : List (List (BitVec 8))} {written : Nat} {k : Console}
    (hk : Ready k) {next : Nat → Console → Option (Int × Console)}
    (hnext : ∀ written' k' r, Ready k' → next written' k' = some r → Touches k' r.2 ∧ Ready r.2)
    {r : Int × Console} (h : (match printTexts texts written k with
      | (none, k) => some (-1, k)
      | (some written, k) => next written k) = some r) :
    Touches k r.2 ∧ Ready r.2 := by
  obtain ⟨ht, hr⟩ := printTexts_spec texts written hk
  cases hp : printTexts texts written k with
  | mk w k' =>
      rw [hp] at h ht hr
      cases w with
      | none =>
          obtain rfl := Option.some.inj h
          exact ⟨ht, hr⟩
      | some w =>
          obtain ⟨ht', hr'⟩ := hnext w k' r hr h
          exact ⟨ht.trans ht', hr'⟩

theorem printfLoop_spec (n : Nat) : ∀ (format : List (BitVec 8)) (args : List Arg) (written : Nat)
    (k : Console) (r : Int × Console), Ready k → printfLoop n format args written k = some r →
      Touches k r.2 ∧ Ready r.2 := by
  induction n with
  | zero => exact fun _ _ _ _ _ _ h => nomatch h
  | succ n ih =>
      intro format args written k r hk h
      cases format with
      | nil =>
          obtain rfl := Option.some.inj h
          exact ⟨.refl k, hk⟩
      | cons c rest =>
          unfold printfLoop at h
          split at h
          · exact afterTexts_spec hk (fun w k' r => ih _ _ w k' r) h
          · split at h
            · split at h
              · exact nomatch h
              · exact afterTexts_spec hk (fun w k' r => ih _ _ w k' r) h
            · exact nomatch h
            · exact afterTexts_spec hk (fun w k' r => ih _ _ w k' r) h

/-- What `printf` adds to the trace: the call, stores into cells, the return. -/
def PrintfTrace (format : List (BitVec 8)) (args : List Arg) (k k' : Console) : Prop :=
  ∃ es, k'.trace = k.trace ++ [.printf (cString format) args] ++ es ++ [.ret] ∧
    ∀ e ∈ es, HitsCell k.buffer e

theorem printf_spec {format : List (BitVec 8)} {args : List Arg} {k : Console} (hk : Ready k)
    {r : Int} {k' : Console} (h : k.printf format args = some (r, k')) :
    Ready k' ∧ k'.buffer = k.buffer ∧
      (∀ q, ¬ InBlock k.buffer (2 * (vgaWidth * vgaHeight)) q → k'.mem q = k.mem q) ∧
      PrintfTrace format args k k' := by
  unfold printf at h
  dsimp only at h
  obtain ⟨⟨r₁, k₁⟩, hloop, hret⟩ := Option.bind_eq_some_iff.mp h
  obtain ⟨rfl, rfl⟩ := Prod.mk.inj (Option.some.inj hret)
  have hready : Ready (k.emit (.printf (cString format) args)) := ⟨hk.fits, hk.row, hk.column⟩
  obtain ⟨ht, hr⟩ := printfLoop_spec _ _ _ _ _ _ hready hloop
  obtain ⟨es, htrace, hes⟩ := ht.emits
  refine ⟨⟨hr.fits, hr.row, hr.column⟩, ht.buffer, ht.outside, es, ?_, hes⟩
  show k₁.trace ++ [.ret] = _
  rw [htrace]
  rfl

/-! ## Which calls return -/

theorem directive_kind (spec : BitVec 8) :
    Entries (fun conv => ∀ arg, (conv arg.kind).isSome = (conv arg).isSome) (directive spec) := by
  unfold directive
  refine .ite ?char <| .ite ?string <| .ite ?signed <| .ite ?unsigned <| .ite ?hex <|
    .ite ?pointer <| .none _
  all_goals
    intro arg
    cases arg with
    | word w => rfl
    | str s => rfl

/-- The arguments are there and of the kind the directives ask for. -/
def accepts : Nat → List (BitVec 8) → List Arg → Bool
  | 0, _, _ => false
  | _ + 1, [], _ => true
  | n + 1, c :: rest, args =>
      if c ≠ 37#8 ∨ rest.head? = some 37#8 then
        let format := if c = 37#8 then rest else c :: rest
        let amount := 1 + (format.tail.takeWhile (· ≠ 37#8)).length
        accepts n (format.drop amount) args
      else
        match rest.head?.bind directive, args with
        | some conv, arg :: args => (conv arg).isSome && accepts n rest.tail args
        | some _, [] => false
        | none, args => accepts n [] args

theorem afterTexts_isSome {texts : List (List (BitVec 8))} {written : Nat} {k : Console}
    {next : Nat → Console → Option (Int × Console)} (hnext : ∀ w k', (next w k').isSome) :
    (match printTexts texts written k with
      | (none, k) => some (-1, k)
      | (some written, k) => next written k).isSome := by
  split
  · rfl
  · exact hnext _ _

theorem printfLoop_isSome (n : Nat) : ∀ (format : List (BitVec 8)) (args : List Arg),
    accepts n format args = true → ∀ written k, (printfLoop n format args written k).isSome := by
  induction n with
  | zero => exact fun _ _ h => nomatch h
  | succ n ih =>
      intro format args h written k
      cases format with
      | nil => rfl
      | cons c rest =>
          unfold accepts at h
          unfold printfLoop
          split at h
          next hlit =>
            rw [if_pos hlit]
            exact afterTexts_isSome fun w k' => ih _ _ h w k'
          next hlit =>
            rw [if_neg hlit]
            split at h
            next conv arg args _ =>
              obtain ⟨hconv, hrest⟩ := Bool.and_eq_true_iff.mp h
              obtain ⟨texts, htexts⟩ := Option.isSome_iff_exists.mp hconv
              rw [htexts]
              exact afterTexts_isSome fun w k' => ih _ _ hrest w k'
            next => exact nomatch h
            next =>
              exact afterTexts_isSome fun w k' => ih _ _ h w k'

/-- Of an argument only its kind counts. -/
theorem accepts_kind (n : Nat) (format : List (BitVec 8)) (args : List Arg) :
    accepts n format (args.map Arg.kind) = accepts n format args := by
  induction n, format, args using accepts.induct with
  | case1 => rfl
  | case2 => rfl
  | case3 n c rest args hlit piece amount ih =>
      unfold accepts
      rw [if_pos hlit, if_pos hlit]
      exact ih
  | case4 n c rest hlit conv arg args hconv ih =>
      unfold accepts
      rw [if_neg hlit, if_neg hlit, hconv, List.map_cons]
      dsimp only
      rw [ih]
      obtain ⟨spec, -, hspec⟩ := Option.bind_eq_some_iff.mp hconv
      rw [directive_kind spec conv hspec]
  | case5 n c rest hlit conv hconv =>
      unfold accepts
      rw [if_neg hlit, if_neg hlit, hconv]
      rfl
  | case6 n c rest hlit args hnone ih =>
      unfold accepts
      rw [if_neg hlit, if_neg hlit, hnone]
      exact ih

/-- The same for a literal format. -/
theorem accepts_ofList {text : List Char} {args : List Arg}
    (h : let format := cString (text.map fun c => BitVec.ofNat 8 c.toNat)
      accepts (format.length + 1) format (args.map Arg.kind) = true) :
    accepts ((cString (chars (String.ofList text))).length + 1) (cString (chars (String.ofList text)))
      args = true := by
  rw [chars_ofList, ← accepts_kind]
  exact h

/-- A call whose arguments are what its format asks for returns. -/
theorem printf_returns {format : List (BitVec 8)} {args : List Arg}
    (h : accepts ((cString format).length + 1) (cString format) args = true) (k : Console) :
    ∃ r k', k.printf format args = some (r, k') := by
  obtain ⟨⟨r, k₁⟩, hloop⟩ := Option.isSome_iff_exists.mp
    (printfLoop_isSome _ _ _ h 0 (k.emit (.printf (cString format) args)))
  exact ⟨r, k₁.emit .ret, by unfold printf; dsimp only; rw [hloop]; rfl⟩

end Console

end RedOS
