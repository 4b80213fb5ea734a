/-
# `RedOS.Console.Render` — what `printf` prints

`renderWith conv` is the format language with the directives of `conv`: ordinary
characters, `%%`, directives that take the next argument, and the format left as
it is from the first other `%` on.  `printf` differs from it by the length it
can count to.

    itoa_eq, utoa_eq    the digit loops write canonical numerals
    printf_eq           `printf` prints a text that is computed without a console
    printf_text         all of it, where an `int` can count it
    printf_renders      and the text is the reference rendering
-/
import RedOS.Lib.Numeral
import RedOS.Console.Printf

namespace RedOS

open Dispatch Numeral

/-! ## Numerals -/

/-- `0` to `9`, `A` to `Z` -/
def upperDigit (d : Nat) : BitVec 8 := BitVec.ofNat 8 (if d < 10 then 48 + d else 55 + d)

/-- `0` to `9`, `a` to `z` -/
def lowerDigit (d : Nat) : BitVec 8 := BitVec.ofNat 8 (if d < 10 then 48 + d else 87 + d)

/-- The decimal numeral of an integer. -/
def signedNumeral (z : Int) : List (BitVec 8) :=
  if z < 0 then 45#8 :: numeral upperDigit 10 z.natAbs else numeral upperDigit 10 z.natAbs

theorem digitChar_eq : ∀ d : Nat, d < 16 → digitChar d = upperDigit d := by decide

/-- The digit loop, for a number its passes are enough for. -/
theorem itoaDigits_eq {base : Nat} (hb : 1 < base) (hb' : base ≤ 16) : ∀ (n m : Nat), m < base ^ n →
    itoaDigits base n m = (Nat.digits base m).map upperDigit
  | 0, m, hm => by
      obtain rfl : m = 0 := Nat.lt_one_iff.mp hm
      rw [Nat.digits_zero]
      rfl
  | n + 1, m, hm => by
      unfold itoaDigits
      by_cases hzero : m = 0
      · subst hzero
        rw [if_pos Int.natCast_zero, Nat.digits_zero, List.map_nil]
      · have hquot : m / base < base ^ n := by
          rw [Nat.div_lt_iff_lt_mul (Nat.lt_of_succ_lt hb)]
          exact hm
        have hdigit : digitChar ((m : Int).tmod base) = upperDigit (m % base) := by
          rw [← Int.ofNat_tmod]
          exact digitChar_eq _ (Nat.lt_of_lt_of_le (Nat.mod_lt m (Nat.lt_of_succ_lt hb)) hb')
        rw [if_neg fun h => hzero (Int.natCast_eq_zero.mp h), hdigit, ← Int.ofNat_tdiv,
          itoaDigits_eq hb hb' n _ hquot, Nat.digits_eq_cons_digits_div hb hzero, List.map_cons]

theorem numeral_of_ne_zero {α : Type} (char : Nat → α) {base n : Nat} (h : n ≠ 0) :
    numeral char base n = ((Nat.digits base n).map char).reverse := by
  rw [numeral, digits_of_ne_zero h]

/-- `utoa` writes the numeral of its number. -/
theorem utoa_eq {base : Nat} (hb : 1 < base) (hb' : base ≤ 16) (w : BitVec 32) :
    utoa w base = numeral upperDigit base w.toNat := by
  unfold utoa
  by_cases hzero : w = 0#32
  · subst hzero
    rw [if_pos rfl]
    rfl
  · have hne : w.toNat ≠ 0 := fun h => hzero (BitVec.eq_of_toNat_eq h)
    have hfits : w.toNat < base ^ 32 :=
      Nat.lt_of_lt_of_le w.isLt (Nat.pow_le_pow_left hb 32)
    rw [if_neg hzero, itoaDigits_eq hb hb' 32 _ hfits, numeral_of_ne_zero _ hne]

theorem utoa_decimal (w : BitVec 32) : utoa w 10 = numeral upperDigit 10 w.toNat :=
  utoa_eq (by decide) (by decide) w

theorem utoa_hex (w : BitVec 32) : utoa w 16 = numeral upperDigit 16 w.toNat :=
  utoa_eq (by decide) (by decide) w

/-- `INT_MIN` -/
def intMin : BitVec 32 := 0x80000000#32

/-- `itoa` writes the signed numeral, of every number but the one that `-num`
does not negate. -/
theorem itoa_eq {w : BitVec 32} (h : w ≠ intMin) : itoa w 10 = signedNumeral w.toInt := by
  have hten : ∀ {m : Nat}, m < 2 ^ 32 → itoaDigits 10 32 (m : Int) = (Nat.digits 10 m).map upperDigit :=
    fun hm => itoaDigits_eq (by decide) (by decide) 32 _ (Nat.lt_of_lt_of_le hm (by decide))
  unfold itoa
  by_cases hzero : w = 0#32
  · subst hzero
    rw [if_pos rfl]
    rfl
  rw [if_neg hzero]
  have hsign : (w.slt 0#32 && (10 : Int) == 10) = decide (w.toInt < 0) := by
    rw [BitVec.slt_eq_decide, BitVec.toInt_zero]
    exact Bool.and_true _
  have hint : w.toInt ≠ 0 := fun h0 => hzero (BitVec.eq_of_toInt_eq h0)
  have hbound := BitVec.two_mul_toInt_lt (x := w)
  have hbound' := BitVec.le_two_mul_toInt (x := w)
  unfold signedNumeral
  dsimp only
  rw [hsign]
  by_cases hneg : w.toInt < 0
  · rw [decide_eq_true hneg, if_pos rfl, if_pos rfl, if_pos hneg]
    have hnum : (-w).toInt = (w.toInt.natAbs : Int) := by
      rw [BitVec.toInt_neg_of_ne_intMin h, Int.ofNat_natAbs_of_nonpos (Int.le_of_lt hneg)]
    rw [hnum, hten (by omega), numeral_of_ne_zero _ (Int.natAbs_ne_zero.mpr hint),
      List.reverse_append]
    rfl
  · rw [decide_eq_false hneg, if_neg Bool.false_ne_true, if_neg Bool.false_ne_true, if_neg hneg]
    have hnum : w.toInt = (w.toInt.natAbs : Int) := by
      rw [Int.natAbs_of_nonneg (Int.not_lt.mp hneg)]
    have hdigits := hten (m := w.toInt.natAbs) (by omega)
    rw [← hnum] at hdigits
    rw [hdigits, numeral_of_ne_zero _ (Int.natAbs_ne_zero.mpr hint)]

/-- Texts no shorter than others, put together, are these only one by one. -/
theorem append_eq_append_of_le {a a' b b' : List (BitVec 8)} (ha : a'.length ≤ a.length)
    (hb : b'.length ≤ b.length) : a ++ b = a' ++ b' ↔ a = a' ∧ b = b' := by
  constructor
  · intro heq
    have hcount := congrArg List.length heq
    rw [List.length_append, List.length_append] at hcount
    exact List.append_inj heq (by omega)
  · rintro ⟨h₁, h₂⟩
    rw [h₁, h₂]

/-! ## The format language -/

/-- How directives render their argument.  The outer `none` is a character that
is no directive, the inner one an argument that does not match. -/
abbrev Directives := BitVec 8 → Option (Arg → Option (List (BitVec 8)))

/-- The text of a format; `none` where an argument is missing or does not match. -/
def renderWith (conv : Directives) : List (BitVec 8) → List Arg → Option (List (BitVec 8))
  | [], _ => some []
  | [c], _ => some [c]
  | c :: spec :: rest, args =>
      if c ≠ 37#8 then (renderWith conv (spec :: rest) args).map (c :: ·)
      else if spec = 37#8 then (renderWith conv rest args).map (37#8 :: ·)
      else
        match conv spec, args with
        | some render, arg :: args =>
            match render arg, renderWith conv rest args with
            | some text, some tail => some (text ++ tail)
            | _, _ => none
        | some _, [] => none
        -- the rest of the format as it is
        | none, _ => some (c :: spec :: rest)

/-- The directives as their documentation in C has them.  A signed argument is
any but `INT_MIN`, of which `-num` is no positive number. -/
def reference : Directives := fun spec =>
  if spec = 99#8 then some fun -- 'c'
    | .word w => some [w.setWidth 8]
    | .str _ => none
  else if spec = 115#8 then some fun -- 's'
    | .word _ => none
    | .str s => some ((s.map cString).getD (chars "(null)"))
  else if spec = 100#8 || spec = 105#8 then some fun -- 'd', 'i'
    | .word w => if w = intMin then none else some (signedNumeral w.toInt)
    | .str _ => none
  else if spec = 117#8 then some fun -- 'u'
    | .word w => some (numeral upperDigit 10 w.toNat)
    | .str _ => none
  else if spec = 120#8 || spec = 88#8 then some fun -- 'x', 'X'
    | .word w => some (chars "0x" ++ numeral upperDigit 16 w.toNat)
    | .str _ => none
  else if spec = 112#8 then some fun -- 'p'
    | .word w => some (if w = 0#32 then chars "(nil)" else chars "0x" ++ numeral upperDigit 16 w.toNat)
    | .str _ => none
  else none

/-- The directives as `printf` prints them. -/
def printed : Directives := fun spec =>
  (directive spec).map fun texts arg => (texts arg).map List.flatten

section Language

variable {conv : Directives}

theorem renderWith_ordinary {c : BitVec 8} (hc : c ≠ 37#8) (rest : List (BitVec 8)) (args : List Arg) :
    renderWith conv (c :: rest) args = (renderWith conv rest args).map (c :: ·) := by
  cases rest with
  | nil => rfl
  | cons spec rest => exact if_pos hc

theorem renderWith_percent (rest : List (BitVec 8)) (args : List Arg) :
    renderWith conv (37#8 :: 37#8 :: rest) args = (renderWith conv rest args).map (37#8 :: ·) := by
  exact (if_neg (not_not_intro rfl)).trans (if_pos rfl)

theorem renderWith_unknown {spec : BitVec 8} (hspec : spec ≠ 37#8) (hconv : conv spec = none)
    (rest : List (BitVec 8)) (args : List Arg) :
    renderWith conv (37#8 :: spec :: rest) args = some (37#8 :: spec :: rest) := by
  unfold renderWith
  rw [if_neg (not_not_intro rfl), if_neg hspec, hconv]

theorem renderWith_missing {spec : BitVec 8} (hspec : spec ≠ 37#8)
    {render : Arg → Option (List (BitVec 8))} (hconv : conv spec = some render)
    (rest : List (BitVec 8)) : renderWith conv (37#8 :: spec :: rest) [] = none := by
  unfold renderWith
  rw [if_neg (not_not_intro rfl), if_neg hspec, hconv]

/-- A directive takes the next argument. -/
theorem renderWith_directive {spec : BitVec 8} (hspec : spec ≠ 37#8)
    {render : Arg → Option (List (BitVec 8))} (hconv : conv spec = some render)
    (rest : List (BitVec 8)) (arg : Arg) (args : List Arg) (text : List (BitVec 8)) :
    renderWith conv (37#8 :: spec :: rest) (arg :: args) = some text ↔
      ∃ piece tail, render arg = some piece ∧ renderWith conv rest args = some tail ∧
        text = piece ++ tail := by
  conv_lhs =>
    unfold renderWith
    rw [if_neg (not_not_intro rfl), if_neg hspec, hconv]
  dsimp only
  cases render arg with
  | none => exact ⟨(fun h => nomatch h), fun ⟨_, _, h, _⟩ => nomatch h⟩
  | some piece =>
      cases renderWith conv rest args with
      | none => exact ⟨(fun h => nomatch h), fun ⟨_, _, _, h, _⟩ => nomatch h⟩
      | some tail =>
          constructor
          · rintro h
            exact ⟨piece, tail, rfl, rfl, (Option.some.inj h).symm⟩
          · rintro ⟨_, _, hp, ht, rfl⟩
            rw [Option.some.inj hp, Option.some.inj ht]

/-- A run of ordinary characters. -/
theorem renderWith_run {run : List (BitVec 8)} (hrun : ∀ c ∈ run, c ≠ 37#8) (rest : List (BitVec 8))
    (args : List Arg) :
    renderWith conv (run ++ rest) args = (renderWith conv rest args).map (run ++ ·) := by
  induction run with
  | nil =>
      rw [List.nil_append]
      exact Option.map_id'.symm
  | cons c run ih =>
      rw [List.cons_append, renderWith_ordinary (hrun c List.mem_cons_self),
        ih fun b hb => hrun b (List.mem_cons_of_mem c hb), Option.map_map]
      rfl

/-- The ordinary characters from the start of a format on. -/
theorem renderWith_piece (rest : List (BitVec 8)) (args : List Arg) :
    renderWith conv (rest.takeWhile (· ≠ 37#8) ++ rest.dropWhile (· ≠ 37#8)) args =
      (renderWith conv (rest.dropWhile (· ≠ 37#8)) args).map (rest.takeWhile (· ≠ 37#8) ++ ·) := by
  have hall := List.all_eq_true.mp (List.all_takeWhile (l := rest) (p := fun b => decide (b ≠ 37#8)))
  exact renderWith_run (fun b hb => of_decide_eq_true (hall b hb)) _ args

end Language

/-! ## `printf` without a console -/

/-- What `printTexts` prints, and its count. -/
def textsOut : List (List (BitVec 8)) → Nat → Option Nat × List (BitVec 8)
  | [], written => (some written, [])
  | text :: texts, written =>
      if intMax - written < text.length then (none, [])
      else
        let (count, out) := textsOut texts (written + text.length)
        (count, text ++ out)

/-- The loop of `printf`: its result and the bytes it passes to `putchar`. -/
def printfOut : Nat → List (BitVec 8) → List Arg → Nat → Option (Int × List (BitVec 8))
  | 0, _, _, _ => none
  | _ + 1, [], _, written => some (written, [])
  | n + 1, c :: rest, args, written =>
      if c ≠ 37#8 ∨ rest.head? = some 37#8 then
        let format := if c = 37#8 then rest else c :: rest
        let amount := 1 + (format.tail.takeWhile (· ≠ 37#8)).length
        match textsOut [format.take amount] written with
        | (none, out) => some (-1, out)
        | (some written, out) =>
            (printfOut n (format.drop amount) args written).map fun r => (r.1, out ++ r.2)
      else
        match rest.head?.bind directive, args with
        | some conv, arg :: args =>
            match conv arg with
            | none => none
            | some texts =>
                match textsOut texts written with
                | (none, out) => some (-1, out)
                | (some written, out) =>
                    (printfOut n rest.tail args written).map fun r => (r.1, out ++ r.2)
        | some _, [] => none
        | none, args =>
            match textsOut [c :: rest] written with
            | (none, out) => some (-1, out)
            | (some written, out) => (printfOut n [] args written).map fun r => (r.1, out ++ r.2)

namespace Console

theorem print_append (text text' : List (BitVec 8)) (k : Console) :
    k.print (text ++ text') = (k.print text).print text' := List.foldl_append

theorem printTexts_eq : ∀ (texts : List (List (BitVec 8))) (written : Nat) (k : Console),
    printTexts texts written k = ((textsOut texts written).1, k.print (textsOut texts written).2)
  | [], _, _ => rfl
  | text :: texts, written, k => by
      unfold printTexts textsOut
      split
      · rfl
      · rw [printTexts_eq texts, ← print_append]

/-- What follows a piece of text, with and without a console. -/
theorem afterTexts_eq (texts : List (List (BitVec 8))) (written : Nat) (k : Console)
    {next : Nat → Console → Option (Int × Console)} {out : Nat → Option (Int × List (BitVec 8))}
    (hnext : ∀ written k, next written k = (out written).map fun r => (r.1, k.print r.2)) :
    (match printTexts texts written k with
      | (none, k) => some (-1, k)
      | (some written, k) => next written k) =
    Option.map (fun r : Int × List (BitVec 8) => (r.1, k.print r.2))
      (match textsOut texts written with
        | (none, text) => some (-1, text)
        | (some written, text) => (out written).map fun r => (r.1, text ++ r.2)) := by
  rw [printTexts_eq]
  cases textsOut texts written with
  | mk count text =>
      cases count with
      | none => rfl
      | some written =>
          show next written (k.print text) =
            Option.map _ ((out written).map fun r => (r.1, text ++ r.2))
          rw [hnext, Option.map_map]
          refine congrArg (Option.map · (out written)) (funext ?_)
          intro r
          show (r.1, (k.print text).print r.2) = (r.1, k.print (text ++ r.2))
          rw [print_append]

theorem printfLoop_eq : ∀ (n : Nat) (format : List (BitVec 8)) (args : List Arg) (written : Nat)
    (k : Console), printfLoop n format args written k =
      (printfOut n format args written).map fun r => (r.1, k.print r.2)
  | 0, _, _, _, _ => rfl
  | n + 1, [], _, _, _ => rfl
  | n + 1, c :: rest, args, written, k => by
      unfold printfLoop printfOut
      by_cases hlit : c ≠ 37#8 ∨ rest.head? = some 37#8
      · rw [if_pos hlit, if_pos hlit]
        exact afterTexts_eq _ written k fun w k => printfLoop_eq n _ args w k
      · rw [if_neg hlit, if_neg hlit]
        cases rest.head?.bind directive with
        | none => exact afterTexts_eq _ written k fun w k => printfLoop_eq n _ _ w k
        | some conv =>
            cases args with
            | nil => rfl
            | cons arg args =>
                dsimp only
                cases conv arg with
                | none => rfl
                | some texts => exact afterTexts_eq _ written k fun w k => printfLoop_eq n _ args w k

/-- `printf` passes a text to `putchar` that does not depend on the console. -/
theorem printf_eq (format : List (BitVec 8)) (args : List Arg) (k : Console) :
    k.printf format args =
      (printfOut ((cString format).length + 1) (cString format) args 0).map fun r =>
        (r.1, ((k.emit (.printf (cString format) args)).print r.2).emit .ret) := by
  unfold printf
  dsimp only
  rw [printfLoop_eq, Option.bind_eq_bind, Option.bind_map]
  cases printfOut ((cString format).length + 1) (cString format) args 0 with
  | none => rfl
  | some r => rfl

end Console

/-! ## The reference rendering -/

/-- `r` is what `printf` has to say of `text` with `written` bytes behind it: all
of it and the count, or -1 and a part where the count does not fit an `int`. -/
structure Prints (text : List (BitVec 8)) (written : Nat) (r : Int × List (BitVec 8)) : Prop where
  part : r.2 <+: text
  whole : written + text.length ≤ intMax → r = (((written + text.length : Nat) : Int), text)
  cut : intMax < written + text.length → r.1 = -1

theorem textsOut_spec : ∀ (texts : List (List (BitVec 8))) (written : Nat), written ≤ intMax →
    (written + texts.flatten.length ≤ intMax ∧
      textsOut texts written = (some (written + texts.flatten.length), texts.flatten)) ∨
    (intMax < written + texts.flatten.length ∧
      ∃ out, out <+: texts.flatten ∧ textsOut texts written = (none, out))
  | [], written, hw => Or.inl ⟨hw, rfl⟩
  | text :: texts, written, hw => by
      have hlen : (text :: texts).flatten.length = text.length + texts.flatten.length := by
        rw [List.flatten_cons, List.length_append]
      unfold textsOut
      rw [hlen]
      split
      next hfull => exact Or.inr ⟨by omega, [], List.nil_prefix, rfl⟩
      next hroom =>
        rcases textsOut_spec texts (written + text.length) (by omega) with ⟨hle, heq⟩ | ⟨hlt, out, hpre, heq⟩
        · refine Or.inl ⟨by omega, ?_⟩
          rw [heq, List.flatten_cons, Nat.add_assoc]
        · refine Or.inr ⟨by omega, text ++ out, ?_, ?_⟩
          · rw [List.flatten_cons]
            exact List.prefix_append_right_inj text |>.mpr hpre
          · rw [heq]

/-- A piece of text and what follows it. -/
theorem afterTexts_prints {texts : List (List (BitVec 8))} {written : Nat} {tail : List (BitVec 8)}
    (hw : written ≤ intMax) {out : Nat → Option (Int × List (BitVec 8))}
    (hout : ∀ written, written ≤ intMax → ∃ r, out written = some r ∧ Prints tail written r) :
    ∃ r, (match textsOut texts written with
      | (none, text) => some (-1, text)
      | (some written, text) => (out written).map fun r => (r.1, text ++ r.2)) = some r ∧
        Prints (texts.flatten ++ tail) written r := by
  have hlen : (texts.flatten ++ tail).length = texts.flatten.length + tail.length := List.length_append
  rcases textsOut_spec texts written hw with ⟨hle, heq⟩ | ⟨hlt, text, hpre, heq⟩
  · obtain ⟨r, hr, hprints⟩ := hout _ hle
    rw [heq]
    refine ⟨(r.1, texts.flatten ++ r.2), ?_, ?_, ?_, ?_⟩
    · show Option.map _ (out (written + texts.flatten.length)) = _
      rw [hr]
      rfl
    · exact (List.prefix_append_right_inj _).mpr hprints.part
    · intro hfit
      have hall := hprints.whole (by omega)
      rw [hall, hlen, Nat.add_assoc]
    · intro hover
      exact hprints.cut (by omega)
  · rw [heq]
    refine ⟨(-1, text), rfl, ?_, ?_, fun _ => rfl⟩
    · exact hpre.trans (List.prefix_append _ _)
    · intro hfit
      omega

/-- The rest of a format printed as it is. -/
theorem verbatim_prints (text : List (BitVec 8)) {n written : Nat} (args : List Arg) (hn : 0 < n)
    (hw : written ≤ intMax) :
    ∃ r, (match textsOut [text] written with
      | (none, out) => some (-1, out)
      | (some written, out) => (printfOut n [] args written).map fun r => (r.1, out ++ r.2)) = some r ∧
        Prints text written r := by
  obtain ⟨m, rfl⟩ := Nat.exists_eq_succ_of_ne_zero (Nat.ne_of_gt hn)
  have hnil : ∀ written, written ≤ intMax → ∃ r, printfOut (m + 1) [] args written = some r ∧
      Prints [] written r := fun written hle =>
    ⟨_, rfl, List.prefix_rfl, fun _ => rfl, fun hlt => absurd hle (Nat.not_le_of_lt hlt)⟩
  have h := @afterTexts_prints [text] _ _ hw _ hnil
  rwa [List.flatten_singleton, List.append_nil] at h

/-- `printfOut n` prints the renderings of formats shorter than `n`. -/
def Renders (n : Nat) : Prop :=
  ∀ (format : List (BitVec 8)) (args : List Arg) (written : Nat) (text : List (BitVec 8)),
    format.length < n → written ≤ intMax → renderWith printed format args = some text →
      ∃ r, printfOut n format args written = some r ∧ Prints text written r

/-- A piece of text: its first character `d`, the ordinary ones after it, and
then the rest of the format. -/
theorem piece_prints {n : Nat} (ih : Renders n) (d : BitVec 8) {rest : List (BitVec 8)}
    {args : List Arg} {written : Nat} {text : List (BitVec 8)} (hlen : rest.length < n)
    (hw : written ≤ intMax) (h : (renderWith printed rest args).map (d :: ·) = some text) :
    ∃ r, (match textsOut [(d :: rest).take (1 + (rest.takeWhile (· ≠ 37#8)).length)] written with
      | (none, out) => some (-1, out)
      | (some written, out) =>
          (printfOut n ((d :: rest).drop (1 + (rest.takeWhile (· ≠ 37#8)).length)) args written).map
            fun r => (r.1, out ++ r.2)) = some r ∧ Prints text written r := by
  have hsplit := List.takeWhile_append_dropWhile (l := rest) (p := fun b => decide (b ≠ 37#8))
  have hrender := @renderWith_piece printed rest args
  generalize rest.takeWhile (fun b => decide (b ≠ 37#8)) = run at hsplit hrender ⊢
  generalize rest.dropWhile (fun b => decide (b ≠ 37#8)) = after at hsplit hrender
  rw [hsplit] at hrender
  rw [hrender] at h
  obtain ⟨whole, hwhole, rfl⟩ := Option.map_eq_some_iff.mp h
  obtain ⟨last, hlast, rfl⟩ := Option.map_eq_some_iff.mp hwhole
  have htake : (d :: rest).take (1 + run.length) = d :: run := by
    rw [Nat.add_comm, List.take_succ_cons, ← hsplit, List.take_left']
    rfl
  have hdrop : (d :: rest).drop (1 + run.length) = after := by
    rw [Nat.add_comm, List.drop_succ_cons, ← hsplit, List.drop_left']
    rfl
  have hafter : after.length < n := by
    have hle := congrArg List.length hsplit
    rw [List.length_append] at hle
    omega
  rw [htake, hdrop]
  have hout := @afterTexts_prints [d :: run] _ _ hw _ fun w hle =>
    ih after args w last hafter hle hlast
  rwa [List.flatten_singleton] at hout

/-- A directive, or a `%` that is none. -/
theorem directive_prints {n : Nat} (ih : Renders n) {spec : BitVec 8} (hspec : spec ≠ 37#8)
    {rest : List (BitVec 8)} {args : List Arg} {written : Nat} {text : List (BitVec 8)}
    (hlen : rest.length + 1 < n) (hw : written ≤ intMax)
    (h : renderWith printed (37#8 :: spec :: rest) args = some text) :
    ∃ r, (match directive spec, args with
      | some conv, arg :: args =>
          match conv arg with
          | none => none
          | some texts =>
              match textsOut texts written with
              | (none, out) => some (-1, out)
              | (some written, out) =>
                  (printfOut n rest args written).map fun r => (r.1, out ++ r.2)
      | some _, [] => none
      | none, args =>
          match textsOut [37#8 :: spec :: rest] written with
          | (none, out) => some (-1, out)
          | (some written, out) => (printfOut n [] args written).map fun r => (r.1, out ++ r.2)) =
        some r ∧ Prints text written r := by
  cases hdir : directive spec with
  | none =>
      have hunknown : printed spec = none := by rw [printed, hdir, Option.map_none]
      rw [renderWith_unknown hspec hunknown] at h
      obtain rfl := Option.some.inj h
      exact verbatim_prints _ args (by omega) hw
  | some conv =>
      have hconv : printed spec = some fun arg => (conv arg).map List.flatten := by
        rw [printed, hdir, Option.map_some]
      cases args with
      | nil =>
          rw [renderWith_missing hspec hconv] at h
          exact nomatch h
      | cons arg args =>
          obtain ⟨piece, tail, hpiece, htail, rfl⟩ :=
            (renderWith_directive hspec hconv rest arg args text).mp h
          obtain ⟨texts, htexts, rfl⟩ := Option.map_eq_some_iff.mp hpiece
          dsimp only
          rw [htexts]
          exact afterTexts_prints hw fun w hle => ih rest args w tail (by omega) hle htail

/-- The loop prints the rendering, with passes for every character. -/
theorem printfOut_renders : ∀ n, Renders n
  | 0, _, _, _, _, hn, _, _ => absurd hn (Nat.not_lt_zero _)
  | n + 1, [], _, written, text, _, hw, h => by
      obtain rfl := Option.some.inj h
      exact ⟨_, rfl, List.prefix_rfl, fun _ => rfl, fun hlt => absurd hw (Nat.not_le_of_lt hlt)⟩
  | n + 1, c :: rest, args, written, text, hn, hw, h => by
      have ih := printfOut_renders n
      rw [List.length_cons] at hn
      unfold printfOut
      by_cases hc : c = 37#8
      · subst hc
        cases rest with
        | nil =>
            obtain rfl := Option.some.inj h
            have hlone : ¬ ((37#8 : BitVec 8) ≠ 37#8 ∨ ([] : List (BitVec 8)).head? = some 37#8) :=
              fun hlit => hlit.elim (fun hne => hne rfl) fun hhead => nomatch hhead
            rw [if_neg hlone]
            exact verbatim_prints [37#8] args (Nat.lt_of_succ_lt_succ hn) hw
        | cons spec rest =>
            rw [List.length_cons] at hn
            by_cases hspec : spec = 37#8
            · subst hspec
              have hlit : (37#8 : BitVec 8) ≠ 37#8 ∨ (37#8 :: rest).head? = some 37#8 := Or.inr rfl
              rw [if_pos hlit]
              dsimp only
              rw [if_pos rfl]
              rw [renderWith_percent] at h
              have hshort : rest.length < n := by omega
              exact piece_prints ih 37#8 hshort hw h
            · have hlit : ¬ ((37#8 : BitVec 8) ≠ 37#8 ∨ (spec :: rest).head? = some 37#8) :=
                fun hlit => hlit.elim (fun hne => hne rfl) fun hhead => hspec (Option.some.inj hhead)
              rw [if_neg hlit]
              have hshort : rest.length + 1 < n := by omega
              exact directive_prints ih hspec hshort hw h
      · rw [if_pos (Or.inl hc)]
        dsimp only
        rw [if_neg hc]
        rw [renderWith_ordinary hc] at h
        have hshort : rest.length < n := by omega
        exact piece_prints ih c hshort hw h

/-- Every directive prints its reference rendering, where there is one. -/
theorem reference_printed (spec : BitVec 8) :
    Option.Rel (fun render texts => ∀ arg text, render arg = some text →
      (texts arg).map List.flatten = some text) (reference spec) (directive spec) := by
  have hmatch : ∀ {render : Arg → Option (List (BitVec 8))}
      {texts : Arg → Option (List (List (BitVec 8)))},
      (∀ w text, render (.word w) = some text → (texts (.word w)).map List.flatten = some text) →
      (∀ s text, render (.str s) = some text → (texts (.str s)).map List.flatten = some text) →
      ∀ arg text, render arg = some text → (texts arg).map List.flatten = some text := by
    intro render texts hword hstr arg
    cases arg with
    | word w => exact hword w
    | str s => exact hstr s
  unfold reference directive
  refine rel_ite ?char <| rel_ite ?string <| rel_ite ?signed <| rel_ite ?unsigned <| rel_ite ?hex <|
    rel_ite ?pointer <| .none
  case char => exact hmatch (fun w text h => h) fun _ _ h => nomatch h
  case string =>
    refine hmatch (fun _ _ h => nomatch h) ?_
    intro s text h
    obtain rfl := Option.some.inj h
    exact congrArg some (List.append_nil _)
  case signed =>
    refine hmatch ?_ fun _ _ h => nomatch h
    intro w text h
    dsimp only at h
    split at h
    · exact nomatch h
    next hmin =>
      obtain rfl := Option.some.inj h
      rw [← itoa_eq hmin]
      exact congrArg some (List.append_nil _)
  case unsigned =>
    refine hmatch ?_ fun _ _ h => nomatch h
    intro w text h
    obtain rfl := Option.some.inj h
    rw [← utoa_decimal]
    exact congrArg some (List.append_nil _)
  case hex =>
    refine hmatch ?_ fun _ _ h => nomatch h
    intro w text h
    obtain rfl := Option.some.inj h
    rw [← utoa_hex]
    exact congrArg some (congrArg (chars "0x" ++ ·) (List.append_nil _))
  case pointer =>
    refine hmatch ?_ fun _ _ h => nomatch h
    intro w text h
    obtain rfl := Option.some.inj h
    rw [← utoa_hex]
    dsimp only
    split
    · rfl
    · exact congrArg some (congrArg (chars "0x" ++ ·) (List.append_nil _))

/-- So every format does. -/
theorem renderWith_printed : ∀ (format : List (BitVec 8)) (args : List Arg) (text : List (BitVec 8)),
    renderWith reference format args = some text → renderWith printed format args = some text
  | [], _, _, h => h
  | [_], _, _, h => h
  | c :: spec :: rest, args, text, h => by
      by_cases hc : c = 37#8
      · subst hc
        by_cases hspec : spec = 37#8
        · subst hspec
          rw [renderWith_percent] at h ⊢
          obtain ⟨tail, htail, rfl⟩ := Option.map_eq_some_iff.mp h
          rw [renderWith_printed rest args tail htail, Option.map_some]
        · rcases rel_answers (reference_printed spec) with
            ⟨href, hdir⟩ | ⟨render, texts, href, hdir, hall⟩
          · have hprinted : printed spec = none := by rw [printed, hdir, Option.map_none]
            rw [renderWith_unknown hspec href] at h
            rw [renderWith_unknown hspec hprinted, h]
          · have hprinted : printed spec = some fun arg => (texts arg).map List.flatten := by
              rw [printed, hdir, Option.map_some]
            cases args with
            | nil =>
                rw [renderWith_missing hspec href] at h
                exact nomatch h
            | cons arg args =>
                obtain ⟨piece, tail, hpiece, htail, rfl⟩ :=
                  (renderWith_directive hspec href rest arg args text).mp h
                exact (renderWith_directive hspec hprinted rest arg args _).mpr
                  ⟨piece, tail, hall arg piece hpiece, renderWith_printed rest args tail htail, rfl⟩
      · rw [renderWith_ordinary hc] at h ⊢
        obtain ⟨tail, htail, rfl⟩ := Option.map_eq_some_iff.mp h
        rw [renderWith_printed (spec :: rest) args tail htail, Option.map_some]

/-- A text that an `int` can count is printed whole. -/
theorem printf_text {format : List (BitVec 8)} {args : List Arg} {text : List (BitVec 8)}
    (h : renderWith printed (cString format) args = some text) (hlen : text.length ≤ intMax)
    (k : Console) : k.printf format args =
      some ((text.length : Int), ((k.emit (.printf (cString format) args)).print text).emit .ret) := by
  obtain ⟨r, hr, hprints⟩ := printfOut_renders _ (cString format) args 0 text
    (Nat.lt_succ_self _) (Nat.zero_le _) h
  have hcount : 0 + text.length ≤ intMax := by rwa [Nat.zero_add]
  rw [Console.printf_eq, hr, Option.map_some, hprints.whole hcount, Nat.zero_add]

end RedOS
