/-
# `RedOS.Console.Engines` — `printf` and `vsnprintf` on the same format

The two engines were written apart.  They read formats and arguments alike and
differ in how they spell hexadecimal numerals:

              printf        vsnprintf
    %x        0xBEEF        0xbeef
    %X        0xBEEF        0xBEEF
    %p        0xBEEF        0x0000beef

    pieces_respelled  what `vsnprintf` is asked to store is a respelling
    engines_respell   for whole formats, with the counts and when texts are equal
-/
import RedOS.Console.Pieces

namespace RedOS

open Fitting Numeral

/-! ## Spelling -/

/-- The lower-case letter of an upper-case one. -/
def toLower (b : BitVec 8) : BitVec 8 := if 65#8 ≤ b ∧ b ≤ 90#8 then b + 32#8 else b

/-- `vsnprintf`'s spelling of what `printf` prints for a directive. -/
def respell (spec : BitVec 8) (arg : Arg) (text : List (BitVec 8)) : List (BitVec 8) :=
  if spec = 120#8 then text.map toLower -- 'x'
  else if spec = 112#8 ∧ arg ≠ .word 0#32 then -- 'p'
    chars "0x" ++ padTo8 ((text.drop 2).map toLower)
  else text

/-- The directives as `vsnprintf` stores them, where there is room. -/
def respelled : Directives := fun spec =>
  (printed spec).map fun render arg => (render arg).map (respell spec arg)

theorem numeral_toLower (n : Nat) :
    (numeral upperDigit 16 n).map toLower = numeral lowerDigit 16 n := by
  have hdigit : ∀ d : Nat, d < 16 → toLower (upperDigit d) = lowerDigit d := by decide
  unfold numeral
  rw [List.map_reverse, List.map_map]
  exact congrArg List.reverse (List.map_congr_left fun d hd => hdigit d (digits_lt (by decide) hd))

theorem respell_hex (w : BitVec 32) (arg : Arg) :
    respell 120#8 arg (chars "0x" ++ utoa w 16) = chars "0x" ++ numeral lowerDigit 16 w.toNat := by
  rw [respell, if_pos rfl, List.map_append, utoa_hex, numeral_toLower]
  rfl

theorem respell_pointer {w : BitVec 32} (hw : w ≠ 0#32) :
    respell 112#8 (.word w) (chars "0x" ++ utoa w 16) =
      chars "0x" ++ padTo8 (numeral lowerDigit 16 w.toNat) := by
  have hne : Arg.word w ≠ .word 0#32 := fun h => hw (Arg.word.inj h)
  have hdrop : (chars "0x" ++ utoa w 16).drop 2 = utoa w 16 := rfl
  rw [respell, if_neg (by decide), if_pos ⟨rfl, hne⟩, hdrop, utoa_hex, numeral_toLower]

theorem respell_other {spec : BitVec 8} (hx : spec ≠ 120#8) (hp : spec ≠ 112#8) (arg : Arg)
    (text : List (BitVec 8)) : respell spec arg text = text := by
  rw [respell, if_neg hx, if_neg fun h => hp h.1]

theorem respell_null (text : List (BitVec 8)) : respell 112#8 (.word 0#32) text = text := by
  rw [respell, if_neg (by decide), if_neg fun h => h.2 rfl]

/-! ## One directive -/

/-- The directives there are. -/
theorem printed_cases {spec : BitVec 8} {render : Arg → Option (List (BitVec 8))}
    (h : printed spec = some render) :
    spec = 99#8 ∨ spec = 115#8 ∨ spec = 100#8 ∨ spec = 105#8 ∨ spec = 117#8 ∨ spec = 120#8 ∨
      spec = 88#8 ∨ spec = 112#8 := by
  have hall : ∀ spec : BitVec 8, (printed spec).isSome → spec = 99#8 ∨ spec = 115#8 ∨ spec = 100#8 ∨
      spec = 105#8 ∨ spec = 117#8 ∨ spec = 120#8 ∨ spec = 88#8 ∨ spec = 112#8 := by decide +kernel
  exact hall spec (by rw [h]; rfl)

theorem flatten_marked (digits : List (BitVec 8)) :
    [chars "0x", digits].flatten = chars "0x" ++ digits := congrArg (chars "0x" ++ ·) (List.append_nil _)

/-- What `vsnprintf` is asked to store for an argument is the respelling of what
`printf` prints. -/
theorem asked_respelled {spec : BitVec 8} {render : Arg → Option (List (BitVec 8))}
    (h : printed spec = some render) : ∃ piece, asked spec = some piece ∧
      ∀ arg text, render arg = some text → ∃ p, piece arg = some p ∧ p.text = respell spec arg text := by
  have hword : ∀ {piece : Arg → Option (Piece (BitVec 8))}, asked spec = some piece →
      (∀ s, render (.str s) = none) →
      (∀ w text, render (.word w) = some text →
        ∃ p, piece (.word w) = some p ∧ p.text = respell spec (.word w) text) →
      ∃ piece, asked spec = some piece ∧
        ∀ arg text, render arg = some text → ∃ p, piece arg = some p ∧ p.text = respell spec arg text := by
    intro piece hasked hnone hall
    refine ⟨piece, hasked, ?_⟩
    intro arg text hrender
    cases arg with
    | word w => exact hall w text hrender
    | str s =>
        rw [hnone] at hrender
        cases hrender
  rcases printed_cases h with rfl | rfl | rfl | rfl | rfl | rfl | rfl | rfl
  all_goals obtain rfl := Option.some.inj h
  -- 'c'
  · refine hword rfl (fun _ => rfl) fun w text hrender => ⟨_, rfl, ?_⟩
    obtain rfl := Option.some.inj hrender
    rw [respell_other (by decide) (by decide), List.flatten_singleton]
    rfl
  -- 's'
  · refine ⟨_, rfl, ?_⟩
    intro arg text hrender
    cases arg with
    | word w => exact nomatch hrender
    | str s =>
        obtain rfl := Option.some.inj hrender
        rw [respell_other (by decide) (by decide), List.flatten_singleton]
        exact ⟨_, rfl, rfl⟩
  -- 'd', 'i'
  · refine hword rfl (fun _ => rfl) fun w text hrender => ⟨_, rfl, ?_⟩
    obtain rfl := Option.some.inj hrender
    rw [respell_other (by decide) (by decide), List.flatten_singleton]
    rfl
  · refine hword rfl (fun _ => rfl) fun w text hrender => ⟨_, rfl, ?_⟩
    obtain rfl := Option.some.inj hrender
    rw [respell_other (by decide) (by decide), List.flatten_singleton]
    rfl
  -- 'u'
  · refine hword rfl (fun _ => rfl) fun w text hrender => ⟨_, rfl, ?_⟩
    obtain rfl := Option.some.inj hrender
    rw [respell_other (by decide) (by decide), List.flatten_singleton, utoa_decimal]
    rfl
  -- 'x'
  · refine hword rfl (fun _ => rfl) fun w text hrender => ⟨_, rfl, ?_⟩
    obtain rfl := Option.some.inj hrender
    rw [flatten_marked, respell_hex]
    rfl
  -- 'X'
  · refine hword rfl (fun _ => rfl) fun w text hrender => ⟨_, rfl, ?_⟩
    obtain rfl := Option.some.inj hrender
    rw [respell_other (by decide) (by decide), flatten_marked, utoa_hex]
    rfl
  -- 'p'
  · refine hword rfl (fun _ => rfl) fun w text hrender => ⟨_, rfl, ?_⟩
    by_cases hnull : w = 0#32
    · subst hnull
      obtain rfl := Option.some.inj hrender
      rw [respell_null]
      rfl
    · dsimp only at hrender
      rw [if_neg hnull] at hrender ⊢
      obtain rfl := Option.some.inj hrender
      rw [flatten_marked, respell_pointer hnull]
      rfl

/-! ## Where the spellings agree -/

/-- The argument has a numeral that both engines spell alike: no digit above 9
for `%x` and `%p`, and all eight digits for `%p`. -/
def Alike (spec : BitVec 8) : Arg → Prop
  | .word w =>
      (spec = 120#8 → ∀ d ∈ digits 16 w.toNat, d < 10) ∧
        (spec = 112#8 → w = 0#32 ∨
          (8 ≤ (digits 16 w.toNat).length ∧ ∀ d ∈ digits 16 w.toNat, d < 10))
  | .str _ => True

theorem numeral_lower_eq_iff (n : Nat) :
    numeral lowerDigit 16 n = numeral upperDigit 16 n ↔ ∀ d ∈ digits 16 n, d < 10 := by
  have hdigit : ∀ d : Nat, d < 16 → (lowerDigit d = upperDigit d ↔ d < 10) := by decide
  unfold numeral
  rw [List.reverse_inj, List.map_inj_left]
  exact forall₂_congr fun d hd => hdigit d (digits_lt (by decide) hd)

theorem padTo8_eq_iff (n : Nat) : padTo8 (numeral lowerDigit 16 n) = numeral upperDigit 16 n ↔
    8 ≤ (digits 16 n).length ∧ ∀ d ∈ digits 16 n, d < 10 := by
  have hlen : ∀ char : Nat → BitVec 8, (numeral char 16 n).length = (digits 16 n).length := by
    intro char
    rw [numeral, List.length_reverse, List.length_map]
  unfold padTo8
  rw [hlen]
  by_cases height : 8 ≤ (digits 16 n).length
  · rw [Nat.sub_eq_zero_of_le height, List.replicate_zero, List.nil_append, numeral_lower_eq_iff]
    exact ⟨fun h => ⟨height, h⟩, fun h => h.2⟩
  · refine ⟨?_, fun h => absurd h.1 height⟩
    intro heq
    have hcount := congrArg List.length heq
    rw [List.length_append, List.length_replicate, hlen, hlen] at hcount
    omega

/-- One directive: the respelling is no shorter, and the text itself exactly
where the argument is alike. -/
theorem respell_spec {spec : BitVec 8} {render : Arg → Option (List (BitVec 8))}
    (h : printed spec = some render) {arg : Arg} {text : List (BitVec 8)}
    (hrender : render arg = some text) :
    text.length ≤ (respell spec arg text).length ∧ (respell spec arg text = text ↔ Alike spec arg) := by
  by_cases hx : spec = 120#8
  · subst hx
    obtain rfl := Option.some.inj h
    cases arg with
    | str s => exact nomatch hrender
    | word w =>
        obtain rfl := Option.some.inj hrender
        rw [flatten_marked]
        constructor
        · rw [respell, if_pos rfl, List.length_map]
        · rw [respell_hex, utoa_hex, List.append_cancel_left_eq, numeral_lower_eq_iff]
          exact ⟨fun hd => ⟨fun _ => hd, fun hp => absurd hp (by decide)⟩, fun hd => hd.1 rfl⟩
  by_cases hp : spec = 112#8
  · subst hp
    obtain rfl := Option.some.inj h
    cases arg with
    | str s => exact nomatch hrender
    | word w =>
        by_cases hnull : w = 0#32
        · subst hnull
          rw [respell_null]
          exact ⟨Nat.le_refl _, fun _ => ⟨fun hx => absurd hx (by decide), fun _ => Or.inl rfl⟩,
            fun _ => rfl⟩
        · dsimp only at hrender
          rw [if_neg hnull] at hrender
          obtain rfl := Option.some.inj hrender
          rw [flatten_marked, respell_pointer hnull, utoa_hex]
          constructor
          · unfold padTo8 numeral
            rw [List.length_append, List.length_append, List.length_append, List.length_reverse,
              List.length_reverse, List.length_map, List.length_map]
            omega
          · rw [List.append_cancel_left_eq, padTo8_eq_iff]
            exact ⟨fun hd => ⟨fun hx => absurd hx (by decide), fun _ => Or.inr hd⟩,
              fun hd => (hd.2 rfl).resolve_left hnull⟩
  · rw [respell_other hx hp]
    refine ⟨Nat.le_refl _, ?_, fun _ => rfl⟩
    intro _
    cases arg with
    | word w => exact ⟨fun heq => absurd heq hx, fun heq => absurd heq hp⟩
    | str s => exact trivial

/-- Every directive's argument is alike. -/
def SpelledAlike : List (BitVec 8) → List Arg → Prop
  | [], _ => True
  | [_], _ => True
  | c :: spec :: rest, args =>
      if c ≠ 37#8 then SpelledAlike (spec :: rest) args
      else if spec = 37#8 then SpelledAlike rest args
      else
        match args with
        | arg :: args => Alike spec arg ∧ SpelledAlike rest args
        | [] => True

/-- Ordinary characters and the directives both engines have. -/
def common : List (BitVec 8) → Bool
  | [] => true
  | [c] => c ≠ 37#8
  | c :: spec :: rest =>
      if c ≠ 37#8 then common (spec :: rest)
      else (spec = 37#8 ∨ (directive spec).isSome) && common rest

/-! ## Whole formats -/

/-- A directive of a common format: what both engines make of an argument. -/
theorem directive_spelled {spec : BitVec 8} (hspec : (directive spec).isSome) :
    ∃ conv, printed spec = some conv ∧
      respelled spec = some fun arg => (conv arg).map (respell spec arg) := by
  obtain ⟨texts, htexts⟩ := Option.isSome_iff_exists.mp hspec
  have hprinted : printed spec = some fun arg => (texts arg).map List.flatten := by
    rw [printed, htexts, Option.map_some]
  exact ⟨_, hprinted, by rw [respelled, hprinted, Option.map_some]⟩

/-- The pieces of a common format are the respelling of its text. -/
theorem pieces_respelled (format : List (BitVec 8)) (args : List Arg) (text : List (BitVec 8))
    (hcommon : common format = true) (h : renderWith respelled format args = some text) :
    ∃ ps, pieces format args = some ps ∧ whole ps = text := by
  induction format using common.induct generalizing args text with
  | case1 => exact ⟨_, rfl, Option.some.inj h⟩
  | case2 c =>
      have hc : c ≠ 37#8 := of_decide_eq_true hcommon
      exact ⟨_, congrArg some (if_pos hc), Option.some.inj h⟩
  | case3 c spec rest hc ih =>
      rw [common, if_pos hc] at hcommon
      rw [renderWith_ordinary hc] at h
      obtain ⟨tail, htail, rfl⟩ := Option.map_eq_some_iff.mp h
      obtain ⟨ps, hps, rfl⟩ := ih args tail hcommon htail
      rw [pieces_ordinary hc, hps]
      exact ⟨_, rfl, whole_cons _ _⟩
  | case4 c spec rest hc ih =>
      obtain rfl := Decidable.not_not.mp hc
      rw [common, if_neg hc] at hcommon
      obtain ⟨hspec, hrest⟩ := Bool.and_eq_true_iff.mp hcommon
      by_cases hpercent : spec = 37#8
      · subst hpercent
        rw [renderWith_percent] at h
        obtain ⟨tail, htail, rfl⟩ := Option.map_eq_some_iff.mp h
        obtain ⟨ps, hps, rfl⟩ := ih args tail hrest htail
        rw [pieces_percent, hps]
        exact ⟨_, rfl, whole_cons _ _⟩
      · obtain ⟨render, hprinted, hrespelled⟩ :=
          directive_spelled ((of_decide_eq_true hspec).resolve_left hpercent)
        obtain ⟨piece, hasked, hpiece⟩ := asked_respelled hprinted
        cases args with
        | nil =>
            rw [renderWith_missing hpercent hrespelled] at h
            cases h
        | cons arg args =>
            obtain ⟨first, tail, hfirst, htail, rfl⟩ :=
              (renderWith_directive hpercent hrespelled rest arg args text).mp h
            obtain ⟨plain, hplain, rfl⟩ := Option.map_eq_some_iff.mp hfirst
            obtain ⟨p, hp, htext⟩ := hpiece arg plain hplain
            obtain ⟨ps, hps, rfl⟩ := ih args tail hrest htail
            refine ⟨_, (pieces_directive hpercent hasked).mpr ⟨_, _, p, ps, rfl, hp, hps, rfl⟩, ?_⟩
            rw [whole_cons, htext]

/-- The respelling of a whole text: it exists, is no shorter, and is the text
itself exactly where every argument is alike. -/
theorem renderWith_respelled (format : List (BitVec 8)) (args : List Arg) (text : List (BitVec 8))
    (hcommon : common format = true) (h : renderWith printed format args = some text) :
    ∃ stored, renderWith respelled format args = some stored ∧ text.length ≤ stored.length ∧
      (stored = text ↔ SpelledAlike format args) := by
  induction format using common.induct generalizing args text with
  | case1 => exact ⟨text, h, Nat.le_refl _, fun _ => trivial, fun _ => rfl⟩
  | case2 c => exact ⟨text, h, Nat.le_refl _, fun _ => trivial, fun _ => rfl⟩
  | case3 c spec rest hc ih =>
      rw [common, if_pos hc] at hcommon
      unfold SpelledAlike
      rw [if_pos hc]
      rw [renderWith_ordinary hc] at h
      obtain ⟨tail, htail, rfl⟩ := Option.map_eq_some_iff.mp h
      obtain ⟨stored, hstored, hlen, hiff⟩ := ih args tail hcommon htail
      rw [renderWith_ordinary hc, hstored, ← hiff]
      exact ⟨_, rfl, Nat.succ_le_succ hlen, List.cons_inj_right _⟩
  | case4 c spec rest hc ih =>
      obtain rfl := Decidable.not_not.mp hc
      rw [common, if_neg hc] at hcommon
      obtain ⟨hspec, hrest⟩ := Bool.and_eq_true_iff.mp hcommon
      unfold SpelledAlike
      rw [if_neg hc]
      by_cases hpercent : spec = 37#8
      · subst hpercent
        rw [renderWith_percent] at h
        obtain ⟨tail, htail, rfl⟩ := Option.map_eq_some_iff.mp h
        obtain ⟨stored, hstored, hlen, hiff⟩ := ih args tail hrest htail
        rw [renderWith_percent, hstored, if_pos rfl, ← hiff]
        exact ⟨_, rfl, Nat.succ_le_succ hlen, List.cons_inj_right _⟩
      · obtain ⟨texts, hprinted, hrespelled⟩ :=
          directive_spelled ((of_decide_eq_true hspec).resolve_left hpercent)
        rw [if_neg hpercent]
        cases args with
        | nil =>
            rw [renderWith_missing hpercent hprinted] at h
            cases h
        | cons arg args =>
            obtain ⟨piece, tail, hpiece, htail, rfl⟩ :=
              (renderWith_directive hpercent hprinted rest arg args text).mp h
            obtain ⟨stored, hstored, hlen, hiff⟩ := ih args tail hrest htail
            obtain ⟨hpieceLen, hpieceIff⟩ := respell_spec hprinted hpiece
            refine ⟨respell spec arg piece ++ stored,
              (renderWith_directive hpercent hrespelled rest arg args _).mpr
                ⟨_, stored, by rw [hpiece, Option.map_some], hstored, rfl⟩, ?_, ?_⟩
            · rw [List.length_append, List.length_append]
              omega
            · dsimp only
              rw [← hiff, ← hpieceIff]
              exact append_eq_append_of_le hpieceLen hlen

/-- On a common format: `printf` prints `text` and returns its length,
`vsnprintf` stores a respelling of it and returns that one's length, and the two
are the same exactly where every argument is alike. -/
theorem engines_respell {format : List (BitVec 8)} {args : List Arg} {text : List (BitVec 8)}
    (hcommon : common (cString format) = true)
    (h : renderWith printed (cString format) args = some text) (hlen : text.length ≤ intMax) :
    ∃ stored, renderWith respelled (cString format) args = some stored ∧
      (∀ k : Console, k.printf format args =
        some ((text.length : Int), ((k.emit (.printf (cString format) args)).print text).emit .ret)) ∧
      (∀ size, stored.length < size → vsnprintf size format args = some (stored ++ [0#8]) ∧
        vsnprintfCount (stored ++ [0#8]) = stored.length) ∧
      (stored = text ↔ SpelledAlike (cString format) args) := by
  obtain ⟨stored, hstored, -, hiff⟩ := renderWith_respelled _ args text hcommon h
  refine ⟨stored, hstored, printf_text h hlen, fun size hsize => ⟨?_, ?_⟩, hiff⟩
  · obtain ⟨ps, hps, rfl⟩ := pieces_respelled _ args stored hcommon hstored
    rw [vsnprintf_fit (Nat.one_le_of_lt hsize) hps, fit_eq_whole (Nat.le_sub_one_of_lt hsize)]
  · rw [vsnprintfCount, List.length_append]
    rfl

theorem engines_respell_mix :
    let format := chars "%s: %d%% at %p, %X"
    let args := [.str (some (chars "disk")), .word 97#32, .word 0xBEEF#32, .word 0x1F#32]
    let text := chars "disk: 97% at 0xBEEF, 0x1F"
    ∃ stored, renderWith respelled (cString format) args = some stored ∧
      (∀ k : Console, k.printf format args =
        some ((text.length : Int), ((k.emit (.printf (cString format) args)).print text).emit .ret)) ∧
      (∀ size, stored.length < size → vsnprintf size format args = some (stored ++ [0#8]) ∧
        vsnprintfCount (stored ++ [0#8]) = stored.length) ∧
      (stored = text ↔ SpelledAlike (cString format) args) := by
  intro format args text
  have hcommon : common (cString format) = true := by decide +kernel
  have htext : renderWith printed (cString format) args = some text := by decide +kernel
  exact engines_respell hcommon htext (by decide +kernel)

/-- `%x` of 10: `printf` prints `0xA`, `vsnprintf` stores `0xa`. -/
theorem hex_spelled_apart :
    common (chars "%x") = true ∧
      (Console.boot fun _ => 0#8).printf (chars "%x") [.word 10#32] =
        some (3, (((Console.boot fun _ => 0#8).emit (.printf (chars "%x") [.word 10#32])).print
          (chars "0xA")).emit .ret) ∧
      vsnprintf 100 (chars "%x") [.word 10#32] = some (chars "0xa" ++ [0#8]) := by
  refine ⟨by decide +kernel, ?_, by decide +kernel⟩
  have hout : printfOut ((cString (chars "%x")).length + 1) (cString (chars "%x")) [.word 10#32] 0 =
      some (3, chars "0xA") := by decide +kernel
  rw [Console.printf_eq, hout]
  rfl

end RedOS
