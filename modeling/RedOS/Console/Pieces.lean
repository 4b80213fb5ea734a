/-
# `RedOS.Console.Pieces` — `vsnprintf` in a buffer of any size

What a format asks to be written is a list of pieces, and what `vsnprintf`
stores is as much of them as fits: a piece is cut where the room ends, but `%x`,
`%X` and `%p` of a pointer store nothing unless their `0x` fits.

    specifier_fit        one specifier
    vsnprintfLoop_fit    a format
    pieces_of_vaccepts   a call whose arguments match has its pieces
-/
import RedOS.Lib.Fitting
import RedOS.Console.Debug
import RedOS.Console.Render

namespace RedOS

open Dispatch Fitting Numeral

/-! ## The digit loops of `vsnprintf` -/

theorem digitCharFrom_lower : ∀ d : Nat, d < 16 → digitCharFrom 97 d = lowerDigit d := by decide

theorem digitCharFrom_upper : ∀ d : Nat, d < 16 → digitCharFrom 65 d = upperDigit d := by decide

theorem digitCharFrom_decimal : ∀ d : Nat, d < 10 → digitCharFrom 97 d = upperDigit d := by decide

/-- The digit loop, for a number its passes are enough for. -/
theorem reversedDigits_eq {ten : Int} {b : Nat} (hb : 1 < b) {char : Nat → BitVec 8}
    (hchar : ∀ d : Nat, d < b → digitCharFrom ten d = char d) : ∀ (n m : Nat), m < b ^ (n + 1) →
    reversedDigits ten b (n + 1) m = (digits b m).map char
  | n, m, hm => by
      have hdigit : digitCharFrom ten ((m : Int).tmod b) = char (m % b) := by
        rw [← Int.ofNat_tmod]
        exact hchar _ (Nat.mod_lt m (Nat.lt_of_succ_lt hb))
      unfold reversedDigits
      rw [digits_step hb, hdigit, ← Int.ofNat_tdiv, List.map_cons]
      by_cases hquot : m / b = 0
      · rw [if_pos (Int.natCast_eq_zero.mpr hquot), if_pos hquot, List.map_nil]
      · rw [if_neg fun h => hquot (Int.natCast_eq_zero.mp h), if_neg hquot]
        cases n with
        | zero =>
            refine absurd (Nat.div_eq_of_lt ?_) hquot
            rwa [Nat.zero_add, Nat.pow_one] at hm
        | succ n =>
            refine congrArg (_ :: ·) (reversedDigits_eq hb hchar n _ ?_)
            rw [Nat.div_lt_iff_lt_mul (Nat.lt_of_succ_lt hb)]
            exact hm

theorem reversedDigits_decimal {m : Nat} (hm : m < 2 ^ 32) :
    (reversedDigits 97 10 31 m).reverse = numeral upperDigit 10 m := by
  have h := reversedDigits_eq (b := 10) (by decide) digitCharFrom_decimal 30 m
    (Nat.lt_of_lt_of_le hm (by decide))
  exact congrArg List.reverse h

theorem reversedDigits_lower {m : Nat} (hm : m < 2 ^ 32) :
    reversedDigits 97 16 31 m = (digits 16 m).map lowerDigit :=
  reversedDigits_eq (b := 16) (by decide) digitCharFrom_lower 30 m
    (Nat.lt_of_lt_of_le hm (by decide))

theorem reversedDigits_upper {m : Nat} (hm : m < 2 ^ 32) :
    (reversedDigits 65 16 31 m).reverse = numeral upperDigit 16 m := by
  have h := reversedDigits_eq (b := 16) (by decide) digitCharFrom_upper 30 m
    (Nat.lt_of_lt_of_le hm (by decide))
  exact congrArg List.reverse h

/-- The sign and the digits of a signed argument: both engines write the same,
`INT_MIN` included. -/
theorem signed_alike (w : BitVec 32) :
    let buffer := reversedDigits 97 10 31 (if w.slt 0#32 then -w else w).toInt
    (if w.slt 0#32 then buffer ++ [45#8] else buffer).reverse = itoa w 10 := by
  by_cases hmin : w = intMin
  · subst hmin
    decide +kernel
  rw [itoa_eq hmin]
  dsimp only
  unfold signedNumeral
  have hbound := BitVec.two_mul_toInt_lt (x := w)
  have hbound' := BitVec.le_two_mul_toInt (x := w)
  have hsign : (w.slt 0#32 = true) = (w.toInt < 0) := by
    rw [BitVec.slt_eq_decide, BitVec.toInt_zero, decide_eq_true_eq]
  simp only [hsign]
  by_cases hneg : w.toInt < 0
  · have hnum : (-w).toInt = (w.toInt.natAbs : Int) := by
      rw [BitVec.toInt_neg_of_ne_intMin hmin, Int.ofNat_natAbs_of_nonpos (Int.le_of_lt hneg)]
    rw [if_pos hneg, if_pos hneg, if_pos hneg, hnum, List.reverse_append, reversedDigits_decimal (by omega)]
    rfl
  · have hnum : (w.toInt.natAbs : Int) = w.toInt := Int.natAbs_of_nonneg (Int.not_lt.mp hneg)
    rw [if_neg hneg, if_neg hneg, if_neg hneg, ← reversedDigits_decimal (m := w.toInt.natAbs) (by omega), hnum]

/-- Zeros in front, up to eight digits. -/
def padTo8 (digits : List (BitVec 8)) : List (BitVec 8) :=
  List.replicate (8 - digits.length) 48#8 ++ digits

/-! ## The pieces of a format -/

/-- Cut anywhere. -/
def plain (text : List (BitVec 8)) : Piece (BitVec 8) := ⟨text, 0, Nat.zero_le _⟩

/-- Digits behind `0x`, which is stored in one piece or not at all. -/
def marked0x (digits : List (BitVec 8)) : Piece (BitVec 8) :=
  ⟨chars "0x" ++ digits, 2, by
    rw [List.length_append]
    exact Nat.le_add_right 2 _⟩

/-- The piece a specifier makes of its argument. -/
def asked (spec : BitVec 8) : Option (Arg → Option (Piece (BitVec 8))) :=
  if spec = 100#8 || spec = 105#8 then some fun -- 'd', 'i'
    | .word w => some (plain (itoa w 10))
    | .str _ => none
  else if spec = 117#8 then some fun -- 'u'
    | .word w => some (plain (numeral upperDigit 10 w.toNat))
    | .str _ => none
  else if spec = 120#8 then some fun -- 'x'
    | .word w => some (marked0x (numeral lowerDigit 16 w.toNat))
    | .str _ => none
  else if spec = 88#8 then some fun -- 'X'
    | .word w => some (marked0x (numeral upperDigit 16 w.toNat))
    | .str _ => none
  else if spec = 112#8 then some fun -- 'p'
    | .word w =>
        some (if w = 0#32 then plain (chars "(nil)")
          else marked0x (padTo8 (numeral lowerDigit 16 w.toNat)))
    | .str _ => none
  else if spec = 115#8 then some fun -- 's'
    | .word _ => none
    | .str s => some (plain ((s.map cString).getD (chars "(null)")))
  else if spec = 99#8 then some fun -- 'c'
    | .word w => some (plain [w.setWidth 8])
    | .str _ => none
  else none

/-- The pieces of a format; `none` where an argument is missing or does not match. -/
def pieces : List (BitVec 8) → List Arg → Option (List (Piece (BitVec 8)))
  | [], _ => some []
  | [c], _ => some (if c ≠ 37#8 then [plain [c]] else [])
  | c :: spec :: format, args =>
      if c ≠ 37#8 then (pieces (spec :: format) args).map (plain [c] :: ·)
      else if spec = 37#8 then (pieces format args).map (plain [37#8] :: ·)
      else
        match asked spec, args with
        | some piece, arg :: args =>
            match piece arg, pieces format args with
            | some p, some ps => some (p :: ps)
            | _, _ => none
        | some _, [] => none
        | none, args => (pieces format args).map (plain [37#8, spec] :: ·)

theorem plain_fit (text : List (BitVec 8)) (room : Nat) : (plain text).fit room = text.take room :=
  if_pos (Nat.zero_le room)

theorem marked0x_fit {room : Nat} (digits : List (BitVec 8)) (h : 2 ≤ room) :
    (marked0x digits).fit room = chars "0x" ++ digits.take (room - 2) := by
  obtain ⟨n, rfl⟩ := Nat.exists_eq_add_of_le h
  rw [show (marked0x digits).fit (2 + n) = (chars "0x" ++ digits).take (2 + n) from if_pos h,
    Nat.add_sub_cancel_left, show 2 = (chars "0x").length from rfl, List.take_length_add_append]

theorem marked0x_fit_none {room : Nat} (digits : List (BitVec 8)) (h : room < 2) :
    (marked0x digits).fit room = [] := if_neg (Nat.not_le_of_lt h)

theorem copyOut_fit (size : Nat) (text out : List (BitVec 8)) :
    copyOut size text out = out ++ (plain text).fit (size - 1 - out.length) := by
  rw [copyOut, plain_fit]

theorem hexOut_fit (size : Nat) (digits out : List (BitVec 8)) :
    hexOut size digits out = out ++ (marked0x digits.reverse).fit (size - 1 - out.length) := by
  unfold hexOut
  split
  next hroom =>
    rw [marked0x_fit _ (by omega), copyOut, List.append_assoc, List.length_append,
      show (chars "0x").length = 2 from rfl, Nat.sub_sub (size - 1)]
  next hroom => rw [marked0x_fit_none _ (by omega), List.append_nil]

/-- One specifier stores what fits of its piece. -/
theorem specifier_fit (size : Nat) (spec : BitVec 8) :
    Option.Rel (fun conv piece => ∀ arg out, conv arg out
      = (piece arg).map fun p => out ++ p.fit (size - 1 - out.length)) (specifier size spec) (asked spec) := by
  unfold specifier asked
  refine rel_ite ?signed <| rel_ite ?unsigned <| rel_ite ?lower <| rel_ite ?upper <| rel_ite ?pointer <|
    rel_ite ?string <| rel_ite ?char <| .none
  case signed =>
    intro arg out
    cases arg with
    | str s => rfl
    | word w =>
        have hdigits := signed_alike w
        dsimp only at hdigits ⊢
        rw [hdigits]
        exact congrArg some (copyOut_fit _ _ _)
  case unsigned =>
    intro arg out
    cases arg with
    | str s => rfl
    | word w =>
        have hdigits := reversedDigits_decimal w.isLt
        dsimp only
        rw [hdigits]
        exact congrArg some (copyOut_fit _ _ _)
  case lower =>
    intro arg out
    cases arg with
    | str s => rfl
    | word w =>
        have hdigits : reversedDigits 97 16 31 w.toNat = (digits 16 w.toNat).map lowerDigit :=
          reversedDigits_lower w.isLt
        dsimp only
        rw [hdigits, hexOut_fit]
        rfl
  case upper =>
    intro arg out
    cases arg with
    | str s => rfl
    | word w =>
        have hdigits := reversedDigits_upper w.isLt
        dsimp only
        rw [hexOut_fit, hdigits]
        rfl
  case pointer =>
    intro arg out
    cases arg with
    | str s => rfl
    | word w =>
        refine congrArg some ?_
        by_cases hnull : w = 0#32
        · dsimp only
          rw [if_pos hnull, if_pos hnull]
          exact copyOut_fit _ _ _
        · have hdigits : reversedDigits 97 16 31 w.toNat = (digits 16 w.toNat).map lowerDigit :=
            reversedDigits_lower w.isLt
          dsimp only
          rw [if_neg hnull, if_neg hnull, hexOut_fit, hdigits, List.reverse_append,
            List.reverse_replicate, ← List.length_reverse]
          rfl
  case string =>
    intro arg out
    cases arg with
    | word w => rfl
    | str s => exact congrArg some (copyOut_fit _ _ _)
  case char =>
    intro arg out
    cases arg with
    | str s => rfl
    | word w => exact congrArg some (copyOut_fit _ _ _)

/-! ## Formats -/

theorem pieces_ordinary {c : BitVec 8} (hc : c ≠ 37#8) (format : List (BitVec 8)) (args : List Arg) :
    pieces (c :: format) args = (pieces format args).map (plain [c] :: ·) := by
  cases format with
  | nil => exact congrArg some (if_pos hc)
  | cons spec format => exact if_pos hc

theorem pieces_percent (format : List (BitVec 8)) (args : List Arg) :
    pieces (37#8 :: 37#8 :: format) args = (pieces format args).map (plain [37#8] :: ·) := by
  exact (if_neg (not_not_intro rfl)).trans (if_pos rfl)

theorem pieces_unknown {spec : BitVec 8} (hspec : spec ≠ 37#8) (hasked : asked spec = none)
    (format : List (BitVec 8)) (args : List Arg) : pieces (37#8 :: spec :: format) args
      = (pieces format args).map (plain [37#8, spec] :: ·) := by
  conv_lhs => unfold pieces
  rw [if_neg (not_not_intro rfl), if_neg hspec, hasked]

/-- A directive takes the next argument. -/
theorem pieces_directive {spec : BitVec 8} (hspec : spec ≠ 37#8)
    {piece : Arg → Option (Piece (BitVec 8))} (hasked : asked spec = some piece)
    {format : List (BitVec 8)} {args : List Arg} {ps : List (Piece (BitVec 8))} :
    pieces (37#8 :: spec :: format) args = some ps ↔
      ∃ arg args' p ps', args = arg :: args' ∧ piece arg = some p ∧
        pieces format args' = some ps' ∧ ps = p :: ps' := by
  conv_lhs => unfold pieces
  rw [if_neg (not_not_intro rfl), if_neg hspec, hasked]
  constructor
  · intro h
    cases args with
    | nil => exact nomatch h
    | cons arg args =>
        cases hp : piece arg with
        | none =>
            simp only [hp] at h
            exact nomatch h
        | some p =>
            cases hps : pieces format args with
            | none =>
                simp only [hp, hps] at h
                exact nomatch h
            | some ps' =>
                simp only [hp, hps] at h
                exact ⟨arg, args, p, ps', rfl, hp, hps, (Option.some.inj h).symm⟩
  · rintro ⟨arg, args', p, ps', rfl, hp, hps, rfl⟩
    simp only [hp, hps]

/-- A piece behind the text stored so far. -/
theorem fit_step (size : Nat) (p : Piece (BitVec 8)) (ps : List (Piece (BitVec 8)))
    {out out' : List (BitVec 8)} (h : out' = out ++ p.fit (size - 1 - out.length)) :
    out' ++ fit (size - 1 - out'.length) ps = out ++ fit (size - 1 - out.length) (p :: ps) := by
  rw [h, fit, List.append_assoc, List.length_append, Nat.sub_sub (size - 1)]

/-- The loop stores what fits of the pieces. -/
theorem vsnprintfLoop_fit (size : Nat) : ∀ (format : List (BitVec 8)) (args : List Arg)
    (out : List (BitVec 8)) (ps : List (Piece (BitVec 8))), pieces format args = some ps →
      vsnprintfLoop size format args out = some (out ++ fit (size - 1 - out.length) ps)
  | [], _, out, _, h => by
      obtain rfl := Option.some.inj h
      rw [fit, List.append_nil]
      rfl
  | [c], _, out, _, h => by
      obtain rfl := Option.some.inj h
      unfold vsnprintfLoop
      by_cases hc : c ≠ 37#8
      · have hone := copyOut_fit size [c] out
        rw [if_pos hc, fit, fit, List.append_nil, ← hone]
        by_cases hroom : out.length < size - 1
        · rw [if_pos ⟨hroom, hc⟩, copyOut_cons _ _ hroom, copyOut_nil]
        · rw [if_neg fun h => hroom h.1, copyOut_full _ hroom]
      · rw [if_neg hc, if_neg fun h => hc h.2, fit, List.append_nil]
  | c :: spec :: format, args, out, ps, h => by
      unfold vsnprintfLoop
      by_cases hroom : out.length < size - 1
      · rw [if_neg (not_not_intro hroom)]
        have hone : ∀ b : BitVec 8, out ++ [b] = out ++ (plain [b]).fit (size - 1 - out.length) :=
          fun b => by rw [← copyOut_fit, copyOut_cons _ _ hroom, copyOut_nil]
        by_cases hc : c ≠ 37#8
        · rw [pieces_ordinary hc] at h
          obtain ⟨ps', hps, rfl⟩ := Option.map_eq_some_iff.mp h
          rw [if_pos hc, vsnprintfLoop_fit size _ _ _ _ hps, fit_step size _ _ (hone c)]
        rw [if_neg hc]
        obtain rfl := Decidable.not_not.mp hc
        by_cases hpercent : spec = 37#8
        · subst hpercent
          rw [pieces_percent] at h
          obtain ⟨ps', hps, rfl⟩ := Option.map_eq_some_iff.mp h
          rw [if_pos rfl, vsnprintfLoop_fit size _ _ _ _ hps, fit_step size _ _ (hone 37#8)]
        rw [if_neg hpercent]
        rcases rel_answers (specifier_fit size spec) with
          ⟨hnone, hasked⟩ | ⟨conv, piece, hconv, hasked, hfit⟩
        · rw [pieces_unknown hpercent hasked] at h
          obtain ⟨ps', hps, rfl⟩ := Option.map_eq_some_iff.mp h
          rw [hnone]
          dsimp only
          rw [vsnprintfLoop_fit size _ _ _ _ hps, copyOut_append]
          exact congrArg some (fit_step size _ _ (copyOut_fit size _ _))
        · obtain ⟨arg, args', p, ps', rfl, hp, hps, rfl⟩ := (pieces_directive hpercent hasked).mp h
          rw [hconv]
          dsimp only
          rw [hfit, hp, Option.map_some]
          dsimp only
          rw [vsnprintfLoop_fit size _ _ _ _ hps, fit_step size _ _ rfl]
      · rw [if_pos hroom, show size - 1 - out.length = 0 by omega, fit_zero, List.append_nil]

/-- A call whose arguments are what its format asks for has its pieces. -/
theorem pieces_of_vaccepts (format : List (BitVec 8)) (args : List Arg)
    (h : vaccepts format args = true) : ∃ ps, pieces format args = some ps := by
  induction format, args using vaccepts.induct with
  | case1 => exact ⟨_, rfl⟩
  | case2 c => exact ⟨_, rfl⟩
  | case3 c spec format args hc ih =>
      unfold vaccepts at h
      rw [if_pos hc] at h
      obtain ⟨ps, hps⟩ := ih h
      rw [pieces_ordinary hc, hps]
      exact ⟨_, rfl⟩
  | case4 c format args hc ih =>
      obtain rfl := Decidable.not_not.mp hc
      unfold vaccepts at h
      rw [if_neg hc, if_pos rfl] at h
      obtain ⟨ps, hps⟩ := ih h
      rw [pieces_percent, hps]
      exact ⟨_, rfl⟩
  | case5 c spec format hc hspec conv arg args hconv ih =>
      obtain rfl := Decidable.not_not.mp hc
      unfold vaccepts at h
      rw [if_neg hc, if_neg hspec, hconv] at h
      obtain ⟨hkind, hrest⟩ := Bool.and_eq_true_iff.mp h
      obtain ⟨ps, hps⟩ := ih hrest
      rcases rel_answers (specifier_fit 0 spec) with
        ⟨hnone, -⟩ | ⟨conv', piece, hconv', hasked, hfit⟩
      · rw [hconv] at hnone
        cases hnone
      · obtain rfl := Option.some.inj (hconv.symm.trans hconv')
        rw [hfit, Option.isSome_map] at hkind
        obtain ⟨p, hp⟩ := Option.isSome_iff_exists.mp hkind
        exact ⟨_, (pieces_directive hspec hasked).mpr ⟨arg, args, p, ps, rfl, hp, hps, rfl⟩⟩
  | case6 c spec format hc hspec conv hconv =>
      unfold vaccepts at h
      rw [if_neg hc, if_neg hspec, hconv] at h
      cases h
  | case7 c spec format hc hspec args hnone ih =>
      obtain rfl := Decidable.not_not.mp hc
      unfold vaccepts at h
      rw [if_neg hc, if_neg hspec, hnone] at h
      obtain ⟨ps, hps⟩ := ih h
      rcases rel_answers (specifier_fit 0 spec) with ⟨-, hasked⟩ | ⟨conv, piece, hconv, -, -⟩
      · rw [pieces_unknown hspec hasked, hps]
        exact ⟨_, rfl⟩
      · rw [hnone] at hconv
        cases hconv

/-- Cut anywhere, or begun with the `0x` that is not cut. -/
def Cuttable (p : Piece (BitVec 8)) : Prop := p.need = 0 ∨ (p.need = 2 ∧ p.text.head? = some 48#8)

theorem cuttable_plain (text : List (BitVec 8)) : Cuttable (plain text) := Or.inl rfl

theorem cuttable_marked0x (digits : List (BitVec 8)) : Cuttable (marked0x digits) := Or.inr ⟨rfl, rfl⟩

theorem cuttable_asked (spec : BitVec 8) :
    Entries (fun piece => ∀ arg p, piece arg = some p → Cuttable p) (asked spec) := by
  unfold asked
  refine .ite ?signed <| .ite ?unsigned <| .ite ?lower <| .ite ?upper <| .ite ?pointer <|
    .ite ?string <| .ite ?char <| .none _
  all_goals
    intro arg p hp
    -- an argument of the wrong kind has no piece
    cases arg <;> first
      | contradiction
      | obtain rfl := Option.some.inj hp
  case signed | unsigned | string | char => exact cuttable_plain _
  case lower | upper => exact cuttable_marked0x _
  case pointer =>
    split
    · exact cuttable_plain _
    · exact cuttable_marked0x _

theorem cuttable_cons {p : Piece (BitVec 8)} {ps : List (Piece (BitVec 8))} (hp : Cuttable p)
    {tail : Option (List (Piece (BitVec 8)))} (htail : ∀ ps', tail = some ps' → ∀ q ∈ ps', Cuttable q)
    (h : tail.map (p :: ·) = some ps) : ∀ q ∈ ps, Cuttable q := by
  obtain ⟨ps', hps, rfl⟩ := Option.map_eq_some_iff.mp h
  intro q hq
  rcases List.mem_cons.mp hq with rfl | hq
  · exact hp
  · exact htail ps' hps q hq

theorem cuttable_pieces : ∀ (format : List (BitVec 8)) (args : List Arg)
    (ps : List (Piece (BitVec 8))), pieces format args = some ps → ∀ p ∈ ps, Cuttable p
  | [], _, _, h, p, hp => by
      obtain rfl := Option.some.inj h
      exact nomatch hp
  | [c], _, _, h, p, hp => by
      obtain rfl := Option.some.inj h
      split at hp
      · exact List.mem_singleton.mp hp ▸ cuttable_plain _
      · exact nomatch hp
  | c :: spec :: format, args, ps, h, p, hp => by
      by_cases hc : c ≠ 37#8
      · rw [pieces_ordinary hc] at h
        exact cuttable_cons (cuttable_plain _) (cuttable_pieces (spec :: format) args) h p hp
      obtain rfl := Decidable.not_not.mp hc
      by_cases hpercent : spec = 37#8
      · subst hpercent
        rw [pieces_percent] at h
        exact cuttable_cons (cuttable_plain _) (cuttable_pieces format args) h p hp
      cases hasked : asked spec with
      | none =>
          rw [pieces_unknown hpercent hasked] at h
          exact cuttable_cons (cuttable_plain _) (cuttable_pieces format args) h p hp
      | some piece =>
          obtain ⟨arg, args', q, ps', rfl, hq, hps, rfl⟩ := (pieces_directive hpercent hasked).mp h
          rcases List.mem_cons.mp hp with rfl | hp
          · exact cuttable_asked spec piece hasked arg p hq
          · exact cuttable_pieces format args' ps' hps p hp

/-! ## The buffer -/

/-- The text of a call with that buffer size. -/
theorem vsnprintf_fit {size : Nat} (hsize : 1 ≤ size) {format : List (BitVec 8)} {args : List Arg}
    {ps : List (Piece (BitVec 8))} (h : pieces (cString format) args = some ps) :
    vsnprintf size format args = some (fit (size - 1) ps ++ [0#8]) := by
  unfold vsnprintf
  rw [if_neg (Nat.ne_of_gt hsize)]
  split
  next hone =>
    rw [hone, fit_zero]
    rfl
  next => rw [vsnprintfLoop_fit size _ _ [] ps h, Option.map_some, List.nil_append, List.length_nil,
      Nat.sub_zero]

end RedOS
