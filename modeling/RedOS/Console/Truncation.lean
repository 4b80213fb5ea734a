/-
# `RedOS.Console.Truncation` — what is in the buffer

    vsnprintf_stays      every store is inside the buffer, and a text that fits
                         is the reference rendering
    truncation_takes     a smaller buffer holds the beginning of the text, except
                         where a `0x` meets one last byte of room
-/
import RedOS.Console.Pieces
import RedOS.Console.Stores

namespace RedOS

open Dispatch Fitting Numeral StoreLog

/-! ## The reference rendering -/

/-- The directives of `vsnprintf` as their documentation in C has them; a signed
argument is any but `INT_MIN`. -/
def storedReference : Directives := fun spec =>
  if spec = 100#8 || spec = 105#8 then some fun -- 'd', 'i'
    | .word w => if w = intMin then none else some (signedNumeral w.toInt)
    | .str _ => none
  else if spec = 117#8 then some fun -- 'u'
    | .word w => some (numeral upperDigit 10 w.toNat)
    | .str _ => none
  else if spec = 120#8 then some fun -- 'x'
    | .word w => some (chars "0x" ++ numeral lowerDigit 16 w.toNat)
    | .str _ => none
  else if spec = 88#8 then some fun -- 'X'
    | .word w => some (chars "0x" ++ numeral upperDigit 16 w.toNat)
    | .str _ => none
  else if spec = 112#8 then some fun -- 'p'
    | .word w =>
        some (if w = 0#32 then chars "(nil)"
          else chars "0x" ++ padTo8 (numeral lowerDigit 16 w.toNat))
    | .str _ => none
  else if spec = 115#8 then some fun -- 's'
    | .word _ => none
    | .str s => some ((s.map cString).getD (chars "(null)"))
  else if spec = 99#8 then some fun -- 'c'
    | .word w => some [w.setWidth 8]
    | .str _ => none
  else none

/-- The text of a format: an unknown directive is its two characters and takes no
argument, a `%` at the end is nothing. -/
def rendering : List (BitVec 8) → List Arg → Option (List (BitVec 8))
  | [], _ => some []
  | [c], _ => some (if c ≠ 37#8 then [c] else [])
  | c :: spec :: format, args =>
      if c ≠ 37#8 then (rendering (spec :: format) args).map (c :: ·)
      else if spec = 37#8 then (rendering format args).map (37#8 :: ·)
      else
        match storedReference spec, args with
        | some render, arg :: args =>
            match render arg, rendering format args with
            | some text, some tail => some (text ++ tail)
            | _, _ => none
        | some _, [] => none
        | none, args => (rendering format args).map ([37#8, spec] ++ ·)

/-- A directive's piece is its reference rendering, where there is one. -/
theorem storedReference_asked (spec : BitVec 8) :
    Option.Rel (fun render piece => ∀ arg text, render arg = some text →
      ∃ p, piece arg = some p ∧ p.text = text) (storedReference spec) (asked spec) := by
  unfold storedReference asked
  refine rel_ite ?signed <| rel_ite ?unsigned <| rel_ite ?lower <| rel_ite ?upper <| rel_ite ?pointer <|
    rel_ite ?string <| rel_ite ?char <| .none
  case signed =>
    intro arg text h
    cases arg with
    | str s => exact nomatch h
    | word w =>
        dsimp only at h
        split at h
        · exact nomatch h
        next hmin => exact ⟨_, rfl, (itoa_eq hmin).trans (Option.some.inj h)⟩
  case pointer =>
    intro arg text h
    cases arg with
    | str s => exact nomatch h
    | word w =>
        refine ⟨_, rfl, Eq.trans ?_ (Option.some.inj h)⟩
        split
        · rfl
        · rfl
  case string =>
    intro arg text h
    cases arg with
    | word w => exact nomatch h
    | str s => exact ⟨_, rfl, Option.some.inj h⟩
  case unsigned | lower | upper | char =>
    intro arg text h
    cases arg with
    | str s => exact nomatch h
    | word w => exact ⟨_, rfl, Option.some.inj h⟩

/-- The pieces of a format are its rendering. -/
theorem pieces_rendering : ∀ (format : List (BitVec 8)) (args : List Arg) (text : List (BitVec 8)),
    rendering format args = some text → ∃ ps, pieces format args = some ps ∧ whole ps = text
  | [], _, _, h => ⟨_, rfl, Option.some.inj h⟩
  | [c], _, _, h => by
      refine ⟨_, rfl, Eq.trans ?_ (Option.some.inj h)⟩
      split <;> rfl
  | c :: spec :: format, args, text, h => by
      unfold rendering at h
      by_cases hc : c ≠ 37#8
      · rw [if_pos hc] at h
        obtain ⟨tail, htail, rfl⟩ := Option.map_eq_some_iff.mp h
        obtain ⟨ps, hps, rfl⟩ := pieces_rendering _ _ _ htail
        rw [pieces_ordinary hc, hps]
        exact ⟨_, rfl, whole_cons _ _⟩
      rw [if_neg hc] at h
      obtain rfl := Decidable.not_not.mp hc
      by_cases hpercent : spec = 37#8
      · subst hpercent
        rw [if_pos rfl] at h
        obtain ⟨tail, htail, rfl⟩ := Option.map_eq_some_iff.mp h
        obtain ⟨ps, hps, rfl⟩ := pieces_rendering _ _ _ htail
        rw [pieces_percent, hps]
        exact ⟨_, rfl, whole_cons _ _⟩
      rw [if_neg hpercent] at h
      rcases rel_answers (storedReference_asked spec) with
        ⟨hnone, hasked⟩ | ⟨render, piece, hrender, hasked, hall⟩
      · rw [hnone] at h
        obtain ⟨tail, htail, rfl⟩ := Option.map_eq_some_iff.mp h
        obtain ⟨ps, hps, rfl⟩ := pieces_rendering _ _ _ htail
        rw [pieces_unknown hpercent hasked, hps]
        exact ⟨_, rfl, whole_cons _ _⟩
      · rw [hrender] at h
        cases args with
        | nil => exact nomatch h
        | cons arg args =>
            dsimp only at h
            split at h
            next first tail hfirst htail =>
              obtain rfl := Option.some.inj h
              obtain ⟨p, hp, rfl⟩ := hall arg first hfirst
              obtain ⟨ps, hps, rfl⟩ := pieces_rendering _ _ _ htail
              exact ⟨_, (pieces_directive hpercent hasked).mpr ⟨_, _, p, ps, rfl, hp, hps, rfl⟩,
                whole_cons _ _⟩
            next => exact nomatch h

/-! ## The buffer -/

/-- **`vsnprintf` stays in its buffer**, and is complete when the text fits. -/
theorem vsnprintf_stays {size : Nat} (hsize : size ≤ intMax) {format : List (BitVec 8)}
    {args : List Arg} (hargs : vaccepts (cString format) args = true) (before : Nat → BitVec 8) :
    ∃ stores r, vsnprintfStores size format args = some (stores, r) ∧
      (∀ st ∈ stores, st.1 < size) ∧
      (1 ≤ size → r ≤ size - 1 ∧ (BitVec.ofNat 32 r).toInt = r ∧
        replay before stores r = 0#8 ∧ ∃ text, text.length = r ∧
          stores = row 0 text ++ [(r, 0#8)] ∧ read (replay before stores) 0 r = text ∧
          ∀ whole, rendering (cString format) args = some whole → whole.length ≤ size - 1 →
            text = whole) := by
  obtain ⟨ps, hps⟩ := pieces_of_vaccepts _ _ hargs
  rcases Nat.eq_zero_or_pos size with rfl | hpos
  · refine ⟨[], 0, rfl, (fun st hst => nomatch hst), fun h => absurd h (by decide)⟩
  have hstores := vsnprintfStores_eq size format args
  rw [vsnprintf_fit hpos hps, Option.map_some] at hstores
  have hlen := fit_length_le (size - 1) ps
  have hcount : vsnprintfCount (fit (size - 1) ps ++ [0#8]) = (fit (size - 1) ps).length := by
    rw [vsnprintfCount, List.length_append, List.length_singleton, Nat.add_sub_cancel]
  have hrow : row 0 (fit (size - 1) ps ++ [0#8])
      = row 0 (fit (size - 1) ps) ++ [((fit (size - 1) ps).length, 0#8)] := by
    rw [row_append, Nat.zero_add]
    rfl
  rw [hcount, hrow] at hstores
  have hwhole : ∀ text, rendering (cString format) args = some text → text.length ≤ size - 1 →
      fit (size - 1) ps = text := by
    intro text htext hfits
    obtain ⟨ps', hps', rfl⟩ := pieces_rendering _ _ _ htext
    obtain rfl := Option.some.inj (hps.symm.trans hps')
    exact fit_eq_whole hfits
  generalize fit (size - 1) ps = text at hstores hlen hrow hwhole
  refine ⟨_, _, hstores, ?_, fun _ => ⟨hlen, ?_, ?_, text, rfl, rfl, ?_, hwhole⟩⟩
  · intro st hst
    rw [← hrow] at hst
    have := mem_row hst
    rw [List.length_append, List.length_singleton] at this
    omega
  · unfold intMax at hsize
    rw [BitVec.toInt_eq_toNat_of_lt] <;> rw [BitVec.toNat_ofNat] <;> omega
  · rw [replay_append]
    exact Function.update_self _ _ _
  · refine (read_congr ?_).trans (read_row before 0 text)
    intro j _ hj
    rw [replay_append]
    exact Function.update_of_ne (by omega) _ _

theorem vsnprintf_stays_small :
    ∃ stores r, vsnprintfStores 8 (chars "%d%%, %X") [.word (-42#32), .word 0xBEEF#32]
        = some (stores, r) ∧ ∀ st ∈ stores, st.1 < 8 := by
  obtain ⟨stores, r, h, hbound, -⟩ := @vsnprintf_stays 8 (by decide) (chars "%d%%, %X")
    [.word (-42#32), .word 0xBEEF#32] (by decide +kernel) fun _ => 0#8
  exact ⟨stores, r, h, hbound⟩

/-! ## Two buffers -/

/-- What a call with room for a NUL stores: what fits of the pieces, and the NUL. -/
theorem vsnprintfStores_fit {size : Nat} (hsize : 1 ≤ size) {format : List (BitVec 8)}
    {args : List Arg} {ps : List (Piece (BitVec 8))} (h : pieces (cString format) args = some ps) :
    vsnprintfStores size format args
      = some (row 0 (fit (size - 1) ps ++ [0#8]), (fit (size - 1) ps).length) := by
  rw [vsnprintfStores_eq, vsnprintf_fit hsize h, Option.map_some, vsnprintfCount, List.length_append,
    List.length_singleton, Nat.add_sub_cancel]

/-- One byte of room is left where a `0x` begins, and what gets it is not the
byte `0x` begins with: the pieces after it, or nothing. -/
def Displaced (room : Nat) (ps : List (Piece (BitVec 8))) : Prop :=
  ∃ pre p post, ps = pre ++ p :: post ∧ p.need = 2 ∧ (whole pre).length + 1 = room ∧
    opening post ≠ some 48#8

/-- **Truncation gives a prefix**, except where a `0x` meets one last byte of room. -/
theorem truncation_takes {m n : Nat} (hm : 1 ≤ m) (hmn : m ≤ n) {format : List (BitVec 8)}
    {args : List Arg} (hargs : vaccepts (cString format) args = true) :
    ∃ ps short long, pieces (cString format) args = some ps ∧
      vsnprintfStores m format args = some (row 0 (short ++ [0#8]), short.length) ∧
      vsnprintfStores n format args = some (row 0 (long ++ [0#8]), long.length) ∧
      (short = long.take (min (m - 1) long.length) ↔ m = n ∨ ¬ Displaced (m - 1) ps) := by
  obtain ⟨ps, hps⟩ := pieces_of_vaccepts _ _ hargs
  have hcut := cuttable_pieces _ _ ps hps
  have hneed : ∀ p ∈ ps, p.need ≤ 2 := fun p hp => by
    rcases hcut p hp with h | h <;> omega
  have hopening : ∀ pre p post, ps = pre ++ p :: post → p.need = 2 →
      (fit 1 post = p.text.take 1 ↔ opening post = some 48#8) := by
    rintro pre p post rfl hp
    have hzero : p.text.head? = some 48#8 := by
      rcases hcut p (List.mem_append_right _ List.mem_cons_self) with h | h
      · omega
      · exact h.2
    rw [fit_one, List.take_one, hzero]
    refine ⟨fun h => ?_, fun h => by rw [h]⟩
    have hhead := congrArg List.head? h
    rwa [Option.head?_toList, Option.head?_toList] at hhead
  refine ⟨ps, _, _, hps, vsnprintfStores_fit hm hps, vsnprintfStores_fit (hm.trans hmn) hps, ?_⟩
  rw [← List.take_eq_take_min, fit_take_iff hneed (by omega)]
  refine or_congr (by omega) ⟨?_, ?_⟩
  · rintro h ⟨pre, p, post, heq, hp, hroom, hne⟩
    exact hne ((hopening pre p post heq hp).mp (h pre p post heq hp hroom))
  · intro h pre p post heq hp hroom
    refine (hopening pre p post heq hp).mpr ?_
    by_contra hne
    exact h ⟨pre, p, post, heq, hp, hroom, hne⟩

theorem truncation_takes_small : ∃ ps short long, pieces (chars "a%x") [.word 1#32] = some ps ∧
    vsnprintfStores 2 (chars "a%x") [.word 1#32] = some (row 0 (short ++ [0#8]), short.length) ∧
    vsnprintfStores 9 (chars "a%x") [.word 1#32] = some (row 0 (long ++ [0#8]), long.length) ∧
    (short = long.take (min (2 - 1) long.length) ↔ 2 = 9 ∨ ¬ Displaced (2 - 1) ps) :=
  @truncation_takes 2 9 (by decide) (by decide) (chars "a%x") [.word 1#32] (by decide +kernel)

/-- With three bytes, `"a%xb"` is `ab`: the last byte goes to the `b`. -/
theorem truncation_displaces :
    vsnprintfStores 3 (chars "a%xb") [.word 1#32] = some (row 0 (chars "ab" ++ [0#8]), 2) ∧
      vsnprintfStores 9 (chars "a%xb") [.word 1#32] = some (row 0 (chars "a0x1b" ++ [0#8]), 5) ∧
      chars "ab" ≠ (chars "a0x1b").take (min (3 - 1) (chars "a0x1b").length) := by
  decide +kernel

end RedOS
