/-
# `RedOS.Console.Decimal` — `%d` and reading back

The reader takes a canonical numeral, an optional `-` and digits without a zero
in front, and nothing else.  What both engines write for a signed argument is
the output of `itoa`, and the reader gets the argument back from it unless that
is `INT_MIN`: there negation leaves the number as it is, and the remainders that
become digits are negative.
-/
import RedOS.Console.Truncation

namespace RedOS

open Dispatch Fitting Numeral

/-- The digit a character stands for. -/
def decimalValue (b : BitVec 8) : Option Nat :=
  if 48 ≤ b.toNat ∧ b.toNat < 58 then some (b.toNat - 48) else none

/-- Digits, at least one, and no zero in front of others. -/
def CanonicalDigits (text : List (BitVec 8)) : Prop :=
  text ≠ [] ∧ (∀ b ∈ text, (decimalValue b).isSome) ∧ (text.head? = some 48#8 → text = [48#8])

instance (text : List (BitVec 8)) : Decidable (CanonicalDigits text) :=
  inferInstanceAs (Decidable (_ ∧ _ ∧ _))

/-- An optional `-` and canonical digits; zero has no sign. -/
def CanonicalDecimal : List (BitVec 8) → Prop
  | [] => False
  | b :: text =>
      if b = 45#8 then CanonicalDigits text ∧ text ≠ [48#8] else CanonicalDigits (b :: text)

instance : DecidablePred CanonicalDecimal
  | [] => isFalse id
  | b :: _ => inferInstanceAs (Decidable (if b = 45#8 then _ else _))

/-- The integer a decimal text stands for. -/
def readDecimal : List (BitVec 8) → Option Int
  | [] => none
  | b :: text =>
      if b = 45#8 then (readDigits decimalValue 10 text).map fun n : Nat => -(n : Int)
      else (readDigits decimalValue 10 (b :: text)).map fun n : Nat => (n : Int)

theorem decimalValue_upperDigit : ∀ d : Nat, d < 10 → decimalValue (upperDigit d) = some d := by decide

theorem canonicalDigits_numeral (n : Nat) : CanonicalDigits (numeral upperDigit 10 n) := by
  refine ⟨?_, ?_, ?_⟩
  · rw [numeral, Ne, List.reverse_eq_nil_iff, List.map_eq_nil_iff]
    exact digits_ne_nil n
  · intro b hb
    obtain ⟨d, hd, rfl⟩ := of_mem_numeral (by decide) hb
    rw [decimalValue_upperDigit d hd]
    rfl
  · intro h
    have hchar : ∀ d : Nat, d < 10 → upperDigit d = upperDigit 0 → d = 0 := by decide
    rw [head_numeral hchar (by decide) h]
    rfl

/-- The numeral of an integer is canonical and reads back. -/
theorem signedNumeral_reads (z : Int) :
    CanonicalDecimal (signedNumeral z) ∧ readDecimal (signedNumeral z) = some z := by
  have hread : readDigits decimalValue 10 (numeral upperDigit 10 z.natAbs) = some z.natAbs :=
    readDigits_numeral (by decide) decimalValue_upperDigit _
  have hcanonical := canonicalDigits_numeral z.natAbs
  unfold signedNumeral
  split
  next hneg =>
    constructor
    · rw [CanonicalDecimal, if_pos rfl]
      refine ⟨hcanonical, ?_⟩
      intro hzero
      rw [hzero] at hread
      have habs : z.natAbs = 0 := (Option.some.inj hread).symm
      omega
    · rw [readDecimal, if_pos rfl, hread, Option.map_some]
      exact congrArg some (by omega)
  next hneg =>
    have hz : (z.natAbs : Int) = z := Int.natAbs_of_nonneg (Int.not_lt.mp hneg)
    cases htext : numeral upperDigit 10 z.natAbs with
    | nil => exact absurd htext hcanonical.1
    | cons b text =>
        rw [htext] at hread hcanonical
        -- a digit is no sign
        have hb : b ≠ 45#8 := fun heq => by
          have := hcanonical.2.1 b List.mem_cons_self
          rw [heq] at this
          exact absurd this (by decide)
        constructor
        · rw [CanonicalDecimal, if_neg hb]
          exact hcanonical
        · rw [readDecimal, if_neg hb, hread, Option.map_some, hz]

theorem itoa_intMin : ¬ CanonicalDecimal (itoa intMin 10) := by decide +kernel

theorem itoaDigits_length (base : Int) : ∀ (n : Nat) (z : Int), (itoaDigits base n z).length ≤ n
  | 0, _ => Nat.zero_le _
  | n + 1, z => by
      unfold itoaDigits
      split
      · exact Nat.zero_le _
      · exact Nat.succ_le_succ (itoaDigits_length base n _)

theorem itoa_length (w : BitVec 32) (base : Int) : (itoa w base).length ≤ 33 := by
  unfold itoa
  split
  · exact Nat.le_add_left 1 32
  · dsimp only
    rw [List.length_reverse]
    have h := itoaDigits_length base 32
    split
    · rw [List.length_append]
      exact Nat.succ_le_succ (h _)
    · exact (h _).trans (Nat.le_succ 32)

/-- **Signed decimal conversion round-trips**, of every number but `INT_MIN`, in
both engines, in any format and buffer. -/
theorem signed_roundtrip (w : BitVec 32) {spec : BitVec 8} (hspec : spec = 100#8 ∨ spec = 105#8) :
    (∃ conv, directive spec = some conv ∧ conv (.word w) = some [itoa w 10]) ∧
      (∀ size, ∃ conv, specifier size spec = some conv ∧
        ∀ out, conv (.word w) out = some (copyOut size (itoa w 10) out)) ∧
      (∀ k : Console, k.printf [37#8, spec] [.word w] = some (((itoa w 10).length : Int),
        ((k.emit (.printf [37#8, spec] [.word w])).print (itoa w 10)).emit .ret)) ∧
      (∀ size, (itoa w 10).length < size →
        vsnprintf size [37#8, spec] [.word w] = some (itoa w 10 ++ [0#8])) ∧
      (CanonicalDecimal (itoa w 10) ∧ readDecimal (itoa w 10) = some w.toInt ↔ w ≠ intMin) := by
  have hne : spec ≠ 37#8 := by rcases hspec with rfl | rfl <;> decide
  have hformat : cString [37#8, spec] = [37#8, spec] := by rcases hspec with rfl | rfl <;> rfl
  have hdirective : ∃ conv, directive spec = some conv ∧ conv (.word w) = some [itoa w 10] := by
    rcases hspec with rfl | rfl <;> exact ⟨_, rfl, rfl⟩
  have hasked : ∃ piece, asked spec = some piece ∧ piece (.word w) = some (plain (itoa w 10)) := by
    rcases hspec with rfl | rfl <;> exact ⟨_, rfl, rfl⟩
  obtain ⟨piece, hpiece, hp⟩ := hasked
  refine ⟨hdirective, ?_, ?_, ?_, ?_⟩
  · intro size
    rcases rel_answers (specifier_fit size spec) with
      ⟨-, hnone⟩ | ⟨conv, piece', hconv, hpiece', hfit⟩
    · rw [hpiece] at hnone
      cases hnone
    · obtain rfl := Option.some.inj (hpiece.symm.trans hpiece')
      refine ⟨conv, hconv, ?_⟩
      intro out
      rw [hfit, hp, Option.map_some, ← copyOut_fit]
  · intro k
    obtain ⟨conv, hconv, htexts⟩ := hdirective
    have hprinted : printed spec = some fun arg => (conv arg).map List.flatten := by
      rw [printed, hconv, Option.map_some]
    have hrender : renderWith printed [37#8, spec] [.word w] = some (itoa w 10) :=
      (renderWith_directive hne hprinted [] _ [] _).mpr ⟨itoa w 10, [], by
        rw [htexts, Option.map_some, List.flatten_singleton], rfl, (List.append_nil _).symm⟩
    have hlen := itoa_length w 10
    have hprintf := @printf_text [37#8, spec] [.word w] (itoa w 10)
      (by rw [hformat]; exact hrender) (by unfold intMax; omega) k
    rwa [hformat] at hprintf
  · intro size hsize
    have hpieces : pieces (cString [37#8, spec]) [.word w] = some [plain (itoa w 10)] := by
      rw [hformat]
      exact (pieces_directive hne hpiece).mpr ⟨_, [], _, [], rfl, hp, rfl, rfl⟩
    have hwhole : whole [plain (itoa w 10)] = itoa w 10 := List.append_nil _
    rw [vsnprintf_fit (by omega) hpieces, fit_eq_whole, hwhole]
    rw [hwhole]
    omega
  · constructor
    · rintro h rfl
      exact itoa_intMin h.1
    · intro h
      rw [itoa_eq h]
      exact signedNumeral_reads _

theorem signed_roundtrip_small :
    CanonicalDecimal (itoa (-42#32) 10) ∧ readDecimal (itoa (-42#32) 10) = some (-42) :=
  (signed_roundtrip (-42#32) (Or.inl rfl)).2.2.2.2.mpr (by decide)

/-- `INT_MIN` is written with the characters below `0`. -/
theorem intMin_written :
    vsnprintf 100 (chars "%d") [.word intMin] = some (chars "-./,),(-*,(" ++ [0#8]) ∧
      itoa intMin 10 = chars "-./,),(-*,(" ∧ ¬ CanonicalDecimal (chars "-./,),(-*,(") := by
  decide +kernel

end RedOS
