/-
# `RedOS.Console.Stores` — `vsnprintf`, store by store

The function as its C text has it: every store into `str` with its index, and
every bound check where the branch that makes it stands.  The stores turn out to
be one row from `str[0]` on (`storeLoop_of`), so the text `vsnprintf` keeps is
the list of bytes that `RedOS.Console.Debug` works with.
-/
import RedOS.Lib.StoreLog
import RedOS.Console.Debug

namespace RedOS

open Dispatch StoreLog

/-- `str`, `output_index` and `count`. -/
structure Output where
  /-- the stores into `str` -/
  stores : Log (BitVec 8)
  outputIndex : Nat
  count : Nat

/-- `str[output_index++] = b; count++;` -/
def Output.put (b : BitVec 8) (o : Output) : Output where
  stores := o.stores ++ [(o.outputIndex, b)]
  outputIndex := o.outputIndex + 1
  count := o.count + 1

/-- `while (pos > 0 && output_index < size - 1) { str[output_index++] = buffer[--pos]; count++; }` -/
def copyBack (size : Nat) (buffer : List (BitVec 8)) : Nat → Output → Output
  | 0, o => o
  | pos + 1, o =>
      if o.outputIndex < size - 1 then copyBack size buffer pos (o.put (buffer.getD pos 0#8)) else o

/-- `while (*value && output_index < size - 1) { str[output_index++] = *value++; count++; }` -/
def copyString (size : Nat) : List (BitVec 8) → Output → Output
  | [], o => o
  | b :: value, o =>
      if b ≠ 0#8 ∧ o.outputIndex < size - 1 then copyString size value (o.put b) else o

/-- `memcpy(&str[output_index], s, n)`, with `output_index` and `count` moved on. -/
def copyBytes (s : List (BitVec 8)) (n : Nat) (o : Output) : Output :=
  (s.take n).foldl (fun o b => o.put b) o

/-- The `switch (*format)` of `vsnprintf`, as in `specifier`.  A `buffer` holds
its digits from index 0 on and `pos` is its length. -/
def storeSpecifier (size : Nat) (spec : BitVec 8) : Option (Arg → Output → Option Output) :=
  if spec = 100#8 || spec = 105#8 then some fun -- 'd', 'i'
    | .word w, o =>
        let negative := w.slt 0#32
        let value := if negative then -w else w
        let buffer := reversedDigits 97 10 31 value.toInt
        -- Add minus sign if negative
        let buffer := if negative ∧ buffer.length < 31 then buffer ++ [45#8] else buffer
        some (copyBack size buffer buffer.length o)
    | .str _, _ => none
  else if spec = 117#8 then some fun -- 'u'
    | .word w, o =>
        let buffer := reversedDigits 97 10 31 w.toNat
        some (copyBack size buffer buffer.length o)
    | .str _, _ => none
  else if spec = 120#8 then some fun -- 'x'
    | .word w, o =>
        some (if o.outputIndex + 1 < size - 1 then
          let o := (o.put 48#8).put 120#8
          -- Handle zero value specially
          if w = 0#32 ∧ o.outputIndex < size - 1 then o.put 48#8
          else
            let buffer := reversedDigits 97 16 31 w.toNat
            copyBack size buffer buffer.length o
        else o)
    | .str _, _ => none
  else if spec = 88#8 then some fun -- 'X'
    | .word w, o =>
        some (if o.outputIndex + 1 < size - 1 then
          let o := (o.put 48#8).put 120#8
          -- Handle zero value specially
          if w = 0#32 ∧ o.outputIndex < size - 1 then o.put 48#8
          else
            let buffer := reversedDigits 65 16 31 w.toNat
            copyBack size buffer buffer.length o
        else o)
    | .str _, _ => none
  else if spec = 112#8 then some fun -- 'p'
    | .word w, o =>
        some (if w = 0#32 then
          let nullStr := chars "(nil)"
          let toCopy :=
            if o.outputIndex + nullStr.length < size - 1 then nullStr.length
            else size - 1 - o.outputIndex
          copyBytes nullStr toCopy o
        else if o.outputIndex + 1 < size - 1 then
          let o := (o.put 48#8).put 120#8
          let buffer := reversedDigits 97 16 31 w.toNat
          -- Ensure minimum width of 8 digits for 32-bit pointers
          let buffer := buffer ++ List.replicate (8 - buffer.length) 48#8
          copyBack size buffer buffer.length o
        else o)
    | .str _, _ => none
  else if spec = 115#8 then some fun -- 's'
    | .word _, _ => none
    | .str value, o => some (copyString size (value.getD (chars "(null)")) o)
  else if spec = 99#8 then some fun -- 'c'
    | .word w, o => some (if o.outputIndex < size - 1 then o.put (w.setWidth 8) else o)
    | .str _, _ => none
  else none

/-- The loop of `vsnprintf`. -/
def storeLoop (size : Nat) : List (BitVec 8) → List Arg → Output → Option Output
  | [], _, o => some o
  | [c], _, o =>
      if ¬ o.outputIndex < size - 1 then some o
      else if c ≠ 37#8 then some (o.put c)
      else some o
  | c :: spec :: format, args, o =>
      if ¬ o.outputIndex < size - 1 then some o
      else if c ≠ 37#8 then storeLoop size (spec :: format) args (o.put c)
      else if spec = 37#8 then storeLoop size format args (o.put 37#8)
      else
        match storeSpecifier size spec, args with
        | some conv, arg :: args =>
            match conv arg o with
            | none => none
            | some o => storeLoop size format args o
        | some _, [] => none
        | none, args =>
            -- Unsupported format specifier - output as-is
            let o := if o.outputIndex < size - 1 then o.put 37#8 else o
            let o := if o.outputIndex < size - 1 then o.put spec else o
            storeLoop size format args o

/-- `vsnprintf`: its stores, and `count` as it is returned. -/
def vsnprintfStores (size : Nat) (format : List (BitVec 8)) (args : List Arg) :
    Option (Log (BitVec 8) × Nat) :=
  if size = 0 then some ([], 0)
  else if size = 1 then some ([(0, 0#8)], 0)
  else
    (storeLoop size (cString format) args ⟨[], 0, 0⟩).map fun o =>
      -- Null-terminate the output
      (o.stores ++ [(o.outputIndex, 0#8)], o.count)

/-! ## The stores are a row -/

/-- `text` stored from `str[0]` on. -/
def Output.of (text : List (BitVec 8)) : Output := ⟨row 0 text, text.length, text.length⟩

@[simp] theorem Output.of_outputIndex (text : List (BitVec 8)) :
    (Output.of text).outputIndex = text.length := rfl

theorem Output.of_put (text : List (BitVec 8)) (b : BitVec 8) :
    (Output.of text).put b = Output.of (text ++ [b]) := by
  unfold Output.of Output.put
  rw [row_append, List.length_append, Nat.zero_add]
  rfl

/-- One store, where there is room. -/
theorem putIn_of (size : Nat) (b : BitVec 8) (out : List (BitVec 8)) :
    (if (Output.of out).outputIndex < size - 1 then (Output.of out).put b else Output.of out)
      = Output.of (copyOut size [b] out) := by
  rw [Output.of_outputIndex]
  split
  next hroom => rw [Output.of_put, copyOut_cons _ _ hroom, copyOut_nil]
  next hroom => rw [copyOut_full _ hroom]

theorem copyBack_of (size : Nat) (buffer : List (BitVec 8)) : ∀ (pos : Nat) (out : List (BitVec 8)),
    pos ≤ buffer.length →
    copyBack size buffer pos (Output.of out) = Output.of (copyOut size (buffer.take pos).reverse out)
  | 0, out, _ => by
      rw [List.take_zero, List.reverse_nil, copyOut_nil]
      rfl
  | pos + 1, out, h => by
      have hlast : (buffer.take (pos + 1)).reverse = buffer.getD pos 0#8 :: (buffer.take pos).reverse := by
        rw [List.take_add_one, List.getElem?_eq_getElem (by omega), List.getD_eq_getElem?_getD,
          List.getElem?_eq_getElem (by omega), List.reverse_append]
        rfl
      rw [hlast, copyBack]
      split
      next hroom => rw [Output.of_put, copyBack_of size buffer pos _ (by omega), copyOut_cons _ _ hroom]
      next hroom => rw [copyOut_full _ hroom]

/-- The whole buffer copied back. -/
theorem copyBack_all (size : Nat) (buffer out : List (BitVec 8)) :
    copyBack size buffer buffer.length (Output.of out) = Output.of (copyOut size buffer.reverse out) := by
  rw [copyBack_of size buffer _ out (Nat.le_refl _), List.take_length]

theorem copyString_of (size : Nat) : ∀ value out : List (BitVec 8),
    copyString size value (Output.of out) = Output.of (copyOut size (cString value) out)
  | [], out => by
      show Output.of out = Output.of (copyOut size [] out)
      rw [copyOut_nil]
  | b :: value, out => by
      rw [copyString]
      by_cases hb : b = 0#8
      · rw [if_neg fun h => h.1 hb, cString, List.takeWhile_cons_of_neg (by simp [hb]), copyOut_nil]
      · have hcons : cString (b :: value) = b :: cString value :=
          List.takeWhile_cons_of_pos (by simp [hb])
        rw [hcons]
        split
        next hroom => rw [Output.of_put, copyString_of size value, copyOut_cons _ _ hroom.2]
        next hroom => rw [copyOut_full _ fun h => hroom ⟨hb, h⟩]

theorem copyBytes_of (s out : List (BitVec 8)) (n : Nat) :
    copyBytes s n (Output.of out) = Output.of (out ++ s.take n) := by
  unfold copyBytes
  induction s.take n generalizing out with
  | nil => rw [List.append_nil, List.foldl_nil]
  | cons b s ih => rw [List.foldl_cons, Output.of_put, ih, List.append_assoc, List.singleton_append]

/-- The two stores of a `"0x"` prefix, where there is room for both. -/
theorem hexPrefix_of {size : Nat} {digits out : List (BitVec 8)} {o : Output}
    (ho : out.length + 1 < size - 1 →
      o = Output.of (copyOut size digits.reverse (out ++ chars "0x"))) :
    (if (Output.of out).outputIndex + 1 < size - 1 then o else Output.of out)
      = Output.of (hexOut size digits out) := by
  rw [Output.of_outputIndex, hexOut]
  split
  next hroom => exact ho hroom
  next => rfl

theorem put_hexPrefix (out : List (BitVec 8)) :
    ((Output.of out).put 48#8).put 120#8 = Output.of (out ++ chars "0x") := by
  rw [Output.of_put, Output.of_put, List.append_assoc]
  rfl

/-- `%x` and `%X`: the case for zero stores what the loops would. -/
theorem hexDigits_of {size : Nat} {ten : Int} (hten : digitCharFrom ten 0 = 48#8) (w : BitVec 32)
    (out : List (BitVec 8)) :
    (if w = 0#32 ∧ (Output.of out).outputIndex < size - 1 then (Output.of out).put 48#8
      else copyBack size (reversedDigits ten 16 31 w.toNat) (reversedDigits ten 16 31 w.toNat).length
        (Output.of out))
      = Output.of (copyOut size (reversedDigits ten 16 31 w.toNat).reverse out) := by
  split
  next hzero =>
    obtain ⟨rfl, hroom⟩ := hzero
    have hdigits : reversedDigits ten 16 31 ((0#32).toNat : Nat) = [48#8] := by
      show digitCharFrom ten 0 :: _ = _
      rw [hten]
      rfl
    rw [hdigits, List.reverse_singleton, copyOut_cons _ _ hroom, copyOut_nil, Output.of_put]
  next => exact copyBack_all _ _ _

/-- A number of `k` digits takes `k` passes at most. -/
theorem reversedDigits_length (ten : Int) {base : Nat} (hb : 1 < base) : ∀ (n k : Nat) (z : Int),
    z.natAbs < base ^ (k + 1) → (reversedDigits ten base n z).length ≤ k + 1
  | 0, _, _, _ => Nat.zero_le _
  | n + 1, k, z, hz => by
      rw [reversedDigits, List.length_cons]
      split
      next => exact Nat.le_add_left 1 k
      next hquot =>
        have hdiv : (z.tdiv base).natAbs = z.natAbs / base := by
          rw [Int.natAbs_tdiv, Int.natAbs_natCast]
          rfl
        cases k with
        | zero =>
            refine absurd (Int.natAbs_eq_zero.mp ?_) hquot
            rw [hdiv, Nat.div_eq_of_lt (by rwa [Nat.zero_add, Nat.pow_one] at hz)]
        | succ k =>
            refine Nat.succ_le_succ (reversedDigits_length ten hb n k _ ?_)
            rw [hdiv, Nat.div_lt_iff_lt_mul (Nat.lt_of_succ_lt hb)]
            exact hz

/-- So there is always room for the sign. -/
theorem signed_buffer (w : BitVec 32) :
    let negative := w.slt 0#32
    let buffer := reversedDigits 97 10 31 (if negative then -w else w).toInt
    (if negative ∧ buffer.length < 31 then buffer ++ [45#8] else buffer)
      = if negative then buffer ++ [45#8] else buffer := by
  dsimp only
  generalize (if w.slt 0#32 = true then -w else w) = value
  have hbound := BitVec.two_mul_toInt_lt (x := value)
  have hbound' := BitVec.le_two_mul_toInt (x := value)
  have hlen : (reversedDigits 97 10 31 value.toInt).length < 31 :=
    Nat.lt_of_le_of_lt (@reversedDigits_length 97 10 (by decide) 31 9 _ (by omega)) (by decide)
  exact if_congr (and_iff_left hlen) rfl rfl

/-- One specifier: the stores of the branch are the text `specifier` appends. -/
theorem storeSpecifier_of (size : Nat) (spec : BitVec 8) :
    Option.Rel (fun conv conv' => ∀ arg out, conv' arg (Output.of out) = (conv arg out).map Output.of)
      (specifier size spec) (storeSpecifier size spec) := by
  unfold specifier storeSpecifier
  refine rel_ite ?signed <| rel_ite ?unsigned <| rel_ite ?lower <| rel_ite ?upper <| rel_ite ?pointer <|
    rel_ite ?string <| rel_ite ?char <| .none
  case signed =>
    intro arg out
    cases arg with
    | str s => rfl
    | word w =>
        refine congrArg some ?_
        have hbuffer := signed_buffer w
        dsimp only at hbuffer ⊢
        rw [hbuffer]
        exact copyBack_all _ _ _
  case unsigned =>
    intro arg out
    cases arg with
    | str s => rfl
    | word w => exact congrArg some (copyBack_all _ _ _)
  case lower | upper =>
    intro arg out
    cases arg with
    | str s => rfl
    | word w =>
        refine congrArg some (hexPrefix_of ?_)
        intro _
        rw [put_hexPrefix]
        exact hexDigits_of rfl w _
  case pointer =>
    intro arg out
    cases arg with
    | str s => rfl
    | word w =>
        refine congrArg some ?_
        by_cases hnull : w = 0#32
        · dsimp only
          rw [if_pos hnull, if_pos hnull, copyBytes_of, Output.of_outputIndex, copyOut]
          refine congrArg (fun text => Output.of (out ++ text)) ?_
          split
          next hfits => rw [List.take_length, List.take_of_length_le (by omega)]
          next => rfl
        · dsimp only
          rw [if_neg hnull, if_neg hnull]
          refine hexPrefix_of ?_
          intro _
          rw [put_hexPrefix]
          exact copyBack_all _ _ _
  case string =>
    intro arg out
    cases arg with
    | word w => rfl
    | str s =>
        refine congrArg some ((copyString_of size _ out).trans ?_)
        cases s with
        | none => rfl
        | some s => rfl
  case char =>
    intro arg out
    cases arg with
    | str s => rfl
    | word w => exact congrArg some (putIn_of size _ out)

/-- The loop: its stores are the text of `vsnprintfLoop`, one after the other. -/
theorem storeLoop_of (size : Nat) : ∀ (format : List (BitVec 8)) (args : List Arg)
    (out : List (BitVec 8)), storeLoop size format args (Output.of out)
      = (vsnprintfLoop size format args out).map Output.of
  | [], _, _ => rfl
  | [c], args, out => by
      rw [storeLoop, vsnprintfLoop, Output.of_outputIndex]
      by_cases hroom : out.length < size - 1
      · rw [if_neg (not_not_intro hroom)]
        by_cases hc : c ≠ 37#8
        · rw [if_pos hc, if_pos ⟨hroom, hc⟩, Output.of_put, Option.map_some]
        · rw [if_neg hc, if_neg fun h => hc h.2, Option.map_some]
      · rw [if_pos hroom, if_neg fun h => hroom h.1, Option.map_some]
  | c :: spec :: format, args, out => by
      unfold storeLoop vsnprintfLoop
      rw [Output.of_outputIndex]
      by_cases hroom : out.length < size - 1
      · rw [if_neg (not_not_intro hroom), if_neg (not_not_intro hroom)]
        by_cases hc : c ≠ 37#8
        · rw [if_pos hc, if_pos hc, Output.of_put, storeLoop_of size (spec :: format)]
        rw [if_neg hc, if_neg hc]
        by_cases hpercent : spec = 37#8
        · rw [if_pos hpercent, if_pos hpercent, Output.of_put, storeLoop_of size format]
        rw [if_neg hpercent, if_neg hpercent]
        rcases rel_answers (storeSpecifier_of size spec) with
          ⟨hnone, hnone'⟩ | ⟨conv, conv', hconv, hconv', hof⟩
        · rw [hnone, hnone']
          have hpercent' := putIn_of size 37#8 out
          rw [Output.of_outputIndex] at hpercent'
          dsimp only
          rw [hpercent', putIn_of size spec]
          exact storeLoop_of size format args _
        · rw [hconv, hconv']
          cases args with
          | nil => rfl
          | cons arg args =>
              dsimp only
              rw [hof]
              cases conv arg out with
              | none => rfl
              | some out' => exact storeLoop_of size format args out'
      · rw [if_pos hroom, if_pos hroom, Option.map_some]

/-- **The stores of a call are one row from `str[0]` on**, and the value returned
is the length of the text before its NUL. -/
theorem vsnprintfStores_eq (size : Nat) (format : List (BitVec 8)) (args : List Arg) :
    vsnprintfStores size format args
      = (vsnprintf size format args).map fun stored => (row 0 stored, vsnprintfCount stored) := by
  unfold vsnprintfStores vsnprintf
  by_cases hzero : size = 0
  · rw [if_pos hzero, if_pos hzero]
    rfl
  by_cases hone : size = 1
  · rw [if_neg hzero, if_neg hzero, if_pos hone, if_pos hone]
    rfl
  rw [if_neg hzero, if_neg hzero, if_neg hone, if_neg hone]
  have hloop : storeLoop size (cString format) args ⟨[], 0, 0⟩
      = (vsnprintfLoop size (cString format) args []).map Output.of := storeLoop_of size _ _ []
  rw [hloop]
  cases vsnprintfLoop size (cString format) args [] with
  | none => rfl
  | some text =>
      simp only [Option.map_some, Output.of, vsnprintfCount, row_append, List.length_append,
        List.length_singleton, Nat.add_sub_cancel, Nat.zero_add, row]

end RedOS
