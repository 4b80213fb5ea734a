/-
# `RedOS.Lib.X86Tlb` — pages with their rights, and a cache of them

`lookup` says which frame a page is on; the processor also asks what may be done
there, and grants a right only if the directory entry and the table entry both
do.  `pageWalk` is the walk with the rights, and what a TLB keeps:

    fill      any present page, as the tables have it now
    invlpg    drops one page
    CR3       a load drops all of them

Whatever is cached stays right as long as the walks that were present stay as
they were (`AgreesBut.mono`); a store that changes one page only spoils that
page, and `invlpg` repairs it.
-/
import RedOS.Lib.X86Paging
import Mathlib.Logic.Function.Basic

namespace X86Paging

open ByteMemory

/-! ## Rights -/

/-- Bit 1 of an entry: stores are allowed. -/
def writeBit : BitVec 32 := 2#32

/-- Bit 2 of an entry: user mode is allowed. -/
def userBit : BitVec 32 := 4#32

/-- The entry `e` grants `right`. -/
def Grants (e right : BitVec 32) : Prop := e &&& right ≠ 0#32

instance (e right : BitVec 32) : Decidable (Grants e right) := inferInstanceAs (Decidable (_ ≠ _))

structure Page where
  frame : Nat
  writable : Bool
  user : Bool
deriving DecidableEq

/-- What a directory entry and a table entry say together. -/
def pageOf (pde pte : BitVec 32) : Page where
  frame := frameOf pte
  writable := decide (Grants pde writeBit ∧ Grants pte writeBit)
  user := decide (Grants pde userBit ∧ Grants pte userBit)

/-- The walk of the page of `v` from the directory in frame `d`. -/
def pageWalk (m : Mem) (d : Nat) (v : Addr) : Option Page :=
  if Present (entry m d (slot v)) ∧ Present (entry m (tableOf m d v) (index v)) then
    some (pageOf (entry m d (slot v)) (entry m (tableOf m d v) (index v)))
  else none

/-- Its frame is the one the page is on. -/
theorem pageWalk_frame (m : Mem) (d : Nat) (v : Addr) :
    (pageWalk m d v).map Page.frame = lookup m d v := by
  unfold pageWalk lookup
  split
  · rfl
  · rfl

theorem pageWalk_present {m : Mem} {d : Nat} {v : Addr} {p : Page} (h : pageWalk m d v = some p) :
    Present (entry m d (slot v)) ∧ Present (entry m (tableOf m d v) (index v)) := by
  unfold pageWalk at h
  split at h
  next hp => exact hp
  next => cases h

theorem pageWalk_of_entries {m : Mem} {d : Nat} {v : Addr} {e e' : BitVec 32}
    (hd : entry m d (slot v) = e) (hdp : Present e) (ht : entry m (frameOf e) (index v) = e')
    (htp : Present e') : pageWalk m d v = some (pageOf e e') := by
  subst hd
  subst ht
  exact if_pos ⟨hdp, htp⟩

theorem pageWalk_of_absent {m : Mem} {d : Nat} {v : Addr}
    (h : ¬ Present (entry m d (slot v))) : pageWalk m d v = none := if_neg fun hp => h hp.1

/-- A walk depends on its directory entry and, where that is present, on its
table entry. -/
theorem pageWalk_congr {m m' : Mem} {d : Nat} {v : Addr}
    (hd : entry m' d (slot v) = entry m d (slot v))
    (ht : Present (entry m d (slot v)) →
      entry m' (tableOf m d v) (index v) = entry m (tableOf m d v) (index v)) :
    pageWalk m' d v = pageWalk m d v := by
  have htab : tableOf m' d v = tableOf m d v := congrArg frameOf hd
  by_cases hp : Present (entry m d (slot v))
  · rw [pageWalk, pageWalk, htab, hd, ht hp]
  · rw [pageWalk_of_absent hp, pageWalk_of_absent (by rwa [hd])]

theorem pageWalk_of_frameOf {v w : Addr} (m : Mem) (d : Nat) (h : frameOf v = frameOf w) :
    pageWalk m d v = pageWalk m d w := by
  obtain ⟨hs, hi⟩ := slot_index_of_frameOf h
  rw [pageWalk, pageWalk, tableOf, tableOf, hs, hi]

/-! ## The cache -/

/-- Page number to the cached walk of the page. -/
abbrev Tlb := Nat → Option Page

namespace Tlb

variable {t : Tlb} {m m' : Mem} {d : Nat} {e : Option Nat}

def empty : Tlb := fun _ => none

/-- The page of `v` may be cached when it is present. -/
def fill (t : Tlb) (m : Mem) (d : Nat) (v : Addr) : Tlb :=
  match pageWalk m d v with
  | some p => Function.update t (frameOf v) (some p)
  | none => t

def fillAll (t : Tlb) (m : Mem) (d : Nat) (vs : List Addr) : Tlb :=
  vs.foldl (fun t v => t.fill m d v) t

def invlpg (t : Tlb) (v : Addr) : Tlb := Function.update t (frameOf v) none

/-- Every cached page but `e` is as the tables have it. -/
def AgreesBut (e : Option Nat) (t : Tlb) (m : Mem) (d : Nat) : Prop :=
  ∀ v p, some (frameOf v) ≠ e → t (frameOf v) = some p → pageWalk m d v = some p

/-- Every cached page is as the tables have it. -/
def Coherent (t : Tlb) (m : Mem) (d : Nat) : Prop :=
  ∀ v p, t (frameOf v) = some p → pageWalk m d v = some p

theorem agreesBut_none : AgreesBut none t m d ↔ Coherent t m d :=
  ⟨fun h v p hp => h v p (fun hno => nomatch hno) hp, fun h v p _ hp => h v p hp⟩

theorem coherent_empty : Coherent empty m d := fun _ _ h => nomatch h

theorem fill_present {v : Addr} {p : Page} (h : pageWalk m d v = some p) :
    t.fill m d v = Function.update t (frameOf v) (some p) := by rw [fill, h]

theorem fill_absent {v : Addr} (h : pageWalk m d v = none) : t.fill m d v = t := by rw [fill, h]

theorem AgreesBut.fill (h : AgreesBut e t m d) (v : Addr) : AgreesBut e (t.fill m d v) m d := by
  intro w p hw hp
  cases hq : pageWalk m d v with
  | none =>
      rw [fill_absent hq] at hp
      exact h w p hw hp
  | some q =>
      rw [fill_present hq] at hp
      by_cases hpage : frameOf w = frameOf v
      · rw [hpage, Function.update_self] at hp
        rw [pageWalk_of_frameOf m d hpage, hq, hp]
      · rw [Function.update_of_ne hpage] at hp
        exact h w p hw hp

theorem AgreesBut.fillAll (h : AgreesBut e t m d) (vs : List Addr) :
    AgreesBut e (t.fillAll m d vs) m d := by
  induction vs generalizing t with
  | nil => exact h
  | cons v vs ih => exact ih (h.fill v)

/-- Other tables, through which the present pages but `e` are walked as before. -/
theorem AgreesBut.mono (h : AgreesBut none t m d)
    (hwalk : ∀ v p, some (frameOf v) ≠ e → pageWalk m d v = some p → pageWalk m' d v = some p) :
    AgreesBut e t m' d :=
  fun v p hv hp => hwalk v p hv (h v p (fun hno => nomatch hno) hp)

/-- `invlpg` drops the one page that may be wrong. -/
theorem AgreesBut.invlpg {v : Addr} (h : AgreesBut (some (frameOf v)) t m d) :
    AgreesBut none (t.invlpg v) m d := by
  intro w p _ hp
  by_cases hpage : frameOf w = frameOf v
  · rw [Tlb.invlpg, hpage, Function.update_self] at hp
    exact nomatch hp
  · rw [Tlb.invlpg, Function.update_of_ne hpage] at hp
    exact h w p (fun heq => hpage (Option.some.inj heq)) hp

/-- No fill takes a page out. -/
theorem fill_isSome {n : Nat} (h : (t n).isSome) (v : Addr) : (t.fill m d v n).isSome := by
  cases hq : pageWalk m d v with
  | none => rwa [fill_absent hq]
  | some q =>
      rw [fill_present hq]
      by_cases hn : n = frameOf v
      · rw [hn, Function.update_self]
        rfl
      · rwa [Function.update_of_ne hn]

theorem fillAll_isSome {n : Nat} (h : (t n).isSome) (vs : List Addr) :
    (t.fillAll m d vs n).isSome := by
  induction vs generalizing t with
  | nil => exact h
  | cons v vs ih => exact ih (fill_isSome h v)

end Tlb

end X86Paging
