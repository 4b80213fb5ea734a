/-
# `RedOS.Lib.SharedPages` — memory in pages that several addresses may share

What paged memory is to the programs that use it: pages are handed out and
taken back, virtual pages are mapped to pages, and a word is stored and loaded
through a virtual page.  Two virtual pages on one page see each other's stores.

    step            one event, refused where such a memory does not do it
    keeps_run       a word stays until it is stored to or its page is taken back
    run_load_store  what is loaded is what was stored last, through any virtual page
-/
import RedOS.Lib.Runs
import Mathlib.Data.Finset.Insert
import Mathlib.Data.Finset.Erase
import Mathlib.Logic.Function.Basic

namespace SharedPages

open Runs

/-- Virtual pages, pages, places in a page, and words. -/
structure State (V P O W : Type) where
  /-- Handed out and not taken back. -/
  live : Finset P
  mapping : V → Option P
  page : P → O → W

inductive Event (V P O W : Type) where
  | alloc (p : P)
  | free (p : P)
  | map (v : V) (p : P)
  | unmap (v : V)
  | store (v : V) (o : O) (x : W)
  /-- `x` is what was loaded. -/
  | load (v : V) (o : O) (x : W)

variable {V P O W : Type} [DecidableEq P]

/-- The live page behind `v`. -/
def State.target (s : State V P O W) (v : V) : Option P :=
  (s.mapping v).filter fun p => decide (p ∈ s.live)

theorem target_eq_some {s : State V P O W} {v : V} {p : P} :
    s.target v = some p ↔ s.mapping v = some p ∧ p ∈ s.live := by
  unfold State.target
  rw [Option.filter_eq_some_iff, decide_eq_true_eq]

variable [DecidableEq V] [DecidableEq O] [DecidableEq W] [Zero W]

/-- A page is handed out once and cleared; words are stored and loaded where
there is a live page; a load returns what is there. -/
def step (s : State V P O W) : Event V P O W → Option (State V P O W)
  | .alloc p =>
      if p ∈ s.live then none
      else some { s with live := insert p s.live, page := Function.update s.page p fun _ => 0 }
  | .free p => if p ∈ s.live then some { s with live := s.live.erase p } else none
  | .map v p => some { s with mapping := Function.update s.mapping v (some p) }
  | .unmap v => some { s with mapping := Function.update s.mapping v none }
  | .store v o x => (s.target v).map fun p =>
      { s with page := Function.update s.page p (Function.update (s.page p) o x) }
  | .load v o x => (s.target v).bind fun p => if s.page p o = x then some s else none

/-- The event may change place `o` of the live page `p`. -/
def Spoils (p : P) (o : O) (s : State V P O W) : Event V P O W → Prop
  | .free q => q = p
  | .store v o' _ => s.target v = some p ∧ o' = o
  | _ => False

section Laws

variable {s s' t : State V P O W} {e : Event V P O W} {p : P} {v w : V} {o : O} {x y : W}

/-- `p` is live and has `x` in place `o`. -/
def Keeps (p : P) (o : O) (x : W) (s : State V P O W) : Prop := p ∈ s.live ∧ s.page p o = x

/-- A live page is not handed out again, so its words stay. -/
theorem keeps_step (hs : Keeps p o x s) (hp : ¬ Spoils p o s e) (h : step s e = some s') :
    Keeps p o x s' := by
  obtain ⟨hlive, hx⟩ := hs
  cases e with
  | alloc q =>
      simp only [step] at h
      split at h
      · cases h
      next hq =>
        obtain rfl := Option.some.inj h
        have hpq : p ≠ q := fun heq => hq (heq ▸ hlive)
        exact ⟨Finset.mem_insert_of_mem hlive, (congrFun (Function.update_of_ne hpq _ _) o).trans hx⟩
  | free q =>
      simp only [step] at h
      split at h
      · obtain rfl := Option.some.inj h
        exact ⟨Finset.mem_erase.mpr ⟨Ne.symm hp, hlive⟩, hx⟩
      · cases h
  | map v q => exact Option.some.inj h ▸ ⟨hlive, hx⟩
  | unmap v => exact Option.some.inj h ▸ ⟨hlive, hx⟩
  | store v o' y =>
      obtain ⟨q, hq, rfl⟩ := Option.map_eq_some_iff.mp h
      refine ⟨hlive, Eq.trans ?_ hx⟩
      show Function.update s.page q (Function.update (s.page q) o' y) p o = s.page p o
      by_cases hpq : p = q
      · subst hpq
        rw [Function.update_self, Function.update_of_ne fun ho => hp ⟨hq, ho.symm⟩]
      · rw [Function.update_of_ne hpq]
  | load v o' y =>
      obtain ⟨q, -, hq⟩ := Option.bind_eq_some_iff.mp h
      split at hq
      · exact Option.some.inj hq ▸ ⟨hlive, hx⟩
      · cases hq

/-- **A word stays** until it is stored to or its page is taken back. -/
theorem keeps_run {es : List (Event V P O W)} (hs : Keeps p o x s)
    (hes : Along step (fun s e => ¬ Spoils p o s e) s es) (h : run step s es = some s') :
    Keeps p o x s' :=
  run_invariant (fun _ _ _ ht hp hstep => keeps_step ht hp hstep) hs hes h

theorem keeps_store (h : step s (.store v o x) = some s') (hv : s.target v = some p) :
    Keeps p o x s' := by
  obtain ⟨q, hq, rfl⟩ := Option.map_eq_some_iff.mp h
  obtain rfl := Option.some.inj (hv.symm.trans hq)
  refine ⟨(target_eq_some.mp hv).2, ?_⟩
  show Function.update s.page p (Function.update (s.page p) o x) p o = x
  rw [Function.update_self, Function.update_self]

/-- **What is loaded** is what the page keeps, through whichever virtual page. -/
theorem keeps_load (hs : Keeps p o x s) (hw : s.target w = some p)
    (h : step s (.load w o y) = some s') : y = x := by
  obtain ⟨q, hq, heq⟩ := Option.bind_eq_some_iff.mp h
  obtain rfl := Option.some.inj (hw.symm.trans hq)
  split at heq
  next hy => exact hy.symm.trans hs.2
  · cases heq

/-- **The last store is what is loaded**, through whichever virtual page. -/
theorem run_load_store {es : List (Event V P O W)} (hstore : step s (.store v o x) = some t)
    (hv : s.target v = some p) (hes : Along step (fun s e => ¬ Spoils p o s e) t es)
    (hrun : run step t es = some s') (hw : s'.target w = some p) {u : State V P O W}
    (hload : step s' (.load w o y) = some u) : y = x :=
  keeps_load (keeps_run (keeps_store hstore hv) hes hrun) hw hload

end Laws

end SharedPages
