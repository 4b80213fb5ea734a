/-
# `RedOS.Lib.Runs` — finite runs of a partial step function

A step `σ → α → Option σ` is refused (`none`) where its caller breaks the
contract of the action.  A run takes a list of actions; `Along P` says that each
of them met `P` in the state it was taken in.

    run_append      a run after a run
    run_invariant   an invariant kept by every step that meets `P`
    run_rel         two step functions related step by step
-/
import Mathlib.Logic.Basic

namespace Runs

variable {σ α : Type}

/-- The state after the actions, if none of them was refused. -/
def run (step : σ → α → Option σ) : σ → List α → Option σ
  | s, [] => some s
  | s, a :: as => (step s a).bind fun s' => run step s' as

/-- Every action meets `P` in the state it is taken in. -/
def Along (step : σ → α → Option σ) (P : σ → α → Prop) : σ → List α → Prop
  | _, [] => True
  | s, a :: as => P s a ∧ ∀ s', step s a = some s' → Along step P s' as

variable {step : σ → α → Option σ} {P : σ → α → Prop}

@[simp] theorem run_nil (s : σ) : run step s [] = some s := rfl

theorem run_cons (s : σ) (a : α) (as : List α) :
    run step s (a :: as) = (step s a).bind fun s' => run step s' as := rfl

theorem run_cons_some {s s' : σ} {a : α} {as : List α} :
    run step s (a :: as) = some s' ↔ ∃ t, step s a = some t ∧ run step t as = some s' := by
  rw [run_cons, Option.bind_eq_some_iff]

theorem run_append (s : σ) : ∀ as bs : List α,
    run step s (as ++ bs) = (run step s as).bind fun s' => run step s' bs
  | [], _ => rfl
  | a :: as, bs => by
      rw [List.cons_append, run_cons, run_cons]
      cases step s a with
      | none => rfl
      | some t => exact run_append t as bs

/-- One more action at the end of a run. -/
theorem along_snoc : ∀ {as : List α} {a : α} {s s' : σ}, Along step P s as →
    run step s as = some s' → P s' a → Along step P s (as ++ [a])
  | [], _, _, _, _, hrun, hp => ⟨Option.some.inj hrun ▸ hp, fun _ _ => trivial⟩
  | _ :: _, _, _, _, hprev, hrun, hp => by
      obtain ⟨t, ht, hrest⟩ := run_cons_some.mp hrun
      refine ⟨hprev.1, ?_⟩
      intro t' ht'
      obtain rfl := Option.some.inj (ht.symm.trans ht')
      exact along_snoc (hprev.2 t ht) hrest hp

/-- A condition on the actions alone. -/
theorem along_of_mem {Q : α → Prop} : ∀ (s : σ) {as : List α}, (∀ a ∈ as, Q a) →
    Along step (fun _ => Q) s as
  | _, [], _ => trivial
  | _, a :: _, h =>
      ⟨h a List.mem_cons_self, fun s' _ => along_of_mem s' fun b hb => h b (List.mem_cons_of_mem a hb)⟩

/-- **Invariants.**  What every step that meets `P` keeps, every run of such
steps keeps. -/
theorem run_invariant {I : σ → Prop} (hstep : ∀ s a s', I s → P s a → step s a = some s' → I s') :
    ∀ {as : List α} {s s' : σ}, I s → Along step P s as → run step s as = some s' → I s'
  | [], _, _, hs, _, hrun => Option.some.inj hrun ▸ hs
  | a :: _, s, _, hs, hp, hrun => by
      obtain ⟨t, ht, hrest⟩ := run_cons_some.mp hrun
      exact run_invariant hstep (hstep s a t hs hp.1 ht) (hp.2 t ht) hrest

/-- An invariant that every step keeps. -/
theorem run_keeps {I : σ → Prop} (hstep : ∀ s a s', I s → step s a = some s' → I s') {as : List α}
    {s s' : σ} (hs : I s) (hrun : run step s as = some s') : I s' :=
  run_invariant (P := fun _ _ => True) (fun s a s' hs _ h => hstep s a s' hs h) hs
    (along_of_mem (Q := fun _ => True) s fun _ _ => trivial) hrun

/-- **Simulation.**  Two step functions that refuse the same actions in related
states, and keep the relation when they do not. -/
theorem run_rel {τ : Type} {step' : τ → α → Option τ} {R : σ → τ → Prop}
    (hstep : ∀ s t a, R s t → Option.Rel R (step s a) (step' t a)) :
    ∀ (as : List α) {s : σ} {t : τ}, R s t → Option.Rel R (run step s as) (run step' t as)
  | [], _, _, h => .some h
  | a :: as, s, t, h => by
      have hfirst := hstep s t a h
      rw [run_cons, run_cons]
      cases hs : step s a with
      | none =>
          rw [hs] at hfirst
          cases ht : step' t a with
          | none => exact .none
          | some t' =>
              rw [ht] at hfirst
              nomatch hfirst
      | some s' =>
          rw [hs] at hfirst
          cases ht : step' t a with
          | none =>
              rw [ht] at hfirst
              nomatch hfirst
          | some t' =>
              rw [ht] at hfirst
              cases hfirst with
              | some h' => exact run_rel hstep as h'

end Runs
