/-
# `RedOS.Lib.Commands` — programs of commands, and the state monads that run them

A `Prog` is a program seen from outside: it issues commands, gets a reply to
each, and may go on as it likes in between.  A handler for the commands in some
monad runs it (`interp`).  Two handlers run the same program with more or less
of the machine in view, and `interp_onState` says that they then do the same.

The handlers here live in `EStateM`.  Four kinds of fact about a computation
are carried over sequencing:

    Keeps R x       from any state to the one `x` leaves, fault or not, `R` holds
    Returns P x Q   from a state with `P`, `x` returns with `Q`
    Ensures x Q     if `x` returns, it is with `Q`
    Issues Q p      every command of `p` satisfies `Q`, and what commands like
                    that preserve, `p` preserves (`interp_invariant`)
-/
import Mathlib.Logic.Basic

namespace Commands

variable {ε σ τ α β : Type}

/-! ## Computations -/

/-- The state a computation leaves, whether it returned or stopped. -/
def stateOf : EStateM.Result ε σ α → σ
  | .ok _ s => s
  | .error _ s => s

theorem bind_of_ok {x : EStateM ε σ α} {f : α → EStateM ε σ β} {s s' : σ} {a : α}
    (h : x s = .ok a s') : (x >>= f) s = f a s' := by
  show EStateM.bind x f s = _
  rw [EStateM.bind, h]

theorem bind_of_error {x : EStateM ε σ α} {f : α → EStateM ε σ β} {s s' : σ} {e : ε}
    (h : x s = .error e s') : (x >>= f) s = .error e s' := by
  show EStateM.bind x f s = _
  rw [EStateM.bind, h]

/-- From any state, `R` leads to the one `x` leaves. -/
def Keeps (R : σ → σ → Prop) (x : EStateM ε σ α) : Prop := ∀ s, R s (stateOf (x s))

section Keeps

variable {R : σ → σ → Prop}

theorem Keeps.pure (hrefl : ∀ s, R s s) (a : α) : Keeps R (pure a : EStateM ε σ α) :=
  fun s => hrefl s

theorem Keeps.get (hrefl : ∀ s, R s s) : Keeps R (get : EStateM ε σ σ) := fun s => hrefl s

theorem Keeps.bind (htrans : ∀ s t u, R s t → R t u → R s u) {x : EStateM ε σ α}
    {f : α → EStateM ε σ β} (hx : Keeps R x) (hf : ∀ a, Keeps R (f a)) : Keeps R (x >>= f) := by
  intro s
  have h := hx s
  cases hres : x s with
  | ok a s' =>
      rw [hres] at h
      rw [bind_of_ok hres]
      exact htrans s s' _ h (hf a s')
  | error e s' =>
      rw [hres] at h
      rw [bind_of_error hres]
      exact h

theorem Keeps.ite {c : Prop} [Decidable c] {x y : EStateM ε σ α} (hx : Keeps R x)
    (hy : Keeps R y) : Keeps R (if c then x else y) := by
  split
  · exact hx
  · exact hy

end Keeps

/-- From a state with `P`, `x` returns, with `Q` of the result and the state. -/
def Returns (P : σ → Prop) (x : EStateM ε σ α) (Q : α → σ → Prop) : Prop :=
  ∀ s, P s → ∃ a s', x s = .ok a s' ∧ Q a s'

section Returns

variable {P : σ → Prop} {Q : α → σ → Prop}

theorem Returns.pure {a : α} (h : ∀ s, P s → Q a s) : Returns P (pure a : EStateM ε σ α) Q :=
  fun s hs => ⟨a, s, rfl, h s hs⟩

theorem Returns.bind {x : EStateM ε σ α} {f : α → EStateM ε σ β} {Q' : β → σ → Prop}
    (hx : Returns P x Q) (hf : ∀ a, Returns (Q a) (f a) Q') : Returns P (x >>= f) Q' := by
  intro s hs
  obtain ⟨a, t, ht, hq⟩ := hx s hs
  obtain ⟨b, u, hu, hq'⟩ := hf a t hq
  exact ⟨b, u, (bind_of_ok ht).trans hu, hq'⟩

theorem Returns.mono {x : EStateM ε σ α} {Q' : α → σ → Prop} (hx : Returns P x Q)
    (h : ∀ a s, Q a s → Q' a s) : Returns P x Q' := by
  intro s hs
  obtain ⟨a, t, ht, hq⟩ := hx s hs
  exact ⟨a, t, ht, h a t hq⟩

/-- Where the result is known it can be put in place. -/
theorem Returns.bind_eq {x : EStateM ε σ α} {f : α → EStateM ε σ β} {Q' : β → σ → Prop}
    {P' : σ → Prop} {a : α} (hx : Returns P x fun r s => r = a ∧ P' s)
    (hf : Returns P' (f a) Q') : Returns P (x >>= f) Q' := by
  refine hx.bind ?_
  intro r s hs
  obtain ⟨rfl, hs⟩ := hs
  exact hf s hs

end Returns

/-- If `x` returns, it is with `Q` of the result and the state. -/
def Ensures (x : EStateM ε σ α) (Q : α → σ → Prop) : Prop := ∀ s a s', x s = .ok a s' → Q a s'

/-- The last computation of a sequence decides. -/
theorem Ensures.bind {x : EStateM ε σ α} {f : α → EStateM ε σ β} {Q : β → σ → Prop}
    (hf : ∀ a, Ensures (f a) Q) : Ensures (x >>= f) Q := by
  intro s b s' h
  cases hres : x s with
  | ok a t =>
      rw [bind_of_ok hres] at h
      exact hf a t b s' h
  | error e t =>
      rw [bind_of_error hres] at h
      cases h

/-! ## Programs -/

inductive Prog (C R α : Type) where
  | ret (a : α)
  | act (c : C) (k : R → Prog C R α)

namespace Prog

variable {C R : Type}

def bind : Prog C R α → (α → Prog C R β) → Prog C R β
  | .ret a, f => f a
  | .act c k, f => .act c fun r => (k r).bind f

instance : Monad (Prog C R) where
  pure := .ret
  bind := bind

/-- The program of one command. -/
def one (c : C) : Prog C R R := .act c .ret

/-- The program run by a handler of its commands. -/
def interp {M : Type → Type} [Monad M] (h : C → M R) : Prog C R α → M α
  | .ret a => pure a
  | .act c k => h c >>= fun r => (k r).interp h

section Interp

variable {M : Type → Type} [Monad M] (h : C → M R)

@[simp] theorem interp_pure (a : α) : (pure a : Prog C R α).interp h = pure a := rfl

@[simp] theorem interp_ite {c : Prop} [Decidable c] (p q : Prog C R α) :
    (if c then p else q).interp h = if c then p.interp h else q.interp h := by
  split
  · rfl
  · rfl

variable [LawfulMonad M]

@[simp] theorem interp_one (c : C) : (one c).interp h = h c := bind_pure (h c)

@[simp] theorem interp_bind (p : Prog C R α) (f : α → Prog C R β) :
    (p >>= f).interp h = p.interp h >>= fun a => (f a).interp h := by
  show (p.bind f).interp h = _
  induction p with
  | ret a => exact (pure_bind a fun a => (f a).interp h).symm
  | act c k ih =>
      show (h c >>= fun r => ((k r).bind f).interp h) = (h c >>= fun r => (k r).interp h) >>= _
      rw [bind_assoc]
      exact congrArg (h c >>= ·) (funext ih)

end Interp

/-! ## Two handlers -/

/-- The outcome with only part of the state in view. -/
def onState (π : τ → σ) : EStateM.Result ε τ α → EStateM.Result ε σ α
  | .ok a t => .ok a (π t)
  | .error e t => .error e (π t)

/-- **Simulation.**  Handlers that do the same, as far as `π` shows, run every
program the same. -/
theorem interp_onState {π : τ → σ} {h : C → EStateM ε τ R} {h' : C → EStateM ε σ R}
    (hcmd : ∀ c t, onState π (h c t) = h' c (π t)) (p : Prog C R α) :
    ∀ t, onState π (p.interp h t) = p.interp h' (π t) := by
  induction p with
  | ret a => exact fun t => rfl
  | act c k ih =>
      intro t
      have hc := hcmd c t
      cases hres : h c t with
      | ok r t' =>
          rw [hres] at hc
          show onState π ((h c >>= fun r => (k r).interp h) t) = (h' c >>= _) (π t)
          rw [bind_of_ok hres, bind_of_ok hc.symm]
          exact ih r t'
      | error e t' =>
          rw [hres] at hc
          show onState π ((h c >>= fun r => (k r).interp h) t) = (h' c >>= _) (π t)
          rw [bind_of_error hres, bind_of_error hc.symm]
          rfl

/-! ## The commands a program may issue -/

def Issues (Q : C → Prop) : Prog C R α → Prop
  | .ret _ => True
  | .act c k => Q c ∧ ∀ r, (k r).Issues Q

section Issues

variable {Q : C → Prop}

theorem issues_pure (a : α) : (pure a : Prog C R α).Issues Q := trivial

theorem issues_one {c : C} (h : Q c) : (one c : Prog C R R).Issues Q := ⟨h, fun _ => trivial⟩

theorem Issues.bind {p : Prog C R α} {f : α → Prog C R β} (hp : p.Issues Q)
    (hf : ∀ a, (f a).Issues Q) : (p >>= f).Issues Q := by
  show (p.bind f).Issues Q
  induction p with
  | ret a => exact hf a
  | act c k ih => exact ⟨hp.1, fun r => ih r (hp.2 r)⟩

theorem Issues.ite {c : Prop} [Decidable c] {p q : Prog C R α} (hp : p.Issues Q)
    (hq : q.Issues Q) : (if c then p else q).Issues Q := by
  split
  · exact hp
  · exact hq

/-- What every such command preserves, the program preserves. -/
theorem interp_invariant {h : C → EStateM ε σ R} {I : σ → Prop}
    (hcmd : ∀ c s, Q c → I s → I (stateOf (h c s))) {p : Prog C R α} (hp : p.Issues Q) :
    ∀ s, I s → I (stateOf (p.interp h s)) := by
  induction p with
  | ret a => exact fun s hs => hs
  | act c k ih =>
      intro s hs
      have hc := hcmd c s hp.1 hs
      cases hres : h c s with
      | ok r s' =>
          rw [hres] at hc
          show I (stateOf ((h c >>= fun r => (k r).interp h) s))
          rw [bind_of_ok hres]
          exact ih r (hp.2 r) s' hc
      | error e s' =>
          rw [hres] at hc
          show I (stateOf ((h c >>= fun r => (k r).interp h) s))
          rw [bind_of_error hres]
          exact hc

end Issues

end Prog

end Commands
