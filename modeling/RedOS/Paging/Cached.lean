/-
# `RedOS.Paging.Cached` — the paging code on a processor with a TLB

A TLB between the programs of `Accesses` and the memory.  The schedule says
which pages it caches just before each access, so every schedule is one
interleaving of fills with the calls; `invlpg` drops its page and a load of CR3
all of them.  The TLB is only watched here, it changes nothing about what the
calls do (`execCached_sys`).

`Agrees s e` describes the moment between two accesses: the machine is `s`, and
no cached page but `e` is wrong.  Each access has one rule about it, and each
branch of a function one lemma made of those rules, with the same hypotheses as
its equation in `Tables` and what it needs about the walks.
-/
import RedOS.Paging.Accesses
import RedOS.Lib.X86Tlb

namespace RedOS

open ByteMemory X86Paging Runs Commands Prog

/-! ## The machine with a TLB -/

/-- The pages cached just before the access with this number. -/
abbrev Schedule := Nat → List Addr

structure Cached where
  machine : Machine
  tlb : Tlb
  /-- Accesses so far, the end of a call counted as one. -/
  time : Nat

/-- The TLB caches what the schedule has now. -/
def Cached.fill (S : Schedule) (c : Cached) : Cached :=
  { c with
    tlb := c.tlb.fillAll c.machine.mem (frameOf c.machine.cr3) (S c.time)
    time := c.time + 1 }

/-- What the access does to the TLB. -/
def Command.tlbAfter : Command → Tlb → Tlb
  | .invlpg a, t => t.invlpg a
  | .loadCr3 _, _ => Tlb.empty
  | _, t => t

section Run

variable (tr : Translation) (S : Schedule)

/-- One access, the fills before it included. -/
def Command.performCached (c : Command) : EStateM PageFault Cached (BitVec 32) := fun s =>
  match c.perform tr (s.fill S).machine with
  | .ok r m => .ok r { s.fill S with machine := m, tlb := c.tlbAfter (s.fill S).tlb }
  | .error e m => .error e { s.fill S with machine := m }

/-- A call, and the fills before the next one. -/
def callCached {α : Type} (p : Code α) : EStateM PageFault Cached α := do
  let a ← p.interp (Command.performCached tr S)
  modify (Cached.fill S)
  pure a

structure CachedSys where
  sys : Sys
  tlb : Tlb
  time : Nat

/-- One call, as `exec`. -/
def execCached (s : CachedSys) (op : Op) : Option CachedSys :=
  match s.sys.fault with
  | some _ => some s
  | none =>
      if s.sys.Allows op then
        match callCached tr S op.code ⟨s.sys.machine, s.tlb, s.time⟩ with
        | .ok r c => some ⟨s.sys.record tr r c.machine op, c.tlb, c.time⟩
        | .error e c => some ⟨{ s.sys with machine := c.machine, fault := some e.addr }, c.tlb, c.time⟩
      else none

/-- `init_paging`, as `start`, with whatever the boot code left in the TLB. -/
def startCached (t : Tlb) (L : Layout) (m : Mem) : CachedSys :=
  match callCached tr S (initPagingCode L) ⟨bootMachine L m, t, 0⟩ with
  | .ok _ c => {
      sys := { machine := c.machine, live := ∅, tables := ∅, mapping := fun _ => none, fault := none }
      tlb := c.tlb
      time := c.time }
  | .error e c => {
      sys := { machine := c.machine, live := ∅, tables := ∅, mapping := fun _ => none,
               fault := some e.addr }
      tlb := c.tlb
      time := c.time }

end Run

/-! ## The TLB changes nothing -/

section Erasure

theorem performCached_machine (tr : Translation) (S : Schedule) (c : Command) (s : Cached) :
    onState Cached.machine (c.performCached tr S s) = c.perform tr s.machine := by
  show onState Cached.machine (match c.perform tr s.machine with
    | .ok r m => .ok r _
    | .error e m => .error e _) = _
  cases c.perform tr s.machine with
  | ok r m => rfl
  | error e m => rfl

theorem callCached_machine (tr : Translation) (S : Schedule) {α : Type} (p : Code α) (s : Cached) :
    onState Cached.machine (callCached tr S p s) = p.interp (Command.perform tr) s.machine := by
  rw [← interp_onState (performCached_machine tr S) p s]
  unfold callCached
  cases hres : p.interp (Command.performCached tr S) s with
  | ok a t =>
      rw [bind_of_ok hres]
      rfl
  | error e t => rw [bind_of_error hres]

theorem execCached_sys (tr : Translation) (S : Schedule) (s : CachedSys) (op : Op) :
    (execCached tr S s op).map CachedSys.sys = exec tr s.sys op := by
  have hmachine := callCached_machine tr S op.code ⟨s.sys.machine, s.tlb, s.time⟩
  rw [Op.interp_code] at hmachine
  unfold execCached exec
  cases s.sys.fault with
  | some a => rfl
  | none =>
      by_cases hallow : s.sys.Allows op
      · simp only [if_pos hallow]
        rw [← hmachine]
        cases callCached tr S op.code ⟨s.sys.machine, s.tlb, s.time⟩ with
        | ok r c => rfl
        | error e c => rfl
      · simp only [if_neg hallow, Option.map_none]

theorem startCached_sys (tr : Translation) (S : Schedule) (t : Tlb) (L : Layout) (m : Mem) :
    (startCached tr S t L m).sys = start tr L m := by
  have hmachine := callCached_machine tr S (initPagingCode L)
    ⟨bootMachine L m, t, 0⟩
  rw [interp_initPagingCode] at hmachine
  unfold startCached start
  rw [← hmachine]
  cases callCached tr S (initPagingCode L) ⟨bootMachine L m, t, 0⟩ with
  | ok r c => rfl
  | error e c => rfl

/-- Whatever the machine alone does, the machine with a TLB does. -/
theorem execCached_of_exec {tr : Translation} {s : CachedSys} {op : Op} {u : Sys} (S : Schedule)
    (h : exec tr s.sys op = some u) : ∃ s', execCached tr S s op = some s' ∧ s'.sys = u := by
  rw [← execCached_sys tr S] at h
  exact Option.map_eq_some_iff.mp h

theorem runCached_of_run {tr : Translation} (S : Schedule) : ∀ {ops : List Op} {s : CachedSys} {u : Sys},
    run (exec tr) s.sys ops = some u → ∃ s', run (execCached tr S) s ops = some s' ∧ s'.sys = u
  | [], s, u, h => ⟨s, rfl, Option.some.inj h⟩
  | op :: ops, s, u, h => by
      obtain ⟨v, hv, hu⟩ := run_cons_some.mp h
      obtain ⟨t, ht, rfl⟩ := execCached_of_exec S hv
      obtain ⟨s', hs', heq⟩ := runCached_of_run S hu
      exact ⟨s', run_cons_some.mpr ⟨t, ht, hs'⟩, heq⟩

end Erasure

/-! ## What stays cached -/

section Kept

variable {tr : Translation} {S : Schedule} {n : Nat} {s s' : CachedSys}

/-- The access does not drop page `n`. -/
def Command.Spares (n : Nat) (c : Command) : Prop := ∀ t : Tlb, c.tlbAfter t n = t n

theorem spares_invlpg {v : Addr} (h : frameOf v ≠ n) : (Command.invlpg v).Spares n :=
  fun _ => Function.update_of_ne (Ne.symm h) _ _

theorem issues_memsetCode (p : Addr) (b : BitVec 8) : ∀ k,
    (memsetCode p b k).Issues (Command.Spares n)
  | 0 => issues_pure ()
  | k + 1 => (issues_memsetCode p b k).bind fun _ =>
      (issues_one fun _ => rfl).bind fun _ => issues_pure ()

theorem issues_getPageTableCode (v : Addr) (create : Bool) :
    (getPageTableCode v create).Issues (Command.Spares n) := by
  unfold getPageTableCode
  refine (issues_one fun _ => rfl).bind fun dir => (issues_one fun _ => rfl).bind ?_
  intro pde
  refine (issues_pure _).ite (Issues.ite ?_ (issues_pure _))
  refine (issues_one fun _ => rfl).bind fun a => (issues_pure _).ite ?_
  generalize pageSize = k
  exact (issues_memsetCode _ _ k).bind fun _ => (issues_one fun _ => rfl).bind fun _ => issues_pure _

theorem issues_kmallocPhysicalPageCode : kmallocPhysicalPageCode.Issues (Command.Spares n) := by
  unfold kmallocPhysicalPageCode
  refine (issues_one fun _ => rfl).bind fun a => (issues_pure _).ite ?_
  generalize pageSize = k
  exact (issues_memsetCode _ _ k).bind fun _ => issues_pure _

theorem issues_kfreePhysicalPageCode (a : Addr) :
    (kfreePhysicalPageCode a).Issues (Command.Spares n) := by
  unfold kfreePhysicalPageCode
  exact (issues_pure _).ite ((issues_one fun _ => rfl).bind fun _ => issues_pure _)

/-- A call drops no page but its own. -/
theorem Op.issues_code {op : Op} (h : op.At fun v => frameOf v ≠ n) :
    op.code.Issues (Command.Spares n) := by
  cases op with
  | kmalloc => exact issues_kmallocPhysicalPageCode
  | kfree a => exact (issues_kfreePhysicalPageCode a).bind fun _ => issues_pure _
  | map v p fl =>
      refine Issues.bind ((issues_getPageTableCode v true).bind ?_) fun _ => issues_pure _
      intro a
      exact (issues_pure _).ite ((issues_one fun _ => rfl).bind fun _ =>
        (issues_one (spares_invlpg h)).bind fun _ => issues_pure _)
  | unmap v =>
      refine Issues.bind ((issues_getPageTableCode v false).bind ?_) fun _ => issues_pure _
      intro a
      exact (issues_pure _).ite ((issues_one fun _ => rfl).bind fun _ =>
        (issues_one (spares_invlpg h)).bind fun _ => issues_pure _)

theorem callCached_keeps {α : Type} {p : Code α} (hp : p.Issues (Command.Spares n)) (c : Cached)
    (hc : (c.tlb n).isSome) : ((stateOf (callCached tr S p c)).tlb n).isSome := by
  have hfill : ∀ c : Cached, (c.tlb n).isSome → ((c.fill S).tlb n).isSome := fun c hc =>
    Tlb.fillAll_isSome hc _
  have hrun := interp_invariant (h := Command.performCached tr S)
    (I := fun c : Cached => (c.tlb n).isSome) (fun c t hspare ht => ?_) hp c hc
  · unfold callCached
    cases hres : p.interp (Command.performCached tr S) c with
    | ok a t =>
        rw [hres] at hrun
        rw [bind_of_ok hres]
        exact hfill t hrun
    | error e t =>
        rw [hres] at hrun
        rw [bind_of_error hres]
        exact hrun
  · unfold Command.performCached
    cases c.perform tr (t.fill S).machine with
    | ok r m =>
        show ((c.tlbAfter (t.fill S).tlb) n).isSome
        rw [hspare]
        exact hfill t ht
    | error e m => exact hfill t ht

/-- **A cached page stays cached** until a call for it. -/
theorem execCached_keeps {op : Op} (hop : op.At fun v => frameOf v ≠ n)
    (hexec : execCached tr S s op = some s') (hs : (s.tlb n).isSome) : (s'.tlb n).isSome := by
  have hkeep : ((stateOf (callCached tr S op.code ⟨s.sys.machine, s.tlb, s.time⟩)).tlb n).isSome :=
    callCached_keeps (Op.issues_code hop) _ hs
  unfold execCached at hexec
  split at hexec
  · exact Option.some.inj hexec ▸ hs
  · split at hexec
    · split at hexec
      next r c hcall =>
        rw [hcall] at hkeep
        exact Option.some.inj hexec ▸ hkeep
      next e c hcall =>
        rw [hcall] at hkeep
        exact Option.some.inj hexec ▸ hkeep
    · cases hexec

/-- The last accesses to the TLB in a call that returns are the fills before the next. -/
theorem execCached_fills {op : Op} (hfault : s.sys.fault = none)
    (hexec : execCached tr S s op = some s') (hfault' : s'.sys.fault = none) :
    ∃ (t : Tlb) (k : Nat),
      s'.tlb = t.fillAll s'.sys.machine.mem (frameOf s'.sys.machine.cr3) (S k) := by
  have hallow : s.sys.Allows op := by
    have hsys : exec tr s.sys op = some s'.sys := by
      rw [← execCached_sys tr S, hexec]
      rfl
    exact allows_of_exec hfault hsys
  rw [execCached, hfault] at hexec
  simp only [if_pos hallow] at hexec
  unfold callCached at hexec
  cases hres : op.code.interp (Command.performCached tr S) ⟨s.sys.machine, s.tlb, s.time⟩ with
  | ok r c =>
      rw [bind_of_ok hres] at hexec
      obtain rfl := Option.some.inj hexec
      refine ⟨c.tlb, c.time, ?_⟩
      cases op <;> rfl
  | error e c =>
      rw [bind_of_error hres] at hexec
      obtain rfl := Option.some.inj hexec
      cases hfault'

end Kept

/-! ## Between two accesses

`s` is the machine between two accesses, and `e` the page that may be cached
wrongly there. -/

/-- The machine is `s`, and every cached page but `e` is as its tables have it. -/
def Agrees (s : Machine) (e : Option Nat) (c : Cached) : Prop :=
  c.machine = s ∧ c.tlb.AgreesBut e s.mem (frameOf s.cr3)

section Accesses

variable {tr : Translation} {S : Schedule} {s : Machine} {d k : Nat} {v : Addr}

theorem Agrees.fill {e : Option Nat} {c : Cached} (h : Agrees s e c) : Agrees s e (c.fill S) := by
  obtain ⟨rfl, htlb⟩ := h
  exact ⟨rfl, htlb.fillAll _⟩

/-- **One access.**  It may leave `e` wrong, every other present page is walked as before. -/
theorem returns_access {c : Command} {s' : Machine} {r : BitVec 32} (e : Option Nat)
    (hperf : c.perform tr s = .ok r s') (hcr3 : s'.cr3 = s.cr3) (htlb : ∀ t, c.tlbAfter t = t)
    (hwalk : ∀ v p, some (frameOf v) ≠ e → pageWalk s.mem (frameOf s.cr3) v = some p →
      pageWalk s'.mem (frameOf s.cr3) v = some p) :
    Returns (Agrees s none) (c.performCached tr S) fun a t => a = r ∧ Agrees s' e t := by
  intro t ht
  obtain ⟨hmachine, hagree⟩ := ht.fill (S := S)
  refine ⟨r, { t.fill S with machine := s', tlb := c.tlbAfter (t.fill S).tlb }, ?_, rfl,
    rfl, ?_⟩
  · rw [Command.performCached, hmachine, hperf]
  · rw [htlb, hcr3]
    exact hagree.mono hwalk

/-- An access that leaves memory alone. -/
theorem returns_quiet {c : Command} {s' : Machine} {r : BitVec 32}
    (hperf : c.perform tr s = .ok r s') (hcr3 : s'.cr3 = s.cr3) (hmem : s'.mem = s.mem)
    (htlb : ∀ t, c.tlbAfter t = t) :
    Returns (Agrees s none) (c.performCached tr S) fun a t => a = r ∧ Agrees s' none t :=
  returns_access none hperf hcr3 htlb fun _ _ _ hp => hmem ▸ hp

/-- `invlpg` of the page that may be wrong. -/
theorem returns_invlpg (v : Addr) :
    Returns (Agrees s (some (frameOf v))) ((Command.invlpg v).performCached tr S)
      fun a t => a = 0#32 ∧ Agrees s none t := by
  intro t ht
  obtain ⟨hmachine, hagree⟩ := ht.fill (S := S)
  refine ⟨0#32, { t.fill S with machine := s, tlb := (t.fill S).tlb.invlpg v }, ?_, rfl,
    rfl, hagree.invlpg⟩
  rw [Command.performCached, hmachine]
  rfl

/-- Stores into a frame that no walk goes through. -/
def Unwalked (m : Mem) (d k : Nat) : Prop :=
  ∀ m' : Mem, (∀ q, frameOf q ≠ k → m' q = m q) → ∀ v, pageWalk m' d v = pageWalk m d v

theorem returns_memset (hk : k < 2 ^ 20) (b : BitVec 8) (hreach : ReachesStably tr s.mem s.cr3 k)
    (hwalk : Unwalked s.mem (frameOf s.cr3) k) : ∀ n, n ≤ 4096 →
    Returns (Agrees s none) ((memsetCode (p2v (frameAddr k)) b n).interp (Command.performCached tr S))
      fun _ => Agrees { s with mem := fill s.mem (frameAddr k) n b } none
  | 0, _ => by
      rw [fill_zero]
      exact Returns.pure fun t ht => ht
  | n + 1, hn => by
      have hbefore : ∀ q, frameOf q ≠ k → fill s.mem (frameAddr k) n b q = s.mem q :=
        fun q hq => fill_frame_ne s.mem hk (by omega) b hq
      have hafter : ∀ q, frameOf q ≠ k → fill s.mem (frameAddr k) (n + 1) b q = s.mem q :=
        fun q hq => fill_frame_ne s.mem hk hn b hq
      have hperf : (Command.writeByte (p2v (frameAddr k) + BitVec.ofNat 32 n) b).perform tr
          { s with mem := fill s.mem (frameAddr k) n b }
          = .ok 0#32 { s with mem := fill s.mem (frameAddr k) (n + 1) b } := by
        have hw : writeByte tr (p2v (frameAddr k) + BitVec.ofNat 32 n) b
            { s with mem := fill s.mem (frameAddr k) n b }
            = .ok () { s with mem := fill s.mem (frameAddr k) (n + 1) b } := by
          rw [fill_succ s.mem (frameAddr k) (by omega) b]
          simp only [writeByte, hreach _ hbefore n (by omega)]
        exact bind_ok hw
      rw [memsetCode, interp_bind]
      refine (returns_memset hk b hreach hwalk n (by omega)).bind fun _ => ?_
      rw [interp_bind, interp_one]
      refine (returns_access none hperf rfl (fun _ => rfl) ?_).bind ?_
      · intro w p _ hp
        rw [hwalk _ hbefore w] at hp
        rw [hwalk _ hafter w]
        exact hp
      · intro _
        exact Returns.pure fun t ht => ht.2

theorem returns_memset_frame (hk : k < 2 ^ 20) (hreach : ReachesStably tr s.mem s.cr3 k)
    (hwalk : Unwalked s.mem (frameOf s.cr3) k) :
    Returns (Agrees s none)
      ((memsetCode (p2v (frameAddr k)) 0#8 pageSize).interp (Command.performCached tr S))
      fun _ => Agrees { s with mem := zeroFrame s.mem k } none :=
  returns_memset hk 0#8 hreach hwalk 4096 (Nat.le_refl _)

/-! ### The functions, branch by branch

`d` is the frame of the current page directory. -/

theorem returns_currentDirectory :
    Returns (Agrees s none) (Command.currentPageDirectory.performCached tr S)
      fun a t => a = s.currentPageDirectory ∧ Agrees s none t :=
  returns_quiet rfl rfl rfl fun _ => rfl

theorem returns_readEntry {f j : Nat} (hreach : Reaches tr s.mem s.cr3 f) (hj : j < 1024) :
    Returns (Agrees s none)
      ((Command.readWord (p2v (frameAddr f) + 4#32 * BitVec.ofNat 32 j)).performCached tr S)
      fun a t => a = entry s.mem f j ∧ Agrees s none t :=
  returns_quiet (readWord_entry hreach hj) rfl rfl fun _ => rfl

theorem returns_writeEntry {f j : Nat} (x : BitVec 32) (e : Option Nat)
    (hreach : Reaches tr s.mem s.cr3 f) (hj : j < 1024)
    (hwalk : ∀ v p, some (frameOf v) ≠ e → pageWalk s.mem (frameOf s.cr3) v = some p →
      pageWalk (setEntry s.mem f j x) (frameOf s.cr3) v = some p) :
    Returns (Agrees s none)
      ((Command.writeWord (p2v (frameAddr f) + 4#32 * BitVec.ofNat 32 j) x).performCached tr S)
      fun a t => a = 0#32 ∧ Agrees (s.put f j x) e t :=
  returns_access e (bind_ok (writeWord_entry x hreach hj)) rfl (fun _ => rfl) hwalk

theorem returns_allocFrame {b : Bitmap} {a : Addr}
    (halloc : allocFrameM s = .ok a { s with frameBitmap := b }) :
    Returns (Agrees s none) (Command.allocFrame.performCached tr S)
      fun r t => r = a ∧ Agrees { s with frameBitmap := b } none t :=
  returns_quiet halloc rfl rfl fun _ => rfl

theorem returns_getPageTable_present {create : Bool}
    (hdir : s.currentPageDirectory = p2v (frameAddr d)) (hd : Reaches tr s.mem s.cr3 d)
    (hp : Present (entry s.mem d (slot v))) :
    Returns (Agrees s none) ((getPageTableCode v create).interp (Command.performCached tr S))
      fun a t => a = p2v (frameAddr (tableOf s.mem d v)) ∧ Agrees s none t := by
  have hread := returns_readEntry (S := S) hd (slot_lt v)
  rw [← shift_slot, ← hdir] at hread
  unfold getPageTableCode
  simp only [interp_bind, interp_one, interp_ite, interp_pure]
  refine returns_currentDirectory.bind_eq (hread.bind_eq ?_)
  rw [if_pos hp, and_frameMask_eq]
  exact Returns.pure fun t ht => ⟨rfl, ht⟩

theorem returns_getPageTable_absent (hdir : s.currentPageDirectory = p2v (frameAddr d))
    (hd : Reaches tr s.mem s.cr3 d) (hp : ¬ Present (entry s.mem d (slot v))) :
    Returns (Agrees s none) ((getPageTableCode v false).interp (Command.performCached tr S))
      fun a t => a = 0#32 ∧ Agrees s none t := by
  have hread := returns_readEntry (S := S) hd (slot_lt v)
  rw [← shift_slot, ← hdir] at hread
  unfold getPageTableCode
  simp only [interp_bind, interp_one, interp_ite, interp_pure]
  refine returns_currentDirectory.bind_eq (hread.bind_eq ?_)
  rw [if_neg hp]
  exact Returns.pure fun t ht => ⟨rfl, ht⟩

theorem returns_getPageTable_full (hdir : s.currentPageDirectory = p2v (frameAddr d))
    (hd : Reaches tr s.mem s.cr3 d) (hp : ¬ Present (entry s.mem d (slot v)))
    (hfull : allocFrame s.frameBitmap = (0#32, s.frameBitmap)) :
    Returns (Agrees s none) ((getPageTableCode v true).interp (Command.performCached tr S))
      fun a t => a = 0#32 ∧ Agrees s none t := by
  have hread := returns_readEntry (S := S) hd (slot_lt v)
  rw [← shift_slot, ← hdir] at hread
  have halloc : allocFrameM s = .ok 0#32 { s with frameBitmap := s.frameBitmap } :=
    allocFrameM_full hfull
  unfold getPageTableCode
  simp only [interp_bind, interp_one, interp_ite, interp_pure]
  refine returns_currentDirectory.bind_eq (hread.bind_eq ?_)
  rw [if_neg hp, if_pos trivial]
  refine (returns_allocFrame halloc).bind_eq ?_
  rw [if_pos rfl]
  exact Returns.pure fun t ht => ⟨rfl, ht⟩

/-- `alloc_frame`, and the clearing of the frame where it returned one. -/
theorem returns_take {α : Type} {z : EStateM PageFault Cached α}
    {f : Addr → EStateM PageFault Cached α} {Q : α → Cached → Prop} (hk : k < 2 ^ 20)
    (hk0 : frameAddr k ≠ 0#32) (halloc : (allocFrame s.frameBitmap).1 = frameAddr k)
    (hkr : ReachesStably tr s.mem s.cr3 k) (hwalk : Unwalked s.mem (frameOf s.cr3) k)
    (hrest : Returns (Agrees (s.take k) none) (f (frameAddr k)) Q) :
    Returns (Agrees s none) (Command.allocFrame.performCached tr S >>= fun a =>
      if a = 0#32 then z
      else (memsetCode (p2v a) 0#8 pageSize).interp (Command.performCached tr S) >>= fun _ => f a)
      Q := by
  obtain ⟨b, ha, htake⟩ : ∃ b, allocFrameM s = .ok (frameAddr k) { s with frameBitmap := b } ∧
      s.take k = { s with frameBitmap := b, mem := zeroFrame s.mem k } :=
    ⟨(allocFrame s.frameBitmap).2, by simp only [allocFrameM, halloc], by rw [Machine.take]⟩
  rw [htake] at hrest
  refine (returns_allocFrame ha).bind_eq ?_
  rw [if_neg hk0]
  exact (returns_memset_frame (s := { s with frameBitmap := b }) hk hkr hwalk).bind fun _ => hrest

theorem returns_getPageTable_fresh (hdir : s.currentPageDirectory = p2v (frameAddr d))
    (hd : Reaches tr s.mem s.cr3 d) (hp : ¬ Present (entry s.mem d (slot v)))
    (hk : k < 2 ^ 20) (hk0 : frameAddr k ≠ 0#32) (halloc : (allocFrame s.frameBitmap).1 = frameAddr k)
    (hkr : ReachesStably tr s.mem s.cr3 k) (hd' : Reaches tr (zeroFrame s.mem k) s.cr3 d)
    (hwalk : Unwalked s.mem (frameOf s.cr3) k)
    (hslot : ∀ w p, pageWalk (zeroFrame s.mem k) (frameOf s.cr3) w = some p →
      pageWalk (setEntry (zeroFrame s.mem k) d (slot v) (bootEntry k)) (frameOf s.cr3) w = some p) :
    Returns (Agrees s none) ((getPageTableCode v true).interp (Command.performCached tr S))
      fun a t => a = p2v (frameAddr k) ∧
        Agrees ((s.take k).put d (slot v) (bootEntry k)) none t := by
  have hread := returns_readEntry (S := S) hd (slot_lt v)
  rw [← shift_slot, ← hdir] at hread
  have hwrite := returns_writeEntry (S := S) (s := s.take k) (bootEntry k) none hd' (slot_lt v)
    fun w p _ hp => hslot w p hp
  rw [← shift_slot, ← hdir, ← tableEntry_eq hk] at hwrite
  unfold getPageTableCode
  simp only [interp_bind, interp_one, interp_ite, interp_pure]
  refine returns_currentDirectory.bind_eq (hread.bind_eq ?_)
  rw [if_neg hp, if_pos trivial]
  refine returns_take hk hk0 halloc hkr hwalk (hwrite.bind_eq ?_)
  rw [tableEntry_eq hk]
  exact Returns.pure fun t ht => ⟨rfl, ht⟩

/-- The store of the call's own entry, and `flush_tlb_entry`. -/
theorem returns_store {f : Nat} (x : BitVec 32) (hreach : Reaches tr s.mem s.cr3 f)
    (hwalk : ∀ w p, frameOf w ≠ frameOf v → pageWalk s.mem (frameOf s.cr3) w = some p →
      pageWalk (setEntry s.mem f (index v) x) (frameOf s.cr3) w = some p) :
    Returns (Agrees s none)
      ((Command.writeWord (p2v (frameAddr f) + 4#32 * ((v >>> 12) &&& 0x3FF#32)) x).performCached
          tr S >>= fun _ => (Command.invlpg v).performCached tr S >>= fun _ => pure ())
      fun _ => Agrees (s.put f (index v) x) none := by
  have hwrite := returns_writeEntry (S := S) x (some (frameOf v)) hreach (index_lt v)
    fun w p hw hp => hwalk w p (fun heq => hw (congrArg some heq)) hp
  rw [← shift_index] at hwrite
  exact hwrite.bind_eq ((returns_invlpg v).bind_eq (Returns.pure fun t ht => ht))

theorem returns_mapPageToFrame_present (p fl : BitVec 32)
    (hdir : s.currentPageDirectory = p2v (frameAddr d)) (hd : Reaches tr s.mem s.cr3 d)
    (hp : Present (entry s.mem d (slot v)))
    (ht0 : p2v (frameAddr (tableOf s.mem d v)) ≠ 0#32)
    (ht : Reaches tr s.mem s.cr3 (tableOf s.mem d v))
    (hwalk : ∀ w q, frameOf w ≠ frameOf v → pageWalk s.mem (frameOf s.cr3) w = some q →
      pageWalk (setEntry s.mem (tableOf s.mem d v) (index v) (pageEntry p fl)) (frameOf s.cr3) w
        = some q) :
    Returns (Agrees s none) ((mapPageToFrameCode v p fl).interp (Command.performCached tr S))
      fun _ => Agrees (s.put (tableOf s.mem d v) (index v) (pageEntry p fl)) none := by
  unfold mapPageToFrameCode
  simp only [interp_bind, interp_one, interp_ite, interp_pure]
  refine (returns_getPageTable_present hdir hd hp).bind_eq ?_
  rw [if_neg ht0]
  exact returns_store (pageEntry p fl) ht hwalk

theorem returns_mapPageToFrame_full (p fl : BitVec 32)
    (hdir : s.currentPageDirectory = p2v (frameAddr d)) (hd : Reaches tr s.mem s.cr3 d)
    (hp : ¬ Present (entry s.mem d (slot v)))
    (hfull : allocFrame s.frameBitmap = (0#32, s.frameBitmap)) :
    Returns (Agrees s none) ((mapPageToFrameCode v p fl).interp (Command.performCached tr S))
      fun _ => Agrees s none := by
  unfold mapPageToFrameCode
  simp only [interp_bind, interp_one, interp_ite, interp_pure]
  refine (returns_getPageTable_full hdir hd hp hfull).bind_eq ?_
  rw [if_pos rfl]
  exact Returns.pure fun t ht => ht

theorem returns_mapPageToFrame_fresh (p fl : BitVec 32)
    (hdir : s.currentPageDirectory = p2v (frameAddr d)) (hd : Reaches tr s.mem s.cr3 d)
    (hp : ¬ Present (entry s.mem d (slot v))) (hk : k < 2 ^ 20) (hk0 : frameAddr k ≠ 0#32)
    (hkv : p2v (frameAddr k) ≠ 0#32) (halloc : (allocFrame s.frameBitmap).1 = frameAddr k)
    (hkr : ReachesStably tr s.mem s.cr3 k) (hd' : Reaches tr (zeroFrame s.mem k) s.cr3 d)
    (hk' : Reaches tr (setEntry (zeroFrame s.mem k) d (slot v) (bootEntry k)) s.cr3 k)
    (hwalk : Unwalked s.mem (frameOf s.cr3) k)
    (hslot : ∀ w q, pageWalk (zeroFrame s.mem k) (frameOf s.cr3) w = some q →
      pageWalk (setEntry (zeroFrame s.mem k) d (slot v) (bootEntry k)) (frameOf s.cr3) w = some q)
    (hentry : ∀ w q, frameOf w ≠ frameOf v →
      pageWalk (setEntry (zeroFrame s.mem k) d (slot v) (bootEntry k)) (frameOf s.cr3) w = some q →
      pageWalk (setEntry (setEntry (zeroFrame s.mem k) d (slot v) (bootEntry k)) k (index v)
        (pageEntry p fl)) (frameOf s.cr3) w = some q) :
    Returns (Agrees s none) ((mapPageToFrameCode v p fl).interp (Command.performCached tr S))
      fun _ => Agrees (((s.take k).put d (slot v) (bootEntry k)).put k (index v)
        (pageEntry p fl)) none := by
  unfold mapPageToFrameCode
  simp only [interp_bind, interp_one, interp_ite, interp_pure]
  refine (returns_getPageTable_fresh hdir hd hp hk hk0 halloc hkr hd' hwalk hslot).bind_eq ?_
  rw [if_neg hkv]
  exact returns_store (s := (s.take k).put d (slot v) (bootEntry k)) (pageEntry p fl) hk' hentry

theorem returns_unmapPage_present (hdir : s.currentPageDirectory = p2v (frameAddr d))
    (hd : Reaches tr s.mem s.cr3 d) (hp : Present (entry s.mem d (slot v)))
    (ht0 : p2v (frameAddr (tableOf s.mem d v)) ≠ 0#32)
    (ht : Reaches tr s.mem s.cr3 (tableOf s.mem d v))
    (hwalk : ∀ w q, frameOf w ≠ frameOf v → pageWalk s.mem (frameOf s.cr3) w = some q →
      pageWalk (setEntry s.mem (tableOf s.mem d v) (index v) 0#32) (frameOf s.cr3) w = some q) :
    Returns (Agrees s none) ((unmapPageCode v).interp (Command.performCached tr S))
      fun _ => Agrees (s.put (tableOf s.mem d v) (index v) 0#32) none := by
  unfold unmapPageCode
  simp only [interp_bind, interp_one, interp_ite, interp_pure]
  refine (returns_getPageTable_present hdir hd hp).bind_eq ?_
  rw [if_neg ht0]
  exact returns_store 0#32 ht hwalk

theorem returns_unmapPage_absent (hdir : s.currentPageDirectory = p2v (frameAddr d))
    (hd : Reaches tr s.mem s.cr3 d) (hp : ¬ Present (entry s.mem d (slot v))) :
    Returns (Agrees s none) ((unmapPageCode v).interp (Command.performCached tr S))
      fun _ => Agrees s none := by
  unfold unmapPageCode
  simp only [interp_bind, interp_one, interp_ite, interp_pure]
  refine (returns_getPageTable_absent hdir hd hp).bind_eq ?_
  rw [if_pos rfl]
  exact Returns.pure fun t ht => ht

theorem returns_kmallocPhysicalPage_fresh (hk : k < 2 ^ 20) (hk0 : frameAddr k ≠ 0#32)
    (halloc : (allocFrame s.frameBitmap).1 = frameAddr k) (hkr : ReachesStably tr s.mem s.cr3 k)
    (hwalk : Unwalked s.mem (frameOf s.cr3) k) :
    Returns (Agrees s none) (kmallocPhysicalPageCode.interp (Command.performCached tr S))
      fun _ => Agrees (s.take k) none := by
  unfold kmallocPhysicalPageCode
  simp only [interp_bind, interp_one, interp_ite, interp_pure]
  exact returns_take hk hk0 halloc hkr hwalk (Returns.pure fun t ht => ht)

theorem returns_kmallocPhysicalPage_full
    (hfull : allocFrame s.frameBitmap = (0#32, s.frameBitmap)) :
    Returns (Agrees s none) (kmallocPhysicalPageCode.interp (Command.performCached tr S))
      fun _ => Agrees s none := by
  have halloc : allocFrameM s = .ok 0#32 { s with frameBitmap := s.frameBitmap } :=
    allocFrameM_full hfull
  unfold kmallocPhysicalPageCode
  simp only [interp_bind, interp_one, interp_ite, interp_pure]
  refine (returns_allocFrame halloc).bind_eq ?_
  rw [if_pos rfl]
  exact Returns.pure fun t ht => ht

theorem returns_kfreePhysicalPage (a : Addr) :
    Returns (Agrees s none) ((kfreePhysicalPageCode a).interp (Command.performCached tr S))
      fun _ t => ∃ b, Agrees { s with frameBitmap := b } none t := by
  unfold kfreePhysicalPageCode
  simp only [interp_bind, interp_one, interp_ite, interp_pure]
  split
  · exact Returns.pure fun t ht => ⟨s.frameBitmap, ht⟩
  · have hquiet : Returns (Agrees s none) ((Command.freeFrame a).performCached tr S)
        fun r t => r = 0#32 ∧ Agrees { s with frameBitmap := freeFrame s.frameBitmap a } none t :=
      returns_quiet rfl rfl rfl fun _ => rfl
    exact hquiet.bind_eq (Returns.pure fun t ht => ⟨_, ht⟩)

end Accesses

end RedOS
