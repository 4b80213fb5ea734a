/-
# `RedOS.Boot.DirectMap` — the first 4 MB at the kernel's base

`setup_page_tables` hangs the identity table into slot 768, so the addresses
from `KERNEL_VIRTUAL_BASE` on are the first 4 MB of memory.  `DirectMap` is that
fact about a memory; it is what the boot code relies on from the moment paging
is on, and what the paging code relies on whenever it uses `P2V`.  It survives
every store outside the two boot tables (`DirectMap.of_agree`).
-/
import RedOS.Boot.Setup

namespace RedOS

open ByteMemory X86Paging

/-- The lowest three bits: present and writable, not for user mode. -/
theorem bootEntry_flags (f : Nat) : bootEntry f &&& 7#32 = 3#32 := by
  apply BitVec.eq_of_toNat_eq
  rw [BitVec.toNat_and, show (7#32).toNat = 2 ^ 3 - 1 from rfl, Nat.and_two_pow_sub_one_eq_mod,
    bootEntry, BitVec.toNat_ofNat]
  show _ = 3
  omega

theorem bootEntry_and (f : Nat) {flag : BitVec 32} (hflag : 7#32 &&& flag = flag) :
    bootEntry f &&& flag = 3#32 &&& flag := by
  conv_lhs => rw [← hflag, ← BitVec.and_assoc, bootEntry_flags]

theorem present_bootEntry (f : Nat) : Present (bootEntry f) := by
  rw [Present, bootEntry_and f (by decide)]
  decide

theorem frameOf_bootEntry {f : Nat} (hf : f < 2 ^ 20) : frameOf (bootEntry f) = f := by
  unfold frameOf bootEntry
  rw [BitVec.toNat_ofNat, Nat.mod_eq_of_lt (by omega)]
  omega

theorem directoryFrame_lt (L : Layout) : L.directoryFrame < 2 ^ 20 := (tables_bounds L).1

theorem tableFrame_lt (L : Layout) : L.tableFrame < 2 ^ 20 := (tables_bounds L).2.1

theorem tableFrame_ne_directoryFrame (L : Layout) : L.tableFrame ≠ L.directoryFrame :=
  (tables_bounds L).2.2

/-! ## The window -/

/-- Slot 768 holds the boot table, and the boot table is the identity. -/
structure DirectMap (L : Layout) (m : Mem) : Prop where
  slot768 : entry m L.directoryFrame 768 = bootEntry L.tableFrame
  identity : ∀ j, j < 1024 → entry m L.tableFrame j = identityEntry j

section DirectMap

variable {L : Layout} {m : Mem}

theorem identityEntry_eq (j : Nat) : identityEntry j = bootEntry j := rfl

theorem DirectMap.lookup (h : DirectMap L m) {a : Addr} (ha : slot a = 768) :
    lookup m L.directoryFrame a = some (index a) := by
  have hdir : entry m L.directoryFrame (slot a) = bootEntry L.tableFrame := by rw [ha, h.slot768]
  have htab : tableOf m L.directoryFrame a = L.tableFrame := by
    rw [tableOf, hdir, frameOf_bootEntry (tableFrame_lt L)]
  have hidx := index_lt a
  rw [X86Paging.lookup, htab, hdir, h.identity _ hidx, identityEntry_eq,
    if_pos ⟨present_bootEntry _, present_bootEntry _⟩, frameOf_bootEntry (by omega)]

/-- The window `[0xC0000000, 0xC0400000)` is the first 4 MB of memory. -/
theorem DirectMap.walk (h : DirectMap L m) {a : Addr} (hlo : 0xC0000000 ≤ a.toNat)
    (hhi : a.toNat < 0xC0400000) :
    walk m (frameAddr L.directoryFrame) a = some (a - 0xC0000000#32) := by
  have hslot : slot a = 768 := by
    unfold slot
    omega
  rw [walk_lookup, frameOf_frameAddr (directoryFrame_lt L), h.lookup hslot, Option.map_some,
    Option.some.injEq]
  have hidx : index a < 2 ^ 20 := by
    have := index_lt a
    omega
  have hfa := frameAddr_toNat hidx
  have hoff := and_offsetMask_toNat a
  have hval : index a = a.toNat / 4096 % 1024 := rfl
  bv_omega

theorem BootTables.directMap (h : BootTables L m) : DirectMap L m where
  slot768 := by rw [h.directory 768 (by decide), if_pos (Or.inr rfl)]
  identity := h.table

/-- The bytes of the two tables decide it. -/
theorem DirectMap.of_agree (h : DirectMap L m) {m' : Mem}
    (hagree : ∀ q, frameOf q = L.directoryFrame ∨ frameOf q = L.tableFrame → m' q = m q) :
    DirectMap L m' where
  slot768 := by
    rw [entry_congr (fun q hq => hagree q (Or.inl hq)) (directoryFrame_lt L) (by decide), h.slot768]
  identity j hj := by
    rw [entry_congr (fun q hq => hagree q (Or.inr hq)) (tableFrame_lt L) hj, h.identity j hj]

theorem DirectMap.zeroFrame (h : DirectMap L m) {k : Nat} (hk : k < 2 ^ 20)
    (hkd : k ≠ L.directoryFrame) (hkb : k ≠ L.tableFrame) : DirectMap L (zeroFrame m k) where
  slot768 := by
    rw [entry_zeroFrame m hk (directoryFrame_lt L) (by decide), if_neg (Ne.symm hkd), h.slot768]
  identity j hj := by
    rw [entry_zeroFrame m hk (tableFrame_lt L) hj, if_neg (Ne.symm hkb), h.identity j hj]

/-- A store that spares slot 768 and the boot table. -/
theorem DirectMap.setEntry (h : DirectMap L m) {t j : Nat} (x : BitVec 32) (ht : t < 2 ^ 20)
    (hj : j < 1024) (htb : t ≠ L.tableFrame) (hslot : t = L.directoryFrame → j ≠ 768) :
    DirectMap L (setEntry m t j x) where
  slot768 := by
    rw [entry_setEntry m x ht hj (directoryFrame_lt L) (by decide), if_neg, h.slot768]
    exact fun heq => hslot heq.1.symm heq.2.symm
  identity i hi := by
    rw [entry_setEntry m x ht hj (tableFrame_lt L) hi, if_neg, h.identity i hi]
    exact fun heq => htb heq.1.symm

end DirectMap

end RedOS
