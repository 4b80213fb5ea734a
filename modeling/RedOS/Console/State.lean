/-
# `RedOS.Console.State` — the memory and the statics the console code works on

`tty.c`, `putchar.c`, `printf.c` and the string functions they use share one
record: the address space, the statics of the three files and a `trace` of what
the outside could observe, in order.  The trace is not read by any function; it
is there to say where a store went, what reached COM1 and what was read.

    memmove_mem     `memmove` is a block copy, whichever way the ranges overlap
    memset_mem      `memset` fills a block
    Emits           what kinds of event a step adds to the trace
-/
import RedOS.Lib.ByteMemory

namespace RedOS

open ByteMemory

/-- What `va_arg` can find: a 32-bit word (`int`, `unsigned`, a pointer) or a
string, `none` standing for NULL. -/
inductive Arg
  | word (w : BitVec 32)
  | str (s : Option (List (BitVec 8)))
  deriving DecidableEq, Repr

/-- What is read of the multiboot information. -/
inductive Part
  /-- the total size -/
  | total
  /-- `type` or `size` of a tag -/
  | header
  /-- a field of a memory-map entry -/
  | entry
  /-- any other field of a tag -/
  | field
  /-- a string -/
  | string
  deriving DecidableEq, Repr

inductive Event
  /-- `terminal_buffer[index] = entry`, at its address -/
  | cell (p : Addr) (entry : BitVec 16)
  /-- a byte stored by `memmove` or `memset` -/
  | byte (p : Addr)
  /-- `serial_com1_write_byte` -/
  | com1 (b : BitVec 8)
  /-- `n` bytes read from the multiboot information -/
  | load (part : Part) (p : Addr) (n : Nat)
  /-- `printf` called -/
  | printf (format : List (BitVec 8)) (args : List Arg)
  /-- and returned from -/
  | ret
  deriving DecidableEq, Repr

structure Console where
  mem : Mem
  /-- `terminal_row`, `terminal_column` -/
  row : Nat
  column : Nat
  /-- `terminal_color` -/
  color : BitVec 8
  /-- `terminal_buffer` -/
  buffer : Addr
  /-- `terminal_serial_output` -/
  terminalSerial : Bool
  /-- `putchar_serial_output` -/
  putcharSerial : Bool
  /-- `serial_output_enabled` of `printf.c` -/
  printfSerial : Bool
  trace : List Event

namespace Console

/-- The statics as the loader leaves them: every one zero. -/
def boot (m : Mem) : Console where
  mem := m
  row := 0
  column := 0
  color := 0#8
  buffer := 0#32
  terminalSerial := false
  putcharSerial := false
  printfSerial := false
  trace := []

def emit (e : Event) (k : Console) : Console := { k with trace := k.trace ++ [e] }

/-- A byte stored through an `unsigned char *`. -/
def storeByte (p : Addr) (b : BitVec 8) (k : Console) : Console :=
  { k with mem := store8 k.mem p b, trace := k.trace ++ [.byte p] }

/-- `serial_com1_write_byte`, on a UART that gets ready. -/
def serialCom1WriteByte (b : BitVec 8) (k : Console) : Console := k.emit (.com1 b)

/-- `serial_com1_write_string` -/
def serialCom1WriteString (str : List (BitVec 8)) (k : Console) : Console :=
  (str.takeWhile (· ≠ 0#8)).foldl (fun k b => k.serialCom1WriteByte b) k

/-- `memmove` -/
def memmove (dst src : Addr) (size : Nat) (k : Console) : Console :=
  if dst.toNat < src.toNat then
    (List.range size).foldl (fun k i =>
      k.storeByte (dst + BitVec.ofNat 32 i) (k.mem (src + BitVec.ofNat 32 i))) k
  else
    (List.range size).reverse.foldl (fun k i =>
      k.storeByte (dst + BitVec.ofNat 32 i) (k.mem (src + BitVec.ofNat 32 i))) k

/-- `memset` -/
def memset (buf : Addr) (value : BitVec 8) (size : Nat) (k : Console) : Console :=
  (List.range size).foldl (fun k i => k.storeByte (buf + BitVec.ofNat 32 i) value) k

end Console

/-- `strlen` of the string at `p`: it returns exactly when a NUL follows
somewhere in the address space. -/
def strlen (m : Mem) (p : Addr) : Option Nat := go p (2 ^ 32)
where
  go (p : Addr) : Nat → Option Nat
    | 0 => none
    | n + 1 => if m p = 0#8 then some 0 else (go (p + 1) n).map (· + 1)

/-! ## Traces -/

/-- From `k` to `k'` events of the kind `P` are added to the trace. -/
def Emits (P : Event → Prop) (k k' : Console) : Prop :=
  ∃ es, k'.trace = k.trace ++ es ∧ ∀ e ∈ es, P e

namespace Emits

variable {P Q : Event → Prop} {k k' k'' : Console}

theorem of_trace_eq (h : k'.trace = k.trace) : Emits P k k' :=
  ⟨[], by rw [h, List.append_nil], fun _ he => absurd he List.not_mem_nil⟩

theorem refl (k : Console) : Emits P k k := of_trace_eq rfl

theorem of_trace_snoc {e : Event} (h : k'.trace = k.trace ++ [e]) (he : P e) : Emits P k k' :=
  ⟨[e], h, fun _ hm => List.mem_singleton.mp hm ▸ he⟩

theorem trans (h : Emits P k k') (h' : Emits P k' k'') : Emits P k k'' := by
  obtain ⟨es, ht, hp⟩ := h
  obtain ⟨es', ht', hp'⟩ := h'
  refine ⟨es ++ es', by rw [ht', ht, List.append_assoc], fun e he => ?_⟩
  exact (List.mem_append.mp he).elim (hp e) (hp' e)

theorem mono (h : Emits P k k') (hPQ : ∀ e, P e → Q e) : Emits Q k k' := by
  obtain ⟨es, ht, hp⟩ := h
  exact ⟨es, ht, fun e he => hPQ e (hp e he)⟩

/-- A loop whose every pass adds events of one kind. -/
theorem foldl {α : Type} {f : Console → α → Console} :
    ∀ (l : List α) (k : Console), (∀ a ∈ l, ∀ k, Emits P k (f k a)) → Emits P k (l.foldl f k)
  | [], k, _ => refl k
  | a :: l, k, h =>
      (h a List.mem_cons_self k).trans
        (foldl l (f k a) fun b hb => h b (List.mem_cons_of_mem a hb))

end Emits

/-! ## The block operations -/

namespace Console

/-- The stores are those of the bytes `[p, p + n)`. -/
def StoresIn (p : Addr) (n : Nat) (e : Event) : Prop := ∃ q, e = .byte q ∧ InBlock p n q

/-- Everything but memory and trace. -/
def SameStatics (k k' : Console) : Prop :=
  k' = { k with mem := k'.mem, trace := k'.trace }

theorem SameStatics.refl (k : Console) : SameStatics k k := rfl

theorem SameStatics.trans {k k' k'' : Console} (h : SameStatics k k') (h' : SameStatics k' k'') :
    SameStatics k k'' := by
  unfold SameStatics at *
  rw [h', h]

theorem SameStatics.buffer {k k' : Console} (h : SameStatics k k') : k'.buffer = k.buffer := by
  unfold SameStatics at h
  rw [h]

theorem SameStatics.foldl {α : Type} {f : Console → α → Console}
    (hf : ∀ k a, SameStatics k (f k a)) : ∀ (l : List α) (k : Console), SameStatics k (l.foldl f k)
  | [], k => .refl k
  | a :: l, k => (hf k a).trans (SameStatics.foldl hf l (f k a))

theorem storeByte_statics (p : Addr) (b : BitVec 8) (k : Console) :
    SameStatics k (k.storeByte p b) := rfl

theorem storeByte_emits {p q : Addr} {n : Nat} (b : BitVec 8) (k : Console) (h : InBlock p n q) :
    Emits (StoresIn p n) k (k.storeByte q b) :=
  .of_trace_snoc rfl ⟨q, rfl, h⟩

theorem memset_statics (p : Addr) (b : BitVec 8) (n : Nat) (k : Console) :
    SameStatics k (k.memset p b n) :=
  .foldl (fun k _ => storeByte_statics _ _ k) _ k

theorem memset_emits (p : Addr) (b : BitVec 8) {n : Nat} (hn : n ≤ 2 ^ 32) (k : Console) :
    Emits (StoresIn p n) k (k.memset p b n) :=
  .foldl _ k fun _ hi k => storeByte_emits _ k (inBlock_offset p (List.mem_range.mp hi) hn)

theorem memset_mem (p : Addr) (b : BitVec 8) (k : Console) :
    ∀ {n : Nat}, n ≤ 2 ^ 32 → (k.memset p b n).mem = fill k.mem p n b
  | 0, _ => (fill_zero k.mem p b).symm
  | n + 1, hn => by
      have ih : (k.memset p b n).mem = fill k.mem p n b := memset_mem p b k (Nat.le_of_succ_le hn)
      rw [fill_succ k.mem p (by omega) b, ← ih, memset, List.range_succ, List.foldl_append]
      rfl

theorem memmove_statics (dst src : Addr) (n : Nat) (k : Console) :
    SameStatics k (k.memmove dst src n) := by
  unfold memmove
  split
  · exact .foldl (fun k _ => storeByte_statics _ _ k) _ k
  · exact .foldl (fun k _ => storeByte_statics _ _ k) _ k

theorem memmove_emits (dst src : Addr) {n : Nat} (hn : n ≤ 2 ^ 32) (k : Console) :
    Emits (StoresIn dst n) k (k.memmove dst src n) := by
  have hstep : ∀ i, i < n → ∀ k : Console, Emits (StoresIn dst n) k
      (k.storeByte (dst + BitVec.ofNat 32 i) (k.mem (src + BitVec.ofNat 32 i))) :=
    fun i hi k => storeByte_emits _ k (inBlock_offset dst hi hn)
  unfold memmove
  split
  · exact .foldl _ k fun i hi => hstep i (List.mem_range.mp hi)
  · exact .foldl _ k fun i hi => hstep i (List.mem_range.mp (List.mem_reverse.mp hi))

/-- The ascending loop, towards lower addresses. -/
theorem ascending_mem {dst src : Addr} (hlt : dst.toNat < src.toNat) (k : Console) :
    ∀ {n : Nat}, src.toNat + n ≤ 2 ^ 32 →
      ((List.range n).foldl (fun k i =>
        k.storeByte (dst + BitVec.ofNat 32 i) (k.mem (src + BitVec.ofNat 32 i))) k).mem =
        copy k.mem dst src n
  | 0, _ => (copy_zero k.mem dst src).symm
  | n + 1, hn => by
      have ih := ascending_mem hlt k (n := n) (by omega)
      have hsrc : ¬ InBlock dst n (src + BitVec.ofNat 32 n) := by
        unfold InBlock
        bv_omega
      rw [← copy_snoc k.mem (by omega) hsrc, ← ih, List.range_succ, List.foldl_append]
      rfl

/-- The descending loop, towards higher addresses: with `n` bytes left, the
bytes from `n` on have been moved. -/
theorem descending_mem {dst src : Addr} (hle : src.toNat ≤ dst.toNat) (m : Mem) {size : Nat}
    (hsize : dst.toNat + size ≤ 2 ^ 32) :
    ∀ {n : Nat} {k : Console}, n ≤ size →
      k.mem = copy m (dst + BitVec.ofNat 32 n) (src + BitVec.ofNat 32 n) (size - n) →
      ((List.range n).reverse.foldl (fun k i =>
        k.storeByte (dst + BitVec.ofNat 32 i) (k.mem (src + BitVec.ofNat 32 i))) k).mem =
        copy m dst src size
  | 0, k, _, hk => by simpa using hk
  | n + 1, k, hn, hk => by
      rw [List.range_succ, List.reverse_append, List.reverse_singleton, List.singleton_append,
        List.foldl_cons]
      refine descending_mem hle m hsize (Nat.le_of_succ_le hn) ?_
      have hdst : dst + BitVec.ofNat 32 (n + 1) = dst + BitVec.ofNat 32 n + 1 := by bv_omega
      have hsrc : src + BitVec.ofNat 32 (n + 1) = src + BitVec.ofNat 32 n + 1 := by bv_omega
      have hleft : size - n = size - (n + 1) + 1 := by omega
      have hread : ¬ InBlock (dst + BitVec.ofNat 32 n + 1) (size - (n + 1))
          (src + BitVec.ofNat 32 n) := by
        unfold InBlock
        bv_omega
      rw [hleft, ← copy_cons m (by omega) hread, ← hdst, ← hsrc, ← hk]
      rfl

/-- `memmove` moves the bytes as they were before the call. -/
theorem memmove_mem {dst src : Addr} {n : Nat} (hdst : dst.toNat + n ≤ 2 ^ 32)
    (hsrc : src.toNat + n ≤ 2 ^ 32) (k : Console) :
    (k.memmove dst src n).mem = copy k.mem dst src n := by
  unfold memmove
  split
  next hlt => exact ascending_mem hlt k hsrc
  next hge =>
    exact descending_mem (Nat.le_of_not_lt hge) k.mem hdst (Nat.le_refl n) (by simp)

end Console

end RedOS
