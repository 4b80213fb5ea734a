/-
# `RedOS.Lib.ByteBlock` — a list of bytes laid out in memory

`Holds m p bs`: the bytes `bs` stand in memory from `p` on.  Words are laid out
little-endian (`le32`) and read back from the list (`get32`) as they are from
memory, so what is known of a block as a list carries over to the loads.

    holds_append     a block is its parts one after the other
    load32_holds     a word of the block
    memOf_holds      a memory that has the block in it
-/
import RedOS.Lib.ByteMemory

namespace ByteMemory

/-- The bytes `bs` are in memory from `p` on. -/
def Holds (m : Mem) (p : Addr) (bs : List (BitVec 8)) : Prop :=
  ∀ i b, bs[i]? = some b → m (p + BitVec.ofNat 32 i) = b

/-- A word, least significant byte first. -/
def le32 (v : BitVec 32) : List (BitVec 8) :=
  [v.extractLsb' 0 8, v.extractLsb' 8 8, v.extractLsb' 16 8, v.extractLsb' 24 8]

/-- The word at offset `off` of a block. -/
def get32 (bs : List (BitVec 8)) (off : Nat) : BitVec 32 :=
  bs.getD (off + 3) 0#8 ++ bs.getD (off + 2) 0#8 ++ bs.getD (off + 1) 0#8 ++ bs.getD off 0#8

/-- A double word in memory. -/
def load64 (m : Mem) (p : Addr) : BitVec 64 := load32 m (p + 4) ++ load32 m p

def get64 (bs : List (BitVec 8)) (off : Nat) : BitVec 64 := get32 bs (off + 4) ++ get32 bs off

/-- A memory that is zero but for the bytes `bs` from `p` on. -/
def memOf (p : Addr) (bs : List (BitVec 8)) : Mem := fun q => bs.getD (q - p).toNat 0#8

variable {m m' : Mem} {p : Addr} {as bs : List (BitVec 8)}

theorem memOf_holds (hlen : bs.length ≤ 2 ^ 32) : Holds (memOf p bs) p bs := by
  intro i b hi
  have hlt := (List.getElem?_eq_some_iff.mp hi).1
  have hoff : (p + BitVec.ofNat 32 i - p).toNat = i := by bv_omega
  unfold memOf
  rw [hoff, List.getD_eq_getElem?_getD, hi]
  rfl

theorem Holds.congr (h : Holds m p bs)
    (hm : ∀ i < bs.length, m' (p + BitVec.ofNat 32 i) = m (p + BitVec.ofNat 32 i)) :
    Holds m' p bs := by
  intro i b hi
  rw [hm i (List.getElem?_eq_some_iff.mp hi).1]
  exact h i b hi

theorem holds_append :
    Holds m p (as ++ bs) ↔ Holds m p as ∧ Holds m (p + BitVec.ofNat 32 as.length) bs := by
  constructor
  · intro h
    refine ⟨fun i b hi => h i b ?_, ?_⟩
    · rw [List.getElem?_append_left (List.getElem?_eq_some_iff.mp hi).1]
      exact hi
    · intro i b hi
      have hplace : p + BitVec.ofNat 32 as.length + BitVec.ofNat 32 i =
          p + BitVec.ofNat 32 (as.length + i) := by
        rw [BitVec.ofNat_add, BitVec.add_assoc]
      rw [hplace]
      refine h _ b ?_
      rw [List.getElem?_append_right (Nat.le_add_right _ _), Nat.add_sub_cancel_left]
      exact hi
  · rintro ⟨ha, hb⟩ i b hi
    by_cases hlt : i < as.length
    · rw [List.getElem?_append_left hlt] at hi
      exact ha i b hi
    · have hsplit : i = as.length + (i - as.length) := by omega
      rw [List.getElem?_append_right (Nat.le_of_not_lt hlt)] at hi
      have hbyte := hb _ b hi
      rwa [BitVec.add_assoc, ← BitVec.ofNat_add, ← hsplit] at hbyte

theorem Holds.getD (h : Holds m p bs) {i : Nat} (hi : i < bs.length) :
    m (p + BitVec.ofNat 32 i) = bs.getD i 0#8 := by
  refine h i _ ?_
  rw [List.getD_eq_getElem?_getD, List.getElem?_eq_getElem hi]
  rfl

/-- The word at an offset inside the block. -/
theorem load32_holds (h : Holds m p bs) (off : Nat) (hoff : off + 4 ≤ bs.length) :
    load32 m (p + BitVec.ofNat 32 off) = get32 bs off := by
  have hat : ∀ j : Nat, p + BitVec.ofNat 32 off + BitVec.ofNat 32 j =
      p + BitVec.ofNat 32 (off + j) := by
    intro j
    rw [BitVec.ofNat_add, BitVec.add_assoc]
  unfold load32 get32
  rw [show (1 : BitVec 32) = BitVec.ofNat 32 1 from rfl, show (2 : BitVec 32) = BitVec.ofNat 32 2 from rfl,
    show (3 : BitVec 32) = BitVec.ofNat 32 3 from rfl, hat, hat, hat, h.getD (by omega),
    h.getD (by omega), h.getD (by omega), h.getD (by omega)]

theorem get32_le32 (v : BitVec 32) (bs : List (BitVec 8)) : get32 (le32 v ++ bs) 0 = v := by
  exact word_of_bytes v

/-- The first word of the block. -/
theorem load32_holds_le32 {v : BitVec 32} (h : Holds m p (le32 v ++ bs)) : load32 m p = v := by
  have hfirst := load32_holds h 0 (by rw [List.length_append]; exact Nat.le_add_right 4 _)
  rwa [BitVec.add_zero, get32_le32] at hfirst

/-- A double word, least significant word first. -/
def le64 (v : BitVec 64) : List (BitVec 8) := le32 (v.setWidth 32) ++ le32 ((v >>> 32).setWidth 32)

/-- A word behind the first part of a block. -/
theorem get32_append (as bs : List (BitVec 8)) (off : Nat) :
    get32 (as ++ bs) (as.length + off) = get32 bs off := by
  have hbyte : ∀ i : Nat, (as ++ bs).getD (as.length + off + i) 0#8 = bs.getD (off + i) 0#8 := by
    intro i
    rw [Nat.add_assoc, List.getD_eq_getElem?_getD, List.getD_eq_getElem?_getD,
      List.getElem?_append_right (Nat.le_add_right _ _), Nat.add_sub_cancel_left]
  unfold get32
  rw [hbyte 3, hbyte 2, hbyte 1]
  exact congrArg (bs.getD (off + 3) 0#8 ++ bs.getD (off + 2) 0#8 ++ bs.getD (off + 1) 0#8 ++ ·) (hbyte 0)

theorem get64_append (as bs : List (BitVec 8)) (off : Nat) :
    get64 (as ++ bs) (as.length + off) = get64 bs off := by
  unfold get64
  rw [Nat.add_assoc, get32_append, get32_append]

theorem get64_le64 (v : BitVec 64) (bs : List (BitVec 8)) : get64 (le64 v ++ bs) 0 = v := by
  have hhigh : get32 (le64 v ++ bs) 4 = (v >>> 32).setWidth 32 := by
    have h := get32_append (le32 (v.setWidth 32)) (le32 ((v >>> 32).setWidth 32) ++ bs) 0
    rw [get32_le32, ← List.append_assoc] at h
    exact h
  have hlow : get32 (le64 v ++ bs) 0 = v.setWidth 32 := by
    unfold le64
    rw [List.append_assoc]
    exact get32_le32 _ _
  unfold get64
  rw [Nat.zero_add, hhigh, hlow]
  apply BitVec.eq_of_getLsbD_eq
  intro i hi
  rw [BitVec.getLsbD_append, BitVec.getLsbD_setWidth, BitVec.getLsbD_setWidth, BitVec.getLsbD_ushiftRight]
  by_cases hsmall : i < 32
  · simp [hsmall]
  · have hback : 32 + (i - 32) = i := by omega
    have hlt : i - 32 < 32 := by omega
    simp [hsmall, hlt, hback]

theorem load64_holds (h : Holds m p bs) (off : Nat) (hoff : off + 8 ≤ bs.length) :
    load64 m (p + BitVec.ofNat 32 off) = get64 bs off := by
  unfold load64 get64
  rw [show (4 : BitVec 32) = BitVec.ofNat 32 4 from rfl, BitVec.add_assoc, ← BitVec.ofNat_add,
    load32_holds h _ (by omega), load32_holds h _ (by omega)]

end ByteMemory
