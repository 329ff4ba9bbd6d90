import Mathlib.Data.BitVec

/-!
# EPT entries

The `bitfield!` entry of `paging.rs` over its `u64`, read and written with the
masks of the bitfield crate's `bit_range` and `set_bit_range`, and the
`AccessType` flags. Every field fact below is derived from the per-bit
description of `set_bit_range`; nothing is assumed about the layout.
-/

namespace IllusionEpt

set_option autoImplicit false

open BitVec

/-- `BitRange::bit_range` of the bitfield crate on a `u64`: bits `msb..=lsb`, shifted down. -/
def bitRange (x : BitVec 64) (msb lsb : Nat) : BitVec 64 :=
  x <<< (63 - msb) >>> (63 - msb + lsb)

/-- `BitRangeMut::set_bit_range`: the bits of `value` that fit replace bits `msb..=lsb`. -/
def setBitRange (x : BitVec 64) (msb lsb : Nat) (value : BitVec 64) : BitVec 64 :=
  let mask := allOnes 64 <<< (63 - msb) >>> (63 - msb + lsb) <<< lsb
  x &&& ~~~mask ||| value <<< lsb &&& mask

/-- `Bit::bit`: a one-bit range read as a flag. -/
def bit (x : BitVec 64) (i : Nat) : Bool := bitRange x i i != 0

/-- `BitMut::set_bit`: a one-bit range written with `value as u8`. -/
@[simp] def setBit (x : BitVec 64) (i : Nat) (value : Bool) : BitVec 64 :=
  setBitRange x i i (if value then 1 else 0)

theorem getLsbD_mask {msb lsb i : Nat} (hm : msb < 64) :
    (allOnes 64 <<< (63 - msb) >>> (63 - msb + lsb) <<< lsb).getLsbD i =
      decide (lsb ≤ i ∧ i ≤ msb) := by
  simp only [getLsbD_shiftLeft, getLsbD_ushiftRight, getLsbD_allOnes]
  by_cases h : lsb ≤ i ∧ i ≤ msb
  · have : 63 - msb + lsb + (i - lsb) - (63 - msb) < 64 := by omega
    simp [h, this]; omega
  · simp only [h, decide_False, Bool.and_eq_false_iff, Bool.not_eq_false', decide_eq_true_eq,
      Bool.or_eq_true, Bool.not_eq_true', decide_eq_false_iff_not]
    omega

/-- The one fact about `set_bit_range` that every field lemma rests on. -/
@[simp] theorem getLsbD_setBitRange {x v : BitVec 64} {msb lsb i : Nat} (hm : msb < 64) :
    (setBitRange x msb lsb v).getLsbD i =
      if lsb ≤ i ∧ i ≤ msb then v.getLsbD (i - lsb) else x.getLsbD i := by
  by_cases hi : i < 64
  · simp only [setBitRange, getLsbD_or, getLsbD_and, getLsbD_not, getLsbD_shiftLeft,
      getLsbD_mask hm]
    by_cases h : lsb ≤ i ∧ i ≤ msb
    · simp [h, hi, Nat.not_lt.mpr h.1]
    · simp [h, hi]
  · simp [getLsbD_ge _ _ (by omega : 64 ≤ i)]; omega

theorem getLsbD_bitRange {x : BitVec 64} {msb lsb i : Nat} (hm : msb < 64) (hl : lsb ≤ msb) :
    (bitRange x msb lsb).getLsbD i = (decide (i ≤ msb - lsb) && x.getLsbD (lsb + i)) := by
  simp only [bitRange, getLsbD_shiftLeft, getLsbD_ushiftRight]
  by_cases h : i ≤ msb - lsb
  · have : 63 - msb + lsb + i - (63 - msb) = lsb + i := by omega
    simp [h, this]; omega
  · simp [h]
    intro; omega

@[simp] theorem bit_eq_getLsbD {x : BitVec 64} {i : Nat} (hi : i < 64) : bit x i = x.getLsbD i := by
  have h0 : ∀ j, (bitRange x i i).getLsbD j = (decide (j = 0) && x.getLsbD i) := by
    intro j
    rw [getLsbD_bitRange hi (Nat.le_refl i)]
    by_cases hj : j = 0 <;> simp [hj]
  cases hx : x.getLsbD i
  · have : bitRange x i i = 0 := by ext j; simp [h0, hx]
    simp [bit, this]
  · have : bitRange x i i ≠ 0 := fun h => by simpa [h, hx] using h0 0
    simpa [bit] using this

@[simp] theorem getLsbD_ite_one_zero (b : Bool) (i : Nat) :
    (if b then 1#64 else 0#64).getLsbD i = (decide (i = 0) && b) := by
  cases b <;> simp

theorem toNat_bitRange (x : BitVec 64) {msb lsb : Nat} (hm : msb < 64) (hl : lsb ≤ msb) :
    (bitRange x msb lsb).toNat = x.toNat / 2 ^ lsb % 2 ^ (msb + 1 - lsb) := by
  apply Nat.eq_of_testBit_eq
  intro i
  rw [testBit_toNat, getLsbD_bitRange hm hl, Nat.testBit_mod_two_pow, ← Nat.shiftRight_eq_div_pow,
    Nat.testBit_shiftRight, testBit_toNat]
  by_cases h : i ≤ msb - lsb
  · simp [h]; omega
  · simp [h]; omega

@[simp] theorem bitRange_zero (msb lsb : Nat) : bitRange 0#64 msb lsb = 0#64 := by
  simp [bitRange]

theorem bitRange_eq_zero_iff (x : BitVec 64) {msb lsb : Nat} (hm : msb < 64) (hl : lsb ≤ msb) :
    bitRange x msb lsb = 0 ↔ ∀ i, lsb ≤ i → i ≤ msb → x.getLsbD i = false := by
  constructor
  · intro h i h1 h2
    have := congrArg (fun y => y.getLsbD (i - lsb)) h
    simpa [getLsbD_bitRange hm hl, Nat.add_sub_cancel' h1, show i - lsb ≤ msb - lsb by omega]
      using this
  · intro h
    ext i
    by_cases hi : i.val ≤ msb - lsb
    · simp [getLsbD_bitRange hm hl, hi, h (lsb + i) (by omega) (by omega)]
    · simp [getLsbD_bitRange hm hl, hi]

/-- Writing a range leaves every range outside it as it was. -/
@[simp] theorem bitRange_setBitRange_of_disjoint {x v : BitVec 64} {msb lsb msb' lsb' : Nat}
    (hm : msb < 64) (hm' : msb' < 64) (hl' : lsb' ≤ msb') (h : msb' < lsb ∨ msb < lsb') :
    bitRange (setBitRange x msb lsb v) msb' lsb' = bitRange x msb' lsb' := by
  ext i
  simp only [getLsbD_bitRange hm' hl', getLsbD_setBitRange hm]
  by_cases hi : i.val ≤ msb' - lsb'
  · simp only [hi, decide_True, Bool.true_and]
    rw [if_neg (by omega)]
  · simp [hi]

/-- Reading back a written range gives the part of the value that fits. -/
@[simp] theorem bitRange_setBitRange_self {x v : BitVec 64} {msb lsb : Nat}
    (hm : msb < 64) (hl : lsb ≤ msb) :
    bitRange (setBitRange x msb lsb v) msb lsb = bitRange v (msb - lsb) 0 := by
  ext i
  simp only [getLsbD_bitRange hm hl, getLsbD_bitRange (by omega : msb - lsb < 64) (Nat.zero_le _),
    getLsbD_setBitRange hm, Nat.sub_zero, Nat.zero_add]
  by_cases hi : i.val ≤ msb - lsb
  · simp only [hi, decide_True, Bool.true_and]
    rw [if_pos (by omega), Nat.add_sub_cancel_left]
  · simp [hi]

theorem setBitRange_comm {x v w : BitVec 64} {msb lsb msb' lsb' : Nat}
    (hm : msb < 64) (hm' : msb' < 64) (h : msb' < lsb ∨ msb < lsb') :
    setBitRange (setBitRange x msb lsb v) msb' lsb' w =
      setBitRange (setBitRange x msb' lsb' w) msb lsb v := by
  ext i
  simp only [getLsbD_setBitRange hm, getLsbD_setBitRange hm']
  split_ifs <;> first | rfl | omega

/-- A second write of a range overrides the first. -/
@[simp] theorem setBitRange_setBitRange_self {x v w : BitVec 64} {msb lsb : Nat} (hm : msb < 64) :
    setBitRange (setBitRange x msb lsb v) msb lsb w = setBitRange x msb lsb w := by
  ext i
  simp only [getLsbD_setBitRange hm]
  split_ifs <;> rfl

/-- Two values that agree where `P` holds agree, after the same write of a range, where `P` holds
and on the range. -/
theorem getLsbD_setBitRange_congr {x y v : BitVec 64} {msb lsb : Nat} (hm : msb < 64)
    {P : Nat → Prop} (h : ∀ i, P i → x.getLsbD i = y.getLsbD i) :
    ∀ i, P i ∨ lsb ≤ i ∧ i ≤ msb →
      (setBitRange x msb lsb v).getLsbD i = (setBitRange y msb lsb v).getLsbD i := by
  intro i hi
  rw [getLsbD_setBitRange hm, getLsbD_setBitRange hm]
  split_ifs with hr
  · rfl
  · exact h i (hi.resolve_right hr)

/-- `Entry(u64)` of `paging.rs`: one EPT paging-structure entry, the same layout at every level. -/
structure Entry where
  bits : BitVec 64
deriving DecidableEq, Repr

namespace Entry

@[simp] def readable (e : Entry) : Bool := bit e.bits 0
@[simp] def setReadable (e : Entry) (value : Bool) : Entry := ⟨setBit e.bits 0 value⟩
@[simp] def writable (e : Entry) : Bool := bit e.bits 1
@[simp] def setWritable (e : Entry) (value : Bool) : Entry := ⟨setBit e.bits 1 value⟩
@[simp] def executable (e : Entry) : Bool := bit e.bits 2
@[simp] def setExecutable (e : Entry) (value : Bool) : Entry := ⟨setBit e.bits 2 value⟩
@[simp] def memoryType (e : Entry) : BitVec 64 := bitRange e.bits 5 3
@[simp] def setMemoryType (e : Entry) (value : BitVec 64) : Entry := ⟨setBitRange e.bits 5 3 value⟩
@[simp] def large (e : Entry) : Bool := bit e.bits 7
@[simp] def setLarge (e : Entry) (value : Bool) : Entry := ⟨setBit e.bits 7 value⟩
@[simp] def pfn (e : Entry) : BitVec 64 := bitRange e.bits 51 12
@[simp] def setPfn (e : Entry) (value : BitVec 64) : Entry := ⟨setBitRange e.bits 51 12 value⟩

/-- Present in the sense of the spec: some access is permitted. -/
def present (e : Entry) : Bool := e.readable || e.writable || e.executable

theorem ext_bits {e e' : Entry} (h : ∀ i, e.bits.getLsbD i = e'.bits.getLsbD i) : e = e' := by
  cases e; cases e'; simp only [mk.injEq]; ext i; exact h i

theorem toNat_pfn (e : Entry) : e.pfn.toNat = e.bits.toNat / 2 ^ 12 % 2 ^ 40 :=
  toNat_bitRange _ (by decide) (by decide)

theorem toNat_memoryType (e : Entry) : e.memoryType.toNat = e.bits.toNat / 2 ^ 3 % 2 ^ 3 :=
  toNat_bitRange _ (by decide) (by decide)

end Entry

/-- `AccessType` of `paging.rs`: a `bitflags` set of permissions over a `u8`. -/
structure AccessType where
  bits : BitVec 8
deriving DecidableEq, Repr

namespace AccessType

def read : AccessType := ⟨0b001⟩
def write : AccessType := ⟨0b010⟩
def execute : AccessType := ⟨0b100⟩

/-- `READ_WRITE`: `READ.bits() | WRITE.bits()`. -/
def readWrite : AccessType := ⟨read.bits ||| write.bits⟩

/-- `bitflags` `contains`: every flag of `other` is set in `self`. -/
def contains (self other : AccessType) : Bool := self.bits &&& other.bits == other.bits

end AccessType

end IllusionEpt
