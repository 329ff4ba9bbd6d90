import IllusionEpt.Entry

/-!
# Guest-physical addresses

The helpers of `x86::bits64::paging` that `paging.rs` calls (`pdpt_index`,
`pd_index`, `pt_index`, the page-alignment tests of `VAddr`) and the
`PhysicalAddress` wrapper of `addresses.rs`. Each index is a `Fin 512`: the
mask `& 0x1FF` is what keeps every table access of `paging.rs` in bounds.
-/

namespace IllusionEpt

set_option autoImplicit false

open BitVec

@[simp] def basePageShift : Nat := 12
@[simp] def basePageSize : Nat := 4096
@[simp] def largePageSize : Nat := 2097152

theorem toNat_and_0x1FF_lt (x : BitVec 64) : (x &&& 0x1FF).toNat < 512 := by
  rw [toNat_and]
  exact Nat.lt_of_le_of_lt Nat.and_le_right (by decide)

/-- The nine index bits of `addr` from bit `shift` on: `((addr >> shift) & 0x1FF) as usize`. -/
def tableIndex (addr : BitVec 64) (shift : Nat) : Fin 512 :=
  ⟨((addr >>> shift) &&& 0x1FF).toNat, toNat_and_0x1FF_lt _⟩

/-- `pdpt_index`: bits 38..30. -/
def pdptIndex (addr : BitVec 64) : Fin 512 := tableIndex addr 30
/-- `pd_index`: bits 29..21. -/
def pdIndex (addr : BitVec 64) : Fin 512 := tableIndex addr 21
/-- `pt_index`: bits 20..12. -/
def ptIndex (addr : BitVec 64) : Fin 512 := tableIndex addr 12

theorem val_tableIndex (addr : BitVec 64) (shift : Nat) :
    (tableIndex addr shift).val = addr.toNat / 2 ^ shift % 512 := by
  simp only [tableIndex, toNat_and, toNat_ushiftRight, Nat.shiftRight_eq_div_pow]
  exact Nat.and_pow_two_sub_one_eq_mod _ 9

/-- `VAddr::align_down`: `addr & !(align - 1)`. -/
def alignDown (addr align : BitVec 64) : BitVec 64 := addr &&& ~~~(align - 1)

/-- `VAddr::is_base_page_aligned`. -/
def isBasePageAligned (addr : BitVec 64) : Bool :=
  alignDown addr (BitVec.ofNat 64 basePageSize) == addr

/-- `VAddr::is_large_page_aligned`. -/
def isLargePageAligned (addr : BitVec 64) : Bool :=
  alignDown addr (BitVec.ofNat 64 largePageSize) == addr

theorem alignDown_two_pow_eq_self_iff (addr : BitVec 64) {k : Nat} (hk : k < 64) :
    alignDown addr (BitVec.ofNat 64 (2 ^ k)) = addr ↔ addr.toNat % 2 ^ k = 0 := by
  have hsub : BitVec.ofNat 64 (2 ^ k) - 1 = BitVec.ofNat 64 (2 ^ k - 1) := by
    apply eq_of_toNat_eq
    have : 2 ^ k < 2 ^ 64 := Nat.pow_lt_pow_right (by decide) hk
    have : 1 ≤ 2 ^ k := Nat.one_le_two_pow
    simp [toNat_sub]; omega
  have hbit : ∀ i, (alignDown addr (BitVec.ofNat 64 (2 ^ k))).getLsbD i =
      (addr.getLsbD i && !decide (i < k)) := by
    intro i
    by_cases hi : i < 64
    · rw [alignDown, hsub]
      simp [getLsbD_ofNat, hi]
    · simp [getLsbD_ge _ _ (Nat.le_of_not_lt hi)]
  constructor
  · intro h
    apply Nat.eq_of_testBit_eq
    intro i
    rw [Nat.testBit_mod_two_pow, Nat.zero_testBit, testBit_toNat, ← h, hbit]
    by_cases hi : i < k <;> simp [hi]
  · intro h
    ext i
    rw [hbit]
    by_cases hi : i.val < k
    · have := congrArg (fun n => n.testBit i) h
      simp only [Nat.testBit_mod_two_pow, hi, decide_True, Bool.true_and, Nat.zero_testBit,
        testBit_toNat] at this
      simp [this]
    · simp [hi]

theorem isBasePageAligned_iff (addr : BitVec 64) :
    isBasePageAligned addr = true ↔ addr.toNat % 4096 = 0 := by
  simpa [isBasePageAligned] using alignDown_two_pow_eq_self_iff addr (k := 12) (by decide)

theorem isLargePageAligned_iff (addr : BitVec 64) :
    isLargePageAligned addr = true ↔ addr.toNat % 2097152 = 0 := by
  simpa [isLargePageAligned] using alignDown_two_pow_eq_self_iff addr (k := 21) (by decide)

/-- `PhysicalAddress` of `addresses.rs`: a physical address held as a `u64`. -/
structure PhysicalAddress where
  addr : BitVec 64
deriving DecidableEq, Repr

namespace PhysicalAddress

def fromPa (pa : BitVec 64) : PhysicalAddress := ⟨pa⟩
def fromPfn (pfn : BitVec 64) : PhysicalAddress := ⟨pfn <<< basePageShift⟩
def pfn (self : PhysicalAddress) : BitVec 64 := self.addr >>> basePageShift
def pa (self : PhysicalAddress) : BitVec 64 := self.addr

/-- `from_pfn(x).pfn() == x` holds exactly for the frames the 64-bit address can hold. -/
theorem pfn_fromPfn_eq_iff (x : BitVec 64) : (fromPfn x).pfn = x ↔ x.toNat < 2 ^ 52 := by
  have hx := x.isLt
  simp only [fromPfn, pfn, basePageShift, toNat_eq, toNat_ushiftRight, toNat_shiftLeft,
    Nat.shiftLeft_eq, Nat.shiftRight_eq_div_pow, Nat.reducePow] at hx ⊢
  omega

/-- An address read back through `from_pa` and `pa` is the address; a frame number read back
through `from_pfn` and `pfn` is the frame number exactly below `2^52`, the shift by 12 dropping
the top bits of a larger one. -/
theorem fromPa_pa_and_fromPfn_pfn (x : BitVec 64) :
    (fromPa x).pa = x ∧ ((fromPfn x).pfn = x ↔ x.toNat < 2 ^ 52) :=
  ⟨rfl, pfn_fromPfn_eq_iff x⟩

end PhysicalAddress

end IllusionEpt
