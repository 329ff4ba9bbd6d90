import IllusionEpt.Ept

/-!
# The EPT pointer

`create_eptp_with_wb_and_4lvl_walk` encodes the physical address of the PML4
with a 4-level walk and the write-back type, after checking with
`trailing_zeros` that the address is 4KB-aligned. The check never fails: a
`Layout` puts the PML4 on a 4KB boundary, so the function always returns the
PML4 address plus `0x18 + 6`, and Epts at different addresses get different
EPTPs.
-/

namespace IllusionEpt

set_option autoImplicit false

open BitVec

section TrailingZeros

variable (x : BitVec 64)

/-- `u64::trailing_zeros`: how many bits from bit 0 up are clear, 64 for zero. -/
def trailingZeros : Nat := countFrom 0 64
where
  /-- The first set bit from bit `i` on, among the next `n` bits. -/
  countFrom (i : Nat) : Nat → Nat
    | 0 => i
    | n + 1 => if x.getLsbD i then i else countFrom (i + 1) n

theorem le_countFrom_iff {k : Nat} (n : Nat) : ∀ i, k ≤ i + n →
    (k ≤ trailingZeros.countFrom x i n ↔ ∀ j, i ≤ j → j < k → x.getLsbD j = false) := by
  induction n with
  | zero => exact fun i h => ⟨fun _ j h1 h2 => absurd h2 (by omega), fun _ => h⟩
  | succ n ih =>
    intro i h
    simp only [trailingZeros.countFrom]
    split
    · rename_i hb
      refine ⟨fun hk j h1 h2 => absurd h2 (by omega), fun hall => ?_⟩
      by_contra hk
      exact absurd (hall i le_rfl (by omega)) (by rw [hb]; decide)
    · rename_i hb
      rw [ih (i + 1) (by omega)]
      refine ⟨fun hall j h1 h2 => ?_, fun hall j h1 h2 => hall j (by omega) h2⟩
      rcases Nat.eq_or_lt_of_le h1 with rfl | h1
      · simpa using hb
      · exact hall j h1 h2

/-- The bits below bit `k` are clear exactly when `x` is a multiple of `2^k`. -/
theorem getLsbD_eq_false_iff_mod (k : Nat) :
    (∀ j, j < k → x.getLsbD j = false) ↔ x.toNat % 2 ^ k = 0 := by
  constructor
  · intro h
    apply Nat.eq_of_testBit_eq
    intro i
    rw [Nat.testBit_mod_two_pow, Nat.zero_testBit, testBit_toNat]
    by_cases hi : i < k <;> simp [hi, h]
  · intro h j hj
    have := congrArg (Nat.testBit · j) h
    simpa [Nat.testBit_mod_two_pow, hj] using this

theorem le_trailingZeros_iff {k : Nat} (hk : k ≤ 64) :
    k ≤ trailingZeros x ↔ x.toNat % 2 ^ k = 0 := by
  rw [trailingZeros, le_countFrom_iff x 64 0 (by omega), ← getLsbD_eq_false_iff_mod]
  exact ⟨fun h j => h j (Nat.zero_le j), fun h j _ => h j⟩

end TrailingZeros

/-- `EPT_PAGE_WALK_LENGTH_4`: four levels, encoded as three in bits 5..3. -/
def eptPageWalkLength4 : BitVec 64 := 3 <<< 3

/-- `EPT_MEMORY_TYPE_WB`: `MemoryType::WriteBack as u64`. -/
def eptMemoryTypeWb : BitVec 64 := MemoryType.writeBack.toU64

/-- `create_eptp_with_wb_and_4lvl_walk` for the `Ept` laid out by `L`: `addr_of!(self.pml4)` is
`L.addr .pml4`. -/
def createEptpWithWbAnd4lvlWalk (L : Layout) : Except HypervisorError (BitVec 64) :=
  let eptPml4BaseAddr := L.addr .pml4
  if 12 ≤ trailingZeros eptPml4BaseAddr then
    .ok (eptPml4BaseAddr ||| eptPageWalkLength4 ||| eptMemoryTypeWb)
  else .error .invalidEptPml4BaseAddress

namespace Layout

variable (L : Layout)

theorem toNat_addr (t : TableRef) : (L.addr t).toNat = 4096 * L.frame t := by
  have := t.slot_lt
  have := L.below
  have := L.aligned
  simp only [addr, frame, toNat_ofNat]
  rw [Nat.mod_eq_of_lt (by omega)]
  omega

/-- Every table of an `Ept` is 4KB-aligned: its address has bits 11..0 clear. -/
theorem getLsbD_addr (t : TableRef) {i : Nat} (hi : i < 12) : (L.addr t).getLsbD i = false :=
  (getLsbD_eq_false_iff_mod _ 12).2 (by rw [toNat_addr]; omega) i hi

end Layout

/-- The value `create_eptp_with_wb_and_4lvl_walk` returns: the PML4 address, 3 in bits 5..3 and 6
in bits 2..0, every other bit clear. -/
theorem createEptpWithWbAnd4lvlWalk_eq (L : Layout) :
    createEptpWithWbAnd4lvlWalk L = .ok (.ofNat 64 (4096 * L.frame .pml4 + 0x18 + 6)) := by
  have hz : 12 ≤ trailingZeros (L.addr .pml4) :=
    (le_trailingZeros_iff _ (by decide)).2 (by rw [L.toNat_addr]; omega)
  have hlow : L.addr .pml4 &&& 30#64 = 0#64 := by
    ext i
    rw [getLsbD_and, getLsbD_zero]
    by_cases hi : i.val < 12
    · rw [L.getLsbD_addr _ hi, Bool.false_and]
    · have h30 : (30#64).toNat < 2 ^ i.val :=
        Nat.lt_of_lt_of_le (by decide) (Nat.pow_le_pow_right (by decide) (Nat.le_of_not_lt hi))
      rw [← testBit_toNat 30#64, Nat.testBit_lt_two_pow h30, Bool.and_false]
  have hlen : L.frame .pml4 < 2 ^ 40 := L.frame_lt _
  simp only [createEptpWithWbAnd4lvlWalk, if_pos hz, BitVec.or_assoc,
    show eptPageWalkLength4 ||| eptMemoryTypeWb = 30#64 by decide,
    ← add_eq_or_of_and_eq_zero _ _ hlow]
  congr 1
  apply eq_of_toNat_eq
  simp only [toNat_add, L.toNat_addr, toNat_ofNat]

/-- Modelled from the spec: the frame of the PML4 an EPTP names, its bits 51..12. -/
def pml4FrameOf (eptp : BitVec 64) : Nat := (bitRange eptp 51 12).toNat

theorem pml4FrameOf_eq {L : Layout} {eptp : BitVec 64}
    (h : createEptpWithWbAnd4lvlWalk L = .ok eptp) : pml4FrameOf eptp = L.frame .pml4 := by
  rw [createEptpWithWbAnd4lvlWalk_eq, Except.ok.injEq] at h
  have := L.frame_lt .pml4
  subst h
  rw [pml4FrameOf, toNat_bitRange _ (by decide) (by decide), toNat_ofNat]
  omega

/-- `create_eptp_with_wb_and_4lvl_walk` never fails for an `Ept` in memory, and the EPTP it returns
names the PML4 in bits 51..12, a 4-level walk (3) in bits 5..3 and write-back (6) in bits 2..0,
with the accessed and dirty flags off and every other bit clear. -/
theorem createEptpWithWbAnd4lvlWalk_fields (L : Layout) :
    ∃ eptp, createEptpWithWbAnd4lvlWalk L = .ok eptp ∧ bitRange eptp 2 0 = 6 ∧
      bitRange eptp 5 3 = 3 ∧ bitRange eptp 11 6 = 0 ∧ pml4FrameOf eptp = L.frame .pml4 ∧
      bitRange eptp 63 52 = 0 := by
  have := L.frame_lt .pml4
  refine ⟨_, createEptpWithWbAnd4lvlWalk_eq L, ?_, ?_, ?_,
    pml4FrameOf_eq (createEptpWithWbAnd4lvlWalk_eq L), ?_⟩ <;>
  · apply eq_of_toNat_eq
    simp only [toNat_bitRange _ (by decide : 63 < 64) (by decide : 52 ≤ 63),
      toNat_bitRange _ (by decide : 11 < 64) (by decide : 6 ≤ 11),
      toNat_bitRange _ (by decide : 5 < 64) (by decide : 3 ≤ 5),
      toNat_bitRange _ (by decide : 2 < 64) (by decide : 0 ≤ 2), ofNat_eq_ofNat, toNat_ofNat]
    omega

end IllusionEpt
