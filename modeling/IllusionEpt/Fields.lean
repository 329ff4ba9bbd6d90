import IllusionEpt.IdentityMap

/-!
# What the operations write into an entry

The composite writes of `split_2mb_to_4kb`, `modify_page_permissions` and
`remap_gpa_to_hpa` read back field by field, and the translation a leaf gives
after each. `unmap_2mb` is here too: it tests only `readable` before clearing.
-/

namespace IllusionEpt

set_option autoImplicit false

open BitVec

namespace Ept

section Access

variable (e : Entry) (a : AccessType)

@[simp] theorem readable_setAccess : (setAccess e a).readable = a.contains .read := by
  simp [setAccess]

@[simp] theorem writable_setAccess : (setAccess e a).writable = a.contains .write := by
  simp [setAccess]

@[simp] theorem executable_setAccess : (setAccess e a).executable = a.contains .execute := by
  simp [setAccess]

/-- The permission writes leave every bit from bit 3 on as it was. -/
theorem getLsbD_setAccess {i : Nat} (hi : 3 ≤ i) :
    (setAccess e a).bits.getLsbD i = e.bits.getLsbD i := by
  simp only [setAccess, Entry.setReadable, Entry.setWritable, Entry.setExecutable, setBit,
    getLsbD_setBitRange (show 0 < 64 by decide), getLsbD_setBitRange (show 1 < 64 by decide),
    getLsbD_setBitRange (show 2 < 64 by decide)]
  rw [if_neg (by omega), if_neg (by omega), if_neg (by omega)]

@[simp] theorem large_setAccess : (setAccess e a).large = e.large := by
  simp [setAccess]

@[simp] theorem memoryType_setAccess : (setAccess e a).memoryType = e.memoryType := by
  simp [setAccess]

@[simp] theorem pfn_setAccess : (setAccess e a).pfn = e.pfn := by
  simp [setAccess]

/-- A permission edit changes only the permissions of the translation. -/
theorem ofEntry_setAccess (offset : Nat) :
    Translation.ofEntry (setAccess e a) offset =
      { Translation.ofEntry e offset with
        readable := a.contains .read, writable := a.contains .write,
        executable := a.contains .execute } := by
  simp only [Translation.ofEntry, readable_setAccess, writable_setAccess, executable_setAccess,
    memoryType_setAccess, pfn_setAccess]

/-- The PFN write of `remap_gpa_to_hpa` and the permission writes touch disjoint bits. -/
theorem setAccess_setPfn (v : BitVec 64) : setAccess (e.setPfn v) a = (setAccess e a).setPfn v := by
  simp only [setAccess, Entry.setReadable, Entry.setWritable, Entry.setExecutable, Entry.setPfn,
    setBit, Entry.mk.injEq]
  rw [setBitRange_comm (by decide : 51 < 64) (by decide : 0 < 64) (.inl (by decide : 0 < 12)),
    setBitRange_comm (by decide : 51 < 64) (by decide : 1 < 64) (.inl (by decide : 1 < 12)),
    setBitRange_comm (by decide : 51 < 64) (by decide : 2 < 64) (.inl (by decide : 2 < 12))]

/-- A second permission write overrides the first. -/
@[simp] theorem setAccess_setAccess (b : AccessType) : setAccess (setAccess e a) b = setAccess e b := by
  apply Entry.ext_bits
  intro i
  have h := fun i (hi : 3 ≤ i) => getLsbD_setAccess e a hi
  simp only [setAccess, Entry.setReadable, Entry.setWritable, Entry.setExecutable, setBit] at h ⊢
  exact getLsbD_setBitRange_congr (by decide) (getLsbD_setBitRange_congr (by decide)
    (getLsbD_setBitRange_congr (by decide) h)) i (by omega)

end Access

section Pfn

variable (e : Entry) (v : BitVec 64)

@[simp] theorem large_setPfn : (e.setPfn v).large = e.large := by simp

/-- A second PFN write overrides the first. -/
@[simp] theorem setPfn_setPfn (w : BitVec 64) : (e.setPfn v).setPfn w = e.setPfn w := by
  simp only [Entry.setPfn, setBitRange_setBitRange_self (show 51 < 64 by decide)]

/-- A PFN write changes only the host address of the translation. -/
theorem ofEntry_setPfn (h : v.toNat < 2 ^ 40) (offset : Nat) :
    Translation.ofEntry (e.setPfn v) offset =
      { Translation.ofEntry e offset with hostAddr := v.toNat * 4096 + offset } := by
  have h' : v.toNat < 1099511627776 := h
  simp [Translation.ofEntry, toNat_bitRange_zero, Nat.mod_eq_of_lt h']

end Pfn

section Unmap

variable (e : Entry)

theorem unmap2mb_of_readable_eq_false (h : e.readable = false) : unmap2mb e = e := by
  simp only [unmap2mb, h, Bool.not_false, ↓reduceIte]

/-- A readable entry is cleared: not present, memory type, large flag and PFN all zero. -/
theorem unmap2mb_clears (h : e.readable = true) :
    (unmap2mb e).present = false ∧ (unmap2mb e).memoryType = 0 ∧ (unmap2mb e).large = false ∧
      (unmap2mb e).pfn = 0 := by
  simp only [unmap2mb, h, Bool.not_true, Bool.false_eq_true, if_false]
  refine ⟨by simp [Entry.present], ?_, by simp, ?_⟩ <;>
    simp [bitRange_setBitRange_of_disjoint, bitRange_setBitRange_self]

/-- The bits outside the fields `unmap_2mb` clears are never written by it: bit 6, bits 8..11
and the bits above the PFN. -/
theorem getLsbD_unmap2mb_of_outside {i : Nat} (hi : i = 6 ∨ 8 ≤ i ∧ i ≤ 11 ∨ 51 < i) :
    (unmap2mb e).bits.getLsbD i = e.bits.getLsbD i := by
  unfold unmap2mb
  split
  · rfl
  · simp only [Entry.setReadable, Entry.setWritable, Entry.setExecutable, Entry.setMemoryType,
      Entry.setLarge, Entry.setPfn, setBit, getLsbD_setBitRange (show 51 < 64 by decide),
      getLsbD_setBitRange (show 7 < 64 by decide), getLsbD_setBitRange (show 5 < 64 by decide),
      getLsbD_setBitRange (show 2 < 64 by decide), getLsbD_setBitRange (show 1 < 64 by decide),
      getLsbD_setBitRange (show 0 < 64 by decide)]
    rw [if_neg (by omega), if_neg (by omega), if_neg (by omega), if_neg (by omega),
      if_neg (by omega), if_neg (by omega)]

/-- Bit 6 and the bits above the PFN are never written by `unmap_2mb`. -/
theorem getLsbD_unmap2mb {i : Nat} (hi : i = 6 ∨ 51 < i) :
    (unmap2mb e).bits.getLsbD i = e.bits.getLsbD i :=
  getLsbD_unmap2mb_of_outside e (by omega)

end Unmap

/-- An execute-only entry, as the execute/data hiding scheme makes, passes `unmap_2mb` and
`unmap_4kb` unchanged and stays present. -/
theorem unmap2mb_execute_only :
    unmap2mb ⟨4⟩ = ⟨4⟩ ∧ unmap4kb ⟨4⟩ = ⟨4⟩ ∧ (unmap2mb ⟨4⟩).present = true := by
  decide

section MapPage

variable (m pa : BitVec 64) (e : Entry)

/-- A leaf written by `build_identity` or `split_2mb_to_4kb` grants every access. -/
theorem access_mapPage : (mapPage m pa e).readable = true ∧ (mapPage m pa e).writable = true ∧
    (mapPage m pa e).executable = true := by
  simp [mapPage]

theorem toNat_memoryType_mapPage : (mapPage m pa e).memoryType.toNat = m.toNat % 8 := by
  simp [mapPage, toNat_bitRange_zero]

theorem access_mapLargePage : (mapLargePage m pa e).readable = true ∧
    (mapLargePage m pa e).writable = true ∧ (mapLargePage m pa e).executable = true := by
  simp [mapLargePage]

theorem toNat_memoryType_mapLargePage : (mapLargePage m pa e).memoryType.toNat = m.toNat % 8 := by
  simp [mapLargePage, toNat_bitRange_zero]

/-- A 2MB leaf written by `build_identity` keeps bit 6 of the entry it overwrites. -/
theorem getLsbD_six_mapLargePage : (mapLargePage m pa e).bits.getLsbD 6 = e.bits.getLsbD 6 := by
  simp only [mapLargePage, Entry.setReadable, Entry.setWritable, Entry.setExecutable,
    Entry.setMemoryType, Entry.setLarge, Entry.setPfn, setBit,
    getLsbD_setBitRange (show 51 < 64 by decide), getLsbD_setBitRange (show 7 < 64 by decide),
    getLsbD_setBitRange (show 5 < 64 by decide), getLsbD_setBitRange (show 2 < 64 by decide),
    getLsbD_setBitRange (show 1 < 64 by decide), getLsbD_setBitRange (show 0 < 64 by decide)]
  rw [if_neg (by omega), if_neg (by omega), if_neg (by omega), if_neg (by omega),
    if_neg (by omega), if_neg (by omega)]

theorem toNat_pfn_mapLargePage (h : pa.toNat / 4096 < 2 ^ 40) :
    (mapLargePage m pa e).pfn.toNat = pa.toNat / 4096 := by
  simp [mapLargePage, toNat_pfnField h]

end MapPage

theorem toNat_memoryType_lt (e : Entry) : e.memoryType.toNat < 8 := by
  rw [Entry.toNat_memoryType]; exact Nat.mod_lt _ (by decide)

section SplitPde

variable (L : Layout) (m : BitVec 64) (k : Fin 64) (e : Entry)

@[simp] theorem large_splitPde : (splitPde L m k e).large = false := by
  simp [splitPde]

theorem follow_splitPde : L.follow (splitPde L m k e) = some (.pt k) :=
  follow_setPfn L _ (by simp [Entry.present])

theorem present_splitPde : (splitPde L m k e).readable = true ∧
    (splitPde L m k e).writable = true ∧ (splitPde L m k e).executable = true := by
  simp [splitPde]

theorem toNat_memoryType_splitPde : (splitPde L m k e).memoryType.toNat = m.toNat % 8 := by
  simp [splitPde, toNat_bitRange_zero]

/-- The PD entry of a split keeps bit 6 of the large entry it replaces. -/
theorem getLsbD_six_splitPde : (splitPde L m k e).bits.getLsbD 6 = e.bits.getLsbD 6 := by
  simp only [splitPde, Entry.setReadable, Entry.setWritable, Entry.setExecutable,
    Entry.setMemoryType, Entry.setLarge, Entry.setPfn, setBit,
    getLsbD_setBitRange (show 51 < 64 by decide), getLsbD_setBitRange (show 7 < 64 by decide),
    getLsbD_setBitRange (show 5 < 64 by decide), getLsbD_setBitRange (show 2 < 64 by decide),
    getLsbD_setBitRange (show 1 < 64 by decide), getLsbD_setBitRange (show 0 < 64 by decide)]
  rw [if_neg (by omega), if_neg (by omega), if_neg (by omega), if_neg (by omega),
    if_neg (by omega), if_neg (by omega), getLsbD_unmap2mb e (.inl rfl)]

/-- The `unmap_2mb` call of `split_2mb_to_4kb` has no effect on the PD entry the split leaves:
the split writes again every bit `unmap_2mb` clears, and `unmap_2mb` writes no other bit, so the
entry is the same whether the call clears it or returns early on an entry that is not readable. -/
theorem splitPde_eq_without_unmap2mb :
    splitPde L m k e = (((((e.setReadable true).setWritable true).setExecutable true).setMemoryType
      m |>.setLarge false).setPfn (L.addr (.pt k) >>> basePageShift)) := by
  apply Entry.ext_bits
  intro i
  have h := fun i (hi : i = 6 ∨ 8 ≤ i ∧ i ≤ 11 ∨ 51 < i) => getLsbD_unmap2mb_of_outside e hi
  simp only [splitPde, Entry.setReadable, Entry.setWritable, Entry.setExecutable,
    Entry.setMemoryType, Entry.setLarge, Entry.setPfn, setBit]
  exact getLsbD_setBitRange_congr (by decide) (getLsbD_setBitRange_congr (by decide)
    (getLsbD_setBitRange_congr (by decide) (getLsbD_setBitRange_congr (by decide)
      (getLsbD_setBitRange_congr (by decide) (getLsbD_setBitRange_congr (by decide) h))))) i
    (by omega)

end SplitPde

end Ept

end IllusionEpt
