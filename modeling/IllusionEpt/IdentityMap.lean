import IllusionEpt.Walk

/-!
# What `build_identity` maps

The closed form of `buildIdentity_eq_ok_iff`, started from a zeroed `Ept`, read
through the EPT walk: every address below 512 GiB maps to itself with full
permissions, through `pt[0]` in the first 2MB and through a 2MB leaf above it,
and nothing above 512 GiB is mapped.

The translation below 512 GiB is proved first from any start whose upper
tables end up as the walk needs them and whose `pd[0][0]` is not a 2MB leaf:
`build_identity` points that entry at `pt[0]` but never clears its large flag.
-/

namespace IllusionEpt

set_option autoImplicit false

open BitVec

theorem toNat_bitRange_zero (v : BitVec 64) {w : Nat} (hw : w < 64) :
    (bitRange v w 0).toNat = v.toNat % 2 ^ (w + 1) := by
  simp [toNat_bitRange v hw (Nat.zero_le w)]

theorem toNat_toU64_mod (m : MemoryType) : m.toU64.toNat % 8 = m.code.val := by
  simp [MemoryType.toU64]
  omega

/-- A page frame number that fits the 40-bit field reads back unchanged. -/
theorem toNat_pfnField {pa : BitVec 64} (h : pa.toNat / 4096 < 2 ^ 40) :
    (bitRange (pa >>> 12) 39 0).toNat = pa.toNat / 4096 := by
  rw [toNat_bitRange_zero _ (by decide)]
  simp only [toNat_ushiftRight, Nat.shiftRight_eq_div_pow]
  exact Nat.mod_eq_of_lt h

namespace Ept

/-- A present entry whose PFN field is written with a table's address leads to that table. -/
theorem follow_setPfn (L : Layout) (t : TableRef) {e : Entry} (h : e.present = true) :
    L.follow (e.setPfn (L.addr t >>> basePageShift)) = some t := by
  have hp : (e.setPfn (L.addr t >>> basePageShift)).pfn.toNat = L.frame t := by
    have := L.toNat_addr_shift t
    have := L.frame_lt t
    simp only [Entry.pfn, Entry.setPfn]
    rw [bitRange_setBitRange_self (by decide) (by decide), toNat_bitRange_zero _ (by decide)]
    omega
  have hpres : (e.setPfn (L.addr t >>> basePageShift)).present = true := by
    simpa [Entry.present] using h
  rw [Layout.follow, if_pos hpres, hp, L.resolve_frame]

theorem follow_pointTo (L : Layout) (t : TableRef) (e : Entry) :
    L.follow (pointTo (L.addr t) e) = some t :=
  follow_setPfn L t (by simp [Entry.present])

theorem large_pointTo (addr : BitVec 64) (e : Entry) : (pointTo addr e).large = e.large := by
  simp [pointTo]

/-- The translation a full-permission 4KB leaf gives: its frame, and the three bits of the type
that fit the field. -/
theorem ofEntry_mapPage (memoryType : BitVec 64) {pa : BitVec 64} (h : pa.toNat / 4096 < 2 ^ 40)
    (e : Entry) (offset : Nat) :
    Translation.ofEntry (mapPage memoryType pa e) offset =
      ⟨pa.toNat / 4096 * 4096 + offset, true, true, true, memoryType.toNat % 8⟩ := by
  simp [Translation.ofEntry, mapPage, toNat_pfnField h, toNat_bitRange_zero]

theorem ofEntry_mapLargePage (memoryType : BitVec 64) {pa : BitVec 64}
    (h : pa.toNat / 4096 < 2 ^ 40) (e : Entry) (offset : Nat) :
    Translation.ofEntry (mapLargePage memoryType pa e) offset =
      ⟨pa.toNat / 4096 * 4096 + offset, true, true, true, memoryType.toNat % 8⟩ := by
  simp [Translation.ofEntry, mapLargePage, toNat_pfnField h, toNat_bitRange_zero]

variable (L : Layout) (find : PaRange → Option MemoryType)

section From

variable {s : Ept}

/-- After `build_identity` on `s`, the upper tables are those of the walk, provided only `pml4[0]`
of `s` is present: `build_identity` writes no other PML4 entry. -/
theorem upperTables_identityUpTo (h4 : ∀ i, i ≠ 0 → (s.pml4.entries i).present = false) (b c : Nat) :
    UpperTables L (identityUpTo L find s 512 b c) where
  pml4_root := by simpa using follow_pointTo L .pdpt (s.pml4.entries 0)
  pml4_other i hi := by simpa [hi] using h4 i hi
  pdpt i := by simpa using follow_pointTo L (.pd i) (s.pdpt.entries i)

/-- Below 2MB the walk ends in `pt[0]`, at the identity frame with the type of the 4KB range, from
any `s` whose `pd[0][0]` is not a 2MB leaf: `build_identity` points that entry at `pt[0]` but never
clears its large flag. -/
theorem translate_identityUpTo_low (hu : UpperTables L (identityUpTo L find s 512 (512 * 512) 512))
    (hl : (s.pde 0 0).large = false) (hres : Resolved find) {x : Nat} (hx : x < 2 ^ 21) :
    (identityUpTo L find s 512 (512 * 512) 512).walk L x = some ⟨.pt 0, index x 12, false⟩ ∧
      ∃ m, find (pageRange (x / 4096)) = some m ∧
        (identityUpTo L find s 512 (512 * 512) 512).translate L x =
          some ⟨x, true, true, true, m.code.val⟩ := by
  have h39 : index x 39 = 0 := Fin.ext (by simp [index]; omega)
  have h30 : index x 30 = 0 := Fin.ext (by simp [index]; omega)
  have h21 : index x 21 = 0 := Fin.ext (by simp [index]; omega)
  have h12 : (index x 12).val = x / 4096 := by simp [index]; omega
  obtain ⟨m, hm⟩ := Option.isSome_iff_exists.mp (hres.1 (x / 4096) (by omega))
  have hpde : (identityUpTo L find s 512 (512 * 512) 512).pde 0 0 =
      pointTo (L.addr (.pt 0)) (s.pde 0 0) := by
    simp [identityPde]
  have hwalk : (identityUpTo L find s 512 (512 * 512) 512).walk L x =
      some ⟨.pt 0, index x 12, false⟩ := by
    simp only [walk_eq_pdWalk hu, h39, h30, h21, pdWalk, hpde, large_pointTo, hl, follow_pointTo,
      if_true]
    rfl
  refine ⟨hwalk, m, hm, ?_⟩
  have hpa : (BitVec.ofNat 64 (x / 4096 * basePageSize)).toNat / 4096 = x / 4096 := by
    simp; omega
  have hpte : (identityUpTo L find s 512 (512 * 512) 512).pte 0 (index x 12) =
      mapPage m.toU64 (.ofNat 64 (x / 4096 * basePageSize)) (s.pte 0 (index x 12)) := by
    rw [pte_identityUpTo, if_pos ⟨rfl, (index x 12).isLt⟩, identityPte, h12, hm]
  simp only [translate, hwalk, Option.map_some', table]
  show some (Translation.ofEntry ((identityUpTo L find s 512 (512 * 512) 512).pte 0 (index x 12)) _) = _
  rw [hpte, ofEntry_mapPage _ (by rw [hpa]; omega), hpa, toNat_toU64_mod]
  simp only [Bool.false_eq_true, if_false, Option.some.injEq, Translation.mk.injEq, and_true]
  exact Nat.div_add_mod' x 4096

/-- From 2MB to 512 GiB the walk ends in a 2MB leaf, at the identity frame with the type of the
2MB range, from any `s`: `build_identity` writes every field of those PD entries that the walk
reads. -/
theorem translate_identityUpTo_high (hu : UpperTables L (identityUpTo L find s 512 (512 * 512) 512))
    (hres : Resolved find) {x : Nat} (hx1 : 2 ^ 21 ≤ x) (hx2 : x < 2 ^ 39) :
    (identityUpTo L find s 512 (512 * 512) 512).walk L x =
        some ⟨.pd (index x 30), index x 21, true⟩ ∧
      ∃ m, find (largeRange (x / 2 ^ 21)) = some m ∧
        (identityUpTo L find s 512 (512 * 512) 512).translate L x =
          some ⟨x, true, true, true, m.code.val⟩ := by
  have h39 : index x 39 = 0 := Fin.ext (by simp [index]; omega)
  have hℓ : 512 * (index x 30).val + (index x 21).val = x / 2 ^ 21 := by simp [index]; omega
  obtain ⟨m, hm⟩ := Option.isSome_iff_exists.mp (hres.2 (x / 2 ^ 21) (by omega) (by omega))
  have hpde : (identityUpTo L find s 512 (512 * 512) 512).pde (index x 30) (index x 21) =
      mapLargePage m.toU64 (.ofNat 64 (x / 2 ^ 21 * largePageSize))
        (s.pde (index x 30) (index x 21)) := by
    rw [pde_identityUpTo, if_pos (by omega), hℓ, identityPde, if_neg (by omega), hm]
  have hlarge :
      ((identityUpTo L find s 512 (512 * 512) 512).pde (index x 30) (index x 21)).large = true := by
    rw [hpde]; simp [mapLargePage]
  have hwalk : (identityUpTo L find s 512 (512 * 512) 512).walk L x =
      some ⟨.pd (index x 30), index x 21, true⟩ := by
    simp only [walk_eq_pdWalk hu, h39, pdWalk, hlarge, if_true]
  refine ⟨hwalk, m, hm, ?_⟩
  have hpa : (BitVec.ofNat 64 (x / 2 ^ 21 * largePageSize)).toNat / 4096 = x / 2 ^ 21 * 512 := by
    simp; omega
  simp only [translate, hwalk, Option.map_some', table]
  show some (Translation.ofEntry
    ((identityUpTo L find s 512 (512 * 512) 512).pde (index x 30) (index x 21)) _) = _
  rw [hpde, ofEntry_mapLargePage _ (by rw [hpa]; omega), hpa, toNat_toU64_mod]
  simp only [if_true, Option.some.injEq, Translation.mk.injEq, and_true]
  rw [Nat.mul_assoc]
  exact Nat.div_add_mod' x (2 ^ 21)

end From

/-- The state a successful `build_identity` leaves in a zeroed `Ept`. -/
def identity : Ept := identityUpTo L find zeroed 512 (512 * 512) 512

theorem buildIdentity_zeroed (hres : Resolved find) :
    buildIdentity L find zeroed = (.ok (), identity L find) :=
  (buildIdentity_eq_ok_iff L find _ _).2 ⟨hres, rfl⟩

/-- `build_identity` returns `Ok` exactly when `find` classifies every range it asks about. -/
theorem buildIdentity_fst_eq_ok_iff (s : Ept) :
    (buildIdentity L find s).1 = .ok () ↔ Resolved find := by
  refine ⟨fun h => ?_, fun h => by rw [(buildIdentity_eq_ok_iff L find s _).2 ⟨h, rfl⟩]⟩
  rcases hb : buildIdentity L find s with ⟨_ | ⟨⟩, t⟩
  · rw [hb] at h; cases h
  · exact ((buildIdentity_eq_ok_iff L find s t).1 hb).1

theorem buildIdentity_eq_error (h : ¬Resolved find) (s : Ept) :
    ∃ e t, buildIdentity L find s = (.error e, t) := by
  rcases hb : buildIdentity L find s with ⟨e | ⟨⟩, t⟩
  · exact ⟨e, t, rfl⟩
  · exact absurd ((buildIdentity_fst_eq_ok_iff L find s).1 (by rw [hb])) h

theorem pde_identity (i j : Fin 512) :
    (identity L find).pde i j = identityPde L find (512 * i.val + j.val) ⟨0⟩ := by
  rw [identity, pde_identityUpTo, if_pos (by omega)]; rfl

theorem pte_identity (n : Fin 512) : (identity L find).pte 0 n = identityPte find n ⟨0⟩ := by
  rw [identity, pte_identityUpTo, if_pos ⟨rfl, n.isLt⟩]; rfl

theorem pte_identity_of_ne {k : Fin 64} (hk : k ≠ 0) (n : Fin 512) :
    (identity L find).pte k n = ⟨0⟩ := by
  rw [identity, pte_identityUpTo, if_neg (fun h => hk h.1)]; rfl

theorem upperTables_identity : UpperTables L (identity L find) :=
  upperTables_identityUpTo L find (s := zeroed) (fun _ _ => by simp [zeroed, Entry.present]) _ _

/-- Below 2MB the walk ends in `pt[0]`, at the identity frame with the type of the 4KB range. -/
theorem translate_identity_low (hres : Resolved find) {x : Nat} (hx : x < 2 ^ 21) :
    (identity L find).walk L x = some ⟨.pt 0, index x 12, false⟩ ∧
      ∃ m, find (pageRange (x / 4096)) = some m ∧
        (identity L find).translate L x = some ⟨x, true, true, true, m.code.val⟩ :=
  translate_identityUpTo_low L find (upperTables_identity L find) rfl hres hx

/-- From 2MB to 512 GiB the walk ends in a 2MB leaf, at the identity frame with the type of the
2MB range. -/
theorem translate_identity_high (hres : Resolved find) {x : Nat} (hx1 : 2 ^ 21 ≤ x)
    (hx2 : x < 2 ^ 39) :
    (identity L find).walk L x = some ⟨.pd (index x 30), index x 21, true⟩ ∧
      ∃ m, find (largeRange (x / 2 ^ 21)) = some m ∧
        (identity L find).translate L x = some ⟨x, true, true, true, m.code.val⟩ :=
  translate_identityUpTo_high L find (upperTables_identity L find) hres hx1 hx2

/-- Above 512 GiB the PML4 entry of the address is not present, so nothing is mapped. -/
theorem translate_identity_above {x : Nat} (hx1 : 2 ^ 39 ≤ x) (hx2 : x < 2 ^ 48) :
    ((identity L find).pml4.entries (index x 39)).present = false ∧
      (identity L find).translate L x = none := by
  have h39 : index x 39 ≠ 0 := fun h => by
    have := congrArg Fin.val h; simp [index] at this; omega
  exact ⟨(upperTables_identity L find).pml4_other _ h39,
    by simp [translate_eq (upperTables_identity L find), h39]⟩

end Ept

/-- `build_identity` on a zeroed `Ept` succeeds exactly when `find` classifies every range it asks
about, and then maps every address below 512 GiB to itself with full rights and the type of its
4KB or 2MB range, and nothing from 512 GiB to 256 TiB. -/
theorem buildIdentity_identity_map (L : Layout) (find : PaRange → Option MemoryType) :
    ((Ept.buildIdentity L find Ept.zeroed).1 = .ok () ↔ Ept.Resolved find) ∧
    ∀ s, Ept.buildIdentity L find Ept.zeroed = (.ok (), s) →
      (∀ x < 2 ^ 21, s.walk L x = some ⟨.pt 0, index x 12, false⟩ ∧
        ∃ m, find (pageRange (x / 4096)) = some m ∧
          s.translate L x = some ⟨x, true, true, true, m.code.val⟩) ∧
      (∀ x, 2 ^ 21 ≤ x → x < 2 ^ 39 → s.walk L x = some ⟨.pd (index x 30), index x 21, true⟩ ∧
        ∃ m, find (largeRange (x / 2 ^ 21)) = some m ∧
          s.translate L x = some ⟨x, true, true, true, m.code.val⟩) ∧
      (∀ x, 2 ^ 39 ≤ x → x < 2 ^ 48 →
        (s.pml4.entries (index x 39)).present = false ∧ s.translate L x = none) := by
  refine ⟨Ept.buildIdentity_fst_eq_ok_iff L find _, fun s hs => ?_⟩
  obtain ⟨hres, rfl⟩ := (Ept.buildIdentity_eq_ok_iff L find _ s).1 hs
  exact ⟨fun x hx => Ept.translate_identity_low L find hres hx,
    fun x h1 h2 => Ept.translate_identity_high L find hres h1 h2,
    fun x h1 h2 => Ept.translate_identity_above L find h1 h2⟩

end IllusionEpt
