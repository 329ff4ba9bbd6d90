import IllusionEpt.Fields

/-!
# When the three operations succeed, and what a rejection leaves

For each of `split_2mb_to_4kb`, `modify_page_permissions` and
`remap_gpa_to_hpa`: when it returns `Ok` and which state it then leaves, and
that a rejected call writes nothing. Later proofs start from these and never
unfold the operations. From them: a remap and a permission edit commute, a
second edit or remap of a page overrides the first, and once a 2MB page is
split a second split of it fails while a remap in it passes the large page guard.
-/

namespace IllusionEpt

set_option autoImplicit false

open BitVec

/-- The alignment test of `modify_page_permissions` passes exactly for 4KB-aligned addresses: a
2MB-aligned address is 4KB-aligned already. -/
theorem modify_aligned_iff (g : BitVec 64) :
    (!isLargePageAligned g && !isBasePageAligned g) = false ↔ g.toNat % 4096 = 0 := by
  have h1 := isLargePageAligned_iff g
  have h2 := isBasePageAligned_iff g
  cases hl : isLargePageAligned g <;> cases hb : isBasePageAligned g <;> simp_all; omega

theorem fst_eq_ok_iff {σ : Type} (r : Outcome σ) : r.1 = .ok () ↔ ∃ t, r = (.ok (), t) :=
  ⟨fun h => ⟨r.2, Prod.ext h rfl⟩, fun ⟨_, h⟩ => by rw [h]⟩

namespace Ept

variable (L : Layout) (s : Ept) (g h : BitVec 64) (a : AccessType) (idx : Nat)

theorem split2mbTo4kb_eq_ok_iff (t : Ept) :
    split2mbTo4kb L s g idx = (.ok (), t) ↔
      ∃ k : Fin 64, k.val = idx ∧ 0 < idx ∧ (s.pde (pdptIndex g) (pdIndex g)).large = true ∧
        t = splitWrite L s g (pdptIndex g) (pdIndex g) k := by
  unfold split2mbTo4kb
  split_ifs with h1 h2
  · simp only [Prod.mk.injEq, reduceCtorEq, false_and, false_iff, not_exists, not_and]
    omega
  · simp only [Bool.not_eq_true'] at h2
    refine iff_of_false (by simp) ?_
    rintro ⟨k, -, -, hl, -⟩
    rw [h2] at hl
    cases hl
  · simp only [Bool.not_eq_true', Bool.not_eq_false] at h2
    simp only [Prod.mk.injEq, true_and, h2]
    constructor
    · rintro rfl; exact ⟨_, rfl, by omega, rfl⟩
    · rintro ⟨k, rfl, -, rfl⟩; rfl

theorem split2mbTo4kb_snd_of_ne_ok (hr : (split2mbTo4kb L s g idx).1 ≠ .ok ()) :
    (split2mbTo4kb L s g idx).2 = s := by
  unfold split2mbTo4kb at hr ⊢
  split_ifs at hr ⊢
  · rfl
  · rfl
  · exact absurd rfl hr

/-- The state a successful `modify_page_permissions` leaves: the permissions of the PD entry
when it is large, else of entry `pt_index` of `pt[k]`. -/
def modifyWrite (s : Ept) (g : BitVec 64) (a : AccessType) (k : Fin 64) : Ept :=
  if (s.pde (pdptIndex g) (pdIndex g)).large then
    s.setPde (pdptIndex g) (pdIndex g) (setAccess (s.pde (pdptIndex g) (pdIndex g)) a)
  else s.setPte k (ptIndex g) (setAccess (s.pte k (ptIndex g)) a)

theorem modifyPagePermissions_eq_ok_iff (t : Ept) :
    modifyPagePermissions s g a idx = (.ok (), t) ↔
      ∃ k : Fin 64, k.val = idx ∧ 0 < idx ∧ g.toNat % 4096 = 0 ∧ t = modifyWrite s g a k := by
  unfold modifyPagePermissions
  dsimp only
  split_ifs with h1 h2 h3
  · simp only [Prod.mk.injEq, reduceCtorEq, false_and, false_iff, not_exists, not_and]
    omega
  · have := (modify_aligned_iff g).not.mp (by simpa using h2)
    refine iff_of_false (by simp) ?_
    rintro ⟨k, -, -, hg, -⟩
    exact this hg
  all_goals
    have hal := (modify_aligned_iff g).mp (by simpa using h2)
    simp only [Prod.mk.injEq, true_and]
    constructor
    · rintro rfl
      exact ⟨⟨idx, by omega⟩, rfl, by omega, hal, by simp only [modifyWrite, h3]; rfl⟩
    · rintro ⟨k, rfl, -, -, rfl⟩
      simp only [modifyWrite, h3]; rfl

theorem modifyPagePermissions_snd_of_ne_ok (hr : (modifyPagePermissions s g a idx).1 ≠ .ok ()) :
    (modifyPagePermissions s g a idx).2 = s := by
  unfold modifyPagePermissions at hr ⊢
  dsimp only at hr ⊢
  split_ifs at hr ⊢
  · rfl
  · rfl
  · exact absurd rfl hr
  · exact absurd rfl hr

/-- The state a successful `remap_gpa_to_hpa` leaves: the PFN of entry `pt_index` of `pt[k]`. -/
def remapWrite (s : Ept) (g h : BitVec 64) (k : Fin 64) : Ept :=
  s.setPte k (ptIndex g) ((s.pte k (ptIndex g)).setPfn (h >>> basePageShift))

theorem remapGpaToHpa_eq_ok_iff (t : Ept) :
    remapGpaToHpa s g h idx = (.ok (), t) ↔
      ∃ k : Fin 64, k.val = idx ∧ 0 < idx ∧ g.toNat % 4096 = 0 ∧ h.toNat % 4096 = 0 ∧
        (s.pde (pdptIndex g) (pdIndex g)).large = false ∧ t = remapWrite s g h k := by
  have hg := isBasePageAligned_iff g
  have hh := isBasePageAligned_iff h
  unfold remapGpaToHpa
  split_ifs with h1 h2 h3
  · simp only [Prod.mk.injEq, reduceCtorEq, false_and, false_iff, not_exists, not_and]
    omega
  · simp only [Prod.mk.injEq, reduceCtorEq, false_and, false_iff, not_exists, not_and]
    intro k _ _ hg' hh'
    cases hbg : isBasePageAligned g <;> cases hbh : isBasePageAligned h <;> simp_all
  · refine iff_of_false (by simp) ?_
    rintro ⟨k, -, -, -, -, hl, -⟩
    rw [h3] at hl
    cases hl
  · simp only [Bool.or_eq_true, Bool.not_eq_true', not_or, Bool.not_eq_false] at h2
    simp only [Bool.not_eq_true] at h3
    simp only [Prod.mk.injEq, true_and]
    constructor
    · rintro rfl; exact ⟨⟨idx, by omega⟩, rfl, by omega, hg.mp h2.1, hh.mp h2.2, h3, rfl⟩
    · rintro ⟨k, rfl, -, -, -, -, rfl⟩; rfl

theorem remapGpaToHpa_snd_of_ne_ok (hr : (remapGpaToHpa s g h idx).1 ≠ .ok ()) :
    (remapGpaToHpa s g h idx).2 = s := by
  unfold remapGpaToHpa at hr ⊢
  split_ifs at hr ⊢
  · rfl
  · rfl
  · rfl
  · exact absurd rfl hr

theorem split2mbTo4kb_fst_eq_ok_iff :
    (split2mbTo4kb L s g idx).1 = .ok () ↔
      0 < idx ∧ idx < 64 ∧ (s.pde (pdptIndex g) (pdIndex g)).large = true := by
  simp only [fst_eq_ok_iff, split2mbTo4kb_eq_ok_iff]
  constructor
  · rintro ⟨_, k, rfl, h0, hl, -⟩; exact ⟨h0, k.isLt, hl⟩
  · rintro ⟨h0, h64, hl⟩; exact ⟨_, ⟨idx, h64⟩, rfl, h0, hl, rfl⟩

theorem modifyPagePermissions_fst_eq_ok_iff :
    (modifyPagePermissions s g a idx).1 = .ok () ↔ 0 < idx ∧ idx < 64 ∧ g.toNat % 4096 = 0 := by
  simp only [fst_eq_ok_iff, modifyPagePermissions_eq_ok_iff]
  constructor
  · rintro ⟨_, k, rfl, h0, hg, -⟩; exact ⟨h0, k.isLt, hg⟩
  · rintro ⟨h0, h64, hg⟩; exact ⟨_, ⟨idx, h64⟩, rfl, h0, hg, rfl⟩

theorem remapGpaToHpa_fst_eq_ok_iff :
    (remapGpaToHpa s g h idx).1 = .ok () ↔ 0 < idx ∧ idx < 64 ∧ g.toNat % 4096 = 0 ∧
      h.toNat % 4096 = 0 ∧ (s.pde (pdptIndex g) (pdIndex g)).large = false := by
  simp only [fst_eq_ok_iff, remapGpaToHpa_eq_ok_iff]
  constructor
  · rintro ⟨_, k, rfl, h0, hg, hh, hl, -⟩; exact ⟨h0, k.isLt, hg, hh, hl⟩
  · rintro ⟨h0, h64, hg, hh, hl⟩; exact ⟨_, ⟨idx, h64⟩, rfl, h0, hg, hh, hl, rfl⟩

theorem split2mbTo4kb_snd_of_ok (hr : (split2mbTo4kb L s g idx).1 = .ok ()) :
    ∃ k : Fin 64, k.val = idx ∧ (s.pde (pdptIndex g) (pdIndex g)).large = true ∧
      (split2mbTo4kb L s g idx).2 = splitWrite L s g (pdptIndex g) (pdIndex g) k := by
  obtain ⟨t, ht⟩ := (fst_eq_ok_iff _).1 hr
  obtain ⟨k, hk, -, hl, rfl⟩ := (split2mbTo4kb_eq_ok_iff L s g idx t).1 ht
  exact ⟨k, hk, hl, by rw [ht]⟩

theorem modifyPagePermissions_snd_of_ok (hr : (modifyPagePermissions s g a idx).1 = .ok ()) :
    ∃ k : Fin 64, k.val = idx ∧ (modifyPagePermissions s g a idx).2 = modifyWrite s g a k := by
  obtain ⟨t, ht⟩ := (fst_eq_ok_iff _).1 hr
  obtain ⟨k, hk, -, -, rfl⟩ := (modifyPagePermissions_eq_ok_iff s g a idx t).1 ht
  exact ⟨k, hk, by rw [ht]⟩

theorem remapGpaToHpa_snd_of_ok (hr : (remapGpaToHpa s g h idx).1 = .ok ()) :
    ∃ k : Fin 64, k.val = idx ∧ (remapGpaToHpa s g h idx).2 = remapWrite s g h k := by
  obtain ⟨t, ht⟩ := (fst_eq_ok_iff _).1 hr
  obtain ⟨k, hk, -, -, -, -, rfl⟩ := (remapGpaToHpa_eq_ok_iff s g h idx t).1 ht
  exact ⟨k, hk, by rw [ht]⟩

theorem split2mbTo4kb_snd_cases : (split2mbTo4kb L s g idx).2 = s ∨
    ∃ k : Fin 64, k.val = idx ∧ (s.pde (pdptIndex g) (pdIndex g)).large = true ∧
      (split2mbTo4kb L s g idx).2 = splitWrite L s g (pdptIndex g) (pdIndex g) k := by
  by_cases hr : (split2mbTo4kb L s g idx).1 = .ok ()
  · exact .inr (split2mbTo4kb_snd_of_ok L s g idx hr)
  · exact .inl (split2mbTo4kb_snd_of_ne_ok L s g idx hr)

theorem modifyPagePermissions_snd_cases : (modifyPagePermissions s g a idx).2 = s ∨
    ∃ k : Fin 64, k.val = idx ∧ (modifyPagePermissions s g a idx).2 = modifyWrite s g a k := by
  by_cases hr : (modifyPagePermissions s g a idx).1 = .ok ()
  · exact .inr (modifyPagePermissions_snd_of_ok s g a idx hr)
  · exact .inl (modifyPagePermissions_snd_of_ne_ok s g a idx hr)

theorem remapGpaToHpa_snd_cases : (remapGpaToHpa s g h idx).2 = s ∨
    ∃ k : Fin 64, k.val = idx ∧ (remapGpaToHpa s g h idx).2 = remapWrite s g h k := by
  by_cases hr : (remapGpaToHpa s g h idx).1 = .ok ()
  · exact .inr (remapGpaToHpa_snd_of_ok s g h idx hr)
  · exact .inl (remapGpaToHpa_snd_of_ne_ok s g h idx hr)

section Commute

variable {s} {g h g' : BitVec 64} {a : AccessType} {i j : Nat}

/-- A remap writes no PD entry. -/
theorem pde_remapGpaToHpa (i' j' : Fin 512) : (remapGpaToHpa s g h i).2.pde i' j' = s.pde i' j' := by
  by_cases hr : (remapGpaToHpa s g h i).1 = .ok ()
  · obtain ⟨k, -, hk⟩ := remapGpaToHpa_snd_of_ok s g h i hr
    simp [hk, remapWrite]
  · rw [remapGpaToHpa_snd_of_ne_ok s g h i hr]

/-- A permission edit writes no large flag. -/
theorem large_modifyPagePermissions (i' j' : Fin 512) :
    ((modifyPagePermissions s g a j).2.pde i' j').large = (s.pde i' j').large := by
  by_cases hr : (modifyPagePermissions s g a j).1 = .ok ()
  · obtain ⟨k, -, hk⟩ := modifyPagePermissions_snd_of_ok s g a j hr
    rw [hk, modifyWrite]
    split_ifs
    · rw [pde_setPde]; split_ifs with he
      · obtain ⟨rfl, rfl⟩ := he; exact large_setAccess _ _
      · rfl
    · rfl
  · rw [modifyPagePermissions_snd_of_ne_ok s g a j hr]

/-- The result of a remap reads the state only through the large flag of its PD entry. -/
theorem remapGpaToHpa_fst_congr {t : Ept}
    (hl : (t.pde (pdptIndex g) (pdIndex g)).large = (s.pde (pdptIndex g) (pdIndex g)).large) :
    (remapGpaToHpa t g h i).1 = (remapGpaToHpa s g h i).1 := by
  simp only [remapGpaToHpa, hl]
  split_ifs <;> rfl

theorem modifyPagePermissions_fst_congr {t : Ept}
    (hl : (t.pde (pdptIndex g) (pdIndex g)).large = (s.pde (pdptIndex g) (pdIndex g)).large) :
    (modifyPagePermissions t g a j).1 = (modifyPagePermissions s g a j).1 := by
  simp only [modifyPagePermissions, hl]
  split_ifs <;> rfl

theorem modifyWrite_remapWrite (k k' : Fin 64) :
    modifyWrite (remapWrite s g h k) g' a k' = remapWrite (modifyWrite s g' a k') g h k := by
  unfold modifyWrite remapWrite
  simp only [pde_setPte]
  split_ifs
  · apply ext_entries <;> intros <;> simp
  · by_cases he : k' = k ∧ ptIndex g' = ptIndex g
    · obtain ⟨rfl, hn⟩ := he
      apply ext_entries <;> intros <;>
        simp only [setPte_pml4, setPte_pdpt, pde_setPte, pte_setPte, hn, eq_self_iff_true, true_and, ↓reduceIte,
          setAccess_setPfn]
      split_ifs <;> rfl
    · have he' : ¬(k = k' ∧ ptIndex g = ptIndex g') := fun h' => he ⟨h'.1.symm, h'.2.symm⟩
      simp only [pte_setPte, if_neg he, if_neg he']
      exact setPte_comm s k k' _ _ _ _ he'

end Commute

section Overwrite

variable {s} {g h h' : BitVec 64} {a b : AccessType} {idx : Nat}

theorem modifyWrite_modifyWrite (k : Fin 64) :
    modifyWrite (modifyWrite s g a k) g b k = modifyWrite s g b k := by
  unfold modifyWrite
  cases hl : (s.pde (pdptIndex g) (pdIndex g)).large
  · simp only [hl, Bool.false_eq_true, if_false, if_true, pde_setPte, pte_setPte, and_true,
      setAccess_setAccess, setPte_setPte]
  · simp only [hl, if_true, pde_setPde, and_true, large_setAccess, setAccess_setAccess, setPde_setPde]

theorem remapWrite_remapWrite (k : Fin 64) :
    remapWrite (remapWrite s g h k) g h' k = remapWrite s g h' k := by
  simp [remapWrite]

/-- A second permission edit of the same page with the same `pt_table_index` overrides the first:
the tables and the result are those of the second edit alone. -/
theorem modifyPagePermissions_overrides :
    modifyPagePermissions (modifyPagePermissions s g a idx).2 g b idx =
      modifyPagePermissions s g b idx := by
  have hfst : (modifyPagePermissions (modifyPagePermissions s g a idx).2 g b idx).1 =
      (modifyPagePermissions s g b idx).1 :=
    modifyPagePermissions_fst_congr (large_modifyPagePermissions _ _)
  refine Prod.ext hfst ?_
  by_cases hr : (modifyPagePermissions s g a idx).1 = .ok ()
  · have hr' := (modifyPagePermissions_fst_eq_ok_iff s g b idx).2
      ((modifyPagePermissions_fst_eq_ok_iff s g a idx).1 hr)
    obtain ⟨k, rfl, h1⟩ := modifyPagePermissions_snd_of_ok s g a idx hr
    obtain ⟨k', hk', h2⟩ := modifyPagePermissions_snd_of_ok s g b _ hr'
    obtain ⟨k'', hk'', h3⟩ := modifyPagePermissions_snd_of_ok _ g b _ (hfst.trans hr')
    rw [h3, h1, h2, Fin.ext hk', Fin.ext hk'', modifyWrite_modifyWrite]
  · rw [modifyPagePermissions_snd_of_ne_ok s g a idx hr]

/-- A second remap of the same page with the same `pt_table_index`, to an aligned host page,
overrides the first: the tables and the result are those of the second remap alone. -/
theorem remapGpaToHpa_overrides (hh' : h'.toNat % 4096 = 0) :
    remapGpaToHpa (remapGpaToHpa s g h idx).2 g h' idx = remapGpaToHpa s g h' idx := by
  have hfst : (remapGpaToHpa (remapGpaToHpa s g h idx).2 g h' idx).1 =
      (remapGpaToHpa s g h' idx).1 :=
    remapGpaToHpa_fst_congr (by rw [pde_remapGpaToHpa])
  refine Prod.ext hfst ?_
  by_cases hr : (remapGpaToHpa s g h idx).1 = .ok ()
  · obtain ⟨h0, h64, hg, -, hl⟩ := (remapGpaToHpa_fst_eq_ok_iff s g h idx).1 hr
    have hr' := (remapGpaToHpa_fst_eq_ok_iff s g h' idx).2 ⟨h0, h64, hg, hh', hl⟩
    obtain ⟨k, rfl, h1⟩ := remapGpaToHpa_snd_of_ok s g h idx hr
    obtain ⟨k', hk', h2⟩ := remapGpaToHpa_snd_of_ok s g h' _ hr'
    obtain ⟨k'', hk'', h3⟩ := remapGpaToHpa_snd_of_ok _ g h' _ (hfst.trans hr')
    rw [h3, h1, h2, Fin.ext hk', Fin.ext hk'', remapWrite_remapWrite]
  · rw [remapGpaToHpa_snd_of_ne_ok s g h idx hr]

theorem remapGpaToHpa_overrides_zeroed :
    (0x2000 : BitVec 64).toNat % 4096 = 0 ∧
      remapGpaToHpa (remapGpaToHpa zeroed 0 0x1000 1).2 0 0x2000 1 =
        remapGpaToHpa zeroed 0 0x2000 1 :=
  ⟨by decide, remapGpaToHpa_overrides (by decide)⟩

end Overwrite

section AfterSplit

variable {L s} {g g' h : BitVec 64} {i j : Nat}

/-- A successful split leaves the PD entry of its 2MB page small. -/
theorem large_split2mbTo4kb (hr : (split2mbTo4kb L s g i).1 = .ok ()) :
    ((split2mbTo4kb L s g i).2.pde (pdptIndex g) (pdIndex g)).large = false := by
  obtain ⟨k, -, -, hk⟩ := split2mbTo4kb_snd_of_ok L s g i hr
  rw [hk, pde_splitWrite, if_pos ⟨rfl, rfl⟩, large_splitPde]

/-- Once the 2MB page of `guest_pa` is split, splitting any page in it again fails, with
`PageAlreadySplit` for a valid `pt_table_index`, and leaves the tables as the first split left
them. -/
theorem split2mbTo4kb_after_split (hr : (split2mbTo4kb L s g i).1 = .ok ())
    (hp : pdptIndex g' = pdptIndex g) (hd : pdIndex g' = pdIndex g) :
    split2mbTo4kb L (split2mbTo4kb L s g i).2 g' j =
      (.error (if j = 0 ∨ 64 ≤ j then .invalidPtIndex else .pageAlreadySplit),
        (split2mbTo4kb L s g i).2) := by
  have hl := large_split2mbTo4kb hr
  rw [← hp, ← hd] at hl
  generalize (split2mbTo4kb L s g i).2 = t at hl ⊢
  unfold split2mbTo4kb
  by_cases hj : j = 0 ∨ 64 ≤ j
  · simp only [dif_pos hj, if_pos hj]
  · simp only [dif_neg hj, if_neg hj, hl, Bool.not_false, if_true]

theorem split2mbTo4kb_after_split_identity :
    let L : Layout := ⟨0, rfl, by decide⟩
    let s := identity L fun _ => some .writeBack
    (split2mbTo4kb L s 0x200000 1).1 = .ok () ∧
      pdptIndex (0x201000 : BitVec 64) = pdptIndex 0x200000 ∧
      pdIndex (0x201000 : BitVec 64) = pdIndex 0x200000 ∧
      split2mbTo4kb L (split2mbTo4kb L s 0x200000 1).2 0x201000 2 =
        (.error (if 2 = 0 ∨ 64 ≤ 2 then .invalidPtIndex else .pageAlreadySplit),
          (split2mbTo4kb L s 0x200000 1).2) :=
  ⟨rfl, by decide, by decide, split2mbTo4kb_after_split rfl (by decide) (by decide)⟩

/-- Once the 2MB page of `guest_pa` is split, a remap of any page in it returns `InvalidPtIndex` for
a bad `pt_table_index`, else `UnalignedAddressError` for an unaligned address, else `Ok`: never
`LargePageRemapError`. -/
theorem remapGpaToHpa_fst_after_split (hr : (split2mbTo4kb L s g i).1 = .ok ())
    (hp : pdptIndex g' = pdptIndex g) (hd : pdIndex g' = pdIndex g) :
    (remapGpaToHpa (split2mbTo4kb L s g i).2 g' h j).1 =
      if j = 0 ∨ 64 ≤ j then .error .invalidPtIndex
      else if g'.toNat % 4096 = 0 ∧ h.toNat % 4096 = 0 then .ok ()
      else .error .unalignedAddressError := by
  have hl := large_split2mbTo4kb hr
  rw [← hp, ← hd] at hl
  generalize (split2mbTo4kb L s g i).2 = t at hl ⊢
  have hal : (!isBasePageAligned g' || !isBasePageAligned h) = true ↔
      ¬(g'.toNat % 4096 = 0 ∧ h.toNat % 4096 = 0) := by
    rw [← isBasePageAligned_iff, ← isBasePageAligned_iff]
    cases isBasePageAligned g' <;> cases isBasePageAligned h <;> decide
  unfold remapGpaToHpa
  by_cases hj : j = 0 ∨ 64 ≤ j
  · rw [dif_pos hj, if_pos hj]
  · rw [dif_neg hj, if_neg hj]
    by_cases ha : g'.toNat % 4096 = 0 ∧ h.toNat % 4096 = 0
    · rw [if_neg (mt hal.1 (not_not.2 ha)), if_pos ha, hl, if_neg Bool.false_ne_true]
    · rw [if_pos (hal.2 ha), if_neg ha]

theorem remapGpaToHpa_fst_after_split_identity :
    let L : Layout := ⟨0, rfl, by decide⟩
    let s := identity L fun _ => some .writeBack
    (split2mbTo4kb L s 0x200000 1).1 = .ok () ∧
      pdptIndex (0x201000 : BitVec 64) = pdptIndex 0x200000 ∧
      pdIndex (0x201000 : BitVec 64) = pdIndex 0x200000 ∧
      (remapGpaToHpa (split2mbTo4kb L s 0x200000 1).2 0x201000 0x5000 1).1 =
        if 1 = 0 ∨ 64 ≤ 1 then .error .invalidPtIndex
        else if (0x201000 : BitVec 64).toNat % 4096 = 0 ∧ (0x5000 : BitVec 64).toNat % 4096 = 0 then
          .ok ()
        else .error .unalignedAddressError :=
  ⟨rfl, by decide, by decide, remapGpaToHpa_fst_after_split rfl (by decide) (by decide)⟩

end AfterSplit

end Ept

/-- Each operation returns `Err` exactly when one of its guards fails: a bad `pt_table_index`, an
unaligned address, or the large flag of the PD entry of `guest_pa` the wrong way. A call that
returns `Err` leaves every entry of every table as it was. -/
theorem operations_reject_iff (L : Layout) (s : Ept) (g h : BitVec 64) (a : AccessType)
    (idx : Nat) :
    ((Ept.split2mbTo4kb L s g idx).1 ≠ .ok () ↔
        idx = 0 ∨ 64 ≤ idx ∨ (s.pde (pdptIndex g) (pdIndex g)).large = false) ∧
    ((Ept.modifyPagePermissions s g a idx).1 ≠ .ok () ↔
        idx = 0 ∨ 64 ≤ idx ∨ g.toNat % 4096 ≠ 0) ∧
    ((Ept.remapGpaToHpa s g h idx).1 ≠ .ok () ↔
        idx = 0 ∨ 64 ≤ idx ∨ g.toNat % 4096 ≠ 0 ∨ h.toNat % 4096 ≠ 0 ∨
          (s.pde (pdptIndex g) (pdIndex g)).large = true) ∧
    ((Ept.split2mbTo4kb L s g idx).1 ≠ .ok () → (Ept.split2mbTo4kb L s g idx).2 = s) ∧
    ((Ept.modifyPagePermissions s g a idx).1 ≠ .ok () →
      (Ept.modifyPagePermissions s g a idx).2 = s) ∧
    ((Ept.remapGpaToHpa s g h idx).1 ≠ .ok () → (Ept.remapGpaToHpa s g h idx).2 = s) := by
  refine ⟨?_, ?_, ?_, Ept.split2mbTo4kb_snd_of_ne_ok L s g idx,
    Ept.modifyPagePermissions_snd_of_ne_ok s g a idx, Ept.remapGpaToHpa_snd_of_ne_ok s g h idx⟩
  · rw [Ne, Ept.split2mbTo4kb_fst_eq_ok_iff]
    cases (s.pde (pdptIndex g) (pdIndex g)).large <;> simp; omega
  · rw [Ne, Ept.modifyPagePermissions_fst_eq_ok_iff]
    omega
  · rw [Ne, Ept.remapGpaToHpa_fst_eq_ok_iff]
    cases (s.pde (pdptIndex g) (pdIndex g)).large <;> simp; omega

/-- `guest_pa + i * BASE_PAGE_SIZE` is computed without an alignment of `guest_pa` to its 2MB page,
so near the top of the address space it passes `2^64`: on the identity map, splitting at the last
4KB page of the space succeeds, and entry 1 of the new table wraps to frame 0. -/
theorem split2mbTo4kb_pte_addr_wraps :
    let L : Layout := ⟨0, rfl, by decide⟩
    let s := Ept.identity L fun _ => some .writeBack
    (Ept.split2mbTo4kb L s 0xFFFFFFFFFFFFF000 1).1 = .ok () ∧
      2 ^ 64 ≤ (0xFFFFFFFFFFFFF000 : BitVec 64).toNat + 1 * basePageSize ∧
      ((Ept.split2mbTo4kb L s 0xFFFFFFFFFFFFF000 1).2.pte 1 1).pfn = 0 :=
  ⟨rfl, by decide, rfl⟩

/-- A remap and a permission edit commute: in either order they leave the same tables and return
the same two results. -/
theorem remapGpaToHpa_modifyPagePermissions_comm (s : Ept) (g h : BitVec 64) (i : Nat)
    (g' : BitVec 64) (a : AccessType) (j : Nat) :
    (Ept.modifyPagePermissions (Ept.remapGpaToHpa s g h i).2 g' a j).2 =
        (Ept.remapGpaToHpa (Ept.modifyPagePermissions s g' a j).2 g h i).2 ∧
      (Ept.remapGpaToHpa s g h i).1 =
        (Ept.remapGpaToHpa (Ept.modifyPagePermissions s g' a j).2 g h i).1 ∧
      (Ept.modifyPagePermissions (Ept.remapGpaToHpa s g h i).2 g' a j).1 =
        (Ept.modifyPagePermissions s g' a j).1 := by
  have h1 : (Ept.remapGpaToHpa (Ept.modifyPagePermissions s g' a j).2 g h i).1 =
      (Ept.remapGpaToHpa s g h i).1 :=
    Ept.remapGpaToHpa_fst_congr (Ept.large_modifyPagePermissions _ _)
  have h2 : (Ept.modifyPagePermissions (Ept.remapGpaToHpa s g h i).2 g' a j).1 =
      (Ept.modifyPagePermissions s g' a j).1 :=
    Ept.modifyPagePermissions_fst_congr (by rw [Ept.pde_remapGpaToHpa])
  refine ⟨?_, h1.symm, h2⟩
  by_cases hr : (Ept.remapGpaToHpa s g h i).1 = .ok ()
  · by_cases hm : (Ept.modifyPagePermissions s g' a j).1 = .ok ()
    · obtain ⟨k, hk, hR⟩ := Ept.remapGpaToHpa_snd_of_ok s g h i hr
      obtain ⟨k', hk', hM⟩ := Ept.modifyPagePermissions_snd_of_ok s g' a j hm
      obtain ⟨k₁, hk₁, hMR⟩ := Ept.modifyPagePermissions_snd_of_ok _ g' a j (h2.trans hm)
      obtain ⟨k₂, hk₂, hRM⟩ := Ept.remapGpaToHpa_snd_of_ok _ g h i (h1.trans hr)
      obtain rfl : k₁ = k' := Fin.ext (hk₁.trans hk'.symm)
      obtain rfl : k₂ = k := Fin.ext (hk₂.trans hk.symm)
      rw [hMR, hRM, hR, hM, Ept.modifyWrite_remapWrite]
    · rw [Ept.modifyPagePermissions_snd_of_ne_ok _ g' a j (h2.trans_ne hm),
        Ept.modifyPagePermissions_snd_of_ne_ok s g' a j hm]
  · rw [Ept.remapGpaToHpa_snd_of_ne_ok _ g h i (h1.trans_ne hr),
      Ept.remapGpaToHpa_snd_of_ne_ok s g h i hr]

end IllusionEpt
