import IllusionEpt.Reachable

/-!
# What the operations do to the translation

Which `pt` index backs which 2MB region is not recorded in the `Ept`: the
callers keep the record, and `Contract` is what they promise. Under it `Inv`
holds: large PD entries map their own frame, and no two PD entries share a
table. A write to one PD or PT entry then changes the translation of exactly
the addresses whose walk reads it. The operations ignore bits 39 and up of
`guest_pa`, so one at or above 512 GiB, which nothing maps, edits the page of
`guest_pa` modulo 512 GiB instead of failing.
-/

namespace IllusionEpt

set_option autoImplicit false

/-- PD entry `e` references `pt[idx]`: it is not a leaf and its PFN resolves to that table. -/
def References (L : Layout) (e : Entry) (idx : Nat) : Prop :=
  e.large = false ∧ ∃ k : Fin 64, k.val = idx ∧ L.follow e = some (.pt k)

/-- No PD entry of `s` references `pt[idx]`. -/
def Unreferenced (L : Layout) (s : Ept) (idx : Nat) : Prop := ∀ i j, ¬References L (s.pde i j) idx

/-- The callers' contract: a split passes an index in [1, 63] that no PD entry references, and a
permission edit or a remap whose PD entry is not large passes the PT that entry references. -/
def Contract (L : Layout) (s : Ept) : Op → Prop
  | .split _ idx => 1 ≤ idx ∧ idx ≤ 63 ∧ Unreferenced L s idx
  | .modify g _ idx => (s.pde (pdptIndex g) (pdIndex g)).large = false →
      References L (s.pde (pdptIndex g) (pdIndex g)) idx
  | .remap g _ idx => (s.pde (pdptIndex g) (pdIndex g)).large = false →
      References L (s.pde (pdptIndex g) (pdIndex g)) idx

/-- The invariant of runs under the contract: a large PD entry maps the 2MB frame of its own
position, any other references a PT, and no two PD entries reference the same PT. -/
structure Inv (L : Layout) (s : Ept) : Prop where
  frame : ∀ i j, (s.pde i j).large = true → (s.pde i j).pfn.toNat = 512 * (512 * i.val + j.val)
  table : ∀ i j, (s.pde i j).large = false → ∃ idx, References L (s.pde i j) idx
  unique : ∀ i j i' j' idx, References L (s.pde i j) idx → References L (s.pde i' j') idx →
    i = i' ∧ j = j'

namespace Inv

variable {L : Layout} {s t : Ept}

/-- `Inv` reads the PD entries only. -/
theorem of_pde_eq (hs : Inv L s) (h : ∀ i j, t.pde i j = s.pde i j) : Inv L t :=
  ⟨fun i j => by rw [h]; exact hs.frame i j, fun i j => by rw [h]; exact hs.table i j,
    fun i j i' j' idx => by rw [h, h]; exact hs.unique i j i' j' idx⟩

/-- Replacing a large PD entry by a large entry with the same frame keeps the invariant. -/
theorem setPde_large (hs : Inv L s) {i j : Fin 512} {e : Entry}
    (hl : (s.pde i j).large = true) (he : e.large = true) (hp : e.pfn = (s.pde i j).pfn) :
    Inv L (s.setPde i j e) := by
  have hnot : ∀ idx, ¬References L e idx := fun _ h => Bool.noConfusion (he.symm.trans h.1)
  refine ⟨fun i' j' => ?_, fun i' j' => ?_, fun i₁ j₁ i₂ j₂ idx => ?_⟩ <;> simp only [Ept.pde_setPde]
  · split_ifs with h
    · obtain ⟨rfl, rfl⟩ := h; rw [hp]; exact fun _ => hs.frame _ _ hl
    · exact hs.frame i' j'
  · split_ifs with h
    · intro h'; rw [he] at h'; cases h'
    · exact hs.table i' j'
  · split_ifs with h₁ h₂ h₂
    · exact fun h => absurd h (hnot idx)
    · exact fun h => absurd h (hnot idx)
    · exact fun _ h => absurd h (hnot idx)
    · exact hs.unique i₁ j₁ i₂ j₂ idx

end Inv

namespace Ept

variable {L : Layout} {find : PaRange → Option MemoryType}

/-- In the identity map only `pd[0][0]` references a table, and that table is `pt[0]`. -/
theorem references_identity (hres : Resolved find) {i j : Fin 512} {idx : Nat}
    (h : References L ((identity L find).pde i j) idx) : i = 0 ∧ j = 0 ∧ idx = 0 := by
  rw [pde_identity] at h
  by_cases hℓ : 512 * i.val + j.val = 0
  · rw [identityPde, if_pos hℓ] at h
    obtain ⟨-, k, rfl, hk⟩ := h
    rw [follow_pointTo] at hk
    cases hk
    exact ⟨Fin.ext (by simp; omega), Fin.ext (by simp; omega), rfl⟩
  · obtain ⟨m, hm⟩ := Option.isSome_iff_exists.mp (hres.2 (512 * i.val + j.val) (by omega) (by omega))
    rw [identityPde, if_neg hℓ, hm] at h
    have := h.1
    simp [mapLargePage] at this

theorem unreferenced_identity (hres : Resolved find) {idx : Nat} (h : idx ≠ 0) :
    Unreferenced L (identity L find) idx :=
  fun _ _ hr => h (references_identity hres hr).2.2

theorem inv_identity (hres : Resolved find) : Inv L (identity L find) where
  frame i j hl := by
    rw [pde_identity] at hl ⊢
    by_cases hℓ : 512 * i.val + j.val = 0
    · rw [identityPde, if_pos hℓ, large_pointTo] at hl; cases hl
    · obtain ⟨m, hm⟩ :=
        Option.isSome_iff_exists.mp (hres.2 (512 * i.val + j.val) (by omega) (by omega))
      rw [identityPde, if_neg hℓ, hm, toNat_pfn_mapLargePage _ _ _ (by simp; omega)]
      simp; omega
  table i j hl := by
    rw [pde_identity] at hl ⊢
    by_cases hℓ : 512 * i.val + j.val = 0
    · rw [identityPde, if_pos hℓ] at hl ⊢
      exact ⟨0, hl, 0, rfl, follow_pointTo L _ _⟩
    · obtain ⟨m, hm⟩ :=
        Option.isSome_iff_exists.mp (hres.2 (512 * i.val + j.val) (by omega) (by omega))
      rw [identityPde, if_neg hℓ, hm] at hl
      simp [mapLargePage] at hl
  unique i j i' j' idx h h' := by
    obtain ⟨rfl, rfl, -⟩ := references_identity hres h
    obtain ⟨rfl, rfl, -⟩ := references_identity hres h'
    exact ⟨rfl, rfl⟩

variable {s : Ept}

theorem inv_split2mbTo4kb (hs : Inv L s) (g : BitVec 64) (idx : Nat)
    (hfree : Unreferenced L s idx) : Inv L (split2mbTo4kb L s g idx).2 := by
  rcases split2mbTo4kb_snd_cases L s g idx with h | ⟨k, hk, hl, h⟩
  · rwa [h]
  · rw [h]
    have href : References L (splitPde L (s.pde (pdptIndex g) (pdIndex g)).memoryType k
        (s.pde (pdptIndex g) (pdIndex g))) idx :=
      ⟨large_splitPde L _ k _, k, hk, follow_splitPde L _ k _⟩
    have hold : ∀ i j, References L (s.pde i j) idx → False := fun i j h => hfree i j h
    refine ⟨fun i j => ?_, fun i j => ?_, fun i₁ j₁ i₂ j₂ idx' => ?_⟩ <;>
      simp only [pde_splitWrite]
    · split_ifs
      · intro h'; rw [large_splitPde] at h'; cases h'
      · exact hs.frame i j
    · split_ifs
      · exact fun _ => ⟨idx, href⟩
      · exact hs.table i j
    · have huniq : ∀ e, References L (splitPde L (s.pde (pdptIndex g) (pdIndex g)).memoryType k
          (s.pde (pdptIndex g) (pdIndex g))) idx' → References L e idx' → idx' = idx := by
        intro e h₁ _
        obtain ⟨-, k₁, hk₁, hf₁⟩ := h₁
        rw [follow_splitPde] at hf₁
        cases hf₁
        exact hk₁.symm.trans hk
      split_ifs with h₁ h₂ h₂
      · obtain ⟨rfl, rfl⟩ := h₁; obtain ⟨rfl, rfl⟩ := h₂; exact fun _ _ => ⟨rfl, rfl⟩
      · intro ha hb
        obtain rfl := huniq _ ha hb
        exact (hold _ _ hb).elim
      · intro ha hb
        obtain rfl := huniq _ hb ha
        exact (hold _ _ ha).elim
      · exact hs.unique i₁ j₁ i₂ j₂ idx'

theorem inv_modifyPagePermissions (hs : Inv L s) (g : BitVec 64) (a : AccessType) (idx : Nat) :
    Inv L (modifyPagePermissions s g a idx).2 := by
  rcases modifyPagePermissions_snd_cases s g a idx with h | ⟨k, -, h⟩
  · rwa [h]
  · rw [h, modifyWrite]
    split_ifs with hl
    · exact hs.setPde_large hl (by rw [large_setAccess, hl]) (pfn_setAccess _ _)
    · exact hs.of_pde_eq fun i j => pde_setPte _ _ _ _ _ _

/-- A permission edit makes no PD entry reference a table. -/
theorem unreferenced_modifyPagePermissions {idx : Nat} (hfree : Unreferenced L s idx)
    (g : BitVec 64) (a : AccessType) (j : Nat) :
    Unreferenced L (modifyPagePermissions s g a j).2 idx := by
  rcases modifyPagePermissions_snd_cases s g a j with h | ⟨k, -, h⟩
  · rwa [h]
  · rw [h, modifyWrite]
    split_ifs with hl
    · intro i' j' hr
      rw [pde_setPde] at hr
      split_ifs at hr with he
      · obtain ⟨rfl, rfl⟩ := he
        rw [References, large_setAccess, hl] at hr
        cases hr.1
      · exact hfree i' j' hr
    · exact fun i' j' => by rw [pde_setPte]; exact hfree i' j'

theorem inv_remapGpaToHpa (hs : Inv L s) (g h : BitVec 64) (idx : Nat) :
    Inv L (remapGpaToHpa s g h idx).2 := by
  rcases remapGpaToHpa_snd_cases s g h idx with hr | ⟨k, -, hr⟩
  · rwa [hr]
  · rw [hr, remapWrite]
    exact hs.of_pde_eq fun i j => pde_setPte _ _ _ _ _ _

end Ept

namespace Ept

section Translate

variable {L : Layout} {s : Ept} (hu : UpperTables L s) (hinv : Inv L s)
include hu hinv

/-- Under the invariant, a state that agrees with `s` on the PD entry of `x` and on the entries of
the tables that PD entry references translates `x` as `s` does. -/
theorem translate_frame {t : Ept} (ht : UpperTables L t) (x : Nat)
    (hpde : t.pde (index x 30) (index x 21) = s.pde (index x 30) (index x 21))
    (hpt : ∀ k : Fin 64, References L (s.pde (index x 30) (index x 21)) k.val →
      t.pte k (index x 12) = s.pte k (index x 12)) :
    t.translate L x = s.translate L x := by
  refine translate_congr hu ht x hpde fun l hl => ?_
  unfold pdWalk at hl
  split_ifs at hl with hlarge
  · cases hl; exact hpde
  · obtain ⟨idx, hf, k, rfl, hk⟩ := hinv.table _ _ (by simpa using hlarge)
    simp only [hk, Option.map_some', Option.some.injEq] at hl
    subst hl
    exact hpt k ⟨hf, k, rfl, hk⟩

/-- Writing PD entry `(i, j)` with a large entry changes the translation of the 2MB page of that
entry only. -/
theorem translate_setPde_large {i j : Fin 512} {e : Entry} (he : e.large = true) (x : Nat) :
    (s.setPde i j e).translate L x =
      if index x 39 = 0 ∧ index x 30 = i ∧ index x 21 = j then
        some (Translation.ofEntry e (x % 2 ^ 21))
      else s.translate L x := by
  have hu' : UpperTables L (s.setPde i j e) := hu.of_upper_eq rfl rfl
  split_ifs with hin
  · obtain ⟨h0, rfl, rfl⟩ := hin
    rw [translate_of_large hu' h0 (by simpa using he)]
    simp
  · by_cases h0 : index x 39 = 0
    · refine translate_frame hu hinv hu' x ?_ fun k _ => rfl
      rw [pde_setPde, if_neg fun h => hin ⟨h0, h⟩]
    · rw [translate_of_index_ne hu' h0, translate_of_index_ne hu h0]

/-- Writing entry `n` of a table that PD entry `(i, j)` references changes the translation of one
4KB page only. -/
theorem translate_setPte {i j : Fin 512} {k : Fin 64} (href : References L (s.pde i j) k.val)
    (n : Fin 512) (e : Entry) (x : Nat) :
    (s.setPte k n e).translate L x =
      if index x 39 = 0 ∧ index x 30 = i ∧ index x 21 = j ∧ index x 12 = n then
        some (Translation.ofEntry e (x % 4096))
      else s.translate L x := by
  have hu' : UpperTables L (s.setPte k n e) := hu.of_upper_eq rfl rfl
  obtain ⟨hl, k', hk', hf⟩ := href
  obtain rfl : k' = k := Fin.ext hk'
  split_ifs with hin
  · obtain ⟨h0, rfl, rfl, rfl⟩ := hin
    rw [translate_of_pt hu' h0 hl hf]
    simp
  · by_cases h0 : index x 39 = 0
    · refine translate_frame hu hinv hu' x rfl fun k'' hk'' => ?_
      rw [pte_setPte, if_neg]
      rintro ⟨rfl, hn⟩
      obtain ⟨hi, hj⟩ := hinv.unique _ _ _ _ _ hk'' ⟨hl, k'', rfl, hf⟩
      exact hin ⟨h0, hi, hj, hn⟩
    · rw [translate_of_index_ne hu' h0, translate_of_index_ne hu h0]

/-- A split of PD entry `(i, j)` into an unreferenced `pt[k]` changes the translation of that
entry's 2MB page only, which is then read from the new table. -/
theorem translate_splitWrite {i j : Fin 512} {k : Fin 64} (hfree : Unreferenced L s k.val)
    (g : BitVec 64) (x : Nat) :
    (splitWrite L s g i j k).translate L x =
      if index x 39 = 0 ∧ index x 30 = i ∧ index x 21 = j then
        some (Translation.ofEntry (mapPage (s.pde i j).memoryType (splitPteAddr g (index x 12))
          (s.pte k (index x 12))) (x % 4096))
      else s.translate L x := by
  have hu' : UpperTables L (splitWrite L s g i j k) := hu.of_upper_eq rfl rfl
  split_ifs with hin
  · obtain ⟨h0, rfl, rfl⟩ := hin
    have hpde : (splitWrite L s g (index x 30) (index x 21) k).pde (index x 30) (index x 21) =
        splitPde L (s.pde (index x 30) (index x 21)).memoryType k (s.pde (index x 30) (index x 21)) :=
      by rw [pde_splitWrite, if_pos ⟨rfl, rfl⟩]
    rw [translate_of_pt hu' h0 (by rw [hpde, large_splitPde]) (by rw [hpde, follow_splitPde])]
    simp [pte_splitWrite]
  · by_cases h0 : index x 39 = 0
    · refine translate_frame hu hinv hu' x ?_ fun k' hk' => ?_
      · rw [pde_splitWrite, if_neg fun h => hin ⟨h0, h⟩]
      · rw [pte_splitWrite, if_neg]
        rintro rfl
        exact hfree _ _ hk'
    · rw [translate_of_index_ne hu' h0, translate_of_index_ne hu h0]

end Translate

end Ept

theorem Inv.run {L : Layout} {s : Ept} (hs : Inv L s) (op : Op) (hop : Contract L s op) :
    Inv L (op.run L s).2 := by
  cases op with
  | split g idx => exact Ept.inv_split2mbTo4kb hs g idx hop.2.2
  | modify g a idx => exact Ept.inv_modifyPagePermissions hs g a idx
  | remap g h idx => exact Ept.inv_remapGpaToHpa hs g h idx

theorem Reachable.inv {L : Layout} {find : PaRange → Option MemoryType} {s : Ept}
    (hs : Reachable L find (Contract L) s) : Inv L s :=
  Reachable.induction_on (Inv L) hs Ept.inv_identity fun _ op h hop => h.run op hop


/-- Below 512 GiB, the 2MB page of `x` is that of `g` exactly when the walk of `x` reads the PD
entry `pdpt_index(g)`, `pd_index(g)`. -/
theorem large_page_iff {x : Nat} (hx : x < 2 ^ 48) {g : BitVec 64} (hg : g.toNat < 2 ^ 39) :
    x / 2 ^ 21 = g.toNat / 2 ^ 21 ↔
      index x 39 = 0 ∧ index x 30 = pdptIndex g ∧ index x 21 = pdIndex g := by
  have h39 : x / 2 ^ 39 = g.toNat / 2 ^ 39 ↔ index x 39 = 0 := by
    have : x / 2 ^ 39 < 512 := Nat.div_lt_of_lt_mul hx
    rw [Nat.div_eq_of_lt hg, Fin.ext_iff, index, Fin.val_zero]
    simp only [Nat.mod_eq_of_lt this]
  rw [div_eq_div_iff_index, div_eq_div_iff_index x _ 30, h39, pdptIndex, pdIndex,
    tableIndex_eq_index, tableIndex_eq_index, and_assoc]

theorem base_page_iff {x : Nat} (hx : x < 2 ^ 48) {g : BitVec 64} (hg : g.toNat < 2 ^ 39) :
    x / 4096 = g.toNat / 4096 ↔
      index x 39 = 0 ∧ index x 30 = pdptIndex g ∧ index x 21 = pdIndex g ∧
        index x 12 = ptIndex g := by
  rw [show 4096 = 2 ^ 12 by rfl, div_eq_div_iff_index, large_page_iff hx hg, ptIndex,
    tableIndex_eq_index]
  simp only [and_assoc]

/-- `x` lies in the page of `guest_pa` that `modify_page_permissions` edits in `s`: the 2MB page when
its PD entry is large, else the 4KB page. -/
def Ept.InPageOf (s : Ept) (g : BitVec 64) (x : Nat) : Prop :=
  if (s.pde (pdptIndex g) (pdIndex g)).large then x / 2 ^ 21 = g.toNat / 2 ^ 21
  else x / 4096 = g.toNat / 4096

instance (s : Ept) (g : BitVec 64) (x : Nat) : Decidable (s.InPageOf g x) :=
  inferInstanceAs (Decidable (if _ then _ else _))

/-- A permission edit under the contract of a `guest_pa` below 512 GiB sets the permissions of
every address of its page to those of the access type, keeping host address and memory type, and
changes the translation of no other address. -/
theorem modifyPagePermissions_translate (L : Layout) (find : PaRange → Option MemoryType)
    {s : Ept} (hs : Reachable L find (Contract L) s) (g : BitVec 64) (hg : g.toNat < 2 ^ 39)
    (a : AccessType) (idx : Nat)
    (href : (s.pde (pdptIndex g) (pdIndex g)).large = false →
      References L (s.pde (pdptIndex g) (pdIndex g)) idx)
    (hok : (Ept.modifyPagePermissions s g a idx).1 = .ok ()) (x : Nat) (hx : x < 2 ^ 48) :
    (Ept.modifyPagePermissions s g a idx).2.translate L x =
      if s.InPageOf g x then
        (s.translate L x).map fun t =>
          { t with
            readable := a.contains .read
            writable := a.contains .write
            executable := a.contains .execute }
      else s.translate L x := by
  have hu := hs.upperTables
  have hinv := hs.inv
  obtain ⟨k, hk, hst⟩ := Ept.modifyPagePermissions_snd_of_ok s g a idx hok
  rw [hst]
  unfold Ept.modifyWrite Ept.InPageOf
  by_cases hl : (s.pde (pdptIndex g) (pdIndex g)).large = true
  · simp only [hl, ↓reduceIte]
    refine (Ept.translate_setPde_large hu hinv (by rw [Ept.large_setAccess, hl]) x).trans ?_
    simp only [large_page_iff hx hg]
    split_ifs with hin
    · obtain ⟨h0, hi, hj⟩ := hin
      rw [Ept.translate_of_large hu h0 (by rw [hi, hj]; exact hl), hi, hj, Ept.ofEntry_setAccess]
      rfl
    · rfl
  · have hl' : (s.pde (pdptIndex g) (pdIndex g)).large = false := by simpa using hl
    have hr := href hl'
    simp only [hl', Bool.false_eq_true, ↓reduceIte]
    refine (Ept.translate_setPte hu hinv (by rw [hk]; exact hr) _ _ x).trans ?_
    simp only [base_page_iff hx hg]
    split_ifs with hin
    · obtain ⟨h0, hi, hj, hn⟩ := hin
      obtain ⟨-, k', hk', hf⟩ := hr
      obtain rfl : k' = k := Fin.ext (hk'.trans hk.symm)
      rw [Ept.translate_of_pt hu h0 (by rw [hi, hj]; exact hl') (by rw [hi, hj]; exact hf), hn,
        Ept.ofEntry_setAccess]
      rfl
    · rfl

theorem modifyPagePermissions_translate_identity :
    let L : Layout := ⟨0, rfl, by decide⟩
    let find : PaRange → Option MemoryType := fun _ => some .writeBack
    let s := Ept.identity L find
    Reachable L find (Contract L) s ∧ (Ept.modifyPagePermissions s 0x200000 .read 1).1 = .ok () ∧
      (Ept.modifyPagePermissions s 0x200000 .read 1).2.translate L 0x200000 =
        if s.InPageOf 0x200000 0x200000 then
          (s.translate L 0x200000).map fun t =>
            { t with
              readable := AccessType.read.contains .read
              writable := AccessType.read.contains .write
              executable := AccessType.read.contains .execute }
        else s.translate L 0x200000 :=
  have hs : Reachable ⟨0, rfl, by decide⟩ (fun _ => some .writeBack) (Contract ⟨0, rfl, by decide⟩)
      (Ept.identity ⟨0, rfl, by decide⟩ (fun _ => some .writeBack)) :=
    .identity (Ept.resolved_of_isSome _ fun _ => rfl)
  ⟨hs, rfl, modifyPagePermissions_translate _ _ hs 0x200000 (by decide) .read 1
    (fun h => absurd h (by decide)) rfl 0x200000 (by decide)⟩

/-- The PML4 index of `guest_pa` is never read: a permission edit of the 2MB page at
`2^39 + 2^21`, which is not mapped, changes the translation of the page at `2^21`. -/
theorem modifyPagePermissions_edits_alias :
    let L : Layout := ⟨0, rfl, by decide⟩
    let find : PaRange → Option MemoryType := fun _ => some .writeBack
    let s := Ept.identity L find
    Reachable L find (Contract L) s ∧
      (Ept.modifyPagePermissions s 0x8000200000 .read 1).1 = .ok () ∧
      0x200000 / 2 ^ 21 ≠ (0x8000200000 : BitVec 64).toNat / 2 ^ 21 ∧
      (Ept.modifyPagePermissions s 0x8000200000 .read 1).2.translate L 0x200000 ≠
        s.translate L 0x200000 :=
  ⟨.identity (Ept.resolved_of_isSome _ fun _ => rfl), rfl, by decide, by decide⟩

/-- A remap under the contract of a `guest_pa` below 512 GiB sends every address of its 4KB page to
the same offset in the page of `host_pa`, keeping permissions and memory type, and changes the
translation of no other address. -/
theorem remapGpaToHpa_translate (L : Layout) (find : PaRange → Option MemoryType)
    {s : Ept} (hs : Reachable L find (Contract L) s) (g h : BitVec 64) (hg : g.toNat < 2 ^ 39)
    (idx : Nat) (hh : h.toNat < 2 ^ 52)
    (href : (s.pde (pdptIndex g) (pdIndex g)).large = false →
      References L (s.pde (pdptIndex g) (pdIndex g)) idx)
    (hok : (Ept.remapGpaToHpa s g h idx).1 = .ok ()) (x : Nat) (hx : x < 2 ^ 48) :
    (Ept.remapGpaToHpa s g h idx).2.translate L x =
      if x / 4096 = g.toNat / 4096 then
        (s.translate L x).map fun t => { t with hostAddr := h.toNat + (x - g.toNat) }
      else s.translate L x := by
  have hu := hs.upperTables
  have hinv := hs.inv
  obtain ⟨-, -, hg4, hh4, hl⟩ := (Ept.remapGpaToHpa_fst_eq_ok_iff s g h idx).1 hok
  obtain ⟨k, hk, hst⟩ := Ept.remapGpaToHpa_snd_of_ok s g h idx hok
  have hr := href hl
  have hv : (h >>> basePageShift).toNat = h.toNat / 4096 := by
    simp [BitVec.toNat_ushiftRight, Nat.shiftRight_eq_div_pow]
  rw [hst, Ept.remapWrite, Ept.translate_setPte hu hinv (by rw [hk]; exact hr)]
  split_ifs with hin hin' hin'
  · obtain ⟨h0, hi, hj, hn⟩ := hin
    obtain ⟨-, k', hk', hf⟩ := hr
    obtain rfl : k' = k := Fin.ext (hk'.trans hk.symm)
    rw [Ept.translate_of_pt hu h0 (by rw [hi, hj]; exact hl) (by rw [hi, hj]; exact hf), hn,
      Ept.ofEntry_setPfn _ _ (by rw [hv]; omega), hv, Option.map_some']
    simp only [Option.some.injEq, Translation.mk.injEq, and_true]
    omega
  · exact absurd ((base_page_iff hx hg).2 hin) hin'
  · exact absurd ((base_page_iff hx hg).1 hin') hin
  · rfl

theorem remapGpaToHpa_translate_split :
    let L : Layout := ⟨0, rfl, by decide⟩
    let find : PaRange → Option MemoryType := fun _ => some .writeBack
    let s := (Op.run L (.split 0x200000 1) (Ept.identity L find)).2
    Reachable L find (Contract L) s ∧ References L (s.pde 0 1) 1 ∧
      (Ept.remapGpaToHpa s 0x200000 0x1000 1).1 = .ok () ∧
      (Ept.remapGpaToHpa s 0x200000 0x1000 1).2.translate L 0x200000 =
        if 0x200000 / 4096 = (0x200000 : BitVec 64).toNat / 4096 then
          (s.translate L 0x200000).map fun t =>
            { t with
              hostAddr := (0x1000 : BitVec 64).toNat + (0x200000 - (0x200000 : BitVec 64).toNat) }
        else s.translate L 0x200000 :=
  have hres : Ept.Resolved (fun _ => some .writeBack) := Ept.resolved_of_isSome _ fun _ => rfl
  have hs : Reachable ⟨0, rfl, by decide⟩ (fun _ => some .writeBack) (Contract ⟨0, rfl, by decide⟩)
      (Op.run ⟨0, rfl, by decide⟩ (.split 0x200000 1)
        (Ept.identity ⟨0, rfl, by decide⟩ (fun _ => some .writeBack))).2 :=
    .step _ (.identity hres) ⟨le_refl 1, by decide, Ept.unreferenced_identity hres one_ne_zero⟩
  have href : References ⟨0, rfl, by decide⟩
      ((Op.run ⟨0, rfl, by decide⟩ (.split 0x200000 1)
        (Ept.identity ⟨0, rfl, by decide⟩ (fun _ => some .writeBack))).2.pde 0 1) 1 :=
    ⟨rfl, 1, rfl, rfl⟩
  ⟨hs, href, rfl, remapGpaToHpa_translate _ _ hs 0x200000 0x1000 (by decide) 1 (by decide)
    (fun _ => href) rfl 0x200000 (by decide)⟩

/-- The PML4 index of `guest_pa` is never read: once the page at `2^21` is split into `pt[1]`,
a remap of the unmapped page at `2^39 + 2^21` redirects the page at `2^21`. -/
theorem remapGpaToHpa_redirects_alias :
    let L : Layout := ⟨0, rfl, by decide⟩
    let find : PaRange → Option MemoryType := fun _ => some .writeBack
    let s := (Op.run L (.split 0x200000 1) (Ept.identity L find)).2
    Reachable L find (Contract L) s ∧ References L (s.pde 0 1) 1 ∧
      (Ept.remapGpaToHpa s 0x8000200000 0 1).1 = .ok () ∧
      (Ept.remapGpaToHpa s 0x8000200000 0 1).2.translate L 0x200000 ≠ s.translate L 0x200000 :=
  have hres : Ept.Resolved (fun _ => some .writeBack) := Ept.resolved_of_isSome _ fun _ => rfl
  ⟨.step _ (.identity hres) ⟨le_refl 1, by decide, Ept.unreferenced_identity hres one_ne_zero⟩,
    ⟨rfl, 1, rfl, rfl⟩, rfl, by decide⟩

/-- A split under the contract, of a large page at or below 512 GiB from an address in its first
4KB, into a table no PD entry references, keeps the host address and memory type of every address,
grants every access in the split 2MB page, and changes the translation of no other address. -/
theorem split2mbTo4kb_translate (L : Layout) (find : PaRange → Option MemoryType)
    {s : Ept} (hs : Reachable L find (Contract L) s) (g : BitVec 64) (idx : Nat)
    (hfree : Unreferenced L s idx) (hg : g.toNat < 2 ^ 39) (hgpage : g.toNat % 2 ^ 21 < 4096)
    (hok : (Ept.split2mbTo4kb L s g idx).1 = .ok ()) (x : Nat) (hx : x < 2 ^ 48) :
    (Ept.split2mbTo4kb L s g idx).2.translate L x =
      if x / 2 ^ 21 = g.toNat / 2 ^ 21 then
        (s.translate L x).map fun t =>
          { t with readable := true, writable := true, executable := true }
      else s.translate L x := by
  have hu := hs.upperTables
  have hinv := hs.inv
  obtain ⟨k, hk, hl, hst⟩ := Ept.split2mbTo4kb_snd_of_ok L s g idx hok
  have hiff := large_page_iff hx hg
  rw [hst, Ept.translate_splitWrite hu hinv (by rw [hk]; exact hfree) g x]
  simp only [hiff]
  split_ifs with hin
  · obtain ⟨h0, hi, hj⟩ := hin
    have hsum : (Ept.splitPteAddr g (index x 12)).toNat = g.toNat + (index x 12).val * 4096 := by
      have := (index x 12).isLt
      simp only [Ept.splitPteAddr, basePageSize, BitVec.toNat_add, BitVec.toNat_ofNat]
      omega
    have hframe := hinv.frame _ _ hl
    rw [Ept.translate_of_large hu h0 (by rw [hi, hj]; exact hl), hi, hj, Option.map_some',
      Ept.ofEntry_mapPage _ (by rw [hsum]; omega), hsum]
    simp only [Translation.ofEntry, Option.some.injEq, Translation.mk.injEq, and_true,
      Nat.mod_eq_of_lt (Ept.toNat_memoryType_lt _), pdptIndex, pdIndex] at hframe ⊢
    rw [hframe, val_tableIndex, val_tableIndex]
    clear hframe hi hj h0 hsum hiff
    simp only [index]
    omega
  · rfl

theorem split2mbTo4kb_translate_identity :
    let L : Layout := ⟨0, rfl, by decide⟩
    let find : PaRange → Option MemoryType := fun _ => some .writeBack
    let s := Ept.identity L find
    Reachable L find (Contract L) s ∧ Unreferenced L s 1 ∧
      (Ept.split2mbTo4kb L s 0x200000 1).1 = .ok () ∧
      (Ept.split2mbTo4kb L s 0x200000 1).2.translate L 0x200000 =
        if 0x200000 / 2 ^ 21 = (0x200000 : BitVec 64).toNat / 2 ^ 21 then
          (s.translate L 0x200000).map fun t =>
            { t with readable := true, writable := true, executable := true }
        else s.translate L 0x200000 :=
  have hres : Ept.Resolved (fun _ => some .writeBack) := Ept.resolved_of_isSome _ fun _ => rfl
  have hs : Reachable ⟨0, rfl, by decide⟩ (fun _ => some .writeBack) (Contract ⟨0, rfl, by decide⟩)
      (Ept.identity ⟨0, rfl, by decide⟩ (fun _ => some .writeBack)) := .identity hres
  have hfree : Unreferenced ⟨0, rfl, by decide⟩
      (Ept.identity ⟨0, rfl, by decide⟩ (fun _ => some .writeBack)) 1 :=
    Ept.unreferenced_identity hres one_ne_zero
  ⟨hs, hfree, rfl, split2mbTo4kb_translate _ _ hs 0x200000 1 hfree (by decide) (by decide) rfl
    0x200000 (by decide)⟩

/-- A split under the contract, of a large page below 512 GiB from any address in it, maps the
page onto the frames from `guest_pa` rounded down to 4KB, not from its own frame, with its memory
type and every access; every other address keeps its translation. -/
theorem split2mbTo4kb_translate_shifted (L : Layout) (find : PaRange → Option MemoryType)
    {s : Ept} (hs : Reachable L find (Contract L) s) (g : BitVec 64) (idx : Nat)
    (hfree : Unreferenced L s idx) (hg : g.toNat < 2 ^ 39)
    (hok : (Ept.split2mbTo4kb L s g idx).1 = .ok ()) (x : Nat) (hx : x < 2 ^ 48) :
    (Ept.split2mbTo4kb L s g idx).2.translate L x =
      if x / 2 ^ 21 = g.toNat / 2 ^ 21 then
        (s.translate L x).map fun t =>
          { t with hostAddr := g.toNat / 4096 * 4096 + x % 2 ^ 21,
                   readable := true, writable := true, executable := true }
      else s.translate L x := by
  have hu := hs.upperTables
  obtain ⟨k, hk, hl, hst⟩ := Ept.split2mbTo4kb_snd_of_ok L s g idx hok
  have hiff := large_page_iff hx hg
  rw [hst, Ept.translate_splitWrite hu hs.inv (by rw [hk]; exact hfree) g x]
  simp only [hiff]
  split_ifs with hin
  · obtain ⟨h0, hi, hj⟩ := hin
    have hn := (index x 12).isLt
    have hsum : (Ept.splitPteAddr g (index x 12)).toNat = g.toNat + (index x 12).val * 4096 := by
      simp only [Ept.splitPteAddr, basePageSize, BitVec.toNat_add, BitVec.toNat_ofNat]
      omega
    rw [Ept.translate_of_large hu h0 (by rw [hi, hj]; exact hl), hi, hj, Option.map_some',
      Ept.ofEntry_mapPage _ (by rw [hsum]; omega), hsum]
    simp only [Translation.ofEntry, Option.some.injEq, Translation.mk.injEq, and_true,
      Nat.mod_eq_of_lt (Ept.toNat_memoryType_lt _)]
    simp only [index] at hn ⊢
    omega
  · rfl

theorem split2mbTo4kb_translate_shifted_identity :
    let L : Layout := ⟨0, rfl, by decide⟩
    let find : PaRange → Option MemoryType := fun _ => some .writeBack
    let s := Ept.identity L find
    Reachable L find (Contract L) s ∧ Unreferenced L s 1 ∧
      (0x201000 : BitVec 64).toNat < 2 ^ 39 ∧ (Ept.split2mbTo4kb L s 0x201000 1).1 = .ok () ∧
      (Ept.split2mbTo4kb L s 0x201000 1).2.translate L 0x200000 =
        if 0x200000 / 2 ^ 21 = (0x201000 : BitVec 64).toNat / 2 ^ 21 then
          (s.translate L 0x200000).map fun t =>
            { t with hostAddr := (0x201000 : BitVec 64).toNat / 4096 * 4096 + 0x200000 % 2 ^ 21,
                     readable := true, writable := true, executable := true }
        else s.translate L 0x200000 :=
  have hres : Ept.Resolved (fun _ => some .writeBack) := Ept.resolved_of_isSome _ fun _ => rfl
  have hs : Reachable ⟨0, rfl, by decide⟩ (fun _ => some .writeBack) (Contract ⟨0, rfl, by decide⟩)
      (Ept.identity ⟨0, rfl, by decide⟩ (fun _ => some .writeBack)) := .identity hres
  have hfree : Unreferenced ⟨0, rfl, by decide⟩
      (Ept.identity ⟨0, rfl, by decide⟩ (fun _ => some .writeBack)) 1 :=
    Ept.unreferenced_identity hres one_ne_zero
  ⟨hs, hfree, by decide, rfl, split2mbTo4kb_translate_shifted _ _ hs 0x201000 1 hfree (by decide) rfl
    0x200000 (by decide)⟩

/-- A split keeps frames and memory types but not permissions: after a permission edit to read-only
of the 2MB page at `2^21`, splitting it makes it writable and executable again. -/
theorem split2mbTo4kb_resets_permissions :
    let L : Layout := ⟨0, rfl, by decide⟩
    let find : PaRange → Option MemoryType := fun _ => some .writeBack
    let s := (Op.run L (.modify 0x200000 .read 1) (Ept.identity L find)).2
    Reachable L find (Contract L) s ∧ Unreferenced L s 1 ∧
      (Ept.split2mbTo4kb L s 0x200000 1).1 = .ok () ∧
      (Ept.split2mbTo4kb L s 0x200000 1).2.translate L 0x200000 ≠ s.translate L 0x200000 :=
  have hres : Ept.Resolved (fun _ => some .writeBack) := Ept.resolved_of_isSome _ fun _ => rfl
  ⟨.step _ (.identity hres) (fun h => absurd h (by decide)),
    Ept.unreferenced_modifyPagePermissions (Ept.unreferenced_identity hres one_ne_zero) _ _ _, rfl,
    by decide⟩

end IllusionEpt
