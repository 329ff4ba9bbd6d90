import IllusionEpt.WellFormed
import IllusionEpt.Eptp
import IllusionEpt.Violation

/-!
# Hiding a page with the two Epts

`main` builds a primary and a secondary `Ept` as identity maps, and a page is
hidden by splitting its 2MB page in both and making it read-write in the
primary and execute-only in the secondary. A walk finds an EPT
misconfiguration, or grants each access the AND over the entries it reads.
The split leaves a PD entry with reserved bits set unless the 2MB page is UC:
then every access to that 2MB page halts the hypervisor. On a UC page the two
views hide the page as the scheme intends.
-/

namespace IllusionEpt

set_option autoImplicit false

open EptViolationExitQualification

/-- The rights of a translation, none where nothing is mapped. -/
def Translation.rights : Option Translation → EptViolationExitQualification
  | some t => ⟨t.readable, t.writable, t.executable⟩
  | none => ⟨false, false, false⟩

/-- The entry grants read, write and execute. -/
def Entry.Full (e : Entry) : Prop := e.readable = true ∧ e.writable = true ∧ e.executable = true

namespace Ept

variable (L : Layout) (s : Ept)

/-- Modelled from the spec: the rights the walk of `x` grants, as an EPT violation reports them,
each the AND of that permission over the entries the walk reads. -/
def rights (x : Nat) : EptViolationExitQualification :=
  ⟨(s.walkPath L x).all (·.2.readable), (s.walkPath L x).all (·.2.writable),
    (s.walkPath L x).all (·.2.executable)⟩

/-- Modelled from the spec: the walk of `x` reads a present entry that is not well-formed, which
the processor reports as an EPT misconfiguration. -/
def misconfigured (x : Nat) : Bool :=
  (s.walkPath L x).any fun p => p.2.present && !decide (EntryWf p.1 p.2)

/-- Modelled from the spec: what the walk of `x` finds. -/
def walked (x : Nat) : Walked :=
  if s.misconfigured L x then .misconfigured else .grants (s.rights L x)

/-- The entries a walk passes on its way to a leaf grant everything: the PML4 entry of the PDPT,
every PDPT entry, and every PD entry that is not a leaf, which references a PT. -/
structure OpenPointers : Prop where
  upper : UpperTables L s
  pml4 : (s.pml4.entries 0).Full
  pdpt : ∀ i, (s.pdpt.entries i).Full
  pde : ∀ i j, (s.pde i j).large = false →
    (s.pde i j).Full ∧ ∃ k, L.follow (s.pde i j) = some (.pt k)

variable {L s}

/-- Where the pointers grant everything, a walk grants what its leaf grants. -/
theorem rights_eq (h : OpenPointers L s) (x : Nat) :
    s.rights L x = Translation.rights (s.translate L x) := by
  have hu := h.upper
  obtain ⟨r4, w4, x4⟩ := h.pml4
  by_cases h0 : index x 39 = 0
  · obtain ⟨r3, w3, x3⟩ := h.pdpt (index x 30)
    cases hl : (s.pde (index x 30) (index x 21)).large
    · obtain ⟨⟨r2, w2, x2⟩, k, hk⟩ := h.pde _ _ hl
      rw [translate_of_pt hu h0 hl hk]
      simp only [rights, walkPath_eq hu, h0, hl, hk, if_true, Bool.false_eq_true, if_false,
        List.all_cons, List.all_nil, r4, w4, x4, r3, w3, x3, r2, w2, x2, Bool.true_and,
        Bool.and_true, Translation.rights, Translation.ofEntry, table, pte]
    · rw [translate_of_large hu h0 hl]
      simp only [rights, walkPath_eq hu, h0, hl, if_true, List.all_cons, List.all_nil, r4, w4, x4,
        r3, w3, x3, Bool.true_and, Bool.and_true, Translation.rights, Translation.ofEntry]
  · have hp := hu.pml4_other _ h0
    simp only [Entry.present, Bool.or_eq_false_iff] at hp
    rw [translate_of_index_ne hu h0]
    simp only [rights, walkPath_eq hu, h0, if_false, List.all_cons, List.all_nil, hp.1.1, hp.1.2,
      hp.2, Bool.false_and, Translation.rights]

/-- The walk reads bits 47..12 of an address only. -/
theorem rights_mod (x : Nat) : s.rights L (x % 2 ^ 48) = s.rights L x := by
  simp only [rights, walkPath, index_mod_two_pow (by decide : 39 + 9 ≤ 48),
    index_mod_two_pow (by decide : 30 + 9 ≤ 48), index_mod_two_pow (by decide : 21 + 9 ≤ 48),
    index_mod_two_pow (by decide : 12 + 9 ≤ 48)]

/-- What a walk finds depends on the entries it reads only. -/
theorem walked_congr {t : Ept} {x : Nat} (h : t.walkPath L x = s.walkPath L x) :
    t.walked L x = s.walked L x := by
  simp only [walked, misconfigured, rights, h]

theorem misconfigured_eq_true_iff {x : Nat} :
    s.misconfigured L x = true ↔ ∃ p ∈ s.walkPath L x, p.2.present = true ∧ ¬EntryWf p.1 p.2 := by
  simp only [misconfigured, List.any_eq_true, Bool.and_eq_true, Bool.not_eq_true',
    decide_eq_false_iff_not]

theorem misconfigured_eq_false_iff {x : Nat} :
    s.misconfigured L x = false ↔ ∀ p ∈ s.walkPath L x, p.2.present = true → EntryWf p.1 p.2 := by
  simp only [misconfigured, List.any_eq_false, Bool.and_eq_true, Bool.not_eq_true',
    decide_eq_false_iff_not, not_and, not_not]

theorem full_pointTo (addr : BitVec 64) (e : Entry) : (pointTo addr e).Full := by
  simp [pointTo, Entry.Full]

theorem OpenPointers.of_eq {t : Ept} (h : OpenPointers L s) (h4 : t.pml4 = s.pml4)
    (h3 : t.pdpt = s.pdpt) (hpd : ∀ i j, t.pde i j = s.pde i j) : OpenPointers L t :=
  ⟨h.upper.of_upper_eq h4 h3, by rw [h4]; exact h.pml4, by rw [h3]; exact h.pdpt,
    fun i j => by rw [hpd]; exact h.pde i j⟩

theorem openPointers_identity {find : PaRange → Option MemoryType} (hres : Resolved find) :
    OpenPointers L (identity L find) where
  upper := upperTables_identity L find
  pml4 := by simpa [identity] using full_pointTo (L.addr .pdpt) ⟨0⟩
  pdpt i := by simpa [identity] using full_pointTo (L.addr (.pd i)) ⟨0⟩
  pde i j hl := by
    obtain ⟨_, -, k, -, hk⟩ := (inv_identity hres).table i j hl
    refine ⟨?_, k, hk⟩
    rw [pde_identity] at hl ⊢
    by_cases hℓ : 512 * i.val + j.val = 0
    · rw [identityPde, if_pos hℓ]; exact full_pointTo _ _
    · obtain ⟨m, hm⟩ :=
        Option.isSome_iff_exists.mp (hres.2 (512 * i.val + j.val) (by omega) (by omega))
      rw [identityPde, if_neg hℓ, hm] at hl
      simp [mapLargePage] at hl

theorem OpenPointers.splitWrite (h : OpenPointers L s) (g : BitVec 64) (i j : Fin 512)
    (k : Fin 64) : OpenPointers L (splitWrite L s g i j k) where
  upper := h.upper.of_upper_eq rfl rfl
  pml4 := h.pml4
  pdpt := h.pdpt
  pde i' j' := by
    rw [pde_splitWrite]
    split_ifs
    · exact fun _ => ⟨present_splitPde L _ k _, k, follow_splitPde L _ k _⟩
    · exact h.pde i' j'

theorem OpenPointers.setPde_large (h : OpenPointers L s) {i j : Fin 512} {e : Entry}
    (he : e.large = true) : OpenPointers L (s.setPde i j e) where
  upper := h.upper.of_upper_eq rfl rfl
  pml4 := h.pml4
  pdpt := h.pdpt
  pde i' j' := by
    rw [pde_setPde]
    split_ifs
    · exact fun hl => absurd (he.symm.trans hl) Bool.noConfusion
    · exact h.pde i' j'

theorem OpenPointers.setPte (h : OpenPointers L s) (k : Fin 64) (n : Fin 512) (e : Entry) :
    OpenPointers L (s.setPte k n e) :=
  h.of_eq rfl rfl fun _ _ => pde_setPte _ _ _ _ _ _

/-- No call closes a pointer: a split points its PD entry at a table with full rights, and the
other writes touch leaves only. -/
theorem OpenPointers.run (h : OpenPointers L s) (op : Op) : OpenPointers L (op.run L s).2 := by
  cases op with
  | split g idx =>
    rcases split2mbTo4kb_snd_cases L s g idx with hs | ⟨k, -, -, hs⟩ <;> rw [Op.run, hs]
    · exact h
    · exact h.splitWrite g _ _ k
  | modify g a idx =>
    rcases modifyPagePermissions_snd_cases s g a idx with hs | ⟨k, -, hs⟩ <;> rw [Op.run, hs]
    · exact h
    · rw [modifyWrite]
      split_ifs with hl
      · exact h.setPde_large (by rw [large_setAccess, hl])
      · exact h.setPte _ _ _
  | remap g hpa idx =>
    rcases remapGpaToHpa_snd_cases s g hpa idx with hs | ⟨k, -, hs⟩ <;> rw [Op.run, hs]
    · exact h
    · exact h.setPte _ _ _

theorem openPointers_of_reachable {find : PaRange → Option MemoryType}
    {allowed : Ept → Op → Prop} (hs : Reachable L find allowed s) : OpenPointers L s :=
  Reachable.induction_on _ hs openPointers_identity fun _ op ih _ => ih.run op

/-- In every state that `build_identity` and any calls of the three operations reach, each
pointer a walk passes grants read, write and execute, so an EPT violation reports the rights of
the translation. -/
theorem reachable_rights_eq_translation {find : PaRange → Option MemoryType}
    {allowed : Ept → Op → Prop} (hs : Reachable L find allowed s) (x : Nat) :
    s.rights L x = Translation.rights (s.translate L x) :=
  rights_eq (openPointers_of_reachable hs) x

/-- The identity map, from which any run starts, grants at 2MB the rights of its translation. -/
theorem reachable_rights_eq_translation_identity :
    let L : Layout := ⟨0, rfl, by decide⟩
    let find : PaRange → Option MemoryType := fun _ => some .writeBack
    Reachable L find (fun _ _ => True) (identity L find) ∧
      (identity L find).rights L 0x200000 =
        Translation.rights ((identity L find).translate L 0x200000) :=
  have hs : Reachable ⟨0, rfl, by decide⟩ (fun _ => some .writeBack) (fun _ _ => True)
      (identity ⟨0, rfl, by decide⟩ fun _ => some .writeBack) :=
    .identity (resolved_of_isSome _ fun _ => rfl)
  ⟨hs, reachable_rights_eq_translation hs 0x200000⟩

/-- Below 512 GiB, the PDPT and PD indices of `g` number its 2MB page. -/
theorem large_index_eq {g : BitVec 64} (hg2 : g.toNat < 2 ^ 39) :
    512 * (pdptIndex g).val + (pdIndex g).val = g.toNat / 2 ^ 21 := by
  simp only [pdptIndex, pdIndex, val_tableIndex]
  rw [Nat.mod_eq_of_lt (by omega : g.toNat / 2 ^ 30 < 512),
    show 2 ^ 30 = 2 ^ 21 * 512 by rfl, ← Nat.div_div_eq_div_mul]
  exact Nat.div_add_mod _ 512

/-- The PD entry of a 2MB page of the identity map holds the memory type `find` gives the page. -/
theorem toNat_memoryType_pde_identity {L : Layout} {find : PaRange → Option MemoryType}
    {i j : Fin 512} (h : 512 * i.val + j.val ≠ 0) {m : MemoryType}
    (hm : find (largeRange (512 * i.val + j.val)) = some m) :
    ((identity L find).pde i j).memoryType.toNat = m.code.val := by
  rw [pde_identity, identityPde, if_neg h, hm, toNat_memoryType_mapLargePage, toNat_toU64_mod]

/-- A split and one PT write leave the upper tables of the identity map as they are. -/
theorem upperTables_hide {L : Layout} {find : PaRange → Option MemoryType} (g : BitVec 64)
    (k : Fin 64) (n : Fin 512) (e : Entry) :
    UpperTables L ((splitWrite L (identity L find) g (pdptIndex g) (pdIndex g) k).setPte k n e) :=
  (upperTables_identity L find).of_upper_eq rfl rfl

/-- Inside the 2MB page of `g`, a walk in a split of the identity map into `pt[k]`, with one entry
of `pt[k]` rewritten, reads the upper entries of the identity map, the PD entry the split leaves
and an entry of `pt[k]`. -/
theorem walkPath_hide_of_eq {L : Layout} {find : PaRange → Option MemoryType} {g : BitVec 64}
    (hg2 : g.toNat < 2 ^ 39) (k : Fin 64) (n : Fin 512) (e : Entry) {x : Nat} (hx : x < 2 ^ 39)
    (hin : x / 2 ^ 21 = g.toNat / 2 ^ 21) :
    ((splitWrite L (identity L find) g (pdptIndex g) (pdIndex g) k).setPte k n e).walkPath L x =
      [(.pml4e, (identity L find).pml4.entries 0),
        (.pdpte, (identity L find).pdpt.entries (pdptIndex g)),
        (.pde, splitPde L ((identity L find).pde (pdptIndex g) (pdIndex g)).memoryType k
          ((identity L find).pde (pdptIndex g) (pdIndex g))),
        (.pte, ((splitWrite L (identity L find) g (pdptIndex g) (pdIndex g) k).setPte k n e).pte k
          (index x 12))] := by
  obtain ⟨h39, h30, h21⟩ := (large_page_iff (by omega : x < 2 ^ 48) hg2).1 hin
  rw [walkPath_eq (upperTables_hide g k n e), if_pos h39]
  simp only [pde_setPte, h30, h21, pde_splitWrite, and_self, if_true, large_splitPde,
    follow_splitPde, Bool.false_eq_true, if_false]
  rfl

/-- Inside a UC 2MB page of `g`, every entry the walk in the hidden state reads is well-formed,
when the access type grants write only with read. -/
theorem misconfigured_hide_uc {L : Layout} {find : PaRange → Option MemoryType} {g : BitVec 64}
    (hg1 : 2 ^ 21 ≤ g.toNat) (hg2 : g.toNat < 2 ^ 39)
    (huc : find (largeRange (g.toNat / 2 ^ 21)) = some ⟨0⟩) (k : Fin 64) {a : AccessType}
    (ha : a.contains .write = true → a.contains .read = true) {x : Nat} (hx : x < 2 ^ 39)
    (hin : x / 2 ^ 21 = g.toNat / 2 ^ 21) :
    ((splitWrite L (identity L find) g (pdptIndex g) (pdIndex g) k).setPte k (ptIndex g)
      (setAccess ((splitWrite L (identity L find) g (pdptIndex g) (pdIndex g) k).pte k
        (ptIndex g)) a)).misconfigured L x = false := by
  have hℓ := large_index_eq hg2
  have hm : ((identity L find).pde (pdptIndex g) (pdIndex g)).memoryType.toNat % 8 = 0 := by
    rw [toNat_memoryType_pde_identity (by omega) (by rw [hℓ]; exact huc)]; rfl
  have h6 : ((identity L find).pde (pdptIndex g) (pdIndex g)).bits.getLsbD 6 = false := by
    rw [pde_identity, identityPde, if_neg (by omega), hℓ, huc]
    dsimp only
    rw [getLsbD_six_mapLargePage]; rfl
  rw [misconfigured_eq_false_iff, walkPath_hide_of_eq hg2 k _ _ hx hin]
  intro p hp _
  simp only [List.mem_cons, List.mem_singleton, List.not_mem_nil, or_false] at hp
  rcases hp with rfl | rfl | rfl | rfl
  · exact (@entryWf_upper_identity L find).1
  · exact (@entryWf_upper_identity L find).2 _
  · exact entryWf_splitPde L hm k h6
  · have hpt := entryWf_mapPage (by rw [hm]; decide) (splitPteAddr g (index x 12))
      ((identity L find).pte k (index x 12))
    dsimp only
    rw [pte_setPte]
    split_ifs with hn
    · rw [pte_splitWrite, if_pos rfl, ← hn.2]; exact entryWf_setAccess hpt ha
    · rw [pte_splitWrite, if_pos rfl]; exact hpt

section Hide

variable {L : Layout} {find : PaRange → Option MemoryType} (hres : Resolved find)
include hres

/-- In the identity map every PD entry but the first is a 2MB leaf. -/
theorem large_pde_identity {i j : Fin 512} (h : 512 * i.val + j.val ≠ 0) :
    ((identity L find).pde i j).large = true := by
  obtain ⟨m, hm⟩ :=
    Option.isSome_iff_exists.mp (hres.2 (512 * i.val + j.val) (by omega) (by omega))
  rw [pde_identity, identityPde, if_neg h, hm]
  simp [mapLargePage]

/-- The identity map grants everything below 512 GiB and nothing above. -/
theorem rights_translate_identity {y : Nat} (hy : y < 2 ^ 48) :
    Translation.rights ((identity L find).translate L y) =
      if y < 2 ^ 39 then ⟨true, true, true⟩ else ⟨false, false, false⟩ := by
  split_ifs with h39
  · by_cases h21 : y < 2 ^ 21
    · obtain ⟨-, m, -, ht⟩ := translate_identity_low L find hres h21
      rw [ht]; rfl
    · obtain ⟨-, m, -, ht⟩ := translate_identity_high L find hres (Nat.le_of_not_lt h21) h39
      rw [ht]; rfl
  · rw [(translate_identity_above L find (by omega) hy).2]; rfl

/-- With a resolver of architectural types, no walk of the identity map is misconfigured. -/
theorem misconfigured_identity (harch : ∀ r m, find r = some m → m.IsArchitectural) (x : Nat) :
    (identity L find).misconfigured L x = false :=
  misconfigured_eq_false_iff.2 (entryWf_identity hres harch x)

/-- Hiding the page of a 4KB-aligned `g` above the first 2MB and below 512 GiB: the split writes
`pt[idx]` and the PD entry of `g`, and the permission edit then the PT entry of `g`. -/
theorem hide_eq {g : BitVec 64} (hg : g.toNat % 4096 = 0) (hg1 : 2 ^ 21 ≤ g.toNat)
    (hg2 : g.toNat < 2 ^ 39) {idx : Nat} (h1 : 1 ≤ idx) (h63 : idx ≤ 63) (a : AccessType) :
    (split2mbTo4kb L (identity L find) g idx).1 = .ok () ∧
      ((split2mbTo4kb L (identity L find) g idx).2.modifyPagePermissions g a idx).1 = .ok () ∧
      ∃ k : Fin 64, k.val = idx ∧
        (split2mbTo4kb L (identity L find) g idx).2 =
          splitWrite L (identity L find) g (pdptIndex g) (pdIndex g) k ∧
        ((split2mbTo4kb L (identity L find) g idx).2.modifyPagePermissions g a idx).2 =
          (splitWrite L (identity L find) g (pdptIndex g) (pdIndex g) k).setPte k (ptIndex g)
            (setAccess ((splitWrite L (identity L find) g (pdptIndex g) (pdIndex g) k).pte k
              (ptIndex g)) a) := by
  have hij : 512 * (pdptIndex g).val + (pdIndex g).val ≠ 0 := by rw [large_index_eq hg2]; omega
  have hsplit : (split2mbTo4kb L (identity L find) g idx).1 = .ok () :=
    (split2mbTo4kb_fst_eq_ok_iff _ _ _ _).2 ⟨by omega, by omega, large_pde_identity hres hij⟩
  have hmod : ((split2mbTo4kb L (identity L find) g idx).2.modifyPagePermissions g a idx).1 =
      .ok () :=
    (modifyPagePermissions_fst_eq_ok_iff _ _ _ _).2 ⟨by omega, by omega, hg⟩
  obtain ⟨k, hk, -, hP1⟩ := split2mbTo4kb_snd_of_ok L _ g idx hsplit
  obtain ⟨k', hk', hP2⟩ := modifyPagePermissions_snd_of_ok _ g a idx hmod
  obtain rfl : k' = k := Fin.ext (hk'.trans hk.symm)
  refine ⟨hsplit, hmod, k', hk', hP1, ?_⟩
  rw [hP2, hP1, modifyWrite,
    if_neg (by rw [pde_splitWrite, if_pos ⟨rfl, rfl⟩, large_splitPde]; decide)]

/-- Splitting the 2MB page of `g` out of the identity map into `pt[idx]`, then giving the 4KB page
of `g` the rights `a`: both calls succeed, and then the page of `g` grants what `a` contains,
every other address below 512 GiB grants everything, and the addresses above grant nothing. -/
theorem rights_hide {g : BitVec 64} (hg : g.toNat % 4096 = 0) (hg1 : 2 ^ 21 ≤ g.toNat)
    (hg2 : g.toNat < 2 ^ 39) {idx : Nat} (h1 : 1 ≤ idx) (h63 : idx ≤ 63) (a : AccessType) :
    (split2mbTo4kb L (identity L find) g idx).1 = .ok () ∧
      ((split2mbTo4kb L (identity L find) g idx).2.modifyPagePermissions g a idx).1 = .ok () ∧
      ∀ x,
        ((split2mbTo4kb L (identity L find) g idx).2.modifyPagePermissions g a idx).2.rights L x =
        if x % 2 ^ 48 / 4096 = g.toNat / 4096 then
          ⟨a.contains .read, a.contains .write, a.contains .execute⟩
        else if x % 2 ^ 48 < 2 ^ 39 then ⟨true, true, true⟩ else ⟨false, false, false⟩ := by
  obtain ⟨hsplit, hmod, k, hk, hP1, hP2⟩ := hide_eq hres hg hg1 hg2 h1 h63 a
  refine ⟨hsplit, hmod, fun x => ?_⟩
  have hfree : Unreferenced L (identity L find) idx := unreferenced_identity hres (by omega)
  have hinv1 := inv_split2mbTo4kb (inv_identity hres) g idx hfree
  rw [hP1] at hinv1
  rw [hP2]
  have hpde1 : (splitWrite L (identity L find) g (pdptIndex g) (pdIndex g) k).pde (pdptIndex g)
      (pdIndex g) = splitPde L ((identity L find).pde (pdptIndex g) (pdIndex g)).memoryType k
        ((identity L find).pde (pdptIndex g) (pdIndex g)) := by
    rw [pde_splitWrite, if_pos ⟨rfl, rfl⟩]
  have href : References L ((splitWrite L (identity L find) g (pdptIndex g) (pdIndex g) k).pde
      (pdptIndex g) (pdIndex g)) k.val :=
    ⟨by rw [hpde1, large_splitPde], k, rfl, by rw [hpde1, follow_splitPde]⟩
  have hu0 := upperTables_identity L find
  have hu1 : UpperTables L (splitWrite L (identity L find) g (pdptIndex g) (pdIndex g) k) :=
    hu0.of_upper_eq rfl rfl
  have hop1 := (openPointers_identity (L := L) hres).splitWrite g (pdptIndex g) (pdIndex g) k
  have hT1 := translate_splitWrite (i := pdptIndex g) (j := pdIndex g) hu0 (inv_identity hres)
    (hk ▸ hfree) g
  generalize splitWrite L (identity L find) g (pdptIndex g) (pdIndex g) k = P1
    at href hu1 hop1 hT1 hinv1 ⊢
  have hop : OpenPointers L (P1.setPte k (ptIndex g) (setAccess (P1.pte k (ptIndex g)) a)) :=
    hop1.of_eq rfl rfl fun _ _ => rfl
  have hy : x % 2 ^ 48 < 2 ^ 48 := Nat.mod_lt _ (by decide)
  rw [← rights_mod x, rights_eq hop, translate_setPte hu1 hinv1 href, hT1]
  simp only [← base_page_iff hy hg2, ← large_page_iff hy hg2]
  by_cases hin : x % 2 ^ 48 / 4096 = g.toNat / 4096
  · rw [if_pos hin, if_pos hin]
    simp only [Translation.rights, Translation.ofEntry, readable_setAccess, writable_setAccess,
      executable_setAccess]
  · rw [if_neg hin, if_neg hin]
    by_cases hin2 : x % 2 ^ 48 / 2 ^ 21 = g.toNat / 2 ^ 21
    · have h39 : x % 2 ^ 48 < 2 ^ 39 := by omega
      rw [if_pos hin2, if_pos h39]
      obtain ⟨hr, hw, hx⟩ := access_mapPage (((identity L find).pde (pdptIndex g)
        (pdIndex g)).memoryType) (splitPteAddr g (index (x % 2 ^ 48) 12))
        ((identity L find).pte k (index (x % 2 ^ 48) 12))
      simp only [Translation.rights, Translation.ofEntry, hr, hw, hx]
    · rw [if_neg hin2, rights_translate_identity hres hy]

/-- Below 512 GiB and outside the 2MB page of `g`, a walk in a split of the identity map into
`pt[k]`, `k ≠ 0`, with one entry of `pt[k]` rewritten, reads what it reads in the identity map. -/
theorem walkPath_hide {g : BitVec 64} (hg2 : g.toNat < 2 ^ 39) {k : Fin 64} (hk : k.val ≠ 0)
    (n : Fin 512) (e : Entry) {x : Nat} (hx : x < 2 ^ 39) (hin : x / 2 ^ 21 ≠ g.toNat / 2 ^ 21) :
    ((splitWrite L (identity L find) g (pdptIndex g) (pdIndex g) k).setPte k n e).walkPath L x =
      (identity L find).walkPath L x := by
  have hne : ¬(index x 30 = pdptIndex g ∧ index x 21 = pdIndex g) := fun h => hin <|
    (large_page_iff (by omega) hg2).2 ⟨Fin.ext (by simp only [index, Fin.val_zero]; omega), h⟩
  refine walkPath_congr (upperTables_identity L find) (upperTables_hide g k n e) rfl rfl x
    (by rw [pde_setPte, pde_splitWrite, if_neg hne]) fun hl t1 ht1 => ?_
  obtain ⟨idx, href⟩ := (inv_identity (L := L) hres).table _ _ hl
  obtain ⟨-, -, rfl⟩ := references_identity hres href
  obtain ⟨-, k0, hk0, hf⟩ := href
  obtain rfl : t1 = .pt k0 := Option.some.inj (ht1.symm.trans hf)
  have hk0k : k0 ≠ k := fun h => hk (h ▸ hk0)
  change pte _ k0 _ = pte _ k0 _
  rw [pte_setPte, if_neg fun h => hk0k h.1, pte_splitWrite, if_neg hk0k]

/-- Inside the 2MB page of `g`, where `find` does not make that page UC, the walk in a split of the
identity map reads the PD entry the split leaves, which is misconfigured. -/
theorem misconfigured_hide {g : BitVec 64} (hg1 : 2 ^ 21 ≤ g.toNat) (hg2 : g.toNat < 2 ^ 39)
    (huc : find (largeRange (g.toNat / 2 ^ 21)) ≠ some ⟨0⟩) (k : Fin 64) (n : Fin 512) (e : Entry)
    {x : Nat} (hx : x < 2 ^ 39) (hin : x / 2 ^ 21 = g.toNat / 2 ^ 21) :
    ((splitWrite L (identity L find) g (pdptIndex g) (pdIndex g) k).setPte k n e).misconfigured
      L x = true := by
  obtain ⟨m, hm⟩ := Option.isSome_iff_exists.mp (hres.2 (g.toNat / 2 ^ 21) (by omega) (by omega))
  have hm8 : ((identity L find).pde (pdptIndex g) (pdIndex g)).memoryType.toNat % 8 ≠ 0 := by
    rw [toNat_memoryType_pde_identity (by rw [large_index_eq hg2]; omega)
      (by rw [large_index_eq hg2]; exact hm), Nat.mod_eq_of_lt m.code.isLt]
    exact fun h => huc (by rw [hm]; cases m; congr; exact Fin.ext h)
  rw [misconfigured_eq_true_iff, walkPath_hide_of_eq hg2 k n e hx hin]
  refine ⟨_, List.mem_cons_of_mem _ (List.mem_cons_of_mem _ (List.mem_cons_self _ _)), ?_,
    not_entryWf_splitPde L hm8 k _⟩
  simp only [Entry.present, (present_splitPde L _ k _).1, Bool.true_or]

/-- Where the 2MB page of `g` is not UC, the walks of the state `rights_hide` describes find an EPT
misconfiguration in that page and grant everything elsewhere below 512 GiB. -/
theorem walked_hide (harch : ∀ r m, find r = some m → m.IsArchitectural) {g : BitVec 64}
    (hg : g.toNat % 4096 = 0) (hg1 : 2 ^ 21 ≤ g.toNat) (hg2 : g.toNat < 2 ^ 39)
    (huc : find (largeRange (g.toNat / 2 ^ 21)) ≠ some ⟨0⟩) {idx : Nat} (h1 : 1 ≤ idx)
    (h63 : idx ≤ 63) (a : AccessType) {x : Nat} (hx : x < 2 ^ 39) :
    ((split2mbTo4kb L (identity L find) g idx).2.modifyPagePermissions g a idx).2.walked L x =
      if x / 2 ^ 21 = g.toNat / 2 ^ 21 then .misconfigured else .grants ⟨true, true, true⟩ := by
  obtain ⟨-, -, k, hk, -, hP⟩ := hide_eq hres hg hg1 hg2 h1 h63 a
  rw [hP]
  split_ifs with hin
  · rw [walked, if_pos (misconfigured_hide hres hg1 hg2 huc k _ _ hx hin)]
  · have hx48 : x < 2 ^ 48 := by omega
    rw [walked_congr (walkPath_hide hres hg2 (by omega) _ _ hx hin), walked,
      misconfigured_identity hres harch, if_neg Bool.false_ne_true,
      rights_eq (openPointers_identity hres), rights_translate_identity hres hx48, if_pos hx]

/-- Where the 2MB page of `g` is UC, no walk of the hidden state below 512 GiB is misconfigured,
and each grants the rights `rights_hide` gives. -/
theorem walked_hide_uc (harch : ∀ r m, find r = some m → m.IsArchitectural) {g : BitVec 64}
    (hg : g.toNat % 4096 = 0) (hg1 : 2 ^ 21 ≤ g.toNat) (hg2 : g.toNat < 2 ^ 39)
    (huc : find (largeRange (g.toNat / 2 ^ 21)) = some ⟨0⟩) {idx : Nat} (h1 : 1 ≤ idx)
    (h63 : idx ≤ 63) {a : AccessType} (ha : a.contains .write = true → a.contains .read = true)
    {x : Nat} (hx : x < 2 ^ 39) :
    ((split2mbTo4kb L (identity L find) g idx).2.modifyPagePermissions g a idx).2.walked L x =
      .grants (if x / 4096 = g.toNat / 4096 then
          ⟨a.contains .read, a.contains .write, a.contains .execute⟩
        else ⟨true, true, true⟩) := by
  obtain ⟨-, -, k, hk, -, hP⟩ := hide_eq hres hg hg1 hg2 h1 h63 a
  have hmis : ((split2mbTo4kb L (identity L find) g idx).2.modifyPagePermissions g a
      idx).2.misconfigured L x = false := by
    rw [hP]
    by_cases hin : x / 2 ^ 21 = g.toNat / 2 ^ 21
    · exact misconfigured_hide_uc hg1 hg2 huc k ha hx hin
    · rw [misconfigured, walkPath_hide hres hg2 (by omega) _ _ hx hin]
      exact misconfigured_identity hres harch x
  rw [walked, hmis, if_neg Bool.false_ne_true, (rights_hide hres hg hg1 hg2 h1 h63 a).2.2 x,
    Nat.mod_eq_of_lt (by omega : x < 2 ^ 48), if_pos hx]

end Hide

end Ept

/-- Modelled from the spec: what the walk of `x` finds under an EPTP when the primary `Ept` lies at
`Lp` and the secondary at `Ls`: the walk starts from the PML4 the EPTP names, and an EPTP naming
neither maps nothing. -/
def platformView (Lp Ls : Layout) (primary secondary : Ept) (eptp : BitVec 64) (x : Nat) :
    Walked :=
  if pml4FrameOf eptp = Lp.frame .pml4 then primary.walked Lp x
  else if pml4FrameOf eptp = Ls.frame .pml4 then secondary.walked Ls x
  else .grants ⟨false, false, false⟩

/-- With the primary and secondary EPTPs that `create_eptp_with_wb_and_4lvl_walk` gives two
`Ept`s at different addresses, each EPTP selects its own `Ept`. -/
theorem platformView_eptp {Lp Ls : Layout} {ep es : BitVec 64} (hb : Lp.base ≠ Ls.base)
    (hp : createEptpWithWbAnd4lvlWalk Lp = .ok ep) (hs : createEptpWithWbAnd4lvlWalk Ls = .ok es)
    (primary secondary : Ept) :
    platformView Lp Ls primary secondary ep = primary.walked Lp ∧
      platformView Lp Ls primary secondary es = secondary.walked Ls := by
  have hne : Ls.frame .pml4 ≠ Lp.frame .pml4 := by
    have := Lp.aligned
    have := Ls.aligned
    simp only [Layout.frame, TableRef.slot]
    omega
  refine ⟨funext fun x => ?_, funext fun x => ?_⟩
  · rw [platformView, if_pos (pml4FrameOf_eq hp)]
  · rw [platformView, pml4FrameOf_eq hs, if_neg hne, if_pos rfl]

/-- With a UC 2MB page of `g`, the two hidden maps give the EPTPs of `main` the views of the hiding
scheme on the page of `g`, and grant everything elsewhere below 512 GiB. -/
theorem hides_platform_uc {Lp Ls : Layout} (hb : Lp.base ≠ Ls.base)
    {find : PaRange → Option MemoryType} (hres : Ept.Resolved find)
    (harch : ∀ r m, find r = some m → m.IsArchitectural) {g : BitVec 64}
    (hg : g.toNat % 4096 = 0) (hg1 : 2 ^ 21 ≤ g.toNat) (hg2 : g.toNat < 2 ^ 39)
    (huc : find (largeRange (g.toNat / 2 ^ 21)) = some ⟨0⟩) {idx : Nat} (h1 : 1 ≤ idx)
    (h63 : idx ≤ 63) {ep es : BitVec 64} (hp : createEptpWithWbAnd4lvlWalk Lp = .ok ep)
    (hs : createEptpWithWbAnd4lvlWalk Ls = .ok es) :
    let view := platformView Lp Ls
      ((Ept.split2mbTo4kb Lp (Ept.identity Lp find) g idx).2.modifyPagePermissions g
        .readWrite idx).2
      ((Ept.split2mbTo4kb Ls (Ept.identity Ls find) g idx).2.modifyPagePermissions g
        .execute idx).2
    Hides view ep es (fun x => x / 4096 = g.toNat / 4096) ∧
      ∀ x < 2 ^ 39, x / 4096 ≠ g.toNat / 4096 →
        view ep x = .grants ⟨true, true, true⟩ ∧ view es x = .grants ⟨true, true, true⟩ := by
  intro view
  obtain ⟨hvp, hvs⟩ : view ep = _ ∧ view es = _ := platformView_eptp hb hp hs _ _
  have wp := fun x (hx : x < 2 ^ 39) =>
    Ept.walked_hide_uc (L := Lp) hres harch hg hg1 hg2 huc h1 h63 (a := .readWrite) (by decide) hx
  have ws := fun x (hx : x < 2 ^ 39) =>
    Ept.walked_hide_uc (L := Ls) hres harch hg hg1 hg2 huc h1 h63 (a := .execute) (by decide) hx
  refine ⟨⟨fun x hx => ?_, fun x hx => ?_⟩, fun x hx hne => ⟨?_, ?_⟩⟩
  · rw [hvp, wp x (by omega), if_pos hx]; rfl
  · rw [hvs, ws x (by omega), if_pos hx]; rfl
  · rw [hvp, wp x hx, if_neg hne]
  · rw [hvs, ws x hx, if_neg hne]

/-- `main`'s two identity maps with the 4KB page of `g` hidden, where `find` does not make the 2MB
page of `g` UC: every call succeeds, and on either EPTP an instruction below 512 GiB exits the
hypervisor at once if it accesses that 2MB page and retires at once otherwise. -/
theorem hidden_page_halts_hypervisor (Lp Ls : Layout) (hb : Lp.base ≠ Ls.base)
    (find : PaRange → Option MemoryType) (hres : Ept.Resolved find)
    (harch : ∀ r m, find r = some m → m.IsArchitectural) (g : BitVec 64)
    (hg : g.toNat % 4096 = 0) (hg1 : 2 ^ 21 ≤ g.toNat) (hg2 : g.toNat < 2 ^ 39)
    (huc : find (largeRange (g.toNat / 2 ^ 21)) ≠ some ⟨0⟩) (idx : Nat) (h1 : 1 ≤ idx)
    (h63 : idx ≤ 63) :
    let p1 := Ept.split2mbTo4kb Lp (Ept.identity Lp find) g idx
    let p2 := p1.2.modifyPagePermissions g .readWrite idx
    let s1 := Ept.split2mbTo4kb Ls (Ept.identity Ls find) g idx
    let s2 := s1.2.modifyPagePermissions g .execute idx
    p1.1 = .ok () ∧ p2.1 = .ok () ∧ s1.1 = .ok () ∧ s2.1 = .ok () ∧
      ∀ vm : Vm, createEptpWithWbAnd4lvlWalk Lp = .ok vm.primaryEptp →
        createEptpWithWbAnd4lvlWalk Ls = .ok vm.secondaryEptp → vm.OnEither →
        ∀ instr : Instruction, (∀ acc ∈ instr, acc.2 < 2 ^ 39) → ∀ fuel,
          execute (platformView Lp Ls p2.2 s2.2) instr (fuel + 1) vm =
            if ∃ acc ∈ instr, acc.2 / 2 ^ 21 = g.toNat / 2 ^ 21 then
              some (.exited .exitHypervisor vm)
            else some (.retired vm) := by
  intro p1 p2 s1 s2
  obtain ⟨hp1, hp2, -⟩ := Ept.hide_eq (L := Lp) hres hg hg1 hg2 h1 h63 .readWrite
  obtain ⟨hs1, hs2, -⟩ := Ept.hide_eq (L := Ls) hres hg hg1 hg2 h1 h63 .execute
  refine ⟨hp1, hp2, hs1, hs2, fun vm hp hs he instr hlow fuel => ?_⟩
  have hv : ∀ acc ∈ instr, platformView Lp Ls p2.2 s2.2 vm.eptp acc.2 =
      if acc.2 / 2 ^ 21 = g.toNat / 2 ^ 21 then .misconfigured else .grants ⟨true, true, true⟩ := by
    intro acc hacc
    obtain ⟨hvp, hvs⟩ := platformView_eptp hb hp hs p2.2 s2.2
    rcases he with he | he <;> rw [he]
    · rw [hvp]; exact Ept.walked_hide hres harch hg hg1 hg2 huc h1 h63 _ (hlow acc hacc)
    · rw [hvs]; exact Ept.walked_hide hres harch hg hg1 hg2 huc h1 h63 _ (hlow acc hacc)
  have hff := firstFault_of_full (v := platformView Lp Ls p2.2 s2.2 vm.eptp) fun acc hacc => by
    rw [hv acc hacc]; split_ifs
    · exact .inl rfl
    · exact .inr rfl
  have hmis : (∃ acc ∈ instr, platformView Lp Ls p2.2 s2.2 vm.eptp acc.2 = .misconfigured) ↔
      ∃ acc ∈ instr, acc.2 / 2 ^ 21 = g.toNat / 2 ^ 21 :=
    exists_congr fun acc => and_congr_right fun hacc => by
      rw [hv acc hacc]; split_ifs with h <;> simp only [h, reduceCtorEq]
  split_ifs with hin
  · exact execute_of_misconfiguration (by rw [hff, if_pos (hmis.2 hin)])
  · exact execute_of_none (by rw [hff, if_neg (mt hmis.1 hin)])

/-- The page at `2^21` hidden in write-back maps at `0` and `2^22`: an instruction fetched from it
exits the hypervisor on its first run. -/
theorem hidden_page_fetch_halts :
    let Lp : Layout := ⟨0, rfl, by decide⟩
    let Ls : Layout := ⟨2 ^ 22, rfl, by decide⟩
    let find : PaRange → Option MemoryType := fun _ => some .writeBack
    let p2 := ((Ept.split2mbTo4kb Lp (Ept.identity Lp find) 0x200000 1).2.modifyPagePermissions
      0x200000 .readWrite 1).2
    let s2 := ((Ept.split2mbTo4kb Ls (Ept.identity Ls find) 0x200000 1).2.modifyPagePermissions
      0x200000 .execute 1).2
    execute (platformView Lp Ls p2 s2) [(.fetch, 0x200000), (.read, 0x400000)] 1
      ⟨30, 30, 0x40001E, []⟩ = some (.exited .exitHypervisor ⟨30, 30, 0x40001E, []⟩) :=
  ((hidden_page_halts_hypervisor ⟨0, rfl, by decide⟩ ⟨2 ^ 22, rfl, by decide⟩ (by decide)
    (fun _ => some .writeBack) (Ept.resolved_of_isSome _ fun _ => rfl)
    (fun _ _ h => by simp only [Option.some.injEq] at h; subst h; decide) 0x200000 (by decide)
    (by decide) (by decide) (by decide) 1 le_rfl (by decide)).2.2.2.2 ⟨30, 30, 0x40001E, []⟩
    ((createEptpWithWbAnd4lvlWalk_eq _).trans (congrArg Except.ok (by decide)))
    ((createEptpWithWbAnd4lvlWalk_eq _).trans (congrArg Except.ok (by decide))) (.inl rfl) _
    (by decide) 0).trans (if_pos (by decide))

end IllusionEpt
