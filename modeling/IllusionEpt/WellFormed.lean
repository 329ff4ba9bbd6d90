import IllusionEpt.Contract

/-!
# Entries the processor may read, and EPT misconfigurations

`EntryWf` is what rules out an EPT misconfiguration at an entry the walk reads:
no write without read, bits 3..7 clear in an entry that references a table,
and a 2MB-aligned frame and an architectural memory type in a leaf. The
identity map meets it on every walk. A split does not: it writes the memory
type of the large page into bits 5..3 of the PD entry it leaves.
-/

namespace IllusionEpt

set_option autoImplicit false

open BitVec

/-- The level at which the walk reads an entry. -/
inductive Level where
  | pml4e
  | pdpte
  | pde
  | pte
deriving DecidableEq, Repr

namespace Entry

/-- Write access only together with read access. -/
def WriteImpliesRead (e : Entry) : Prop := e.writable = true → e.readable = true

/-- The memory type field holds UC, WC, WT, WP or WB. -/
def HasArchitecturalType (e : Entry) : Prop := e.memoryType.toNat ∈ [0, 1, 4, 5, 6]

instance (e : Entry) : Decidable e.WriteImpliesRead :=
  inferInstanceAs (Decidable (_ → _))

instance (e : Entry) : Decidable e.HasArchitecturalType :=
  inferInstanceAs (Decidable (_ ∈ _))

end Entry

/-- Modelled from the spec: a present entry read at a level is well-formed. -/
def EntryWf : Level → Entry → Prop
  | .pml4e, e => e.WriteImpliesRead ∧ bitRange e.bits 7 3 = 0
  | .pdpte, e => e.WriteImpliesRead ∧ bitRange e.bits 7 3 = 0
  | .pde, e => e.WriteImpliesRead ∧
      if e.large then e.pfn.toNat % 512 = 0 ∧ e.HasArchitecturalType else bitRange e.bits 7 3 = 0
  | .pte, e => e.WriteImpliesRead ∧ e.HasArchitecturalType

instance : (l : Level) → (e : Entry) → Decidable (EntryWf l e)
  | .pml4e, e => inferInstanceAs (Decidable (e.WriteImpliesRead ∧ _))
  | .pdpte, e => inferInstanceAs (Decidable (e.WriteImpliesRead ∧ _))
  | .pde, e => inferInstanceAs (Decidable (e.WriteImpliesRead ∧ if e.large then _ else _))
  | .pte, e => inferInstanceAs (Decidable (e.WriteImpliesRead ∧ _))

namespace Ept

variable (L : Layout) (s : Ept)

/-- The entries the walk of `x` reads, each with its level, in the order it reads them. -/
def walkPath (x : Nat) : List (Level × Entry) :=
  let e4 := s.pml4.entries (index x 39)
  (.pml4e, e4) ::
    match L.follow e4 with
    | none => []
    | some t3 =>
      let e3 := (s.table t3).entries (index x 30)
      (.pdpte, e3) ::
        match L.follow e3 with
        | none => []
        | some t2 =>
          let e2 := (s.table t2).entries (index x 21)
          (.pde, e2) ::
            if e2.large then []
            else
              match L.follow e2 with
              | none => []
              | some t1 => [(.pte, (s.table t1).entries (index x 12))]

variable {L s}

theorem walkPath_eq (h : UpperTables L s) (x : Nat) :
    s.walkPath L x =
      if index x 39 = 0 then
        (.pml4e, s.pml4.entries 0) :: (.pdpte, s.pdpt.entries (index x 30)) ::
          (.pde, s.pde (index x 30) (index x 21)) ::
            if (s.pde (index x 30) (index x 21)).large then []
            else
              match L.follow (s.pde (index x 30) (index x 21)) with
              | none => []
              | some t1 => [(.pte, (s.table t1).entries (index x 12))]
      else [(.pml4e, s.pml4.entries (index x 39))] := by
  by_cases h0 : index x 39 = 0
  · simp only [walkPath, h0, h.pml4_root, table, h.pdpt, if_true]; rfl
  · simp [walkPath, h0, Layout.follow, h.pml4_other _ h0]

/-- The walk of `x` in `t` reads the entries it reads in `s` when the two agree on the upper
tables, on the PD entry of `x` and on the entry it leads to. -/
theorem walkPath_congr {t : Ept} (hs : UpperTables L s) (ht : UpperTables L t)
    (h4 : t.pml4 = s.pml4) (h3 : t.pdpt = s.pdpt) (x : Nat)
    (hpde : t.pde (index x 30) (index x 21) = s.pde (index x 30) (index x 21))
    (hleaf : (s.pde (index x 30) (index x 21)).large = false → ∀ t1,
      L.follow (s.pde (index x 30) (index x 21)) = some t1 →
        (t.table t1).entries (index x 12) = (s.table t1).entries (index x 12)) :
    t.walkPath L x = s.walkPath L x := by
  rw [walkPath_eq hs, walkPath_eq ht, h4, h3, hpde]
  split_ifs with _ hl
  · rfl
  · cases hf : L.follow (s.pde (index x 30) (index x 21)) with
    | none => rfl
    | some t1 => dsimp only; rw [hleaf (by simpa using hl) t1 hf]
  · rfl

end Ept

theorem hasArchitecturalType_of_toNat {e : Entry} {m : MemoryType} (hm : m.IsArchitectural)
    (h : e.memoryType.toNat = m.toU64.toNat % 8) : e.HasArchitecturalType := by
  rw [Entry.HasArchitecturalType, h, toNat_toU64_mod]; exact hm

namespace Ept

/-- A table pointer written by `build_identity` into a zeroed entry is well-formed at every level. -/
theorem entryWf_pointTo (addr : BitVec 64) :
    EntryWf .pml4e (pointTo addr ⟨0⟩) ∧ EntryWf .pdpte (pointTo addr ⟨0⟩) ∧
      EntryWf .pde (pointTo addr ⟨0⟩) := by
  have h : (pointTo addr ⟨0⟩).WriteImpliesRead ∧ bitRange (pointTo addr ⟨0⟩).bits 7 3 = 0 := by
    simp [Entry.WriteImpliesRead, pointTo]
  exact ⟨h, h, h.1, by rw [if_neg (by simp [pointTo])]; exact h.2⟩

/-- The PD entry a split leaves is not well-formed unless the large page it replaces is UC: its
bits 5..3 hold that page's memory type. -/
theorem not_entryWf_splitPde (L : Layout) {m : BitVec 64} (hm : m.toNat % 8 ≠ 0) (k : Fin 64)
    (e : Entry) : ¬EntryWf .pde (splitPde L m k e) := by
  rintro ⟨-, hwf⟩
  rw [if_neg (by rw [large_splitPde]; decide), bitRange_eq_zero_iff _ (by decide) (by decide)]
    at hwf
  have hmt : (splitPde L m k e).memoryType = 0 :=
    (bitRange_eq_zero_iff _ (by decide) (by decide)).2 fun i h3 h5 => hwf i h3 (by omega)
  have h8 := toNat_memoryType_splitPde L m k e
  rw [hmt] at h8
  exact hm h8.symm

/-- The PD entry a split of a UC large page leaves is well-formed, when bit 6 of that page is
clear. -/
theorem entryWf_splitPde (L : Layout) {m : BitVec 64} (hm : m.toNat % 8 = 0) (k : Fin 64)
    {e : Entry} (h6 : e.bits.getLsbD 6 = false) : EntryWf .pde (splitPde L m k e) := by
  refine ⟨fun _ => (present_splitPde L m k e).1, ?_⟩
  rw [if_neg (by rw [large_splitPde]; decide), bitRange_eq_zero_iff _ (by decide) (by decide)]
  have hmt : (splitPde L m k e).memoryType = 0 :=
    BitVec.eq_of_toNat_eq (by rw [toNat_memoryType_splitPde, hm]; rfl)
  have h7 := large_splitPde L m k e
  rw [Entry.large, bit_eq_getLsbD (by decide)] at h7
  intro i h3 h7'
  rcases (by omega : i ≤ 5 ∨ i = 6 ∨ i = 7) with h | rfl | rfl
  · exact (bitRange_eq_zero_iff _ (by decide) (by decide)).1 hmt i h3 h
  · rw [getLsbD_six_splitPde, h6]
  · exact h7

/-- A leaf of full rights with an architectural memory type is a well-formed PT entry. -/
theorem entryWf_mapPage {m : BitVec 64} (hm : m.toNat % 8 ∈ [0, 1, 4, 5, 6]) (pa : BitVec 64)
    (e : Entry) : EntryWf .pte (mapPage m pa e) :=
  ⟨fun _ => (access_mapPage m pa e).1, by
    rw [Entry.HasArchitecturalType, toNat_memoryType_mapPage]; exact hm⟩

/-- A permission edit keeps a PT entry well-formed when its access type grants write only with
read. -/
theorem entryWf_setAccess {e : Entry} (he : EntryWf .pte e) {a : AccessType}
    (ha : a.contains .write = true → a.contains .read = true) : EntryWf .pte (setAccess e a) :=
  ⟨fun hw => by rw [readable_setAccess]; rw [writable_setAccess] at hw; exact ha hw, by
    rw [Entry.HasArchitecturalType, memoryType_setAccess]; exact he.2⟩

variable {L : Layout} {find : PaRange → Option MemoryType}

/-- The PML4 entry and the PDPT entries of the identity map are well-formed. -/
theorem entryWf_upper_identity :
    EntryWf .pml4e ((identity L find).pml4.entries 0) ∧
      ∀ i, EntryWf .pdpte ((identity L find).pdpt.entries i) :=
  ⟨by simpa [identity] using (entryWf_pointTo (L.addr .pdpt)).1,
    fun i => by simpa [identity] using (entryWf_pointTo (L.addr (.pd i))).2.1⟩

section Identity

variable (hres : Resolved find) (harch : ∀ r m, find r = some m → m.IsArchitectural)
include hres harch

theorem entryWf_pde_identity (i j : Fin 512) : EntryWf .pde ((identity L find).pde i j) := by
  by_cases hℓ : 512 * i.val + j.val = 0
  · rw [pde_identity, identityPde, if_pos hℓ]
    exact (entryWf_pointTo _).2.2
  · have hframe := (inv_identity (L := L) hres).frame i j
    obtain ⟨m, hm⟩ :=
      Option.isSome_iff_exists.mp (hres.2 (512 * i.val + j.val) (by omega) (by omega))
    have hpde : (identity L find).pde i j =
        mapLargePage m.toU64 (.ofNat 64 ((512 * i.val + j.val) * largePageSize)) ⟨0⟩ := by
      rw [pde_identity, identityPde, if_neg hℓ, hm]
    have hl : ((identity L find).pde i j).large = true := by rw [hpde]; simp [mapLargePage]
    refine ⟨by rw [hpde]; exact fun _ => (access_mapLargePage _ _ _).1, ?_⟩
    rw [if_pos hl, hframe hl]
    refine ⟨by omega, ?_⟩
    rw [hpde]
    exact hasArchitecturalType_of_toNat (harch _ _ hm) (toNat_memoryType_mapLargePage _ _ _)

theorem entryWf_pte_identity (n : Fin 512) : EntryWf .pte ((identity L find).pte 0 n) := by
  obtain ⟨m, hm⟩ := Option.isSome_iff_exists.mp (hres.1 n n.isLt)
  rw [pte_identity, identityPte, hm]
  exact ⟨fun _ => (access_mapPage _ _ _).1,
    hasArchitecturalType_of_toNat (harch _ _ hm) (toNat_memoryType_mapPage _ _ _)⟩

/-- With a resolver of architectural types, every present entry a walk of the identity map reads is
well-formed. -/
theorem entryWf_identity (x : Nat) :
    ∀ p ∈ (identity L find).walkPath L x, p.2.present = true → EntryWf p.1 p.2 := by
  rintro ⟨l, e⟩ hp hpres
  rw [walkPath_eq (upperTables_identity L find)] at hp
  by_cases h0 : index x 39 = 0
  · rw [if_pos h0] at hp
    simp only [List.mem_cons, Prod.mk.injEq] at hp
    rcases hp with ⟨rfl, rfl⟩ | ⟨rfl, rfl⟩ | ⟨rfl, rfl⟩ | hp
    · exact (@entryWf_upper_identity L find).1
    · exact (@entryWf_upper_identity L find).2 _
    · exact entryWf_pde_identity hres harch _ _
    · split_ifs at hp with hl
      · simp at hp
      · obtain ⟨idx, href⟩ := (inv_identity (L := L) hres).table _ _ (by simpa using hl)
        obtain ⟨-, -, rfl⟩ := references_identity hres href
        obtain ⟨-, k, hk, hf⟩ := href
        obtain rfl : k = 0 := Fin.ext hk
        simp only [hf, List.mem_singleton, Prod.mk.injEq] at hp
        obtain ⟨rfl, rfl⟩ := hp
        exact entryWf_pte_identity (L := L) hres harch _
  · rw [if_neg h0, List.mem_singleton, Prod.mk.injEq] at hp
    obtain ⟨rfl, rfl⟩ := hp
    rw [(upperTables_identity L find).pml4_other _ h0] at hpres
    cases hpres

end Identity

end Ept

theorem entryWf_identity_writeBack :
    let L : Layout := ⟨0, rfl, by decide⟩
    let find : PaRange → Option MemoryType := fun _ => some .writeBack
    Ept.Resolved find ∧ (∀ r m, find r = some m → m.IsArchitectural) ∧
      ∀ p ∈ (Ept.identity L find).walkPath L 0, p.2.present = true → EntryWf p.1 p.2 :=
  have hres : Ept.Resolved (fun _ => some .writeBack) := Ept.resolved_of_isSome _ fun _ => rfl
  have harch : ∀ r m, (fun _ : PaRange => some MemoryType.writeBack) r = some m →
      m.IsArchitectural := by
    intro r m h; simp only [Option.some.injEq] at h; subst h; decide
  ⟨hres, harch, Ept.entryWf_identity hres harch 0⟩

/-- Two calls with in-range arguments each leave a present entry on a walk that is not
well-formed: a split leaves a PD entry with bits 5..3 = 6 (the WB type of the page it split), and a
write-only permission edit leaves a 2MB leaf with write and no read. -/
theorem walk_entry_not_wf_after_split :
    let L : Layout := ⟨0, rfl, by decide⟩
    let find : PaRange → Option MemoryType := fun _ => some .writeBack
    let s1 := (Op.run L (.split 0x200000 1) (Ept.identity L find)).2
    let s2 := (Op.run L (.modify 0x200000 .write 1) (Ept.identity L find)).2
    (∀ r m, find r = some m → m.IsArchitectural) ∧
      Reachable L find (fun _ _ => True) s1 ∧ Reachable L find (fun _ _ => True) s2 ∧
      (∃ p ∈ s1.walkPath L 0x200000, p.1 = .pde ∧ p.2.present = true ∧ p.2.large = false ∧
        bitRange p.2.bits 5 3 = 6 ∧ ¬EntryWf p.1 p.2) ∧
      ∃ p ∈ s2.walkPath L 0x200000, p.2.present = true ∧ p.2.writable = true ∧
        p.2.readable = false ∧ ¬EntryWf p.1 p.2 := by
  refine ⟨?_, .step _ (.identity (Ept.resolved_of_isSome _ fun _ => rfl)) trivial,
    .step _ (.identity (Ept.resolved_of_isSome _ fun _ => rfl)) trivial, by decide, by decide⟩
  intro r m h; simp only [Option.some.injEq] at h; subst h; decide

end IllusionEpt
