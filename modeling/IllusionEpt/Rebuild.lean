import IllusionEpt.Reachable

/-!
# Running `build_identity` again

`build_identity` points `pd[0][0]` at `pt[0]` without clearing its large flag,
and rewrites every other field the walk reads. No call of the three operations
makes a PD entry large, so `pd[0][0]` stays small over every run. A second
`build_identity` on any reachable state therefore succeeds and gives back the
translation of the identity map at every address: it undoes every split,
permission edit and remap, though the tables it leaves differ from the first.
-/

namespace IllusionEpt

set_option autoImplicit false

/-- No call makes a PD entry large. -/
theorem Op.large_run (L : Layout) (op : Op) (s : Ept) (i j : Fin 512)
    (h : ((op.run L s).2.pde i j).large = true) : (s.pde i j).large = true := by
  cases op with
  | split g idx =>
    rcases Ept.split2mbTo4kb_snd_cases L s g idx with hs | ⟨k, -, -, hs⟩
    · rwa [Op.run, hs] at h
    · rw [Op.run, hs, Ept.pde_splitWrite] at h
      split_ifs at h
      · rw [Ept.large_splitPde] at h; cases h
      · exact h
  | modify g a idx => rwa [Op.run, Ept.large_modifyPagePermissions] at h
  | remap g hp idx => rwa [Op.run, Ept.pde_remapGpaToHpa] at h

namespace Reachable

variable {L : Layout} {find : PaRange → Option MemoryType} {allowed : Ept → Op → Prop} {s : Ept}

/-- A PD entry that is a 2MB leaf in a reachable state is one in the identity map. -/
theorem large_pde (hs : Reachable L find allowed s) {i j : Fin 512}
    (h : (s.pde i j).large = true) : ((Ept.identity L find).pde i j).large = true :=
  Reachable.induction_on (fun t => ∀ i j, (t.pde i j).large = true →
      ((Ept.identity L find).pde i j).large = true) hs (fun _ _ _ h => h)
    (fun s op ih _ i j h => ih i j (op.large_run L s i j h)) i j h

/-- `pd[0][0]` is never a 2MB leaf. -/
theorem large_pde_zero (hs : Reachable L find allowed s) : (s.pde 0 0).large = false := by
  have h0 : ((Ept.identity L find).pde 0 0).large = false := by
    rw [Ept.pde_identity, Ept.identityPde, if_pos (by simp), Ept.large_pointTo]; decide
  cases h : (s.pde 0 0).large
  · rfl
  · rw [hs.large_pde h] at h0; cases h0

end Reachable

namespace Ept

variable (L : Layout) (find : PaRange → Option MemoryType)

/-- From any `s` whose only present PML4 entry is the first and whose `pd[0][0]` is not a 2MB leaf,
a completed `build_identity` translates every guest-physical address as the identity map does. -/
theorem translate_identityUpTo_eq {s : Ept}
    (h4 : ∀ i, i ≠ 0 → (s.pml4.entries i).present = false) (hl : (s.pde 0 0).large = false)
    (hres : Resolved find) {x : Nat} (hx : x < 2 ^ 48) :
    (identityUpTo L find s 512 (512 * 512) 512).translate L x = (identity L find).translate L x := by
  have hu := upperTables_identityUpTo L find h4 (512 * 512) 512
  rcases Nat.lt_or_ge x (2 ^ 21) with h1 | h1
  · obtain ⟨-, m, hm, ht⟩ := translate_identityUpTo_low L find hu hl hres h1
    obtain ⟨-, m', hm', ht'⟩ := translate_identity_low L find hres h1
    obtain rfl : m = m' := Option.some.inj (hm.symm.trans hm')
    rw [ht, ht']
  rcases Nat.lt_or_ge x (2 ^ 39) with h2 | h2
  · obtain ⟨-, m, hm, ht⟩ := translate_identityUpTo_high L find hu hres h1 h2
    obtain ⟨-, m', hm', ht'⟩ := translate_identity_high L find hres h1 h2
    obtain rfl : m = m' := Option.some.inj (hm.symm.trans hm')
    rw [ht, ht']
  · have h39 : index x 39 ≠ 0 := fun h => by
      have := congrArg Fin.val h; simp [index] at this; omega
    rw [translate_of_index_ne hu h39, translate_of_index_ne (upperTables_identity L find) h39]

end Ept

/-- `build_identity` run again on any state that calls of the three operations reach, whatever the
calls were, succeeds, and the `Ept` it leaves translates every guest-physical address as the
identity map does: every split, permission edit and remap is undone. -/
theorem buildIdentity_of_reachable {L : Layout} {find : PaRange → Option MemoryType}
    {allowed : Ept → Op → Prop} {s : Ept} (hs : Reachable L find allowed s) :
    ∃ t, Ept.buildIdentity L find s = (.ok (), t) ∧
      ∀ x < 2 ^ 48, t.translate L x = (Ept.identity L find).translate L x := by
  have hres := hs.resolved
  have h4 : ∀ i, i ≠ 0 → (s.pml4.entries i).present = false := fun i hi => by
    rw [hs.upper.1]; exact (Ept.upperTables_identity L find).pml4_other i hi
  exact ⟨_, (Ept.buildIdentity_eq_ok_iff L find s _).2 ⟨hres, rfl⟩,
    fun x hx => Ept.translate_identityUpTo_eq L find h4 hs.large_pde_zero hres hx⟩

theorem buildIdentity_of_reachable_split :
    let L : Layout := ⟨0, rfl, by decide⟩
    let find : PaRange → Option MemoryType := fun _ => some .writeBack
    Reachable L find (fun _ _ => True) ((Op.split 0x200000 1).run L (Ept.identity L find)).2 ∧
      ∃ t, Ept.buildIdentity L find ((Op.split 0x200000 1).run L (Ept.identity L find)).2 =
          (.ok (), t) ∧
        ∀ x < 2 ^ 48, t.translate L x = (Ept.identity L find).translate L x := by
  intro L find
  have hs : Reachable L find (fun _ _ => True) ((Op.split 0x200000 1).run L (Ept.identity L find)).2 :=
    .step _ (.identity (Ept.resolved_of_isSome find fun _ => rfl)) trivial
  exact ⟨hs, buildIdentity_of_reachable hs⟩

end IllusionEpt
