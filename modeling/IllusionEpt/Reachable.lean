import IllusionEpt.Guards

/-!
# Runs of an `Ept`

An `Ept` is built once by `build_identity` and then changed in place by
`split_2mb_to_4kb`, `modify_page_permissions` and `remap_gpa_to_hpa`, each
call returning `Ok` or `Err`. `Reachable` is the set of states such a run
reaches when every call is one that `allowed` admits in the state it is made
in: any call for the well-formedness results, the callers' contract for the
translation results. `Reachable.induction_on` packages the induction once.
-/

namespace IllusionEpt

set_option autoImplicit false

/-- A call of one of the three operations, with its arguments. -/
inductive Op where
  | split (guestPa : BitVec 64) (ptTableIndex : Nat)
  | modify (guestPa : BitVec 64) (accessType : AccessType) (ptTableIndex : Nat)
  | remap (guestPa hostPa : BitVec 64) (ptTableIndex : Nat)
deriving DecidableEq, Repr

/-- Make the call on `s`. -/
def Op.run (L : Layout) : Op → Ept → Outcome Ept
  | .split g idx, s => s.split2mbTo4kb L g idx
  | .modify g a idx, s => s.modifyPagePermissions g a idx
  | .remap g h idx, s => s.remapGpaToHpa g h idx

/-- The states reached from a zeroed `Ept` by a successful `build_identity` and then any number of
calls admitted by `allowed`, whatever each returns. -/
inductive Reachable (L : Layout) (find : PaRange → Option MemoryType) (allowed : Ept → Op → Prop) :
    Ept → Prop
  | build {s : Ept} : Ept.buildIdentity L find Ept.zeroed = (.ok (), s) → Reachable L find allowed s
  | step {s : Ept} (op : Op) : Reachable L find allowed s → allowed s op →
      Reachable L find allowed (op.run L s).2

namespace Reachable

variable {L : Layout} {find : PaRange → Option MemoryType} {allowed : Ept → Op → Prop}

/-- A property of the identity map that every admitted call preserves holds in every reachable
state. -/
theorem induction_on (P : Ept → Prop) {s : Ept} (hs : Reachable L find allowed s)
    (hbuild : Ept.Resolved find → P (Ept.identity L find))
    (hstep : ∀ s op, P s → allowed s op → P (op.run L s).2) : P s := by
  induction hs with
  | build hb =>
    obtain ⟨hres, rfl⟩ := (Ept.buildIdentity_eq_ok_iff L find _ _).1 hb
    exact hbuild hres
  | step op _ hop ih => exact hstep _ op ih hop

theorem identity (hres : Ept.Resolved find) : Reachable L find allowed (Ept.identity L find) :=
  .build (Ept.buildIdentity_zeroed L find hres)

theorem resolved {s : Ept} (hs : Reachable L find allowed s) : Ept.Resolved find := by
  induction hs with
  | build hb => exact ((Ept.buildIdentity_eq_ok_iff L find _ _).1 hb).1
  | step _ _ _ ih => exact ih

end Reachable

/-- No call writes the PML4 or the PDPT. -/
theorem Op.upper_run (L : Layout) (op : Op) (s : Ept) :
    (op.run L s).2.pml4 = s.pml4 ∧ (op.run L s).2.pdpt = s.pdpt := by
  cases op with
  | split g idx =>
    rcases Ept.split2mbTo4kb_snd_cases L s g idx with h | ⟨k, -, -, h⟩ <;>
      simp [Op.run, h, Ept.splitWrite]
  | modify g a idx =>
    rcases Ept.modifyPagePermissions_snd_cases s g a idx with h | ⟨k, -, h⟩
    · simp [Op.run, h]
    · simp only [Op.run, h, Ept.modifyWrite]
      split <;> simp
  | remap g h idx =>
    rcases Ept.remapGpaToHpa_snd_cases s g h idx with h | ⟨k, -, h⟩ <;>
      simp [Op.run, h, Ept.remapWrite]

/-- Every reachable state keeps the PML4 and PDPT of the identity map. -/
theorem Reachable.upper {L : Layout} {find : PaRange → Option MemoryType}
    {allowed : Ept → Op → Prop} {s : Ept} (hs : Reachable L find allowed s) :
    s.pml4 = (Ept.identity L find).pml4 ∧ s.pdpt = (Ept.identity L find).pdpt :=
  Reachable.induction_on (fun t => t.pml4 = _ ∧ t.pdpt = _) hs (fun _ => ⟨rfl, rfl⟩)
    fun s op ih _ => by simp only [(op.upper_run L s).1, (op.upper_run L s).2]; exact ih

theorem Reachable.upperTables {L : Layout} {find : PaRange → Option MemoryType}
    {allowed : Ept → Op → Prop} {s : Ept} (hs : Reachable L find allowed s) :
    Ept.UpperTables L s :=
  (Ept.upperTables_identity L find).of_upper_eq hs.upper.1 hs.upper.2

end IllusionEpt
