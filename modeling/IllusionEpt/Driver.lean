import IllusionEpt.IdentityMap

/-!
# The driver entry point

`main` initialises the UEFI services, zaps the relocations, identity-maps a
zeroed primary and a zeroed secondary `Ept`, and starts the hypervisor on every
processor with the two. A failed `uefi_services::init` panics, and the panic
handler never returns; every later failure returns `ABORTED`. Both calls of
`build_identity` read the same MTRRs, so one `find` serves both.
-/

namespace IllusionEpt

set_option autoImplicit false

/-- The two values of `uefi::Status` that `main` returns. -/
inductive Status where
  | success
  | aborted
deriving DecidableEq, Repr

/-- `panic_handler` (`main.rs`, lines 29-47): it logs the panic and loops, so it never returns. -/
def panicHandler : Option Status := none

section Main

variable {ε ε' δ : Type} (uefiServicesInit : Except ε' Unit) (zapRelocations : Except ε Unit)
  (Lp Ls : Layout) (find : PaRange → Option MemoryType)
  (startHypervisorOnAllProcessors : Ept → Ept → Except δ Unit)

/-- `main` (`main.rs`, lines 66-110), given what `uefi_services::init` and `zap_relocations`
return, the layouts `Lp` and `Ls` of the two boxes of `box_zeroed`, and the start-up handed the two
`Ept`s; `none` when `main` does not return. -/
def main : Option Status :=
  match uefiServicesInit with
  | .error _ => panicHandler
  | .ok () =>
    match zapRelocations with
    | .error _ => some .aborted
    | .ok () =>
      let primaryEpt := Ept.zeroed
      let secondaryEpt := Ept.zeroed
      match Ept.buildIdentity Lp find primaryEpt with
      | (.error _, _) => some .aborted
      | (.ok (), primaryEpt) =>
        match Ept.buildIdentity Ls find secondaryEpt with
        | (.error _, _) => some .aborted
        | (.ok (), secondaryEpt) =>
          match startHypervisorOnAllProcessors primaryEpt secondaryEpt with
          | .error _ => some .aborted
          | .ok () => some .success

/-- `main` never returns exactly when `uefi_services::init` fails, and it returns `SUCCESS` exactly
when that call and `zap_relocations` succeed, `find` classifies every range `build_identity` asks
about, and the hypervisor starts with the identity maps of the two `Ept`s. -/
theorem main_outcome_iff :
    (main uefiServicesInit zapRelocations Lp Ls find startHypervisorOnAllProcessors = none ↔
        ∃ e, uefiServicesInit = .error e) ∧
      (main uefiServicesInit zapRelocations Lp Ls find startHypervisorOnAllProcessors =
          some .success ↔
        uefiServicesInit = .ok () ∧ zapRelocations = .ok () ∧ Ept.Resolved find ∧
          startHypervisorOnAllProcessors (Ept.identity Lp find) (Ept.identity Ls find) =
            .ok ()) := by
  rcases uefiServicesInit with e | ⟨⟩
  · exact ⟨iff_of_true rfl ⟨e, rfl⟩, iff_of_false (by rintro ⟨⟩) (by rintro ⟨⟨⟩, -⟩)⟩
  unfold main
  rcases zapRelocations with e | ⟨⟩
  · simp
  dsimp only
  by_cases hres : Ept.Resolved find
  · rw [Ept.buildIdentity_zeroed _ _ hres, Ept.buildIdentity_zeroed _ _ hres]
    dsimp only
    cases startHypervisorOnAllProcessors (Ept.identity Lp find) (Ept.identity Ls find) <;>
      simp [hres]
  · obtain ⟨e, t, hb⟩ := Ept.buildIdentity_eq_error Lp find hres Ept.zeroed
    rw [hb]
    simp [hres]

end Main

end IllusionEpt
