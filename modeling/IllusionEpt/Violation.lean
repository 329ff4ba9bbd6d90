import Mathlib.Data.BitVec

/-!
# The EPT-violation handler and the faulting instruction

`handle_ept_violation` loads the secondary EPTP on a read-write qualification
and the primary EPTP on an execute-only one, each followed by an INVEPT, and
returns `Continue`. Over any run of exits the EPTP stays one of the two, and
the handler refines the spec's two-state machine. An instruction retires, or
its first faulting access ends in an EPT violation, after which it runs again,
or in an EPT misconfiguration, which is fatal. Under the views of the hiding
scheme, one that fetches from a hidden page and reads or writes it never retires.
-/

namespace IllusionEpt

set_option autoImplicit false

/-- `ExitType` of `vmexit/mod.rs`. -/
inductive ExitType where
  | exitHypervisor
  | incrementRip
  | continue
deriving DecidableEq, Repr

/-- The fields of `EptViolationExitQualification` that `handle_ept_violation` reads: whether the
faulting guest-physical address was readable, writable and executable. -/
structure EptViolationExitQualification where
  readable : Bool
  writable : Bool
  executable : Bool
deriving DecidableEq, Repr

/-- The kind of a guest access to memory. -/
inductive Access where
  | read
  | write
  | fetch
deriving DecidableEq, Repr

namespace EptViolationExitQualification

/-- Read and write, no execute: the view of a hidden page in the primary `Ept`. -/
def readWrite : EptViolationExitQualification := ⟨true, true, false⟩

/-- Execute only: the view of a hidden page in the secondary `Ept`. -/
def executeOnly : EptViolationExitQualification := ⟨false, false, true⟩

/-- Whether an address with these rights allows an access of kind `a`. -/
def permits (q : EptViolationExitQualification) : Access → Bool
  | .read => q.readable
  | .write => q.writable
  | .fetch => q.executable

theorem readWrite_permits {a : Access} : readWrite.permits a = true ↔ a ≠ .fetch := by
  cases a <;> decide

theorem executeOnly_permits {a : Access} : executeOnly.permits a = true ↔ a = .fetch := by
  cases a <;> decide

end EptViolationExitQualification

open EptViolationExitQualification

/-- What the handler does to the processor, in order. -/
inductive Effect where
  | vmwriteEptp (value : BitVec 64)
  | inveptAllContexts
deriving DecidableEq, Repr

/-- The part of `Vm` and its VMCS that the handler reads and writes: the EPTP control field, the
EPTPs of the primary and the secondary `Ept` in `shared_data`, and the effects made so far. -/
structure Vm where
  eptp : BitVec 64
  primaryEptp : BitVec 64
  secondaryEptp : BitVec 64
  effects : List Effect
deriving DecidableEq, Repr

namespace Vm

variable (vm : Vm) (value : BitVec 64)

/-- `vmwrite(vmcs::control::EPTP_FULL, value)`. -/
def vmwriteEptp : Vm := { vm with eptp := value, effects := vm.effects ++ [.vmwriteEptp value] }

/-- `invept_all_contexts()`. -/
def inveptAllContexts : Vm := { vm with effects := vm.effects ++ [.inveptAllContexts] }

/-- What both branches of the handler do: load an EPTP, then invalidate every EPT context. -/
def switchTo : Vm := (vm.vmwriteEptp value).inveptAllContexts

@[simp] theorem eptp_switchTo : (vm.switchTo value).eptp = value := rfl
@[simp] theorem primaryEptp_switchTo : (vm.switchTo value).primaryEptp = vm.primaryEptp := rfl
@[simp] theorem secondaryEptp_switchTo : (vm.switchTo value).secondaryEptp = vm.secondaryEptp := rfl
@[simp] theorem effects_switchTo :
    (vm.switchTo value).effects = vm.effects ++ [.vmwriteEptp value, .inveptAllContexts] := by
  simp [switchTo, vmwriteEptp, inveptAllContexts]

/-- The EPTP field holds the primary or the secondary EPTP. -/
def OnEither : Prop := vm.eptp = vm.primaryEptp ∨ vm.eptp = vm.secondaryEptp

end Vm

/-- `handle_ept_violation`, from the decoded exit qualification. -/
def handleEptViolation (q : EptViolationExitQualification) (vm : Vm) : ExitType × Vm :=
  let vm := if q.readable && q.writable && !q.executable then vm.switchTo vm.secondaryEptp else vm
  let vm := if !q.readable && !q.writable && q.executable then vm.switchTo vm.primaryEptp else vm
  (.continue, vm)

/-- `handle_ept_misconfiguration`: after the breakpoint, leave the hypervisor. -/
def handleEptMisconfiguration : ExitType := .exitHypervisor

/-- The handler continues the guest, loading the secondary EPTP for a read-write page, the primary
EPTP for an execute-only page, and nothing otherwise. -/
theorem handleEptViolation_eq (q : EptViolationExitQualification) (vm : Vm) :
    handleEptViolation q vm =
      (.continue, if q = readWrite then vm.switchTo vm.secondaryEptp
        else if q = executeOnly then vm.switchTo vm.primaryEptp else vm) := by
  obtain ⟨r, w, x⟩ := q
  cases r <;> cases w <;> cases x <;> rfl

section Step

variable (q : EptViolationExitQualification) (vm : Vm)

@[simp] theorem primaryEptp_handleEptViolation :
    (handleEptViolation q vm).2.primaryEptp = vm.primaryEptp := by
  rw [handleEptViolation_eq]; split_ifs <;> rfl

@[simp] theorem secondaryEptp_handleEptViolation :
    (handleEptViolation q vm).2.secondaryEptp = vm.secondaryEptp := by
  rw [handleEptViolation_eq]; split_ifs <;> rfl

/-- One exit either changes nothing or loads one of the two EPTPs and invalidates. -/
theorem handleEptViolation_cases :
    (handleEptViolation q vm).2 = vm ∨
      ∃ v, (v = vm.primaryEptp ∨ v = vm.secondaryEptp) ∧
        (handleEptViolation q vm).2 = vm.switchTo v := by
  rw [handleEptViolation_eq]
  split_ifs
  · exact .inr ⟨_, .inr rfl, rfl⟩
  · exact .inr ⟨_, .inl rfl, rfl⟩
  · exact .inl rfl

theorem onEither_handleEptViolation (h : vm.OnEither) : (handleEptViolation q vm).2.OnEither := by
  rcases handleEptViolation_cases q vm with hq | ⟨v, hv, hq⟩
  · rwa [hq]
  · simpa only [Vm.OnEither, hq, Vm.eptp_switchTo, Vm.primaryEptp_switchTo,
      Vm.secondaryEptp_switchTo] using hv

end Step

/-- The handler run on a sequence of EPT violations, one after another. -/
def handleAll : List EptViolationExitQualification → Vm → Vm
  | [], vm => vm
  | q :: qs, vm => handleAll qs (handleEptViolation q vm).2

section Run

variable (qs : List EptViolationExitQualification)

@[simp] theorem primaryEptp_handleAll (vm : Vm) :
    (handleAll qs vm).primaryEptp = vm.primaryEptp := by
  induction qs generalizing vm with
  | nil => rfl
  | cons q qs ih => rw [handleAll, ih, primaryEptp_handleEptViolation]

@[simp] theorem secondaryEptp_handleAll (vm : Vm) :
    (handleAll qs vm).secondaryEptp = vm.secondaryEptp := by
  induction qs generalizing vm with
  | nil => rfl
  | cons q qs ih => rw [handleAll, ih, secondaryEptp_handleEptViolation]

theorem onEither_handleAll {vm : Vm} (h : vm.OnEither) : (handleAll qs vm).OnEither := by
  induction qs generalizing vm with
  | nil => exact h
  | cons q qs ih => exact ih (onEither_handleEptViolation q vm h)

/-- What a run does to the processor: loads of the two EPTPs, each followed by an INVEPT. -/
theorem effects_handleAll (vm : Vm) :
    ∃ vs : List (BitVec 64), (∀ v ∈ vs, v = vm.primaryEptp ∨ v = vm.secondaryEptp) ∧
      (handleAll qs vm).effects =
        vm.effects ++ vs.flatMap fun v => [.vmwriteEptp v, .inveptAllContexts] := by
  induction qs generalizing vm with
  | nil => exact ⟨[], by simp, by simp [handleAll]⟩
  | cons q qs ih =>
    obtain ⟨vs, hvs, heff⟩ := ih (handleEptViolation q vm).2
    simp only [primaryEptp_handleEptViolation, secondaryEptp_handleEptViolation] at hvs
    rcases handleEptViolation_cases q vm with hq | ⟨v, hv, hq⟩
    · rw [hq] at heff
      exact ⟨vs, hvs, by rw [handleAll, hq]; exact heff⟩
    · refine ⟨v :: vs, ?_, ?_⟩
      · simpa using ⟨hv, hvs⟩
      · rw [handleAll, heff, hq]; simp

end Run

/-- Over any sequence of EPT violations the EPTP field stays one of the two EPTPs of `shared_data`,
and what the handler does is a sequence of loads of one of them, each followed at once by an INVEPT
of all contexts. -/
theorem handleAll_spec (qs : List EptViolationExitQualification) :
    ∀ vm : Vm, vm.OnEither →
      (handleAll qs vm).OnEither ∧ (handleAll qs vm).primaryEptp = vm.primaryEptp ∧
        (handleAll qs vm).secondaryEptp = vm.secondaryEptp ∧
        ∃ vs : List (BitVec 64), (∀ v ∈ vs, v = vm.primaryEptp ∨ v = vm.secondaryEptp) ∧
          (handleAll qs vm).effects =
            vm.effects ++ vs.flatMap fun v => [.vmwriteEptp v, .inveptAllContexts] :=
  fun vm h => ⟨onEither_handleAll qs h, primaryEptp_handleAll qs vm,
    secondaryEptp_handleAll qs vm, effects_handleAll qs vm⟩

theorem handleAll_spec_round_trip :
    let vm : Vm := ⟨1, 1, 2, []⟩
    let qs := [readWrite, executeOnly]
    vm.OnEither ∧ (handleAll qs vm).OnEither ∧
      (handleAll qs vm).primaryEptp = vm.primaryEptp ∧
      (handleAll qs vm).secondaryEptp = vm.secondaryEptp ∧
      ∃ vs : List (BitVec 64), (∀ v ∈ vs, v = vm.primaryEptp ∨ v = vm.secondaryEptp) ∧
        (handleAll qs vm).effects =
          vm.effects ++ vs.flatMap fun v => [.vmwriteEptp v, .inveptAllContexts] :=
  ⟨.inl rfl, handleAll_spec _ _ (.inl rfl)⟩

/-! ## The two-state machine of the spec -/

/-- Modelled from the spec: which of the two `Ept` roots the EPTP field holds. -/
inductive ActiveEpt where
  | primary
  | secondary
deriving DecidableEq, Repr

namespace ActiveEpt

/-- Modelled from the spec: a violation reported read-write activates the secondary `Ept`, one
reported execute-only the primary, and any other changes nothing. -/
def onViolation : ActiveEpt → EptViolationExitQualification → ActiveEpt
  | _, ⟨true, true, false⟩ => .secondary
  | _, ⟨false, false, true⟩ => .primary
  | st, _ => st

/-- The EPTP of `shared_data` that names the `Ept` of a state. -/
def eptpIn (vm : Vm) : ActiveEpt → BitVec 64
  | .primary => vm.primaryEptp
  | .secondary => vm.secondaryEptp

end ActiveEpt

/-- The state of the machine that the EPTP field of `vm` is in. -/
def Vm.active (vm : Vm) : ActiveEpt := if vm.eptp = vm.primaryEptp then .primary else .secondary

section Refinement

variable {vm : Vm} (hne : vm.primaryEptp ≠ vm.secondaryEptp)
include hne

theorem eptp_eq_eptpIn (h : vm.OnEither) : vm.eptp = vm.active.eptpIn vm := by
  rcases h with h | h <;> simp [Vm.active, ActiveEpt.eptpIn, h, Ne.symm hne]

/-- One exit moves the handler's state as the machine moves. -/
theorem active_handleEptViolation (q : EptViolationExitQualification) :
    (handleEptViolation q vm).2.active = vm.active.onViolation q := by
  rw [handleEptViolation_eq]
  obtain ⟨r, w, x⟩ := q
  cases r <;> cases w <;> cases x <;>
    simp [readWrite, executeOnly, ActiveEpt.onViolation, Vm.active, Ne.symm hne]

/-- A run moves the handler's state as the machine moves on the same qualifications. -/
theorem active_handleAll (qs : List EptViolationExitQualification) :
    (handleAll qs vm).active = qs.foldl ActiveEpt.onViolation vm.active := by
  induction qs generalizing vm with
  | nil => rfl
  | cons q qs ih =>
    rw [handleAll, List.foldl_cons, ← active_handleEptViolation hne q]
    exact ih (by simpa only [primaryEptp_handleEptViolation, secondaryEptp_handleEptViolation])

end Refinement

/-- With two different EPTPs in `shared_data`, the handler refines the two-state machine of the
spec over any run: the state its EPTP field is in is the one the machine reaches on the same
qualifications, and the field holds that state's EPTP. -/
theorem handleAll_refines (qs : List EptViolationExitQualification) :
    ∀ vm : Vm, vm.primaryEptp ≠ vm.secondaryEptp → vm.OnEither →
      (handleAll qs vm).active = qs.foldl ActiveEpt.onViolation vm.active ∧
        (handleAll qs vm).eptp = (qs.foldl ActiveEpt.onViolation vm.active).eptpIn vm := by
  intro vm hne h
  have hne' : (handleAll qs vm).primaryEptp ≠ (handleAll qs vm).secondaryEptp := by simpa
  refine ⟨active_handleAll hne qs, ?_⟩
  rw [eptp_eq_eptpIn hne' (onEither_handleAll qs h), active_handleAll hne qs]
  cases qs.foldl ActiveEpt.onViolation vm.active <;> simp [ActiveEpt.eptpIn]

theorem handleAll_refines_round_trip :
    let vm : Vm := ⟨1, 1, 2, []⟩
    let qs := [readWrite, ⟨true, false, false⟩, executeOnly, readWrite]
    vm.primaryEptp ≠ vm.secondaryEptp ∧ vm.OnEither ∧
      (handleAll qs vm).active = qs.foldl ActiveEpt.onViolation vm.active ∧
        (handleAll qs vm).eptp = (qs.foldl ActiveEpt.onViolation vm.active).eptpIn vm :=
  ⟨by decide, .inl rfl, handleAll_refines _ _ (by decide) (.inl rfl)⟩

/-! ## Re-executing the faulting instruction -/

/-- An instruction's memory accesses, each with its kind and guest-physical address. -/
abbrev Instruction := List (Access × Nat)

/-- Modelled from the spec: what the walk of an address in the active EPT finds, a present entry
that is not well-formed or else the rights the walk grants. -/
inductive Walked where
  | misconfigured
  | grants (q : EptViolationExitQualification)
deriving DecidableEq, Repr

/-- Modelled from the spec: the VM exit a faulting access causes. -/
inductive Fault where
  | violation (q : EptViolationExitQualification)
  | misconfiguration
deriving DecidableEq, Repr

/-- Modelled from the spec: the exit that the first faulting access of an instruction causes, for
the walk results `view`. -/
def firstFault (view : Nat → Walked) : Instruction → Option Fault
  | [] => none
  | (a, x) :: rest =>
    match view x with
    | .misconfigured => some .misconfiguration
    | .grants q => if q.permits a then firstFault view rest else some (.violation q)

/-- How running an instruction ends: it retires, or a handler returns another exit than
`Continue`. -/
inductive Run where
  | retired (vm : Vm)
  | exited (exit : ExitType) (vm : Vm)

/-- Modelled from the spec: run an instruction on the walk results of the EPT the EPTP field names.
An EPT violation runs `handle_ept_violation`, and the instruction again if it continues the guest;
an EPT misconfiguration runs `handle_ept_misconfiguration`. `none` when `fuel` runs out. -/
def execute (view : BitVec 64 → Nat → Walked) (instr : Instruction) : Nat → Vm → Option Run
  | 0, _ => none
  | fuel + 1, vm =>
    match firstFault (view vm.eptp) instr with
    | none => some (.retired vm)
    | some (.violation q) =>
      match handleEptViolation q vm with
      | (.continue, vm') => execute view instr fuel vm'
      | (exit, vm') => some (.exited exit vm')
    | some .misconfiguration => some (.exited handleEptMisconfiguration vm)

section Execute

variable {view : BitVec 64 → Nat → Walked} {instr : Instruction}

/-- Where every address of an instruction is misconfigured or grants everything, its first fault is
a misconfiguration exactly when one of its addresses is misconfigured. -/
theorem firstFault_of_full {v : Nat → Walked}
    (hv : ∀ p ∈ instr, v p.2 = .misconfigured ∨ v p.2 = .grants ⟨true, true, true⟩) :
    firstFault v instr =
      if ∃ p ∈ instr, v p.2 = .misconfigured then some .misconfiguration else none := by
  induction instr with
  | nil => simp [firstFault]
  | cons p rest ih =>
    obtain ⟨a, x⟩ := p
    have hrest := ih fun q hq => hv q (List.mem_cons_of_mem _ hq)
    rcases hv (a, x) (List.mem_cons_self _ _) with h | h <;> dsimp only at h
    · simp only [firstFault, h]
      rw [if_pos ⟨(a, x), List.mem_cons_self _ _, h⟩]
    · have hp : (⟨true, true, true⟩ : EptViolationExitQualification).permits a = true := by
        cases a <;> rfl
      simp only [firstFault, h, hp, if_true, hrest, List.mem_cons, exists_eq_or_imp, reduceCtorEq,
        false_or]

theorem firstFault_eq_none_iff {v : Nat → Walked} :
    firstFault v instr = none ↔ ∀ p ∈ instr, ∃ q, v p.2 = .grants q ∧ q.permits p.1 = true := by
  induction instr with
  | nil => simp [firstFault]
  | cons p rest ih =>
    obtain ⟨a, x⟩ := p
    rw [List.forall_mem_cons, ← ih]
    simp only [firstFault]
    cases v x with
    | misconfigured => simp
    | grants q => by_cases hq : q.permits a = true <;> simp [hq]

/-- The first fault is a misconfiguration at a misconfigured address or a violation at an address
whose rights deny the access. -/
theorem firstFault_eq_some {v : Nat → Walked} {f : Fault} (h : firstFault v instr = some f) :
    ∃ p ∈ instr, v p.2 = .misconfigured ∧ f = .misconfiguration ∨
      ∃ q, v p.2 = .grants q ∧ q.permits p.1 = false ∧ f = .violation q := by
  induction instr with
  | nil => cases h
  | cons p rest ih =>
    obtain ⟨a, x⟩ := p
    simp only [firstFault] at h
    cases hv : v x with
    | misconfigured =>
      rw [hv] at h; cases h
      exact ⟨(a, x), List.mem_cons_self _ _, .inl ⟨hv, rfl⟩⟩
    | grants q =>
      rw [hv] at h; dsimp only at h
      split at h
      · obtain ⟨p, hp, hf⟩ := ih h
        exact ⟨p, List.mem_cons_of_mem _ hp, hf⟩
      · cases h
        exact ⟨(a, x), List.mem_cons_self _ _, .inr ⟨q, hv, Bool.eq_false_iff.2 ‹_›, rfl⟩⟩

theorem execute_of_none {fuel : Nat} {vm : Vm} (h : firstFault (view vm.eptp) instr = none) :
    execute view instr (fuel + 1) vm = some (.retired vm) := by
  simp only [execute, h]

theorem execute_of_misconfiguration {fuel : Nat} {vm : Vm}
    (h : firstFault (view vm.eptp) instr = some .misconfiguration) :
    execute view instr (fuel + 1) vm = some (.exited .exitHypervisor vm) := by
  simp only [execute, h]; rfl

theorem execute_of_violation {fuel : Nat} {vm : Vm} {q : EptViolationExitQualification}
    (h : firstFault (view vm.eptp) instr = some (.violation q)) :
    execute view instr (fuel + 1) vm = execute view instr fuel (handleEptViolation q vm).2 := by
  simp only [execute, h, handleEptViolation_eq]

end Execute

/-- The views of the execute/data hiding scheme on the addresses `hidden`: under the primary EPTP a
hidden address may be read and written but not executed, under the secondary EPTP only executed. -/
structure Hides (view : BitVec 64 → Nat → Walked) (primaryEptp secondaryEptp : BitVec 64)
    (hidden : Nat → Prop) : Prop where
  primary : ∀ x, hidden x → view primaryEptp x = .grants readWrite
  secondary : ∀ x, hidden x → view secondaryEptp x = .grants executeOnly

section Hiding

variable {view : BitVec 64 → Nat → Walked} {hidden : Nat → Prop} {instr : Instruction} {vm : Vm}
  (hv : Hides view vm.primaryEptp vm.secondaryEptp hidden)
  (hrest : ∀ p ∈ instr, ¬hidden p.2 → view vm.primaryEptp p.2 = .grants ⟨true, true, true⟩ ∧
    view vm.secondaryEptp p.2 = .grants ⟨true, true, true⟩)
include hv hrest

/-- An instruction faults under hiding views, from either EPTP, only with an EPT violation at a
hidden address. -/
theorem firstFault_hides {e : BitVec 64} (he : e = vm.primaryEptp ∨ e = vm.secondaryEptp)
    {f : Fault} (h : firstFault (view e) instr = some f) :
    ∃ p ∈ instr, hidden p.2 ∧ ∃ q, view e p.2 = .grants q ∧ q.permits p.1 = false ∧
      f = .violation q := by
  obtain ⟨p, hp, hf⟩ := firstFault_eq_some h
  have hfull : ¬hidden p.2 → view e p.2 = .grants ⟨true, true, true⟩ := fun hx => by
    rcases he with rfl | rfl
    · exact (hrest p hp hx).1
    · exact (hrest p hp hx).2
  by_cases hx : hidden p.2
  · rcases hf with ⟨hm, -⟩ | hq
    · rcases he with rfl | rfl
      · rw [hv.primary _ hx] at hm; cases hm
      · rw [hv.secondary _ hx] at hm; cases hm
    · exact ⟨p, hp, hx, hq⟩
  · rw [hfull hx] at hf
    rcases hf with ⟨⟨⟩, -⟩ | ⟨q, ⟨⟩, hq, -⟩
    generalize p.1 = a at hq
    cases a <;> cases hq

/-- An instruction whose accesses to hidden addresses are all fetches runs in the secondary view,
and one whose accesses to them are all data accesses runs in the primary view. -/
theorem firstFault_of_hides :
    ((∀ p ∈ instr, hidden p.2 → p.1 = .fetch) → firstFault (view vm.secondaryEptp) instr = none) ∧
      ((∀ p ∈ instr, hidden p.2 → p.1 ≠ .fetch) →
        firstFault (view vm.primaryEptp) instr = none) := by
  constructor
  · intro hk
    cases h : firstFault (view vm.secondaryEptp) instr with
    | none => rfl
    | some f =>
      obtain ⟨p, hp, hx, q, hq, hden, -⟩ := firstFault_hides hv hrest (.inr rfl) h
      rw [hv.secondary _ hx] at hq; cases hq
      rw [executeOnly_permits.2 (hk p hp hx)] at hden; cases hden
  · intro hk
    cases h : firstFault (view vm.primaryEptp) instr with
    | none => rfl
    | some f =>
      obtain ⟨p, hp, hx, q, hq, hden, -⟩ := firstFault_hides hv hrest (.inl rfl) h
      rw [hv.primary _ hx] at hq; cases hq
      rw [readWrite_permits.2 (hk p hp hx)] at hden; cases hden

/-- Under hiding views, an instruction whose accesses to hidden addresses are all fetches, or all
data accesses, retires after at most one EPT violation, whichever of the two EPTPs is loaded. -/
theorem execute_two_of_hides (he : vm.OnEither)
    (hkind : (∀ p ∈ instr, hidden p.2 → p.1 = .fetch) ∨
      (∀ p ∈ instr, hidden p.2 → p.1 ≠ .fetch)) :
    ∃ vm', execute view instr 2 vm = some (.retired vm') := by
  obtain ⟨hs, hp⟩ := firstFault_of_hides hv hrest
  have hone : ∀ {q : EptViolationExitQualification} {e : BitVec 64},
      firstFault (view vm.eptp) instr = some (.violation q) →
      (handleEptViolation q vm).2 = vm.switchTo e → firstFault (view e) instr = none →
      ∃ vm', execute view instr 2 vm = some (.retired vm') := fun h hq hn =>
    ⟨_, (execute_of_violation h).trans (by
      rw [hq]; exact execute_of_none (by rw [Vm.eptp_switchTo]; exact hn))⟩
  cases h : firstFault (view vm.eptp) instr with
  | none => exact ⟨vm, execute_of_none h⟩
  | some f =>
    obtain ⟨p, -, hx, q, hq, -, rfl⟩ := firstFault_hides hv hrest he h
    rcases hkind with hk | hk <;> rcases he with he | he
    · -- fetches from the primary EPTP: the violation loads the secondary
      rw [he, hv.primary _ hx] at hq; cases hq
      exact hone h (by rw [handleEptViolation_eq, if_pos rfl]) (hs hk)
    · rw [he, hs hk] at h; cases h
    · rw [he, hp hk] at h; cases h
    · -- data accesses from the secondary EPTP: the violation loads the primary
      rw [he, hv.secondary _ hx] at hq; cases hq
      exact hone h (by rw [handleEptViolation_eq, if_neg (by decide), if_pos rfl]) (hp hk)

/-- An instruction that fetches from a hidden address and reads or writes a hidden address never
retires: the primary view denies the fetch, the secondary view the data access, and the handler
only ever loads one of the two. -/
theorem execute_eq_none_of_mixed (he : vm.OnEither) {x y : Nat} {a : Access} (hx : hidden x)
    (hfx : (.fetch, x) ∈ instr) (hy : hidden y) (ha : a ≠ .fetch) (hay : (a, y) ∈ instr)
    (fuel : Nat) : execute view instr fuel vm = none := by
  induction fuel generalizing vm with
  | zero => rfl
  | succ fuel ih =>
    have hfault : firstFault (view vm.eptp) instr ≠ none := by
      rw [Ne, firstFault_eq_none_iff]
      intro hall
      rcases he with he | he
      · obtain ⟨q, hq, hperm⟩ := hall _ hfx
        rw [he, hv.primary x hx] at hq; cases hq; cases hperm
      · obtain ⟨q, hq, hperm⟩ := hall _ hay
        rw [he, hv.secondary y hy] at hq; cases hq; exact ha (executeOnly_permits.1 hperm)
    obtain ⟨f, hf⟩ := Option.ne_none_iff_exists'.1 hfault
    obtain ⟨-, -, -, q, -, -, rfl⟩ := firstFault_hides hv hrest he hf
    rw [execute_of_violation hf]
    exact ih (by rw [primaryEptp_handleEptViolation, secondaryEptp_handleEptViolation]; exact hv)
      (by rw [primaryEptp_handleEptViolation, secondaryEptp_handleEptViolation]; exact hrest)
      (onEither_handleEptViolation _ _ he)

end Hiding

end IllusionEpt
