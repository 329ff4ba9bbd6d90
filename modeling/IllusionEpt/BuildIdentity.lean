import IllusionEpt.Ept

/-!
# `build_identity`

The three nested loops of `Ept::build_identity` with their shared cursor `pa`.
Each loop is a `forUpTo` that stops at the first `Mtrr::find` that fails, keeping
what it has written. `buildIdentity_eq_ok_iff` states once what the loops compute:
later proofs read the closed form `identityUpTo` and never the loops.
-/

namespace IllusionEpt

set_option autoImplicit false

open BitVec

/-- `for k in 0..n { body(k)? }` over a mutable state: the first error ends the loop and keeps
the state reached so far, as `?` does. -/
def forUpTo {σ : Type} (body : Nat → σ → Outcome σ) : Nat → σ → Outcome σ
  | 0, s => (.ok (), s)
  | n + 1, s =>
    match forUpTo body n s with
    | (.ok (), s') => body n s'
    | r => r

/-- A loop whose `k`-th iteration, started in `F k`, succeeds exactly when `R k` holds and then
reaches `F (k + 1)`, succeeds after `n` iterations exactly when `R` held at each of them. -/
theorem forUpTo_eq_ok_iff {σ : Type} {body : Nat → σ → Outcome σ} {F : Nat → σ}
    {R : Nat → Prop} {N : Nat}
    (hstep : ∀ k < N, ∀ t, body k (F k) = (.ok (), t) ↔ R k ∧ t = F (k + 1)) :
    ∀ n ≤ N, ∀ t, forUpTo body n (F 0) = (.ok (), t) ↔ (∀ k < n, R k) ∧ t = F n := by
  intro n
  induction n with
  | zero => intro _ t; simp [forUpTo, eq_comm]
  | succ n ih =>
    intro hn t
    have ih := ih (by omega)
    simp only [forUpTo]
    rcases h : forUpTo body n (F 0) with ⟨_ | ⟨⟩, s'⟩
    · have hnot : ¬ ∀ k < n, R k := fun hR => by simpa [h] using (ih (F n)).2 ⟨hR, rfl⟩
      simp only [Prod.mk.injEq, reduceCtorEq, false_and, false_iff]
      exact fun ⟨hR, _⟩ => hnot fun k hk => hR k (by omega)
    · obtain ⟨hR, rfl⟩ := (ih s').1 h
      rw [hstep n (by omega)]
      constructor
      · rintro ⟨hn', rfl⟩
        refine ⟨fun k hk => ?_, rfl⟩
        rcases Nat.lt_succ_iff_lt_or_eq.mp hk with hk | rfl
        exacts [hR k hk, hn']
      · rintro ⟨hR', rfl⟩
        exact ⟨hR' n (by omega), rfl⟩

/-- The same loop fails exactly when some iteration fails after every earlier one succeeded, and
it then returns what that iteration returns: its error and the state it stopped in. -/
theorem forUpTo_eq_error_iff {σ : Type} {body : Nat → σ → Outcome σ} {F : Nat → σ}
    {R : Nat → Prop} {N : Nat}
    (hstep : ∀ k < N, ∀ t, body k (F k) = (.ok (), t) ↔ R k ∧ t = F (k + 1)) :
    ∀ n ≤ N, ∀ e t, forUpTo body n (F 0) = (.error e, t) ↔
      ∃ k < n, (∀ k' < k, R k') ∧ body k (F k) = (.error e, t) := by
  intro n
  induction n with
  | zero => intro _ e t; simp [forUpTo]
  | succ n ih =>
    intro hn e t
    have hok := forUpTo_eq_ok_iff hstep n (by omega)
    simp only [forUpTo]
    rcases h : forUpTo body n (F 0) with ⟨e' | ⟨⟩, s'⟩
    · -- an earlier iteration failed, and the loop returns its result
      dsimp only
      constructor
      · intro heq
        obtain ⟨k, hk, hR, hb⟩ := (ih (by omega) e' s').1 h
        exact ⟨k, by omega, hR, hb.trans heq⟩
      · rintro ⟨k, hk, hR, hb⟩
        rcases Nat.lt_succ_iff_lt_or_eq.mp hk with hk | rfl
        · rw [← h]; exact (ih (by omega) e t).2 ⟨k, hk, hR, hb⟩
        · have := (hok (F k)).2 ⟨hR, rfl⟩
          rw [h] at this; cases this
    · -- every earlier iteration succeeded, so the loop fails exactly when iteration `n` does
      obtain ⟨hR, rfl⟩ := (hok s').1 h
      refine ⟨fun hb => ⟨n, by omega, hR, hb⟩, ?_⟩
      rintro ⟨k, hk, -, hb⟩
      rcases Nat.lt_succ_iff_lt_or_eq.mp hk with hk | rfl
      · have := (hstep k (by omega) (F (k + 1))).2 ⟨hR k hk, rfl⟩
        rw [hb] at this; cases this
      · exact hb

/-- The `Range<u64>` `start..end` passed to `Mtrr::find`. -/
structure PaRange where
  start : BitVec 64
  stop : BitVec 64
deriving DecidableEq, Repr

/-- The 4KB range `[k * 4096, (k + 1) * 4096)`. -/
def pageRange (k : Nat) : PaRange :=
  ⟨.ofNat 64 (k * basePageSize), .ofNat 64 ((k + 1) * basePageSize)⟩

/-- The 2MB range `[k * 2^21, (k + 1) * 2^21)`. -/
def largeRange (k : Nat) : PaRange :=
  ⟨.ofNat 64 (k * largePageSize), .ofNat 64 ((k + 1) * largePageSize)⟩

namespace Ept

/-- A table pointer with full permissions: the writes of lines 63-66, 70-73 and 79-82. -/
def pointTo (addr : BitVec 64) (e : Entry) : Entry :=
  (((e.setReadable true).setWritable true).setExecutable true).setPfn (addr >>> basePageShift)

/-- The 2MB leaf of lines 102-107 for the page at `pa`. -/
def mapLargePage (memoryType pa : BitVec 64) (pde : Entry) : Entry :=
  (((((pde.setReadable true).setWritable true).setExecutable true).setMemoryType
    memoryType).setLarge true).setPfn (pa >>> basePageShift)

section Loops

variable (L : Layout) (find : PaRange → Option MemoryType)

/-- One iteration of the `pt[0]` loop (lines 85-95) on the state `(self, pa)`. -/
def pt0Step (n : Nat) (st : Ept × BitVec 64) : Outcome (Ept × BitVec 64) :=
  match find ⟨st.2, st.2 + .ofNat 64 basePageSize⟩ with
  | none => (.error .memoryTypeResolutionError, st)
  | some memoryType =>
    (.ok (), (st.1.setPte 0 (Fin.ofNat n) (mapPage memoryType.toU64 st.2 (st.1.pte 0 (Fin.ofNat n))),
      st.2 + .ofNat 64 basePageSize))

/-- One iteration of the PD loop (lines 76-110): entry `j` of `pd[i]`. -/
def pdStep (i : Fin 512) (j : Nat) (st : Ept × BitVec 64) : Outcome (Ept × BitVec 64) :=
  if st.2 = 0 then
    forUpTo (pt0Step find) 512
      (st.1.setPde i (Fin.ofNat j) (pointTo (L.addr (.pt 0)) (st.1.pde i (Fin.ofNat j))), st.2)
  else
    match find ⟨st.2, st.2 + .ofNat 64 largePageSize⟩ with
    | none => (.error .memoryTypeResolutionError, st)
    | some memoryType =>
      (.ok (), (st.1.setPde i (Fin.ofNat j)
        (mapLargePage memoryType.toU64 st.2 (st.1.pde i (Fin.ofNat j))), st.2 + .ofNat 64 largePageSize))

/-- One iteration of the PDPT loop (lines 69-111): entry `i` of the PDPT, then `pd[i]`. -/
def pdptStep (i : Nat) (st : Ept × BitVec 64) : Outcome (Ept × BitVec 64) :=
  forUpTo (pdStep L find (Fin.ofNat i)) 512
    (st.1.setPdpte (Fin.ofNat i) (pointTo (L.addr (.pd (Fin.ofNat i))) (st.1.pdpt.entries (Fin.ofNat i))),
      st.2)

/-- `Ept::build_identity` (lines 53-114), with `find` for `Mtrr::find`. -/
def buildIdentity (self : Ept) : Outcome Ept :=
  let self := self.setPml4e 0 (pointTo (L.addr .pdpt) (self.pml4.entries 0))
  let r := forUpTo (pdptStep L find) 512 (self, 0)
  (r.1, r.2.1)

/-- Entry `n` of `pt[0]` once its iteration has run. -/
def identityPte (n : Nat) (e : Entry) : Entry :=
  match find (pageRange n) with
  | some m => mapPage m.toU64 (.ofNat 64 (n * basePageSize)) e
  | none => e

/-- PD entry number `ℓ` (of `pd[ℓ / 512]`) once its iteration has run. -/
def identityPde (ℓ : Nat) (e : Entry) : Entry :=
  if ℓ = 0 then pointTo (L.addr (.pt 0)) e
  else
    match find (largeRange ℓ) with
    | some m => mapLargePage m.toU64 (.ofNat 64 (ℓ * largePageSize)) e
    | none => e

/-- The state `build_identity` has reached from `s` once it has written `pml4[0]`, the first
`nPdpte` PDPT entries, the first `nPde` PD entries in loop order and the first `nPte` entries
of `pt[0]`. -/
def identityUpTo (s : Ept) (nPdpte nPde nPte : Nat) : Ept where
  pml4 := s.pml4.set 0 (pointTo (L.addr .pdpt) (s.pml4.entries 0))
  pdpt := ⟨fun i => if i.val < nPdpte then pointTo (L.addr (.pd i)) (s.pdpt.entries i)
    else s.pdpt.entries i⟩
  pd := fun i => ⟨fun j => if 512 * i.val + j.val < nPde
    then identityPde L find (512 * i.val + j.val) (s.pde i j) else s.pde i j⟩
  pt := fun k => ⟨fun n => if k = 0 ∧ n.val < nPte then identityPte find n (s.pte k n)
    else s.pte k n⟩

/-- What each PD iteration needs of `find`: all of `pt[0]` for the first, its 2MB range after. -/
def Resolves (ℓ : Nat) : Prop :=
  if ℓ = 0 then ∀ n < 512, (find (pageRange n)).isSome else (find (largeRange ℓ)).isSome

/-- `find` classifies every range `build_identity` asks about. -/
def Resolved : Prop :=
  (∀ k < 512, (find (pageRange k)).isSome) ∧
    ∀ k, 1 ≤ k → k < 2 ^ 18 → (find (largeRange k)).isSome

/-- A `find` that classifies every range resolves, as one backed by a default type does. -/
theorem resolved_of_isSome (h : ∀ r, (find r).isSome) : Resolved find :=
  ⟨fun _ _ => h _, fun _ _ _ => h _⟩

end Loops

/-- The cursor `pa` before PD entry number `ℓ`. -/
def cursor (ℓ : Nat) : BitVec 64 := .ofNat 64 (ℓ * largePageSize)

/-- How many entries of `pt[0]` are written before PD entry number `ℓ`. -/
def ptDone (ℓ : Nat) : Nat := if ℓ = 0 then 0 else 512

section Spec

variable (L : Layout) (find : PaRange → Option MemoryType) (s : Ept)

@[simp] theorem pml4_identityUpTo (a b c : Nat) :
    (identityUpTo L find s a b c).pml4 = s.pml4.set 0 (pointTo (L.addr .pdpt) (s.pml4.entries 0)) :=
  rfl

@[simp] theorem pdpt_entries_identityUpTo (a b c : Nat) (i : Fin 512) :
    (identityUpTo L find s a b c).pdpt.entries i =
      if i.val < a then pointTo (L.addr (.pd i)) (s.pdpt.entries i) else s.pdpt.entries i := rfl

@[simp] theorem pde_identityUpTo (a b c : Nat) (i j : Fin 512) :
    (identityUpTo L find s a b c).pde i j =
      if 512 * i.val + j.val < b then identityPde L find (512 * i.val + j.val) (s.pde i j)
      else s.pde i j := rfl

@[simp] theorem pte_identityUpTo (a b c : Nat) (k : Fin 64) (n : Fin 512) :
    (identityUpTo L find s a b c).pte k n =
      if k = 0 ∧ n.val < c then identityPte find n (s.pte k n) else s.pte k n := rfl

theorem ofNat_eq_mk {n : Nat} (hn : n < 512) : (Fin.ofNat n : Fin 512) = ⟨n, hn⟩ :=
  Fin.ext (Nat.mod_eq_of_lt hn)

/-- The range `find` is asked about in iteration `n` of the `pt[0]` loop. -/
theorem range_page (n : Nat) :
    (⟨.ofNat 64 (n * basePageSize), .ofNat 64 (n * basePageSize) + .ofNat 64 basePageSize⟩ :
      PaRange) = pageRange n := by
  simp [pageRange, ofNat_add_ofNat, Nat.succ_mul]

/-- The `pt[0]` loop, one iteration: from the state after `n` entries to the state after `n + 1`. -/
theorem pt0Step_eq_ok_iff {n : Nat} (hn : n < 512) (t : Ept × BitVec 64) :
    pt0Step find n (identityUpTo L find s 1 1 n, .ofNat 64 (n * basePageSize)) = (.ok (), t) ↔
      (find (pageRange n)).isSome ∧
        t = (identityUpTo L find s 1 1 (n + 1), .ofNat 64 ((n + 1) * basePageSize)) := by
  simp only [pt0Step, range_page]
  cases hf : find (pageRange n) with
  | none => simp
  | some m =>
    have hs : (identityUpTo L find s 1 1 n).setPte 0 (Fin.ofNat n)
        (mapPage m.toU64 (.ofNat 64 (n * basePageSize)) ((identityUpTo L find s 1 1 n).pte 0 (Fin.ofNat n)))
        = identityUpTo L find s 1 1 (n + 1) := by
      apply ext_entries <;> intros <;> try rfl
      rename_i k n'
      simp only [pte_setPte, pte_identityUpTo, ofNat_eq_mk hn]
      by_cases hk : k = 0
      · subst hk
        by_cases hn' : n' = ⟨n, hn⟩
        · subst hn'; simp [identityPte, hf]
        · have : n'.val ≠ n := fun h => hn' (Fin.ext h)
          simp [hn', show n'.val < n + 1 ↔ n'.val < n by omega]
      · simp [hk]
    simp only [hs, ofNat_add_ofNat, Nat.succ_mul, Prod.mk.injEq, true_and, Option.isSome_some]
    exact eq_comm

/-- An iteration of the `pt[0]` loop fails exactly when `find` cannot classify its 4KB range,
and then writes nothing. -/
theorem pt0Step_eq_error_iff (n : Nat) (e : HypervisorError) (t : Ept × BitVec 64) :
    pt0Step find n (identityUpTo L find s 1 1 n, .ofNat 64 (n * basePageSize)) = (.error e, t) ↔
      find (pageRange n) = none ∧ e = .memoryTypeResolutionError ∧
        t = (identityUpTo L find s 1 1 n, .ofNat 64 (n * basePageSize)) := by
  simp only [pt0Step, range_page]
  cases find (pageRange n) <;> simp [eq_comm]

theorem cursor_eq_zero_iff {ℓ : Nat} (hℓ : ℓ < 2 ^ 18) : cursor ℓ = 0 ↔ ℓ = 0 := by
  constructor
  · intro h
    have := congrArg BitVec.toNat h
    simp [cursor] at this
    omega
  · rintro rfl; rfl

theorem cursor_succ (ℓ : Nat) : cursor ℓ + .ofNat 64 largePageSize = cursor (ℓ + 1) := by
  rw [cursor, cursor, ofNat_add_ofNat, Nat.succ_mul]

theorem range_cursor (ℓ : Nat) :
    (⟨cursor ℓ, cursor ℓ + .ofNat 64 largePageSize⟩ : PaRange) = largeRange ℓ := by
  rw [cursor_succ, cursor, cursor, largeRange]

/-- The write of `pd[0][0]` before the `pt[0]` loop. -/
theorem setPde_identityUpTo_zero :
    (identityUpTo L find s 1 0 0).setPde 0 ⟨0, by decide⟩
        (pointTo (L.addr (.pt 0)) ((identityUpTo L find s 1 0 0).pde 0 ⟨0, by decide⟩)) =
      identityUpTo L find s 1 1 0 := by
  apply ext_entries <;> intros <;> try rfl
  rename_i i' j'
  simp only [pde_setPde, pde_identityUpTo]
  by_cases h : i' = 0 ∧ j' = ⟨0, by decide⟩
  · obtain ⟨rfl, rfl⟩ := h; simp [identityPde]
  · have : ¬ 512 * i'.val + j'.val < 1 := fun h' =>
      h ⟨Fin.ext (by simp; omega), Fin.ext (by simp; omega)⟩
    rw [if_neg h, if_neg this, if_neg (Nat.not_lt_zero _)]

/-- The PD loop, one iteration: PD entry number `ℓ = 512 * i + j`, which for `ℓ = 0` runs the
whole `pt[0]` loop. -/
theorem pdStep_eq_ok_iff (i : Fin 512) {j : Nat} (hj : j < 512) (t : Ept × BitVec 64) :
    pdStep L find i j (identityUpTo L find s (i.val + 1) (512 * i.val + j) (ptDone (512 * i.val + j)),
        cursor (512 * i.val + j)) = (.ok (), t) ↔
      Resolves find (512 * i.val + j) ∧
        t = (identityUpTo L find s (i.val + 1) (512 * i.val + j + 1) (ptDone (512 * i.val + j + 1)),
          cursor (512 * i.val + j + 1)) := by
  have hℓ : 512 * i.val + j < 2 ^ 18 := by omega
  simp only [pdStep, ofNat_eq_mk hj]
  by_cases h0 : 512 * i.val + j = 0
  · obtain rfl : i = 0 := Fin.ext (by simp; omega)
    obtain rfl : j = 0 := by omega
    have hstart := setPde_identityUpTo_zero L find s
    have key := forUpTo_eq_ok_iff (F := fun n => (identityUpTo L find s 1 1 n,
      BitVec.ofNat 64 (n * basePageSize))) (fun k hk t => pt0Step_eq_ok_iff L find s hk t) 512 le_rfl t
    simp only [Nat.zero_mul] at key
    simp only [Fin.val_zero, Nat.mul_zero, Nat.add_zero, Nat.zero_add, ptDone, if_pos, cursor,
      Nat.zero_mul, ite_true, hstart]
    rw [if_pos (show (0#64 : BitVec 64) = 0 from rfl), key]
    simp [Resolves]
  · have hc : ¬ cursor (512 * i.val + j) = 0 := fun h => h0 ((cursor_eq_zero_iff hℓ).1 h)
    have hdone : ptDone (512 * i.val + j + 1) = ptDone (512 * i.val + j) := by simp [ptDone, h0]
    rw [if_neg hc, range_cursor, hdone]
    cases hf : find (largeRange (512 * i.val + j)) with
    | none => simp [Resolves, h0, hf]
    | some m =>
      have hs : (identityUpTo L find s (i.val + 1) (512 * i.val + j) (ptDone (512 * i.val + j))).setPde
          i ⟨j, hj⟩ (mapLargePage m.toU64 (cursor (512 * i.val + j))
            ((identityUpTo L find s (i.val + 1) (512 * i.val + j) (ptDone (512 * i.val + j))).pde i
              ⟨j, hj⟩)) =
          identityUpTo L find s (i.val + 1) (512 * i.val + j + 1) (ptDone (512 * i.val + j)) := by
        apply ext_entries <;> intros <;> try rfl
        rename_i i' j'
        simp only [pde_setPde, pde_identityUpTo]
        by_cases h : i' = i ∧ j' = ⟨j, hj⟩
        · obtain ⟨rfl, rfl⟩ := h
          simp [identityPde, h0, hf, cursor]
        · have : 512 * i'.val + j'.val ≠ 512 * i.val + j := fun h' =>
            h ⟨Fin.ext (by omega), Fin.ext (by simp; omega)⟩
          rw [if_neg h]
          simp only [show 512 * i'.val + j'.val < 512 * i.val + j + 1 ↔
            512 * i'.val + j'.val < 512 * i.val + j by omega]
      simp only [hs, cursor_succ]
      simp [Resolves, h0, hf, eq_comm]

/-- What a failure in PD entry number `ℓ` returns: the error, and for `ℓ = 0` the state of the
first 4KB range of `pt[0]` that `find` cannot classify, else the state before the PD entry. -/
def FailsAt (ℓ : Nat) (e : HypervisorError) (st : Ept × BitVec 64) : Prop :=
  e = .memoryTypeResolutionError ∧
    if ℓ = 0 then
      ∃ n < 512, (∀ m < n, (find (pageRange m)).isSome) ∧ find (pageRange n) = none ∧
        st = (identityUpTo L find s 1 1 n, .ofNat 64 (n * basePageSize))
    else find (largeRange ℓ) = none ∧ st = (identityUpTo L find s (ℓ / 512 + 1) ℓ 512, cursor ℓ)

/-- The PD loop, one iteration, when it fails: `find` cannot classify a 4KB range of `pt[0]` for
`ℓ = 0`, or the 2MB range of the entry after. -/
theorem pdStep_eq_error_iff (i : Fin 512) {j : Nat} (hj : j < 512) (e : HypervisorError)
    (t : Ept × BitVec 64) :
    pdStep L find i j (identityUpTo L find s (i.val + 1) (512 * i.val + j) (ptDone (512 * i.val + j)),
        cursor (512 * i.val + j)) = (.error e, t) ↔ FailsAt L find s (512 * i.val + j) e t := by
  have hℓ : 512 * i.val + j < 2 ^ 18 := by omega
  simp only [pdStep, ofNat_eq_mk hj, FailsAt]
  by_cases h0 : 512 * i.val + j = 0
  · obtain rfl : i = 0 := Fin.ext (by simp; omega)
    obtain rfl : j = 0 := by omega
    have key := forUpTo_eq_error_iff (F := fun n => (identityUpTo L find s 1 1 n,
      BitVec.ofNat 64 (n * basePageSize))) (fun k hk t => pt0Step_eq_ok_iff L find s hk t) 512
      le_rfl e t
    simp only [Nat.zero_mul] at key
    simp only [Fin.val_zero, Nat.mul_zero, Nat.add_zero, Nat.zero_add, ptDone, if_pos, cursor,
      Nat.zero_mul, ite_true, setPde_identityUpTo_zero]
    rw [if_pos (show (0#64 : BitVec 64) = 0 from rfl), key]
    simp only [pt0Step_eq_error_iff]
    constructor
    · rintro ⟨n, hn, hR, hf, rfl, rfl⟩; exact ⟨rfl, n, hn, hR, hf, rfl⟩
    · rintro ⟨rfl, n, hn, hR, hf, rfl⟩; exact ⟨n, hn, hR, hf, rfl, rfl⟩
  · have hc : ¬ cursor (512 * i.val + j) = 0 := fun h => h0 ((cursor_eq_zero_iff hℓ).1 h)
    have hi : (512 * i.val + j) / 512 = i.val := by omega
    rw [if_neg hc, range_cursor, if_neg h0, hi, show ptDone (512 * i.val + j) = 512 from if_neg h0]
    cases find (largeRange (512 * i.val + j)) <;> simp [eq_comm]

/-- The write of PDPT entry `i` before the loop over `pd[i]`. -/
theorem setPdpte_identityUpTo {i : Nat} (hi : i < 512) :
    ((identityUpTo L find s i (512 * i) (ptDone (512 * i))).setPdpte ⟨i, hi⟩
        (pointTo (L.addr (.pd ⟨i, hi⟩))
          ((identityUpTo L find s i (512 * i) (ptDone (512 * i))).pdpt.entries ⟨i, hi⟩)),
        cursor (512 * i)) =
      (identityUpTo L find s (i + 1) (512 * i + 0) (ptDone (512 * i + 0)), cursor (512 * i + 0)) := by
  congr 1
  apply ext_entries <;> intros <;> try rfl
  rename_i i'
  simp only [setPdpte_pdpt, Table.entries_set, pdpt_entries_identityUpTo]
  by_cases h : i' = ⟨i, hi⟩
  · subst h; simp
  · have : i'.val ≠ i := fun h' => h (Fin.ext h')
    rw [if_neg h]
    simp only [show i'.val < i + 1 ↔ i'.val < i by omega]

/-- The PDPT loop, one iteration: PDPT entry `i` and the 512 entries of `pd[i]`. -/
theorem pdptStep_eq_ok_iff {i : Nat} (hi : i < 512) (t : Ept × BitVec 64) :
    pdptStep L find i (identityUpTo L find s i (512 * i) (ptDone (512 * i)), cursor (512 * i)) =
        (.ok (), t) ↔
      (∀ j < 512, Resolves find (512 * i + j)) ∧
        t = (identityUpTo L find s (i + 1) (512 * (i + 1)) (ptDone (512 * (i + 1))),
          cursor (512 * (i + 1))) := by
  simp only [pdptStep, ofNat_eq_mk hi]
  rw [setPdpte_identityUpTo L find s hi]
  refine (forUpTo_eq_ok_iff (F := fun j => (identityUpTo L find s (i + 1) (512 * i + j)
    (ptDone (512 * i + j)), cursor (512 * i + j)))
    (fun j hj t => pdStep_eq_ok_iff L find s ⟨i, hi⟩ hj t) 512 le_rfl t).trans ?_
  simp only [show 512 * i + 512 = 512 * (i + 1) by omega]

/-- The PDPT loop, one iteration, when it fails: some PD entry of `pd[i]` fails after every
earlier one succeeded. -/
theorem pdptStep_eq_error_iff {i : Nat} (hi : i < 512) (e : HypervisorError) (t : Ept × BitVec 64) :
    pdptStep L find i (identityUpTo L find s i (512 * i) (ptDone (512 * i)), cursor (512 * i)) =
        (.error e, t) ↔
      ∃ j < 512, (∀ j' < j, Resolves find (512 * i + j')) ∧ FailsAt L find s (512 * i + j) e t := by
  simp only [pdptStep, ofNat_eq_mk hi]
  rw [setPdpte_identityUpTo L find s hi,
    forUpTo_eq_error_iff (F := fun j => (identityUpTo L find s (i + 1) (512 * i + j)
      (ptDone (512 * i + j)), cursor (512 * i + j)))
      (fun j hj t => pdStep_eq_ok_iff L find s ⟨i, hi⟩ hj t) 512 le_rfl e t]
  exact exists_congr fun j => and_congr_right fun hj =>
    and_congr_right fun _ => pdStep_eq_error_iff L find s ⟨i, hi⟩ hj e t

theorem resolves_iff_resolved :
    (∀ i < 512, ∀ j < 512, Resolves find (512 * i + j)) ↔ Resolved find := by
  constructor
  · intro h
    refine ⟨fun k hk => ?_, fun k hk1 hk2 => ?_⟩
    · simpa [Resolves] using h 0 (by decide) 0 (by decide) k hk
    · have := h (k / 512) (by omega) (k % 512) (Nat.mod_lt _ (by decide))
      rwa [Nat.div_add_mod, Resolves, if_neg (by omega)] at this
  · intro ⟨hp, hl⟩ i hi j hj
    unfold Resolves
    split_ifs with h0
    · exact hp
    · exact hl _ (by omega) (by omega)

/-- The write of `pml4[0]` before the loops. -/
theorem setPml4e_identityUpTo :
    (s.setPml4e 0 (pointTo (L.addr .pdpt) (s.pml4.entries 0)), (0 : BitVec 64)) =
      (identityUpTo L find s 0 0 0, cursor 0) := by
  congr 1
  apply ext_entries <;> intros <;> simp

/-- What `build_identity` computes: it succeeds exactly when `find` classifies every range it
asks about, and then leaves the closed form `identityUpTo` with every loop run to its end. -/
theorem buildIdentity_eq_ok_iff (t : Ept) :
    buildIdentity L find s = (.ok (), t) ↔
      Resolved find ∧ t = identityUpTo L find s 512 (512 * 512) 512 := by
  have hstart := setPml4e_identityUpTo L find s
  have key : ∀ t', forUpTo (pdptStep L find) 512 (identityUpTo L find s 0 0 0, cursor 0) =
      (.ok (), t') ↔ (∀ i < 512, ∀ j < 512, Resolves find (512 * i + j)) ∧
        t' = (identityUpTo L find s 512 (512 * 512) 512, cursor (512 * 512)) :=
    forUpTo_eq_ok_iff (F := fun i => (identityUpTo L find s i (512 * i) (ptDone (512 * i)),
      cursor (512 * i))) (fun i hi t => pdptStep_eq_ok_iff L find s hi t) 512 le_rfl
  simp only [buildIdentity, hstart, ← resolves_iff_resolved]
  rcases hr : forUpTo (pdptStep L find) 512 (identityUpTo L find s 0 0 0, cursor 0) with
    ⟨_ | ⟨⟩, t', pa⟩
  · have hnot : ¬ ∀ i < 512, ∀ j < 512, Resolves find (512 * i + j) := fun h => by
      have := (key _).2 ⟨h, rfl⟩
      rw [hr] at this
      simp at this
    simp only [Prod.mk.injEq, reduceCtorEq, false_and, false_iff]
    exact fun ⟨h, _⟩ => hnot h
  · obtain ⟨hR, ht⟩ := (key (t', pa)).1 hr
    simp only [Prod.mk.injEq] at ht
    simp only [Prod.mk.injEq, ht.1]
    exact ⟨fun ⟨_, h⟩ => ⟨hR, h.symm⟩, fun ⟨_, h⟩ => ⟨trivial, h.symm⟩⟩

/-- The first PD entry in loop order, found PD by PD, is the first PD entry number. -/
theorem exists_first_pde_iff {R P : Nat → Prop} :
    (∃ i < 512, (∀ i' < i, ∀ j < 512, R (512 * i' + j)) ∧
        ∃ j < 512, (∀ j' < j, R (512 * i + j')) ∧ P (512 * i + j)) ↔
      ∃ ℓ < 2 ^ 18, (∀ ℓ' < ℓ, R ℓ') ∧ P ℓ := by
  constructor
  · rintro ⟨i, hi, hRi, j, hj, hRj, hP⟩
    refine ⟨512 * i + j, by omega, fun ℓ' hℓ' => ?_, hP⟩
    rw [← Nat.div_add_mod ℓ' 512]
    rcases Nat.lt_or_ge (ℓ' / 512) i with h | h
    · exact hRi _ h _ (Nat.mod_lt _ (by decide))
    · obtain rfl : ℓ' / 512 = i := by omega
      exact hRj _ (by omega)
  · rintro ⟨ℓ, hℓ, hR, hP⟩
    refine ⟨ℓ / 512, by omega, fun i' hi' j hj => hR _ (by omega), ℓ % 512,
      Nat.mod_lt _ (by decide), fun j' hj' => hR _ (by omega), by rwa [Nat.div_add_mod]⟩

/-- A failure at the first PD entry `ℓ` that does not resolve, read as the ranges `find` is asked
about: a 4KB range of the first 2MB, or a 2MB range after it. -/
theorem exists_failsAt_iff (e : HypervisorError) (t : Ept) :
    (∃ pa, ∃ ℓ < 2 ^ 18, (∀ ℓ' < ℓ, Resolves find ℓ') ∧ FailsAt L find s ℓ e (t, pa)) ↔
      e = .memoryTypeResolutionError ∧
        ((∃ n < 512, (∀ m < n, (find (pageRange m)).isSome) ∧ find (pageRange n) = none ∧
            t = identityUpTo L find s 1 1 n) ∨
          ((∀ m < 512, (find (pageRange m)).isSome) ∧ ∃ ℓ, 1 ≤ ℓ ∧ ℓ < 2 ^ 18 ∧
            (∀ ℓ', 1 ≤ ℓ' → ℓ' < ℓ → (find (largeRange ℓ')).isSome) ∧
            find (largeRange ℓ) = none ∧ t = identityUpTo L find s (ℓ / 512 + 1) ℓ 512)) := by
  constructor
  · rintro ⟨pa, ℓ, hℓ, hR, he, hf⟩
    refine ⟨he, ?_⟩
    by_cases h0 : ℓ = 0
    · rw [if_pos h0] at hf
      obtain ⟨n, hn, hm, hfn, ht⟩ := hf
      exact .inl ⟨n, hn, hm, hfn, (Prod.mk.inj ht).1⟩
    · rw [if_neg h0] at hf
      obtain ⟨hfl, ht⟩ := hf
      have hp := hR 0 (by omega)
      rw [Resolves, if_pos rfl] at hp
      refine .inr ⟨hp, ℓ, by omega, hℓ, fun ℓ' h1 h2 => ?_, hfl, (Prod.mk.inj ht).1⟩
      have := hR ℓ' h2
      rwa [Resolves, if_neg (by omega)] at this
  · rintro ⟨rfl, ⟨n, hn, hm, hfn, rfl⟩ | ⟨hp, ℓ, h1, hℓ, hl, hfl, rfl⟩⟩
    · exact ⟨_, 0, by decide, fun _ h => absurd h (Nat.not_lt_zero _), rfl,
        by rw [if_pos rfl]; exact ⟨n, hn, hm, hfn, rfl⟩⟩
    · refine ⟨_, ℓ, hℓ, fun ℓ' hℓ' => ?_, rfl, by rw [if_neg (by omega)]; exact ⟨hfl, rfl⟩⟩
      unfold Resolves
      split_ifs with h0
      · exact hp
      · exact hl ℓ' (by omega) hℓ'

/-- A failed `build_identity` reports `MemoryTypeResolutionError` at the first range, in loop order,
that `find` cannot classify, and keeps every write made before it. -/
theorem buildIdentity_eq_error_iff (e : HypervisorError) (t : Ept) :
    buildIdentity L find s = (.error e, t) ↔ e = .memoryTypeResolutionError ∧
      ((∃ n < 512, (∀ m < n, (find (pageRange m)).isSome) ∧ find (pageRange n) = none ∧
          t = identityUpTo L find s 1 1 n) ∨
        ((∀ m < 512, (find (pageRange m)).isSome) ∧ ∃ ℓ, 1 ≤ ℓ ∧ ℓ < 2 ^ 18 ∧
          (∀ ℓ', 1 ≤ ℓ' → ℓ' < ℓ → (find (largeRange ℓ')).isSome) ∧
          find (largeRange ℓ) = none ∧ t = identityUpTo L find s (ℓ / 512 + 1) ℓ 512)) := by
  have hloop : ∀ tp, forUpTo (pdptStep L find) 512 (identityUpTo L find s 0 0 0, cursor 0) =
      (.error e, tp) ↔ ∃ i < 512, (∀ i' < i, ∀ j < 512, Resolves find (512 * i' + j)) ∧
        pdptStep L find i (identityUpTo L find s i (512 * i) (ptDone (512 * i)), cursor (512 * i)) =
          (.error e, tp) := fun tp =>
    forUpTo_eq_error_iff (F := fun i => (identityUpTo L find s i (512 * i) (ptDone (512 * i)),
      cursor (512 * i))) (fun i hi t => pdptStep_eq_ok_iff L find s hi t) 512 le_rfl e tp
  have hb : buildIdentity L find s = (.error e, t) ↔ ∃ pa,
      forUpTo (pdptStep L find) 512 (identityUpTo L find s 0 0 0, cursor 0) = (.error e, (t, pa)) := by
    have hstart := setPml4e_identityUpTo L find s
    simp only [buildIdentity, hstart]
    rcases forUpTo (pdptStep L find) 512 (identityUpTo L find s 0 0 0, cursor 0) with ⟨r, t', pa⟩
    simp only [Prod.mk.injEq]
    exact ⟨fun ⟨h1, h2⟩ => ⟨pa, h1, h2, rfl⟩, fun ⟨_, h1, h2, _⟩ => ⟨h1, h2⟩⟩
  rw [hb, ← exists_failsAt_iff]
  refine exists_congr fun pa => (hloop (t, pa)).trans ?_
  rw [← exists_first_pde_iff]
  exact exists_congr fun i => and_congr_right fun hi => and_congr_right fun _ =>
    pdptStep_eq_error_iff L find s hi e (t, pa)

end Spec

end Ept

end IllusionEpt
