import IllusionEpt.Address

/-!
# The `Ept` structure and its in-place operations

`Ept` of `paging.rs` as a value: one PML4, one PDPT, 512 PDs and 64 PTs, each a
`Table` of 512 entries. A `&mut self` method returning `Result<(), _>` becomes a
function to an `Outcome`, the result paired with the state it leaves, so that
what a failing call has already written stays visible. `addr_of!(self.x)` is
the physical address of table `x` in a `Layout`.
-/

namespace IllusionEpt

set_option autoImplicit false

open BitVec

/-- The variants of `HypervisorError` that `paging.rs` returns. -/
inductive HypervisorError where
  | memoryTypeResolutionError
  | invalidPtIndex
  | pageAlreadySplit
  | unalignedAddressError
  | largePageRemapError
  | invalidEptPml4BaseAddress
deriving DecidableEq, Repr

/-- What a `&mut self` method returning `Result<(), HypervisorError>` leaves: its result and the state. -/
abbrev Outcome (σ : Type) := Except HypervisorError Unit × σ

/-- Modelled from the spec: `MemoryType` of the `mtrr` module, a cacheability class that the
three-bit `memory_type` field of an entry holds; `code` is `memory_type as u64`. -/
structure MemoryType where
  code : Fin 8
deriving DecidableEq, Repr

namespace MemoryType

/-- Modelled from the spec: `MemoryType::WriteBack`, the architectural write-back class 6. -/
def writeBack : MemoryType := ⟨6⟩

/-- The classes an EPT entry may hold: UC, WC, WT, WP and WB. -/
def IsArchitectural (m : MemoryType) : Prop := m.code.val ∈ [0, 1, 4, 5, 6]

instance (m : MemoryType) : Decidable m.IsArchitectural :=
  inferInstanceAs (Decidable (m.code.val ∈ _))

/-- `memory_type as u64`. -/
def toU64 (m : MemoryType) : BitVec 64 := BitVec.ofNat 64 m.code.val

end MemoryType

/-- `Table` of `paging.rs`: 512 contiguous entries. -/
@[ext] structure Table where
  entries : Fin 512 → Entry

namespace Table

def set (t : Table) (i : Fin 512) (e : Entry) : Table := ⟨Function.update t.entries i e⟩

@[simp] theorem entries_set (t : Table) (i j : Fin 512) (e : Entry) :
    (t.set i e).entries j = if j = i then e else t.entries j := by
  simp [set, Function.update_apply]

end Table

/-- `Ept` of `paging.rs`. -/
structure Ept where
  pml4 : Table
  pdpt : Table
  pd : Fin 512 → Table
  pt : Fin 64 → Table

/-- The tables of an `Ept`, in their `repr(C)` order. -/
inductive TableRef where
  | pml4
  | pdpt
  | pd (i : Fin 512)
  | pt (k : Fin 64)
deriving DecidableEq, Repr

namespace TableRef

/-- The position of the table inside the `Ept`, in 4096-byte tables. -/
def slot : TableRef → Nat
  | pml4 => 0
  | pdpt => 1
  | pd i => 2 + i.val
  | pt k => 514 + k.val

theorem slot_lt (t : TableRef) : t.slot < 578 := by
  cases t <;> simp only [slot] <;> omega

/-- The table at a position, if there is one. -/
def ofSlot (n : Nat) : Option TableRef :=
  if n = 0 then some pml4
  else if n = 1 then some pdpt
  else if h : n < 514 then some (pd ⟨n - 2, by omega⟩)
  else if h' : n < 578 then some (pt ⟨n - 514, by omega⟩)
  else none

@[simp] theorem ofSlot_slot (t : TableRef) : ofSlot t.slot = some t := by
  cases t with
  | pml4 => rfl
  | pdpt => rfl
  | pd i =>
    simp only [ofSlot, slot]
    rw [if_neg (by omega), if_neg (by omega), dif_pos (by omega)]
    simp
  | pt k =>
    simp only [ofSlot, slot]
    rw [if_neg (by omega), if_neg (by omega), dif_neg (by omega), dif_pos (by omega)]
    simp

end TableRef

/-- Where an `Ept` lies in physical memory: `repr(C, align(4096))` with 4096-byte tables puts
table number `n` at `base + 4096 * n`, and the whole structure lies below `2^52`. -/
structure Layout where
  base : Nat
  aligned : base % 4096 = 0
  below : base + 578 * 4096 ≤ 2 ^ 52

namespace Layout

variable (L : Layout)

/-- `addr_of!(self.x) as u64` for table `x`. -/
def addr (t : TableRef) : BitVec 64 := BitVec.ofNat 64 (L.base + 4096 * t.slot)

/-- The page frame number of table `t`. -/
def frame (t : TableRef) : Nat := L.base / 4096 + t.slot

/-- The table whose page frame number is `pfn`, if `pfn` is inside the `Ept`. -/
def resolve (pfn : Nat) : Option TableRef :=
  if L.base / 4096 ≤ pfn then TableRef.ofSlot (pfn - L.base / 4096) else none

@[simp] theorem resolve_frame (t : TableRef) : L.resolve (L.frame t) = some t := by
  simp [resolve, frame]

theorem toNat_addr_shift (t : TableRef) : (L.addr t >>> basePageShift).toNat = L.frame t := by
  have := t.slot_lt
  have := L.below
  have := L.aligned
  simp only [addr, frame, basePageShift, toNat_ushiftRight, toNat_ofNat, Nat.shiftRight_eq_div_pow]
  rw [Nat.mod_eq_of_lt (by omega)]
  omega

theorem frame_lt (t : TableRef) : L.frame t < 2 ^ 40 := by
  have := t.slot_lt
  have := L.below
  simp only [frame]; omega

end Layout

namespace Ept

/-- `box_zeroed::<Ept>()`: every entry zero. -/
def zeroed : Ept := ⟨⟨fun _ => ⟨0⟩⟩, ⟨fun _ => ⟨0⟩⟩, fun _ => ⟨fun _ => ⟨0⟩⟩, fun _ => ⟨fun _ => ⟨0⟩⟩⟩

def table (s : Ept) : TableRef → Table
  | .pml4 => s.pml4
  | .pdpt => s.pdpt
  | .pd i => s.pd i
  | .pt k => s.pt k

/-- The PD entry `pd[i].entries[j]`. -/
def pde (s : Ept) (i j : Fin 512) : Entry := (s.pd i).entries j

/-- The PT entry `pt[k].entries[n]`. -/
def pte (s : Ept) (k : Fin 64) (n : Fin 512) : Entry := (s.pt k).entries n

def setPml4e (s : Ept) (i : Fin 512) (e : Entry) : Ept := { s with pml4 := s.pml4.set i e }

def setPdpte (s : Ept) (i : Fin 512) (e : Entry) : Ept := { s with pdpt := s.pdpt.set i e }

def setPde (s : Ept) (i j : Fin 512) (e : Entry) : Ept :=
  { s with pd := Function.update s.pd i ((s.pd i).set j e) }

def setPte (s : Ept) (k : Fin 64) (n : Fin 512) (e : Entry) : Ept :=
  { s with pt := Function.update s.pt k ((s.pt k).set n e) }

/-- Two states are equal when every entry of every table is. -/
theorem ext_entries {s t : Ept} (h4 : ∀ i, s.pml4.entries i = t.pml4.entries i)
    (h3 : ∀ i, s.pdpt.entries i = t.pdpt.entries i) (h2 : ∀ i j, s.pde i j = t.pde i j)
    (h1 : ∀ k n, s.pte k n = t.pte k n) : s = t := by
  obtain ⟨p4, p3, p2, p1⟩ := s
  obtain ⟨q4, q3, q2, q1⟩ := t
  simp only [pde, pte] at h2 h1
  congr
  · exact Table.ext (funext h4)
  · exact Table.ext (funext h3)
  · exact funext fun i => Table.ext (funext (h2 i))
  · exact funext fun k => Table.ext (funext (h1 k))

section Updates

variable (s : Ept) (i j i' j' : Fin 512) (k k' : Fin 64) (n n' : Fin 512) (e : Entry)

@[simp] theorem setPml4e_pml4 : (s.setPml4e i e).pml4 = s.pml4.set i e := rfl
@[simp] theorem setPml4e_pdpt : (s.setPml4e i e).pdpt = s.pdpt := rfl
@[simp] theorem pde_setPml4e : (s.setPml4e i e).pde i' j' = s.pde i' j' := rfl
@[simp] theorem pte_setPml4e : (s.setPml4e i e).pte k n = s.pte k n := rfl
@[simp] theorem setPdpte_pml4 : (s.setPdpte i e).pml4 = s.pml4 := rfl
@[simp] theorem setPdpte_pdpt : (s.setPdpte i e).pdpt = s.pdpt.set i e := rfl
@[simp] theorem pde_setPdpte : (s.setPdpte i e).pde i' j' = s.pde i' j' := rfl
@[simp] theorem pte_setPdpte : (s.setPdpte i e).pte k n = s.pte k n := rfl
@[simp] theorem setPde_pml4 : (s.setPde i j e).pml4 = s.pml4 := rfl
@[simp] theorem setPde_pdpt : (s.setPde i j e).pdpt = s.pdpt := rfl
@[simp] theorem setPde_pt : (s.setPde i j e).pt = s.pt := rfl
@[simp] theorem setPte_pml4 : (s.setPte k n e).pml4 = s.pml4 := rfl
@[simp] theorem setPte_pdpt : (s.setPte k n e).pdpt = s.pdpt := rfl
@[simp] theorem setPte_pd : (s.setPte k n e).pd = s.pd := rfl

@[simp] theorem pde_setPde :
    (s.setPde i j e).pde i' j' = if i' = i ∧ j' = j then e else s.pde i' j' := by
  by_cases hi : i' = i <;> simp [setPde, pde, Function.update_apply, hi]

@[simp] theorem pte_setPte :
    (s.setPte k n e).pte k' n' = if k' = k ∧ n' = n then e else s.pte k' n' := by
  by_cases hk : k' = k <;> simp [setPte, pte, Function.update_apply, hk]

@[simp] theorem pde_setPte : (s.setPte k n e).pde i j = s.pde i j := rfl
@[simp] theorem pte_setPde : (s.setPde i j e).pte k n = s.pte k n := rfl

/-- A second write of a PD entry overrides the first. -/
@[simp] theorem setPde_setPde (e' : Entry) : (s.setPde i j e).setPde i j e' = s.setPde i j e' := by
  apply ext_entries <;> intros <;> simp only [setPde_pml4, setPde_pdpt, pde_setPde, pte_setPde]
  split_ifs <;> rfl

/-- A second write of a PT entry overrides the first. -/
@[simp] theorem setPte_setPte (e' : Entry) : (s.setPte k n e).setPte k n e' = s.setPte k n e' := by
  apply ext_entries <;> intros <;> simp only [setPte_pml4, setPte_pdpt, pde_setPte, pte_setPte]
  split_ifs <;> rfl

theorem setPte_comm (e' : Entry) (h : ¬(k = k' ∧ n = n')) :
    (s.setPte k n e).setPte k' n' e' = (s.setPte k' n' e').setPte k n e := by
  apply ext_entries <;> intros <;> simp only [setPte_pml4, setPte_pdpt, pde_setPte, pte_setPte]
  split_ifs with h₁ h₂ <;> first | rfl | exact absurd ⟨h₂.1.symm.trans h₁.1, h₂.2.symm.trans h₁.2⟩ h

end Updates

/-- `Ept::unmap_2mb`: clears the entry, returning early when it is not readable. -/
def unmap2mb (entry : Entry) : Entry :=
  if !entry.readable then entry
  else
    (((((entry.setReadable false).setWritable false).setExecutable false).setMemoryType 0).setLarge
      false).setPfn 0

/-- `Ept::unmap_4kb`: delegates to `unmap_2mb`. -/
def unmap4kb (entry : Entry) : Entry := unmap2mb entry

/-- A full-permission leaf of the given memory type for the 4KB page at `pa`: the body of the
`pt[0]` loop of `build_identity` (lines 89-93) and of the PT loop of `split_2mb_to_4kb`
(lines 166-170). -/
def mapPage (memoryType pa : BitVec 64) (pte : Entry) : Entry :=
  ((((pte.setReadable true).setWritable true).setExecutable true).setMemoryType memoryType).setPfn
    (pa >>> basePageShift)

/-- `(guest_pa.as_usize() + i * BASE_PAGE_SIZE) as u64`, wrapping at `2^64`. -/
def splitPteAddr (guestPa : BitVec 64) (i : Fin 512) : BitVec 64 :=
  guestPa + BitVec.ofNat 64 (i.val * basePageSize)

/-- The PD entry that `split_2mb_to_4kb` leaves, pointing at `pt[k]`. -/
def splitPde (L : Layout) (memoryType : BitVec 64) (k : Fin 64) (pde : Entry) : Entry :=
  (((((unmap2mb pde).setReadable true).setWritable true).setExecutable true).setMemoryType
    memoryType |>.setLarge false).setPfn (L.addr (.pt k) >>> basePageShift)

/-- Every write of a successful `split_2mb_to_4kb` of the PD entry `(i, j)` into `pt[k]`. -/
def splitWrite (L : Layout) (s : Ept) (guestPa : BitVec 64) (i j : Fin 512) (k : Fin 64) : Ept :=
  let memoryType := (s.pde i j).memoryType
  { s with
    pd := Function.update s.pd i ((s.pd i).set j (splitPde L memoryType k (s.pde i j)))
    pt := Function.update s.pt k
      ⟨fun n => mapPage memoryType (splitPteAddr guestPa n) (s.pte k n)⟩ }

section SplitWrite

variable (L : Layout) (s : Ept) (g : BitVec 64) (i j i' j' : Fin 512) (k k' : Fin 64) (n : Fin 512)

@[simp] theorem splitWrite_pml4 : (splitWrite L s g i j k).pml4 = s.pml4 := rfl
@[simp] theorem splitWrite_pdpt : (splitWrite L s g i j k).pdpt = s.pdpt := rfl

theorem pde_splitWrite : (splitWrite L s g i j k).pde i' j' =
    if i' = i ∧ j' = j then splitPde L (s.pde i j).memoryType k (s.pde i j) else s.pde i' j' := by
  by_cases hi : i' = i
  · subst hi; simp [splitWrite, pde, Function.update_apply]
  · simp [splitWrite, pde, Function.update_apply, hi]

theorem pte_splitWrite : (splitWrite L s g i j k).pte k' n =
    if k' = k then mapPage (s.pde i j).memoryType (splitPteAddr g n) (s.pte k n) else s.pte k' n := by
  by_cases hk : k' = k
  · subst hk; simp [splitWrite, pte]
  · simp [splitWrite, pte, Function.update_apply, hk]

end SplitWrite

/-- `Ept::split_2mb_to_4kb` (`paging.rs`, lines 130-182). -/
def split2mbTo4kb (L : Layout) (self : Ept) (guestPa : BitVec 64) (ptTableIndex : Nat) :
    Outcome Ept :=
  if h : ptTableIndex = 0 ∨ 64 ≤ ptTableIndex then (.error .invalidPtIndex, self)
  else if !(self.pde (pdptIndex guestPa) (pdIndex guestPa)).large then
    (.error .pageAlreadySplit, self)
  else (.ok (), splitWrite L self guestPa (pdptIndex guestPa) (pdIndex guestPa) ⟨ptTableIndex, by omega⟩)

/-- The three permission writes of `modify_page_permissions`. -/
def setAccess (e : Entry) (accessType : AccessType) : Entry :=
  ((e.setReadable (accessType.contains .read)).setWritable (accessType.contains .write)).setExecutable
    (accessType.contains .execute)

/-- `Ept::modify_page_permissions` (`paging.rs`, lines 200-242). -/
def modifyPagePermissions (self : Ept) (guestPa : BitVec 64) (accessType : AccessType)
    (ptTableIndex : Nat) : Outcome Ept :=
  if h : ptTableIndex = 0 ∨ 64 ≤ ptTableIndex then (.error .invalidPtIndex, self)
  else if !isLargePageAligned guestPa && !isBasePageAligned guestPa then
    (.error .unalignedAddressError, self)
  else
    let i := pdptIndex guestPa
    let j := pdIndex guestPa
    if (self.pde i j).large then (.ok (), self.setPde i j (setAccess (self.pde i j) accessType))
    else
      let k : Fin 64 := ⟨ptTableIndex, by omega⟩
      (.ok (), self.setPte k (ptIndex guestPa) (setAccess (self.pte k (ptIndex guestPa)) accessType))

/-- `Ept::remap_gpa_to_hpa` (`paging.rs`, lines 260-311). -/
def remapGpaToHpa (self : Ept) (guestPa hostPa : BitVec 64) (ptTableIndex : Nat) : Outcome Ept :=
  if h : ptTableIndex = 0 ∨ 64 ≤ ptTableIndex then (.error .invalidPtIndex, self)
  else if !isBasePageAligned guestPa || !isBasePageAligned hostPa then
    (.error .unalignedAddressError, self)
  else if (self.pde (pdptIndex guestPa) (pdIndex guestPa)).large then
    (.error .largePageRemapError, self)
  else
    let k : Fin 64 := ⟨ptTableIndex, by omega⟩
    (.ok (), self.setPte k (ptIndex guestPa)
      ((self.pte k (ptIndex guestPa)).setPfn (hostPa >>> basePageShift)))

end Ept

end IllusionEpt
