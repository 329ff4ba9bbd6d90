import IllusionEpt.BuildIdentity

/-!
# The EPT walk

How the processor reads an `Ept`: the 4-level walk of a guest-physical address,
each page frame number resolved to the table of the `Ept` at that physical
address. This is the meaning the tables have, not code of the repository; the
results about `paging.rs` are stated through it.

`walk_eq_pdWalk` reduces the walk of any state whose PML4 and PDPT are as
`build_identity` leaves them to the PD entry of the address, so that frame
conditions only compare PD entries and the tables they point at.
-/

namespace IllusionEpt

set_option autoImplicit false

/-- The nine bits of `x` from bit `shift` on, `x[shift + 8 : shift]`. -/
def index (x shift : Nat) : Fin 512 := ⟨x / 2 ^ shift % 512, Nat.mod_lt _ (by decide)⟩

/-- The table indices of an address are the walk's indices of its value. -/
theorem tableIndex_eq_index (g : BitVec 64) (k : Nat) : tableIndex g k = index g.toNat k :=
  Fin.ext (val_tableIndex g k)

/-- Two addresses agree from bit `k` up exactly when they agree from bit `k + 9` up and in the
index at bit `k`. -/
theorem div_eq_div_iff_index (a b k : Nat) :
    a / 2 ^ k = b / 2 ^ k ↔ a / 2 ^ (k + 9) = b / 2 ^ (k + 9) ∧ index a k = index b k := by
  simp only [Fin.ext_iff, index, pow_add, ← Nat.div_div_eq_div_mul]
  omega

/-- An index reads no bit from bit `n` up when it ends below `n`. -/
theorem index_mod_two_pow {n k : Nat} (hk : k + 9 ≤ n) (x : Nat) :
    index (x % 2 ^ n) k = index x k := by
  have h : 2 ^ n = 2 ^ k * 2 ^ (n - k) := by rw [← pow_add]; congr 1; omega
  have h512 : 512 ∣ 2 ^ (n - k) := pow_dvd_pow 2 (by omega : 9 ≤ n - k)
  apply Fin.ext
  simp only [index]
  rw [h, Nat.mod_mul_right_div_self, Nat.mod_mod_of_dvd _ h512]

/-- Where a walk ends: the table and index of the leaf entry, and whether it maps 2MB. -/
structure Leaf where
  table : TableRef
  index : Fin 512
  large : Bool
deriving DecidableEq, Repr

/-- What an address translates to: host address, permissions and memory type. -/
structure Translation where
  hostAddr : Nat
  readable : Bool
  writable : Bool
  executable : Bool
  memoryType : Nat
deriving DecidableEq, Repr

/-- The translation a leaf entry gives to an address at `offset` inside its page. -/
def Translation.ofEntry (e : Entry) (offset : Nat) : Translation :=
  ⟨e.pfn.toNat * 4096 + offset, e.readable, e.writable, e.executable, e.memoryType.toNat⟩

/-- The table a non-leaf entry leads to; a not-present entry ends the walk. -/
def Layout.follow (L : Layout) (e : Entry) : Option TableRef :=
  if e.present then L.resolve e.pfn.toNat else none

namespace Ept

variable (L : Layout) (s : Ept)

/-- The 4-level walk of `x`: PML4 entry `x[47:39]`, PDPT entry `x[38:30]`, PD entry `x[29:21]`,
which is the leaf when large, else PT entry `x[20:12]`. -/
def walk (x : Nat) : Option Leaf := do
  let t3 ← L.follow (s.pml4.entries (index x 39))
  let t2 ← L.follow ((s.table t3).entries (index x 30))
  if ((s.table t2).entries (index x 21)).large then pure ⟨t2, index x 21, true⟩
  else
    let t1 ← L.follow ((s.table t2).entries (index x 21))
    pure ⟨t1, index x 12, false⟩

/-- The translation of `x`: the leaf's frame plus the offset of `x` in the leaf's page. -/
def translate (x : Nat) : Option Translation :=
  (s.walk L x).map fun l =>
    Translation.ofEntry ((s.table l.table).entries l.index) (if l.large then x % 2 ^ 21 else x % 4096)

/-- The walk from PD entry `(i, j)` on, with `n` the PT index. -/
def pdWalk (i j n : Fin 512) : Option Leaf :=
  if (s.pde i j).large then some ⟨.pd i, j, true⟩
  else (L.follow (s.pde i j)).map fun t => ⟨t, n, false⟩

/-- The PML4 and PDPT as `build_identity` leaves them: only `pml4[0]` is present and points at
the PDPT, and PDPT entry `i` points at `pd[i]`. -/
structure UpperTables : Prop where
  pml4_root : L.follow (s.pml4.entries 0) = some .pdpt
  pml4_other : ∀ i, i ≠ 0 → (s.pml4.entries i).present = false
  pdpt : ∀ i, L.follow (s.pdpt.entries i) = some (.pd i)

variable {L s}

theorem UpperTables.of_upper_eq {t : Ept} (h : UpperTables L s) (h4 : t.pml4 = s.pml4)
    (h3 : t.pdpt = s.pdpt) : UpperTables L t :=
  ⟨by rw [h4]; exact h.pml4_root, by rw [h4]; exact h.pml4_other, by rw [h3]; exact h.pdpt⟩

theorem walk_eq_pdWalk (h : UpperTables L s) (x : Nat) :
    s.walk L x =
      if index x 39 = 0 then s.pdWalk L (index x 30) (index x 21) (index x 12) else none := by
  by_cases h0 : index x 39 = 0
  · simp only [walk, h0, h.pml4_root, h.pdpt, if_true, Option.bind_eq_bind, Option.some_bind, table,
      pdWalk, pde]
    split <;> simp [Option.map_eq_bind]
  · simp [walk, h0, Layout.follow, h.pml4_other _ h0]

theorem translate_eq (h : UpperTables L s) (x : Nat) :
    s.translate L x =
      if index x 39 = 0 then
        (s.pdWalk L (index x 30) (index x 21) (index x 12)).map fun l =>
          Translation.ofEntry ((s.table l.table).entries l.index)
            (if l.large then x % 2 ^ 21 else x % 4096)
      else none := by
  rw [translate, walk_eq_pdWalk h]
  split <;> rfl

theorem translate_of_index_ne (h : UpperTables L s) {x : Nat} (h0 : index x 39 ≠ 0) :
    s.translate L x = none := by
  rw [translate_eq h, if_neg h0]

/-- An address whose PD entry is a 2MB leaf translates through that entry. -/
theorem translate_of_large (h : UpperTables L s) {x : Nat} (h0 : index x 39 = 0)
    (hl : (s.pde (index x 30) (index x 21)).large = true) :
    s.translate L x = some (Translation.ofEntry (s.pde (index x 30) (index x 21)) (x % 2 ^ 21)) := by
  rw [translate_eq h, if_pos h0, pdWalk, if_pos hl]; rfl

/-- An address whose PD entry references `pt[k]` translates through entry `x[20:12]` of it. -/
theorem translate_of_pt (h : UpperTables L s) {x : Nat} (h0 : index x 39 = 0) {k : Fin 64}
    (hl : (s.pde (index x 30) (index x 21)).large = false)
    (hk : L.follow (s.pde (index x 30) (index x 21)) = some (.pt k)) :
    s.translate L x = some (Translation.ofEntry (s.pte k (index x 12)) (x % 4096)) := by
  rw [translate_eq h, if_pos h0, pdWalk, if_neg (by rw [hl]; decide), hk]; rfl

/-- The frame condition of the walk: two states with such upper tables translate `x` alike when
they agree on the PD entry of `x` and on the leaf entry it leads to. -/
theorem translate_congr {t : Ept} (hs : UpperTables L s) (ht : UpperTables L t) (x : Nat)
    (hpde : t.pde (index x 30) (index x 21) = s.pde (index x 30) (index x 21))
    (hleaf : ∀ l, s.pdWalk L (index x 30) (index x 21) (index x 12) = some l →
      (t.table l.table).entries l.index = (s.table l.table).entries l.index) :
    t.translate L x = s.translate L x := by
  have hw : t.pdWalk L (index x 30) (index x 21) (index x 12) =
      s.pdWalk L (index x 30) (index x 21) (index x 12) := by
    simp only [pdWalk, hpde]
  rw [translate_eq hs, translate_eq ht, hw]
  split
  · exact Option.map_congr fun l hl => by rw [hleaf l hl]
  · rfl

end Ept

end IllusionEpt
