import Assay.Binary64.Basic
import Assay.Toml.Writer
import Mathlib.Algebra.Group.Int.Defs
import Mathlib.Data.List.Nodup
import Mathlib.Data.List.Perm.Basic

/-!
# Data that a document keeps

A document keeps the data of a tree but not the order of a table's entries: plain entries are
written before subtables. What is read back is the tree rearranged (`Value.Rearranged`), for trees
that documents have a form for (`Value.Portable`). Nothing else is asked of a library (`KeepsData`).
-/

namespace Assay.Toml

/-- Whether a value holds no other values. -/
def Value.isLeaf : Value → Bool
  | array _ | table _ => false
  | _ => true

/-- The same data, up to the order of the entries of tables. -/
inductive Value.Rearranged : Value → Value → Prop
  | leaf {v : Value} (leaf : v.isLeaf) : Rearranged v v
  | array {items items' : List Value} (length : items.length = items'.length)
      (each : ∀ pair ∈ items.zip items', Rearranged pair.1 pair.2) :
      Rearranged (.array items) (.array items')
  | table {entries entries' : Table} (keys : (entries.map (·.1)).Perm (entries'.map (·.1)))
      (each : ∀ key v w, (key, v) ∈ entries → (key, w) ∈ entries' → Rearranged v w) :
      Rearranged (.table entries) (.table entries')

/-- The trees of strings, integers of 64 bits, floats that are numbers, arrays, and tables without a
key given twice. -/
inductive Value.Portable : Value → Prop
  | string (s : String) : Portable (.string s)
  | integer {n : Int} (least : -2 ^ 63 ≤ n) (greatest : n < 2 ^ 63) : Portable (.integer n)
  | float {x : Binary64} (number : x ≠ .nan) : Portable (.float x)
  | array {items : List Value} (each : ∀ v ∈ items, Portable v) : Portable (.array items)
  | table {entries : Table} (distinct : (entries.map (·.1)).Nodup)
      (each : ∀ entry ∈ entries, Portable entry.2) : Portable (.table entries)

/-- A library that writes a table as text and reads the text keeps the data of portable tables. -/
def KeepsData (library : Table → Option Table) : Prop :=
  ∀ entries, (Value.table entries).Portable →
    ∃ entries', library entries = some entries' ∧
      (Value.table entries).Rearranged (.table entries')

namespace Value

theorem eq_of_mem_of_distinct {entries : Table} (distinct : (entries.map (·.1)).Nodup)
    {key : String} {v w : Value} (hv : (key, v) ∈ entries) (hw : (key, w) ∈ entries) : v = w :=
  congrArg Prod.snd (List.inj_on_of_nodup_map distinct hv hw rfl)

/-- Of a portable table the entries may come in any order. -/
theorem Portable.rearranged_of_perm {entries entries' : Table}
    (distinct : (entries.map (·.1)).Nodup) (self : ∀ entry ∈ entries, entry.2.Rearranged entry.2)
    (h : entries.Perm entries') : (Value.table entries).Rearranged (.table entries') := by
  refine .table (h.map _) fun key v w hv hw => ?_
  rw [← eq_of_mem_of_distinct distinct hv (h.mem_iff.mpr hw)]
  exact self _ hv

theorem Portable.rearranged_self {v : Value} (h : v.Portable) : v.Rearranged v := by
  induction h with
  | string | integer | float => exact .leaf rfl
  | @array items _ each =>
    refine .array rfl fun pair hpair => ?_
    obtain ⟨i, hi, rfl⟩ := List.mem_iff_getElem.mp hpair
    rw [List.getElem_zip]
    exact each _ (List.getElem_mem _)
  | table distinct _ each => exact rearranged_of_perm distinct each (.refl _)

section Inversion

variable {v w : Value} {entries : Table}

theorem Rearranged.eq_of_isLeaf (h : v.Rearranged w) (leaf : v.isLeaf) : w = v := by
  cases h with
  | leaf => rfl
  | array | table => cases leaf

/-- An array without tables stays as it is. -/
theorem Rearranged.eq_of_leaves {items : List Value} (h : (Value.array items).Rearranged w)
    (leaves : ∀ v ∈ items, v.isLeaf) : w = .array items := by
  cases h with
  | leaf leaf => cases leaf
  | @array _ items' length each =>
    refine congrArg Value.array (List.ext_getElem length.symm fun i hi hi' => ?_)
    have hpair : (items[i], items'[i]) ∈ items.zip items' :=
      List.mem_iff_getElem.mpr ⟨i, by rw [List.length_zip]; omega, List.getElem_zip⟩
    exact (each _ hpair).eq_of_isLeaf (leaves _ (List.getElem_mem hi'))

/-- A table stays a table of the same keys, in which each value is that of the key, rearranged. -/
theorem Rearranged.exists_table (h : (Value.table entries).Rearranged w) :
    ∃ entries', w = .table entries' ∧ (entries.map (·.1)).Perm (entries'.map (·.1))
      ∧ ∀ entry' ∈ entries', ∃ v, (entry'.1, v) ∈ entries ∧ v.Rearranged entry'.2 := by
  cases h with
  | leaf leaf => cases leaf
  | @table _ entries' keys each =>
    refine ⟨entries', rfl, keys, fun entry' hentry' => ?_⟩
    obtain ⟨⟨key, v⟩, hv, rfl⟩ := List.mem_map.mp (keys.mem_iff.mpr (List.mem_map_of_mem hentry'))
    exact ⟨v, hv, each _ _ _ hv hentry'⟩

end Inversion

end Value

/-- The order in which a table is written: the subtables come last. -/
def tablesLast (entries : Table) : Table :=
  entries.filter (!·.2.isTable) ++ entries.filter (·.2.isTable)

theorem keepsData_tablesLast : KeepsData fun entries => some (tablesLast entries) := by
  intro entries hportable
  refine ⟨_, rfl, ?_⟩
  cases hportable with
  | table distinct each =>
    have hperm := List.filter_append_perm (fun entry => !entry.2.isTable) entries
    exact Value.Portable.rearranged_of_perm distinct
      (fun entry h => (each entry h).rearranged_self) (by simpa [tablesLast] using hperm.symm)

end Assay.Toml
