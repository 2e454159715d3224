import Assay.Frame

/-!
# Snapshots built from the empty one

Memory in a built snapshot is typed: what is read at a type has that type (`Built.type_of_read?`).
-/

namespace Assay.Snapshot

/-- The snapshots that the empty one is built up to. -/
inductive Built : Snapshot → Prop
  | empty : Built .empty
  | withVariable {frame : Snapshot} (built : Built frame) (name : String) (value : Value) :
    Built (frame.withVariable name value)
  | withVariableAt {frame : Snapshot} (built : Built frame) (name : String) (value : Value)
    (address : UInt64) : Built (frame.withVariableAt name value address)
  | withType {frame : Snapshot} (built : Built frame) (name : String) (type : Ty) :
    Built (frame.withType name type)
  | withMemory {frame : Snapshot} (built : Built frame) (address : UInt64) (value : Value) :
    Built (frame.withMemory address value)

theorem mem_of_lookup {α β : Type} [BEq α] [LawfulBEq α] {l : List (α × β)} {k : α} {b : β}
    (h : l.lookup k = some b) : (k, b) ∈ l := by
  obtain ⟨l₁, l₂, rfl, -⟩ := List.lookup_eq_some_iff.mp h
  simp

theorem Built.type_of_mem {frame : Snapshot} (built : frame.Built) :
    ∀ cell ∈ frame.memory, cell.2.type = cell.1.2 := by
  induction built with
  | empty => simp [Snapshot.empty]
  | withVariable _ _ _ ih => exact ih
  | withVariableAt _ _ _ _ ih =>
    intro cell h
    rcases List.mem_cons.mp h with rfl | h
    · rfl
    · exact ih cell h
  | withType _ _ _ ih => exact ih
  | withMemory _ _ _ ih =>
    intro cell h
    rcases List.mem_cons.mp h with rfl | h
    · rfl
    · exact ih cell h

theorem Built.type_of_read? {frame : Snapshot} (built : frame.Built) {address : UInt64}
    {type : Ty} {value : Value} (h : frame.read? address type = some value) :
    value.type = type :=
  built.type_of_mem _ (mem_of_lookup h)

section Lookup

variable (frame : Snapshot) (name : String) (value : Value) (address : UInt64)

theorem valueOf?_withVariable : (frame.withVariable name value).valueOf? name = some value :=
  List.lookup_cons_self

theorem addressOf?_withVariableAt :
    (frame.withVariableAt name value address).addressOf? name = some address :=
  List.lookup_cons_self

theorem read?_withMemory : (frame.withMemory address value).read? address value.type = some value :=
  List.lookup_cons_self

variable {frame name value address}

theorem valueOf?_withVariable_of_ne {other : String} (h : other ≠ name) :
    (frame.withVariable other value).valueOf? name = frame.valueOf? name := by
  have hne : (name == other) = false := beq_eq_false_iff_ne.mpr h.symm
  simp only [valueOf?, withVariable, List.lookup_cons, hne]

theorem addressOf?_withVariableAt_of_ne {other : String} (h : other ≠ name) :
    (frame.withVariableAt other value address).addressOf? name = frame.addressOf? name := by
  have hne : (name == other) = false := beq_eq_false_iff_ne.mpr h.symm
  simp only [addressOf?, withVariableAt, withVariable, withMemory, List.lookup_cons, hne]

theorem read?_withMemory_of_ne {a : UInt64} {type : Ty}
    (h : (a, type) ≠ (address, value.type)) :
    (frame.withMemory address value).read? a type = frame.read? a type := by
  have hne : ((a, type) == (address, value.type)) = false := beq_eq_false_iff_ne.mpr h
  simp only [read?, withMemory, List.lookup_cons, hne]

end Lookup

end Assay.Snapshot
