import Assay.Check
import Assay.Proofs.Frame
import Assay.Proofs.Ty.Layout

/-!
# What the synthetic frame holds

The frame for generated expressions is built up from the empty one, and of its four names each has
the value it was given as long as they are distinct (`valueOf?_frame`). The record has an `int`
field for each configured name, the first of that name (`field?_recordType`).
-/

namespace Assay

/-- No two of the names that expressions refer to are the same. -/
def Config.Distinct (config : Config) : Prop :=
  [config.varName, config.arrayName, config.structName, config.structPointerName].Nodup

instance (config : Config) : Decidable config.Distinct := inferInstanceAs (Decidable (List.Nodup _))

namespace Synthetic

variable (target : Target) (config : Config)

/-! ## The record -/

theorem fields_recordType :
    ((recordType target config).fields.toList.map fun field => (field.name, field.type)) =
      config.fieldNames.map (·, Ty.int) := by
  have hrecord : recordType target config =
      (RecordType.empty (tag config)).withFields target (config.fieldNames.map (·, Ty.int)) := by
    rw [RecordType.withFields, List.foldl_map]
    rfl
  obtain ⟨added, hadded, hnamed⟩ := RecordType.fields_withFields target
    (config.fieldNames.map (·, Ty.int)) (.empty (tag config))
  rw [hrecord, hadded]
  exact hnamed

variable {config} in
theorem field?_recordType {name : String} (h : name ∈ config.fieldNames) :
    ∃ field, (recordType target config).field? name = some field ∧ field.type = .int := by
  have hmem : (name, Ty.int) ∈ (recordType target config).fields.toList.map
      fun field => (field.name, field.type) := by
    rw [fields_recordType]
    exact List.mem_map.mpr ⟨name, h, rfl⟩
  obtain ⟨field, hf, heq⟩ := List.mem_map.mp hmem
  have hname : field.name = name := congrArg Prod.fst heq
  cases hfound : (recordType target config).field? name with
  | none =>
    have hnone := List.find?_eq_none.mp hfound field hf
    exact absurd (decide_eq_true hname) hnone
  | some found =>
    refine ⟨found, rfl, ?_⟩
    have hpair : (found.name, found.type) ∈ config.fieldNames.map (·, Ty.int) := by
      rw [← fields_recordType target]
      exact List.mem_map.mpr ⟨found, List.mem_of_find?_eq_some hfound, rfl⟩
    obtain ⟨_, -, heq⟩ := List.mem_map.mp hpair
    exact (congrArg Prod.snd heq).symm

/-! ## The frame -/

/-- Entries of memory are all that the fold adds. -/
theorem foldl_withMemory {α : Type} (address : α → UInt64) (value : α → Value) (cells : List α)
    (frame : Snapshot) :
    ∃ memory, cells.foldl (fun frame a => frame.withMemory (address a) (value a)) frame =
        { frame with memory }
      ∧ (frame.Built → Snapshot.Built { frame with memory }) := by
  induction cells generalizing frame with
  | nil => exact ⟨frame.memory, rfl, id⟩
  | cons cell rest ih =>
    obtain ⟨memory, heq, hbuilt⟩ := ih (frame.withMemory (address cell) (value cell))
    refine ⟨memory, ?_, fun built => hbuilt (built.withMemory (address cell) (value cell))⟩
    rw [List.foldl_cons, heq]
    rfl

theorem withArray_eq (frame : Snapshot) :
    ∃ memory, withArray target frame = { frame with memory }
      ∧ (frame.Built → Snapshot.Built { frame with memory }) :=
  foldl_withMemory (fun i => arrayAddress + UInt64.ofNat (i * target.sizeOf .int))
    (fun i => .ofInt target .int (i * 3)) (List.range arrayLength) frame

theorem withFields_eq (record : RecordType) (frame : Snapshot) :
    ∃ memory, withFields target record frame = { frame with memory }
      ∧ (frame.Built → Snapshot.Built { frame with memory }) :=
  foldl_withMemory (fun cell : Field × Nat => structAddress + UInt64.ofNat cell.1.offset)
    (fun cell => .ofInt target cell.1.type (cell.2 + 1)) record.fields.toList.zipIdx frame

/-- The variables and their addresses do not depend on memory. -/
theorem frame_entries :
    ((frame target config).vars =
      [(config.structName, .record (recordType target config) structAddress),
        (config.structPointerName, .pointer (.record (recordType target config)) structAddress),
        (config.arrayName, .pointer .int arrayAddress), (config.varName, .ofInt target .int 42)])
      ∧ (frame target config).addresses =
          [(config.structName, structAddress), (config.varName, variableAddress)]
      ∧ (frame target config).Built := by
  let start := (Snapshot.empty.withVariableAt config.varName (.ofInt target .int 42)
    variableAddress).withVariable config.arrayName (.pointer .int arrayAddress)
  have hstart : start.Built := .withVariable (.withVariableAt .empty _ _ _) _ _
  obtain ⟨memory, harray, hbuilt⟩ := withArray_eq target start
  obtain ⟨memory', hfields, hbuilt'⟩ :=
    withFields_eq target (recordType target config) { start with memory }
  simp only [frame]
  rw [harray, hfields]
  have hbefore := hbuilt' (hbuilt hstart)
  exact ⟨rfl, rfl, .withVariableAt (.withVariable (.withType hbefore _ _) _ _) _ _ _⟩

variable {config} (distinct : config.Distinct)

include distinct

/-- Each name has the value it was given. -/
theorem valueOf?_frame :
    (frame target config).valueOf? config.varName = some (.ofInt target .int 42)
      ∧ (frame target config).valueOf? config.arrayName = some (.pointer .int arrayAddress)
      ∧ (frame target config).valueOf? config.structName =
          some (.record (recordType target config) structAddress)
      ∧ (frame target config).valueOf? config.structPointerName =
          some (.pointer (.record (recordType target config)) structAddress) := by
  simp only [Config.Distinct, List.nodup_cons, List.mem_cons, not_or, List.not_mem_nil] at distinct
  obtain ⟨⟨hva, hvs, hvp, -⟩, ⟨has, hap, -⟩, ⟨hsp, -⟩, -⟩ := distinct
  simp only [Snapshot.valueOf?, (frame_entries target config).1, List.lookup_cons, beq_self_eq_true]
  simp [beq_false_of_ne, hva, hvs, hvp, has, hap, Ne.symm hsp]

theorem addressOf?_frame :
    (frame target config).addressOf? config.varName = some variableAddress := by
  simp only [Config.Distinct, List.nodup_cons, List.mem_cons, not_or] at distinct
  obtain ⟨⟨-, hvs, -⟩, -⟩ := distinct
  simp only [Snapshot.addressOf?, (frame_entries target config).2.1, List.lookup_cons]
  simp [beq_false_of_ne, hvs]

end Synthetic

end Assay
