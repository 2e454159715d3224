import Assay.Proofs.Evaluation.Typing
import Assay.Ty.Layout

/-!
# Variables and their memory

A variable that is declared with an address has its value in memory too, and both answer for it:
`name` by the variable, `*&name` by memory. They stay in step as long as nothing else is written
over it (`InStep`), and then give the same outcome (`dereference_own_address`). A frame can be
built that sets one against the other (`dereference_written_over`).
-/

namespace Assay

namespace Snapshot

/-- `after` is the frame with a value written at an address, without a word about `name`. -/
inductive Writes (name : String) (address : UInt64) (value : Value) (frame : Snapshot) :
    Snapshot → Prop
  | ofMemory : Writes name address value frame (frame.withMemory address value)
  | ofVariable {other : String} (hne : other ≠ name) :
    Writes name address value frame (frame.withVariableAt other value address)

/-- How frames are built in which memory keeps in step with a variable. Of a record, memory holds
the fields only, so a record only has to lie where it is declared. -/
inductive InStep (name : String) : Snapshot → Prop
  | unplaced {frame : Snapshot} (h : frame.addressOf? name = none) : InStep name frame
  | declared {frame : Snapshot} {value : Value} {address : UInt64}
    (own : value.type.isTestable = false → value.address? = some address) :
    InStep name (frame.withVariableAt name value address)
  | withVariable {frame : Snapshot} (h : InStep name frame) {other : String} (hne : other ≠ name)
    (value : Value) : InStep name (frame.withVariable other value)
  | withType {frame : Snapshot} (h : InStep name frame) (tag : String) (type : Ty) :
    InStep name (frame.withType tag type)
  /-- No other value is written over the variable. -/
  | written {frame after : Snapshot} (h : InStep name frame) {address : UInt64} {value : Value}
    (hw : frame.Writes name address value after)
    (spares : ∀ own, frame.valueOf? name = some own → frame.addressOf? name = some address →
      own.type.isTestable → own.type = value.type → own = value) : InStep name after
  /-- Whatever was there, the value of the variable is written. -/
  | restored {frame after : Snapshot} {address : UInt64} {value : Value}
    (hw : frame.Writes name address value after) (hv : frame.valueOf? name = some value)
    (ha : frame.addressOf? name = some address) (ht : value.type.isTestable) : InStep name after

/-- Memory holds the variable's value at its address, or the variable is a record that lies
there. -/
def Agrees (frame : Snapshot) (name : String) : Prop :=
  ∀ value address, frame.valueOf? name = some value → frame.addressOf? name = some address →
    (value.type.isTestable → frame.read? address value.type = some value)
      ∧ (value.type.isTestable = false → value.address? = some address)

namespace Writes

variable {name : String} {address : UInt64} {value : Value} {frame after : Snapshot}
  (h : frame.Writes name address value after)
include h

theorem valueOf?_eq : after.valueOf? name = frame.valueOf? name := by
  cases h with
  | ofMemory => rfl
  | ofVariable hne => exact valueOf?_withVariable_of_ne hne

theorem addressOf?_eq : after.addressOf? name = frame.addressOf? name := by
  cases h with
  | ofMemory => rfl
  | ofVariable hne => exact addressOf?_withVariableAt_of_ne hne

theorem read?_eq (a : UInt64) (type : Ty) :
    after.read? a type = (frame.withMemory address value).read? a type := by
  cases h <;> rfl

theorem agrees (hagrees : frame.Agrees name)
    (spares : ∀ own, frame.valueOf? name = some own → frame.addressOf? name = some address →
      own.type.isTestable → own.type = value.type → own = value) : after.Agrees name := by
  intro own a hv ha
  rw [h.valueOf?_eq] at hv
  rw [h.addressOf?_eq] at ha
  obtain ⟨hread, hrecord⟩ := hagrees own a hv ha
  refine ⟨fun ht => ?_, hrecord⟩
  rw [h.read?_eq]
  by_cases hcell : (a, own.type) = (address, value.type)
  · obtain ⟨rfl, htype⟩ := Prod.mk.inj hcell
    obtain rfl := spares own hv ha ht htype
    exact read?_withMemory _ _ _
  · rw [read?_withMemory_of_ne hcell]
    exact hread ht

theorem agrees_of_own (hv : frame.valueOf? name = some value)
    (ha : frame.addressOf? name = some address) (ht : value.type.isTestable) :
    after.Agrees name := by
  intro own a hown ha'
  rw [h.valueOf?_eq, hv] at hown
  rw [h.addressOf?_eq, ha] at ha'
  cases hown
  cases ha'
  refine ⟨fun _ => ?_, fun hrecord => ?_⟩
  · rw [h.read?_eq]
    exact read?_withMemory _ _ _
  · rw [ht] at hrecord
    cases hrecord

end Writes

theorem InStep.agrees {name : String} {frame : Snapshot} (h : frame.InStep name) :
    frame.Agrees name := by
  induction h with
  | unplaced hnone =>
    intro value address _ ha
    rw [hnone] at ha
    cases ha
  | @declared frame value address own =>
    intro v a hv ha
    rw [addressOf?_withVariableAt] at ha
    cases ha
    have hvalue : (frame.withVariableAt name value address).valueOf? name = some value :=
      valueOf?_withVariable _ name value
    rw [hvalue] at hv
    cases hv
    exact ⟨fun _ => read?_withMemory frame value address, own⟩
  | withVariable h hne value ih =>
    intro v a hv ha
    rw [valueOf?_withVariable_of_ne hne] at hv
    exact ih v a hv ha
  | withType h tag type ih => exact ih
  | written h hw spares ih => exact hw.agrees ih spares
  | restored hw hv ha ht => exact hw.agrees_of_own hv ha ht

end Snapshot

theorem Value.eq_record {v : Value} {r : RecordType} {address : UInt64} (ht : v.type = .record r)
    (ha : v.address? = some address) : v = .record r address := by
  obtain ⟨type, scalar⟩ := v
  cases ht
  cases scalar <;> cases ha
  rfl

namespace EvalContext

variable {target : Target} {frame : Snapshot} {options : EvalOptions} {name : String}

section Own

variable (h : frame.Agrees name) {value : Value} {address : UInt64}
  (hv : frame.valueOf? name = some value)
  (ha : frame.addressOf? name = some address
    ∨ frame.addressOf? name = none ∧ value.type.isTestable = false
      ∧ value.address? = some address)
include h hv ha

theorem eq_record_of_own {r : RecordType} (hr : value.type = .record r) :
    value = .record r address := by
  have hrecord : value.type.isTestable = false := by rw [hr]; rfl
  rcases ha with ha | ⟨-, -, haddress⟩
  · exact Value.eq_record hr ((h value address hv ha).2 hrecord)
  · exact Value.eq_record hr haddress

/-- What lies at the address of a variable is the variable. -/
theorem load_own : load ⟨target, frame.toFrame, options⟩ address value.type = pure value := by
  cases htype : value.type with
  | record r =>
    rw [eq_record_of_own h hv ha htype]
    rfl
  | scalar _ | enumeration _ | pointer _ =>
    have ht : value.type.isTestable := by rw [htype]; rfl
    have hread : frame.toFrame.read? address value.type = some value := by
      rcases ha with ha | ⟨-, hrecord, -⟩
      · exact (h value address hv ha).1 ht
      · rw [ht] at hrecord
        cases hrecord
    rw [htype] at hread
    simp only [load, hread]

end Own

/-- Where memory agrees with a variable, the address of the variable leads back to it. -/
theorem eval_own_address (h : frame.Agrees name) {pointer : Value}
    (hp : variablePointer ⟨target, frame.toFrame, options⟩ name = .ok pointer) :
    ∃ value, eval ⟨target, frame.toFrame, options⟩ (.var name) = pure value
      ∧ eval ⟨target, frame.toFrame, options⟩ (.dereference (.addressOf (.var name))) = pure value
      ∧ (value.type.isTestable = false → ∀ field,
          eval ⟨target, frame.toFrame, options⟩ (.memberOfPointer (.addressOf (.var name)) field) =
            eval ⟨target, frame.toFrame, options⟩ (.member (.var name) field)) := by
  obtain ⟨value, address, hv, rfl, ha⟩ := variablePointer_cases hp
  have hload : load ⟨target, frame.toFrame, options⟩ address value.type = pure value :=
    load_own h hv ha
  have haddress : eval ⟨target, frame.toFrame, options⟩ (.addressOf (.var name)) =
      pure (.pointer value.type address) := by
    simp only [eval, evalAddress]
    rw [hp]
    rfl
  have hvar : eval ⟨target, frame.toFrame, options⟩ (.var name) = pure value := by
    simp only [eval]
    rw [hv]
    rfl
  refine ⟨value, hvar, ?_, fun hrecord field => ?_⟩
  · rw [eval, haddress, pure_bind]
    exact hload
  · cases htype : value.type with
    | record r =>
      rw [eval, hvar, pure_bind, eval, haddress, pure_bind, eq_record_of_own h hv ha htype]
      rfl
    | scalar _ | enumeration _ | pointer _ =>
      rw [htype] at hrecord
      cases hrecord

/-- The address of a variable that memory keeps in step with leads back to it: `*&name` is given
what `name` is, and a record has the same fields either way. -/
theorem dereference_own_address (h : frame.InStep name) {p : Evaluation}
    (hp : evaluate ⟨target, frame.toFrame, options⟩ (.addressOf (.var name)) = .ok p) :
    ∃ r, evaluate ⟨target, frame.toFrame, options⟩ (.var name) = .ok r
      ∧ evaluate ⟨target, frame.toFrame, options⟩ (.dereference (.addressOf (.var name))) = .ok r
      ∧ (r.value.type.isTestable = false → ∀ field,
          evaluate ⟨target, frame.toFrame, options⟩
              (.memberOfPointer (.addressOf (.var name)) field) =
            evaluate ⟨target, frame.toFrame, options⟩ (.member (.var name) field)) := by
  obtain ⟨pointer, hpointer⟩ : ∃ pointer,
      variablePointer ⟨target, frame.toFrame, options⟩ name = .ok pointer := by
    rcases hpointer : variablePointer ⟨target, frame.toFrame, options⟩ name with e | pointer
    · have hrun : evaluate ⟨target, frame.toFrame, options⟩ (.addressOf (.var name)) =
          .error e := by
        simp only [evaluate, evaluateIn, eval, evalAddress, hpointer]
        rfl
      rw [hrun] at hp
      cases hp
    · exact ⟨pointer, rfl⟩
  obtain ⟨value, hvar, hdereference, hfields⟩ := eval_own_address h.agrees hpointer
  refine ⟨⟨value, .none⟩, ?_, ?_, fun hrecord field => ?_⟩
  · simp only [evaluate, evaluateIn, hvar]
    rfl
  · simp only [evaluate, evaluateIn, hdereference]
    rfl
  · simp only [evaluate, evaluateIn, hfields hrecord field]

/-- A variable with an address, and memory beside it. -/
theorem dereference_own_address_beside :
    let int (n : Int) : Value := .ofInt (.ofArch .x86_64) .int n
    let frame := (Snapshot.empty.withVariableAt "x" (int 7) 64).withMemory 68 (int 9)
    evaluate ⟨.ofArch .x86_64, frame.toFrame, {}⟩ (.dereference (.addressOf (.var "x"))) =
      .ok ⟨int 7, .none⟩ := by
  intro int frame
  have hstep : frame.InStep "x" :=
    .written (.declared fun hrecord => absurd hrecord (by decide)) .ofMemory
      fun _ _ haddress => absurd haddress (by decide)
  have hp : evaluate ⟨.ofArch .x86_64, frame.toFrame, {}⟩ (.addressOf (.var "x")) =
      .ok ⟨.pointer .int 64, .none⟩ := rfl
  obtain ⟨r, hx, hdereference, -⟩ := dereference_own_address hstep hp
  rw [hdereference, ← hx]
  rfl

/-- Another value can be written over a variable, by itself or with another variable, and a record
can be declared where it does not lie. -/
theorem dereference_written_over :
    let int (n : Int) : Value := .ofInt (.ofArch .x86_64) .int n
    let s : RecordType := (RecordType.empty "S").withField (.ofArch .x86_64) "f" .int
    let cx (frame : Snapshot) : EvalContext := ⟨.ofArch .x86_64, frame.toFrame, {}⟩
    let overwritten := (Snapshot.empty.withVariableAt "x" (int 7) 64).withMemory 64 (int 9)
    let shared := (Snapshot.empty.withVariableAt "x" (int 7) 64).withVariableAt "y" (int 9) 64
    let elsewhere := Snapshot.empty.withVariableAt "s" (.record s 64) 128
    (cx overwritten).evaluate (.var "x") = .ok ⟨int 7, .none⟩
      ∧ (cx overwritten).evaluate (.dereference (.addressOf (.var "x"))) = .ok ⟨int 9, .none⟩
      ∧ (cx shared).evaluate (.var "x") = .ok ⟨int 7, .none⟩
      ∧ (cx shared).evaluate (.dereference (.addressOf (.var "x"))) = .ok ⟨int 9, .none⟩
      ∧ int 7 ≠ int 9
      ∧ (cx elsewhere).evaluate (.var "s") = .ok ⟨.record s 64, .none⟩
      ∧ (cx elsewhere).evaluate (.dereference (.addressOf (.var "s"))) =
          .ok ⟨.record s 128, .none⟩
      ∧ Value.record s 64 ≠ .record s 128 := by
  intro int s cx overwritten shared elsewhere
  exact ⟨rfl, rfl, rfl, rfl, by decide, rfl, rfl, by decide⟩

end EvalContext

end Assay
