import Assay.Proofs.Evaluation.Origin
import Assay.Proofs.Value.Address
import Assay.Ty.Layout

/-!
# Addresses stay in memory

A conversion reduces an address to memory, so of all that an expression does only taking a field
can lead out of it: the address of a field wraps at 64 bits, whatever the width of a pointer. In a
frame whose addresses lie in memory, every address that an expression is given lies there, if its
fields do or pointers have 64 bits (`inMemory_of_evaluateIn`). A field of a record at the end of a
smaller memory does not (`field_past_memory`).
-/

namespace Assay

/-- An operation makes values in memory, whatever its operands. -/
theorem Value.Made.inMemory {arch : Arch} {v : Value} (h : v.Made (.ofArch arch)) :
    v.InMemory (.ofArch arch) := by
  cases h with
  | integer ht raw => exact inMemory_ofInt ht raw
  | floating _ x => exact inMemory_ofBinary64 _ x
  | boolean b => exact inMemory_boolean b

/-- The addresses that the frame holds, in values and of variables, lie in memory. -/
structure Frame.InMemory (frame : Frame) (target : Target) : Prop where
  valueOf? : ∀ {name v}, frame.valueOf? name = some v → v.InMemory target
  addressOf? : ∀ {name address}, frame.addressOf? name = some address →
    target.Spans address.toNat
  read? : ∀ {address type v}, frame.read? address type = some v → v.InMemory target

theorem Snapshot.inMemory_of_entries {frame : Snapshot} {target : Target}
    (hv : ∀ entry ∈ frame.vars, entry.2.InMemory target)
    (ha : ∀ entry ∈ frame.addresses, target.Spans entry.2.toNat)
    (hm : ∀ entry ∈ frame.memory, entry.2.InMemory target) : frame.toFrame.InMemory target where
  valueOf? := fun h => hv _ (mem_of_lookup h)
  addressOf? := fun h => ha _ (mem_of_lookup h)
  read? := fun h => hm _ (mem_of_lookup h)

namespace EvalContext

open Eval

/-- Wherever the expression takes a field of a record at an address, `P` holds of them. -/
def TakesFields (cx : EvalContext) (P : RecordType → UInt64 → String → Prop) : Expr → Prop
  | .integer _ | .floating _ | .boolean _ | .var _ => True
  | .unary _ e | .addressOf e | .dereference e | .cast _ e | .paren e => cx.TakesFields P e
  | .binary _ e f | .index e f => cx.TakesFields P e ∧ cx.TakesFields P f
  | .conditional e f g => cx.TakesFields P e ∧ cx.TakesFields P f ∧ cx.TakesFields P g
  | .member e field => cx.TakesFields P e ∧ Yields (cx.eval e) fun base =>
    ∀ r address, base.type = .record r → base.address? = some address → P r address field
  | .memberOfPointer e field => cx.TakesFields P e ∧ Yields (cx.eval e) fun base =>
    ∀ r address, base.type = .pointer (.record r) → base.address? = some address → P r address field

/-- No field that the expression takes lies past the end of memory. -/
def FieldsInMemory (cx : EvalContext) : Expr → Prop :=
  cx.TakesFields fun r address field =>
    ∀ found, r.field? field = some found → cx.target.Spans (address.toNat + found.offset)

theorem takesFields_of_forall {cx : EvalContext} {P : RecordType → UInt64 → String → Prop}
    (h : ∀ r address field, P r address field) (e : Expr) : cx.TakesFields P e := by
  induction e with
  | integer _ | floating _ | boolean _ | var _ => trivial
  | unary _ _ ih | addressOf _ ih | dereference _ ih | cast _ _ ih | paren _ ih => exact ih
  | binary _ _ _ ihe ihf | index _ _ ihe ihf => exact ⟨ihe, ihf⟩
  | conditional _ _ _ ihe ihf ihg => exact ⟨ihe, ihf, ihg⟩
  | member _ _ ih | memberOfPointer _ _ ih => exact ⟨ih, fun _ _ _ r address _ _ => h r address _⟩

/-- Where the sum does not wrap, a field lies its offset past its record. -/
theorem spans_of_fieldPlace {arch : Arch} {r : RecordType} {address : UInt64} {field : String}
    {place : Place} (h : fieldPlace r address field = .ok place)
    (hspans : ∀ found, r.field? field = some found →
      (Target.ofArch arch).Spans (address.toNat + found.offset)) :
    (Target.ofArch arch).Spans place.address.toNat := by
  unfold fieldPlace at h
  split at h
  · rename_i found hfound
    cases h
    obtain ⟨hl, hu⟩ := hspans found hfound
    have hmemory : Nat.pow 2 (Target.ofArch arch).pointerBits ≤ Nat.pow 2 64 :=
      Nat.pow_le_pow_right (by decide) (Target.pointerBits_bounds arch).2
    have hsum : address.toNat + found.offset < Nat.pow 2 64 := by omega
    have hplace : (address + UInt64.ofNat found.offset).toNat = address.toNat + found.offset := by
      rw [UInt64.toNat_add, UInt64.toNat_ofNat', Nat.add_mod_mod]
      exact Nat.mod_eq_of_lt hsum
    rw [hplace]
    exact ⟨by omega, by omega⟩
  · cases h

/-- Where pointers have 64 bits, every address lies in memory. -/
theorem spans_of_pointerBits {target : Target} (h : target.pointerBits = 64) (address : UInt64) :
    target.Spans address.toNat := by
  have hlt : address.toNat < Nat.pow 2 target.pointerBits := by
    rw [h]
    exact address.toNat_lt
  exact ⟨by omega, by omega⟩

section Places

variable {target : Target} {P : RecordType → UInt64 → String → Prop}
  (hP : ∀ {r address field place}, P r address field → fieldPlace r address field = .ok place →
    target.Spans place.address.toNat)
  {base : Value} {field : String} {place : Place}
include hP

theorem spans_of_memberPlace
    (hbase : ∀ r address, base.type = .record r → base.address? = some address →
      P r address field)
    (h : memberPlace base field = .ok place) : target.Spans place.address.toNat := by
  unfold memberPlace at h
  split at h
  · rename_i r address ht ha
    exact hP (hbase r address ht ha) h
  · cases h

theorem spans_of_memberOfPointerPlace
    (hbase : ∀ r address, base.type = .pointer (.record r) → base.address? = some address →
      P r address field)
    (h : memberOfPointerPlace base field = .ok place) : target.Spans place.address.toNat := by
  unfold memberOfPointerPlace at h
  split at h
  · rename_i r address ht ha
    exact hP (hbase r address ht ha) h
  · cases h

end Places

variable {arch : Arch} {frame : Frame} {options : EvalOptions}

theorem load_yields_inMemory (hf : frame.InMemory (.ofArch arch)) {address : UInt64}
    (ha : (Target.ofArch arch).Spans address.toNat) (type : Ty) :
    Yields (load ⟨.ofArch arch, frame, options⟩ address type) (·.InMemory (.ofArch arch)) := by
  unfold load
  split
  · exact yields_pure (Value.inMemory_record ha)
  · split
    · rename_i hr
      exact yields_pure (hf.read? hr)
    · refine (yields_true _).bind fun session _ => ?_
      split
      · exact yields_pure (Value.inMemory_zero _)
      · exact yields_throw _

theorem spans_of_pointedPlace? {target : Target} {pointer : Value} {place : Place}
    (hv : pointer.InMemory target) (h : pointedPlace? pointer = some place) :
    target.Spans place.address.toNat := by
  unfold pointedPlace? at h
  split at h
  · rename_i ha
    cases h
    exact hv _ ha
  · cases h

theorem inMemory_variablePointer {target : Target} (hf : frame.InMemory target) {name : String}
    {pointer : Value} (h : variablePointer ⟨target, frame, options⟩ name = .ok pointer) :
    pointer.InMemory target := by
  obtain ⟨value, address, hv, rfl, ha | ⟨-, -, ha⟩⟩ := variablePointer_cases h
  · exact Value.inMemory_pointer (hf.addressOf? ha)
  · exact Value.inMemory_pointer (hf.valueOf? hv _ ha)

theorem inMemory_joinBranches {truth : Bool} {taken skipped value : Value}
    (ht : taken.InMemory (.ofArch arch))
    (h : joinBranches ⟨.ofArch arch, frame, options⟩ truth taken skipped = .ok value) :
    value.InMemory (.ofArch arch) := by
  rcases made_joinBranches h with rfl | hmade
  · exact ht
  · exact hmade.inMemory

/-- In a frame whose addresses lie in memory, the addresses that an expression has and designates
lie there too, if what holds of the fields that it takes keeps these there. -/
theorem eval_yields_inMemory (hf : frame.InMemory (.ofArch arch))
    {P : RecordType → UInt64 → String → Prop}
    (hP : ∀ {r address field place}, P r address field → fieldPlace r address field = .ok place →
      (Target.ofArch arch).Spans place.address.toNat) {e : Expr}
    (he : TakesFields ⟨.ofArch arch, frame, options⟩ P e) :
    Yields (eval ⟨.ofArch arch, frame, options⟩ e) (·.InMemory (.ofArch arch))
      ∧ Yields (evalAddress ⟨.ofArch arch, frame, options⟩ e) (·.InMemory (.ofArch arch)) := by
  induction e with
  | integer literal => exact ⟨yields_pure (Value.inMemory_ofInt rfl _), yields_throw _⟩
  | floating literal => exact ⟨yields_pure (Value.inMemory_ofBinary64 _ _), yields_throw _⟩
  | boolean b => exact ⟨yields_pure (Value.inMemory_boolean b), yields_throw _⟩
  | var name =>
    exact ⟨(yields_orError _ _).imp fun v hv => hf.valueOf? hv,
      (yields_ofExcept _).imp fun v hv => inMemory_variablePointer hf hv⟩
  | unary op e ih =>
    refine ⟨(ih he).1.bind fun v hv => (yields_ofExcept _).imp fun w hw => ?_, yields_throw _⟩
    rcases Target.made_unary hw with rfl | hmade
    · exact hv
    · exact hmade.inMemory
  | binary op e f ihe ihf =>
    refine ⟨?_, yields_throw _⟩
    simp only [eval]
    by_cases hop : op.isLogical = true
    · simp only [hop, ↓reduceIte]
      refine (ihe he.1).1.bind fun l _ => Yields.guard ?_
      split
      · exact yields_pure (Value.inMemory_boolean _)
      · exact (ihf he.2).1.bind fun r _ => Yields.guard (yields_pure (Value.inMemory_boolean _))
    · simp only [hop, Bool.false_eq_true, ↓reduceIte]
      refine (ihe he.1).1.bind fun l _ => (ihf he.2).1.bind fun r _ => (accept_yields _).imp ?_
      rintro v ⟨judged, hj, rfl⟩
      exact (Target.made_binary hj).inMemory
  | addressOf e ih => exact ⟨(ih he).2, yields_throw _⟩
  | dereference e ih =>
    constructor
    · exact (ih he).1.bind fun v hv => (yields_orError _ _).bind fun place hp =>
        load_yields_inMemory hf (spans_of_pointedPlace? hv hp) _
    · refine (ih he).1.bind fun v hv => ?_
      split
      · exact yields_pure hv
      · exact yields_throw _
  | member e field ih =>
    constructor
    · exact he.2.bind fun base hbase => (yields_ofExcept _).bind fun place hp =>
        load_yields_inMemory hf (spans_of_memberPlace hP hbase hp) _
    · exact he.2.bind fun base hbase => (yields_ofExcept _).bind fun place hp =>
        yields_pure (Value.inMemory_pointer (spans_of_memberPlace hP hbase hp))
  | memberOfPointer e field ih =>
    constructor
    · exact he.2.bind fun base hbase => (yields_ofExcept _).bind fun place hp =>
        load_yields_inMemory hf (spans_of_memberOfPointerPlace hP hbase hp) _
    · exact he.2.bind fun base hbase => (yields_ofExcept _).bind fun place hp =>
        yields_pure (Value.inMemory_pointer (spans_of_memberOfPointerPlace hP hbase hp))
  | index e f ihe ihf =>
    constructor
    · exact (ihe he.1).1.bind fun base _ => (ihf he.2).1.bind fun index _ =>
        (yields_ofExcept _).bind fun element hm => (yields_orError _ _).bind fun place hp =>
        load_yields_inMemory hf (spans_of_pointedPlace? (made_elementPointer hm).inMemory hp) _
    · exact (ihe he.1).1.bind fun base _ => (ihf he.2).1.bind fun index _ =>
        (yields_ofExcept _).imp fun w hw => (made_elementPointer hw).inMemory
  | conditional e f g ihe ihf ihg =>
    refine ⟨(ihe he.1).1.bind fun cond _ => Yields.guard ?_, yields_throw _⟩
    split
    · exact (ihf he.2.1).1.bind fun taken ht => (yields_true _).bind fun skipped _ =>
        (yields_ofExcept _).imp fun w hj => inMemory_joinBranches ht hj
    · exact (ihg he.2.2).1.bind fun taken ht => (yields_true _).bind fun skipped _ =>
        (yields_ofExcept _).imp fun w hj => inMemory_joinBranches ht hj
  | cast type e ih =>
    refine ⟨(yields_true _).bind fun dest _ => (ih he).1.bind fun v _ =>
      (accept_yields _).imp ?_, yields_throw _⟩
    rintro w ⟨judged, hj, rfl⟩
    exact (Target.made_cast hj).inMemory
  | paren e ih => exact ih he

end EvalContext

/-- In a frame whose addresses lie in memory, every address that an expression is given lies there,
if pointers have 64 bits or no field that it takes lies past the end of memory. -/
theorem inMemory_of_evaluateIn {arch : Arch} {frame : Frame}
    (hf : frame.InMemory (.ofArch arch)) {options : EvalOptions} {session : Session} {e : Expr}
    (he : (Target.ofArch arch).pointerBits = 64
      ∨ EvalContext.FieldsInMemory ⟨.ofArch arch, frame, options⟩ e) {r : Evaluation}
    (h : (EvalContext.evaluateIn ⟨.ofArch arch, frame, options⟩ session e).1 = .ok r) :
    r.value.InMemory (.ofArch arch) := by
  refine EvalContext.value_of_evaluateIn ?_ h
  rcases he with hbits | he
  · have hall : EvalContext.TakesFields ⟨.ofArch arch, frame, options⟩ (fun _ _ _ => True) e :=
      EvalContext.takesFields_of_forall (fun _ _ _ => trivial) e
    exact (EvalContext.eval_yields_inMemory hf
      (fun _ _ => EvalContext.spans_of_pointerBits hbits _) hall).1
  · exact (EvalContext.eval_yields_inMemory hf
      (fun hspans hplace => EvalContext.spans_of_fieldPlace hplace hspans) he).1

/-- A record of two integers at an address. -/
def Snapshot.pairAt (address : UInt64) : Snapshot :=
  let pair := (RecordType.empty "S").withField (.ofArch .i686) "f" .int
  Snapshot.empty.withVariable "s" (.record (pair.withField (.ofArch .i686) "g" .int) address)

/-- The last eight bytes of memory are enough for both fields. -/
theorem inMemory_of_evaluateIn_pair :
    let cx : EvalContext := ⟨.ofArch .i686, (Snapshot.pairAt 0xFFFFFFF8).toFrame, {}⟩
    let e : Expr := .addressOf (.member (.var "s") "g")
    let v : Value := .pointer .int 0xFFFFFFFC
    (cx.evaluateIn {} e).1 = .ok ⟨v, .none⟩ ∧ v.InMemory cx.target := by
  intro cx e v
  have h : (cx.evaluateIn {} e).1 = .ok ⟨v, .none⟩ := by rfl
  have hf : cx.frame.InMemory cx.target :=
    Snapshot.inMemory_of_entries (by decide) (by decide) (by decide)
  have he : cx.FieldsInMemory e := by
    refine ⟨trivial, (Eval.yields_orError _ _).imp ?_⟩
    rintro base hbase r address hr haddress found hfound
    obtain rfl := Option.some.inj hbase
    obtain rfl := Ty.record.inj hr
    obtain rfl := Option.some.inj haddress
    obtain rfl := Option.some.inj hfound
    decide
  exact ⟨h, inMemory_of_evaluateIn hf (.inr he) h⟩

/-- With four bytes less, the second field lies past the end of memory. -/
theorem field_past_memory :
    let cx : EvalContext := ⟨.ofArch .i686, (Snapshot.pairAt 0xFFFFFFFC).toFrame, {}⟩
    let v : Value := .pointer .int 0x100000000
    cx.frame.InMemory cx.target
      ∧ cx.evaluate (.addressOf (.member (.var "s") "g")) = .ok ⟨v, .none⟩
      ∧ ¬ v.InMemory cx.target := by
  intro cx v
  exact ⟨Snapshot.inMemory_of_entries (by decide) (by decide) (by decide), by rfl, by decide⟩

end Assay
