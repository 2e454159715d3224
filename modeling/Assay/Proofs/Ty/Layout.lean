import Assay.Ty.Layout
import Mathlib.Order.Bounds.Basic
import Mathlib.Order.Nat

/-!
# Where fields lie

Fields are added one at a time, and the next one is placed from the end of the last alone. For a
record built this way (`Built`) that is enough: the fields lie in order and apart, each at the
first place it may have, and the record is as large as its widest alignment asks (`Laid`). All
alignments are powers of two, of which the greater is a multiple of the smaller, so that a record
at a multiple of its alignment puts everything inside it at a multiple of its own size, through
records nested to any depth (`layout_of_built`).
-/

namespace Assay

/-- The padding is the least there is. -/
theorem alignUp_isLeast {align : Nat} (h : 0 < align) (n : Nat) :
    IsLeast {m | align ∣ m ∧ n ≤ m} (alignUp n align) := by
  have hdiv := Nat.div_add_mod (n + align - 1) align
  have hmod := Nat.mod_lt (n + align - 1) h
  rw [alignUp, Nat.mul_comm]
  refine ⟨⟨Nat.dvd_mul_right _ _, by omega⟩, ?_⟩
  rintro m ⟨⟨k, rfl⟩, hle⟩
  refine Nat.mul_le_mul_left _ (Nat.le_of_lt_succ (Nat.div_lt_of_lt_mul ?_))
  rw [Nat.mul_succ]
  omega

/-- Of two powers of two the greater is a multiple of the other. -/
theorem dvd_of_isPowerOfTwo {a b : Nat} (ha : a.isPowerOfTwo) (hb : b.isPowerOfTwo) (h : a ≤ b) :
    a ∣ b := by
  obtain ⟨i, rfl⟩ := ha
  obtain ⟨j, rfl⟩ := hb
  exact Nat.pow_dvd_pow 2 ((Nat.pow_le_pow_iff_right (by decide)).mp h)

namespace Target

/-- The end of the last of some fields. -/
def endOf (target : Target) (fields : List Field) : Nat :=
  match fields.getLast? with
  | some last => last.offset + target.sizeOf last.type
  | none => 0

@[simp] theorem endOf_concat (target : Target) (fields : List Field) (last : Field) :
    target.endOf (fields ++ [last]) = last.offset + target.sizeOf last.type := by
  simp [endOf]

/-- No field starts before the end of one that precedes it. -/
def Apart (target : Target) (fields : List Field) : Prop :=
  fields.Pairwise fun f g => f.offset + target.sizeOf f.type ≤ g.offset

/-- The last field ends last, also past fields without extent. -/
theorem Apart.le_endOf {target : Target} {fields : List Field} (h : target.Apart fields)
    {field : Field} (hf : field ∈ fields) :
    field.offset + target.sizeOf field.type ≤ target.endOf fields := by
  rcases List.eq_nil_or_concat fields with rfl | ⟨init, last, rfl⟩
  · simp at hf
  · rw [List.concat_eq_append] at h hf ⊢
    rw [endOf_concat]
    rcases List.mem_append.mp hf with hf | hf
    · have := (List.pairwise_append.mp h).2.2 field hf last (List.mem_singleton.mpr rfl)
      omega
    · rw [List.mem_singleton.mp hf]

/-- Every type but a record takes up one, two, four or eight bytes. -/
theorem sizeOf_isPowerOfTwo {arch : Arch} {type : Ty} (h : ∀ r, type ≠ .record r) :
    ((ofArch arch).sizeOf type).isPowerOfTwo := by
  have scalar (s : ScalarType) : ((ofArch arch).scalarWidth s / 8).isPowerOfTwo := by
    cases arch <;> cases s <;> decide
  cases type with
  | scalar s => exact scalar s
  | enumeration e => exact scalar e.underlying
  | pointer _ =>
    have pointer : ((ofArch arch).pointerBits / 8).isPowerOfTwo := by cases arch <;> decide
    exact pointer
  | record r => exact absurd rfl (h r)

theorem alignOf_eq_sizeOf {arch : Arch} {type : Ty} (h : ∀ r, type ≠ .record r) :
    (ofArch arch).alignOf type = (ofArch arch).sizeOf type := by
  have hpos : 0 < (ofArch arch).sizeOf type :=
    Nat.pos_of_isPowerOfTwo (sizeOf_isPowerOfTwo h)
  cases type with
  | record r => exact absurd rfl (h r)
  | _ => exact Nat.max_eq_left hpos

theorem alignOf_isPowerOfTwo {arch : Arch} {type : Ty}
    (h : ∀ r, type = .record r → r.align.isPowerOfTwo) :
    ((ofArch arch).alignOf type).isPowerOfTwo := by
  by_cases hr : ∃ r, type = .record r
  · obtain ⟨r, rfl⟩ := hr
    exact h r rfl
  · have hr := not_exists.mp hr
    rw [alignOf_eq_sizeOf hr]
    exact sizeOf_isPowerOfTwo hr

end Target

namespace RecordType

variable {target : Target} {record : RecordType} {name : String} {type : Ty}

/-- Records made from the empty one by adding fields, whose types may be records made so. -/
inductive Built (target : Target) : RecordType → Prop
  | empty (name : String) : Built target (.empty name)
  | withField {record : RecordType} {name : String} {type : Ty} (built : Built target record)
      (inner : ∀ r, type = .record r → Built target r) :
      Built target (record.withField target name type)

/-- The record with more fields at its end. -/
def withFields (record : RecordType) (target : Target) (more : List (String × Ty)) : RecordType :=
  more.foldl (fun record added => record.withField target added.1 added.2) record

/-- What lies inside a record at an offset: its fields, and what lies inside these. -/
inductive Reaches : RecordType → Nat → Ty → Prop
  | field {record : RecordType} {field : Field} (h : field ∈ record.fields.toList) :
      Reaches record field.offset field.type
  | nested {record inner : RecordType} {field : Field} {offset : Nat} {type : Ty}
      (h : field ∈ record.fields.toList) (hr : field.type = .record inner)
      (reaches : Reaches inner offset type) : Reaches record (field.offset + offset) type

/-- A record laid out without overlap and with no more padding than alignment asks for. -/
structure Laid (target : Target) (record : RecordType) : Prop where
  starts : ∀ before field after, record.fields.toList = before ++ field :: after →
    IsLeast {m | target.alignOf field.type ∣ m ∧ target.endOf before ≤ m} field.offset
  apart : target.Apart record.fields.toList
  power : record.align.isPowerOfTwo
  widest : record.fields.toList = [] ∧ record.align = 1 ∨
    IsGreatest {a | ∃ field ∈ record.fields.toList, a = target.alignOf field.type} record.align
  padded : IsLeast {m | record.align ∣ m ∧ target.endOf record.fields.toList ≤ m} record.size

theorem Laid.alignOf_le (h : record.Laid target) {field : Field}
    (hf : field ∈ record.fields.toList) : target.alignOf field.type ≤ record.align := by
  rcases h.widest with ⟨hnil, -⟩ | hgreatest
  · simp [hnil] at hf
  · exact hgreatest.2 ⟨field, hf, rfl⟩

theorem toList_withField (target : Target) (record : RecordType) (name : String) (type : Ty) :
    (record.withField target name type).fields.toList = record.fields.toList ++
      [⟨name, type, alignUp (target.endOf record.fields.toList) (target.alignOf type)⟩] :=
  Fields.toList_push _ _

/-- The widest alignment stays that of a field, the new one if it is at least as wide. -/
theorem Laid.widest_withField (h : record.Laid target) (hpos : 0 < target.alignOf type) :
    IsGreatest {a | ∃ field ∈ (record.withField target name type).fields.toList,
      a = target.alignOf field.type} (max record.align (target.alignOf type)) := by
  rw [toList_withField]
  constructor
  · rcases Nat.lt_or_ge (target.alignOf type) record.align with hlt | hge
    · rcases h.widest with ⟨-, hone⟩ | ⟨⟨field, hf, heq⟩, -⟩
      · omega
      · exact ⟨field, List.mem_append_left _ hf, by rw [Nat.max_eq_left hlt.le, heq]⟩
    · exact ⟨_, List.mem_append_right _ (List.mem_singleton.mpr rfl), Nat.max_eq_right hge⟩
  · rintro a ⟨field, hf, rfl⟩
    rcases List.mem_append.mp hf with hf | hf
    · exact (h.alignOf_le hf).trans (Nat.le_max_left _ _)
    · rw [List.mem_singleton.mp hf]
      exact Nat.le_max_right _ _

/-- A further field is placed past all the others, as the end of the last is the end of all. -/
theorem Laid.withField (h : record.Laid target) (hpow : (target.alignOf type).isPowerOfTwo) :
    (record.withField target name type).Laid target := by
  have hpos := Nat.pos_of_isPowerOfTwo hpow
  have hleast := alignUp_isLeast hpos (target.endOf record.fields.toList)
  have hpower : (max record.align (target.alignOf type)).isPowerOfTwo := by
    rcases Nat.le_total record.align (target.alignOf type) with hle | hle
    · rwa [Nat.max_eq_right hle]
    · rw [Nat.max_eq_left hle]
      exact h.power
  constructor
  case starts =>
    intro before field after hsplit
    rw [toList_withField] at hsplit
    -- a field with others after it is one of those that were there before
    rcases List.eq_nil_or_concat after with rfl | ⟨init, last, rfl⟩
    · obtain ⟨rfl, hlast⟩ := List.append_inj' hsplit rfl
      rw [← List.singleton_inj.mp hlast]
      exact hleast
    · rw [List.concat_eq_append, ← List.cons_append, ← List.append_assoc] at hsplit
      exact h.starts before field init (List.append_inj' hsplit rfl).1
  case apart =>
    rw [toList_withField]
    refine List.pairwise_append.mpr
      ⟨h.apart, List.pairwise_singleton _ _, fun field hf last hlast => ?_⟩
    rw [List.mem_singleton.mp hlast]
    exact (h.apart.le_endOf hf).trans hleast.1.2
  case power => exact hpower
  case widest => exact .inr (h.widest_withField hpos)
  case padded =>
    rw [toList_withField, Target.endOf_concat]
    exact alignUp_isLeast (Nat.pos_of_isPowerOfTwo hpower) _

theorem laid_empty (target : Target) (name : String) : (empty name).Laid target where
  starts before field after h := by simp [empty, Fields.toList] at h
  apart := .nil
  power := Nat.isPowerOfTwo_one
  widest := .inl ⟨rfl, rfl⟩
  padded := ⟨⟨Nat.one_dvd _, Nat.le_refl _⟩, fun _ _ => Nat.zero_le _⟩

theorem Built.laid {arch : Arch} (built : record.Built (.ofArch arch)) :
    record.Laid (.ofArch arch) := by
  induction built with
  | empty name => exact laid_empty _ name
  | withField _ _ ih ihInner =>
    exact ih.withField (Target.alignOf_isPowerOfTwo fun r hr => (ihInner r hr).power)

/-- The records inside a record are made from the empty one like it. -/
theorem Built.of_mem (built : record.Built target) {field : Field}
    (hf : field ∈ record.fields.toList) {inner : RecordType} (hr : field.type = .record inner) :
    inner.Built target := by
  induction built with
  | empty name => simp [RecordType.empty, Fields.toList] at hf
  | withField _ hinner ih _ =>
    rw [toList_withField] at hf
    rcases List.mem_append.mp hf with hf | hf
    · exact ih hf
    · rw [List.mem_singleton.mp hf] at hr
      exact hinner inner hr

/-- In a record at a multiple of its alignment, each field is at a multiple of its own. -/
theorem Built.alignOf_dvd {arch : Arch} (built : record.Built (.ofArch arch)) {field : Field}
    (hf : field ∈ record.fields.toList) {base : Nat} (hbase : record.align ∣ base) :
    (Target.ofArch arch).alignOf field.type ∣ base + field.offset := by
  have hpow : ((Target.ofArch arch).alignOf field.type).isPowerOfTwo :=
    Target.alignOf_isPowerOfTwo fun _ hr => (built.of_mem hf hr).laid.power
  have hrecord : (Target.ofArch arch).alignOf field.type ∣ record.align :=
    dvd_of_isPowerOfTwo hpow built.laid.power (built.laid.alignOf_le hf)
  obtain ⟨before, after, hsplit⟩ := List.append_of_mem hf
  exact Nat.dvd_add (Nat.dvd_trans hrecord hbase) (built.laid.starts before field after hsplit).1.1

/-- This carries over to what lies in the fields, down to the types without fields. -/
theorem Built.sizeOf_dvd {arch : Arch} {offset : Nat} (reaches : record.Reaches offset type)
    (hleaf : ∀ r, type ≠ .record r) (built : record.Built (.ofArch arch)) {base : Nat}
    (hbase : record.align ∣ base) : (Target.ofArch arch).sizeOf type ∣ base + offset := by
  induction reaches generalizing base with
  | field hf =>
    rw [← Target.alignOf_eq_sizeOf hleaf]
    exact built.alignOf_dvd hf hbase
  | @nested record inner field offset type hf hr _ ih =>
    have hstart := built.alignOf_dvd hf hbase
    rw [hr] at hstart
    rw [← Nat.add_assoc]
    exact ih hleaf (built.of_mem hf hr) hstart

/-- Fields that are added come after those that are there, which stay as they are. -/
theorem fields_withFields (target : Target) (more : List (String × Ty)) (record : RecordType) :
    ∃ added, (record.withFields target more).fields.toList = record.fields.toList ++ added
      ∧ added.map (fun field => (field.name, field.type)) = more := by
  induction more generalizing record with
  | nil => exact ⟨[], (List.append_nil _).symm, rfl⟩
  | cons first rest ih =>
    obtain ⟨added, hadded, hnamed⟩ := ih (record.withField target first.1 first.2)
    rw [toList_withField, List.append_assoc, List.singleton_append] at hadded
    exact ⟨_, hadded, congrArg (first :: ·) hnamed⟩

/-- A record made field by field is laid out without overlap and with the least padding, keeps its
fields where they are whatever is added, and aligns everything inside it to its own size. -/
theorem layout_of_built {arch : Arch} (built : record.Built (.ofArch arch)) :
    record.Laid (.ofArch arch)
      ∧ (∀ more, ∃ added,
          (record.withFields (.ofArch arch) more).fields.toList = record.fields.toList ++ added
            ∧ added.map (fun field => (field.name, field.type)) = more)
      ∧ ∀ base, record.align ∣ base → ∀ offset type, record.Reaches offset type →
          (∀ r, type ≠ .record r) → (Target.ofArch arch).sizeOf type ∣ base + offset :=
  ⟨built.laid, fun more => fields_withFields _ more record,
    fun _ hbase _ _ reaches hleaf => Built.sizeOf_dvd reaches hleaf built hbase⟩

/-- A pointer in a record in a record, on a target where it takes eight bytes. -/
theorem layout_of_built_nested :
    let target : Target := .ofArch .x86_64
    let inner := ((RecordType.empty "P").withField target "c" (.scalar .char)).withField target "p"
      (.pointer .int)
    let outer := ((RecordType.empty "S").withField target "s" (.scalar .short)).withField target "i"
      (.record inner)
    outer.Built target ∧ outer.align ∣ 40 ∧ outer.Reaches 16 (.pointer .int)
      ∧ outer.Laid target ∧ outer.size = 24
      ∧ (∃ added, (outer.withField target "t" .int).fields.toList = outer.fields.toList ++ added
        ∧ added.map (fun field => (field.name, field.type)) = [("t", .int)])
      ∧ target.sizeOf (.pointer .int) ∣ 40 + 16 := by
  intro target inner outer
  have builtInner : inner.Built target := .withField (.withField (.empty _) nofun) nofun
  have built : outer.Built target :=
    .withField (.withField (.empty _) nofun) fun r hr => by cases hr; exact builtInner
  have hp : (⟨"p", .pointer .int, 8⟩ : Field) ∈ inner.fields.toList := by decide
  have hi : (⟨"i", .record inner, 8⟩ : Field) ∈ outer.fields.toList := by decide
  have reaches : outer.Reaches 16 (.pointer .int) := .nested hi rfl (.field hp)
  obtain ⟨laid, kept, aligned⟩ := layout_of_built built
  exact ⟨built, by decide, reaches, laid, by decide, kept [("t", .int)],
    aligned 40 (by decide) 16 _ reaches nofun⟩

end RecordType

end Assay
