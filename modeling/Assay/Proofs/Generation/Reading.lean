import Assay.Generation.ConfigTable
import Assay.Proofs.Mask
import Assay.Proofs.Toml.Rearranged

/-!
# Settings read back

Each form that settings are written in is read back as what was written: lists item by item, masks
through the names of their elements (`mask_maskValue`), and weights whatever the order of the
entries (`weightTable_of_rearranged`). A table of weights that lists some kinds only has the default
for the others.
-/

namespace Assay

open Toml (Value Table)

theorem BinaryOp.find?_name (op : BinaryOp) :
    (Enumerated.all : List BinaryOp).find? (fun other => other.name = op.name) = some op := by
  cases op <;> rfl

theorem UnaryOp.find?_name (op : UnaryOp) :
    (Enumerated.all : List UnaryOp).find? (fun other => other.name = op.name) = some op := by
  cases op <;> rfl

theorem ExprKind.ofName?_name (kind : ExprKind) : Kind.ofName? (Kind.name kind) = some kind := by
  cases kind <;> rfl

theorem TypeKind.ofName?_name (kind : TypeKind) : Kind.ofName? (Kind.name kind) = some kind := by
  cases kind <;> rfl

/-- The weights of `table` for the listed kinds, and those of `base` for the others. -/
def WeightTable.merge {κ : Type} (listed : κ → Bool) (table base : WeightTable κ) : WeightTable κ :=
  ⟨fun kind => if listed kind then table.weight kind else base.weight kind⟩

/-- The floats of a table of weights. -/
def WeightTable.floats {κ : Type} [Kind κ] (table : WeightTable κ) : List Binary64 :=
  (Enumerated.all : List κ).flatMap fun kind =>
    [(table.weight kind).initial, (table.weight kind).dampening]

/-- The entries of a table of weights for the listed kinds. -/
def listedWeights {κ : Type} [Kind κ] (listed : κ → Bool) : Value → Value
  | .table entries => .table (entries.filter fun entry => (Kind.ofName? entry.1).any listed)
  | v => v

namespace Reading

theorem natural_natCast (n : Nat) : natural (.integer n) = .ok n := by
  simp [natural]

theorem word_toNat (w : UInt64) : word (.integer w.toNat) = .ok w := by
  rw [word, natural_natCast]
  exact congrArg Except.ok UInt64.ofNat_toNat

theorem list_map {α : Type} {item : Value → Reading α} {form : α → Value}
    (h : ∀ a, item (form a) = .ok a) (l : List α) : list item (.array (l.map form)) = .ok l := by
  have hmap : (l.map form).mapM item = .ok l := by
    induction l with
    | nil => rfl
    | cons a l ih =>
      rw [List.map_cons, List.mapM_cons, h, ih]
      rfl
  exact hmap

theorem list_string (names : List String) :
    list string (.array (names.map .string)) = .ok names := by
  have hstring (name : String) : string (.string name) = .ok name := rfl
  exact list_map hstring names

theorem mask_maskValue {α : Type} [Enumerated α] {nameOf : α → String}
    (found : ∀ a, (Enumerated.all : List α).find? (fun other => nameOf other = nameOf a) = some a)
    {m : Mask α} (legal : m.Legal) : mask nameOf (Config.maskValue nameOf m) = .ok m := by
  have hnamed (a : α) : named nameOf (.string (nameOf a)) = .ok a := congrArg ofOption (found a)
  rw [mask, Config.maskValue, list_map hnamed]
  exact congrArg Except.ok legal.ofList_toList

theorem exists_entry {entries : Table} {key : String} (h : key ∈ entries.map (·.1)) :
    ∃ v, (key, v) ∈ entries ∧ entry entries key = .ok v := by
  obtain ⟨⟨_, w⟩, hmem, rfl⟩ := List.mem_map.mp h
  obtain ⟨v, hv⟩ := Option.isSome_iff_exists.mp
    (List.lookup_isSome_iff.mpr ⟨_, hmem, BEq.rfl⟩)
  obtain ⟨before, after, rfl, -⟩ := List.lookup_eq_some_iff.mp hv
  exact ⟨v, by simp, by rw [entry, hv, ofOption]⟩

/-- A weight as written. -/
def weightValue (w : Weight) : Value :=
  .table [("initial_weight", .float w.initial), ("dampening_factor", .float w.dampening)]

theorem weight_of_rearranged {w : Weight} {v : Value} (h : (weightValue w).Rearranged v) :
    weight v = .ok w := by
  obtain ⟨entries, rfl, keys, each⟩ := h.exists_table
  have hfloat {key : String} {x : Binary64} (hkey : key ∈ ["initial_weight", "dampening_factor"])
      (honly : ∀ v, (key, v) ∈ [("initial_weight", Value.float w.initial),
        ("dampening_factor", .float w.dampening)] → v = .float x) :
      entry entries key = .ok (.float x) := by
    obtain ⟨v', hmem, hentry⟩ := exists_entry (keys.mem_iff.mp hkey)
    obtain ⟨v, hv, hrearranged⟩ := each _ hmem
    obtain rfl := honly v hv
    rw [hentry]
    exact congrArg Except.ok (hrearranged.eq_of_isLeaf rfl)
  have hinitial : entry entries "initial_weight" = .ok (.float w.initial) :=
    hfloat (by simp) (by simp)
  have hdampening : entry entries "dampening_factor" = .ok (.float w.dampening) :=
    hfloat (by simp) (by simp)
  rw [weight, hinitial, hdampening]
  rfl

section Weights

variable {κ : Type} [Kind κ]

/-- The entries of a table of weights as written. -/
def weightEntries (table : WeightTable κ) : Table :=
  ((Enumerated.all : List κ).map fun kind =>
    (Kind.name kind, weightValue (table.weight kind))).mergeSort fun a b => a.1 ≤ b.1

theorem weightsValue_eq (table : WeightTable κ) :
    Config.weightsValue table = .table (weightEntries table) := by
  simp only [Config.weightsValue, WeightTable.entries, List.map_map, weightEntries]
  rfl

theorem mem_weightEntries {table : WeightTable κ} {entry : String × Value} :
    entry ∈ weightEntries table ↔
      ∃ kind : κ, entry = (Kind.name kind, weightValue (table.weight kind)) := by
  rw [weightEntries, List.mem_mergeSort, List.mem_map]
  constructor
  · rintro ⟨kind, -, rfl⟩
    exact ⟨kind, rfl⟩
  · rintro ⟨kind, rfl⟩
    exact ⟨kind, Enumerated.mem_all kind, rfl⟩

/-- The written entries of the listed kinds. -/
def listedEntries (listed : κ → Bool) (table : WeightTable κ) : Table :=
  (weightEntries table).filter fun entry => (Kind.ofName? entry.1).any listed

theorem listedWeights_weightsValue (listed : κ → Bool) (table : WeightTable κ) :
    listedWeights listed (Config.weightsValue table) = .table (listedEntries listed table) := by
  rw [weightsValue_eq, listedWeights, listedEntries]

/-- Each of the weights is that of a kind, under the kind's name. -/
def WeightsOf (table : WeightTable κ) (weights : List (String × Weight)) : Prop :=
  ∀ entry ∈ weights, ∃ kind : κ, entry = (Kind.name kind, table.weight kind)

variable (found : ∀ kind : κ, Kind.ofName? (Kind.name kind) = some kind)
include found

theorem name_inj {a b : κ} (h : Kind.name a = Kind.name b) : a = b :=
  Option.some.inj ((found a).symm.trans (h ▸ found b))

theorem weightEntries_distinct (table : WeightTable κ) :
    ((weightEntries table).map (·.1)).Nodup := by
  have hall : (Enumerated.all : List κ).Nodup :=
    .of_map Enumerated.index (Enumerated.map_index_all (α := κ) ▸ List.nodup_range)
  refine ((List.mergeSort_perm _ _).map _).nodup_iff.mpr ?_
  rw [List.map_map]
  exact hall.map_on fun _ _ _ _ h => name_inj found h

theorem listedWeights_all (table : WeightTable κ) :
    listedWeights (fun _ : κ => true) (Config.weightsValue table) = Config.weightsValue table := by
  rw [listedWeights_weightsValue, weightsValue_eq]
  refine congrArg Value.table (List.filter_eq_self.mpr fun entry hentry => ?_)
  obtain ⟨kind, rfl⟩ := mem_weightEntries.mp hentry
  rw [found, Option.any_some]

theorem mem_listedEntries {listed : κ → Bool} {table : WeightTable κ} {entry : String × Value} :
    entry ∈ listedEntries listed table ↔
      ∃ kind, listed kind ∧ entry = (Kind.name kind, weightValue (table.weight kind)) := by
  rw [listedEntries, List.mem_filter, mem_weightEntries]
  constructor
  · rintro ⟨⟨kind, rfl⟩, hlisted⟩
    exact ⟨kind, by rwa [found, Option.any_some] at hlisted, rfl⟩
  · rintro ⟨kind, hlisted, rfl⟩
    exact ⟨⟨kind, rfl⟩, by rwa [found, Option.any_some]⟩

theorem mem_keys_listedEntries {listed : κ → Bool} {table : WeightTable κ} {kind : κ} :
    Kind.name kind ∈ (listedEntries listed table).map (·.1) ↔ listed kind := by
  rw [List.mem_map]
  constructor
  · rintro ⟨entry, hentry, hname⟩
    obtain ⟨kind', hlisted, rfl⟩ := (mem_listedEntries found).mp hentry
    exact name_inj found hname ▸ hlisted
  · exact fun hlisted => ⟨_, (mem_listedEntries found).mpr ⟨kind, hlisted, rfl⟩, rfl⟩

theorem portable_weights (listed : κ → Bool) {table : WeightTable κ}
    (numbers : ∀ x ∈ table.floats, x ≠ .nan) :
    (listedWeights listed (Config.weightsValue table)).Portable := by
  rw [listedWeights_weightsValue]
  refine .table ((weightEntries_distinct found table).sublist (List.filter_sublist.map _))
    fun entry hentry => ?_
  obtain ⟨kind, -, rfl⟩ := (mem_listedEntries found).mp hentry
  have hfloats : ∀ x ∈ [(table.weight kind).initial, (table.weight kind).dampening], x ≠ .nan :=
    fun x hx => numbers x (List.mem_flatMap.mpr ⟨kind, Enumerated.mem_all kind, hx⟩)
  refine .table (by simp) (List.forall_mem_cons.mpr ⟨?_, List.forall_mem_singleton.mpr ?_⟩)
  · exact .float (hfloats _ (by simp))
  · exact .float (hfloats _ (by simp))

omit found in
theorem mapM_weight {table : WeightTable κ} {entries : Table}
    (h : ∀ entry ∈ entries, ∃ kind : κ, entry.1 = Kind.name kind
      ∧ weight entry.2 = .ok (table.weight kind)) :
    ∃ weights, (entries.mapM fun e => do return (e.1, ← weight e.2)) = .ok weights
      ∧ weights.map (·.1) = entries.map (·.1) ∧ WeightsOf table weights := by
  induction entries with
  | nil => exact ⟨[], rfl, rfl, fun _ h => absurd h List.not_mem_nil⟩
  | cons entry entries ih =>
    obtain ⟨kind, hname, hweight⟩ := h entry List.mem_cons_self
    obtain ⟨weights, hrest, hnames, hkinds⟩ := ih fun e he => h e (List.mem_cons_of_mem _ he)
    refine ⟨(Kind.name kind, table.weight kind) :: weights, ?_, ?_, ?_⟩
    · rw [List.mapM_cons, hweight, hrest, hname]
      rfl
    · rw [List.map_cons, List.map_cons, hnames, hname]
    · exact List.forall_mem_cons.mpr ⟨⟨kind, rfl⟩, hkinds⟩

variable [DecidableEq κ]

theorem merge_set {table base : WeightTable κ} (kind : κ) (names : List String) :
    WeightTable.merge (fun k => Kind.name k ∈ names) table (base.set kind (table.weight kind)) =
      table.merge (fun k => Kind.name k ∈ Kind.name kind :: names) base := by
  refine congrArg WeightTable.mk (funext fun k => ?_)
  by_cases hk : k = kind
  · subst hk
    simp [WeightTable.set]
  · have hname : Kind.name k ≠ Kind.name kind := fun h => hk (name_inj found h)
    simp [WeightTable.set, hk, hname]

/-- Weights are set kind by kind: the order does not matter. -/
theorem foldlM_set {table : WeightTable κ} {weights : List (String × Weight)}
    (h : WeightsOf table weights) (base : WeightTable κ) :
    weights.foldlM (fun table (name, weight) =>
      match Kind.ofName? name with
      | some kind => .ok (table.set kind weight)
      | none => .error (.unknownKind name ((Enumerated.all : List κ).map Kind.name))) base =
    (.ok (table.merge (fun kind => Kind.name kind ∈ weights.map (·.1)) base) : Reading _) := by
  induction weights generalizing base with
  | nil => simp [WeightTable.merge]; rfl
  | cons entry weights ih =>
    obtain ⟨kind, rfl⟩ := h entry List.mem_cons_self
    rw [List.foldlM_cons, List.map_cons, ← merge_set found]
    simp only [found]
    exact ih (fun entry hmem => h entry (List.mem_cons_of_mem _ hmem)) _

/-- A table of weights that lists some kinds gives the default for the others. -/
theorem weightTable_of_rearranged {listed : κ → Bool} {table : WeightTable κ} {v : Value}
    (h : (listedWeights listed (Config.weightsValue table)).Rearranged v) :
    weightTable v = .ok (table.merge listed .default) := by
  rw [listedWeights_weightsValue] at h
  obtain ⟨entries, rfl, keys, each⟩ := h.exists_table
  have hweights : ∀ entry ∈ entries, ∃ kind : κ, entry.1 = Kind.name kind
      ∧ weight entry.2 = .ok (table.weight kind) := by
    intro entry hentry
    obtain ⟨v, hv, hrearranged⟩ := each entry hentry
    obtain ⟨kind, -, heq⟩ := (mem_listedEntries found).mp hv
    obtain ⟨hname, rfl⟩ := Prod.mk.inj heq
    exact ⟨kind, hname, weight_of_rearranged hrearranged⟩
  obtain ⟨weights, hread, hnames, hkinds⟩ := mapM_weight hweights
  let sorted := weights.mergeSort fun a b => a.1 ≤ b.1
  have hsorted (kind : κ) : decide (Kind.name kind ∈ sorted.map (·.1)) = listed kind := by
    rw [Bool.eq_iff_iff, decide_eq_true_iff, ((List.mergeSort_perm weights _).map _).mem_iff,
      hnames, ← keys.mem_iff, mem_keys_listedEntries found]
  rw [weightTable, hread]
  have hkindsSorted : WeightsOf table sorted :=
    fun entry hentry => hkinds entry (List.mem_mergeSort.mp hentry)
  have hset := foldlM_set found hkindsSorted WeightTable.default
  simp only [hsorted] at hset
  exact hset

end Weights

end Reading

end Assay
