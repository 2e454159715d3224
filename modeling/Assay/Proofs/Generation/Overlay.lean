import Assay.Proofs.Generation.Reading

/-!
# Documents that list some settings

A document may list some settings of a configuration, and in its tables of weights some kinds only
(`Listing.document`). Whatever the order of its entries, it denotes the configuration that has what
is listed and the default for the rest (`ofTable_of_rearranged`). With everything listed that is the
configuration itself. So configurations survive any library that keeps their data
(`document_overlays`).
-/

namespace Assay

open Toml (Value Table KeepsData)

namespace Config

/-- The settings of `config` for the listed keys, and those of `base` for the others. -/
def merge (listed : String → Bool) (config base : Config) : Config :=
  let pick {α : Type} (key : String) (setting : Config → α) : α :=
    if listed key then setting config else setting base
  { count := pick "num_exprs_to_generate" (·.count)
    integerMin := pick "int_const_min" (·.integerMin)
    integerMax := pick "int_const_max" (·.integerMax)
    doubleMin := pick "double_constant_min" (·.doubleMin)
    doubleMax := pick "double_constant_max" (·.doubleMax)
    parenProbability := pick "parenthesize_prob" (·.parenProbability)
    constProbability := pick "const_prob" (·.constProbability)
    volatileProbability := pick "volatile_prob" (·.volatileProbability)
    binaryOps := pick "bin_op_mask" (·.binaryOps)
    unaryOps := pick "un_op_mask" (·.unaryOps)
    exprWeights := pick "expr_kind_weights" (·.exprWeights)
    typeWeights := pick "type_kind_weights" (·.typeWeights)
    maxDepth := pick "max_depth" (·.maxDepth)
    varName := pick "var_name" (·.varName)
    arrayName := pick "array_name" (·.arrayName)
    structName := pick "struct_name" (·.structName)
    structPointerName := pick "struct_ptr_name" (·.structPointerName)
    fieldNames := pick "field_names" (·.fieldNames)
    tagNames := pick "tagged_types" (·.tagNames) }

/-- Which settings a document gives, and which kinds in its tables of weights. -/
structure Listing where
  setting : String → Bool
  exprKind : ExprKind → Bool
  typeKind : TypeKind → Bool

namespace Listing

/-- All settings and kinds. -/
def all : Listing := ⟨fun _ => true, fun _ => true, fun _ => true⟩

/-- What the document gives for a setting. -/
def part (listing : Listing) (key : String) (v : Value) : Value :=
  if key = "expr_kind_weights" then listedWeights listing.exprKind v
  else if key = "type_kind_weights" then listedWeights listing.typeKind v
  else v

/-- The listed entries of a configuration's table. -/
def document (listing : Listing) (config : Config) : Table :=
  (config.toTable.filter fun entry => listing.setting entry.1).map fun entry =>
    (entry.1, listing.part entry.1 entry.2)

/-- The configuration with the default for the kinds that are not listed. -/
def kinds (listing : Listing) (config : Config) : Config :=
  { config with
    exprWeights := config.exprWeights.merge listing.exprKind .default
    typeWeights := config.typeWeights.merge listing.typeKind .default }

/-- The configuration with the default for the settings and kinds that are not listed. -/
def overlay (listing : Listing) (config : Config) : Config :=
  (listing.kinds config).merge listing.setting {}

end Listing

theorem merge_merge (l₁ l₂ : String → Bool) (config base : Config) :
    merge l₁ config (merge l₂ config base) = merge (fun key => l₁ key || l₂ key) config base := by
  simp only [merge, Bool.or_eq_true, ite_or]

/-- The key of a setting that both configurations have alike may be listed or not. -/
theorem merge_congr {l₁ l₂ : String → Bool} {config base : Config}
    (h : ∀ key ∈ keys, key ≠ "max_depth" → l₁ key = l₂ key)
    (hdepth : l₁ "max_depth" = l₂ "max_depth" ∨ config.maxDepth = base.maxDepth) :
    merge l₁ config base = merge l₂ config base := by
  have hpick : (if l₁ "max_depth" then config.maxDepth else base.maxDepth) =
      if l₂ "max_depth" then config.maxDepth else base.maxDepth := by
    rcases hdepth with hdepth | hdepth
    · rw [hdepth]
    · rw [hdepth, ite_self, ite_self]
  simp (disch := decide) only [merge, h, hpick]

/-- Settings are set key by key: the order does not matter. -/
theorem foldlM_readSetting {config : Config} {entries : Table}
    (h : ∀ entry ∈ entries, ∀ base : Config,
      base.readSetting entry.1 entry.2 = .ok (config.merge (· == entry.1) base)) (base : Config) :
    entries.foldlM (fun config (key, v) => config.readSetting key v) base =
      .ok (config.merge (fun key => key ∈ entries.map (·.1)) base) := by
  induction entries generalizing base with
  | nil => simp [merge]; rfl
  | cons entry entries ih =>
    obtain ⟨key, v⟩ := entry
    have hhead : base.readSetting key v = .ok (config.merge (· == key) base) :=
      h (key, v) List.mem_cons_self base
    rw [List.foldlM_cons]
    simp only [hhead]
    refine (ih (fun e he => h e (List.mem_cons_of_mem _ he)) _).trans ?_
    rw [merge_merge]
    refine congrArg (fun listed => Except.ok (config.merge listed base)) (funext fun k => ?_)
    rw [List.map_cons, Bool.eq_iff_iff]
    simp [or_comm]

namespace Listing

variable {listing : Listing} {config : Config} {key : String} {v : Value}

/-- What the document gives for a setting is read as that setting, rearranged or not. -/
def Restores (listing : Listing) (config : Config) (entry : String × Value) : Prop :=
  ∀ v, (listing.part entry.1 entry.2).Rearranged v → ∀ base : Config,
    base.readSetting entry.1 v = .ok ((listing.kinds config).merge (· == entry.1) base)

theorem restores_of_isLeaf (leaf : (listing.part key v).isLeaf)
    (read : ∀ base : Config, base.readSetting key (listing.part key v) =
      .ok ((listing.kinds config).merge (· == key) base)) : listing.Restores config (key, v) := by
  intro w hw base
  rw [hw.eq_of_isLeaf leaf]
  exact read base

theorem restores_of_leaves {items : List Value} (hpart : listing.part key v = .array items)
    (leaves : ∀ item ∈ items, item.isLeaf)
    (read : ∀ base : Config, base.readSetting key (.array items) =
      .ok ((listing.kinds config).merge (· == key) base)) : listing.Restores config (key, v) := by
  intro w hw base
  rw [hpart] at hw
  rw [hw.eq_of_leaves leaves]
  exact read base

theorem restores_toTable (unaryLegal : config.unaryOps.Legal) (binaryLegal : config.binaryOps.Legal)
    (listing : Listing) : ∀ entry ∈ config.toTable, listing.Restores config entry := by
  rw [toTable]
  refine List.forall_mem_append.mpr ⟨List.forall_mem_append.mpr ⟨?_, ?_⟩, ?_⟩
  · simp only [List.forall_mem_cons, List.not_mem_nil, false_implies, implies_true, and_true]
    -- floats and strings are taken as they are
    refine ⟨?count, ?integerMin, ?integerMax, restores_of_isLeaf rfl fun _ => rfl,
      restores_of_isLeaf rfl fun _ => rfl, restores_of_isLeaf rfl fun _ => rfl,
      restores_of_isLeaf rfl fun _ => rfl, restores_of_isLeaf rfl fun _ => rfl,
      ?binaryOps, ?unaryOps, ?exprWeights, ?typeWeights⟩
    case count =>
      exact restores_of_isLeaf rfl fun base =>
        congrArg (fun n => do return { base with count := ← n }) (Reading.natural_natCast _)
    case integerMin =>
      exact restores_of_isLeaf rfl fun base =>
        congrArg (fun n => do return { base with integerMin := ← n }) (Reading.word_toNat _)
    case integerMax =>
      exact restores_of_isLeaf rfl fun base =>
        congrArg (fun n => do return { base with integerMax := ← n }) (Reading.word_toNat _)
    case binaryOps =>
      exact restores_of_leaves rfl (by simp [Value.isLeaf]) fun base =>
        congrArg (fun mask => do return { base with binaryOps := ← mask })
          (Reading.mask_maskValue BinaryOp.find?_name binaryLegal)
    case unaryOps =>
      exact restores_of_leaves rfl (by simp [Value.isLeaf]) fun base =>
        congrArg (fun mask => do return { base with unaryOps := ← mask })
          (Reading.mask_maskValue UnaryOp.find?_name unaryLegal)
    case exprWeights =>
      exact fun v h base => congrArg (fun table => do return { base with exprWeights := ← table })
        (Reading.weightTable_of_rearranged ExprKind.ofName?_name h)
    case typeWeights =>
      exact fun v h base => congrArg (fun table => do return { base with typeWeights := ← table })
        (Reading.weightTable_of_rearranged TypeKind.ofName?_name h)
  · cases hdepth : config.maxDepth with
    | none => exact fun _ h => absurd h List.not_mem_nil
    | some depth =>
      have hread (base : Config) : base.readSetting "max_depth" (.integer depth) =
          .ok { base with maxDepth := some depth } :=
        congrArg (fun n => do return { base with maxDepth := some (← n) })
          (Reading.natural_natCast depth)
      refine List.forall_mem_singleton.mpr (restores_of_isLeaf rfl fun base => ?_)
      exact (hread base).trans
        (congrArg (fun depth => Except.ok { base with maxDepth := depth }) hdepth.symm)
  · simp only [List.forall_mem_cons, List.not_mem_nil, false_implies, implies_true, and_true]
    exact ⟨restores_of_isLeaf rfl fun _ => rfl, restores_of_isLeaf rfl fun _ => rfl,
      restores_of_isLeaf rfl fun _ => rfl, restores_of_isLeaf rfl fun _ => rfl,
      restores_of_leaves rfl (by simp [Value.isLeaf]) fun base =>
        congrArg (fun names => do return { base with fieldNames := ← names })
          (Reading.list_string _),
      restores_of_leaves rfl (by simp [Value.isLeaf]) fun base =>
        congrArg (fun names => do return { base with tagNames := ← names })
          (Reading.list_string _)⟩

end Listing

theorem map_fst_toTable (config : Config) : config.toTable.map (·.1) =
    keys.filter fun key => key != "max_depth" || config.maxDepth.isSome := by
  cases hdepth : config.maxDepth <;> rw [toTable, hdepth] <;> rfl

theorem mem_keys_document {listing : Listing} {config : Config} {key : String} :
    key ∈ (listing.document config).map (·.1) ↔
      listing.setting key ∧ key ∈ config.toTable.map (·.1) := by
  simp only [Listing.document, List.map_map, List.mem_map, List.mem_filter, Function.comp_apply]
  constructor
  · rintro ⟨entry, ⟨hmem, hlisted⟩, rfl⟩
    exact ⟨hlisted, entry, hmem, rfl⟩
  · rintro ⟨hlisted, entry, hmem, rfl⟩
    exact ⟨entry, ⟨hmem, hlisted⟩, rfl⟩

/-- A document with some settings, in any order, gives those over the default ones. -/
theorem ofTable_of_rearranged {config : Config} (unaryLegal : config.unaryOps.Legal)
    (binaryLegal : config.binaryOps.Legal) (listing : Listing) {entries : Table}
    (h : (Value.table (listing.document config)).Rearranged (.table entries)) :
    ofTable entries = .ok (listing.overlay config) := by
  obtain ⟨_, heq, hkeys, each⟩ := h.exists_table
  obtain rfl := Value.table.inj heq
  have hread : ∀ entry ∈ entries, ∀ base : Config, base.readSetting entry.1 entry.2 =
      .ok ((listing.kinds config).merge (· == entry.1) base) := by
    intro entry hentry
    obtain ⟨v, hv, hrearranged⟩ := each entry hentry
    obtain ⟨⟨key, v'⟩, hmem, heq⟩ := List.mem_map.mp hv
    obtain ⟨rfl, rfl⟩ := Prod.mk.inj heq
    exact Listing.restores_toTable unaryLegal binaryLegal listing _ (List.mem_filter.mp hmem).1 _
      hrearranged
  have hlisted (key : String) : key ∈ entries.map (·.1) ↔
      listing.setting key ∧ key ∈ keys ∧ (key ≠ "max_depth" ∨ config.maxDepth.isSome) := by
    rw [← hkeys.mem_iff, mem_keys_document, map_fst_toTable, List.mem_filter]
    simp
  refine (foldlM_readSetting hread {}).trans (congrArg Except.ok (merge_congr ?_ ?_))
  · intro key hkey hne
    rw [Bool.eq_iff_iff, decide_eq_true_iff, hlisted]
    simp [hkey, hne]
  · cases hdepth : config.maxDepth with
    | none =>
      -- the key is missing even if listed, but then there is no cap by default either
      exact .inr hdepth
    | some depth =>
      left
      rw [Bool.eq_iff_iff, decide_eq_true_iff, hlisted, hdepth]
      simp [keys]

/-- The integers among the settings. -/
def integers (config : Config) : List Nat :=
  [config.count, config.integerMin.toNat, config.integerMax.toNat] ++ config.maxDepth.toList

/-- The floats among the settings. -/
def floats (config : Config) : List Binary64 :=
  [config.doubleMin, config.doubleMax, config.parenProbability, config.constProbability,
    config.volatileProbability] ++
  config.exprWeights.floats ++ config.typeWeights.floats

/-- Every integer fits 64 bits with a sign, and every float is a number. -/
structure IsPortable (config : Config) : Prop where
  integers : ∀ n ∈ config.integers, n < 2 ^ 63
  floats : ∀ x ∈ config.floats, x ≠ .nan

theorem portable_part {config : Config} (h : config.IsPortable) (listing : Listing) :
    ∀ entry ∈ config.toTable, (listing.part entry.1 entry.2).Portable := by
  have hinteger {n : Nat} (hn : n ∈ config.integers) : (Value.integer n).Portable :=
    .integer (by omega) (by exact_mod_cast h.integers n hn)
  have hfloat {x : Binary64} (hx : x ∈ config.floats) : (Value.float x).Portable :=
    .float (h.floats x hx)
  have hstrings {α : Type} (nameOf : α → String) (l : List α) :
      (Value.array (l.map fun a => .string (nameOf a))).Portable := by
    refine .array fun v hv => ?_
    obtain ⟨a, -, rfl⟩ := List.mem_map.mp hv
    exact .string _
  rw [toTable]
  refine List.forall_mem_append.mpr ⟨List.forall_mem_append.mpr ⟨?_, ?_⟩, ?_⟩
  · simp only [List.forall_mem_cons, List.not_mem_nil, false_implies, implies_true, and_true]
    refine ⟨hinteger ?_, hinteger ?_, hinteger ?_, hfloat ?_, hfloat ?_, hfloat ?_, hfloat ?_,
      hfloat ?_, hstrings _ _, hstrings _ _, ?exprWeights, ?typeWeights⟩
    case exprWeights =>
      exact Reading.portable_weights ExprKind.ofName?_name _ fun x hx =>
        h.floats x (by simp [floats, hx])
    case typeWeights =>
      exact Reading.portable_weights TypeKind.ofName?_name _ fun x hx =>
        h.floats x (by simp [floats, hx])
    all_goals simp [integers, floats]
  · cases hdepth : config.maxDepth with
    | none => exact fun _ h => absurd h List.not_mem_nil
    | some depth =>
      exact List.forall_mem_singleton.mpr (hinteger (by simp [integers, hdepth]))
  · simp only [List.forall_mem_cons, List.not_mem_nil, false_implies, implies_true, and_true]
    exact ⟨.string _, .string _, .string _, .string _, hstrings id _, hstrings id _⟩

theorem portable_document {config : Config} (h : config.IsPortable) (listing : Listing) :
    (Value.table (listing.document config)).Portable := by
  have hdistinct : (config.toTable.map (·.1)).Nodup := by
    rw [map_fst_toTable]
    exact .filter _ (by decide)
  refine .table ?_ fun entry hentry => ?_
  · have hkeys : (listing.document config).map (·.1) =
        (config.toTable.filter fun entry => listing.setting entry.1).map (·.1) := by
      rw [Listing.document, List.map_map]
      rfl
    rw [hkeys]
    exact hdistinct.sublist (List.filter_sublist.map _)
  · obtain ⟨entry, hmem, rfl⟩ := List.mem_map.mp hentry
    exact portable_part h listing entry (List.mem_filter.mp hmem).1

theorem Listing.document_all (config : Config) : Listing.all.document config = config.toTable := by
  have hexpr := Reading.listedWeights_all ExprKind.ofName?_name config.exprWeights
  have htype := Reading.listedWeights_all TypeKind.ofName?_name config.typeWeights
  have hpart : ∀ entry ∈ config.toTable, (entry.1, Listing.all.part entry.1 entry.2) = entry := by
    rw [toTable]
    refine List.forall_mem_append.mpr ⟨List.forall_mem_append.mpr ⟨?_, ?_⟩, ?_⟩
    · simp [Listing.part, Listing.all, hexpr, htype]
    · cases config.maxDepth <;> simp [Listing.part]
    · simp [Listing.part]
  have hfilter :
      config.toTable.filter (fun entry => Listing.all.setting entry.1) = config.toTable :=
    List.filter_eq_self.mpr fun _ _ => rfl
  rw [document, hfilter]
  exact (List.map_congr_left hpart).trans (List.map_id _)

/-- A library that keeps the data of documents gives back a configuration, and of a part of one what
is listed, with the default for the rest. Parts of portable configurations are portable
(`portable_document`). -/
theorem document_overlays {library : Table → Option Table} (keeps : KeepsData library)
    (config : Config) (unaryLegal : config.unaryOps.Legal) (binaryLegal : config.binaryOps.Legal) :
    (config.IsPortable →
        ∃ entries, library config.toTable = some entries ∧ ofTable entries = .ok config)
      ∧ ("max_depth" ∉ config.toTable.map (·.1) ↔ config.maxDepth = none)
      ∧ ∀ listing : Listing,
          ((Value.table (listing.document config)).Portable →
            ∃ entries, library (listing.document config) = some entries
              ∧ ofTable entries = .ok (listing.overlay config))
          ∧ ∀ entries, (Value.table (listing.document config)).Rearranged (.table entries) →
              ofTable entries = .ok (listing.overlay config) := by
  have hread (listing : Listing) (hportable : (Value.table (listing.document config)).Portable) :
      ∃ entries, library (listing.document config) = some entries
        ∧ ofTable entries = .ok (listing.overlay config) := by
    obtain ⟨entries, hlibrary, hrearranged⟩ := keeps _ hportable
    exact ⟨entries, hlibrary, ofTable_of_rearranged unaryLegal binaryLegal listing hrearranged⟩
  refine ⟨fun hportable => ?_, ?_, fun listing => ⟨hread listing, fun entries h => ?_⟩⟩
  · have hall := hread .all (portable_document hportable .all)
    rwa [Listing.document_all] at hall
  · rw [map_fst_toTable, List.mem_filter]
    simp [keys]
  · exact ofTable_of_rearranged unaryLegal binaryLegal listing h

/-- Some settings that are not the default. -/
def tuned : Config where
  integerMax := 10
  unaryOps := .ofList [.neg]
  exprWeights := WeightTable.default.set .double ⟨1, 0⟩ |>.set .unary ⟨2, 0.5⟩
  maxDepth := some 6
  varName := "y"

/-- Some of those settings, with the weight of one kind. -/
def tunedPart : Listing where
  setting key := key ∈ ["int_const_max", "un_op_mask", "expr_kind_weights"]
  exprKind kind := kind = .double
  typeKind _ := false

/-- With its subtables moved to the end, as documents have them, `tuned` is read back, and a part of
it over the default. -/
theorem document_overlays_tuned :
    ofTable (Toml.tablesLast tuned.toTable) = .ok tuned
      ∧ "max_depth" ∈ tuned.toTable.map (·.1)
      ∧ ∃ config, ofTable (Toml.tablesLast (tunedPart.document tuned)) = .ok config
          ∧ config.integerMax = 10 ∧ config.unaryOps = .ofList [.neg]
          ∧ config.maxDepth = none ∧ config.varName = "x"
          ∧ config.exprWeights.weight .double = ⟨1, 0⟩
          ∧ config.exprWeights.weight .unary = ⟨7, 0.4⟩ := by
  have hportable : tuned.IsPortable := ⟨by decide +kernel, by decide +kernel⟩
  obtain ⟨hwhole, hdepth, hpart⟩ := document_overlays Toml.keepsData_tablesLast tuned
    (Mask.ofList_legal _) (Mask.ofList_legal _)
  obtain ⟨entries, hentries, hread⟩ := hwhole hportable
  obtain ⟨part, hpart, hreadPart⟩ := (hpart tunedPart).1 (portable_document hportable tunedPart)
  cases hentries
  cases hpart
  refine ⟨hread, ?_, _, hreadPart, rfl, rfl, rfl, rfl, rfl, rfl⟩
  exact not_not.mp (mt hdepth.mp nofun)

end Config

end Assay
