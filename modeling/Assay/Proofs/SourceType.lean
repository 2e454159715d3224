import Assay.Proofs.Characters
import Assay.SourceType
import Mathlib.Data.List.Basic

/-!
# Types read back

A pointer or reference is written as what it points or refers to, a mark, and the qualifiers of its
own level; a base type has its qualifiers in front and no mark. So types are read from the right, a
level at a time: the last mark splits the text (`last_mark_unique`), and where there is none the
words in front of the name are the qualifiers (`Qualifiers.leading_unique`). The text of a type
determines it, if references have no qualifiers and tags are single words that name no scalar
(`type_eq_of_text_eq`).
-/

namespace Assay

/-! ## Texts in two parts -/

/-- The mark of a level of a type. -/
def isMark (c : Char) : Bool := c = '*' || c = '&'

/-- A test of the text's characters, so that `decide` does not try those that are not in it. -/
theorem not_isMark_of_all {cs : List Char} (h : cs.all fun c => !isMark c) :
    ∀ c ∈ cs, isMark c = false := by
  simpa using h

/-- The last mark splits a text in one way. -/
theorem last_mark_unique {a a' r r' : List Char} {m m' : Char} (hm : isMark m) (hm' : isMark m')
    (hr : ∀ c ∈ r, isMark c = false) (hr' : ∀ c ∈ r', isMark c = false)
    (h : a ++ m :: r = a' ++ m' :: r') : a = a' ∧ m = m' ∧ r = r' := by
  have hreverse : r.reverse ++ m :: a.reverse = r'.reverse ++ m' :: a'.reverse := by
    simpa using congrArg List.reverse h
  have hunmarked {r : List Char} (hr : ∀ c ∈ r, isMark c = false) :
      ∀ c ∈ r.reverse, (!isMark c) = true := by
    intro c hc
    rw [hr c (List.mem_reverse.mp hc)]
    rfl
  obtain ⟨htail, hhead⟩ := stretch_unique (hunmarked hr) (hunmarked hr') (by simpa using hm)
    (by simpa using hm') hreverse
  obtain ⟨rfl, hrest⟩ := List.cons.inj hhead
  exact ⟨List.reverse_injective hrest, rfl, List.reverse_injective htail⟩

/-- A word may stand in front of a text that does not begin with it. -/
theorem front_unique {w a a' : List Char} {b b' : Bool} (ha : ¬ w <+: a) (ha' : ¬ w <+: a')
    (h : (if b then w else []) ++ a = (if b' then w else []) ++ a') : b = b' ∧ a = a' := by
  cases b <;> cases b' <;> simp only [Bool.false_eq_true, ↓reduceIte, List.nil_append] at h
  · exact ⟨rfl, h⟩
  · exact absurd ⟨a', h.symm⟩ ha
  · exact absurd ⟨a, h⟩ ha'
  · exact ⟨rfl, List.append_cancel_left h⟩

/-! ## Qualifiers -/

/-- A text that begins with no qualifier. -/
def Unqualified (cs : List Char) : Prop :=
  ¬ "const ".toList <+: cs ∧ ¬ "volatile ".toList <+: cs

instance (cs : List Char) : Decidable (Unqualified cs) := inferInstanceAs (Decidable (_ ∧ _))

namespace Qualifiers

theorem leading_toList (cv : Qualifiers) :
    cv.leading.toList = (if cv.isConst then "const ".toList else []) ++
      (if cv.isVolatile then "volatile ".toList else []) := by
  obtain ⟨_ | _, _ | _⟩ := cv <;> decide +kernel

theorem leading_unique {cv cv' : Qualifiers} {a a' : List Char} (ha : Unqualified a)
    (ha' : Unqualified a') (h : cv.leading.toList ++ a = cv'.leading.toList ++ a') :
    cv = cv' ∧ a = a' := by
  have hconst {b : Bool} {a : List Char} (ha : Unqualified a) :
      ¬ "const ".toList <+: (if b then "volatile ".toList else []) ++ a := by
    cases b
    · exact ha.1
    · simp
  rw [leading_toList, leading_toList, List.append_assoc, List.append_assoc] at h
  obtain ⟨hc, h⟩ := front_unique (hconst ha) (hconst ha') h
  obtain ⟨hv, rfl⟩ := front_unique ha.2 ha'.2 h
  obtain ⟨_, _⟩ := cv
  obtain ⟨_, _⟩ := cv'
  exact ⟨congr (congrArg mk hc) hv, rfl⟩

theorem trailing_injective {cv cv' : Qualifiers} (h : cv.trailing = cv'.trailing) : cv = cv' := by
  obtain ⟨_ | _, _ | _⟩ := cv <;> obtain ⟨_ | _, _ | _⟩ := cv' <;> revert h <;> decide +kernel

theorem not_isMark_trailing (cv : Qualifiers) : ∀ c ∈ cv.trailing.toList, isMark c = false := by
  apply not_isMark_of_all
  obtain ⟨_ | _, _ | _⟩ := cv <;> decide +kernel

theorem eq_none_of_isEmpty {cv : Qualifiers} (h : cv.isEmpty) : cv = .none := by
  obtain ⟨_ | _, _ | _⟩ := cv <;> first | rfl | cases h

theorem not_isMark_leading (cv : Qualifiers) : ∀ c ∈ cv.leading.toList, isMark c = false := by
  apply not_isMark_of_all
  obtain ⟨_ | _, _ | _⟩ := cv <;> decide +kernel

end Qualifiers

/-! ## Types -/

/-- Whether a text may name a class or an enumeration: it is a single word that names no scalar. So
is every identifier that is not a keyword. -/
def isTag (name : String) : Bool :=
  name.toList.all (fun c => c != ' ' && !isMark c) &&
    (Enumerated.all : List ScalarType).all fun s => s.name != name

theorem ScalarType.name_injective : ∀ {s t : ScalarType}, s.name = t.name → s = t := by
  have hall : ∀ s ∈ (Enumerated.all : List ScalarType), ∀ t ∈ (Enumerated.all : List ScalarType),
      s.name = t.name → s = t := by
    decide +kernel
  exact fun {s t} => hall s (Enumerated.mem_all s) t (Enumerated.mem_all t)

theorem ScalarType.name_ne_of_isTag {name : String} (h : isTag name) (s : ScalarType) :
    s.name ≠ name := by
  rw [isTag, Bool.and_eq_true, List.all_eq_true] at h
  simpa using List.all_eq_true.mp h.2 s (Enumerated.mem_all s)

namespace SourceType

/-- Whether references have no qualifiers of their own and tags are names, at every level. -/
def isLegible : SourceType → Bool
  | scalar .. => true
  | tagged name _ => isTag name
  | pointer pointee _ => pointee.isLegible
  | reference referee cv => cv.isEmpty && referee.isLegible

/-- The name and the qualifiers of a type that points or refers to nothing. -/
def base? : SourceType → Option (String × Qualifiers)
  | scalar s cv => some (s.name, cv)
  | tagged name cv => some (name, cv)
  | pointer .. | reference .. => none

variable {t t' : SourceType} {name : String} {cv : Qualifiers}

theorem text_of_base? (h : t.base? = some (name, cv)) : t.text = cv.leading ++ name := by
  cases t <;> cases h <;> rfl

/-- A base name stands behind its qualifiers and has no mark in it. -/
theorem facts_of_base? (ht : t.isLegible) (h : t.base? = some (name, cv)) :
    Unqualified name.toList ∧ ∀ c ∈ name.toList, isMark c = false := by
  cases t with
  | scalar s _ =>
    cases h
    have hall : ∀ s ∈ (Enumerated.all : List ScalarType),
        Unqualified s.name.toList ∧ s.name.toList.all fun c => !isMark c := by
      decide +kernel
    exact (hall s (Enumerated.mem_all s)).imp_right not_isMark_of_all
  | tagged _ _ =>
    cases h
    rw [isLegible, isTag, Bool.and_eq_true, List.all_eq_true] at ht
    have hname : ∀ c ∈ name.toList, c ≠ ' ' ∧ isMark c = false := by simpa using ht.1
    refine ⟨⟨fun hw => ?_, fun hw => ?_⟩, fun c hc => (hname c hc).2⟩
    · exact (hname ' ' (hw.subset (by decide))).1 rfl
    · exact (hname ' ' (hw.subset (by decide))).1 rfl
  | pointer _ _ | reference _ _ => cases h

theorem not_isMark_of_base? (ht : t.isLegible) (h : t.base? = some (name, cv)) :
    ∀ c ∈ t.text.toList, isMark c = false := by
  rw [text_of_base? h, String.toList_append, List.forall_mem_append]
  exact ⟨cv.not_isMark_leading, (facts_of_base? ht h).2⟩

theorem eq_of_base?_eq (ht : t.isLegible) (ht' : t'.isLegible) (h : t.base? = some (name, cv))
    (h' : t'.base? = some (name, cv)) : t = t' := by
  cases t with
  | scalar s _ =>
    cases h
    cases t' with
    | scalar s' _ =>
      obtain ⟨hname, rfl⟩ := Prod.mk.inj (Option.some.inj h')
      rw [ScalarType.name_injective hname]
    | tagged name' _ =>
      obtain ⟨hname, -⟩ := Prod.mk.inj (Option.some.inj h')
      exact absurd hname.symm (s.name_ne_of_isTag ht')
    | pointer _ _ | reference _ _ => cases h'
  | tagged _ _ =>
    cases h
    cases t' with
    | scalar s' _ =>
      obtain ⟨hname, -⟩ := Prod.mk.inj (Option.some.inj h')
      exact absurd hname (s'.name_ne_of_isTag ht)
    | tagged _ _ =>
      cases h'
      rfl
    | pointer _ _ | reference _ _ => cases h'
  | pointer _ _ | reference _ _ => cases h

/-- A base type is not written as any other type is. -/
theorem eq_of_base? (ht : t.isLegible) (ht' : t'.isLegible) (h : t.base? = some (name, cv))
    (htext : t.text = t'.text) : t = t' := by
  rcases h' : t'.base? with _ | ⟨name', cv'⟩
  · -- the mark of `t'` would stand in the text of `t`
    have hmarked : ∃ c ∈ t'.text.toList, isMark c := by
      cases t' with
      | scalar _ _ | tagged _ _ => cases h'
      | pointer _ _ => exact ⟨'*', by simp [text], rfl⟩
      | reference _ _ => exact ⟨'&', by simp [text], rfl⟩
    obtain ⟨c, hc, hmark⟩ := hmarked
    rw [not_isMark_of_base? ht h c (htext ▸ hc)] at hmark
    cases hmark
  · have hlists : cv.leading.toList ++ name.toList = cv'.leading.toList ++ name'.toList := by
      rw [← String.toList_append, ← String.toList_append, ← text_of_base? h, ← text_of_base? h',
        htext]
    obtain ⟨rfl, hname⟩ :=
      Qualifiers.leading_unique (facts_of_base? ht h).1 (facts_of_base? ht' h').1 hlists
    obtain rfl := String.toList_inj.mp hname
    exact eq_of_base?_eq ht ht' h h'

theorem pointer_toList (pointee : SourceType) (cv : Qualifiers) :
    (pointer pointee cv).text.toList = pointee.text.toList ++ '*' :: cv.trailing.toList := by
  simp [text]

theorem reference_toList (referee : SourceType) (cv : Qualifiers) :
    (reference referee cv).text.toList = referee.text.toList ++ '&' :: [] := by
  simp [text]

/-- The last mark tells pointers and references apart. -/
theorem pointer_text_ne_reference (pointee referee : SourceType) (cv cv' : Qualifiers) :
    (pointer pointee cv).text ≠ (reference referee cv').text := by
  intro h
  have hlists := congrArg String.toList h
  rw [pointer_toList, reference_toList] at hlists
  have hmarks := (last_mark_unique rfl rfl cv.not_isMark_trailing (by simp) hlists).2.1
  exact absurd hmarks (by decide)

/-- Types whose references have no qualifiers and whose tags are names are the same, level by level,
if they have the same text. -/
theorem type_eq_of_text_eq (ht : t.isLegible) (ht' : t'.isLegible) (h : t.text = t'.text) :
    t = t' := by
  induction t generalizing t' with
  | scalar s cv => exact eq_of_base? ht ht' rfl h
  | tagged name cv => exact eq_of_base? ht ht' rfl h
  | pointer pointee cv ih =>
    cases t' with
    | scalar _ _ | tagged _ _ => exact (eq_of_base? ht' ht rfl h.symm).symm
    | pointer pointee' cv' =>
      have hlists := congrArg String.toList h
      rw [pointer_toList, pointer_toList] at hlists
      obtain ⟨hpointee, -, hcv⟩ :=
        last_mark_unique rfl rfl cv.not_isMark_trailing cv'.not_isMark_trailing hlists
      obtain rfl : pointee = pointee' := ih ht ht' (String.toList_inj.mp hpointee)
      rw [Qualifiers.trailing_injective (String.toList_inj.mp hcv)]
    | reference _ _ => exact absurd h (pointer_text_ne_reference _ _ _ _)
  | reference referee cv ih =>
    cases t' with
    | scalar _ _ | tagged _ _ => exact (eq_of_base? ht' ht rfl h.symm).symm
    | pointer _ _ => exact absurd h.symm (pointer_text_ne_reference _ _ _ _)
    | reference referee' cv' =>
      obtain ⟨hcv, hreferee⟩ := Bool.and_eq_true_iff.mp ht
      obtain ⟨hcv', hreferee'⟩ := Bool.and_eq_true_iff.mp ht'
      have hlists := congrArg String.toList h
      rw [reference_toList, reference_toList] at hlists
      obtain ⟨hsame, -, -⟩ := last_mark_unique rfl rfl (by simp) (by simp) hlists
      obtain rfl : referee = referee' := ih hreferee hreferee' (String.toList_inj.mp hsame)
      rw [Qualifiers.eq_none_of_isEmpty hcv, Qualifiers.eq_none_of_isEmpty hcv']

/-- There are qualifiers after a star and in front of the name, however the type is put together. -/
theorem type_eq_of_text_eq_levels :
    let constant : Qualifiers := ⟨true, false⟩
    let foo : SourceType := .pointer (.tagged "Foo" constant) .none
    let t : SourceType := .reference (.pointer foo constant) .none
    let t' : SourceType := .reference ((SourceType.pointer foo .none).withQualifiers constant) .none
    t.text = "const Foo** const&" ∧ t.isLegible ∧ t'.isLegible ∧ t.text = t'.text ∧ t = t' := by
  intro constant foo t t'
  have ht : t.isLegible := by decide +kernel
  have ht' : t'.isLegible := by decide +kernel
  have h : t.text = t'.text := rfl
  exact ⟨by decide +kernel, ht, ht', h, type_eq_of_text_eq ht ht' h⟩

end SourceType

end Assay
