import Mathlib.Tactic.SplitIfs

/-!
# Characters

Words and numbers are stretches of characters of one class, so where two texts begin with such a
stretch and agree, the stretches agree (`stretch_unique`).
-/

namespace Assay

/-- Two texts that begin with the longest stretch of a class begin with the same stretch. -/
theorem stretch_unique {p : Char → Bool} {a a' r r' : List Char} (ha : ∀ c ∈ a, p c)
    (ha' : ∀ c ∈ a', p c) (hr : ∀ c ∈ r.head?, p c = false) (hr' : ∀ c ∈ r'.head?, p c = false)
    (h : a ++ r = a' ++ r') : a = a' ∧ r = r' := by
  induction a generalizing a' with
  | nil =>
    cases a' with
    | nil => exact ⟨rfl, h⟩
    | cons c a' =>
      simp only [List.nil_append, List.cons_append] at h
      simp [h, ha' c List.mem_cons_self] at hr
  | cons c a ih =>
    cases a' with
    | nil =>
      simp only [List.nil_append, List.cons_append] at h
      simp [← h, ha c List.mem_cons_self] at hr'
    | cons d a' =>
      simp only [List.cons_append, List.cons.injEq] at h
      obtain ⟨rfl, h⟩ := h
      obtain ⟨rfl, rfl⟩ := ih (fun c hc => ha c (List.mem_cons_of_mem _ hc))
        (fun c hc => ha' c (List.mem_cons_of_mem _ hc)) h
      exact ⟨rfl, rfl⟩

theorem toDigits_injective {m n : Nat} (h : Nat.toDigits 10 m = Nat.toDigits 10 n) : m = n := by
  rw [← @Nat.ofDigitChars_ten_toDigits m, h, Nat.ofDigitChars_ten_toDigits]

theorem isDigit_of_mem_toDigits {n : Nat} {c : Char} (hc : c ∈ Nat.toDigits 10 n) : c.isDigit :=
  Nat.isDigit_of_mem_toDigits (by decide) (by decide) hc

theorem toDigits_ne_minus (m n : Nat) : Nat.toDigits 10 m ≠ '-' :: Nat.toDigits 10 n := by
  intro h
  have hm : '-' ∈ Nat.toDigits 10 m := h ▸ List.mem_cons_self
  exact absurd (isDigit_of_mem_toDigits hm) (by decide)

theorem toList_repr_injective {a b : Int} (h : a.repr.toList = b.repr.toList) : a = b := by
  have hminus (n : Nat) : ("-" ++ n.repr).toList = '-' :: Nat.toDigits 10 n := by
    simp
  rw [Int.repr_eq_if, Int.repr_eq_if] at h
  split_ifs at h with ha hb hb
  · rw [Nat.toList_repr, Nat.toList_repr] at h
    have := toDigits_injective h
    omega
  · rw [Nat.toList_repr, hminus] at h
    exact absurd h (toDigits_ne_minus _ _)
  · rw [Nat.toList_repr, hminus] at h
    exact absurd h.symm (toDigits_ne_minus _ _)
  · rw [hminus, hminus] at h
    have := toDigits_injective (List.cons.inj h).2
    omega

/-- A character that decimal numbers are spelled with. -/
def isNumberChar (c : Char) : Bool := c.isDigit || c = '.' || c = 'e' || c = '-'

/-- A character of a word: a letter, a digit or an underscore. -/
def isWordChar (c : Char) : Bool := c.isAlphanum || c = '_'

/-- A character that a word may begin with. -/
def isWordStart (c : Char) : Bool := c.isAlpha || c = '_'

theorem isDigit_of_isWordStart {c : Char} (h : isWordStart c) : c.isDigit = false := by
  by_cases hu : c = '_'
  · rw [hu]
    rfl
  · unfold isWordStart Char.isAlpha Char.isUpper Char.isLower at h
    simp only [hu, decide_false, Bool.or_false, Bool.or_eq_true, Bool.and_eq_true,
      decide_eq_true_eq, ge_iff_le, UInt32.le_iff_toNat_le] at h
    simp only [Char.isDigit, Bool.and_eq_false_iff, decide_eq_false_iff_not, ge_iff_le,
      UInt32.le_iff_toNat_le]
    have h9 : '9'.val.toNat = 57 := rfl
    have hA : 'A'.val.toNat = 65 := rfl
    have ha : 'a'.val.toNat = 97 := rfl
    omega

/-- An identifier of C. -/
def isIdentifier (name : String) : Bool :=
  name.toList.head?.any isWordStart && name.toList.all isWordChar

theorem isWordChar_of_isIdentifier {name : String} (h : isIdentifier name) :
    ∀ c ∈ name.toList, isWordChar c := by
  unfold isIdentifier at h
  rw [Bool.and_eq_true, List.all_eq_true] at h
  exact h.2

theorem isWordStart_of_isIdentifier {name : String} (h : isIdentifier name) :
    ∃ c rest, name.toList = c :: rest ∧ isWordStart c := by
  unfold isIdentifier at h
  rcases hn : name.toList with _ | ⟨c, rest⟩ <;> rw [hn] at h
  · simp at h
  · refine ⟨c, rest, rfl, ?_⟩
    simp only [Bool.and_eq_true] at h
    simpa using h.1

/-- An identifier that is no truth value. -/
def isName (name : String) : Bool := isIdentifier name && name != "true" && name != "false"

theorem isIdentifier_of_isName {name : String} (h : isName name) : isIdentifier name := by
  simp only [isName, Bool.and_eq_true] at h
  exact h.1.1

end Assay
