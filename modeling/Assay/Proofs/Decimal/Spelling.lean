import Assay.Decimal.Layout
import Assay.Proofs.Characters
import Assay.Proofs.Decimal.ReadBack

/-!
# The spelling of magnitudes

A magnitude is spelled by digits, then a point with more digits or an exponent or both, and the
spelling determines the number (`Spelling.value_eq_of_chars_eq`). So literals of two doubles have
two texts (`magnitude_literal_injective`).
-/

namespace Assay

/-- Digits, more digits after a point, and an exponent. -/
structure Spelling where
  whole : List Char
  fraction : Option (List Char)
  exponent : Option Int

namespace Spelling

/-- The characters of the part after the digits: the exponent. -/
def exponentChars (s : Spelling) : List Char :=
  s.exponent.elim [] fun k => 'e' :: k.repr.toList

/-- The characters of the fraction with its point. -/
def fractionChars (s : Spelling) : List Char := s.fraction.elim [] ('.' :: ·)

def chars (s : Spelling) : List Char := s.whole ++ (s.fractionChars ++ s.exponentChars)

/-- The number that the spelling denotes. -/
def value (s : Spelling) : ℚ :=
  Nat.ofDigitChars 10 (s.whole ++ s.fraction.getD []) 0 *
    10 ^ (s.exponent.getD 0 - (s.fraction.getD []).length)

/-- The digits are digits, there are some, and there is more than digits. -/
structure Proper (s : Spelling) : Prop where
  whole_ne_nil : s.whole ≠ []
  whole_digits : ∀ c ∈ s.whole, c.isDigit
  fraction_digits : ∀ digits ∈ s.fraction, ∀ c ∈ digits, c.isDigit
  marked : s.fraction.isSome ∨ s.exponent.isSome

theorem head_exponentChars (s : Spelling) : ∀ c ∈ s.exponentChars.head?, c = 'e' := by
  unfold exponentChars
  cases s.exponent <;> simp

theorem head_rest (s : Spelling) :
    ∀ c ∈ (s.fractionChars ++ s.exponentChars).head?, c.isDigit = false := by
  intro c hc
  unfold fractionChars at hc
  cases hf : s.fraction with
  | none =>
    rw [hf] at hc
    rw [s.head_exponentChars c hc]
    rfl
  | some digits =>
    rw [hf] at hc
    simp only [Option.elim_some, List.cons_append, List.head?_cons, Option.mem_def,
      Option.some.injEq] at hc
    rw [← hc]
    rfl

theorem exponent_eq_of_chars_eq {s s' : Spelling} (h : s.exponentChars = s'.exponentChars) :
    s.exponent = s'.exponent := by
  unfold exponentChars at h
  rcases hs : s.exponent with _ | k <;> rcases hs' : s'.exponent with _ | k' <;>
    rw [hs, hs'] at h <;> simp only [Option.elim_none, Option.elim_some] at h
  · cases h
  · cases h
  · rw [toList_repr_injective (List.cons.inj h).2]

/-- The characters of a proper spelling determine its parts. -/
theorem eq_of_chars_eq {s s' : Spelling} (hs : s.Proper) (hs' : s'.Proper)
    (h : s.chars = s'.chars) : s = s' := by
  obtain ⟨hw, hrest⟩ := stretch_unique hs.whole_digits hs'.whole_digits s.head_rest s'.head_rest h
  have hf : s.fraction = s'.fraction ∧ s.exponentChars = s'.exponentChars := by
    unfold fractionChars at hrest
    have hdigit (s : Spelling) : ∀ c ∈ s.exponentChars.head?, c.isDigit = false := by
      intro c hc
      rw [s.head_exponentChars c hc]
      rfl
    rcases hs1 : s.fraction with _ | f <;> rcases hs2 : s'.fraction with _ | f' <;>
      rw [hs1, hs2] at hrest
    · exact ⟨rfl, hrest⟩
    · exfalso
      have := s.head_exponentChars '.' (by simp at hrest; simp [hrest])
      exact absurd this (by decide)
    · exfalso
      have := s'.head_exponentChars '.' (by simp at hrest; simp [← hrest])
      exact absurd this (by decide)
    · simp only [Option.elim_some, List.cons_append, List.cons.injEq, true_and] at hrest
      obtain ⟨rfl, he⟩ := stretch_unique (hs.fraction_digits f hs1) (hs'.fraction_digits f' hs2)
        (hdigit s) (hdigit s') hrest
      exact ⟨rfl, he⟩
  have he := exponent_eq_of_chars_eq hf.2
  cases s
  cases s'
  simp_all

theorem isNumberChar_of_mem_repr {k : Int} {c : Char} (hc : c ∈ k.repr.toList) :
    isNumberChar c := by
  rw [Int.repr_eq_if] at hc
  split_ifs at hc
  · simp [isNumberChar, isDigit_of_mem_toDigits (by simpa using hc)]
  · rw [String.toList_append, List.mem_append] at hc
    rcases hc with hc | hc
    · have hminus : c = '-' := by simpa using hc
      rw [hminus]
      rfl
    · simp [isNumberChar, isDigit_of_mem_toDigits (by simpa using hc)]

theorem Proper.number_chars {s : Spelling} (h : s.Proper) : ∀ c ∈ s.chars, isNumberChar c := by
  intro c hc
  simp only [chars, List.mem_append] at hc
  rcases hc with hc | hc | hc
  · simp [isNumberChar, h.whole_digits c hc]
  · unfold fractionChars at hc
    cases hf : s.fraction with
    | none => simp [hf] at hc
    | some digits =>
      simp only [hf, Option.elim_some, List.mem_cons] at hc
      rcases hc with rfl | hc
      · rfl
      · simp [isNumberChar, h.fraction_digits digits hf c hc]
  · unfold exponentChars at hc
    cases he : s.exponent with
    | none => simp [he] at hc
    | some k =>
      simp only [he, Option.elim_some, List.mem_cons] at hc
      rcases hc with rfl | hc
      · rfl
      · exact isNumberChar_of_mem_repr hc

theorem Proper.head_isDigit {s : Spelling} (h : s.Proper) :
    ∃ c rest, s.chars = c :: rest ∧ c.isDigit := by
  obtain ⟨c, rest, hw⟩ := List.exists_cons_of_ne_nil h.whole_ne_nil
  exact ⟨c, rest ++ (s.fractionChars ++ s.exponentChars), by simp [chars, hw],
    h.whole_digits c (by simp [hw])⟩

theorem Proper.exists_mark {s : Spelling} (h : s.Proper) :
    ∃ c ∈ s.chars, c.isDigit = false := by
  rcases h.marked with hf | he
  · obtain ⟨digits, hd⟩ := Option.isSome_iff_exists.mp hf
    exact ⟨'.', by simp [chars, fractionChars, hd], rfl⟩
  · obtain ⟨k, hk⟩ := Option.isSome_iff_exists.mp he
    exact ⟨'e', by simp [chars, exponentChars, hk], rfl⟩

/-- The spelling is proper, reads as the text, and denotes the number. -/
structure Spells (s : Spelling) (text : String) (q : ℚ) : Prop where
  proper : s.Proper
  chars_eq : s.chars = text.toList
  value_eq : s.value = q

theorem Spells.value_unique {s s' : Spelling} {text : String} {q q' : ℚ} (h : s.Spells text q)
    (h' : s'.Spells text q') : q = q' := by
  have hs := eq_of_chars_eq h.proper h'.proper (h.chars_eq.trans h'.chars_eq.symm)
  rw [← h.value_eq, ← h'.value_eq, hs]

end Spelling

section Layouts

variable {digits : Nat} {point : Int}

theorem ofDigitChars_zeros_toDigits (n digits : Nat) :
    Nat.ofDigitChars 10 ('0' :: (List.replicate n '0' ++ Nat.toDigits 10 digits)) 0 = digits := by
  rw [Nat.ofDigitChars_cons, Nat.ofDigitChars_append, Nat.ofDigitChars_replicate_zero]
  simp

theorem isDigit_zeros_toDigits {n digits : Nat} {c : Char}
    (hc : c ∈ List.replicate n '0' ++ Nat.toDigits 10 digits) : c.isDigit := by
  rcases List.mem_append.mp hc with hc | hc
  · rw [List.eq_of_mem_replicate hc]
    rfl
  · exact isDigit_of_mem_toDigits hc

theorem scientific_spelled (digits : Nat) (point : Int) :
    ∃ s : Spelling, s.Spells (Layout.scientific (toString digits) point)
      (digits * 10 ^ (point - (Nat.toDigits 10 digits).length)) := by
  have hne : Nat.toDigits 10 digits ≠ [] := Nat.toDigits_ne_nil
  have hmem {c : Char} : c ∈ Nat.toDigits 10 digits → c.isDigit := isDigit_of_mem_toDigits
  have htoList : (toString digits).toList = Nat.toDigits 10 digits := by simp
  generalize hd : Nat.toDigits 10 digits = ds at hne hmem htoList
  have hvalue : Nat.ofDigitChars 10 ds 0 = digits := by
    rw [← hd, Nat.ofDigitChars_ten_toDigits]
  cases ds with
  | nil => exact absurd rfl hne
  | cons c rest =>
    refine ⟨⟨[c], if rest.isEmpty then none else some rest, some (point - 1)⟩, ⟨?_, ?_, ?_, ?_⟩,
      ?_, ?_⟩
    · simp
    · simpa using hmem List.mem_cons_self
    · intro f hf d hdf
      have hfr : f = rest := by
        split_ifs at hf <;> cases hf
        rfl
      exact hmem (List.mem_cons_of_mem _ (hfr ▸ hdf))
    · simp
    · unfold Layout.scientific Spelling.chars Spelling.fractionChars Spelling.exponentChars
      rw [htoList]
      cases rest <;> simp
    · have hf : (if rest.isEmpty then none else some rest).getD [] = rest := by
        cases rest <;> rfl
      simp only [Spelling.value, hf, List.singleton_append, hvalue, Option.getD_some,
        List.length_cons]
      congr 2
      push_cast
      ring

theorem positional_spelled (digits : Nat) (point : Int) :
    ∃ s : Spelling, s.Spells (Layout.literal.positional (toString digits) point)
      (digits * 10 ^ (point - (Nat.toDigits 10 digits).length)) := by
  have htoList : (toString digits).toList = Nat.toDigits 10 digits := by simp
  have hlength : (toString digits).length = (Nat.toDigits 10 digits).length := by
    rw [← htoList, String.length_toList]
  unfold Layout.positional
  simp only [hlength]
  split_ifs with hsmall hwhole
  · -- `0.00123`
    refine ⟨⟨['0'], some (List.replicate (-point).toNat '0' ++ Nat.toDigits 10 digits), none⟩,
      ⟨by simp, by simp, ?_, by simp⟩, ?_, ?_⟩
    · intro f hf c hc
      cases hf
      exact isDigit_zeros_toDigits hc
    · simp [Spelling.chars, Spelling.fractionChars, Spelling.exponentChars]
    · simp only [Spelling.value, Option.getD_some, List.singleton_append,
        ofDigitChars_zeros_toDigits, List.length_append, List.length_replicate, Option.getD_none]
      congr 2
      omega
  · -- `12300.0`
    refine ⟨⟨Nat.toDigits 10 digits ++
        List.replicate (point - (Nat.toDigits 10 digits).length).toNat '0', some ['0'], none⟩,
      ⟨by simp, ?_, by simp, by simp⟩, ?_, ?_⟩
    · intro c hc
      rcases List.mem_append.mp hc with hc | hc
      · exact isDigit_of_mem_toDigits hc
      · rw [List.eq_of_mem_replicate hc]
        rfl
    · simp [Spelling.chars, Spelling.fractionChars, Spelling.exponentChars, Layout.literal]
    · obtain ⟨k, hk⟩ := Int.le.dest hwhole
      rw [← hk]
      simp only [Spelling.value, Option.getD_some, List.append_assoc, Nat.ofDigitChars_append,
        Nat.ofDigitChars_ten_toDigits, add_sub_cancel_left, Int.toNat_natCast,
        Nat.ofDigitChars_replicate_zero, Option.getD_none, zpow_natCast]
      simp [Nat.ofDigitChars_cons]
      ring
  · -- `12.3`
    have hpos : 0 < point.toNat := by omega
    refine ⟨⟨(Nat.toDigits 10 digits).take point.toNat,
      some ((Nat.toDigits 10 digits).drop point.toNat), none⟩, ⟨?_, ?_, ?_, by simp⟩, ?_, ?_⟩
    · simp [Nat.toDigits_ne_nil, hpos.ne']
    · exact fun c hc => isDigit_of_mem_toDigits (List.mem_of_mem_take hc)
    · intro f hf c hc
      cases hf
      exact isDigit_of_mem_toDigits (List.mem_of_mem_drop hc)
    · simp [Spelling.chars, Spelling.fractionChars, Spelling.exponentChars]
    · simp only [Spelling.value, Option.getD_some, List.take_append_drop,
        Nat.ofDigitChars_ten_toDigits, Option.getD_none, List.length_drop]
      congr 2
      omega

end Layouts

/-- The decimal that a magnitude is spelled with. -/
def Decimal.spelled (units : Nat) : Decimal := if units = 0 then ⟨0, 0⟩ else shortest units

theorem Decimal.spelled_units {units : Nat} (h : Representable units) :
    (spelled units).units = units := by
  unfold spelled
  split_ifs with hz
  · rw [units_of_digits_eq_zero rfl, hz]
  · exact shortest_units h

theorem magnitude_literal_spelled {units : Nat} (h : Representable units) :
    ∃ s : Spelling, s.Spells (Layout.literal.magnitude units) (Decimal.spelled units).value := by
  unfold Layout.magnitude Decimal.spelled
  by_cases hz : units = 0
  · rw [if_pos hz, if_pos hz]
    refine ⟨⟨['0'], some ['0'], none⟩, ⟨by simp, by simp, by simp, by simp⟩, rfl, ?_⟩
    simp [Spelling.value, Decimal.value, Nat.ofDigitChars_cons]
  · rw [if_neg hz, if_neg hz]
    simp only []
    have hd : (Decimal.shortest units).digits ≠ 0 := fun h0 =>
      hz ((Decimal.shortest_units h).symm.trans (Decimal.units_of_digits_eq_zero h0))
    have hv : (Decimal.shortest units).value = (Decimal.shortest units).digits *
        10 ^ ((Decimal.shortest units).point -
          (Nat.toDigits 10 (Decimal.shortest units).digits).length) := by
      rw [Decimal.value, Decimal.point, digitCount, if_neg hd, add_sub_cancel_left]
    rw [hv]
    split_ifs
    · exact scientific_spelled _ _
    · exact positional_spelled _ _

/-- A magnitude is spelled with the characters of numbers, a digit first and not digits only. -/
theorem magnitude_literal_chars {units : Nat} (h : Representable units) :
    (∀ c ∈ (Layout.literal.magnitude units).toList, isNumberChar c)
      ∧ (∃ c rest, (Layout.literal.magnitude units).toList = c :: rest ∧ c.isDigit)
      ∧ ∃ c ∈ (Layout.literal.magnitude units).toList, c.isDigit = false := by
  obtain ⟨s, hs⟩ := magnitude_literal_spelled h
  rw [← hs.chars_eq]
  exact ⟨hs.proper.number_chars, hs.proper.head_isDigit, hs.proper.exists_mark⟩

/-- Distinct magnitudes of doubles are spelled differently. -/
theorem magnitude_literal_injective {units units' : Nat} (h : Representable units)
    (h' : Representable units')
    (ht : Layout.literal.magnitude units = Layout.literal.magnitude units') : units = units' := by
  obtain ⟨s, hs⟩ := magnitude_literal_spelled h
  obtain ⟨s', hs'⟩ := magnitude_literal_spelled h'
  rw [ht] at hs
  have hv := Decimal.units_eq_of_value_eq (hs.value_unique hs')
  rwa [Decimal.spelled_units h, Decimal.spelled_units h'] at hv

end Assay
