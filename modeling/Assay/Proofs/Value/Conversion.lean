import Assay.Evaluation.Operation
import Assay.Proofs.Value.Address
import Assay.Proofs.Value.Residue

/-!
# Conversions between words

Pointers, and integers of every type but `bool` and what rests on it, are words: of each residue
modulo the width of its type such a value holds the one integer in the type's range
(`toInt?_ofInt_of_isWord`). So a word is what its integer makes of its type (`eq_ofInt_of_isWord`),
and a conversion forgets what the target type has no room for and nothing else
(`conversions_compose`).
-/

namespace Assay

/-- Whether an integer becomes a value of the scalar by its low bits, and not by a test for zero. -/
def ScalarType.isWord (s : ScalarType) : Bool := s.isIntegral && s != .bool

/-- The integers that words of so many bits stand for. -/
def IntRange.ofWidth (signed : Bool) (width : Nat) : IntRange :=
  if signed then .signed width else .unsigned width

theorem IntRange.ofWidth_length (signed : Bool) {width : Nat} (hw : 1 ≤ width) :
    (ofWidth signed width).max - (ofWidth signed width).min < Nat.pow 2 width := by
  obtain ⟨k, rfl⟩ := Nat.exists_eq_add_of_le' hw
  have hpow : Nat.pow 2 (k + 1) = Nat.pow 2 k * 2 := rfl
  have hpos : 0 < Nat.pow 2 k := Nat.two_pow_pos k
  rw [ofWidth]
  split <;> simp only [IntRange.signed, IntRange.unsigned, Nat.add_sub_cancel] <;> omega

namespace Target

/-- The integers that values of a type hold; for pointers they are the addresses in memory. -/
def wordRange? (target : Target) : Ty → Option IntRange
  | .pointer _ => some (.unsigned target.pointerBits)
  | type => target.range? type

theorem scalarRange_of_isWord {target : Target} {s : ScalarType} (h : s.isWord) :
    target.scalarRange s = .ofWidth (target.scalarSigned s) (target.scalarWidth s) := by
  have hb : s ≠ .bool := by
    rintro rfl
    cases h
  rw [scalarRange, if_neg hb, IntRange.ofWidth]

theorem layout_of_isWord (arch : Arch) {type : Ty} (h : type.restsOn ScalarType.isWord) :
    1 ≤ (ofArch arch).width type ∧ (ofArch arch).width type ≤ 64
      ∧ (ofArch arch).wordRange? type =
          some (.ofWidth ((ofArch arch).isSigned type) ((ofArch arch).width type)) := by
  cases type with
  | scalar s =>
    have hi : s.isIntegral := (Bool.and_eq_true_iff.mp h).1
    obtain ⟨h1, h64⟩ := fitsWord_ofArch arch s
    exact ⟨h1, h64, (if_pos hi).trans (congrArg some (scalarRange_of_isWord h))⟩
  | enumeration e =>
    obtain ⟨h1, h64⟩ := fitsWord_ofArch arch e.underlying
    exact ⟨h1, h64, congrArg some (scalarRange_of_isWord h)⟩
  | pointer _ => exact ⟨(pointerBits_bounds arch).1, (pointerBits_bounds arch).2, rfl⟩
  | record _ => cases h

end Target

theorem Ty.facts_of_isWord {type : Ty} (h : type.restsOn ScalarType.isWord) :
    type.isBool = false ∧ type.isFloating = false ∧ type.isTestable
      ∧ (type.isPointer || type.isIntegral) := by
  cases type with
  | scalar s => cases s <;> first | exact ⟨rfl, rfl, rfl, rfl⟩ | cases h
  | enumeration _ | pointer _ => exact ⟨rfl, rfl, rfl, rfl⟩
  | record _ => cases h

namespace Value

variable {arch : Arch} {type middle last : Ty} {v : Value}

theorem ofInt_of_isWord (h : type.restsOn ScalarType.isWord) (n : Int) :
    ofInt (.ofArch arch) type n =
      if (Target.ofArch arch).isSigned type then
        ⟨type, .signed (.ofInt (n.bmod (Nat.pow 2 ((Target.ofArch arch).width type))))⟩
      else ⟨type, .unsigned (.ofNat
        (n.emod (Nat.pow 2 ((Target.ofArch arch).width type))).toNat)⟩ := by
  obtain ⟨h1, h64, -⟩ := Target.layout_of_isWord arch h
  have hwidth : max 1 (min 64 ((Target.ofArch arch).width type)) =
      (Target.ofArch arch).width type := by omega
  rw [ofInt, (Ty.facts_of_isWord h).1, hwidth]
  rfl

theorem convert_of_isWord (h : type.restsOn ScalarType.isWord) (v : Value) :
    v.convert (.ofArch arch) type = ofInt (.ofArch arch) type v.toInt := by
  obtain ⟨hbool, hfloating, -⟩ := Ty.facts_of_isWord h
  rw [convert, hfloating, hbool]
  rfl

variable (arch) in
/-- Of the integers that are congruent to `n`, a value made of it holds the one in range. -/
theorem toInt?_ofInt_of_isWord (h : type.restsOn ScalarType.isWord) (n : Int) :
    ∃ m, (ofInt (.ofArch arch) type n).toInt? = some m
      ∧ (IntRange.ofWidth ((Target.ofArch arch).isSigned type)
          ((Target.ofArch arch).width type)).contains m
      ∧ (Nat.pow 2 ((Target.ofArch arch).width type) : Int) ∣ m - n := by
  obtain ⟨h1, h64, -⟩ := Target.layout_of_isWord arch h
  rw [ofInt_of_isWord h]
  cases (Target.ofArch arch).isSigned type with
  | true =>
    exact ⟨_, congrArg some (toInt_ofInt_bmod h1 h64 n), IntRange.signed_contains_bmod h1 n,
      Int.dvd_bmod_sub_self⟩
  | false =>
    exact ⟨_, congrArg some (toNat_ofNat_emod h64 n), IntRange.unsigned_contains_emod _ n,
      Int.dvd_sub_self_of_emod_eq rfl⟩

theorem ofInt_congr (h : type.restsOn ScalarType.isWord) {m n : Int}
    (hmn : (Nat.pow 2 ((Target.ofArch arch).width type) : Int) ∣ m - n) :
    ofInt (.ofArch arch) type m = ofInt (.ofArch arch) type n := by
  obtain ⟨k, hk⟩ := hmn
  obtain rfl : m = n + Nat.pow 2 ((Target.ofArch arch).width type) * k := by omega
  have hemod : (n + Nat.pow 2 ((Target.ofArch arch).width type) * k).emod
      (Nat.pow 2 ((Target.ofArch arch).width type)) =
        n.emod (Nat.pow 2 ((Target.ofArch arch).width type)) := Int.add_mul_emod_self_left _ _ _
  rw [ofInt_of_isWord h, ofInt_of_isWord h, Int.add_mul_bmod_self_left, hemod]

/-- A well-formed word in memory holds an integer of its type's sign and range. -/
theorem content_of_isWord (h : v.type.restsOn ScalarType.isWord)
    (hv : v.WellFormed (.ofArch arch)) (hm : v.InMemory (.ofArch arch)) :
    let range := IntRange.ofWidth ((Target.ofArch arch).isSigned v.type)
      ((Target.ofArch arch).width v.type)
    ((Target.ofArch arch).isSigned v.type = true
        ∧ ∃ n, v.scalar = .signed n ∧ range.contains n.toInt)
      ∨ ((Target.ofArch arch).isSigned v.type = false
        ∧ ∃ n, v.scalar = .unsigned n ∧ range.contains n.toNat) := by
  obtain ⟨-, -, hrange⟩ := Target.layout_of_isWord arch h
  obtain ⟨type, scalar⟩ := v
  cases type with
  | record _ => cases h
  | pointer pointee =>
    cases scalar with
    | unsigned n =>
      obtain ⟨h0, hlt⟩ := hm n rfl
      exact .inr ⟨rfl, n, rfl, IntRange.contains_iff.mpr ⟨h0, Int.le_sub_one_of_lt hlt⟩⟩
    | signed _ | floating _ => cases hv
  | scalar _ | enumeration _ =>
    simp only [Target.wordRange?] at hrange
    cases scalar with
    | signed n =>
      simp only [WellFormed, Scalar.fits, hrange, Option.any_some, Bool.and_eq_true] at hv
      exact .inl ⟨hv.1, n, rfl, hv.2⟩
    | unsigned n =>
      simp only [WellFormed, Scalar.fits, hrange, Option.any_some, Ty.isPointer, Ty.isTestable,
        Bool.not_true, Bool.or_self, Bool.false_or, Bool.and_eq_true, Bool.not_eq_true'] at hv
      exact .inr ⟨hv.1, n, rfl, hv.2⟩
    | floating x => exact absurd hv (by simp [WellFormed, Scalar.fits, (Ty.facts_of_isWord h).2.1])

/-- A word is the value that its integer makes. -/
theorem eq_ofInt_of_isWord (h : v.type.restsOn ScalarType.isWord)
    (hv : v.WellFormed (.ofArch arch)) (hm : v.InMemory (.ofArch arch)) :
    v = ofInt (.ofArch arch) v.type v.toInt := by
  obtain ⟨h1, h64, -⟩ := Target.layout_of_isWord arch h
  have hlength := IntRange.ofWidth_length ((Target.ofArch arch).isSigned v.type) h1
  have hcontent := content_of_isWord h hv hm
  rw [ofInt_of_isWord h]
  obtain ⟨type, scalar⟩ := v
  obtain ⟨hs, n, rfl, hn⟩ | ⟨hs, n, rfl, hn⟩ := hcontent <;> simp only [] at hs hn hlength ⊢ <;>
    rw [hs] at hn hlength <;> simp only [hs, toInt, Bool.false_eq_true, ↓reduceIte]
  · have hself := IntRange.eq_of_dvd hlength (IntRange.signed_contains_bmod h1 n.toInt) hn
      Int.dvd_bmod_sub_self
    rw [hself, Int64.ofInt_toInt]
  · have hself := IntRange.eq_of_dvd hlength (IntRange.unsigned_contains_emod _ n.toNat) hn
      (Int.dvd_sub_self_of_emod_eq rfl)
    rw [hself, Int.toNat_natCast, UInt64.ofNat_toNat]

/-- A type on the way that is no narrower than the last one makes no difference. -/
theorem convert_convert (hmiddle : middle.restsOn ScalarType.isWord)
    (hlast : last.restsOn ScalarType.isWord)
    (hle : (Target.ofArch arch).width last ≤ (Target.ofArch arch).width middle) (v : Value) :
    (v.convert (.ofArch arch) middle).convert (.ofArch arch) last =
      v.convert (.ofArch arch) last := by
  obtain ⟨m, hm, -, hcongruent⟩ := toInt?_ofInt_of_isWord arch hmiddle v.toInt
  have hpow : (Nat.pow 2 ((Target.ofArch arch).width last) : Int) ∣
      Nat.pow 2 ((Target.ofArch arch).width middle) :=
    Int.natCast_dvd_natCast.mpr (Nat.pow_dvd_pow 2 hle)
  rw [convert_of_isWord hlast, convert_of_isWord hlast, convert_of_isWord hmiddle,
    toInt_eq_of_toInt? hm]
  exact ofInt_congr hlast (Int.dvd_trans hpow hcongruent)

/-- A type that is no narrower than its own loses nothing of a word. -/
theorem convert_back (h : v.type.restsOn ScalarType.isWord) (hv : v.WellFormed (.ofArch arch))
    (hm : v.InMemory (.ofArch arch)) (hmiddle : middle.restsOn ScalarType.isWord)
    (hle : (Target.ofArch arch).width v.type ≤ (Target.ofArch arch).width middle) :
    (v.convert (.ofArch arch) middle).convert (.ofArch arch) v.type = v := by
  rw [convert_convert hmiddle h hle, convert_of_isWord h]
  exact (eq_ofInt_of_isWord h hv hm).symm

theorem wellFormed_ofInt_of_isWord (h : type.restsOn ScalarType.isWord) (n : Int) :
    (ofInt (.ofArch arch) type n).WellFormed (.ofArch arch) := by
  have hw := Target.fitsWord_ofArch arch
  cases type with
  | scalar s =>
    have hi : (Ty.scalar s).isIntegral := (Bool.and_eq_true_iff.mp h).1
    exact wellFormed_ofInt_of_isIntegral hw hi rfl n
  | enumeration e =>
    have hplain : (Ty.enumeration e).enumsIn EnumType.isPlain := h
    exact wellFormed_ofInt_of_isIntegral hw rfl hplain n
  | pointer _ => exact wellFormed_address (.inl rfl) rfl
  | record _ => cases h

end Value

namespace Target

/-- Words are cast as they are converted, and no cast between them has a finding. -/
theorem cast_of_isWord {target : Target} {v : Value} {dest : Ty}
    (hv : v.type.restsOn ScalarType.isWord) (hdest : dest.restsOn ScalarType.isWord) :
    target.cast v dest = .ok (.clean (v.convert target dest)) := by
  obtain ⟨-, hfloating, htestable, hkind⟩ := Ty.facts_of_isWord hv
  obtain ⟨-, hdestFloating, -⟩ := Ty.facts_of_isWord hdest
  cases dest with
  | record _ => cases hdest
  | pointer _ => rw [cast, if_pos hkind]
  | scalar _ | enumeration _ =>
    simp only [cast, htestable, hdestFloating, checkCast, hfloating, Bool.not_true, Bool.and_false,
      Bool.or_self, Bool.not_false, Bool.true_or, Bool.false_eq_true, ↓reduceIte, Judged.clean]

/-- An integer becomes the one in its type's range that is congruent to it. A conversion by way of a
type that is no narrower than the last is the direct one. There and back by way of one that is no
narrower than the first, a word is what it was, whether it is converted or cast. -/
theorem conversions_compose (arch : Arch) {type : Ty} (h : type.restsOn ScalarType.isWord) :
    (∃ range, (ofArch arch).wordRange? type = some range ∧ ∀ raw : Int,
        (Value.ofInt (ofArch arch) type raw).WellFormed (ofArch arch)
          ∧ (Value.ofInt (ofArch arch) type raw).InMemory (ofArch arch)
          ∧ ∃ n, (Value.ofInt (ofArch arch) type raw).toInt? = some n
            ∧ ∀ m, range.contains m ∧ (Nat.pow 2 ((ofArch arch).width type) : Int) ∣ m - raw ↔
                m = n)
      ∧ ∀ v : Value, v.type = type → v.WellFormed (ofArch arch) → v.InMemory (ofArch arch) →
        ∀ middle : Ty, middle.restsOn ScalarType.isWord →
          (∀ last : Ty, last.restsOn ScalarType.isWord →
              (ofArch arch).width last ≤ (ofArch arch).width middle →
              (v.convert (ofArch arch) middle).convert (ofArch arch) last =
                v.convert (ofArch arch) last)
            ∧ ((ofArch arch).width type ≤ (ofArch arch).width middle →
              (v.convert (ofArch arch) middle).convert (ofArch arch) type = v
                ∧ (ofArch arch).cast v middle = .ok (.clean (v.convert (ofArch arch) middle))
                ∧ (ofArch arch).cast (v.convert (ofArch arch) middle) type = .ok (.clean v)) := by
  obtain ⟨h1, -, hrange⟩ := layout_of_isWord arch h
  refine ⟨⟨_, hrange, fun raw => ⟨Value.wellFormed_ofInt_of_isWord h raw,
    Value.inMemory_ofInt (Ty.facts_of_isWord h).2.2.1 raw, ?_⟩⟩, ?_⟩
  · obtain ⟨n, hn, hin, hcongruent⟩ := Value.toInt?_ofInt_of_isWord arch h raw
    refine ⟨n, hn, fun m => ⟨fun ⟨hm, hdvd⟩ => ?_, fun hm => hm ▸ ⟨hin, hcongruent⟩⟩⟩
    have hsub := Int.dvd_sub hdvd hcongruent
    rw [show m - raw - (n - raw) = m - n by omega] at hsub
    exact IntRange.eq_of_dvd (IntRange.ofWidth_length _ h1) hm hin hsub
  · rintro v rfl hv hm middle hmiddle
    refine ⟨fun last hlast hle => Value.convert_convert hmiddle hlast hle v, fun hle => ?_⟩
    have hback := Value.convert_back h hv hm hmiddle hle
    have hconverted : (v.convert (ofArch arch) middle).type.restsOn ScalarType.isWord := by
      rwa [Value.convert_type]
    refine ⟨hback, cast_of_isWord h hmiddle, ?_⟩
    rw [cast_of_isWord hconverted h, hback]

/-- A pointer near the end of memory is a negative `int`, which leads back to it. -/
theorem conversions_compose_negative :
    let target := ofArch .i686
    let e : Ty := .enumeration ⟨"E", .int, true⟩
    let v : Value := .pointer (.scalar .double) 0xFFFFFFFE
    (v.convert target e).toInt? = some (-2)
      ∧ target.cast v e = .ok (.clean (v.convert target e))
      ∧ target.cast (v.convert target e) v.type = .ok (.clean v) := by
  intro target e v
  have hpointer : v.type.restsOn ScalarType.isWord := rfl
  obtain ⟨-, hwords⟩ := conversions_compose .i686 hpointer
  obtain ⟨-, hback⟩ := hwords v rfl (by decide +kernel) (by decide +kernel) e rfl
  exact ⟨by decide +kernel, (hback (by decide)).2⟩

end Target

end Assay
