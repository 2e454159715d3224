import Assay.Digits
import Assay.Expr.Printer
import Assay.Proofs.Evaluation.Literal

/-!
# Integer literals read back

What an integer literal begins with announces a base, the digits of that base denote a number, and
the rest is the suffix (`IntegerLiteral.meaning?`). The text of a literal has the value, the length
and the signedness of the literal (`meaning?_text`). It tells the base too, but for zero: `0` is
written for the decimal and the octal one, which evaluate alike (`text_keeps_meaning`).
-/

namespace Assay

/-! ## Reading -/

/-- How many digits a base has. -/
def Base.radix : Base → Nat
  | .binary => 2
  | .octal => 8
  | .decimal => 10
  | .hexadecimal => 16

theorem Base.radix_bounds (base : Base) : 1 < base.radix ∧ base.radix ≤ 16 := by
  cases base <;> decide

/-- Whether a character is a digit of a base. -/
def Base.isDigit (base : Base) (c : Char) : Bool := (Digits.hexValue? c).any (· < base.radix)

theorem Base.isDigit_of_mem_toDigits {base : Base} {n : Nat} {c : Char}
    (hc : c ∈ Nat.toDigits base.radix n) : base.isDigit c := by
  obtain ⟨d, hd, rfl⟩ := Digits.exists_digitChar_of_mem_toDigits base.radix_bounds.1 hc
  rw [isDigit, Digits.hexValue?_digitChar d (hd.trans_le base.radix_bounds.2)]
  exact decide_eq_true hd

namespace IntegerLiteral

/-- What the text of an integer literal says. -/
structure Meaning where
  /-- The base that the text announces. -/
  base : Base
  value : Nat
  length : Length
  isUnsigned : Bool
deriving DecidableEq

/-- The base that a literal's text announces, and the text from the digits on. The zero that
announces octal digits is one itself. -/
def announced : List Char → Base × List Char
  | '0' :: 'x' :: rest => (.hexadecimal, rest)
  | '0' :: 'b' :: rest => (.binary, rest)
  | '0' :: rest => (.octal, '0' :: rest)
  | cs => (.decimal, cs)

/-- The length and the signedness that a suffix asks for. -/
def suffix? : List Char → Option (Length × Bool)
  | [] => some (.int, false)
  | ['L'] => some (.long, false)
  | ['L', 'L'] => some (.longLong, false)
  | ['U'] => some (.int, true)
  | ['U', 'L'] => some (.long, true)
  | ['U', 'L', 'L'] => some (.longLong, true)
  | _ => none

/-- What digits of a base with a suffix say. -/
def meaningIn? (base : Base) (cs : List Char) : Option Meaning :=
  let digits := cs.takeWhile base.isDigit
  if digits.isEmpty then none
  else (suffix? (cs.dropWhile base.isDigit)).map fun (length, isUnsigned) =>
    ⟨base, Digits.number base.radix digits, length, isUnsigned⟩

/-- What a text says as an integer literal, if it is one. -/
def meaning? (text : String) : Option Meaning :=
  let (base, cs) := announced text.toList
  meaningIn? base cs

theorem announced_octal {cs : List Char} (h : ∀ c ∈ cs.head?, c ≠ 'x' ∧ c ≠ 'b') :
    announced ('0' :: cs) = (.octal, '0' :: cs) := by
  rcases cs with _ | ⟨c, cs⟩
  · rfl
  · obtain ⟨hx, hb⟩ := h c rfl
    simp [announced, hx, hb]

theorem announced_decimal {cs : List Char} (h : cs.head? ≠ some '0') :
    announced cs = (.decimal, cs) := by
  rcases cs with _ | ⟨c, cs⟩
  · rfl
  · have hc : c ≠ '0' := by simpa using h
    simp [announced, hc]

variable {literal : IntegerLiteral}

theorem suffix?_suffix (literal : IntegerLiteral) :
    suffix? literal.suffix.toList = some (literal.length, literal.isUnsigned) := by
  obtain ⟨value, base, length, isUnsigned⟩ := literal
  cases length <;> cases isUnsigned <;> simp [suffix, suffix?]

theorem head?_suffix (literal : IntegerLiteral) :
    ∀ c ∈ literal.suffix.toList.head?, c = 'U' ∨ c = 'L' := by
  obtain ⟨value, base, length, isUnsigned⟩ := literal
  cases length <;> cases isUnsigned <;> simp [suffix]

theorem not_isDigit_suffix (base : Base) {c : Char} (hc : c = 'U' ∨ c = 'L') :
    base.isDigit c = false := by
  obtain rfl | rfl := hc <;> cases base <;> rfl

theorem meaningIn?_append {base : Base} {digits : List Char} (hne : digits ≠ [])
    (hdigits : ∀ c ∈ digits, base.isDigit c) (literal : IntegerLiteral) :
    meaningIn? base (digits ++ literal.suffix.toList) =
      some ⟨base, Digits.number base.radix digits, literal.length, literal.isUnsigned⟩ := by
  have hend : literal.suffix.toList.takeWhile base.isDigit = []
      ∧ literal.suffix.toList.dropWhile base.isDigit = literal.suffix.toList := by
    have hhead := literal.head?_suffix
    rcases hs : literal.suffix.toList with _ | ⟨c, cs⟩ <;> rw [hs] at hhead
    · exact ⟨rfl, rfl⟩
    · simp [not_isDigit_suffix base (hhead c rfl)]
  rw [meaningIn?, List.takeWhile_append_of_pos hdigits, List.dropWhile_append_of_pos hdigits,
    hend.1, hend.2, List.append_nil, suffix?_suffix]
  simp [hne]

theorem meaningIn?_toDigits (base : Base) (n : Nat) (literal : IntegerLiteral) :
    meaningIn? base (Nat.toDigits base.radix n ++ literal.suffix.toList) =
      some ⟨base, n, literal.length, literal.isUnsigned⟩ := by
  rw [meaningIn?_append Nat.toDigits_ne_nil (fun _ => base.isDigit_of_mem_toDigits),
    Digits.number_toDigits base.radix_bounds.1 base.radix_bounds.2]

/-- A zero in front makes an octal number of octal digits. -/
theorem meaning?_octal {text : String} {digits : List Char}
    (htext : text.toList = '0' :: digits ++ literal.suffix.toList)
    (hdigits : ∀ c ∈ digits, Base.octal.isDigit c) :
    meaning? text =
      some ⟨.octal, Digits.number 8 digits, literal.length, literal.isUnsigned⟩ := by
  have hmark : ∀ c ∈ (digits ++ literal.suffix.toList).head?, c ≠ 'x' ∧ c ≠ 'b' := by
    intro c hc
    rcases digits with _ | ⟨d, digits⟩
    · rcases literal.head?_suffix c hc with rfl | rfl <;> decide
    · obtain rfl : d = c := Option.some.inj hc
      have hd := hdigits d List.mem_cons_self
      constructor <;> rintro rfl <;> cases hd
  rw [meaning?, htext, List.cons_append, announced_octal hmark]
  have hall : ∀ c ∈ '0' :: digits, Base.octal.isDigit c :=
    List.forall_mem_cons.mpr ⟨rfl, hdigits⟩
  exact meaningIn?_append (List.cons_ne_nil _ _) hall literal

/-- The text of a literal says what the literal is, but for the base of a decimal zero. -/
theorem meaning?_text (literal : IntegerLiteral) :
    ∃ base, meaning? literal.text =
        some ⟨base, literal.value.toNat, literal.length, literal.isUnsigned⟩
      ∧ (base = literal.base
          ∨ literal.value = 0 ∧ literal.base = .decimal ∧ base = .octal) := by
  have hzero : literal.value = 0 ↔ literal.value.toNat = 0 := by
    rw [← UInt64.toNat_inj]
    rfl
  cases hbase : literal.base with
  | hexadecimal =>
    have htext : literal.text.toList =
        '0' :: 'x' :: (Nat.toDigits 16 literal.value.toNat ++ literal.suffix.toList) := by
      simp [text, digits, hbase]
    refine ⟨.hexadecimal, ?_, .inl rfl⟩
    rw [meaning?, htext]
    exact meaningIn?_toDigits .hexadecimal _ literal
  | binary =>
    have htext : literal.text.toList =
        '0' :: 'b' :: (Nat.toDigits 2 literal.value.toNat ++ literal.suffix.toList) := by
      simp [text, digits, hbase]
    refine ⟨.binary, ?_, .inl rfl⟩
    rw [meaning?, htext]
    exact meaningIn?_toDigits .binary _ literal
  | octal =>
    refine ⟨.octal, ?_, .inl rfl⟩
    by_cases h : literal.value = 0
    · have htext : literal.text.toList = '0' :: [] ++ literal.suffix.toList := by
        simp [text, digits, hbase, h]
      rw [meaning?_octal htext (by simp), hzero.mp h]
      rfl
    · have htext : literal.text.toList =
          '0' :: Nat.toDigits 8 literal.value.toNat ++ literal.suffix.toList := by
        simp [text, digits, hbase, h]
      rw [meaning?_octal htext fun _ => Base.octal.isDigit_of_mem_toDigits,
        Digits.number_toDigits (by decide) (by decide)]
  | decimal =>
    have htext : literal.text.toList =
        Nat.toDigits 10 literal.value.toNat ++ literal.suffix.toList := by
      simp [text, digits, hbase]
    by_cases h : literal.value = 0
    · refine ⟨.octal, ?_, .inr ⟨h, rfl, rfl⟩⟩
      have hmeaning : meaning? literal.text =
          some ⟨.octal, Digits.number 8 [], literal.length, literal.isUnsigned⟩ :=
        meaning?_octal (by rw [htext, hzero.mp h]; rfl) (by simp)
      rw [hmeaning, hzero.mp h]
      rfl
    · refine ⟨.decimal, ?_, .inl rfl⟩
      have hhead : (Nat.toDigits 10 literal.value.toNat ++ literal.suffix.toList).head? ≠
          some '0' := by
        have hdigits := Digits.head?_toDigits_ne_zero (b := 10) (by decide)
          (Nat.pos_of_ne_zero (mt hzero.mpr h))
        obtain ⟨c, cs, hcs⟩ := List.exists_cons_of_ne_nil
          (Nat.toDigits_ne_nil (n := literal.value.toNat) (b := 10))
        rw [hcs] at hdigits ⊢
        exact hdigits
      rw [meaning?, htext, announced_decimal hhead]
      exact meaningIn?_toDigits .decimal _ literal

example : meaning? "0x2aULL" = some ⟨.hexadecimal, 42, .longLong, true⟩ := by
  decide +kernel

/-! ## One text for two literals -/

/-- Two zeros with one suffix, of which one is decimal and the other octal. -/
def ZeroPair (a b : IntegerLiteral) : Prop :=
  a.value = 0 ∧ b.value = 0 ∧ a.length = b.length ∧ a.isUnsigned = b.isUnsigned
    ∧ (a.base = .decimal ∧ b.base = .octal ∨ a.base = .octal ∧ b.base = .decimal)

variable {a b : IntegerLiteral}

theorem suffix_congr (hlength : a.length = b.length) (hunsigned : a.isUnsigned = b.isUnsigned) :
    a.suffix = b.suffix := by
  rw [suffix, suffix, hlength, hunsigned]

theorem ZeroPair.text_eq (h : a.ZeroPair b) : a.text = b.text := by
  have hdigits {c : IntegerLiteral} (hzero : c.value = 0)
      (hbase : c.base = .decimal ∨ c.base = .octal) : c.digits = "0" := by
    rcases hbase with hbase | hbase <;> simp [digits, hzero, hbase]
  obtain ⟨ha, hb, hlength, hunsigned, hbases⟩ := h
  rw [text, text, hdigits ha (hbases.imp And.left And.left),
    hdigits hb (hbases.symm.imp And.right And.right), suffix_congr hlength hunsigned]

theorem text_eq_iff : a.text = b.text ↔ a = b ∨ a.ZeroPair b := by
  refine ⟨fun h => ?_, fun h => h.elim (congrArg text) ZeroPair.text_eq⟩
  obtain ⟨base, ha, hbase⟩ := a.meaning?_text
  obtain ⟨base', hb, hbase'⟩ := b.meaning?_text
  obtain ⟨rfl, hvalue, hlength, hunsigned⟩ : base = base' ∧ a.value.toNat = b.value.toNat
      ∧ a.length = b.length ∧ a.isUnsigned = b.isUnsigned :=
    Meaning.mk.inj (Option.some.inj (ha.symm.trans (h ▸ hb)))
  have hvalue : a.value = b.value := UInt64.toNat_inj.mp hvalue
  have heq (hbases : a.base = b.base) : a = b := by
    obtain ⟨_, _, _, _⟩ := a
    obtain ⟨_, _, _, _⟩ := b
    simp_all
  rcases hbase with rfl | ⟨hzero, hdecimal, rfl⟩ <;>
    rcases hbase' with hbase' | ⟨hzero', hdecimal', hoctal⟩
  · exact .inl (heq hbase')
  · exact .inr ⟨hvalue.trans hzero', hzero', hlength, hunsigned, .inr ⟨hoctal, hdecimal'⟩⟩
  · exact .inr ⟨hzero, hvalue ▸ hzero, hlength, hunsigned, .inl ⟨hdecimal, hbase'.symm⟩⟩
  · exact .inl (heq (hdecimal.trans hdecimal'.symm))

/-- The type that the suffix of a literal asks for. -/
def asked (literal : IntegerLiteral) : ScalarType :=
  if literal.isUnsigned then literal.length.type.unsignedCounterpart else literal.length.type

theorem candidates_eq_asked_cons (literal : IntegerLiteral) :
    ∃ longer, literal.candidates = literal.asked :: longer := by
  obtain ⟨value, base, length, isUnsigned⟩ := literal
  cases base <;> cases length <;> cases isUnsigned <;> exact ⟨_, rfl⟩

/-- A zero has the type that its suffix asks for, whatever the base. -/
theorem type_of_zero (hzero : literal.value = 0) (target : Target) :
    literal.type target = literal.asked := by
  obtain ⟨longer, hlist⟩ := literal.candidates_eq_asked_cons
  have hpromoted := (facts_of_mem_candidates (hlist ▸ List.mem_cons_self)).1
  have hroom := (target.scalarRange_contains_natCast hpromoted.ne_bool 0).mpr (Nat.two_pow_pos _)
  have hfind : (literal.candidates.find? fun s =>
      (target.scalarRange s).contains literal.value.toNat) = some literal.asked := by
    rw [hlist, hzero]
    exact List.find?_cons_of_pos hroom
  rw [type, hfind, Option.getD_some]

theorem toValue_of_text_eq (h : a.text = b.text) (target : Target) :
    a.toValue target = b.toValue target := by
  rcases text_eq_iff.mp h with rfl | ⟨ha, hb, hlength, hunsigned, -⟩
  · rfl
  · rw [toValue, toValue, type_of_zero ha, type_of_zero hb, asked, asked, ha, hb, hlength,
      hunsigned]

/-- The digits of a literal's text, in the base that the text announces, denote the literal's value,
and the suffix its length and signedness. Two literals have one text if they are the same or are a
decimal and an octal zero with one suffix, and only then; they evaluate to one value. -/
theorem text_keeps_meaning (a b : IntegerLiteral) :
    (∃ base, meaning? a.text = some ⟨base, a.value.toNat, a.length, a.isUnsigned⟩
        ∧ (base = a.base ∨ a.value = 0 ∧ a.base = .decimal ∧ base = .octal))
      ∧ (a.text = b.text ↔ a = b ∨ a.ZeroPair b)
      ∧ (a.text = b.text → ∀ (cx : EvalContext) (session : Session), ∃ v,
          (cx.evaluateIn session (.integer a)).1 = .ok ⟨v, .none⟩
            ∧ (cx.evaluateIn session (.integer b)).1 = .ok ⟨v, .none⟩) := by
  refine ⟨a.meaning?_text, text_eq_iff, fun h cx session => ⟨a.toValue cx.target, ?_, ?_⟩⟩
  · exact cx.evaluateIn_integer session a
  · rw [toValue_of_text_eq h]
    exact cx.evaluateIn_integer session b

end IntegerLiteral

end Assay
