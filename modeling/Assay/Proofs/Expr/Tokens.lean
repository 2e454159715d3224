import Assay.Proofs.Decimal.Spelling
import Assay.Proofs.Expr.IntegerLiteral

/-!
# Tokens stay apart

No operand ends in a sign or in `&`, and where one begins with the character in front of it a space
is written in between. So no text has two minus or plus signs next to each other, and two `&` only
where it has the operator `&&` (`text_occurrences`).
-/

namespace Assay

/-! ## Counting -/

/-- At how many places of a text a pattern that is not empty stands. -/
def occurrences (pattern : List Char) : List Char → ℕ
  | [] => 0
  | c :: cs => (if pattern <+: c :: cs then 1 else 0) + occurrences pattern cs

section Occurrences

variable {pattern cs a b : List Char} {c : Char}

theorem occurrences_eq_zero_iff (hp : pattern ≠ []) :
    occurrences pattern cs = 0 ↔ ¬ pattern <:+: cs := by
  induction cs with
  | nil => simp [occurrences, hp]
  | cons c cs ih =>
    rw [occurrences, Nat.add_eq_zero_iff, ih, List.infix_cons_iff]
    split_ifs with h <;> simp [h]

/-- Repetitions of a character do not go past a place where another one stands on either side. -/
theorem replicate_prefix_append_iff (ha : a ≠ []) (h : a.getLast? ≠ some c ∨ b.head? ≠ some c)
    (n : ℕ) : List.replicate n c <+: a ++ b ↔ List.replicate n c <+: a := by
  refine ⟨fun hprefix => ?_, fun hprefix => hprefix.trans (List.prefix_append a b)⟩
  rcases List.prefix_or_prefix_of_prefix hprefix (List.prefix_append a b) with hin | ⟨rest, hpast⟩
  · exact hin
  · have hall : ∀ d ∈ a ++ rest, d = c := fun d hd => List.eq_of_mem_replicate (hpast ▸ hd)
    rw [← hpast, List.prefix_append_right_inj] at hprefix
    cases rest with
    | nil => exact ⟨[], by rw [← hpast, List.append_nil, List.append_nil]⟩
    | cons d rest =>
      obtain ⟨after, rfl⟩ := hprefix
      rcases h with hlast | hhead
      · rw [List.getLast?_eq_getLast_of_ne_nil ha,
          hall _ (List.mem_append_left _ (List.getLast_mem ha))] at hlast
        exact absurd rfl hlast
      · rw [hall d (List.mem_append_right _ List.mem_cons_self)] at hhead
        exact absurd rfl hhead

theorem occurrences_append (h : a.getLast? ≠ some c ∨ b.head? ≠ some c) (n : ℕ) :
    occurrences (List.replicate n c) (a ++ b) =
      occurrences (List.replicate n c) a + occurrences (List.replicate n c) b := by
  induction a with
  | nil => simp [occurrences]
  | cons d a ih =>
    have hrest : a.getLast? ≠ some c ∨ b.head? ≠ some c := by
      cases a with
      | nil => exact .inl (by simp)
      | cons _ _ => exact h
    have hrun := replicate_prefix_append_iff (List.cons_ne_nil d a) h n
    rw [List.cons_append] at hrun ⊢
    rw [occurrences, occurrences, ih hrest, Nat.add_assoc]
    simp only [hrun]

end Occurrences

/-- Whether two of the character next to each other are another token. -/
def isJoining (c : Char) : Bool := c = '-' || c = '+' || c = '&'

/-- Whether a text has no joining characters. -/
def isPlain (cs : List Char) : Bool := cs.all fun c => !isJoining c

theorem isPlain_iff {cs : List Char} : isPlain cs ↔ ∀ c ∈ cs, isJoining c = false := by
  simp [isPlain]

/-- No sign stands next to the same sign, and two `&` stand together in so many places, in none of
them three. -/
structure Repeats (cs : List Char) (ands : ℕ) : Prop where
  minus : occurrences (List.replicate 2 '-') cs = 0
  plus : occurrences (List.replicate 2 '+') cs = 0
  ands : occurrences (List.replicate 2 '&') cs = ands
  triple : occurrences (List.replicate 3 '&') cs = 0

namespace Repeats

variable {a b : List Char} {m n : ℕ} {c : Char}

theorem append (ha : Repeats a m) (hb : Repeats b n)
    (h : ∀ c, isJoining c → a.getLast? ≠ some c ∨ b.head? ≠ some c) : Repeats (a ++ b) (m + n) := by
  have hminus := h '-' rfl
  have hplus := h '+' rfl
  have hand := h '&' rfl
  refine ⟨?_, ?_, ?_, ?_⟩
  · rw [occurrences_append hminus, ha.minus, hb.minus]
  · rw [occurrences_append hplus, ha.plus, hb.plus]
  · rw [occurrences_append hand, ha.ands, hb.ands]
  · rw [occurrences_append hand, ha.triple, hb.triple]

theorem singleton (c : Char) : Repeats [c] 0 := by
  constructor <;> simp [occurrences, List.replicate]

/-- A character stays apart from a text if it joins nothing or the text does not begin with it. -/
theorem cons (h : Repeats a n) (hc : isJoining c = false ∨ a.head? ≠ some c) :
    Repeats (c :: a) n := by
  have happend := (singleton c).append h fun d hd => by
    by_cases hcd : c = d
    · rcases hc with hplain | hhead
      · rw [hcd, hd] at hplain
        cases hplain
      · exact .inr (hcd ▸ hhead)
    · exact .inl (by simpa using hcd)
  rwa [Nat.zero_add] at happend

end Repeats

/-- Nothing that follows the text joins its last character. -/
def Closed (cs : List Char) : Prop := ∃ c ∈ cs.getLast?, isJoining c = false

theorem Closed.getLast?_ne {cs : List Char} (h : Closed cs) {c : Char} (hc : isJoining c) :
    cs.getLast? ≠ some c := by
  obtain ⟨d, hd, hplain⟩ := h
  rintro hlast
  rw [Option.mem_def, hlast] at hd
  obtain rfl := Option.some.inj hd
  rw [hplain] at hc
  cases hc

theorem Closed.append {b : List Char} (h : Closed b) (a : List Char) : Closed (a ++ b) := by
  obtain ⟨d, hd, hplain⟩ := h
  exact ⟨d, by rw [List.getLast?_append, Option.mem_def.mp hd]; rfl, hplain⟩

/-- The text keeps tokens apart, its last one also from what follows. -/
structure Separated (cs : List Char) (ands : ℕ) : Prop where
  repeats : Repeats cs ands
  closed : Closed cs

namespace Separated

variable {a b : List Char} {m n : ℕ} {c : Char}

theorem ne_nil (h : Separated a n) : a ≠ [] := by
  rintro rfl
  obtain ⟨c, hc, -⟩ := h.closed
  cases hc

theorem cons (h : Separated a n) (hc : isJoining c = false ∨ a.head? ≠ some c) :
    Separated (c :: a) n := by
  refine ⟨h.repeats.cons hc, ?_⟩
  obtain ⟨d, rest, rfl⟩ := List.exists_cons_of_ne_nil h.ne_nil
  exact h.closed

theorem append (ha : Separated a m) (hb : Separated b n) : Separated (a ++ b) (m + n) :=
  ⟨ha.repeats.append hb.repeats fun _ hc => .inl (ha.closed.getLast?_ne hc), hb.closed.append a⟩

theorem plain_append (h : isPlain a) (hb : Separated b n) : Separated (a ++ b) n := by
  rw [isPlain_iff] at h
  induction a with
  | nil => exact hb
  | cons c a ih =>
    have hrest := ih fun d hd => h d (List.mem_cons_of_mem c hd)
    exact hrest.cons (.inl (h c List.mem_cons_self))

theorem of_plain (ha : a ≠ []) (h : isPlain a) : Separated a 0 := by
  obtain ⟨front, last, rfl⟩ := (List.eq_nil_or_concat a).resolve_left ha
  rw [isPlain, List.concat_eq_append, List.all_append, Bool.and_eq_true] at h
  rw [List.concat_eq_append]
  exact plain_append h.1 ⟨.singleton last, last, rfl, by simpa using h.2⟩

theorem string {s t : String} (hs : Separated s.toList m) (ht : Separated t.toList n) :
    Separated (s ++ t).toList (m + n) := by
  rw [String.toList_append]
  exact hs.append ht

theorem append_plain (ha : Separated a n) (h : isPlain b) : Separated (a ++ b) n := by
  rcases eq_or_ne b [] with rfl | hne
  · rwa [List.append_nil]
  · exact ha.append (of_plain hne h)

end Separated

/-! ## Leaves -/

theorem not_isJoining_of_isWordChar {c : Char} (h : isWordChar c) : isJoining c = false := by
  unfold isJoining
  by_contra hjoins
  simp only [Bool.not_eq_false, Bool.or_eq_true, decide_eq_true_eq] at hjoins
  rcases hjoins with (rfl | rfl) | rfl <;> revert h <;> decide

theorem separated_of_isIdentifier {name : String} (h : isIdentifier name) :
    Separated name.toList 0 := by
  obtain ⟨c, rest, hname, -⟩ := isWordStart_of_isIdentifier h
  refine .of_plain (by simp [hname]) (isPlain_iff.mpr fun c hc => ?_)
  exact not_isJoining_of_isWordChar (isWordChar_of_isIdentifier h c hc)

theorem not_isJoining_digitChar : ∀ d < 16, isJoining (Nat.digitChar d) = false := by decide

theorem not_isJoining_of_mem_toDigits {b n : ℕ} (hb : 1 < b) (hb' : b ≤ 16) {c : Char}
    (hc : c ∈ Nat.toDigits b n) : isJoining c = false := by
  obtain ⟨d, hd, rfl⟩ := Digits.exists_digitChar_of_mem_toDigits hb hc
  exact not_isJoining_digitChar d (by omega)

theorem IntegerLiteral.separated_text (literal : IntegerLiteral) :
    Separated literal.text.toList 0 := by
  have hnumber (base : Base) : Separated (Nat.toDigits base.radix literal.value.toNat) 0 :=
    .of_plain Nat.toDigits_ne_nil <| isPlain_iff.mpr fun _ =>
      not_isJoining_of_mem_toDigits base.radix_bounds.1 base.radix_bounds.2
  have hzero : isJoining '0' = false := rfl
  have hdigits : Separated literal.digits.toList 0 := by
    cases hbase : literal.base with
    | binary =>
      have hmark : isJoining 'b' = false := rfl
      have hmarked := ((hnumber .binary).cons (.inl hmark)).cons (.inl hzero)
      simpa [digits, hbase, Base.radix] using hmarked
    | hexadecimal =>
      have hmark : isJoining 'x' = false := rfl
      have hmarked := ((hnumber .hexadecimal).cons (.inl hmark)).cons (.inl hzero)
      simpa [digits, hbase, Base.radix] using hmarked
    | octal =>
      by_cases h : literal.value = 0
      · simpa [digits, hbase, h, Base.radix] using hnumber .octal
      · simpa [digits, hbase, h, Base.radix] using (hnumber .octal).cons (.inl hzero)
    | decimal => simpa [digits, hbase, Base.radix] using hnumber .decimal
  have hsuffix : isPlain literal.suffix.toList := by
    obtain ⟨value, base, length, isUnsigned⟩ := literal
    cases length <;> cases isUnsigned <;> simp [suffix, isPlain, isJoining]
  rw [text, String.toList_append]
  exact hdigits.append_plain hsuffix

theorem not_isJoining_of_isDigit {c : Char} (h : c.isDigit) : isJoining c = false :=
  not_isJoining_of_isWordChar (by simp [isWordChar, Char.isAlphanum, h])

theorem separated_toDigits (n : ℕ) : Separated (Nat.toDigits 10 n) 0 :=
  .of_plain Nat.toDigits_ne_nil <| isPlain_iff.mpr fun _ hc =>
    not_isJoining_of_isDigit (isDigit_of_mem_toDigits hc)

theorem head?_ne_minus {cs : List Char} (h : ∃ c rest, cs = c :: rest ∧ c.isDigit) :
    cs.head? ≠ some '-' := by
  obtain ⟨c, rest, rfl, hc⟩ := h
  intro hminus
  obtain rfl := Option.some.inj hminus
  cases hc

theorem separated_repr (k : ℤ) : Separated k.repr.toList 0 := by
  rw [Int.repr_eq_if]
  split_ifs
  · simpa using separated_toDigits k.toNat
  · obtain ⟨c, rest, hdigits⟩ := List.exists_cons_of_ne_nil
      (Nat.toDigits_ne_nil (n := (-k).toNat) (b := 10))
    have hc : c ∈ Nat.toDigits 10 (-k).toNat := hdigits ▸ List.mem_cons_self
    have hhead := head?_ne_minus ⟨c, rest, hdigits, isDigit_of_mem_toDigits hc⟩
    simpa using (separated_toDigits (-k).toNat).cons (.inr hhead)

/-- Of a spelled number only the exponent may have a sign, which stands behind the `e`. -/
theorem Spelling.Proper.separated {s : Spelling} (h : s.Proper) : Separated s.chars 0 := by
  have hwhole : Separated s.whole 0 :=
    .of_plain h.whole_ne_nil <| isPlain_iff.mpr fun c hc =>
      not_isJoining_of_isDigit (h.whole_digits c hc)
  have hfraction : isPlain s.fractionChars := by
    rw [isPlain_iff]
    unfold fractionChars
    cases hf : s.fraction with
    | none => simp
    | some digits =>
      exact List.forall_mem_cons.mpr
        ⟨rfl, fun c hc => not_isJoining_of_isDigit (h.fraction_digits digits hf c hc)⟩
  have hdigits := hwhole.append_plain hfraction
  unfold chars exponentChars
  cases s.exponent with
  | none => simpa using hdigits
  | some k =>
    have he : isJoining 'e' = false := rfl
    simpa using hdigits.append ((separated_repr k).cons (.inl he))

theorem Binary64.separated_text (x : Binary64) : Separated (x.text .literal).toList 0 := by
  have hminus {text : String} (h : Separated text.toList 0)
      (hhead : text.toList.head? ≠ some '-') (x : Binary64) :
      Separated ((if x.isNegative then "-" else "") ++ text).toList 0 := by
    split
    · simpa using h.cons (.inr hhead)
    · simpa using h
  cases x with
  | nan => exact .of_plain (by decide) (by decide)
  | infinite negative =>
    have hword : Separated "inf".toList 0 := .of_plain (by decide) (by decide)
    exact hminus hword (by decide) _
  | finite negative units fits =>
    obtain ⟨s, hs⟩ := magnitude_literal_spelled fits
    have hmagnitude := hs.proper.separated
    have hhead := head?_ne_minus hs.proper.head_isDigit
    rw [hs.chars_eq] at hmagnitude hhead
    exact hminus hmagnitude hhead _

theorem FloatingLiteral.separated_text (literal : FloatingLiteral) :
    Separated literal.text.toList 0 := by
  rw [text, String.toList_append]
  refine literal.value.separated_text.append_plain ?_
  cases literal.isSingle <;> simp [isPlain, isJoining]

/-! ## Types -/

theorem Qualifiers.isPlain_leading (cv : Qualifiers) : isPlain cv.leading.toList := by
  obtain ⟨_ | _, _ | _⟩ := cv <;> decide +kernel

theorem Qualifiers.isPlain_trailing (cv : Qualifiers) : isPlain cv.trailing.toList := by
  obtain ⟨_ | _, _ | _⟩ := cv <;> decide +kernel

namespace SourceType

/-- Whether tags are identifiers and no reference refers to a reference, at every level. -/
def isPrintable : SourceType → Bool
  | scalar .. => true
  | tagged name _ => isIdentifier name
  | pointer pointee _ => pointee.isPrintable
  | reference referee _ => !referee.isReference && referee.isPrintable

/-- A type keeps tokens apart; only the mark of a reference could be joined by what follows. -/
theorem repeats_text {t : SourceType} (h : t.isPrintable) :
    Repeats t.text.toList 0 ∧ (t.isReference = false → Closed t.text.toList) := by
  have hbase {name : String} (hname : Separated name.toList 0) (cv : Qualifiers) :
      Separated (cv.leading ++ name).toList 0 := by
    rw [String.toList_append]
    exact hname.plain_append cv.isPlain_leading
  induction t with
  | scalar s cv =>
    have hname : Separated s.name.toList 0 := by
      cases s <;> exact .of_plain (by decide) (by decide)
    exact ⟨(hbase hname cv).repeats, fun _ => (hbase hname cv).closed⟩
  | tagged name cv =>
    have hname := separated_of_isIdentifier h
    exact ⟨(hbase hname cv).repeats, fun _ => (hbase hname cv).closed⟩
  | pointer pointee cv ih =>
    have hstar : Separated ("*" ++ cv.trailing).toList 0 := by
      have hmark : Separated ['*'] 0 := .of_plain (by decide) (by decide)
      simpa using hmark.append_plain cv.isPlain_trailing
    rw [text, String.append_assoc, String.toList_append]
    refine ⟨(ih h).1.append hstar.repeats fun c hc => .inr fun hhead => ?_, fun _ => ?_⟩
    · have hstart : ("*" ++ cv.trailing).toList.head? = some '*' := by simp
      obtain rfl := Option.some.inj (hstart.symm.trans hhead)
      cases hc
    · exact hstar.closed.append _
  | reference referee cv ih =>
    rw [isPrintable, Bool.and_eq_true, Bool.not_eq_true'] at h
    obtain ⟨hrepeats, hclosed⟩ := ih h.2
    rw [text, String.toList_append]
    exact ⟨hrepeats.append (.singleton '&') fun c hc => .inl ((hclosed h.1).getLast?_ne hc), nofun⟩

/-- A type in parentheses. -/
theorem separated_paren {t : SourceType} (h : t.isPrintable) :
    Separated ("(" ++ t.text ++ ")").toList 0 := by
  have hclosing := (repeats_text h).1.append (.singleton ')') fun c hc => .inr fun hhead => by
    obtain rfl := Option.some.inj hhead
    cases hc
  have hparen : Separated (t.text.toList ++ [')']) 0 := ⟨hclosing, .append ⟨_, rfl, rfl⟩ _⟩
  have hopening : isJoining '(' = false := rfl
  simpa using hparen.cons (.inl hopening)

end SourceType

/-! ## Expressions -/

namespace Expr

/-- Whether the names are identifiers, those in types too, and no type refers to a reference. -/
def isPrintable : Expr → Bool
  | integer _ | floating _ | boolean _ => true
  | var name => isIdentifier name
  | unary _ e | addressOf e | dereference e | paren e => e.isPrintable
  | binary _ e f | index e f => e.isPrintable && f.isPrintable
  | member e field | memberOfPointer e field => e.isPrintable && isIdentifier field
  | conditional e f g => e.isPrintable && f.isPrintable && g.isPrintable
  | cast type e => type.isPrintable && e.isPrintable

/-- How many nodes are conjunctions. -/
def conjunctions : Expr → ℕ
  | integer _ | floating _ | boolean _ | var _ => 0
  | unary _ e | addressOf e | dereference e | paren e | member e _ | memberOfPointer e _
  | cast _ e => e.conjunctions
  | binary op e f => e.conjunctions + (if op = .logicalAnd then 1 else 0) + f.conjunctions
  | index e f => e.conjunctions + f.conjunctions
  | conditional e f g => e.conjunctions + f.conjunctions + g.conjunctions

/-- A mark stays apart from its operand, if only because of the space in between. -/
theorem separated_marked {mark operand : String} {c : Char} {n : ℕ} {merges : Bool}
    (hmark : mark.toList = [c]) (h : Separated operand.toList n) (hm : isJoining c → merges) :
    Separated (marked mark operand merges).toList n := by
  have hspace : isJoining ' ' = false := rfl
  unfold marked
  split
  · have hgap : (mark ++ " " ++ operand).toList = c :: ' ' :: operand.toList := by simp [hmark]
    rw [hgap]
    refine (h.cons (.inl hspace)).cons ?_
    by_cases hc : c = ' '
    · exact .inl (hc ▸ hspace)
    · exact .inr (by simpa using Ne.symm hc)
  · rename_i hstart
    rw [String.toList_append, hmark]
    refine h.cons ?_
    cases hc : isJoining c with
    | false => exact .inl rfl
    | true =>
      refine .inr fun hhead => hstart ?_
      obtain ⟨rest, hrest⟩ := List.head?_eq_some_iff.mp hhead
      rw [hm hc, Bool.true_and, String.startsWith_string_iff, hmark, hrest]
      exact ⟨rest, rfl⟩

/-- An operator stands between spaces. -/
theorem separated_operator (op : BinaryOp) :
    Separated (" " ++ op.symbol ++ " ").toList (if op = .logicalAnd then 1 else 0) := by
  cases op <;> refine ⟨⟨?_, ?_, ?_, ?_⟩, ' ', ?_, rfl⟩ <;> decide +kernel

theorem separated_text {e : Expr} (h : e.isPrintable) : Separated e.text.toList e.conjunctions := by
  have plain (s : String) (hs : s.toList ≠ [] ∧ isPlain s.toList) :
      Separated s.toList 0 := .of_plain hs.1 hs.2
  induction e with
  | integer literal => exact literal.separated_text
  | floating literal => exact literal.separated_text
  | boolean value => cases value <;> exact plain _ (by decide)
  | var name => exact separated_of_isIdentifier h
  | unary op e ih =>
    obtain ⟨c, hsymbol, hsign⟩ : ∃ c, op.symbol.toList = [c] ∧ (isJoining c → op.isSign) := by
      cases op <;> exact ⟨_, rfl, by decide⟩
    exact separated_marked hsymbol (ih h) hsign
  | binary op e f ihe ihf =>
    obtain ⟨he, hf⟩ := Bool.and_eq_true_iff.mp h
    have htext : (binary op e f).text = e.text ++ (" " ++ op.symbol ++ " ") ++ f.text := by
      simp [text, String.append_assoc]
    rw [htext]
    exact ((ihe he).string (separated_operator op)).string (ihf hf)
  | addressOf e ih => exact separated_marked rfl (ih h) fun _ => rfl
  | dereference e ih => simpa [text, conjunctions] using (plain "*" (by decide)).string (ih h)
  | member e field ih =>
    obtain ⟨he, hfield⟩ := Bool.and_eq_true_iff.mp h
    exact ((ih he).string (plain "." (by decide))).string (separated_of_isIdentifier hfield)
  | memberOfPointer e field ih =>
    obtain ⟨he, hfield⟩ := Bool.and_eq_true_iff.mp h
    have harrow : Separated "->".toList 0 := (plain ">" (by decide)).cons (.inr (by decide))
    exact ((ih he).string harrow).string (separated_of_isIdentifier hfield)
  | index e f ihe ihf =>
    obtain ⟨he, hf⟩ := Bool.and_eq_true_iff.mp h
    exact (((ihe he).string (plain "[" (by decide))).string (ihf hf)).string (plain "]" (by decide))
  | conditional e f g ihe ihf ihg =>
    obtain ⟨hef, hg⟩ := Bool.and_eq_true_iff.mp h
    obtain ⟨he, hf⟩ := Bool.and_eq_true_iff.mp hef
    exact ((((ihe he).string (plain " ? " (by decide))).string (ihf hf)).string
      (plain " : " (by decide))).string (ihg hg)
  | cast type e ih =>
    obtain ⟨ht, he⟩ := Bool.and_eq_true_iff.mp h
    simpa [text, conjunctions] using (SourceType.separated_paren ht).string (ih he)
  | paren e ih =>
    simpa [text, conjunctions] using
      ((plain "(" (by decide)).string (ih h)).string (plain ")" (by decide))

/-- Signs and ampersands stay apart in the text of an expression, whatever its operands begin with.
Two `&` stand together once for every conjunction, and never three. -/
theorem text_occurrences {e : Expr} (h : e.isPrintable) :
    ¬ "--".toList <:+: e.text.toList ∧ ¬ "++".toList <:+: e.text.toList
      ∧ occurrences "&&".toList e.text.toList = e.conjunctions
      ∧ ¬ "&&&".toList <:+: e.text.toList := by
  obtain ⟨hminus, hplus, hands, htriple⟩ := (separated_text h).repeats
  exact ⟨(occurrences_eq_zero_iff (by decide)).mp hminus,
    (occurrences_eq_zero_iff (by decide)).mp hplus, hands,
    (occurrences_eq_zero_iff (by decide)).mp htriple⟩

/-- Minus a negative number, and the address of an address beside a conjunction, in a cast. -/
theorem text_occurrences_nested :
    let e : Expr := .cast (.reference (.pointer (.tagged "S" .none) .none) .none)
      (.binary .logicalAnd (.unary .neg (.floating ⟨.infinite true, true⟩))
        (.addressOf (.addressOf (.var "x"))))
    e.text = "(S*&)- -inff && & &x" ∧ occurrences "&&".toList e.text.toList = 1 := by
  intro e
  exact ⟨by decide +kernel, (text_occurrences (by decide +kernel : e.isPrintable)).2.2.1⟩

end Expr

end Assay
