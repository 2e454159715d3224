import Assay.Proofs.Decimal.Spelling
import Assay.Proofs.Expr.Chain

/-!
# Reading operands

The first character of an operand tells what kind of operand it is, and a number, a word or a
bracket ends where its characters end. So an operand splits off from what follows it once the
expressions inside it read back (`number_splitsOff`, `word_splitsOff`, `unary_splitsOff`,
`addressOf_splitsOff`, `paren_splitsOff`).
-/

namespace Assay.Expr

/-! ## What operands begin with -/

/-- What the text of an operand begins with. -/
inductive Lead
  | digit | word | sign | ampersand | bracket
deriving DecidableEq

def Lead.ofChar (c : Char) : Option Lead :=
  if c.isDigit then some .digit
  else if isWordStart c then some .word
  else if c = '&' then some .ampersand
  else if c = '(' then some .bracket
  else if c = '+' || c = '-' || c = '!' || c = '~' then some .sign
  else none

/-- What an operand begins with; other expressions begin with their first operand. -/
def lead : Expr → Option Lead
  | integer _ | floating _ => some .digit
  | boolean _ | var _ | member .. | memberOfPointer .. | index .. => some .word
  | unary .. => some .sign
  | addressOf _ => some .ampersand
  | paren _ => some .bracket
  | _ => none

theorem precedence_le_of_lead {e : Expr} {l : Lead} (h : e.lead = some l) :
    e.precedence ≤ unaryPrecedence := by
  cases e <;> simp_all [lead, precedence, primaryPrecedence, memberPrecedence, unaryPrecedence]

theorem text_integer (n : UInt64) :
    (integer { value := n }).text.toList = Nat.toDigits 10 n.toNat := by
  simp [text, IntegerLiteral.text, IntegerLiteral.digits, IntegerLiteral.suffix]

theorem text_floating (units : Nat) (fits : Representable units) :
    (floating ⟨.finite false units fits, false⟩).text = Layout.literal.magnitude units := by
  simp [text, FloatingLiteral.text, Binary64.text, Binary64.isNegative]

theorem marked_toList (mark operand : String) (merges : Bool) :
    ∃ gap : List Char, (gap = [] ∨ gap = [' '])
      ∧ (marked mark operand merges).toList = mark.toList ++ (gap ++ operand.toList) := by
  unfold marked
  split
  · exact ⟨[' '], .inr rfl, by simp⟩
  · exact ⟨[], .inl rfl, by simp⟩

theorem ofChar_of_isDigit {c : Char} (h : c.isDigit) : Lead.ofChar c = some .digit := by
  simp [Lead.ofChar, h]

theorem ofChar_of_isWordStart {c : Char} (h : isWordStart c) : Lead.ofChar c = some .word := by
  simp [Lead.ofChar, h, isDigit_of_isWordStart h]

/-- The word that an operand begins with. -/
def word : Expr → String
  | boolean b => if b then "true" else "false"
  | var name => name
  | member e _ | memberOfPointer e _ | index e _ => e.word
  | _ => ""

/-- What follows the word that an operand begins with. -/
def selector : Expr → List Char
  | member _ field => '.' :: field.toList
  | memberOfPointer _ field => '-' :: '>' :: field.toList
  | index _ e => '[' :: (e.text.toList ++ [']'])
  | _ => []

theorem Readable.text_eq_word_selector {e : Expr} (he : e.Readable) (hl : e.lead = some .word) :
    e.text.toList = e.word.toList ++ e.selector ∧ isIdentifier e.word := by
  cases he <;> simp only [lead, reduceCtorEq, Option.some.injEq] at hl
  case boolean b => cases b <;> exact ⟨rfl, by decide⟩
  case var name h => exact ⟨by simp [text, word, selector], isIdentifier_of_isName h⟩
  case member name field h hf => exact ⟨by simp [text, word, selector], isIdentifier_of_isName h⟩
  case memberOfPointer name field h hf =>
    exact ⟨by simp [text, word, selector], isIdentifier_of_isName h⟩
  case index name e h he => exact ⟨by simp [text, word, selector], isIdentifier_of_isName h⟩

/-- The first character of an operand tells what it begins with. -/
theorem Readable.lead_of_text {e : Expr} (he : e.Readable) {l : Lead} (hl : e.lead = some l) :
    ∃ c rest, e.text.toList = c :: rest ∧ Lead.ofChar c = some l := by
  by_cases hw : l = .word
  · subst hw
    obtain ⟨ht, hi⟩ := he.text_eq_word_selector hl
    obtain ⟨c, rest, hc, hs⟩ := isWordStart_of_isIdentifier hi
    exact ⟨c, rest ++ e.selector, by simp [ht, hc], ofChar_of_isWordStart hs⟩
  cases he <;> simp only [lead, reduceCtorEq, Option.some.injEq] at hl <;> subst hl
  case integer n =>
    obtain ⟨c, rest, hc⟩ := List.exists_cons_of_ne_nil (@Nat.toDigits_ne_nil n.toNat 10)
    rw [text_integer]
    exact ⟨c, rest, hc, ofChar_of_isDigit (isDigit_of_mem_toDigits (hc ▸ List.mem_cons_self))⟩
  case floating units fits =>
    rw [text_floating]
    obtain ⟨-, ⟨c, rest, hc, hd⟩, -⟩ := magnitude_literal_chars fits
    exact ⟨c, rest, hc, ofChar_of_isDigit hd⟩
  case unary op e h bound =>
    obtain ⟨gap, -, ht⟩ := marked_toList op.symbol e.text op.isSign
    rw [text, ht]
    cases op <;> exact ⟨_, _, rfl, by decide⟩
  case addressOf name h =>
    obtain ⟨gap, -, ht⟩ := marked_toList "&" name true
    exact ⟨_, _, ht, by decide⟩
  case paren e h => exact ⟨'(', e.text.toList ++ [')'], by simp [text], by decide⟩
  all_goals exact absurd rfl hw

/-! ## Where operands end -/

/-- What may follow an operand: a space before an operator, a closing bracket, or nothing. -/
def EndsOperand (r : List Char) : Prop := ∀ c ∈ r.head?, c = ' ' ∨ c = ')' ∨ c = ']'

/-- The text tells the expression from any other operand, and where it ends. -/
def SplitsOff (e : Expr) : Prop :=
  ∀ {e' : Expr} {r r' : List Char}, e'.Readable → e'.precedence ≤ unaryPrecedence →
    EndsOperand r → EndsOperand r' → e.text.toList ++ r = e'.text.toList ++ r' → e = e' ∧ r = r'

theorem Readable.exists_lead {e : Expr} (he : e.Readable) (hp : e.precedence ≤ unaryPrecedence) :
    ∃ l, e.lead = some l := by
  cases he
  case binary op e f he hf left right => exact absurd hp (not_le_of_gt (precedence_bounds op).1)
  case conditional => exact absurd hp (by simp [precedence, conditionalPrecedence, unaryPrecedence])
  all_goals exact ⟨_, rfl⟩

/-- Operands with the same text begin with the same. -/
theorem lead_eq {e e' : Expr} (he : e.Readable) {l : Lead} (hl : e.lead = some l)
    (he' : e'.Readable) (hp' : e'.precedence ≤ unaryPrecedence) {r r' : List Char}
    (h : e.text.toList ++ r = e'.text.toList ++ r') : e'.lead = some l := by
  obtain ⟨l', hl'⟩ := he'.exists_lead hp'
  obtain ⟨c, rest, hc, hlc⟩ := he.lead_of_text hl
  obtain ⟨c', rest', hc', hlc'⟩ := he'.lead_of_text hl'
  rw [hc, hc'] at h
  rw [(List.cons.inj h).1, hlc'] at hlc
  rw [hl', hlc]

theorem Readable.isNumberChar_of_mem_text {e : Expr} (he : e.Readable)
    (hl : e.lead = some .digit) : ∀ c ∈ e.text.toList, isNumberChar c := by
  cases he <;> simp only [lead, reduceCtorEq, Option.some.injEq] at hl
  case integer n =>
    intro c hc
    rw [text_integer] at hc
    simp [isNumberChar, isDigit_of_mem_toDigits hc]
  case floating units fits =>
    rw [text_floating]
    exact (magnitude_literal_chars fits).1

theorem integer_text_ne_floating_text (n : UInt64) {units : Nat} (fits : Representable units) :
    (integer { value := n }).text ≠ (floating ⟨.finite false units fits, false⟩).text := by
  intro h
  obtain ⟨c, hc, hd⟩ := (magnitude_literal_chars fits).2.2
  rw [← text_floating units fits, ← h, text_integer] at hc
  rw [isDigit_of_mem_toDigits hc] at hd
  cases hd

/-- Numbers have one text each. -/
theorem number_eq_of_text_eq {e e' : Expr} (he : e.Readable) (hl : e.lead = some .digit)
    (he' : e'.Readable) (hl' : e'.lead = some .digit) (h : e.text = e'.text) : e = e' := by
  cases he <;> simp only [lead, reduceCtorEq, Option.some.injEq] at hl <;>
    cases he' <;> simp only [lead, reduceCtorEq, Option.some.injEq] at hl'
  case integer.integer n n' =>
    have hd : n.toNat = n'.toNat :=
      toDigits_injective (by rw [← text_integer, ← text_integer, h])
    rw [UInt64.toNat_inj.mp hd]
  case integer.floating n units fits => exact absurd h (integer_text_ne_floating_text n fits)
  case floating.integer units fits n =>
    exact absurd h.symm (integer_text_ne_floating_text n fits)
  case floating.floating units fits units' fits' =>
    rw [text_floating, text_floating] at h
    obtain rfl := magnitude_literal_injective fits fits' h
    rfl

theorem isNumberChar_eq_false_of_endsOperand {r : List Char} (hr : EndsOperand r) :
    ∀ c ∈ r.head?, isNumberChar c = false := by
  intro c hc
  rcases hr c hc with rfl | rfl | rfl <;> decide

theorem number_splitsOff {e : Expr} (he : e.Readable) (hl : e.lead = some .digit) :
    SplitsOff e := by
  intro e' r r' he' hp' hr hr' h
  have hl' : e'.lead = some .digit := lead_eq he hl he' hp' h
  obtain ⟨ht, rfl⟩ := stretch_unique (he.isNumberChar_of_mem_text hl)
    (he'.isNumberChar_of_mem_text hl') (isNumberChar_eq_false_of_endsOperand hr)
    (isNumberChar_eq_false_of_endsOperand hr') h
  exact ⟨number_eq_of_text_eq he hl he' hl' (String.toList_inj.mp ht), rfl⟩

/-! ## Where whole expressions end -/

/-- What may follow a whole expression: a closing bracket, a colon that stands apart, or nothing. -/
inductive EndsExpr : List Char → Prop
  | nothing : EndsExpr []
  | paren (r : List Char) : EndsExpr (')' :: r)
  | bracket (r : List Char) : EndsExpr (']' :: r)
  | colon (r : List Char) : EndsExpr (' ' :: ':' :: ' ' :: r)

/-- What may follow an operator chain: also a question mark. -/
inductive EndsChain : List Char → Prop
  | expr {r : List Char} (h : EndsExpr r) : EndsChain r
  | question (r : List Char) : EndsChain (' ' :: '?' :: ' ' :: r)

/-- The text tells the expression from any other, and where it ends. -/
def ReadsBack (e : Expr) : Prop :=
  ∀ {e' : Expr} {r r' : List Char}, e'.Readable → EndsExpr r → EndsExpr r' →
    e.text.toList ++ r = e'.text.toList ++ r' → e = e' ∧ r = r'

theorem EndsChain.endsOperand {r : List Char} (h : EndsChain r) : EndsOperand r := by
  intro c hc
  rcases h with ⟨_ | _ | _ | _⟩ | _ <;> cases hc <;> decide

/-! ## Words -/

/-- The character that follows the word that an operand begins with, if it belongs to it. -/
def mark : Expr → Option Char
  | member .. => some '.'
  | memberOfPointer .. => some '-'
  | index .. => some '['
  | _ => none

theorem mark_of_selector {e : Expr} {r : List Char} (hr : EndsOperand r) :
    (e.selector ++ r).head?.filter (fun c => c = '.' || c = '-' || c = '[') = e.mark := by
  have hnone : r.head?.filter (fun c => c = '.' || c = '-' || c = '[') = none := by
    rw [Option.filter_eq_none_iff]
    intro c hc
    rcases hr c hc with rfl | rfl | rfl <;> decide
  cases e with
  | member | memberOfPointer | index => rfl
  | _ => exact hnone

theorem isWordChar_eq_false_of_selector {e : Expr} {r : List Char} (hr : EndsOperand r) :
    ∀ c ∈ (e.selector ++ r).head?, isWordChar c = false := by
  have hend : ∀ c ∈ r.head?, isWordChar c = false := by
    intro c hc
    rcases hr c hc with rfl | rfl | rfl <;> decide
  cases e with
  | member | memberOfPointer | index =>
    intro c hc
    cases hc
    decide
  | _ => exact hend

theorem field_unique {field field' : String} {r r' : List Char} (hf : isIdentifier field)
    (hf' : isIdentifier field') (hr : EndsOperand r) (hr' : EndsOperand r')
    (h : field.toList ++ r = field'.toList ++ r') : field = field' ∧ r = r' := by
  obtain ⟨ht, rfl⟩ := stretch_unique (isWordChar_of_isIdentifier hf)
    (isWordChar_of_isIdentifier hf')
    (@isWordChar_eq_false_of_selector (.boolean true) r hr)
    (@isWordChar_eq_false_of_selector (.boolean true) r' hr') h
  exact ⟨String.toList_inj.mp ht, rfl⟩

theorem not_isName_boolean (b : Bool) : isName (word (.boolean b)) = false := by
  cases b <;> decide

theorem word_splitsOff {e : Expr} (he : e.Readable) (hl : e.lead = some .word)
    (hindex : ∀ {base i}, e = .index base i → ReadsBack i) : SplitsOff e := by
  intro e' r r' he' hp' hr hr' h
  have hl' : e'.lead = some .word := lead_eq he hl he' hp' h
  obtain ⟨ht, hw⟩ := he.text_eq_word_selector hl
  obtain ⟨ht', hw'⟩ := he'.text_eq_word_selector hl'
  rw [ht, ht', List.append_assoc, List.append_assoc] at h
  obtain ⟨hchars, hsel⟩ := stretch_unique (isWordChar_of_isIdentifier hw)
    (isWordChar_of_isIdentifier hw') (isWordChar_eq_false_of_selector hr)
    (isWordChar_eq_false_of_selector hr') h
  have hword := String.toList_inj.mp hchars
  have hmark : e.mark = e'.mark := by
    rw [← mark_of_selector hr, hsel, mark_of_selector hr']
  -- what follows the word is the same, so a member meets a member and an element an element
  cases he <;> simp only [lead, reduceCtorEq, Option.some.injEq] at hl <;>
    cases he' <;> simp only [lead, reduceCtorEq, Option.some.injEq] at hl' <;>
    simp only [mark, reduceCtorEq, Option.some.injEq] at hmark
  case boolean.boolean b b' =>
    cases b <;> cases b' <;> first | exact ⟨rfl, hsel⟩ | exact absurd hword (by decide)
  case boolean.var b name' hn' =>
    have hb : isName name' = false := (congrArg isName hword).symm.trans (not_isName_boolean b)
    rw [hn'] at hb
    cases hb
  case var.boolean name hn b' =>
    have hb : isName name = false := (congrArg isName hword).trans (not_isName_boolean b')
    rw [hn] at hb
    cases hb
  case var.var name hn name' hn' => exact ⟨congrArg var hword, hsel⟩
  case member.member name field hn hf name' field' hn' hf' =>
    obtain rfl : name = name' := hword
    obtain ⟨rfl, rfl⟩ := field_unique hf hf' hr hr' (List.cons.inj hsel).2
    exact ⟨rfl, rfl⟩
  case memberOfPointer.memberOfPointer name field hn hf name' field' hn' hf' =>
    obtain rfl : name = name' := hword
    obtain ⟨rfl, rfl⟩ := field_unique hf hf' hr hr' (List.cons.inj (List.cons.inj hsel).2).2
    exact ⟨rfl, rfl⟩
  case index.index name i hn hi name' i' hn' hi' =>
    obtain rfl : name = name' := hword
    simp only [selector, List.cons_append, List.append_assoc, List.nil_append, List.cons.injEq,
      true_and] at hsel
    obtain ⟨rfl, hrest⟩ := hindex rfl hi' (.bracket r) (.bracket r') hsel
    exact ⟨rfl, (List.cons.inj hrest).2⟩
  all_goals exact absurd hmark (by decide)

/-! ## Prefixes and parentheses -/

/-- A space that keeps two signs apart is no part of the operand. -/
theorem gap_unique {e e' : Expr} (he : e.Readable) (hp : e.precedence ≤ unaryPrecedence)
    (he' : e'.Readable) (hp' : e'.precedence ≤ unaryPrecedence) {gap gap' r r' : List Char}
    (hg : gap = [] ∨ gap = [' ']) (hg' : gap' = [] ∨ gap' = [' '])
    (h : gap ++ (e.text.toList ++ r) = gap' ++ (e'.text.toList ++ r')) :
    e.text.toList ++ r = e'.text.toList ++ r' := by
  have hspace {e : Expr} (he : e.Readable) (hp : e.precedence ≤ unaryPrecedence) (r t : List Char) :
      e.text.toList ++ r ≠ ' ' :: t := by
    obtain ⟨l, hl⟩ := he.exists_lead hp
    obtain ⟨c, rest, hc, hlc⟩ := he.lead_of_text hl
    rw [hc]
    intro ht
    rw [(List.cons.inj ht).1] at hlc
    cases hlc
  rcases hg with rfl | rfl <;> rcases hg' with rfl | rfl
  · exact h
  · exact absurd h (hspace he hp _ _)
  · exact absurd h.symm (hspace he' hp' _ _)
  · exact (List.cons.inj h).2

theorem symbol_toList_injective {op op' : UnaryOp} {r r' : List Char}
    (h : op.symbol.toList ++ r = op'.symbol.toList ++ r') : op = op' ∧ r = r' := by
  cases op <;> cases op' <;> first
    | exact ⟨rfl, (List.cons.inj h).2⟩
    | exact absurd (List.cons.inj h).1 (by decide)

theorem unary_splitsOff {op : UnaryOp} {e : Expr} (he : e.Readable)
    (hp : e.precedence ≤ unaryPrecedence) (hs : SplitsOff e) : SplitsOff (unary op e) := by
  intro e' r r' he' hp' hr hr' h
  have hl' : e'.lead = some .sign := lead_eq (.unary op he hp) rfl he' hp' h
  cases he' <;> simp only [lead, reduceCtorEq, Option.some.injEq] at hl'
  case unary op' f hf bound =>
    obtain ⟨gap, hg, ht⟩ := marked_toList op.symbol e.text op.isSign
    obtain ⟨gap', hg', ht'⟩ := marked_toList op'.symbol f.text op'.isSign
    rw [text, text, ht, ht'] at h
    simp only [List.append_assoc] at h
    obtain ⟨rfl, hrest⟩ := symbol_toList_injective h
    obtain ⟨rfl, rfl⟩ := hs hf bound hr hr' (gap_unique he hp hf bound hg hg' hrest)
    exact ⟨rfl, rfl⟩

theorem addressOf_splitsOff {name : String} (hn : isName name) :
    SplitsOff (addressOf (var name)) := by
  intro e' r r' he' hp' hr hr' h
  have hl' : e'.lead = some .ampersand := lead_eq (.addressOf hn) rfl he' hp' h
  cases he' <;> simp only [lead, reduceCtorEq, Option.some.injEq] at hl'
  case addressOf name' hn' =>
    obtain ⟨gap, hg, ht⟩ := marked_toList "&" (var name).text true
    obtain ⟨gap', hg', ht'⟩ := marked_toList "&" (var name').text true
    change (marked "&" (var name).text true).toList ++ r =
      (marked "&" (var name').text true).toList ++ r' at h
    rw [ht, ht'] at h
    simp only [List.append_assoc] at h
    have hv := gap_unique (.var hn) (Nat.zero_le _) (.var hn') (Nat.zero_le _) hg hg'
      (List.cons.inj h).2
    obtain ⟨rfl, rfl⟩ := field_unique (isIdentifier_of_isName hn) (isIdentifier_of_isName hn')
      hr hr' hv
    exact ⟨rfl, rfl⟩

theorem paren_splitsOff {e : Expr} (he : e.Readable) (hb : ReadsBack e) :
    SplitsOff (paren e) := by
  intro e' r r' he' hp' hr hr' h
  have hl' : e'.lead = some .bracket := lead_eq (.paren he) rfl he' hp' h
  cases he' <;> simp only [lead, reduceCtorEq, Option.some.injEq] at hl'
  case paren f hf =>
    have hi : e.text.toList ++ (')' :: r) = f.text.toList ++ (')' :: r') := by
      simpa [text] using h
    obtain ⟨rfl, hrest⟩ := hb hf (.paren r) (.paren r') hi
    exact ⟨rfl, (List.cons.inj hrest).2⟩

end Assay.Expr
