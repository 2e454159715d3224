import Assay.Proofs.Expr.Operand

/-!
# Reading expressions

The operands of a chain split off one after another, up to a bracket, a question mark or a colon,
and they determine the chain. So the text of a readable expression determines the expression
(`Readable.eq_of_text_eq`).
-/

namespace Assay.Expr

/-! ## Chains -/

theorem binary_symbol_head (op : BinaryOp) :
    ∃ c rest, op.symbol.toList = c :: rest ∧ c ≠ ':' ∧ c ≠ '?' := by
  cases op <;> exact ⟨_, _, rfl, by decide, by decide⟩

theorem binary_symbol_no_space (op : BinaryOp) : ∀ c ∈ op.symbol.toList, c != ' ' := by
  have hall : op.symbol.toList.all (· != ' ') := by cases op <;> rfl
  exact List.all_eq_true.mp hall

theorem binary_symbol_injective : ∀ {op op' : BinaryOp}, op.symbol = op'.symbol → op = op' := by
  have hall : ∀ op ∈ (Enumerated.all : List BinaryOp), ∀ op' ∈ (Enumerated.all : List BinaryOp),
      op.symbol = op'.symbol → op = op' := by
    decide +kernel
  exact fun {op op'} => hall op (Enumerated.mem_all op) op' (Enumerated.mem_all op')

theorem symbol_unique {op op' : BinaryOp} {r r' : List Char}
    (h : op.symbol.toList ++ ' ' :: r = op'.symbol.toList ++ ' ' :: r') : op = op' ∧ r = r' := by
  have hspace : ∀ r : List Char, ∀ c ∈ (' ' :: r).head?, (c != ' ') = false := by
    intro r c hc
    cases hc
    rfl
  obtain ⟨hs, hr⟩ := stretch_unique (binary_symbol_no_space op) (binary_symbol_no_space op')
    (hspace r) (hspace r') h
  exact ⟨binary_symbol_injective (String.toList_inj.mp hs), (List.cons.inj hr).2⟩

/-- A link does not look like what may follow a chain. -/
theorem linkChars_ne_end {link : BinaryOp × Expr} {r t : List Char} (hr : EndsChain r) :
    linkChars link ++ t ≠ r := by
  obtain ⟨c, rest, hc, hcolon, hquestion⟩ := binary_symbol_head link.1
  simp only [linkChars, hc, List.cons_append]
  intro h
  rcases hr with ⟨_ | _ | _ | r⟩ | r <;>
    simp only [reduceCtorEq, List.cons.injEq, true_and] at h
  · exact absurd h.1 (by decide)
  · exact absurd h.1 (by decide)
  · exact hcolon h.1
  · exact hquestion h.1

theorem endsOperand_links {links : List (BinaryOp × Expr)} {r : List Char} (hr : EndsChain r) :
    EndsOperand (links.flatMap linkChars ++ r) := by
  cases links with
  | nil => exact hr.endsOperand
  | cons link links =>
    intro c hc
    cases hc
    exact .inl rfl

/-- Operands and operators are read off a chain one after another. -/
theorem links_unique {o o' : Expr} {links links' : List (BinaryOp × Expr)} {r r' : List Char}
    (ho : SplitsOff o) (hl : ∀ link ∈ links, SplitsOff link.2)
    (ho' : o'.Readable ∧ o'.precedence ≤ unaryPrecedence)
    (hl' : ∀ link ∈ links', link.2.Readable ∧ link.2.precedence ≤ unaryPrecedence)
    (hr : EndsChain r) (hr' : EndsChain r')
    (h : o.text.toList ++ (links.flatMap linkChars ++ r) =
      o'.text.toList ++ (links'.flatMap linkChars ++ r')) :
    o = o' ∧ links = links' ∧ r = r' := by
  induction links generalizing o o' links' with
  | nil =>
    obtain ⟨rfl, hrest⟩ := ho ho'.1 ho'.2 (endsOperand_links hr) (endsOperand_links hr') h
    cases links' with
    | nil => exact ⟨rfl, rfl, hrest⟩
    | cons link' links' =>
      simp only [List.flatMap_nil, List.nil_append, List.flatMap_cons, List.append_assoc] at hrest
      exact absurd hrest.symm (linkChars_ne_end hr)
  | cons link links ih =>
    obtain ⟨rfl, hrest⟩ := ho ho'.1 ho'.2 (endsOperand_links hr) (endsOperand_links hr') h
    cases links' with
    | nil =>
      simp only [List.flatMap_nil, List.nil_append, List.flatMap_cons, List.append_assoc] at hrest
      exact absurd hrest (linkChars_ne_end hr')
    | cons link' links' =>
      obtain ⟨op, f⟩ := link
      obtain ⟨op', f'⟩ := link'
      simp only [List.flatMap_cons, linkChars, List.cons_append, List.append_assoc,
        List.cons.injEq, true_and] at hrest
      obtain ⟨rfl, hnext⟩ := symbol_unique hrest
      obtain ⟨rfl, rfl, rfl⟩ := ih (hl _ List.mem_cons_self)
        (fun link hlink => hl link (List.mem_cons_of_mem _ hlink)) (hl' _ List.mem_cons_self)
        (fun link hlink => hl' link (List.mem_cons_of_mem _ hlink)) hnext
      exact ⟨rfl, rfl, rfl⟩

/-- The operands of a chain split off. -/
def OperandsSplitOff (e : Expr) : Prop := SplitsOff e.first ∧ ∀ link ∈ e.links, SplitsOff link.2

theorem chain_unique {e e' : Expr} {r r' : List Char} (he : e.Readable) (ho : OperandsSplitOff e)
    (he' : e'.Readable) (hp' : e'.precedence < conditionalPrecedence) (hr : EndsChain r)
    (hr' : EndsChain r') (h : e.text.toList ++ r = e'.text.toList ++ r') : e = e' ∧ r = r' := by
  rw [text_eq_first_links e, text_eq_first_links e', List.append_assoc, List.append_assoc] at h
  obtain ⟨ho', hl'⟩ := he'.operands hp'
  obtain ⟨hfirst, hlinks, hrest⟩ := links_unique ho.1 ho.2 ho' hl' hr hr' h
  exact ⟨he.eq_of_links_eq he' hfirst hlinks, hrest⟩

/-! ## Whole expressions -/

/-- A conditional's text is that of its condition, up to a question mark, with the branches. -/
theorem conditional_toList (e f g : Expr) (r : List Char) :
    (conditional e f g).text.toList ++ r = e.text.toList ++
      (' ' :: '?' :: ' ' :: (f.text.toList ++ (' ' :: ':' :: ' ' :: (g.text.toList ++ r)))) := by
  simp [text]

theorem eq_conditional_of_precedence {e : Expr} (h : ¬ e.precedence < conditionalPrecedence) :
    ∃ c f g, e = .conditional c f g := by
  cases e with
  | conditional c f g => exact ⟨c, f, g, rfl⟩
  | binary op _ _ => exact absurd (precedence_bounds op).2 h
  | _ => exact absurd (by simp [precedence, primaryPrecedence, memberPrecedence, unaryPrecedence,
      conditionalPrecedence]) h

theorem EndsExpr.ne_question {r t : List Char} (hr : EndsExpr r) : r ≠ ' ' :: '?' :: ' ' :: t := by
  rintro rfl
  cases hr

theorem chain_readsBack {e : Expr} (he : e.Readable) (ho : OperandsSplitOff e) :
    ReadsBack e := by
  intro e' r r' he' hr hr' h
  by_cases hp' : e'.precedence < conditionalPrecedence
  · exact chain_unique he ho he' hp' (.expr hr) (.expr hr') h
  · obtain ⟨c, f, g, rfl⟩ := eq_conditional_of_precedence hp'
    cases he' with
    | conditional hc hf hg bound =>
      rw [conditional_toList] at h
      obtain ⟨-, hrest⟩ := chain_unique he ho hc bound (.expr hr) (.question _) h
      exact absurd hrest hr.ne_question

theorem conditional_readsBack {c f g : Expr} (hc : c.Readable) (ho : OperandsSplitOff c)
    (hf : ReadsBack f) (hg : ReadsBack g) : ReadsBack (conditional c f g) := by
  intro e' r r' he' hr hr' h
  rw [conditional_toList] at h
  by_cases hp' : e'.precedence < conditionalPrecedence
  · obtain ⟨-, hrest⟩ := chain_unique hc ho he' hp' (.question _) (.expr hr') h
    exact absurd hrest.symm hr'.ne_question
  · obtain ⟨c', f', g', rfl⟩ := eq_conditional_of_precedence hp'
    cases he' with
    | conditional hc' hf' hg' bound =>
      rw [conditional_toList] at h
      obtain ⟨rfl, hrest⟩ := chain_unique hc ho hc' bound (.question _) (.question _) h
      simp only [List.cons.injEq, true_and] at hrest
      obtain ⟨rfl, hrest'⟩ := hf hf' (.colon _) (.colon _) hrest
      simp only [List.cons.injEq, true_and] at hrest'
      obtain ⟨rfl, rfl⟩ := hg hg' hr hr' hrest'
      exact ⟨rfl, rfl⟩

/-- An operand by itself is a chain without links. -/
theorem first_eq_of_precedence {e : Expr} (hp : e.precedence ≤ unaryPrecedence) :
    e.first = e ∧ e.links = [] := by
  cases e with
  | binary op e f => exact absurd hp (not_le_of_gt (precedence_bounds op).1)
  | _ => exact ⟨rfl, rfl⟩

theorem readsBack_of_splitsOff {e : Expr} (he : e.Readable) (hp : e.precedence ≤ unaryPrecedence)
    (hs : SplitsOff e) :
    (e.precedence < conditionalPrecedence → OperandsSplitOff e) ∧ ReadsBack e := by
  obtain ⟨hfirst, hlinks⟩ := first_eq_of_precedence hp
  have ho : OperandsSplitOff e := by
    unfold OperandsSplitOff
    rw [hfirst, hlinks]
    exact ⟨hs, by simp⟩
  exact ⟨fun _ => ho, chain_readsBack he ho⟩

/-- The text of a readable expression tells its operands and the whole of it apart. -/
theorem Readable.readsBack {e : Expr} (he : e.Readable) :
    (e.precedence < conditionalPrecedence → OperandsSplitOff e) ∧ ReadsBack e := by
  induction he with
  | integer n =>
    exact readsBack_of_splitsOff (.integer n) (Nat.zero_le _) (number_splitsOff (.integer n) rfl)
  | floating units fits =>
    exact readsBack_of_splitsOff (.floating units fits) (Nat.zero_le _)
      (number_splitsOff (.floating units fits) rfl)
  | boolean b =>
    exact readsBack_of_splitsOff (.boolean b) (Nat.zero_le _)
      (word_splitsOff (.boolean b) rfl fun hi => by cases hi)
  | var h =>
    exact readsBack_of_splitsOff (.var h) (Nat.zero_le _)
      (word_splitsOff (.var h) rfl fun hi => by cases hi)
  | unary op h bound ih =>
    have ho := ih.1 (bound.trans_lt (by decide))
    unfold OperandsSplitOff at ho
    rw [(first_eq_of_precedence bound).1] at ho
    exact readsBack_of_splitsOff (.unary op h bound) (Nat.le_refl _)
      (unary_splitsOff h bound ho.1)
  | binary he hf left right ihe ihf =>
    rename_i op e f
    have hp : op.precedence < conditionalPrecedence := (precedence_bounds op).2
    have hoe := ihe.1 (left.trans_lt hp)
    have hof := ihf.1 (right.trans hp)
    have ho : OperandsSplitOff (.binary op e f) := by
      refine ⟨hoe.1, fun link hl => ?_⟩
      simp only [links, List.mem_append, List.mem_cons] at hl
      rcases hl with hl | rfl | hl
      · exact hoe.2 link hl
      · exact hof.1
      · exact hof.2 link hl
    exact ⟨fun _ => ho, chain_readsBack (.binary he hf left right) ho⟩
  | addressOf h =>
    exact readsBack_of_splitsOff (.addressOf h) (Nat.le_refl _) (addressOf_splitsOff h)
  | member h hf =>
    exact readsBack_of_splitsOff (.member h hf) (precedence_le_of_lead rfl)
      (word_splitsOff (.member h hf) rfl fun hi => by cases hi)
  | memberOfPointer h hf =>
    exact readsBack_of_splitsOff (.memberOfPointer h hf) (precedence_le_of_lead rfl)
      (word_splitsOff (.memberOfPointer h hf) rfl fun hi => by cases hi)
  | index h hi ih =>
    refine readsBack_of_splitsOff (.index h hi) (precedence_le_of_lead rfl)
      (word_splitsOff (.index h hi) rfl ?_)
    intro _ _ hi
    cases hi
    exact ih.2
  | conditional hc hf hg bound ihc ihf ihg =>
    exact ⟨fun hp => absurd hp (lt_irrefl _),
      conditional_readsBack hc (ihc.1 bound) ihf.2 ihg.2⟩
  | paren h ih =>
    exact readsBack_of_splitsOff (.paren h) (Nat.zero_le _) (paren_splitsOff h ih.2)

/-- Readable expressions with the same text are the same. -/
theorem Readable.eq_of_text_eq {e e' : Expr} (he : e.Readable) (he' : e'.Readable)
    (h : e.text = e'.text) : e = e' :=
  (he.readsBack.2 he' .nothing .nothing (by rw [h])).1

end Assay.Expr
