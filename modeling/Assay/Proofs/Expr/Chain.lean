import Assay.Expr.Printer
import Assay.Proofs.Characters
import Mathlib.Order.Basic
import Mathlib.Order.Nat

/-!
# Operator chains

An expression is a first operand and links, each a binary operator and its right operand. Where
parentheses stand as precedence requires, the root of a chain is its last operator of the loosest
level, so a chain is put together in one way only (`eq_of_links_eq`).
-/

namespace Assay.Expr

/-- Parentheses stand wherever precedence requires them, and the leaves are plain: decimal
integers, doubles without a sign, and names. -/
inductive Readable : Expr → Prop
  | integer (n : UInt64) : Readable (.integer { value := n })
  | floating (units : Nat) (fits : Representable units) :
    Readable (.floating ⟨.finite false units fits, false⟩)
  | boolean (b : Bool) : Readable (.boolean b)
  | var {name : String} (h : isName name) : Readable (.var name)
  | unary (op : UnaryOp) {e : Expr} (h : Readable e) (bound : e.precedence ≤ unaryPrecedence) :
    Readable (.unary op e)
  | binary {op : BinaryOp} {e f : Expr} (he : Readable e) (hf : Readable f)
    (left : e.precedence ≤ op.precedence) (right : f.precedence < op.precedence) :
    Readable (.binary op e f)
  | addressOf {name : String} (h : isName name) : Readable (.addressOf (.var name))
  | member {name field : String} (h : isName name) (hf : isIdentifier field) :
    Readable (.member (.var name) field)
  | memberOfPointer {name field : String} (h : isName name) (hf : isIdentifier field) :
    Readable (.memberOfPointer (.var name) field)
  | index {name : String} {e : Expr} (h : isName name) (he : Readable e) :
    Readable (.index (.var name) e)
  | conditional {e f g : Expr} (he : Readable e) (hf : Readable f) (hg : Readable g)
    (bound : e.precedence < conditionalPrecedence) : Readable (.conditional e f g)
  | paren {e : Expr} (h : Readable e) : Readable (.paren e)

/-- The operand that the expression begins with. -/
def first : Expr → Expr
  | binary _ e _ => e.first
  | e => e

/-- The operators after the first operand, each with its right operand. -/
def links : Expr → List (BinaryOp × Expr)
  | binary op e f => e.links ++ (op, f.first) :: f.links
  | _ => []

/-- An operator and its right operand as they are written. -/
def linkChars (link : BinaryOp × Expr) : List Char :=
  ' ' :: (link.1.symbol.toList ++ ' ' :: link.2.text.toList)

theorem text_eq_first_links (e : Expr) :
    e.text.toList = e.first.text.toList ++ e.links.flatMap linkChars := by
  induction e with
  | binary op e f ihe ihf => simp [text, first, links, linkChars, ihe, ihf]
  | _ => simp [first, links]

theorem precedence_bounds (op : BinaryOp) :
    unaryPrecedence < op.precedence ∧ op.precedence < conditionalPrecedence := by
  cases op <;> decide

theorem Readable.precedence_le_of_mem_links {e : Expr} (he : e.Readable) :
    ∀ link ∈ e.links, link.1.precedence ≤ e.precedence := by
  induction he with
  | binary he hf left right ihe ihf =>
    rename_i op e f
    intro link hl
    simp only [links, List.mem_append, List.mem_cons] at hl
    rcases hl with hl | rfl | hl
    · exact (ihe link hl).trans left
    · exact Nat.le_refl _
    · exact (ihf link hl).trans right.le
  | _ => simp [links]

/-- The operands of a chain are readable and bind tighter than any binary operator. -/
theorem Readable.operands {e : Expr} (he : e.Readable)
    (hp : e.precedence < conditionalPrecedence) :
    (e.first.Readable ∧ e.first.precedence ≤ unaryPrecedence)
      ∧ ∀ link ∈ e.links, link.2.Readable ∧ link.2.precedence ≤ unaryPrecedence := by
  induction e with
  | binary op e f ihe ihf =>
    cases he with
    | binary he hf left right =>
      have he' := ihe he (left.trans_lt (precedence_bounds op).2)
      have hf' := ihf hf (right.trans (precedence_bounds op).2)
      refine ⟨he'.1, fun link hl => ?_⟩
      simp only [links, List.mem_append, List.mem_cons] at hl
      rcases hl with hl | rfl | hl
      · exact he'.2 link hl
      · exact hf'.1
      · exact hf'.2 link hl
  | conditional => exact absurd hp (lt_irrefl _)
  | _ =>
    refine ⟨⟨he, ?_⟩, by simp [links]⟩
    simp [first, precedence, primaryPrecedence, memberPrecedence, unaryPrecedence]

/-- A list splits in one way only at the last of its elements of the greatest weight. -/
theorem split_at_loosest_unique {α : Type} {w : α → Nat} {l l' r r' : List α} {a a' : α}
    (hl : ∀ x ∈ l, w x ≤ w a) (hr : ∀ x ∈ r, w x < w a) (hl' : ∀ x ∈ l', w x ≤ w a')
    (hr' : ∀ x ∈ r', w x < w a') (h : l ++ a :: r = l' ++ a' :: r') :
    l = l' ∧ a = a' ∧ r = r' := by
  rcases List.append_eq_append_iff.mp h with ⟨t, rfl, ht⟩ | ⟨t, rfl, ht⟩
  · cases t with
    | nil => simpa using ht
    | cons b t =>
      -- the second root would stand right of the first, and the first left of the second
      simp only [List.cons_append, List.cons.injEq] at ht
      have h1 := hr a' (by simp [ht.2])
      have h2 := hl' a (by simp [ht.1])
      omega
  · cases t with
    | nil => simpa [eq_comm] using ht
    | cons b t =>
      simp only [List.cons_append, List.cons.injEq] at ht
      have h1 := hr' a (by simp [ht.2])
      have h2 := hl a' (by simp [ht.1])
      omega

/-- The first operand and the links determine the expression. -/
theorem Readable.eq_of_links_eq {e e' : Expr} (he : e.Readable) (he' : e'.Readable)
    (hfirst : e.first = e'.first) (hlinks : e.links = e'.links) : e = e' := by
  induction he generalizing e' with
  | binary he hf left right ihe ihf =>
    rename_i op e f
    cases he' with
    | binary he' hf' left' right' =>
      rename_i op' e' f'
      let level (link : BinaryOp × Expr) : Nat := link.1.precedence
      obtain ⟨hle, hroot, hlf⟩ := split_at_loosest_unique (w := level)
        (fun x hx => (he.precedence_le_of_mem_links x hx).trans left)
        (fun x hx => (hf.precedence_le_of_mem_links x hx).trans_lt right)
        (fun x hx => (he'.precedence_le_of_mem_links x hx).trans left')
        (fun x hx => (hf'.precedence_le_of_mem_links x hx).trans_lt right') hlinks
      obtain ⟨rfl, hff⟩ := Prod.mk.inj hroot
      rw [ihe he' hfirst hle, ihf hf' hff hlf]
    | _ => simp [links] at hlinks
  | _ =>
    cases he' with
    | binary => simp [links] at hlinks
    | _ => exact hfirst

end Assay.Expr
