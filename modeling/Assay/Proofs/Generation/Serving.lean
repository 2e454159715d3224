import Assay.Proofs.Generation.Unanswered
import Assay.Proofs.Mask

/-!
# What a script answers

Whatever its choices are, a script answers a proper request with what is valid for it
(`Request.Valid`). Each request takes the next choice, if there is one, which either is the answer
or counts as a mismatch. So after any number of requests every choice of the script is accounted
for (`Script.serve_valid`).
-/

namespace Assay

/-- One that passes, or none if none does. -/
def Drawn {α : Type} (passes : α → Bool) : Option α → Prop
  | some a => passes a
  | none => ∀ a, passes a = false

/-- Whether the answer is one that the request asks for. -/
def Request.Valid : {α : Type} → Request α → α → Prop
  | _, binaryOp mask, op => Drawn mask.contains op ∧ (op = none → mask.Legal → mask.isEmpty)
  | _, unaryOp mask, op => Drawn mask.contains op ∧ (op = none → mask.Legal → mask.isEmpty)
  | _, exprKind weights, kind => Drawn (fun kind => Binary64.lt 0 (weights kind)) kind
  | _, typeKind weights, kind => Drawn (fun kind => Binary64.lt 0 (weights kind)) kind
  | _, integer min max, n => min ≤ n ∧ n ≤ max
  | _, double min max, x => (min.le x ∧ x.lt max) ∨ x == min
  | _, flag _, _ => True
  | _, qualifiers .., _ => True

theorem drawn_of_only {α : Type} {passes : α → Bool} {answer : Option α}
    (hpasses : answer.all passes) (honly : answer = none → ∀ a, ¬ passes a) :
    Drawn passes answer := by
  cases answer with
  | some a => exact hpasses
  | none => exact fun a => Bool.eq_false_iff.mpr (honly rfl a)

theorem Mask.Legal.isEmpty {α : Type} [Enumerated α] {mask : Mask α} (legal : mask.Legal)
    (hnone : ∀ a, ¬ mask.contains a) : mask.isEmpty := by
  rw [legal.isEmpty_eq, List.isEmpty_iff, List.eq_nil_iff_forall_not_mem]
  exact fun a ha => hnone a (mem_toList.mp ha)

/-- An answer that is permitted, and none only if no other is, is valid. -/
theorem Request.valid_of_permits {α : Type} {request : Request α} {answer : α}
    (hp : request.permits answer)
    (honly : request.log? answer = none → ∀ other, request.permits other → other = answer) :
    request.Valid answer := by
  cases request with
  | binaryOp mask | unaryOp mask =>
    have hnone (h : answer = none) (op) : ¬ mask.contains op := by
      intro hop
      subst h
      cases honly rfl (some op) hop
    exact ⟨drawn_of_only hp hnone, fun h legal => legal.isEmpty (hnone h)⟩
  | exprKind weights | typeKind weights =>
    refine drawn_of_only hp fun h kind hkind => ?_
    subst h
    cases honly rfl (some kind) hkind
  | integer min max =>
    simp only [permits, Bool.and_eq_true, decide_eq_true_eq] at hp
    exact hp
  | double min max =>
    simp only [permits, Bool.and_eq_true, Bool.or_eq_true] at hp
    obtain ⟨hle, hlt | heq⟩ := hp
    · exact .inl ⟨hle, hlt⟩
    · exact .inr heq
  | flag | qualifiers => trivial

/-- A choice that is valid is one that the script gives. -/
theorem Request.accepts_of_valid {α : Type} {request : Request α} {answer : α} {choice : Choice}
    (hp : request.Proper) (hr : request.read? choice = some answer) (h : request.Valid answer) :
    request.accepts answer := by
  cases request with
  | binaryOp | unaryOp =>
    cases choice <;> cases hr
    exact h.1
  | exprKind | typeKind =>
    cases choice <;> cases hr
    exact h
  | integer min max =>
    simp only [accepts, Bool.and_eq_true, decide_eq_true_eq]
    exact h
  | double min max =>
    simp only [accepts, Bool.and_eq_true, Bool.or_eq_true]
    obtain ⟨hle, hlt⟩ | heq := h
    · exact ⟨hle, .inl hlt⟩
    · exact ⟨Binary64.le_of_beq hp.1 heq, .inr heq⟩
  | flag | qualifiers => rfl

/-- A request with its answer, and the choice that it met, if there was one. -/
structure Exchange where
  {α : Type}
  request : Request α
  answer : α
  choice : Option Choice

/-- Whether the choice was the answer. -/
def Exchange.usesChoice (exchange : Exchange) : Bool :=
  exchange.choice.any fun choice => exchange.request.log? exchange.answer = some choice

namespace Script

/-- One request, answered from the script. -/
def exchange {α : Type} (script : Script) (request : Request α) : Exchange × Script :=
  let (answer, after) := sampler.answer request script
  (⟨request, answer, script.choices.head?⟩, after)

/-- Requests, answered from the script in turn. -/
def serve (script : Script) : List ((α : Type) × Request α) → List Exchange × Script
  | [] => ([], script)
  | ⟨_, request⟩ :: requests =>
    let (exchange, after) := script.exchange request
    let (exchanges, last) := after.serve requests
    (exchange :: exchanges, last)

variable {α : Type} {request : Request α}

theorem exchange_valid (hp : request.Proper) (s : Script) :
    request.Valid (s.exchange request).1.answer :=
  Request.valid_of_permits (sampler_exact.permits request s hp) (sampler_exact.only request s)

theorem exchange_answer (hp : request.Proper) {s : Script} {choice : Choice} {answer : α}
    (hc : s.choices.head? = some choice) (hr : request.read? choice = some answer)
    (h : request.Valid answer) : (s.exchange request).1.answer = answer := by
  rcases s with ⟨_ | ⟨first, rest⟩, mismatches⟩ <;> cases hc
  have hpermits := Request.permits_of_accepts (Request.accepts_of_valid hp hr h)
  exact congrArg (·.1) (answer_logged (Request.log?_read? hr) hpermits rest mismatches)

/-- A request moves one choice to the mismatches or to those used. The answer in place of a choice
that does not fit is never that choice, as it would fit then. -/
theorem exchange_balance (hp : request.Proper) (s : Script) :
    s.choices.length + s.mismatches =
      (s.exchange request).2.choices.length + (s.exchange request).2.mismatches
        + if (s.exchange request).1.usesChoice then 1 else 0 := by
  rcases s with ⟨_ | ⟨choice, rest⟩, mismatches⟩
  · rfl
  · cases hv : validAnswer? request choice with
    | none =>
      have hs : sampler.answer request ⟨choice :: rest, mismatches⟩ =
          (request.simplest, ⟨rest, mismatches + 1⟩) := by simp only [sampler, hv]
      have hunused : ¬ (⟨request, request.simplest, some choice⟩ : Exchange).usesChoice := by
        intro hused
        have hlog := of_decide_eq_true hused
        rw [answer_logged hlog (Request.permits_simplest hp) rest mismatches] at hs
        have hsame : mismatches = mismatches + 1 := congrArg (·.2.mismatches) hs
        omega
      simp only [exchange, hs, List.head?_cons, if_neg hunused, List.length_cons]
      omega
    | some answer =>
      have hs : sampler.answer request ⟨choice :: rest, mismatches⟩ =
          (answer, ⟨rest, mismatches⟩) := by simp only [sampler, hv]
      have hused : (⟨request, answer, some choice⟩ : Exchange).usesChoice :=
        decide_eq_true (Request.log?_read? (Option.filter_eq_some_iff.mp hv).1)
      simp only [exchange, hs, List.head?_cons, if_pos hused, List.length_cons]
      omega

theorem serve_choices (s : Script) (requests : List ((α : Type) × Request α)) :
    (s.serve requests).2.choices = s.choices.drop requests.length := by
  induction requests generalizing s with
  | nil => rfl
  | cons request requests ih =>
    have hstep : (s.exchange request.2).2.choices = s.choices.tail := choices_answer request.2 s
    rw [serve, ih, hstep, List.drop_tail, List.length_cons]

theorem serve_requests (s : Script) (requests : List ((α : Type) × Request α)) :
    (s.serve requests).1.map (fun exchange => ⟨_, exchange.request⟩) = requests := by
  induction requests generalizing s with
  | nil => rfl
  | cons request requests ih =>
    simp only [serve, List.map_cons, ih]
    rfl

theorem forall_serve {P : Exchange → Prop} {requests : List ((α : Type) × Request α)}
    (h : ∀ request ∈ requests, ∀ s : Script, P (s.exchange request.2).1) (s : Script) :
    ∀ exchange ∈ (s.serve requests).1, P exchange := by
  induction requests generalizing s with
  | nil => exact fun _ h => absurd h List.not_mem_nil
  | cons request requests ih =>
    obtain ⟨hfirst, hrest⟩ := List.forall_mem_cons.mp h
    exact List.forall_mem_cons.mpr ⟨hfirst s, ih hrest _⟩

theorem serve_balance {requests : List ((α : Type) × Request α)}
    (hp : ∀ request ∈ requests, request.2.Proper) (s : Script) :
    s.choices.length + s.mismatches =
      (s.serve requests).2.choices.length + (s.serve requests).2.mismatches
        + (s.serve requests).1.countP Exchange.usesChoice := by
  induction requests generalizing s with
  | nil => rfl
  | cons request requests ih =>
    obtain ⟨hfirst, hrest⟩ := List.forall_mem_cons.mp hp
    have hstep := exchange_balance hfirst s
    have hlater := ih hrest (s.exchange request.2).2
    simp only [serve, List.countP_cons]
    omega

/-- Whatever the choices of a script are, every request in a sequence gets a valid answer, that of
the choice it meets if this is one, and takes one choice as long as there are any. The choices that
were taken are the answers and the mismatches. -/
theorem serve_valid (choices : List Choice) {requests : List ((α : Type) × Request α)}
    (hp : ∀ request ∈ requests, request.2.Proper) :
    let served := Script.serve ⟨choices, 0⟩ requests
    served.1.map (fun exchange => ⟨_, exchange.request⟩) = requests
      ∧ (∀ exchange ∈ served.1, exchange.request.Valid exchange.answer
        ∧ ∀ choice ∈ exchange.choice, ∀ answer, exchange.request.read? choice = some answer →
            exchange.request.Valid answer → exchange.answer = answer)
      ∧ served.2.choices = choices.drop requests.length
      ∧ choices.length = served.2.choices.length + served.2.mismatches
          + served.1.countP Exchange.usesChoice :=
  ⟨serve_requests _ _,
    forall_serve (fun request hrequest s => ⟨exchange_valid (hp request hrequest) s,
      fun _ hc _ => exchange_answer (hp request hrequest) hc⟩) _,
    serve_choices _ _, serve_balance hp ⟨choices, 0⟩⟩

/-- An integer out of range, an operator of the mask, a choice of another form, and none at all. -/
theorem serve_valid_mixed :
    let choices : List Choice := [.integer 5000, .binaryOp .plus, .flag true]
    let requests : List ((α : Type) × Request α) :=
      [⟨_, .integer 7 1000⟩, ⟨_, .binaryOp (.ofList [.mul, .plus])⟩, ⟨_, .double 0 1⟩, ⟨_, .flag 1⟩]
    let served := Script.serve ⟨choices, 0⟩ requests
    (∀ request ∈ requests, request.2.Proper)
      ∧ (∀ exchange ∈ served.1, exchange.request.Valid exchange.answer)
      ∧ served.2 = ⟨[], 2⟩
      ∧ choices.length = 0 + 2 + served.1.countP Exchange.usesChoice := by
  intro choices requests served
  have hinteger : (Request.integer 7 1000).Proper := by
    rw [Request.Proper]
    decide
  have hdouble : (Request.double 0 1).Proper := by
    rw [Request.Proper]
    decide +kernel
  have hp : ∀ request ∈ requests, request.2.Proper := by
    simp only [requests, List.forall_mem_cons]
    exact ⟨hinteger, True.intro, hdouble, True.intro, List.forall_mem_nil _⟩
  have hlast : served.2 = ⟨[], 2⟩ := by decide +kernel
  obtain ⟨-, hvalid, -, hbalance⟩ := serve_valid choices hp
  refine ⟨hp, fun exchange he => (hvalid exchange he).1, hlast, ?_⟩
  rw [hbalance]
  change served.2.choices.length + served.2.mismatches + _ = _
  rw [hlast]
  rfl

end Script

end Assay
