import LadderLogic.Proofs.Expression.Integers

/-!
Which reals come out of an expression. An operator hands on a number only if it is finite, and
otherwise there is a fault; a bare leaf hands on whatever it holds.
-/

set_option autoImplicit false

namespace LadderLogic

open Binary

/-- A value that is no infinity and not the real that is no number. -/
def Value.Finite : Value → Prop
  | .real x => isFinite x = true
  | _ => True

theorem Number.toValue_finite {a : Number} {v : Value} (h : a.toValue = .ok v) : v.Finite := by
  cases a with
  | int i =>
    cases h
    trivial
  | real x =>
    simp only [toValue] at h
    split at h <;> cases h
    assumption

theorem Number.toValue_nonFinite {x : Float} (h : isFinite x = false) :
    (Number.real x).toValue = .error .nonFinite := by
  simp [toValue, h]

namespace Expression

variable {ctx : ScanContext} {e : Expression}

/-- The value of a bare leaf: a literal, a tag, or the cell that a pointer chooses. -/
def leaf? (ctx : ScanContext) : Expression → Option Value
  | literal v => some v
  | tag t => some (ctx.read t)
  | indirect b pointer => (b.pointed (pointer.evaluate ctx)).map ctx.read
  | binary .. | unary .. | math .. | word .. => none

/-- The number that the operand of an operator has. -/
def number (ctx : ScanContext) (e : Expression) : Except EvalFault Number := do
  Number.ofValue (← e.evaluate ctx)

/-- What the operator at the root makes of the numbers of its operands. A leaf has none. -/
def computed? (ctx : ScanContext) : Expression → Option (Except EvalFault Number)
  | literal _ | tag _ | indirect .. => none
  | binary op left right => some do
    let a ← left.number ctx
    let b ← right.number ctx
    Number.binary op a b
  | unary op operand => some do Number.unary op (← operand.number ctx)
  | math fn operand => some do Number.math fn (← operand.number ctx)
  | word fn value amount => some do
    let a ← value.number ctx
    let b ← amount.number ctx
    Number.word fn a b

theorem evaluate_of_leaf? {v : Value} (h : e.leaf? ctx = some v) : e.evaluate ctx = .ok v := by
  cases e with
  | literal w =>
    cases h
    rfl
  | tag t =>
    cases h
    rfl
  | indirect b pointer =>
    obtain ⟨t, ht, rfl⟩ := Option.map_eq_some_iff.mp h
    simp only [evaluate, ht]
  | _ => cases h

/-- Every result of an operator has passed the check that it is finite. -/
theorem evaluate_of_computed? {r : Except EvalFault Number} (h : e.computed? ctx = some r) :
    e.evaluate ctx = r >>= Number.toValue := by
  cases e with
  | literal | tag | indirect => cases h
  | _ =>
    cases h
    simp [evaluate, number, bind_assoc]

theorem leaf?_or_computed? {v : Value} (h : e.evaluate ctx = .ok v) :
    e.leaf? ctx = some v ∨ ∃ r, e.computed? ctx = some r := by
  cases e with
  | literal w => exact .inl (congrArg some (Except.ok.inj h))
  | tag t => exact .inl (congrArg some (Except.ok.inj h))
  | indirect b pointer =>
    left
    simp only [evaluate] at h
    split at h
    case h_1 t ht => rw [leaf?, ht, Option.map_some, Except.ok.inj h]
    case h_2 => cases h
  | _ => exact .inr ⟨_, rfl⟩

/-- Everything but a bare leaf has finite results. -/
theorem finite_or_leaf? {v : Value} (h : e.evaluate ctx = .ok v) :
    v.Finite ∨ e.leaf? ctx = some v := by
  rcases leaf?_or_computed? h with hleaf | ⟨r, hr⟩
  · exact .inr hleaf
  · left
    rw [evaluate_of_computed? hr, bind_eq_ok] at h
    obtain ⟨a, -, ha⟩ := h
    exact Number.toValue_finite ha

/-- The reals written in an expression are finite. -/
def LiteralsFinite : Expression → Prop
  | literal v => v.Finite
  | tag _ => True
  | indirect _ pointer => pointer.LiteralsFinite
  | binary _ left right => left.LiteralsFinite ∧ right.LiteralsFinite
  | unary _ operand => operand.LiteralsFinite
  | math _ operand => operand.LiteralsFinite
  | word _ value amount => value.LiteralsFinite ∧ amount.LiteralsFinite

/-- An expression over finite literals and cells has finite results. -/
theorem evaluate_finite {v : Value} (hlit : e.LiteralsFinite)
    (hread : ∀ t, e.Mentions t → (ctx.read t).Finite) (h : e.evaluate ctx = .ok v) : v.Finite := by
  rcases finite_or_leaf? h with hfinite | hleaf
  · exact hfinite
  · cases e with
    | literal w =>
      cases h
      exact hlit
    | tag t =>
      cases h
      exact hread t rfl
    | indirect b pointer =>
      obtain ⟨t, ht, rfl⟩ := Option.map_eq_some_iff.mp hleaf
      exact hread t (.inl (Block.pointed_cell ht))
    | _ => cases hleaf

/-- A real that is not finite comes out of an expression in one way only: the whole expression is a
literal, a tag or a cell that holds it. If an operator computes one, the result is a fault. -/
theorem evaluate_nonFinite_iff {x : Float} (hx : isFinite x = false) :
    (e.evaluate ctx = .ok (.real x) ↔ e.leaf? ctx = some (.real x)) ∧
      (e.computed? ctx = some (.ok (.real x)) → e.evaluate ctx = .error .nonFinite) := by
  refine ⟨⟨fun h => ?_, evaluate_of_leaf?⟩, fun h => ?_⟩
  · refine (finite_or_leaf? h).resolve_left fun hfinite => ?_
    exact absurd hfinite (by simp [Value.Finite, hx])
  · rw [evaluate_of_computed? h]
    exact Number.toValue_nonFinite hx

end Expression

/-! An infinity that is written down, bare and with a sign in front of it. -/

namespace Sample

def infinity : Float := ofWord 0x7ff0000000000000

def bare : Expression := .literal (.real infinity)

def withSign : Expression := .unary .pos bare

def blank : ScanContext := .start .empty ∅

end Sample

namespace Expression

/-- The bare one is a result, the other one is a fault. -/
theorem evaluate_nonFinite_iff_sample :
    isFinite Sample.infinity = false ∧
      Sample.bare.evaluate Sample.blank = .ok (.real Sample.infinity) ∧
      Sample.withSign.evaluate Sample.blank = .error .nonFinite := by
  have hx : isFinite Sample.infinity = false := by decide +kernel
  exact ⟨hx, (evaluate_nonFinite_iff hx).1.mpr rfl, (evaluate_nonFinite_iff hx).2 rfl⟩

/-- A result need not be finite. -/
theorem exists_infinite_result :
    ¬ ∀ (ctx : ScanContext) (e : Expression) (x : Float),
      e.evaluate ctx = .ok (.real x) → isFinite x = true := by
  intro h
  have hfinite := h Sample.blank Sample.bare Sample.infinity rfl
  exact absurd hfinite (by decide +kernel)

end Expression

end LadderLogic
