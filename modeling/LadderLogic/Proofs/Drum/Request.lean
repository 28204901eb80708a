import LadderLogic.Proofs.Machine.Drum
import LadderLogic.Proofs.Scan.Lookup

/-!
What a drum is asked to do, read off the context in which it runs: whether its reset holds, which
step an accepted jump leads to, whether its jog rises. The levels that a drum keeps of its own
conditions do not take part in the conditions themselves.
-/

set_option autoImplicit false

namespace LadderLogic

section Reading

variable {ctx mid : ScanContext}

/-- An expression reads tags only. -/
theorem Expression.evaluate_congr (htags : mid.tag? = ctx.tag?) (e : Expression) :
    e.evaluate mid = e.evaluate ctx := by
  have hread : mid.read = ctx.read :=
    funext fun t => ScanContext.read_congr (congrFun htags t.name)
  induction e with
  | literal v => rfl
  | tag t => exact congrArg Except.ok (congrFun hread t)
  | indirect b pointer ih => simp only [evaluate, ih, hread]
  | binary op left right ihl ihr => simp only [evaluate, ihl, ihr]
  | unary op operand ih => simp only [evaluate, ih]
  | math fn operand ih => simp only [evaluate, ih]
  | word fn value amount ihv iha => simp only [evaluate, ihv, iha]

theorem Expression.preset_fst (e : Expression) (ctx : ScanContext) :
    (e.preset ctx).1 = e.integer? ctx := by
  unfold preset integer?
  cases e.evaluate ctx <;> rfl

theorem Expression.integer?_congr (htags : mid.tag? = ctx.tag?) (e : Expression) :
    e.integer? mid = e.integer? ctx := by
  unfold integer?
  rw [e.evaluate_congr htags]

namespace Condition

/-- The two contexts hold the same tags, and the same levels of tags at the end of the last scan. -/
structure SameView (mid ctx : ScanContext) : Prop where
  tags : mid.tag? = ctx.tag?
  last : ∀ name, mid.memoryBool (prevKey name) = ctx.memoryBool (prevKey name)

namespace SameView

theorem trans {first : ScanContext} (h : SameView mid ctx) (k : SameView ctx first) :
    SameView mid first :=
  ⟨h.tags.trans k.tags, fun name => (h.last name).trans (k.last name)⟩

theorem read (h : SameView mid ctx) (t : Tag) : mid.read t = ctx.read t :=
  ScanContext.read_congr (congrFun h.tags t.name)

theorem readBool (h : SameView mid ctx) (t : Tag) : mid.readBool t = ctx.readBool t :=
  congrArg Value.isTruthy (h.read t)

theorem compareWith (h : SameView mid ctx) (op : Comparison) (left : Value) (right : Expression) :
    Condition.compareWith mid op left right = Condition.compareWith ctx op left right := by
  unfold Condition.compareWith
  rw [right.evaluate_congr h.tags]

end SameView

mutual

/-- Induction over a condition and its parts. -/
theorem holds_congr (h : SameView mid ctx) : ∀ c : Condition, c.holds mid = c.holds ctx
  | bit t => h.readBool t
  | normallyClosed t => congrArg not (h.readBool t)
  | nonzero t => congrArg Value.isTruthy (h.read t)
  | compare op left right => by simp only [holds, h.read, h.compareWith]
  | compareIndirect op b pointer right => by
    simp only [holds, pointer.evaluate_congr h.tags, h.read, h.compareWith]
  | compareExpressions op left right => by
    simp only [holds, left.evaluate_congr h.tags, h.compareWith]
  | compareText op left right => by simp only [holds, h.read]
  | risingEdge t => by simp only [holds, h.readBool, h.last]
  | fallingEdge t => by simp only [holds, h.readBool, h.last]
  | all cs => allHold_congr h cs
  | any cs => someHolds_congr h cs

theorem allHold_congr (h : SameView mid ctx) :
    ∀ cs : List Condition, allHold mid cs = allHold ctx cs
  | [] => rfl
  | c :: cs => by simp only [allHold, holds_congr h c, allHold_congr h cs]

theorem someHolds_congr (h : SameView mid ctx) :
    ∀ cs : List Condition, someHolds mid cs = someHolds ctx cs
  | [] => rfl
  | c :: cs => by simp only [someHolds, holds_congr h c, someHolds_congr h cs]

end

theorem optionHolds_congr (h : SameView mid ctx) (c : Option Condition) :
    optionHolds mid c = optionHolds ctx c := by
  cases c with
  | none => rfl
  | some c => exact holds_congr h c

end Condition

end Reading

namespace DrumCore

/-- The condition holds, and did not when its level was last kept. -/
def rises (condition : Option Condition) (key : String) (ctx : ScanContext) : Bool :=
  Condition.optionHolds ctx condition && !ctx.memoryBool key

def resets (drum : DrumCore) (ctx : ScanContext) : Bool := Condition.optionHolds ctx drum.reset

/-- The step that an accepted jump leads to: the drum is enabled, the condition rises and the target
is a step. -/
def jump? (drum : DrumCore) (id : InstructionId) (enabled : Bool) (ctx : ScanContext) :
    Option Int :=
  if enabled && rises (drum.jump.map Prod.fst) (jumpKey id) ctx then
    (drum.jump.bind fun jump => jump.2.integer? ctx).filter drum.isStep
  else none

def jogs (drum : DrumCore) (id : InstructionId) (enabled : Bool) (ctx : ScanContext) : Bool :=
  enabled && rises drum.jog (jogKey id) ctx

/-- The move that the conditions of a drum ask for, `none` if it is the reset. -/
def request (drum : DrumCore) (id : InstructionId) (enabled : Bool) (ctx : ScanContext) :
    Option DrumMove :=
  if drum.resets ctx then none
  else match drum.jump? id enabled ctx with
    | some step => some (.jumpTo step)
    | none => some (if drum.jogs id enabled ctx then .advance else .stay)

/-- Where the levels of jump and jog are up to date. -/
def afterEdges (drum : DrumCore) (id : InstructionId) (ctx : ScanContext) : ScanContext :=
  (edge drum.jog (jogKey id) (edge (drum.jump.map Prod.fst) (jumpKey id) ctx).2).2

variable {drum : DrumCore} {id : InstructionId} {ctx mid : ScanContext}

theorem edge_fst (condition : Option Condition) (key : String) (ctx : ScanContext) :
    (edge condition key ctx).1 = rises condition key ctx := by
  cases condition <;> rfl

theorem edge_tag? (condition : Option Condition) (key : String) (ctx : ScanContext) :
    (edge condition key ctx).2.tag? = ctx.tag? := by
  cases condition <;> rfl

theorem edge_memory? (condition : Option Condition) {key other : String} (h : other ≠ key)
    (ctx : ScanContext) : (edge condition key ctx).2.memory? other = ctx.memory? other := by
  cases condition with
  | none => rfl
  | some c => exact (ScanContext.memory?_setMemory ctx key _ other).trans (if_neg h)

theorem edge_sameView (condition : Option Condition) {key : String}
    (hkey : ∀ name, prevKey name ≠ key) (ctx : ScanContext) :
    Condition.SameView (edge condition key ctx).2 ctx where
  tags := edge_tag? condition key ctx
  last name := ScanContext.memoryBool_congr (edge_memory? condition (hkey name) ctx)

theorem afterJump_sameView (drum : DrumCore) (id : InstructionId) (ctx : ScanContext) :
    Condition.SameView (edge (drum.jump.map Prod.fst) (jumpKey id) ctx).2 ctx :=
  edge_sameView _ (fun name => prevKey_ne_memoryKey (by decide) name id) ctx

/-- Keeping the levels of jump and jog changes nothing that a condition could see. -/
theorem afterEdges_sameView (drum : DrumCore) (id : InstructionId) (ctx : ScanContext) :
    Condition.SameView (drum.afterEdges id ctx) ctx :=
  Condition.SameView.trans
    (edge_sameView _ (fun name => prevKey_ne_memoryKey (by decide) name id) _)
    (afterJump_sameView drum id ctx)

/-- The jog is not disturbed by the level that was kept of the jump. -/
theorem rises_jog_afterJump (drum : DrumCore) (id : InstructionId) (ctx : ScanContext) :
    rises drum.jog (jogKey id) (edge (drum.jump.map Prod.fst) (jumpKey id) ctx).2 =
      rises drum.jog (jogKey id) ctx := by
  have hkeys : jogKey id ≠ jumpKey id := InstructionId.memoryKey_ne (by decide) id
  unfold rises
  rw [Condition.optionHolds_congr (afterJump_sameView drum id ctx),
    ScanContext.memoryBool_congr (edge_memory? _ hkeys ctx)]

/-- `begin` with what it reads taken from the context in which the drum runs. -/
theorem begin_eq (drum : DrumCore) (id : InstructionId) (enabled : Bool) (ctx : ScanContext) :
    drum.begin id enabled ctx =
      if drum.resets ctx then (none, drum.restart id (drum.afterEdges id ctx))
      else if enabled then
        (drum.requested (rises (drum.jump.map Prod.fst) (jumpKey id) ctx)
          (rises drum.jog (jogKey id) ctx) (drum.afterEdges id ctx)).map some fun mid => mid
      else (some .stay, drum.afterEdges id ctx) := by
  have hreset : Condition.optionHolds (drum.afterEdges id ctx) drum.reset = drum.resets ctx :=
    Condition.optionHolds_congr (afterEdges_sameView drum id ctx) drum.reset
  rw [← hreset, ← rises_jog_afterJump, ← edge_fst, ← edge_fst]
  rfl

theorem jumpTarget_fst (drum : DrumCore) (target : Expression) (ctx : ScanContext) :
    (drum.jumpTarget target ctx).1 = (target.integer? ctx).filter drum.isStep := by
  rw [← Expression.preset_fst]
  unfold jumpTarget
  rcases target.preset ctx with ⟨_ | step, last⟩
  · rfl
  · dsimp only
    cases hstep : drum.isStep step <;> simp [Option.filter, hstep]

theorem requested_fst (drum : DrumCore) (id : InstructionId) (ctx : ScanContext) :
    (drum.requested (rises (drum.jump.map Prod.fst) (jumpKey id) ctx)
      (rises drum.jog (jogKey id) ctx) (drum.afterEdges id ctx)).1 =
      match drum.jump? id true ctx with
      | some step => .jumpTo step
      | none => if drum.jogs id true ctx then .advance else .stay := by
  unfold requested jump? jogs
  cases rises (drum.jump.map Prod.fst) (jumpKey id) ctx with
  | false => rfl
  | true =>
    cases drum.jump with
    | none => rfl
    | some jump =>
      have htarget := jumpTarget_fst drum jump.2 (drum.afterEdges id ctx)
      rw [Expression.integer?_congr (afterEdges_sameView drum id ctx).tags] at htarget
      simp only [Bool.and_self, if_true, Option.bind_some, ← htarget]
      rcases drum.jumpTarget jump.2 (drum.afterEdges id ctx) with ⟨_ | step, last⟩ <;> rfl

/-- The first part of an execution asks for the move that the conditions of the drum ask for. -/
theorem begin_fst (drum : DrumCore) (id : InstructionId) (enabled : Bool) (ctx : ScanContext) :
    (drum.begin id enabled ctx).1 = drum.request id enabled ctx := by
  rw [begin_eq]
  unfold request
  cases drum.resets ctx with
  | true => rfl
  | false =>
    cases enabled with
    | false => rfl
    | true =>
      simp only [Bool.false_eq_true, if_false, if_true, Prod.map_fst, requested_fst]
      cases drum.jump? id true ctx <;> rfl

/-- A drum under reset starts anew. -/
theorem begin_of_resets (h : drum.resets ctx = true) (enabled : Bool) :
    drum.begin id enabled ctx = (none, drum.restart id (drum.afterEdges id ctx)) := by
  rw [begin_eq, h]
  rfl

/-- The keys under which a drum keeps the levels of jump and jog. -/
def IsEdgeKey (id : InstructionId) (key : String) : Prop := key = jumpKey id ∨ key = jogKey id

theorem not_isEdgeKey_armedKey (id : InstructionId) : ¬ IsEdgeKey id (armedKey id) :=
  not_or.mpr
    ⟨InstructionId.memoryKey_ne (by decide) id, InstructionId.memoryKey_ne (by decide) id⟩

section Preparation

variable {targets : Tag → Prop} {keeps : String → Prop}

theorem edge_keeps (h : ctx.Becomes (Permit targets keeps False False) mid) (condition : Option Condition)
    {key : String} (hkey : keeps key) :
    ctx.Becomes (Permit targets keeps False False) (edge condition key mid).2 := by
  cases condition with
  | none => exact h
  | some c => exact h.setMemory hkey False.elim

/-- Before a drum moves it has written no tag, unless it raised a fault. -/
theorem begin_keeps (hkeeps : ∀ key, IsEdgeKey id key → keeps key) (h : drum.resets ctx = false)
    (enabled : Bool) :
    ctx.Becomes (Permit targets keeps False False) (drum.begin id enabled ctx).2 := by
  have hedges : ctx.Becomes (Permit targets keeps False False) (drum.afterEdges id ctx) :=
    edge_keeps (edge_keeps .refl _ (hkeeps _ (.inl rfl))) _ (hkeeps _ (.inr rfl))
  rw [begin_eq, h]
  cases enabled with
  | false => exact hedges
  | true => exact (requested_becomes drum hedges _ _).1

end Preparation

/-- A disabled drum raises no fault either. -/
theorem begin_tag?_of_disabled (h : drum.resets ctx = false) :
    (drum.begin id false ctx).2.tag? = ctx.tag? := by
  rw [begin_eq, h]
  exact (afterEdges_sameView drum id ctx).tags

theorem isStep_of_jump? {enabled : Bool} {step : Int}
    (h : drum.jump? id enabled ctx = some step) : drum.isStep step = true := by
  unfold jump? at h
  split at h
  · exact (Option.filter_eq_some_iff.mp h).2
  · cases h

/-- Reset comes first, then an accepted jump, then the jog. -/
theorem request_cases (drum : DrumCore) (id : InstructionId) (enabled : Bool) (ctx : ScanContext) :
    drum.resets ctx = true ∧ drum.request id enabled ctx = none ∨
    (∃ step, drum.resets ctx = false ∧ drum.jump? id enabled ctx = some step ∧
      drum.request id enabled ctx = some (.jumpTo step)) ∨
    (drum.resets ctx = false ∧ drum.jump? id enabled ctx = none ∧
      drum.jogs id enabled ctx = true ∧ drum.request id enabled ctx = some .advance) ∨
    drum.resets ctx = false ∧ drum.jump? id enabled ctx = none ∧
      drum.jogs id enabled ctx = false ∧ drum.request id enabled ctx = some .stay := by
  unfold request
  cases drum.resets ctx with
  | true => exact .inl ⟨rfl, rfl⟩
  | false =>
    cases drum.jump? id enabled ctx with
    | some step => exact .inr (.inl ⟨step, rfl, rfl, rfl⟩)
    | none =>
      cases drum.jogs id enabled ctx with
      | true => exact .inr (.inr (.inl ⟨rfl, rfl, rfl, rfl⟩))
      | false => exact .inr (.inr (.inr ⟨rfl, rfl, rfl, rfl⟩))

end DrumCore

end LadderLogic
