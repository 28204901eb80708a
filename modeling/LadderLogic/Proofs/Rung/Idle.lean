import LadderLogic.Proofs.Program.Derivation

/-!
A false rung. Whatever branches and loops it has, it goes once through its instructions in the order
of their handles, and each of them does no more than it does when it is disabled.
-/

set_option autoImplicit false

namespace LadderLogic

/-- A part of a run: what happens in it, and how it ends. -/
structure Passage where
  moments : List Moment
  outcome : Outcome

namespace Passage

def proceed (ctx : ScanContext) : Passage := ⟨[], ctx.proceed⟩

/-- One part after the other, the second one only if the flow goes on. -/
def andThen (x : Passage) (next : ScanContext → Passage) : Passage where
  moments := x.moments ++ x.outcome.onward fun ctx => (next ctx).moments
  outcome := x.outcome.andThen fun ctx => (next ctx).outcome

theorem andThen_proceed (x : Passage) : x.andThen proceed = x := by
  obtain ⟨moments, last, exit⟩ := x
  cases exit <;> simp [andThen, proceed, Outcome.onward, Outcome.andThen, ScanContext.proceed]

theorem andThen_assoc (x : Passage) (f g : ScanContext → Passage) :
    (x.andThen f).andThen g = x.andThen fun ctx => (f ctx).andThen g := by
  obtain ⟨moments, last, exit⟩ := x
  cases exit with
  | proceed => simp [andThen, Outcome.onward, Outcome.andThen]
  | leave => simp [andThen, Outcome.onward, Outcome.andThen]
  | fail e => simp [andThen, Outcome.onward, Outcome.andThen]

end Passage

/-- The operations that do something on a false rung. -/
theorem Operation.inertWhenDisabled_eq_false {op : Operation} :
    op.inertWhenDisabled = false ↔ op.alwaysExecutes = true ∨ ∃ coil, op = .out coil := by
  cases op <;> simp [inertWhenDisabled, alwaysExecutes]

theorem Operation.moments_of_acts {op : Operation} (h : op.inertWhenDisabled = false)
    (calls : CallMoments) (id : InstructionId) (enabled : Bool) (ctx : ScanContext) :
    op.moments calls id enabled ctx = [.operate id op enabled ctx] := by
  cases op with
  | callSubroutine name => cases h
  | _ => rfl

namespace Instruction

/-- A disabled execution re-arms a oneshot. -/
def rearm (i : Instruction) (ctx : ScanContext) : ScanContext :=
  if i.oneshot then ctx.setOneshot i.id false else ctx

/-- What an instruction itself does when it is disabled. A loop leaves it to those inside. -/
def idle (i : Instruction) (ctx : ScanContext) : Passage :=
  match i with
  | single id _ op =>
    if op.inertWhenDisabled then ⟨[.reach i false ctx], (i.rearm ctx).proceed⟩
    else
      ⟨[.reach i false ctx, .operate id op false (i.rearm ctx)],
        op.execute (fun _ ctx => ctx.proceed) id false (i.rearm ctx)⟩
  | loop _ _ _ _ => ⟨[.reach i false ctx], (i.rearm ctx).proceed⟩

def idleAll : List Instruction → ScanContext → Passage
  | [], ctx => .proceed ctx
  | i :: is, ctx => (i.idle ctx).andThen (idleAll is)

theorem idleAll_append (is js : List Instruction) (ctx : ScanContext) :
    idleAll (is ++ js) ctx = (idleAll is ctx).andThen (idleAll js) := by
  induction is generalizing ctx with
  | nil => rfl
  | cons i is ih =>
    have hrest : idleAll (is ++ js) = fun mid => (idleAll is mid).andThen (idleAll js) := funext ih
    change (i.idle ctx).andThen (idleAll (is ++ js)) = ((i.idle ctx).andThen (idleAll is)).andThen _
    rw [hrest, Passage.andThen_assoc]

section Walk

variable (env : Surroundings) (calls : CallMoments)

/-- How an instruction runs. -/
def passage (enabled : Bool) (i : Instruction) (ctx : ScanContext) : Passage :=
  ⟨i.moments env calls enabled ctx, i.execute env enabled ctx⟩

def passageOfAll (enabled : Bool) (is : List Instruction) (ctx : ScanContext) : Passage :=
  ⟨momentsOfAll env calls enabled is ctx, executeAll env enabled is ctx⟩

theorem passageOfAll_cons (enabled : Bool) (i : Instruction) (is : List Instruction)
    (ctx : ScanContext) :
    passageOfAll env calls enabled (i :: is) ctx =
      (i.passage env calls enabled ctx).andThen (passageOfAll env calls enabled is) := by
  rw [passageOfAll, momentsOfAll, executeAll]
  rfl

theorem single_passage (id : InstructionId) (oneshot : Bool) (op : Operation) (ctx : ScanContext) :
    (single id oneshot op).passage env calls false ctx = (single id oneshot op).idle ctx := by
  unfold passage moments execute singleMoments executeSingle gate idle
  simp only [Bool.false_eq_true, if_false]
  cases hinert : op.inertWhenDisabled with
  | true => rfl
  | false =>
    have hcall : ∀ name, op ≠ .callSubroutine name := by
      rintro name rfl
      cases hinert
    simp only [op.moments_of_acts hinert, Bool.false_eq_true, if_false]
    rw [op.execute_eq hcall env.subroutines fun _ ctx => ctx.proceed]
    rfl

mutual

/-- Induction over an instruction and its loop bodies: a disabled loop runs its body once, disabled
too. -/
theorem passage_eq_idleAll : ∀ (i : Instruction) (ctx : ScanContext),
    i.passage env calls false ctx = idleAll i.flatten ctx
  | single id oneshot op, ctx => by
    rw [single_passage, flatten]
    exact (Passage.andThen_proceed _).symm
  | loop id oneshot head body, ctx => by
    rw [passage, moments, execute, flatten, idleAll, ← funext (passageOfAll_eq_idleAll body)]
    simp only [gate, Bool.false_eq_true, if_false]
    rfl

theorem passageOfAll_eq_idleAll : ∀ (is : List Instruction) (ctx : ScanContext),
    passageOfAll env calls false is ctx = idleAll (flattenAll is) ctx
  | [], ctx => by
    unfold passageOfAll momentsOfAll executeAll
    rfl
  | i :: is, ctx => by
    rw [passageOfAll_cons, passage_eq_idleAll i ctx, flattenAll, idleAll_append]
    exact congrArg _ (funext (passageOfAll_eq_idleAll is))

end

end Walk

end Instruction

namespace RungItem

/-- Behind a false condition every branch is false. -/
def AllOff (decided : List Bool) : Prop := ∀ b ∈ decided, b = false

mutual

theorem enables_allOff (ctx : ScanContext) : ∀ item : RungItem, AllOff (item.enables ctx false)
  | instruction _ => by simp [enables, AllOff]
  | branch conditions items => by
    unfold enables
    exact List.forall_mem_cons.mpr ⟨rfl, enablesOfAll_allOff ctx items⟩

theorem enablesOfAll_allOff (ctx : ScanContext) :
    ∀ items : List RungItem, AllOff (enablesOfAll ctx false items)
  | [] => by simp [enablesOfAll, AllOff]
  | item :: items => by
    unfold enablesOfAll
    exact List.forall_mem_append.mpr ⟨enables_allOff ctx item, enablesOfAll_allOff ctx items⟩

end

section Walk

variable (env : Instruction.Surroundings) (calls : CallMoments)

/-- How an item runs with the enables that are left. -/
def passage (enabled : Bool) (item : RungItem) (decided : List Bool) (ctx : ScanContext) :
    Passage :=
  ⟨item.moments env calls enabled decided ctx, (item.run env enabled decided ctx).2⟩

def passageOfAll (enabled : Bool) (items : List RungItem) (decided : List Bool)
    (ctx : ScanContext) : Passage :=
  ⟨momentsOfAll env calls enabled items decided ctx, (runAll env enabled items decided ctx).2⟩

theorem passageOfAll_cons (enabled : Bool) (item : RungItem) (items : List RungItem)
    (decided : List Bool) (ctx : ScanContext) :
    passageOfAll env calls enabled (item :: items) decided ctx =
      (item.passage env calls enabled decided ctx).andThen
        (passageOfAll env calls enabled items (item.run env enabled decided ctx).1) := by
  rw [passageOfAll, momentsOfAll, runAll_cons]
  rfl

mutual

/-- Induction over an item and those inside it. Each branch takes one of the enables that are left,
and none of them is true. -/
theorem passage_eq_idleAll : ∀ (item : RungItem) (decided : List Bool) (ctx : ScanContext),
    AllOff decided →
      item.passage env calls false decided ctx = Instruction.idleAll item.instructions ctx
  | instruction i, decided, ctx, _ => by
    rw [passage, moments, run, instructions]
    exact i.passage_eq_idleAll env calls ctx
  | branch conditions items, decided, ctx, h => by
    have hown : decided.headD false = false := by
      cases decided with
      | nil => rfl
      | cons b rest => exact h b List.mem_cons_self
    rw [passage, moments, run, instructions, hown]
    exact passageOfAll_eq_idleAll items decided.tail ctx
      fun b hb => h b (List.mem_of_mem_tail hb)

theorem passageOfAll_eq_idleAll :
    ∀ (items : List RungItem) (decided : List Bool) (ctx : ScanContext), AllOff decided →
      passageOfAll env calls false items decided ctx =
        Instruction.idleAll (instructionsOfAll items) ctx
  | [], decided, ctx, _ => by
    rw [passageOfAll, momentsOfAll, runAll, instructionsOfAll]
    rfl
  | item :: items, decided, ctx, h => by
    have hleft : AllOff (item.run env false decided ctx).1 := by
      rw [run_eq_drop_visits]
      exact fun b hb => h b (List.mem_of_mem_drop hb)
    rw [passageOfAll_cons, passage_eq_idleAll item decided ctx h, instructionsOfAll,
      Instruction.idleAll_append]
    exact congrArg _ (funext fun mid => passageOfAll_eq_idleAll items _ mid hleft)

end

end Walk

end RungItem

namespace Rung

def passage (env : Instruction.Surroundings) (calls : CallMoments) (r : Rung) (ctx : ScanContext) :
    Passage :=
  ⟨r.moments env calls ctx, r.execute env ctx⟩

/-- A false rung runs the same in all surroundings. -/
theorem passage_eq_idleAll {r : Rung} {ctx : ScanContext} (h : r.enabled ctx = false)
    (env : Instruction.Surroundings) (calls : CallMoments) :
    r.passage env calls ctx =
      ⟨.rung r ctx :: (Instruction.idleAll r.instructions ctx).moments,
        (Instruction.idleAll r.instructions ctx).outcome⟩ := by
  have hitems := RungItem.passageOfAll_eq_idleAll env calls r.items _ ctx
    (RungItem.enablesOfAll_allOff ctx r.items)
  rw [instructions, ← hitems, passage, moments, execute, h]
  rfl

end Rung

end LadderLogic
