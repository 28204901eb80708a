import LadderLogic.Proofs.Rung.Branches
import LadderLogic.Proofs.Scan.Run

/-!
Runs as finite derivations. A task is what is still to be done, the rules say how each kind is run,
and a CALL looks at the call depth of the context and at nothing else: no rule counts levels. The
program's own functions are shown to end wherever a derivation does, and each task has one.
-/

set_option autoImplicit false

namespace LadderLogic

/-- A piece of a program that is to be run. -/
inductive Task where
  | nothing
  | seq (first rest : Task)
  | rung (r : Rung)
  /-- An item of a rung, with the context on entry and the conditions around it. -/
  | item (item : RungItem) (entry : ScanContext) (around : List Condition)
  | reach (i : Instruction) (enabled : Bool)
  | operate (id : InstructionId) (op : Operation) (enabled : Bool)
  | loop (head : ForHead) (body : List Instruction)
  | pass (head : ForHead) (body : List Instruction) (number : Nat)
  | call (name : String)

namespace Task

/-- One task after the other. -/
def inOrder (tasks : List Task) : Task := tasks.foldr seq nothing

def body (rungs : List Rung) : Task := inOrder (rungs.map rung)

/-- What a task consists of, and the context in which that starts. Operations and calls have rules
of their own. -/
def unfold (p : Program) : Task → ScanContext → Option (Task × ScanContext)
  | rung r, ctx => some (inOrder (r.items.map fun item => .item item ctx r.conditions), ctx)
  | item (.instruction i) entry around, ctx =>
    some (reach i (Condition.allHold entry around), ctx)
  | item (.branch conditions items) entry around, ctx =>
    some (inOrder (items.map fun item => .item item entry (around ++ conditions)), ctx)
  | reach (.single id oneshot op) enabled, ctx =>
    some (Instruction.gate id oneshot enabled
      (fun ctx => (operate id op true, ctx))
      (fun ctx => (if op.inertWhenDisabled then nothing else operate id op false, ctx))
      (fun ctx => match op with
        | .out _ => (operate id op false, ctx)
        | _ => (nothing, ctx)) ctx)
  | reach (.loop id oneshot head body) enabled, ctx =>
    some (Instruction.gate id oneshot enabled
      (fun ctx => (loop head body, ctx))
      (fun ctx => (inOrder (body.map fun i => reach i false), ctx))
      (fun ctx => (nothing, ctx)) ctx)
  | loop head body, ctx =>
    let (passes, ctx) := head.passes p.loopLimit ctx
    some (inOrder ((List.range' 0 passes).map (pass head body)), ctx)
  | pass head body number, ctx =>
    some (inOrder (body.map fun i => reach i true), head.writeIndex number ctx)
  | nothing, _ => none
  | seq _ _, _ => none
  | operate _ _ _, _ => none
  | call _, _ => none

/-- The context behind the head of a task: an instruction that is reached records its enable, a loop
settles its passes, and a pass writes its number. -/
def entered (p : Program) (ctx : ScanContext) : Task → ScanContext
  | reach i enabled => if i.oneshot then ctx.setOneshot i.id enabled else ctx
  | loop head _ => (head.passes p.loopLimit ctx).2
  | pass head _ number => head.writeIndex number ctx
  | _ => ctx

end Task

/-- A task that a run comes to. -/
structure Visit where
  /-- The subroutines that have been called and not been left, the innermost first. -/
  active : List String
  task : Task
  context : ScanContext

/-- A task runs in a context, inside the active subroutines. It passes through the visits and has
the outcome. -/
inductive Runs (p : Program) : List String → Task → ScanContext → List Visit → Outcome → Prop
  | unfold {active : List String} {t next : Task} {ctx mid : ScanContext} {visits : List Visit}
    {o : Outcome} :
    t.unfold p ctx = some (next, mid) → Runs p active next mid visits o →
    Runs p active t ctx (⟨active, t, ctx⟩ :: visits) o
  | operate {active : List String} {id : InstructionId} {op : Operation} {enabled : Bool}
    {ctx : ScanContext} (subroutines : Subroutines) :
    (∀ name, op ≠ .callSubroutine name) →
    Runs p active (.operate id op enabled) ctx [⟨active, .operate id op enabled, ctx⟩]
      (op.execute subroutines id enabled ctx)
  | called {active : List String} {id : InstructionId} {name : String} {ctx : ScanContext}
    {visits : List Visit} {o : Outcome} :
    Runs p active (.call name) ctx visits o →
    Runs p active (.operate id (.callSubroutine name) true) ctx
      (⟨active, .operate id (.callSubroutine name) true, ctx⟩ :: visits) o
  | unknown {active : List String} {name : String} {ctx : ScanContext} :
    p.subroutine? name = none →
    Runs p active (.call name) ctx [⟨active, .call name, ctx⟩]
      (ctx.fail (.error (.unknownSubroutine name)))
  | tooDeep {active : List String} {name : String} {rungs : List Rung} {ctx : ScanContext} :
    p.subroutine? name = some rungs → p.depthLimit ≤ ctx.callDepth →
    Runs p active (.call name) ctx [⟨active, .call name, ctx⟩]
      (ctx.fail (.error (.callDepthExceeded p.depthLimit)))
  | enter {active : List String} {name : String} {rungs : List Rung} {ctx : ScanContext}
    {visits : List Visit} {o : Outcome} :
    p.subroutine? name = some rungs → ctx.callDepth < p.depthLimit →
    Runs p (name :: active) (.body rungs) ctx.enterCall visits o →
    Runs p active (.call name) ctx (⟨active, .call name, ctx⟩ :: visits)
      (o.absorbLeave.mapContext ScanContext.exitCall)
  | nothing {active : List String} {ctx : ScanContext} :
    Runs p active .nothing ctx [] ctx.proceed
  | next {active : List String} {first rest : Task} {ctx : ScanContext}
    {visits more : List Visit} {mid o : Outcome} :
    Runs p active first ctx visits mid → mid.exit = .proceed →
    Runs p active rest mid.context more o → Runs p active (.seq first rest) ctx (visits ++ more) o
  | stop {active : List String} {first rest : Task} {ctx : ScanContext} {visits : List Visit}
    {o : Outcome} :
    Runs p active first ctx visits o → o.exit ≠ .proceed →
    Runs p active (.seq first rest) ctx visits o

theorem Operation.execute_eq (op : Operation) (hcall : ∀ name, op ≠ .callSubroutine name)
    (subroutines others : Subroutines) (id : InstructionId) (enabled : Bool) (ctx : ScanContext) :
    op.execute subroutines id enabled ctx = op.execute others id enabled ctx := by
  cases op with
  | callSubroutine name => exact absurd rfl (hcall name)
  | _ => rfl

theorem Operation.execute_callDepth (op : Operation) (hcall : ∀ name, op ≠ .callSubroutine name)
    (subroutines : Subroutines) (id : InstructionId) (enabled : Bool) (ctx : ScanContext) :
    (op.execute subroutines id enabled ctx).context.callDepth = ctx.callDepth :=
  (op.effect hcall subroutines id enabled ctx).frame.2.2.2

/-- What holds of all that a gate can let run holds of what it lets run. -/
theorem Instruction.gate_cases {α : Type} {P : α → Prop} {act idle spent : ScanContext → α}
    (hact : ∀ ctx, P (act ctx)) (hidle : ∀ ctx, P (idle ctx)) (hspent : ∀ ctx, P (spent ctx))
    (id : InstructionId) (oneshot enabled : Bool) (ctx : ScanContext) :
    P (gate id oneshot enabled act idle spent ctx) := by
  unfold gate
  split_ifs
  · exact hspent _
  · exact hact _
  · exact hact _
  · exact hidle _
  · exact hidle _

namespace Task

section Parts

variable {α β : Type}

theorem forall_inOrder {P : Task → Prop} (hnothing : P nothing)
    (hseq : ∀ first rest, P (seq first rest) ↔ P first ∧ P rest) {f : α → Task} {xs : List α} :
    P (inOrder (xs.map f)) ↔ ∀ x ∈ xs, P (f x) := by
  induction xs with
  | nil => exact iff_of_true hnothing nofun
  | cons x xs ih =>
    rw [List.forall_mem_cons, ← ih]
    exact hseq (f x) (inOrder (xs.map f))

theorem flatMap_inOrder {g : Task → List β} (hnothing : g nothing = [])
    (hseq : ∀ first rest, g (seq first rest) = g first ++ g rest) (f : α → Task) (xs : List α) :
    g (inOrder (xs.map f)) = xs.flatMap fun x => g (f x) := by
  induction xs with
  | nil => exact hnothing
  | cons x xs ih =>
    rw [List.flatMap_cons, ← ih]
    exact hseq (f x) (inOrder (xs.map f))

end Parts

section Reach

variable {p : Program} {id : InstructionId} {oneshot enabled : Bool} {ctx : ScanContext}
  {next : Task × ScanContext}

/-- What an operation comes to where it is reached. -/
theorem reach_single_cases {op : Operation}
    (h : (reach (.single id oneshot op) enabled).unfold p ctx = some next) :
    next.1 = nothing ∨ next.1 = operate id op true ∨
      next.1 = operate id op false ∧ op.inertWhenDisabled = false := by
  cases h
  refine Instruction.gate_cases (P := fun next : Task × ScanContext => next.1 = nothing ∨
    next.1 = operate id op true ∨ next.1 = operate id op false ∧ op.inertWhenDisabled = false)
    (fun mid => ?_) (fun mid => ?_) (fun mid => ?_) _ _ _ _
  · exact .inr (.inl rfl)
  · dsimp only
    split_ifs with hinert
    · exact .inl rfl
    · exact .inr (.inr ⟨rfl, Bool.eq_false_of_not_eq_true hinert⟩)
  · cases op with
    | out coil => exact .inr (.inr ⟨rfl, rfl⟩)
    | _ => exact .inl rfl

/-- What a loop comes to where it is reached. -/
theorem reach_loop_cases {head : ForHead} {body : List Instruction}
    (h : (reach (.loop id oneshot head body) enabled).unfold p ctx = some next) :
    next.1 = nothing ∨ next.1 = loop head body ∨
      next.1 = inOrder (body.map fun i => reach i false) := by
  cases h
  exact Instruction.gate_cases (P := fun next : Task × ScanContext => next.1 = nothing ∨
    next.1 = loop head body ∨ next.1 = inOrder (body.map fun i => reach i false))
    (fun _ => .inr (.inl rfl)) (fun _ => .inr (.inr rfl)) (fun _ => .inl rfl) _ _ _ _

end Reach

end Task

section Depth

variable {p : Program} {active : List String} {t : Task} {ctx : ScanContext}
  {visits : List Visit} {o : Outcome}

/-- Whatever the gate lets run, reaching the instruction records its enable. -/
theorem Instruction.gate_context {id : InstructionId} {oneshot enabled : Bool}
    {act idle spent : ScanContext → Task × ScanContext}
    (hact : ∀ ctx, (act ctx).2 = ctx) (hidle : ∀ ctx, (idle ctx).2 = ctx)
    (hspent : ∀ ctx, (spent ctx).2 = ctx) (ctx : ScanContext) :
    (gate id oneshot enabled act idle spent ctx).2 =
      if oneshot then ctx.setOneshot id enabled else ctx := by
  unfold gate
  split_ifs with henabled honeshot hfired honeshot
  · rw [hspent, henabled]
    unfold ScanContext.setOneshot
    rw [RuntimeTable.setOneshot_of_fired hfired]
  · rw [hact, henabled]
  · exact hact ctx
  · rw [hidle, Bool.eq_false_of_not_eq_true henabled]
  · exact hidle ctx

theorem Task.unfold_context {next : Task × ScanContext} (h : t.unfold p ctx = some next) :
    next.2 = t.entered p ctx := by
  cases t with
  | rung r =>
    cases h
    rfl
  | item item entry around =>
    cases item <;>
    · cases h
      rfl
  | reach i enabled =>
    cases i with
    | single id oneshot op =>
      cases h
      refine Instruction.gate_context (fun _ => rfl) (fun _ => rfl) (fun mid => ?_) ctx
      cases op <;> rfl
    | loop id oneshot head body =>
      cases h
      exact Instruction.gate_context (fun _ => rfl) (fun _ => rfl) (fun _ => rfl) ctx
  | loop head body =>
    cases h
    rfl
  | pass head body number =>
    cases h
    rfl
  | nothing => cases h
  | seq first rest => cases h
  | operate id op enabled => cases h
  | call name => cases h

/-- The head of a task touches no runtime entry but that of an instruction that it reaches, and
enters no subroutine. -/
theorem Task.entered_frame (p : Program) (t : Task) (ctx : ScanContext) :
    ((∀ i enabled, t ≠ .reach i enabled) → (t.entered p ctx).runtime = ctx.runtime) ∧
      (t.entered p ctx).callDepth = ctx.callDepth := by
  cases t with
  | reach i enabled =>
    refine ⟨fun h => absurd rfl (h i enabled), ?_⟩
    unfold entered
    dsimp only
    split_ifs <;> rfl
  | loop head body =>
    have heffect : (Instruction.loop 0 false head body).Effect ctx _ :=
      Instruction.passes_effect p.loopLimit ctx
    exact ⟨fun _ => heffect.frame.2.1, heffect.frame.2.2.2⟩
  | pass head body number =>
    have heffect : (Instruction.loop 0 false head body).Effect ctx _ :=
      Instruction.writeIndex_effect number ctx
    exact ⟨fun _ => heffect.frame.2.1, heffect.frame.2.2.2⟩
  | _ => exact ⟨fun _ => rfl, rfl⟩

/-- Taking a task apart enters and leaves no subroutine. -/
theorem Task.unfold_callDepth {next : Task × ScanContext} (h : t.unfold p ctx = some next) :
    next.2.callDepth = ctx.callDepth := by
  rw [unfold_context h]
  exact (t.entered_frame p ctx).2

/-- Every subroutine that a run enters it leaves, however it ends. -/
theorem Runs.callDepth (h : Runs p active t ctx visits o) :
    o.context.callDepth = ctx.callDepth := by
  induction h with
  | unfold hunfold _ ih => rw [ih, Task.unfold_callDepth hunfold]
  | operate subroutines hcall => exact Operation.execute_callDepth _ hcall _ _ _ _
  | called _ ih => exact ih
  | unknown _ => rfl
  | tooDeep _ _ => rfl
  | @enter active name rungs ctx visits o _ _ _ ih =>
    have hinside : o.context.callDepth = ctx.callDepth + 1 := ih
    obtain ⟨last, exit⟩ := o
    cases exit <;>
    · change last.callDepth - 1 = ctx.callDepth
      rw [show last.callDepth = _ from hinside, Nat.add_sub_cancel]
  | nothing => rfl
  | next _ _ _ ihfirst ihrest => rw [ihrest, ihfirst]
  | stop _ _ ih => exact ih

/-- The rules leave no choice: a task has at most one run. -/
theorem Runs.unique (h : Runs p active t ctx visits o) {visits' : List Visit} {o' : Outcome}
    (h' : Runs p active t ctx visits' o') : visits' = visits ∧ o' = o := by
  induction h generalizing visits' o' with
  | unfold hunfold _ ih =>
    cases h' with
    | unfold hunfold' hnext =>
      rw [hunfold] at hunfold'
      cases hunfold'
      obtain ⟨rfl, rfl⟩ := ih hnext
      exact ⟨rfl, rfl⟩
    | _ => cases hunfold
  | operate subroutines hcall =>
    cases h' with
    | unfold hunfold _ => cases hunfold
    | operate others _ => exact ⟨rfl, Operation.execute_eq _ hcall _ _ _ _ _⟩
    | called _ => exact absurd rfl (hcall _)
  | called _ ih =>
    cases h' with
    | unfold hunfold _ => cases hunfold
    | operate _ hcall => exact absurd rfl (hcall _)
    | called hcalled =>
      obtain ⟨rfl, rfl⟩ := ih hcalled
      exact ⟨rfl, rfl⟩
  | unknown hname =>
    cases h' with
    | unfold hunfold _ => cases hunfold
    | unknown _ => exact ⟨rfl, rfl⟩
    | tooDeep hname' _ => simp [hname] at hname'
    | enter hname' _ _ => simp [hname] at hname'
  | tooDeep hname hdeep =>
    cases h' with
    | unfold hunfold _ => cases hunfold
    | unknown hname' => simp [hname] at hname'
    | tooDeep _ _ => exact ⟨rfl, rfl⟩
    | enter _ hless _ => omega
  | enter hname hless _ ih =>
    cases h' with
    | unfold hunfold _ => cases hunfold
    | unknown hname' => simp [hname] at hname'
    | tooDeep _ hdeep => omega
    | enter hname' _ hinside =>
      rw [hname] at hname'
      cases hname'
      obtain ⟨rfl, rfl⟩ := ih hinside
      exact ⟨rfl, rfl⟩
  | nothing =>
    cases h' with
    | unfold hunfold _ => cases hunfold
    | nothing => exact ⟨rfl, rfl⟩
  | next _ hexit _ ihfirst ihrest =>
    cases h' with
    | unfold hunfold _ => cases hunfold
    | next hfirst _ hrest =>
      obtain ⟨rfl, rfl⟩ := ihfirst hfirst
      obtain ⟨rfl, rfl⟩ := ihrest hrest
      exact ⟨rfl, rfl⟩
    | stop hfirst hstop =>
      obtain ⟨rfl, rfl⟩ := ihfirst hfirst
      exact absurd hexit hstop
  | stop _ hstop ih =>
    cases h' with
    | unfold hunfold _ => cases hunfold
    | next hfirst hexit _ =>
      obtain ⟨rfl, rfl⟩ := ih hfirst
      exact absurd hexit hstop
    | stop hfirst _ =>
      obtain ⟨rfl, rfl⟩ := ih hfirst
      exact ⟨rfl, rfl⟩

end Depth

/-- Where `levels` levels of calls are left, the task has a run with this outcome. -/
def Arrives (p : Program) (levels : Nat) (t : Task) (ctx : ScanContext) (o : Outcome) : Prop :=
  p.depthLimit - ctx.callDepth = levels → ∀ active, ∃ visits, Runs p active t ctx visits o

section Arrivals

variable {p : Program} {levels : Nat} {env : Instruction.Surroundings}

theorem Arrives.unfold {t : Task} {ctx : ScanContext} {next : Task × ScanContext} {o : Outcome}
    (hunfold : t.unfold p ctx = some next) (h : Arrives p levels next.1 next.2 o) :
    Arrives p levels t ctx o := by
  intro hlevels active
  obtain ⟨visits, hruns⟩ := h (by rw [Task.unfold_callDepth hunfold, hlevels]) active
  exact ⟨_, .unfold hunfold hruns⟩

theorem Arrives.nothing (ctx : ScanContext) : Arrives p levels .nothing ctx ctx.proceed :=
  fun _ _ => ⟨[], .nothing⟩

theorem Arrives.seq {first rest : Task} {ctx : ScanContext} {o : Outcome}
    {next : ScanContext → Outcome} (hfirst : Arrives p levels first ctx o)
    (hrest : ∀ mid, Arrives p levels rest mid (next mid)) :
    Arrives p levels (.seq first rest) ctx (o.andThen next) := by
  intro hlevels active
  obtain ⟨visits, hruns⟩ := hfirst hlevels active
  obtain ⟨last, exit⟩ := o
  cases exit with
  | proceed =>
    obtain ⟨more, hmore⟩ := hrest last (by rw [← hlevels, ← hruns.callDepth]) active
    exact ⟨visits ++ more, .next hruns rfl hmore⟩
  | leave => exact ⟨visits, .stop hruns nofun⟩
  | fail e => exact ⟨visits, .stop hruns nofun⟩

theorem Arrives.gate {id : InstructionId} {oneshot : Bool}
    {act idle spent : ScanContext → Task × ScanContext}
    {actOutcome idleOutcome spentOutcome : ScanContext → Outcome}
    (hact : ∀ ctx, Arrives p levels (act ctx).1 (act ctx).2 (actOutcome ctx))
    (hidle : ∀ ctx, Arrives p levels (idle ctx).1 (idle ctx).2 (idleOutcome ctx))
    (hspent : ∀ ctx, Arrives p levels (spent ctx).1 (spent ctx).2 (spentOutcome ctx))
    (enabled : Bool) (ctx : ScanContext) :
    Arrives p levels (Instruction.gate id oneshot enabled act idle spent ctx).1
      (Instruction.gate id oneshot enabled act idle spent ctx).2
      (Instruction.gate id oneshot enabled actOutcome idleOutcome spentOutcome ctx) := by
  unfold Instruction.gate
  split_ifs
  · exact hspent ctx
  · exact hact _
  · exact hact ctx
  · exact hidle _
  · exact hidle ctx

/-- The calls of the surroundings arrive. -/
def Instruction.Surroundings.Arrive (p : Program) (levels : Nat) (env : Surroundings) : Prop :=
  env.loopLimit = p.loopLimit ∧
    ∀ name ctx, Arrives p levels (.call name) ctx (env.subroutines name ctx)

/-- An operation arrives, a CALL only where it is enabled. -/
theorem Operation.arrives (henv : env.Arrive p levels) (op : Operation) (id : InstructionId)
    {enabled : Bool} (hcall : ∀ name, op = .callSubroutine name → enabled = true)
    (ctx : ScanContext) :
    Arrives p levels (.operate id op enabled) ctx
      (op.execute env.subroutines id enabled ctx) := by
  intro hlevels active
  by_cases hop : ∃ name, op = .callSubroutine name
  · obtain ⟨name, rfl⟩ := hop
    obtain rfl := hcall name rfl
    obtain ⟨visits, hruns⟩ := henv.2 name ctx hlevels active
    exact ⟨_, .called hruns⟩
  · exact ⟨_, .operate env.subroutines fun name h => hop ⟨name, h⟩⟩

theorem Instruction.single_arrives (henv : env.Arrive p levels) (id : InstructionId)
    (oneshot : Bool) (op : Operation) (enabled : Bool) (ctx : ScanContext) :
    Arrives p levels (.reach (single id oneshot op) enabled) ctx
      ((single id oneshot op).execute env enabled ctx) := by
  unfold execute executeSingle
  refine .unfold rfl (.gate (fun mid => ?_) (fun mid => ?_) (fun mid => ?_) enabled ctx)
  · exact op.arrives henv id (fun _ _ => rfl) mid
  · dsimp only
    split_ifs with hinert
    · exact .nothing mid
    · refine op.arrives henv id (fun name h => ?_) mid
      subst h
      exact absurd rfl hinert
  · cases op with
    | out coil => exact Operation.arrives henv (.out coil) id (fun _ h => nomatch h) mid
    | _ => exact .nothing mid

theorem ScanContext.runPasses_arrives {step : Nat → ScanContext → Outcome} {pass : Nat → Task}
    (hstep : ∀ number ctx, Arrives p levels (pass number) ctx (step number ctx))
    (count number : Nat) (ctx : ScanContext) :
    Arrives p levels (.inOrder ((List.range' number count).map pass)) ctx
      (runPasses step count number ctx) := by
  induction count generalizing number ctx with
  | zero => exact .nothing ctx
  | succ count ih => exact .seq (hstep number ctx) fun mid => ih (number + 1) mid

mutual

/-- Induction over an instruction and its loop bodies. -/
theorem Instruction.arrives (henv : env.Arrive p levels) (enabled : Bool) :
    ∀ (i : Instruction) (ctx : ScanContext),
    Arrives p levels (.reach i enabled) ctx (i.execute env enabled ctx)
  | .single id oneshot op, ctx => single_arrives henv id oneshot op enabled ctx
  | .loop id oneshot head body, ctx => by
    have hbody : ∀ enabled mid, Arrives p levels
        (.inOrder (body.map fun i => .reach i enabled)) mid (executeAll env enabled body mid) :=
      fun enabled mid => Instruction.arrives_all henv enabled body mid
    unfold execute
    refine .unfold rfl (.gate (fun mid => ?_) (hbody false) .nothing enabled ctx)
    refine .unfold rfl ?_
    unfold executePasses
    rw [henv.1]
    refine ScanContext.runPasses_arrives (fun number last => ?_) _ 0 _
    exact .unfold rfl (hbody true _)

theorem Instruction.arrives_all (henv : env.Arrive p levels) (enabled : Bool) :
    ∀ (is : List Instruction) (ctx : ScanContext),
    Arrives p levels (.inOrder (is.map fun i => .reach i enabled)) ctx
      (executeAll env enabled is ctx)
  | [], ctx => by
    unfold executeAll
    exact .nothing ctx
  | i :: is, ctx => by
    unfold executeAll
    exact .seq (Instruction.arrives henv enabled i ctx)
      fun mid => Instruction.arrives_all henv enabled is mid

end

mutual

/-- Induction over an item and those inside it. -/
theorem RungItem.arrives (henv : env.Arrive p levels) (entry : ScanContext) :
    ∀ (item : RungItem) (around : List Condition) (ctx : ScanContext),
    Arrives p levels (.item item entry around) ctx (item.runUnder env entry around ctx)
  | .instruction i, around, ctx => by
    unfold runUnder
    exact .unfold rfl (i.arrives henv _ ctx)
  | .branch conditions items, around, ctx => by
    unfold runUnder
    exact .unfold rfl (RungItem.arrives_all henv entry items (around ++ conditions) ctx)

theorem RungItem.arrives_all (henv : env.Arrive p levels) (entry : ScanContext) :
    ∀ (items : List RungItem) (around : List Condition) (ctx : ScanContext),
    Arrives p levels (.inOrder (items.map fun item => .item item entry around)) ctx
      (runAllUnder env entry around items ctx)
  | [], around, ctx => by
    unfold runAllUnder
    exact .nothing ctx
  | item :: items, around, ctx => by
    unfold runAllUnder
    exact .seq (RungItem.arrives henv entry item around ctx)
      fun mid => RungItem.arrives_all henv entry items around mid

end

theorem Rung.arrives (henv : env.Arrive p levels) (r : Rung) (ctx : ScanContext) :
    Arrives p levels (.rung r) ctx (r.execute env ctx) := by
  rw [r.execute_eq_executeUnder]
  exact .unfold rfl (RungItem.arrives_all henv ctx r.items r.conditions ctx)

theorem Rung.arrives_all (henv : env.Arrive p levels) (rs : List Rung) (ctx : ScanContext) :
    Arrives p levels (.body rs) ctx (executeAll env rs ctx) := by
  induction rs generalizing ctx with
  | nil => exact .nothing ctx
  | cons r rs ih => exact .seq (r.arrives henv ctx) ih

end Arrivals

namespace Program

/-- Induction on the levels that are left: a CALL inside a subroutine has one level less. -/
theorem callWithin_arrives (p : Program) (levels : Nat) (name : String) (ctx : ScanContext) :
    Arrives p levels (.call name) ctx (p.callWithin levels name ctx) := by
  induction levels generalizing name ctx with
  | zero =>
    intro hlevels active
    unfold callWithin
    cases hname : p.subroutine? name with
    | none => exact ⟨_, .unknown hname⟩
    | some rungs => exact ⟨_, .tooDeep hname (by omega)⟩
  | succ levels ih =>
    intro hlevels active
    unfold callWithin
    cases hname : p.subroutine? name with
    | none => exact ⟨_, .unknown hname⟩
    | some rungs =>
      have hlevel : p.depthLimit - ctx.enterCall.callDepth = levels := by
        change p.depthLimit - (ctx.callDepth + 1) = levels
        omega
      have henv : Instruction.Surroundings.Arrive p levels ⟨p.loopLimit, p.callWithin levels⟩ :=
        ⟨rfl, ih⟩
      obtain ⟨visits, hruns⟩ := Rung.arrives_all henv rungs ctx.enterCall hlevel (name :: active)
      exact ⟨_, .enter hname (by omega) hruns⟩

/-- The function that calls a subroutine ends as the run of the CALL does. -/
theorem call_runs (p : Program) (name : String) (ctx : ScanContext) (active : List String) :
    ∃ visits, Runs p active (.call name) ctx visits (p.call name ctx) :=
  p.callWithin_arrives _ name ctx rfl active

theorem surroundings_arrive (p : Program) (ctx : ScanContext) :
    (p.surroundings ctx).Arrive p (p.depthLimit - ctx.callDepth) :=
  ⟨rfl, fun name mid => p.callWithin_arrives _ name mid⟩

theorem evaluate_runs (p : Program) (ctx : ScanContext) :
    ∃ visits, Runs p [] (.body p.rungs) (p.prepare ctx) visits (p.evaluate ctx) :=
  Rung.arrives_all (p.surroundings_arrive (p.prepare ctx)) p.rungs (p.prepare ctx) rfl []

end Program

end LadderLogic
