import LadderLogic.Proofs.Machine.Operation
import LadderLogic.Proofs.Scan.Faults

/-!
Programs in guarded steps. The machine works an agenda off as the program does: the number of passes
of a loop, the number of each pass and the depth of calls are words of their sizes, since the limits
of the program are. So a scan stops at an operation that overflows and nowhere else.
-/

set_option autoImplicit false

namespace LadderLogic

open Machine

theorem Integer.fits_of_lt_two_pow {n : Nat} (h : n < 2 ^ 32) : Fits n := by
  refine fits_of_small ?_
  omega

namespace ForHead

/-- The number of passes. The count is compared with the limit as a signed word, and is cut to an
unsigned one behind that. -/
def passesGuarded (head : ForHead) (limit : Nat) (ctx : ScanContext) :
    Machine (Nat × ScanContext) :=
  match head.count.evaluate ctx with
  | .error e => return (0, ctx.raise e.fault)
  | .ok v => do
    let count := v.toInt?.getD 0
    if (← word limit) < count then
      return (limit, (ctx.report (.loopClamped count limit)).raise .outOfRange)
    return (← unsigned 32 (max count 0), ctx)

def writeIndexGuarded (head : ForHead) (pass : Nat) (ctx : ScanContext) : Machine ScanContext := do
  match head.index.type.storeCopy (.int (← word pass)) with
  | some v => return ctx.write head.index v
  | none => return ctx

variable {head : ForHead} {limit pass : Nat}

theorem passes_le (head : ForHead) (limit : Nat) (ctx : ScanContext) :
    (head.passes limit ctx).1 ≤ limit := by
  unfold passes
  split
  · exact Nat.zero_le limit
  · dsimp only
    split_ifs with hclamped
    · exact le_rfl
    · exact Int.toNat_le.mpr (not_lt.mp hclamped)

theorem passesGuarded_eq (hlimit : limit < 2 ^ 32) (ctx : ScanContext) :
    head.passesGuarded limit ctx = .ok (head.passes limit ctx) := by
  unfold passesGuarded passes
  cases head.count.evaluate ctx with
  | error e => rfl
  | ok v =>
    dsimp only
    rw [word_of_fits (Integer.fits_of_lt_two_pow hlimit)]
    change (if _ then _ else _) = _
    split_ifs with hclamped
    · rfl
    · have hcount : max (v.toInt?.getD 0) 0 = ((v.toInt?.getD 0).toNat : Int) := by omega
      have hbound : (v.toInt?.getD 0).toNat < 2 ^ 32 := by omega
      rw [hcount, unsigned_of_lt hbound]
      rfl

theorem writeIndexGuarded_eq (hpass : pass < 2 ^ 32) (ctx : ScanContext) :
    head.writeIndexGuarded pass ctx = .ok (head.writeIndex pass ctx) := by
  unfold writeIndexGuarded writeIndex
  rw [word_of_fits (Integer.fits_of_lt_two_pow hpass)]
  change (match head.index.type.storeCopy _ with | some _ => _ | none => _) = _
  cases head.index.type.storeCopy (.int pass) <;> rfl

end ForHead

/-- The depth of calls is counted in an unsigned word. -/
def ScanContext.enterCallGuarded (ctx : ScanContext) : Machine ScanContext := do
  let depth ← unsigned 64 (ctx.callDepth + 1)
  return { ctx with callDepth := depth }

theorem ScanContext.enterCallGuarded_eq {ctx : ScanContext} (h : ctx.callDepth < 2 ^ 32) :
    ctx.enterCallGuarded = .ok ctx.enterCall := by
  have hdepth : ctx.callDepth + 1 < 2 ^ 64 := by omega
  unfold enterCallGuarded
  rw [show (ctx.callDepth : Int) + 1 = ((ctx.callDepth + 1 : Nat) : Int) from rfl,
    unsigned_of_lt hdepth]
  rfl

namespace Program

theorem loopLimit_lt (p : Program) : p.loopLimit < 2 ^ 32 := p.limits.maxLoopIterations.toNat_lt

theorem depthLimit_lt (p : Program) : p.depthLimit < 2 ^ 32 := p.limits.maxCallDepth.toNat_lt

/-- The constructors let every operation of the program through. -/
def Checked (p : Program) : Prop :=
  ∀ id oneshot op, .single id oneshot op ∈ p.instructions → op.Checked

/-- The numbers that stand in the program are words: what its instructions write by themselves, and
the literals and defaults in the expressions that it evaluates. -/
structure InWords (p : Program) : Prop where
  instructions : ∀ i ∈ p.instructions, i.InWords
  operands : ∀ e, p.HasOperand e → e.InWords

end Program

namespace Task

variable {p : Program} {t : Task} {ctx : ScanContext} {next : Task × ScanContext}

/-- What a task consists of. Only loops and their passes calculate anything there. -/
def unfoldGuarded (p : Program) (t : Task) (ctx : ScanContext) :
    Machine (Option (Task × ScanContext)) :=
  match t with
  | loop head body => do
    let (passes, ctx) ← head.passesGuarded p.loopLimit ctx
    return some (inOrder ((List.range' 0 passes).map (pass head body)), ctx)
  | pass head body number => do
    let ctx ← head.writeIndexGuarded number ctx
    return some (inOrder (body.map fun i => reach i true), ctx)
  | rung r => return (rung r).unfold p ctx
  | item part entry around => return (item part entry around).unfold p ctx
  | reach i enabled => return (reach i enabled).unfold p ctx
  | nothing => return none
  | seq _ _ => return none
  | operate _ _ _ => return none
  | call _ => return none

/-- The passes that a task is about have numbers below the limit. -/
def InLimit (p : Program) : Task → Prop
  | seq first rest => first.InLimit p ∧ rest.InLimit p
  | pass _ _ number => number < p.loopLimit
  | _ => True

/-- The task stands in the program, and a run of the program may come to it. -/
structure Ready (p : Program) (t : Task) : Prop extends t.Belongs p where
  inLimit : t.InLimit p

theorem Plain.inLimit (h : t.Plain) : t.InLimit p := by
  induction t with
  | seq first rest ihfirst ihrest => exact ⟨ihfirst h.1, ihrest h.2⟩
  | pass head body number => exact h.elim
  | _ => trivial

theorem inLimit_unfold (h : t.unfold p ctx = some next) : next.1.InLimit p := by
  by_cases hloop : ∃ head body, t = loop head body
  · obtain ⟨head, body, rfl⟩ := hloop
    cases h
    refine (forall_inOrder trivial fun _ _ => Iff.rfl).mpr fun number hnumber => ?_
    have hless := (List.mem_range'_1.mp hnumber).2
    rw [Nat.zero_add] at hless
    exact hless.trans_le (head.passes_le p.loopLimit ctx)
  · obtain ⟨next, mid⟩ := next
    cases yields_unfold h with
    | plain hplain => exact hplain.inLimit
    | operate _ _ => trivial
    | loop _ => trivial
    | passes numbers ht => exact absurd ⟨_, _, ht⟩ hloop

theorem unfoldGuarded_eq (h : t.InLimit p) (ctx : ScanContext) :
    t.unfoldGuarded p ctx = .ok (t.unfold p ctx) := by
  cases t with
  | loop head body =>
    rw [unfoldGuarded, ForHead.passesGuarded_eq p.loopLimit_lt]
    rfl
  | pass head body number =>
    rw [unfoldGuarded, ForHead.writeIndexGuarded_eq (h.trans p.loopLimit_lt)]
    rfl
  | item part entry around => rfl
  | reach i enabled => rfl
  | rung _ | nothing | seq _ _ | operate _ _ _ | call _ => rfl

end Task

namespace Agenda

variable {p : Program} {t : Task} {ctx : ScanContext} {a next : Agenda} {o : Outcome}

def performGuarded (p : Program) (t : Task) (ctx : ScanContext) : Machine (List Frame × Outcome) :=
  match t with
  | .nothing => return ([], ctx.proceed)
  | .seq first rest => return ([.task first, .task rest], ctx.proceed)
  | .operate _ (.callSubroutine name) _ => return ([.task (.call name)], ctx.proceed)
  | .operate id op enabled => do
    let flow ← op.executeGuarded (fun _ ctx => ctx.proceed) id enabled ctx
    return ([], flow)
  | .call name =>
    match p.subroutine? name with
    | none => return ([], ctx.fail (.error (.unknownSubroutine name)))
    | some rungs => do
      if ctx.callDepth < p.depthLimit then
        let inside ← ctx.enterCallGuarded
        return ([.task (.body rungs), .endCall], inside.proceed)
      return ([], ctx.fail (.error (.callDepthExceeded p.depthLimit)))
  | t => do
    match ← t.unfoldGuarded p ctx with
    | none => return ([], ctx.proceed)
    | some (next, mid) => return ([.task next], mid.proceed)

/-- One step on the machine. Leaving a subroutine saturates. -/
def stepGuarded (p : Program) : Agenda → Machine (Option Agenda)
  | ⟨[], _⟩ => return none
  | ⟨.endCall :: rest, flow⟩ =>
    return some ⟨rest, flow.absorbLeave.mapContext ScanContext.exitCall⟩
  | ⟨.task t :: rest, ⟨ctx, .proceed⟩⟩ => do
    let (frames, flow) ← performGuarded p t ctx
    return some ⟨frames ++ rest, flow⟩
  | ⟨.task _ :: rest, ⟨ctx, .leave⟩⟩ => return some ⟨rest, ctx.leave⟩
  | ⟨.task _ :: rest, ⟨ctx, .fail e⟩⟩ => return some ⟨rest, ctx.fail e⟩

/-- The machine works the agenda off, until nothing is ahead or until an accident. -/
inductive EndsAs (p : Program) : Agenda → Machine Outcome → Prop
  | done {a : Agenda} : a.stepGuarded p = .ok none → EndsAs p a (.ok a.flow)
  | stop {a : Agenda} {accident : Accident} :
    a.stepGuarded p = .error accident → EndsAs p a (.error accident)
  | step {a next : Agenda} {result : Machine Outcome} :
    a.stepGuarded p = .ok (some next) → EndsAs p next result → EndsAs p a result

/-- All tasks ahead stand in the program. -/
def Ready (p : Program) (a : Agenda) : Prop := ∀ t, .task t ∈ a.frames → t.Ready p

/-- The machine leaves no choice. -/
theorem EndsAs.unique {result other : Machine Outcome} (h : EndsAs p a result)
    (h' : EndsAs p a other) : other = result := by
  induction h with
  | done hdone =>
    cases h' with
    | done _ => rfl
    | stop hstop => cases hdone.symm.trans hstop
    | step hstep _ => cases hdone.symm.trans hstep
  | stop hstop =>
    cases h' with
    | done hdone => cases hdone.symm.trans hstop
    | stop hstop' =>
      cases hstop.symm.trans hstop'
      rfl
    | step hstep _ => cases hstep.symm.trans hstop
  | step hstep _ ih =>
    cases h' with
    | done hdone => cases hdone.symm.trans hstep
    | stop hstop => cases hstop.symm.trans hstep
    | step hstep' hnext =>
      cases hstep.symm.trans hstep'
      exact ih hnext

theorem ready_perform (h : t.Ready p) : ∀ u, .task u ∈ (perform p t ctx).1 → u.Ready p := by
  intro u hu
  refine ⟨belongs_perform h.toBelongs u hu, ?_⟩
  rcases task_of_perform hu with ⟨other, rfl | rfl⟩ | ⟨name, rfl⟩ | ⟨name, rungs, -, rfl⟩ |
    ⟨mid, hunfold⟩
  · exact h.inLimit.1
  · exact h.inLimit.2
  · trivial
  · exact (Task.plain_body rungs).inLimit
  · exact Task.inLimit_unfold hunfold

theorem ready_step? (h : a.Ready p) (hstep : a.step? p = some next) : next.Ready p := by
  obtain ⟨frames, ⟨ctx, exit⟩⟩ := a
  cases frames with
  | nil => cases hstep
  | cons frame rest =>
    have hrest : ∀ u, .task u ∈ rest → u.Ready p := fun u hu => h u (List.mem_cons_of_mem _ hu)
    cases frame with
    | endCall =>
      cases hstep
      exact hrest
    | task t =>
      cases exit with
      | proceed =>
        cases hstep
        intro u hu
        rcases List.mem_append.mp hu with hu | hu
        · exact ready_perform (h t List.mem_cons_self) u hu
        · exact hrest u hu
      | leave =>
        cases hstep
        exact hrest
      | fail e =>
        cases hstep
        exact hrest

theorem performGuarded_operate {op : Operation} (hcall : ∀ name, op ≠ .callSubroutine name)
    (id : InstructionId) (enabled : Bool) (ctx : ScanContext) :
    performGuarded p (.operate id op enabled) ctx =
      Prod.mk [] <$> op.executeGuarded (fun _ ctx => ctx.proceed) id enabled ctx := by
  rw [map_eq_pure_bind]
  cases op with
  | callSubroutine name => exact absurd rfl (hcall name)
  | _ => rfl

section Steps

variable (hchecked : p.Checked) (hwords : p.InWords)

include hchecked hwords

/-- What takes the place of a task on the machine is what takes its place in the program. -/
theorem performGuarded_eq (h : t.Ready p) (ctx : ScanContext) :
    performGuarded p t ctx = Prod.mk (perform p t ctx).1 <$> (perform p t ctx).2.onMachine := by
  cases t with
  | nothing => rfl
  | seq first rest => rfl
  | operate id op enabled =>
    by_cases hcall : ∃ name, op = .callSubroutine name
    · obtain ⟨name, rfl⟩ := hcall
      rfl
    · have hcall : ∀ name, op ≠ .callSubroutine name := fun name heq => hcall ⟨name, heq⟩
      obtain ⟨oneshot, hop⟩ := h.named
      rw [performGuarded_operate hcall, perform_operate hcall fun _ ctx => ctx.proceed,
        op.executeGuarded_eq (hchecked id oneshot op hop) (hwords.instructions _ hop)]
  | call name =>
    unfold performGuarded perform
    dsimp only
    cases p.subroutine? name with
    | none => rfl
    | some rungs =>
      dsimp only
      split_ifs with hroom
      · rw [ScanContext.enterCallGuarded_eq (hroom.trans p.depthLimit_lt)]
        rfl
      · rfl
  | rung r | item part entry around | reach i enabled | loop head body | pass head body number =>
    unfold performGuarded perform
    dsimp only
    rw [Task.unfoldGuarded_eq h.inLimit]
    generalize Task.unfold p _ ctx = result
    cases result <;> rfl

/-- One step on the machine is a step of the program, unless that comes to an overflow. -/
theorem stepGuarded_of_step? (hready : a.Ready p) (hflow : a.flow.onMachine = .ok a.flow)
    (hstep : a.step? p = some next) :
    a.stepGuarded p = (fun flow => some ⟨next.frames, flow⟩) <$> next.flow.onMachine := by
  obtain ⟨frames, ⟨ctx, exit⟩⟩ := a
  cases frames with
  | nil => cases hstep
  | cons frame rest =>
    cases frame with
    | endCall =>
      cases hstep
      cases exit with
      | proceed => rfl
      | leave => rfl
      | fail failure =>
        cases failure with
        | error e => rfl
        | overflow exact => cases hflow
    | task t =>
      cases exit with
      | proceed =>
        change step? p ⟨.task t :: rest, ctx.proceed⟩ = some next at hstep
        rw [step?_perform] at hstep
        cases hstep
        have hperform := performGuarded_eq hchecked hwords (hready t List.mem_cons_self) ctx
        unfold stepGuarded
        dsimp only
        rw [hperform]
        cases (perform p t ctx).2.onMachine <;> rfl
      | leave =>
        cases hstep
        rfl
      | fail failure =>
        cases hstep
        cases failure with
        | error e => rfl
        | overflow exact => cases hflow

/-- The machine works an agenda off as the program does, up to an overflow. Induction over the
steps that are still ahead. -/
theorem EndsAs.of_steps (hready : a.Ready p) (hflow : a.flow.onMachine = .ok a.flow)
    (hsteps : Steps p a ⟨[], o⟩) : EndsAs p a o.onMachine := by
  induction hsteps using Relation.ReflTransGen.head_induction_on with
  | refl =>
    rw [show o.onMachine = .ok o from hflow]
    exact .done rfl
  | @head a next hstep hrest ih =>
    have hguarded := stepGuarded_of_step? hchecked hwords hready hflow hstep
    rcases next.flow.onMachine_cases with hnext | ⟨exact, hexit⟩
    · rw [hnext] at hguarded
      exact .step hguarded (ih (ready_step? hready hstep) hnext)
    · obtain ⟨frames, ⟨mid, exit⟩⟩ := next
      obtain rfl : exit = _ := hexit
      rw [Outcome.onMachine_of_overflow (exit_of_steps_fail hrest)]
      exact .stop hguarded

end Steps

end Agenda

end LadderLogic
