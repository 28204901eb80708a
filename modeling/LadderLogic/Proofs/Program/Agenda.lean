import LadderLogic.Proofs.Program.Derivation

/-!
A running program as an agenda: the tasks that are still ahead and, between them, the ends of the
subroutines that have been called. What lies behind such an end belongs to the caller. The agenda is
worked off one step at a time and arrives where the runs of the program end.
-/

set_option autoImplicit false

namespace LadderLogic

inductive Frame where
  | task (t : Task)
  /-- The end of the innermost subroutine that is active in front of it. -/
  | endCall

/-- What is ahead, and how the flow stands where it is taken up. -/
structure Agenda where
  frames : List Frame
  flow : Outcome

namespace Agenda

/-- What takes the place of a task on the agenda, and how the flow stands then. A CALL puts the end
of the subroutine behind its rungs. -/
def perform (p : Program) (t : Task) (ctx : ScanContext) : List Frame × Outcome :=
  match t with
  | .nothing => ([], ctx.proceed)
  | .seq first rest => ([.task first, .task rest], ctx.proceed)
  | .operate _ (.callSubroutine name) _ => ([.task (.call name)], ctx.proceed)
  | .operate id op enabled => ([], op.execute (fun _ ctx => ctx.proceed) id enabled ctx)
  | .call name =>
    match p.subroutine? name with
    | none => ([], ctx.fail (.error (.unknownSubroutine name)))
    | some rungs =>
      if ctx.callDepth < p.depthLimit then
        ([.task (.body rungs), .endCall], ctx.enterCall.proceed)
      else ([], ctx.fail (.error (.callDepthExceeded p.depthLimit)))
  | t =>
    match t.unfold p ctx with
    | none => ([], ctx.proceed)
    | some (next, mid) => ([.task next], mid.proceed)

/-- One step. A flow that was left or has failed drops the tasks, and a flow that was left goes on
behind the next end of a subroutine. -/
def step? (p : Program) : Agenda → Option Agenda
  | ⟨[], _⟩ => none
  | ⟨.endCall :: rest, flow⟩ => some ⟨rest, flow.absorbLeave.mapContext ScanContext.exitCall⟩
  | ⟨.task t :: rest, ⟨ctx, .proceed⟩⟩ =>
    let (frames, flow) := perform p t ctx
    some ⟨frames ++ rest, flow⟩
  | ⟨.task _ :: rest, ⟨ctx, .leave⟩⟩ => some ⟨rest, ctx.leave⟩
  | ⟨.task _ :: rest, ⟨ctx, .fail e⟩⟩ => some ⟨rest, ctx.fail e⟩

/-- How many subroutines end on the agenda. -/
def ends : List Frame → Nat
  | [] => 0
  | .task _ :: rest => ends rest
  | .endCall :: rest => ends rest + 1

abbrev Steps (p : Program) : Agenda → Agenda → Prop :=
  Relation.ReflTransGen fun agenda next => agenda.step? p = some next

section Steps

variable {p : Program} {t : Task} {ctx mid : ScanContext} {rest : List Frame} {o : Outcome}

theorem perform_of_unfold {next : Task} (h : t.unfold p ctx = some (next, mid)) :
    perform p t ctx = ([.task next], mid.proceed) := by
  cases t with
  | nothing => cases h
  | seq first rest => cases h
  | operate id op enabled => cases h
  | call name => cases h
  | _ =>
    unfold perform
    simp only [h]

theorem perform_operate {op : Operation} (hcall : ∀ name, op ≠ .callSubroutine name)
    (subroutines : Subroutines) (id : InstructionId) (enabled : Bool) (ctx : ScanContext) :
    perform p (.operate id op enabled) ctx = ([], op.execute subroutines id enabled ctx) := by
  have hother := op.execute_eq hcall (fun _ ctx => ctx.proceed) subroutines id enabled ctx
  cases op with
  | callSubroutine name => exact absurd rfl (hcall name)
  | _ => exact congrArg (Prod.mk []) hother

theorem step?_perform (t : Task) (ctx : ScanContext) (rest : List Frame) :
    step? p ⟨.task t :: rest, ctx.proceed⟩ =
      some ⟨(perform p t ctx).1 ++ rest, (perform p t ctx).2⟩ :=
  rfl

/-- Where the tasks come from that take the place of a task. -/
theorem task_of_perform {u : Task} (h : .task u ∈ (perform p t ctx).1) :
    (∃ other, t = .seq u other ∨ t = .seq other u) ∨ (∃ name, u = .call name) ∨
      (∃ name rungs, p.subroutine? name = some rungs ∧ u = .body rungs) ∨
      ∃ mid, t.unfold p ctx = some (u, mid) := by
  cases t with
  | nothing => cases h
  | seq first rest =>
    rcases List.mem_pair.mp h with h | h <;> cases h
    · exact .inl ⟨rest, .inl rfl⟩
    · exact .inl ⟨first, .inr rfl⟩
  | operate id op enabled =>
    by_cases hcall : ∃ name, op = .callSubroutine name
    · obtain ⟨name, rfl⟩ := hcall
      cases List.mem_singleton.mp h
      exact .inr (.inl ⟨name, rfl⟩)
    · rw [perform_operate (fun name heq => hcall ⟨name, heq⟩) p.call] at h
      cases h
  | call name =>
    unfold perform at h
    dsimp only at h
    split at h
    case h_1 => cases h
    case h_2 rungs hname =>
      split_ifs at h
      · rcases List.mem_pair.mp h with h | h <;> cases h
        exact .inr (.inr (.inl ⟨name, rungs, hname, rfl⟩))
      · cases h
  | rung r | item item entry around | reach i enabled | loop head body | pass head body number =>
    unfold perform at h
    dsimp only at h
    split at h
    case h_1 => cases h
    case h_2 next mid hunfold =>
      cases List.mem_singleton.mp h
      exact .inr (.inr (.inr ⟨mid, hunfold⟩))

/-- A flow that does not go on drops the next task. -/
theorem step?_drop (h : o.exit ≠ .proceed) (t : Task) (rest : List Frame) :
    step? p ⟨.task t :: rest, o⟩ = some ⟨rest, o⟩ := by
  obtain ⟨last, exit⟩ := o
  cases exit with
  | proceed => exact absurd rfl h
  | leave => rfl
  | fail e => rfl

theorem steps_of_perform {frames : List Frame} (h : perform p t ctx = (frames, o))
    {last : Agenda} (hrest : Steps p ⟨frames ++ rest, o⟩ last) :
    Steps p ⟨.task t :: rest, ctx.proceed⟩ last := by
  refine .head ?_ hrest
  rw [step?_perform, h]

/-- A failure drops everything that is ahead, and only the call depth changes on the way. -/
theorem steps_of_fail (rest : List Frame) (ctx : ScanContext) (e : ScanFailure) :
    Steps p ⟨rest, ctx.fail e⟩ ⟨[], (ScanContext.exitCall^[ends rest] ctx).fail e⟩ := by
  induction rest generalizing ctx with
  | nil => exact .refl
  | cons frame rest ih =>
    cases frame with
    | task t => exact .head rfl (ih ctx)
    | endCall => exact .head rfl (ih ctx.exitCall)

/-- The steps leave no choice, so a run that ends leads there from every agenda on the way. -/
theorem steps_from_between {first between : Agenda} (hbetween : Steps p first between)
    (hend : Steps p first ⟨[], o⟩) : Steps p between ⟨[], o⟩ := by
  have hunique : Relator.RightUnique fun agenda next : Agenda => agenda.step? p = some next :=
    fun agenda next other hnext hother => Option.some.inj (hnext.symm.trans hother)
  rcases hbetween.total_of_right_unique hunique hend with h | h
  · exact h
  · rcases h.cases_head with heq | ⟨next, hnext, -⟩
    · rw [heq]
    · cases hnext

/-- An agenda that has been worked off takes no step, so a run ends in one way. -/
theorem steps_unique {first : Agenda} {other : Outcome} (h : Steps p first ⟨[], o⟩)
    (h' : Steps p first ⟨[], other⟩) : other = o := by
  rcases (steps_from_between h' h).cases_head with heq | ⟨next, hnext, -⟩
  · exact congrArg Agenda.flow heq
  · cases hnext

/-- A failure is how the run ends. -/
theorem exit_of_steps_fail {e : ScanFailure} (h : Steps p ⟨rest, ctx.fail e⟩ ⟨[], o⟩) :
    o.exit = .fail e := by
  obtain rfl := steps_unique (steps_of_fail rest ctx e) h
  rfl

end Steps

end Agenda

open Agenda

/-- The agenda deals with a task as the run of the task does, whatever comes after it. Induction
over the run: the rest of the agenda grows where a task is taken apart and where a subroutine is
entered. -/
theorem Runs.steps {p : Program} {active : List String} {t : Task} {ctx : ScanContext}
    {visits : List Visit} {o : Outcome} (h : Runs p active t ctx visits o) (rest : List Frame) :
    Steps p ⟨.task t :: rest, ctx.proceed⟩ ⟨rest, o⟩ := by
  induction h generalizing rest with
  | unfold hunfold _ ih => exact steps_of_perform (perform_of_unfold hunfold) (ih rest)
  | operate subroutines hcall =>
    exact steps_of_perform (perform_operate hcall subroutines _ _ _) .refl
  | called _ ih => exact steps_of_perform rfl (ih rest)
  | @unknown active name ctx hname =>
    have hperform : perform p (.call name) ctx = ([], ctx.fail (.error (.unknownSubroutine name))) := by
      simp only [perform, hname]
    exact steps_of_perform hperform .refl
  | @tooDeep active name rungs ctx hname hdeep =>
    have hperform : perform p (.call name) ctx =
        ([], ctx.fail (.error (.callDepthExceeded p.depthLimit))) := by
      simp only [perform, hname, if_neg (not_lt.mpr hdeep)]
    exact steps_of_perform hperform .refl
  | @enter active name rungs ctx visits o hname hroom _ ih =>
    have hperform : perform p (.call name) ctx =
        ([.task (.body rungs), .endCall], ctx.enterCall.proceed) := by
      simp only [perform, hname, if_pos hroom]
    exact steps_of_perform hperform ((ih (.endCall :: rest)).tail rfl)
  | nothing => exact steps_of_perform rfl .refl
  | @next active first second ctx visits more mid o _ hexit _ ihfirst ihsecond =>
    have hmid : mid = mid.context.proceed := by
      obtain ⟨last, exit⟩ := mid
      cases hexit
      rfl
    have hfirst := ihfirst (.task second :: rest)
    rw [hmid] at hfirst
    exact steps_of_perform rfl (hfirst.trans (ihsecond rest))
  | @stop active first second ctx visits o _ hstop ih =>
    have hfirst := (ih (.task second :: rest)).tail (step?_drop hstop second rest)
    exact steps_of_perform rfl hfirst

namespace Program

/-- The program's own evaluation is the agenda of its main rungs, worked off. -/
theorem evaluate_steps (p : Program) (ctx : ScanContext) :
    Steps p ⟨[.task (.body p.rungs)], (p.prepare ctx).proceed⟩ ⟨[], p.evaluate ctx⟩ := by
  obtain ⟨visits, hruns⟩ := p.evaluate_runs ctx
  exact hruns.steps []

/-- A CALL leaves the rest of the agenda as it is. -/
theorem call_steps (p : Program) (name : String) (ctx : ScanContext) (rest : List Frame) :
    Steps p ⟨.task (.call name) :: rest, ctx.proceed⟩ ⟨rest, p.call name ctx⟩ := by
  obtain ⟨visits, hruns⟩ := p.call_runs name ctx []
  exact hruns.steps rest

end Program

end LadderLogic
