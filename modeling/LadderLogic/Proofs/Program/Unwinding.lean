import LadderLogic.Proofs.Program.Agenda
import LadderLogic.Proofs.Program.Building
import LadderLogic.Proofs.Scan.Frame

/-!
What a RETURN ends. It is the last that happens in its activation of a subroutine, whatever branches
and loops stand around it, and the caller goes on as behind a subroutine that has run to its end.
Without a RETURN the rungs run in order, all of them unless an error stops the scan.
-/

set_option autoImplicit false

namespace LadderLogic

namespace Task

/-- The rungs that a task consists of; those of a subroutine belong to its CALL. -/
def rungs : Task → List Rung
  | rung r => [r]
  | seq first rest => first.rungs ++ rest.rungs
  | _ => []

/-- An operation that is inert on a false rung does not stand in the task as disabled. -/
def Acts : Task → Prop
  | operate _ op enabled => op.inertWhenDisabled = true → enabled = true
  | seq first rest => first.Acts ∧ rest.Acts
  | _ => True

@[simp] theorem rungs_inOrder {α : Type} (f : α → Task) (xs : List α) :
    (inOrder (xs.map f)).rungs = xs.flatMap fun x => (f x).rungs :=
  flatMap_inOrder rfl (fun _ _ => rfl) f xs

@[simp] theorem acts_inOrder {α : Type} {f : α → Task} {xs : List α} :
    (inOrder (xs.map f)).Acts ↔ ∀ x ∈ xs, (f x).Acts :=
  forall_inOrder trivial fun _ _ => Iff.rfl

theorem rungs_body (rs : List Rung) : (body rs).rungs = rs := by
  simp [body, rungs]

theorem acts_body (rs : List Rung) : (body rs).Acts := by
  simp [body, Acts]

section Unfold

variable {p : Program} {t : Task} {ctx : ScanContext} {next : Task × ScanContext}

/-- Inside a rung there is no other one, and what is inert there when disabled is enabled. -/
theorem inside_of_unfold (h : t.unfold p ctx = some next) :
    next.1.rungs = [] ∧ next.1.Acts := by
  cases t with
  | rung r =>
    cases h
    simp [rungs, Acts]
  | item item entry around =>
    cases item <;>
    · cases h
      simp [rungs, Acts]
  | reach i enabled =>
    cases i with
    | single id oneshot op =>
      rcases reach_single_cases h with hnext | hnext | ⟨hnext, hinert⟩
      · simp [hnext, rungs, Acts]
      · simp [hnext, rungs, Acts]
      · simp [hnext, rungs, Acts, hinert]
    | loop id oneshot head body =>
      rcases reach_loop_cases h with hnext | hnext | hnext
      · simp [hnext, rungs, Acts]
      · simp [hnext, rungs, Acts]
      · simp [hnext, rungs, Acts]
  | loop head body =>
    cases h
    simp [rungs, Acts]
  | pass head body number =>
    cases h
    simp [rungs, Acts]
  | nothing => cases h
  | seq first rest => cases h
  | operate id op enabled => cases h
  | call name => cases h

end Unfold

end Task

namespace Visit

/-- A RETURN runs in the activation itself, not in a subroutine that it has called. -/
def Returns (active : List String) (v : Visit) : Prop :=
  v.active = active ∧ ∃ id, v.task = .operate id .leaveSubroutine true

/-- The rung that is entered in the activation itself. -/
def rung? (active : List String) (v : Visit) : Option Rung :=
  match v.task with
  | .rung r => if v.active = active then some r else none
  | _ => none

theorem not_returns {current active : List String} {t : Task} {ctx : ScanContext}
    (h : ∀ id, t ≠ .operate id .leaveSubroutine true) : ¬Returns active ⟨current, t, ctx⟩ := by
  rintro ⟨-, id, htask⟩
  exact h id htask

end Visit

section Activation

variable {p : Program} {active : List String} {t : Task} {ctx : ScanContext}
  {visits : List Visit} {o : Outcome}

/-- While a run goes on, the subroutines around it stay active. -/
theorem Runs.active_isSuffix (h : Runs p active t ctx visits o) :
    ∀ v ∈ visits, active <:+ v.active := by
  induction h with
  | unfold _ _ ih => exact List.forall_mem_cons.mpr ⟨List.suffix_rfl, ih⟩
  | operate _ _ => simp
  | called _ ih => exact List.forall_mem_cons.mpr ⟨List.suffix_rfl, ih⟩
  | unknown _ => simp
  | tooDeep _ _ => simp
  | enter _ _ _ ih =>
    refine List.forall_mem_cons.mpr ⟨List.suffix_rfl, fun v hv => ?_⟩
    exact (List.suffix_cons _ _).trans (ih v hv)
  | nothing => simp
  | next _ _ _ ihfirst ihrest => exact List.forall_mem_append.mpr ⟨ihfirst, ihrest⟩
  | stop _ _ ih => exact ih

/-- What happens in a called subroutine happens in an activation of its own. -/
theorem Runs.active_ne {name : String} (h : Runs p (name :: active) t ctx visits o) :
    ∀ v ∈ visits, v.active ≠ active := by
  intro v hv heq
  have hlonger := (h.active_isSuffix v hv).length_le
  rw [heq, List.length_cons] at hlonger
  omega

/-- The rungs that a run enters in its own activation. -/
def rungsOf (active : List String) (visits : List Visit) : List Rung :=
  visits.filterMap (Visit.rung? active)

theorem Runs.rungsOf_caller {name : String} (h : Runs p (name :: active) t ctx visits o) :
    rungsOf active visits = [] := by
  refine List.filterMap_eq_nil_iff.mpr fun v hv => ?_
  have hactive := h.active_ne v hv
  unfold Visit.rung?
  split
  · exact if_neg hactive
  · rfl

/-- A run enters the rungs of its task in order, and all of them if it goes on. Induction over the
run: taking a rung apart leaves no rung, and those of a subroutine are entered in its activation. -/
theorem Runs.rungs_isPrefix (h : Runs p active t ctx visits o) :
    rungsOf active visits <+: t.rungs ∧ (o.exit = .proceed → rungsOf active visits = t.rungs) := by
  induction h with
  | @unfold active t next ctx mid visits o hunfold _ ih =>
    have hnone : rungsOf active visits = [] := by
      have hprefix := ih.1
      rw [(Task.inside_of_unfold hunfold).1] at hprefix
      exact List.prefix_nil.mp hprefix
    have hself : rungsOf active (⟨active, t, ctx⟩ :: visits) = t.rungs := by
      rw [rungsOf, List.filterMap_cons, ← rungsOf, hnone]
      cases t with
      | rung r => simp [Visit.rung?, Task.rungs]
      | seq first rest => cases hunfold
      | _ => rfl
    exact ⟨hself ▸ List.prefix_rfl, fun _ => hself⟩
  | operate _ _ => exact ⟨List.prefix_rfl, fun _ => rfl⟩
  | called _ ih => exact ih
  | unknown _ => exact ⟨List.prefix_rfl, fun _ => rfl⟩
  | tooDeep _ _ => exact ⟨List.prefix_rfl, fun _ => rfl⟩
  | @enter active name rungs ctx visits o _ _ hinside _ =>
    have hnone : rungsOf active (⟨active, .call name, ctx⟩ :: visits) = [] := hinside.rungsOf_caller
    exact ⟨hnone ▸ List.prefix_rfl, fun _ => hnone⟩
  | nothing => exact ⟨List.prefix_rfl, fun _ => rfl⟩
  | @next active first rest ctx visits more mid o _ hexit _ ihfirst ihrest =>
    have hsplit : rungsOf active (visits ++ more) = first.rungs ++ rungsOf active more := by
      rw [rungsOf, List.filterMap_append, ← ihfirst.2 hexit]
      rfl
    rw [hsplit]
    exact ⟨(List.prefix_append_right_inj _).mpr ihrest.1, fun h => congrArg _ (ihrest.2 h)⟩
  | stop _ hstop ih => exact ⟨ih.1.trans (List.prefix_append _ _), fun h => absurd h hstop⟩

/-- Either no RETURN of the activation is among the visits and the activation is not left, or the
only one is the last of them and leaves it there. -/
def ReturnsLast (active : List String) (visits : List Visit) (o : Outcome) : Prop :=
  (o.exit ≠ .leave ∧ ∀ v ∈ visits, ¬v.Returns active) ∨
    ∃ before v, visits = before ++ [v] ∧ v.Returns active ∧ o = v.context.leave ∧
      ∀ u ∈ before, ¬u.Returns active

theorem ReturnsLast.append {before : List Visit} (hbefore : ∀ u ∈ before, ¬u.Returns active)
    (h : ReturnsLast active visits o) : ReturnsLast active (before ++ visits) o := by
  rcases h with ⟨hexit, hnone⟩ | ⟨between, v, rfl, hv, ho, hnone⟩
  · exact .inl ⟨hexit, List.forall_mem_append.mpr ⟨hbefore, hnone⟩⟩
  · exact .inr ⟨before ++ between, v, (List.append_assoc _ _ _).symm, hv, ho,
      List.forall_mem_append.mpr ⟨hbefore, hnone⟩⟩

theorem ReturnsLast.cons {v : Visit} (hv : ¬v.Returns active) (h : ReturnsLast active visits o) :
    ReturnsLast active (v :: visits) o := by
  have hbefore : ∀ u ∈ [v], ¬u.Returns active := List.forall_mem_singleton.mpr hv
  exact h.append hbefore

theorem ReturnsLast.not_of_proceed (h : ReturnsLast active visits o) (hexit : o.exit = .proceed) :
    ∀ v ∈ visits, ¬v.Returns active := by
  rcases h with ⟨-, hnone⟩ | ⟨before, v, -, -, ho, -⟩
  · exact hnone
  · rw [ho] at hexit
    cases hexit

/-- Nothing comes behind a RETURN of the activation. -/
theorem ReturnsLast.of_split {before after : List Visit} {v : Visit}
    (h : ReturnsLast active (before ++ v :: after) o) (hv : v.Returns active) :
    after = [] ∧ o = v.context.leave := by
  rcases h with ⟨-, hnone⟩ | ⟨front, u, heq, -, ho, hfront⟩
  · exact absurd hv (hnone v (by simp))
  · rcases List.eq_nil_or_concat after with rfl | ⟨between, w, rfl⟩
    · obtain ⟨-, hlast⟩ := List.append_inj' heq rfl
      cases hlast
      exact ⟨rfl, ho⟩
    · have hmem : v ∈ front := by
        rw [List.concat_eq_append, ← List.cons_append, ← List.append_assoc] at heq
        obtain ⟨rfl, -⟩ := List.append_inj' heq rfl
        simp
      exact absurd hv (hfront v hmem)

/-- Induction over the run: a RETURN stops what is in order behind it, and nothing but the CALL of
its subroutine goes on then. -/
theorem Runs.returnsLast (h : Runs p active t ctx visits o) (hacts : t.Acts) :
    ReturnsLast active visits o := by
  induction h with
  | unfold hunfold _ ih =>
    refine (ih (Task.inside_of_unfold hunfold).2).cons (Visit.not_returns fun id htask => ?_)
    subst htask
    cases hunfold
  | @operate active id op enabled ctx subroutines hcall =>
    by_cases hleave : op = .leaveSubroutine
    · subst hleave
      obtain rfl : enabled = true := hacts rfl
      exact .inr ⟨[], _, rfl, ⟨rfl, id, rfl⟩, rfl, by simp⟩
    · have hplain := op.execute_exit hcall hleave subroutines id enabled ctx
      refine .inl ⟨fun hexit => ?_, List.forall_mem_singleton.mpr (Visit.not_returns ?_)⟩
      · rw [hexit] at hplain
        exact hplain
      · intro other htask
        cases htask
        exact hleave rfl
  | called _ ih => exact (ih trivial).cons (Visit.not_returns nofun)
  | unknown _ => exact .inl ⟨nofun, List.forall_mem_singleton.mpr (Visit.not_returns nofun)⟩
  | tooDeep _ _ => exact .inl ⟨nofun, List.forall_mem_singleton.mpr (Visit.not_returns nofun)⟩
  | @enter active name rungs ctx visits o _ _ hinside _ =>
    refine .inl ⟨?_, List.forall_mem_cons.mpr ⟨Visit.not_returns nofun, fun v hv hreturns => ?_⟩⟩
    · obtain ⟨last, exit⟩ := o
      cases exit <;> nofun
    · exact hinside.active_ne v hv hreturns.1
  | nothing => exact .inl ⟨nofun, by simp⟩
  | next _ hexit _ ihfirst ihrest =>
    exact (ihrest hacts.2).append ((ihfirst hacts.1).not_of_proceed hexit)
  | stop _ _ ih => exact ih hacts.1

end Activation

namespace Program

open Agenda

/-- The caller goes on behind its CALL as behind a subroutine that comes to its end in the context
`last`. What the caller has ahead, with the passes of its loops and the enables of its branches, is
as it was. -/
structure Resumes (p : Program) (name : String) (ctx last : ScanContext) : Prop where
  outcome : p.call name ctx = last.exitCall.proceed
  callDepth : last.exitCall.callDepth = ctx.callDepth
  steps : ∀ rest,
    Steps p ⟨.task (.call name) :: rest, ctx.proceed⟩ ⟨rest, last.exitCall.proceed⟩
  asEnded : ∀ rest, Steps p ⟨.endCall :: rest, last.proceed⟩ ⟨rest, last.exitCall.proceed⟩
  evaluate : ∀ start rest,
    Steps p ⟨[.task (.body p.rungs)], (p.prepare start).proceed⟩
      ⟨.task (.call name) :: rest, ctx.proceed⟩ →
    Steps p ⟨rest, last.exitCall.proceed⟩ ⟨[], p.evaluate start⟩

/-- The CALL fails, and with it everything that the caller has ahead. -/
structure Breaks (p : Program) (name : String) (ctx last : ScanContext) (e : ScanFailure) :
    Prop where
  outcome : p.call name ctx = last.exitCall.fail e
  steps : ∀ rest, Steps p ⟨.task (.call name) :: rest, ctx.proceed⟩
    ⟨[], (ScanContext.exitCall^[ends rest] last.exitCall).fail e⟩

/-- An activation of a subroutine with these rungs, which passes through the visits. A RETURN of its
own is the last of them and the caller resumes. Otherwise the rungs are entered in order, either all
of them, or some until a failure breaks the CALL. -/
structure Unwinds (p : Program) (active : List String) (name : String) (rungs : List Rung)
    (ctx : ScanContext) (visits : List Visit) (o : Outcome) : Prop where
  runs : Runs p (name :: active) (.body rungs) ctx.enterCall visits o
  call : Runs p active (.call name) ctx (⟨active, .call name, ctx⟩ :: visits) (p.call name ctx)
  leaves_iff : o.exit = .leave ↔ ∃ v ∈ visits, v.Returns (name :: active)
  returned : ∀ before v after, visits = before ++ v :: after → v.Returns (name :: active) →
    after = [] ∧ p.Resumes name ctx v.context
  ended : (∀ v ∈ visits, ¬v.Returns (name :: active)) →
    (rungsOf (name :: active) visits = rungs ∧ p.Resumes name ctx o.context) ∨
      (rungsOf (name :: active) visits <+: rungs ∧ ∃ e, p.Breaks name ctx o.context e)

section Calls

variable {p : Program} {name : String} {ctx last : ScanContext}

theorem resumes_of_call (h : p.call name ctx = last.exitCall.proceed) :
    p.Resumes name ctx last := by
  have hsteps : ∀ rest, Steps p ⟨.task (.call name) :: rest, ctx.proceed⟩
      ⟨rest, last.exitCall.proceed⟩ := by
    intro rest
    rw [← h]
    exact p.call_steps name ctx rest
  obtain ⟨visits, hruns⟩ := p.call_runs name ctx []
  have hdepth := hruns.callDepth
  rw [h] at hdepth
  exact ⟨h, hdepth, hsteps, fun rest => .single rfl, fun start rest hstart =>
    steps_from_between (hstart.trans (hsteps rest)) (p.evaluate_steps start)⟩

theorem breaks_of_call {e : ScanFailure} (h : p.call name ctx = last.exitCall.fail e) :
    p.Breaks name ctx last e := by
  refine ⟨h, fun rest => ?_⟩
  have hcall := p.call_steps name ctx rest
  rw [h] at hcall
  exact hcall.trans (steps_of_fail rest last.exitCall e)

end Calls

/-- Every activation unwinds, wherever its CALL stands: in a rung, a branch or a loop, of the main
rungs or of a subroutine. -/
theorem unwinds (p : Program) (active : List String) {name : String} {rungs : List Rung}
    {ctx : ScanContext} (hname : p.subroutine? name = some rungs)
    (hroom : ctx.callDepth < p.depthLimit) :
    ∃ visits o, p.Unwinds active name rungs ctx visits o := by
  obtain ⟨visits, hruns⟩ := Rung.arrives_all (p.surroundings_arrive ctx.enterCall) rungs
    ctx.enterCall rfl (name :: active)
  generalize Rung.executeAll (p.surroundings ctx.enterCall) rungs ctx.enterCall = o at hruns
  have henter := Runs.enter hname hroom hruns
  obtain ⟨others, hothers⟩ := p.call_runs name ctx active
  obtain ⟨rfl, hcall⟩ := henter.unique hothers
  have hreturns := hruns.returnsLast (Task.acts_body rungs)
  refine ⟨visits, o, hruns, hothers, ?_, fun before v after hsplit hv => ?_, fun hnone => ?_⟩
  · rcases hreturns with ⟨hexit, hnone⟩ | ⟨before, v, rfl, hv, rfl, -⟩
    · exact iff_of_false hexit fun ⟨v, hmem, hv⟩ => hnone v hmem hv
    · exact iff_of_true rfl ⟨v, by simp, hv⟩
  · subst hsplit
    obtain ⟨rfl, rfl⟩ := hreturns.of_split hv
    exact ⟨rfl, resumes_of_call hcall⟩
  · have hrungs := hruns.rungs_isPrefix
    rw [Task.rungs_body] at hrungs
    obtain ⟨last, exit⟩ := o
    cases exit with
    | proceed => exact .inl ⟨hrungs.2 rfl, resumes_of_call hcall⟩
    | leave =>
      rcases hreturns with ⟨hexit, -⟩ | ⟨before, v, heq, hv, -, -⟩
      · exact absurd rfl hexit
      · exact absurd hv (hnone v (by simp [heq]))
    | fail e => exact .inr ⟨hrungs.1, e, breaks_of_call hcall⟩

end Program

/-! A subroutine that returns from inside a loop in a branch, and one that meets a range with its
bounds in the wrong order. -/

namespace Sample

def item (id : InstructionId) (op : Operation) : RungItem := .instruction (.single id false op)

def calling (rungs : List Rung) : Draft :=
  (Draft.empty.withRung ⟨[], [item 0 (.callSubroutine "Home")]⟩).withSubroutine "Home" rungs

def homing : List Rung :=
  [⟨[], [.branch [] [.instruction (.loop 1 false ⟨.literal (.int 2), passes⟩
      [.single 2 false .leaveSubroutine])], item 3 coil]⟩,
    ⟨[], [item 4 coil]⟩]

def backwards : Operation :=
  .fill ⟨.literal (.int 1), .indirect cells (.tag pointer) (.literal (.int 2)) false⟩

def breaking : List Rung := [⟨[], [item 1 backwards]⟩, ⟨[], [item 2 coil]⟩]

end Sample

namespace Program

theorem unwinds_sample :
    (Sample.calling Sample.homing).assemble.Accepted ∧
      ∃ visits o, (Sample.calling Sample.homing).assemble.Unwinds [] "Home" Sample.homing
        (.start Sample.state ∅) visits o ∧ ∃ v ∈ visits, v.Returns ["Home"] := by
  let p := (Sample.calling Sample.homing).assemble
  let ctx := ScanContext.start Sample.state ∅
  have hname : p.subroutine? "Home" = some Sample.homing := rfl
  have hroom : ctx.callDepth < p.depthLimit := by decide
  obtain ⟨visits, o, h⟩ := p.unwinds [] hname hroom
  refine ⟨⟨Sample.calling Sample.homing, rfl⟩, visits, o, h, h.leaves_iff.mp ?_⟩
  obtain ⟨others, hothers⟩ := Rung.arrives_all (p.surroundings_arrive ctx.enterCall) Sample.homing
    ctx.enterCall rfl ["Home"]
  obtain ⟨-, rfl⟩ := hothers.unique h.runs
  rfl

/-- Without a RETURN an activation does not always come to all of its rungs. -/
theorem exists_activation_cut_short :
    ¬ ∀ (p : Program) (active : List String) (name : String) (rungs : List Rung)
      (ctx : ScanContext) (visits : List Visit) (o : Outcome), p.Accepted →
      p.subroutine? name = some rungs → ctx.callDepth < p.depthLimit →
      Runs p (name :: active) (.body rungs) ctx.enterCall visits o →
      (∀ v ∈ visits, ¬v.Returns (name :: active)) →
      rungsOf (name :: active) visits = rungs := by
  intro h
  let p := (Sample.calling Sample.breaking).assemble
  let ctx := ScanContext.start Sample.state ∅
  have hfails : (Sample.backwards.execute p.call 1 true ctx.enterCall).exit ≠ .proceed := by
    change Exit.fail (.error (.invalidRange "DS" 5 2)) ≠ .proceed
    nofun
  have hruns : Runs p ["Home"] (.body Sample.breaking) ctx.enterCall _ _ :=
    .stop (.unfold rfl (.stop (.unfold rfl (.unfold rfl (.operate p.call nofun))) hfails)) hfails
  have hrungs := h p [] "Home" Sample.breaking ctx _ _ ⟨Sample.calling Sample.breaking, rfl⟩ rfl
    (by decide) hruns (by simp [Visit.Returns, Sample.backwards])
  -- One rung has been entered, and there are two.
  exact absurd (congrArg List.length hrungs) (by decide)

end Program

end LadderLogic
