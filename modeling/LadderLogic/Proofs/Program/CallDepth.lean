import LadderLogic.Proofs.Instruction.Exits
import LadderLogic.Proofs.Program.Derivation

/-!
The call depth of a run is the number of active subroutines, it stays within the limit, and a run
fails for it exactly if it calls one subroutine more.
-/

set_option autoImplicit false

namespace LadderLogic

/-- A defined subroutine is called at a depth at which it may not be entered. -/
def Visit.Overflows (p : Program) (v : Visit) : Prop :=
  ∃ name, v.task = .call name ∧ (p.subroutine? name).isSome ∧ p.depthLimit ≤ v.context.callDepth

theorem Outcome.fail_of_call (o : Outcome) (f : ScanContext → ScanContext) (e : ScanFailure) :
    (o.absorbLeave.mapContext f).exit = .fail e ↔ o.exit = .fail e := by
  obtain ⟨last, exit⟩ := o
  cases exit <;> simp [absorbLeave, mapContext]

/-- An operation other than a CALL does not look at the call depth. -/
theorem Operation.exit_ne_callDepthExceeded (op : Operation)
    (hcall : ∀ name, op ≠ .callSubroutine name) (subroutines : Subroutines) (id : InstructionId)
    (enabled : Bool) (ctx : ScanContext) (n : Nat) :
    (op.execute subroutines id enabled ctx).exit ≠ .fail (.error (.callDepthExceeded n)) := by
  intro h
  by_cases hleave : op = .leaveSubroutine
  · subst hleave
    cases h
  · have hplain := op.execute_exit hcall hleave subroutines id enabled ctx
    rw [h] at hplain
    obtain ⟨block, first, last, he, -⟩ := hplain
    cases he

section Depth

variable {p : Program} {active : List String} {t : Task} {ctx : ScanContext}
  {visits : List Visit} {o : Outcome}

/-- Where a run is, the call depth has grown by the subroutines entered since its start. -/
theorem Runs.depth_of_visit (h : Runs p active t ctx visits o) : ∀ v ∈ visits,
    v.context.callDepth + active.length = ctx.callDepth + v.active.length := by
  induction h with
  | unfold hunfold _ ih =>
    have hdepth := Task.unfold_callDepth hunfold
    intro v hv
    rcases List.mem_cons.mp hv with rfl | hv
    · rfl
    · rw [ih v hv, hdepth]
  | operate subroutines hcall => simp
  | called _ ih =>
    intro v hv
    rcases List.mem_cons.mp hv with rfl | hv
    · rfl
    · exact ih v hv
  | unknown _ => simp
  | tooDeep _ _ => simp
  | @enter active name rungs ctx visits o _ _ _ ih =>
    intro v hv
    rcases List.mem_cons.mp hv with rfl | hv
    · rfl
    · have hinside : v.context.callDepth + (active.length + 1) =
          (ctx.callDepth + 1) + v.active.length := ih v hv
      omega
  | nothing => simp
  | next hfirst _ _ ihfirst ihrest =>
    intro v hv
    rcases List.mem_append.mp hv with hv | hv
    · exact ihfirst v hv
    · rw [ihrest v hv, hfirst.callDepth]
  | stop _ _ ih => exact ih

/-- A subroutine is entered only below the limit, so the depth exceeds it nowhere. -/
theorem Runs.depth_le (h : Runs p active t ctx visits o) : ∀ v ∈ visits,
    v.context.callDepth ≤ max ctx.callDepth p.depthLimit := by
  induction h with
  | unfold hunfold _ ih =>
    have hdepth := Task.unfold_callDepth hunfold
    intro v hv
    rcases List.mem_cons.mp hv with rfl | hv
    · exact le_max_left _ _
    · exact hdepth ▸ ih v hv
  | operate subroutines hcall => simp
  | called _ ih =>
    intro v hv
    rcases List.mem_cons.mp hv with rfl | hv
    · exact le_max_left _ _
    · exact ih v hv
  | unknown _ => simp
  | tooDeep _ _ => simp
  | @enter active name rungs ctx visits o _ hless _ ih =>
    intro v hv
    rcases List.mem_cons.mp hv with rfl | hv
    · exact le_max_left _ _
    · have hinside : v.context.callDepth ≤ max (ctx.callDepth + 1) p.depthLimit := ih v hv
      omega
  | nothing => simp
  | next hfirst _ _ ihfirst ihrest =>
    intro v hv
    rcases List.mem_append.mp hv with hv | hv
    · exact ihfirst v hv
    · exact hfirst.callDepth ▸ ihrest v hv
  | stop _ _ ih => exact ih

/-- A run fails for its call depth exactly if one of its CALLs comes too deep. -/
theorem Runs.callDepthExceeded_iff (h : Runs p active t ctx visits o) (n : Nat) :
    o.exit = .fail (.error (.callDepthExceeded n)) ↔
      n = p.depthLimit ∧ ∃ v ∈ visits, v.Overflows p := by
  induction h with
  | unfold hunfold _ ih =>
    rw [ih, List.exists_mem_cons_iff, or_iff_right]
    rintro ⟨name, rfl, -⟩
    cases hunfold
  | operate subroutines hcall =>
    refine iff_of_false (Operation.exit_ne_callDepthExceeded _ hcall _ _ _ _ n) ?_
    rintro ⟨-, v, hv, name, htask, -⟩
    obtain rfl := List.mem_singleton.mp hv
    cases htask
  | called _ ih =>
    rw [ih, List.exists_mem_cons_iff, or_iff_right]
    rintro ⟨name, htask, -⟩
    cases htask
  | unknown hname =>
    refine iff_of_false nofun ?_
    rintro ⟨-, v, hv, name, htask, hdefined, -⟩
    obtain rfl := List.mem_singleton.mp hv
    cases htask
    rw [hname] at hdefined
    cases hdefined
  | tooDeep hname hdeep =>
    constructor
    · intro hexit
      cases hexit
      exact ⟨rfl, _, List.mem_singleton_self _, _, rfl, by rw [hname]; rfl, hdeep⟩
    · rintro ⟨rfl, -⟩
      rfl
  | enter _ hless _ ih =>
    rw [Outcome.fail_of_call, ih, List.exists_mem_cons_iff, or_iff_right]
    rintro ⟨name, -, -, hdeep⟩
    exact absurd hless (not_lt.mpr hdeep)
  | nothing => exact iff_of_false nofun (by simp)
  | @next active first rest ctx visits more mid o _ hexit _ ihfirst ihrest =>
    rw [ihrest]
    refine and_congr_right fun hn => ?_
    -- The first task has gone on, so none of its calls came too deep.
    have hfirst : ¬∃ v ∈ visits, v.Overflows p :=
      fun h => nomatch hexit.symm.trans (ihfirst.mpr ⟨hn, h⟩)
    simp only [List.mem_append, or_and_right, exists_or]
    exact (or_iff_right hfirst).symm
  | stop _ _ ih => exact ih

end Depth

/-- The task has a run from the context to the outcome, and no other. The run leaves the call depth
as it was; everywhere on the way the depth counts the active subroutines and keeps to the limit; and
it fails for the depth exactly if it calls a defined subroutine with as many active as the limit
allows. -/
structure Program.Settles (p : Program) (t : Task) (ctx : ScanContext) (visits : List Visit)
    (o : Outcome) : Prop where
  runs : Runs p [] t ctx visits o
  unique : ∀ visits' o', Runs p [] t ctx visits' o' → visits' = visits ∧ o' = o
  balanced : o.context.callDepth = ctx.callDepth
  depth : ∀ v ∈ visits, v.context.callDepth = ctx.callDepth + v.active.length
  bounded : ∀ v ∈ visits, v.context.callDepth ≤ max ctx.callDepth p.depthLimit
  exceeded : ∀ n, o.exit = .fail (.error (.callDepthExceeded n)) ↔ n = p.depthLimit ∧
    ∃ v ∈ visits, ∃ name, v.task = .call name ∧ (p.subroutine? name).isSome ∧
      p.depthLimit ≤ ctx.callDepth + v.active.length

namespace Program

theorem Settles.of_runs {p : Program} {t : Task} {ctx : ScanContext} {visits : List Visit}
    {o : Outcome} (h : Runs p [] t ctx visits o) : p.Settles t ctx visits o := by
  have hdepth : ∀ v ∈ visits, v.context.callDepth = ctx.callDepth + v.active.length :=
    h.depth_of_visit
  refine ⟨h, fun _ _ h' => h.unique h', h.callDepth, hdepth, h.depth_le, fun n => ?_⟩
  rw [h.callDepthExceeded_iff]
  refine and_congr_right fun _ => exists_congr fun v => and_congr_right fun hv => ?_
  rw [Visit.Overflows, hdepth v hv]

theorem prepare_callDepth (p : Program) (ctx : ScanContext) :
    (p.prepare ctx).callDepth = ctx.callDepth := by
  unfold prepare
  split <;> rfl

/-- Whatever its subroutines and loops, a program comes to an end from every context, and so does
each of its subroutines, with the call depth back where it was. -/
theorem settles (p : Program) (ctx : ScanContext) :
    ((∃ visits, p.Settles (.body p.rungs) (p.prepare ctx) visits (p.evaluate ctx)) ∧
      (p.evaluate ctx).context.callDepth = ctx.callDepth) ∧
    ∀ name, ∃ visits, p.Settles (.call name) ctx visits (p.call name ctx) := by
  obtain ⟨visits, hruns⟩ := p.evaluate_runs ctx
  refine ⟨⟨⟨visits, .of_runs hruns⟩, ?_⟩, fun name => ?_⟩
  · rw [hruns.callDepth, p.prepare_callDepth]
  · obtain ⟨visits, hruns⟩ := p.call_runs name ctx []
    exact ⟨visits, .of_runs hruns⟩

/-- A subroutine that calls itself runs into the limit from every state. -/
example (s : SystemState) :
    let call : Rung := ⟨[], [.instruction (.ofOperation (.callSubroutine "Self"))]⟩
    let d : Draft := { Draft.empty with limits := { Limits.defaults with maxCallDepth := 2 } }
    let p := ((d.withRung call).withSubroutine "Self" [call]).assemble
    (p.evaluate (.start s ∅)).exit = .fail (.error (.callDepthExceeded 2)) :=
  rfl

end Program

end LadderLogic
