import LadderLogic.Proofs.Lockstep.Drum
import LadderLogic.Proofs.Lockstep.Store
import LadderLogic.Proofs.Program.Pulse

/-!
Programs in contexts that are alike. Two agendas that differ only in such contexts take the same
steps, and what a step does to a context it does by writes to targets of the program.
-/

set_option autoImplicit false

namespace LadderLogic

open Agenda

theorem Operation.inStep (op : Operation) (hcall : ∀ name, op ≠ .callSubroutine name)
    (subroutines others : Subroutines) (id : InstructionId) (enabled : Bool) {a b : ScanContext}
    (h : a.Alike b) :
    Outcome.InStep (Touch.Plain op.Targets) a b (op.execute subroutines id enabled a)
      (op.execute others id enabled b) := by
  cases op with
  | out op => exact op.target.drive_inStep _ h
  | latch op => exact op.target.drive_inStep _ h
  | reset op => exact op.target.drive_inStep _ h
  | copy op => exact op.inStep h
  | blockCopy op => exact op.inStep h
  | fill op => exact op.inStep h
  | calculate op => exact (op.inStep h).proceed
  | onDelay op => exact (op.inStep enabled h).proceed
  | offDelay op => exact (op.inStep enabled h).proceed
  | countUp op => exact op.inStep enabled h
  | countDown op => exact op.inStep enabled h
  | shift op => exact op.inStep id enabled h
  | eventDrum op => exact (op.inStep id enabled h).proceed
  | timeDrum op => exact (op.inStep id enabled h).proceed
  | search op => exact op.inStep h
  | packBits op => exact op.inStep h
  | packWords op => exact op.inStep h
  | unpackToBits op => exact op.inStep h
  | unpackToWords op => exact op.inStep h
  | packText op => exact op.inStep h
  | callSubroutine name => exact absurd rfl (hcall name)
  | leaveSubroutine => exact (ScanContext.InStep.start h).leave
  | runFunction op => exact (op.bindings.call_inStep op.function h).proceed
  | runEnabledFunction op => exact (op.bindings.call_inStep (op.function enabled) h).proceed

namespace Touch

/-- What a scan of the program does to its context from the first rung on. The one thing that it
reports by itself is a clamped loop. -/
def Of (p : Program) : Touch → Prop
  | change (.write t _) => ∃ i ∈ p.instructions, i.Targets t
  | change (.report n) => ∃ count limit, n = .loopClamped count limit
  | _ => True

theorem Plain.of {p : Program} {i : Instruction} (hi : i ∈ p.instructions) {x : Touch}
    (h : Plain i.Targets x) : x.Of p := by
  cases x with
  | change c =>
    cases c with
    | write t v => exact ⟨i, hi, h⟩
    | report n => exact h.elim
    | _ => trivial
  | _ => trivial

end Touch

section Loops

variable {p : Program} {a b c d : ScanContext} {head : ForHead}

theorem ForHead.passes_inStep (h : a.InStep (Touch.Of p) b c d) (head : ForHead) (limit : ℕ) :
    (head.passes limit c).1 = (head.passes limit d).1 ∧
      a.InStep (Touch.Of p) b (head.passes limit c).2 (head.passes limit d).2 := by
  unfold passes
  rw [h.alike.evaluate]
  cases head.count.evaluate d with
  | error e => exact ⟨rfl, h.touch (.change (.raise e.fault)) trivial⟩
  | ok v =>
    dsimp only
    split
    · have hreport := h.touch (.change (.report (.loopClamped (v.toInt?.getD 0) limit))) ⟨_, _, rfl⟩
      exact ⟨rfl, hreport.touch (.change (.raise .outOfRange)) trivial⟩
    · exact ⟨rfl, h⟩

theorem ForHead.writeIndex_inStep (h : a.InStep (Touch.Of p) b c d)
    (hindex : ∃ i ∈ p.instructions, i.Targets head.index) (pass : ℕ) :
    a.InStep (Touch.Of p) b (head.writeIndex pass c) (head.writeIndex pass d) := by
  unfold writeIndex
  cases head.index.type.storeCopy (.int pass) with
  | none => exact h
  | some v => exact h.touch (.change (.write head.index v)) hindex

/-- The gate of a oneshot lets the same task through, and records it alike. -/
theorem Instruction.gate_inStep (h : a.InStep (Touch.Of p) b c d) (id : InstructionId)
    (oneshot enabled : Bool) (act idle spent : Task) :
    ∃ next last other,
      gate id oneshot enabled (fun ctx => (act, ctx)) (fun ctx => (idle, ctx))
        (fun ctx => (spent, ctx)) c = (next, last) ∧
      gate id oneshot enabled (fun ctx => (act, ctx)) (fun ctx => (idle, ctx))
        (fun ctx => (spent, ctx)) d = (next, other) ∧
      a.InStep (Touch.Of p) b last other := by
  have hset : ∀ fired, a.InStep (Touch.Of p) b (c.setOneshot id fired) (d.setOneshot id fired) :=
    fun fired => h.touch (.oneshot id fired) trivial
  have hfired : c.oneshotFired id = d.oneshotFired id := by
    unfold ScanContext.oneshotFired
    rw [h.alike.runtime]
  unfold gate
  rw [hfired]
  split_ifs
  · exact ⟨spent, c, d, rfl, rfl, h⟩
  · exact ⟨act, _, _, rfl, rfl, hset true⟩
  · exact ⟨act, c, d, rfl, rfl, h⟩
  · exact ⟨idle, _, _, rfl, rfl, hset false⟩
  · exact ⟨idle, c, d, rfl, rfl, h⟩

end Loops

/-- The tasks differ at most in the contexts in which their rungs were entered. -/
inductive Task.Alike : Task → Task → Prop
  | refl (t : Task) : Alike t t
  | seq {first other rest last : Task} :
    Alike first other → Alike rest last → Alike (.seq first rest) (.seq other last)
  | item {entry other : ScanContext} (item : RungItem) (around : List Condition) :
    entry.Alike other → Alike (.item item entry around) (.item item other around)

/-- The task stands in the program, with all that it will come to. -/
structure Task.Belongs (p : Program) (t : Task) : Prop where
  instructions : t.instructions ⊆ p.instructions
  named : t.Named p

inductive Frame.Alike : Frame → Frame → Prop
  | task {t u : Task} : t.Alike u → Alike (.task t) (.task u)
  | endCall : Alike .endCall .endCall

/-- Agendas that have the same ahead of them, with contexts that are in step. -/
structure Agenda.InStep (p : Program) (a b : ScanContext) (x y : Agenda) : Prop where
  frames : List.Forall₂ Frame.Alike x.frames y.frames
  belongs : ∀ t, .task t ∈ x.frames → t.Belongs p
  flow : Outcome.InStep (Touch.Of p) a b x.flow y.flow

namespace Task

variable {p : Program} {a b c d : ScanContext} {t u : Task}

theorem Alike.inOrder {α : Type} {f g : α → Task} (h : ∀ x, (f x).Alike (g x)) (xs : List α) :
    (Task.inOrder (xs.map f)).Alike (Task.inOrder (xs.map g)) := by
  induction xs with
  | nil => exact .refl _
  | cons x xs ih => exact .seq (h x) ih

theorem belongs_body {rungs : List Rung} (h : ∀ r ∈ rungs, r ∈ p.allRungs) :
    (body rungs).Belongs p :=
  ⟨instructions_body_subset h, (plain_body rungs).named⟩

theorem Belongs.unfold {next : Task × ScanContext} (h : t.Belongs p)
    (hunfold : t.unfold p c = some next) : next.1.Belongs p :=
  ⟨List.Subset.trans (instructions_unfold hunfold) h.instructions,
    named_unfold hunfold h.instructions h.named⟩

/-- Where an instruction is reached its oneshot decides among three tasks. -/
theorem unfold_reach (p : Program) (i : Instruction) (enabled : Bool) :
    ∃ act idle spent, ∀ ctx, (reach i enabled).unfold p ctx =
      some (Instruction.gate i.id i.oneshot enabled (fun ctx => (act, ctx))
        (fun ctx => (idle, ctx)) (fun ctx => (spent, ctx)) ctx) := by
  cases i with
  | single id oneshot op => cases op <;> exact ⟨_, _, _, fun _ => rfl⟩
  | loop id oneshot head body => exact ⟨_, _, _, fun _ => rfl⟩

/-- Tasks that are alike are taken apart into tasks that are alike. -/
theorem unfold_inStep (ht : t.Alike u) (hnamed : t.Named p) (h : a.InStep (Touch.Of p) b c d)
    {next : Task} {mid : ScanContext} (hunfold : t.unfold p c = some (next, mid)) :
    ∃ other last, u.unfold p d = some (other, last) ∧ next.Alike other ∧
      a.InStep (Touch.Of p) b mid last := by
  cases ht with
  | seq _ _ => cases hunfold
  | @item entry other item around hentry =>
    cases item with
    | instruction i =>
      cases hunfold
      refine ⟨_, d, rfl, ?_, h⟩
      rw [hentry.allHold]
      exact .refl _
    | branch conditions items =>
      cases hunfold
      exact ⟨_, d, rfl, Alike.inOrder (fun item => .item item _ hentry) items, h⟩
  | refl =>
    cases t with
    | rung r =>
      cases hunfold
      exact ⟨_, d, rfl, Alike.inOrder (fun item => .item item _ h.alike) r.items, h⟩
    | item item entry around =>
      cases item <;>
      · cases hunfold
        exact ⟨_, d, rfl, .refl _, h⟩
    | reach i enabled =>
      obtain ⟨act, idle, spent, hgate⟩ := unfold_reach p i enabled
      obtain ⟨result, last, other, hc, hd, hlast⟩ :=
        Instruction.gate_inStep h i.id i.oneshot enabled act idle spent
      rw [hgate, hc] at hunfold
      cases hunfold
      exact ⟨_, other, by rw [hgate, hd], .refl _, hlast⟩
    | loop head body =>
      cases hunfold
      obtain ⟨hcount, hpasses⟩ := head.passes_inStep h p.loopLimit
      refine ⟨_, _, rfl, ?_, hpasses⟩
      change (Task.inOrder ((List.range' 0 (head.passes _ c).1).map (pass head body))).Alike
        (Task.inOrder ((List.range' 0 (head.passes _ d).1).map (pass head body)))
      rw [hcount]
      exact .refl _
    | pass head body number =>
      cases hunfold
      obtain ⟨id, oneshot, hloop⟩ := hnamed
      exact ⟨_, _, rfl, .refl _, head.writeIndex_inStep h ⟨_, hloop, rfl⟩ number⟩
    | nothing => cases hunfold
    | seq first rest => cases hunfold
    | operate id op enabled => cases hunfold
    | call name => cases hunfold

end Task

namespace Agenda

variable {p : Program} {a b c d : ScanContext} {t u : Task}

theorem InStep.self {x : Agenda} (h : ∀ t, .task t ∈ x.frames → t.Belongs p) :
    InStep p x.flow.context x.flow.context x x where
  frames := List.forall₂_same.mpr fun frame _ =>
    match frame with
    | .task t => .task (.refl t)
    | .endCall => .endCall
  belongs := h
  flow := ⟨rfl, .start (.refl _)⟩

/-- What takes the place of a task stands in the program as well. -/
theorem belongs_perform (h : t.Belongs p) : ∀ u, .task u ∈ (perform p t c).1 → u.Belongs p := by
  intro u hu
  rcases task_of_perform hu with ⟨other, rfl | rfl⟩ | ⟨name, rfl⟩ | ⟨name, rungs, hname, rfl⟩ |
    ⟨mid, hunfold⟩
  · exact ⟨(List.append_subset.mp h.instructions).1, h.named.1⟩
  · exact ⟨(List.append_subset.mp h.instructions).2, h.named.2⟩
  · exact ⟨List.nil_subset _, trivial⟩
  · exact Task.belongs_body (Program.mem_allRungs_of_subroutine? hname)
  · exact h.unfold hunfold

theorem perform_inStep (ht : t.Alike u) (hbelongs : t.Belongs p)
    (h : a.InStep (Touch.Of p) b c d) :
    List.Forall₂ Frame.Alike (perform p t c).1 (perform p u d).1 ∧
      Outcome.InStep (Touch.Of p) a b (perform p t c).2 (perform p u d).2 := by
  by_cases hunfold : ∃ next, t.unfold p c = some next
  · obtain ⟨⟨next, mid⟩, hunfold⟩ := hunfold
    obtain ⟨other, last, hother, hnext, hlast⟩ :=
      Task.unfold_inStep ht hbelongs.named h hunfold
    rw [perform_of_unfold hunfold, perform_of_unfold hother]
    exact ⟨.cons (.task hnext) .nil, hlast.proceed⟩
  · cases ht with
    | seq hfirst hrest =>
      exact ⟨.cons (.task hfirst) (.cons (.task hrest) .nil), h.proceed⟩
    | item item around _ =>
      cases item <;> exact absurd ⟨_, rfl⟩ hunfold
    | refl =>
      cases t with
      | nothing => exact ⟨.nil, h.proceed⟩
      | seq first rest =>
        exact ⟨.cons (.task (.refl _)) (.cons (.task (.refl _)) .nil), h.proceed⟩
      | operate id op enabled =>
        by_cases hcall : ∃ name, op = .callSubroutine name
        · obtain ⟨name, rfl⟩ := hcall
          exact ⟨.cons (.task (.refl _)) .nil, h.proceed⟩
        · obtain ⟨oneshot, hop⟩ := hbelongs.named
          have hcall : ∀ name, op ≠ .callSubroutine name := fun name heq => hcall ⟨name, heq⟩
          have hinStep := op.inStep hcall p.call p.call id enabled h.alike
          rw [perform_operate hcall p.call, perform_operate hcall p.call]
          exact ⟨.nil, hinStep.exit, h.trans (hinStep.context.mono fun _ => Touch.Plain.of hop)⟩
      | call name =>
        unfold perform
        dsimp only
        cases p.subroutine? name with
        | none => exact ⟨.nil, h.fail _⟩
        | some rungs =>
          dsimp only
          rw [h.alike.callDepth]
          split_ifs
          · exact ⟨.cons (.task (.refl _)) (.cons .endCall .nil),
              (h.touch .enterCall trivial).proceed⟩
          · exact ⟨.nil, h.fail _⟩
      | rung r => exact absurd ⟨_, rfl⟩ hunfold
      | item item entry around => cases item <;> exact absurd ⟨_, rfl⟩ hunfold
      | reach i enabled => cases i <;> exact absurd ⟨_, rfl⟩ hunfold
      | loop head body => exact absurd ⟨_, rfl⟩ hunfold
      | pass head body number => exact absurd ⟨_, rfl⟩ hunfold

/-- Agendas in step take the same step. -/
theorem step?_inStep {x y next : Agenda} (h : InStep p a b x y) (hstep : x.step? p = some next) :
    ∃ other, y.step? p = some other ∧ InStep p a b next other := by
  obtain ⟨frames, ⟨last, exit⟩⟩ := x
  obtain ⟨others, ⟨lastOther, exitOther⟩⟩ := y
  obtain ⟨hframes, hbelongs, ⟨hexit, hcontext⟩⟩ := h
  obtain rfl : exit = exitOther := hexit
  cases hframes with
  | nil => cases hstep
  | @cons frame twin rest behind hframe hrest =>
    have hbehind : ∀ t, Frame.task t ∈ rest → t.Belongs p := fun t ht =>
      hbelongs t (List.mem_cons_of_mem _ ht)
    cases hframe with
    | endCall =>
      cases hstep
      refine ⟨_, rfl, hrest, hbehind, ?_⟩
      have hexitCall := hcontext.touch .exitCall trivial
      cases exit with
      | proceed => exact hexitCall.proceed
      | leave => exact hexitCall.proceed
      | fail e => exact hexitCall.fail e
    | task ht =>
      cases exit with
      | proceed =>
        cases hstep
        have hhere := hbelongs _ List.mem_cons_self
        obtain ⟨hnew, hflow⟩ := perform_inStep ht hhere hcontext
        refine ⟨_, rfl, List.rel_append hnew hrest, fun t ht => ?_, hflow⟩
        rcases List.mem_append.mp ht with ht | ht
        · exact belongs_perform hhere t ht
        · exact hbehind t ht
      | leave =>
        cases hstep
        exact ⟨_, rfl, hrest, hbehind, hcontext.leave⟩
      | fail e =>
        cases hstep
        exact ⟨_, rfl, hrest, hbehind, hcontext.fail e⟩

/-- Runs of agendas in step are in step at each point. -/
theorem steps_inStep {x y next : Agenda} (h : InStep p a b x y) (hsteps : Steps p x next) :
    ∃ other, Steps p y other ∧ InStep p a b next other := by
  induction hsteps with
  | refl => exact ⟨y, .refl, h⟩
  | tail _ hstep ih =>
    obtain ⟨mid, hmid, hinStep⟩ := ih
    obtain ⟨other, hother, hnext⟩ := step?_inStep hinStep hstep
    exact ⟨other, hmid.tail hother, hnext⟩

end Agenda

end LadderLogic
