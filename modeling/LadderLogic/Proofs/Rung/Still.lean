import LadderLogic.Proofs.Instruction.Exits
import LadderLogic.Proofs.Rung.Idle
import LadderLogic.Proofs.Scan.Frame

/-!
What a false rung leaves alone. No instruction in it is enabled, so it runs no CALL, takes no RETURN
and makes no pass of a loop, and it changes nothing but faults and what its OUTs and the
instructions that always execute name. Each of its OUTs is off.
-/

set_option autoImplicit false

namespace LadderLogic

/-- The operation works on a false rung. -/
def Operation.WorksIdle (op : Operation) : Prop := op.alwaysExecutes = true ∨ ∃ coil, op = .out coil

theorem Operation.WorksIdle.ne_call {op : Operation} (h : op.WorksIdle) :
    ∀ name, op ≠ .callSubroutine name := by
  rintro name rfl
  rcases h with h | ⟨coil, h⟩
  · cases h
  · cases h

theorem Operation.WorksIdle.ne_leave {op : Operation} (h : op.WorksIdle) :
    op ≠ .leaveSubroutine := by
  rintro rfl
  rcases h with h | ⟨coil, h⟩
  · cases h
  · cases h

/-- The tag is one of the cells that the target means now. -/
def CoilTarget.Means (target : CoilTarget) (ctx : ScanContext) (u : Tag) : Prop :=
  match target with
  | tag t => u = t
  | range r => ∃ cells, r.resolve ctx = .ok (some cells) ∧ u ∈ cells.tags

namespace Moment

/-- The context behind a moment. What a CALL runs has moments of its own. -/
def after : Moment → ScanContext
  | rung _ ctx => ctx
  | reach i enabled ctx => { ctx with runtime := record ctx.runtime (reach i enabled ctx) }
  | operate id op enabled ctx => (op.execute (fun _ ctx => ctx.proceed) id enabled ctx).context

/-- The moments follow each other from one context to another. -/
def Leads : ScanContext → List Moment → ScanContext → Prop
  | ctx, [], last => last = ctx
  | ctx, m :: ms, last => m.context = ctx ∧ Leads m.after ms last

/-- One of the instructions is reached, or operates, on a false rung. -/
inductive Idle (is : List Instruction) : Moment → Prop
  | reach (i : Instruction) (ctx : ScanContext) : i ∈ is → Idle is (.reach i false ctx)
  | operate {oneshot : Bool} (id : InstructionId) (op : Operation) (ctx : ScanContext) :
    .single id oneshot op ∈ is → op.WorksIdle → Idle is (.operate id op false ctx)

def instruction? : Moment → Option Instruction
  | reach i _ _ => some i
  | rung _ _ => none
  | operate _ _ _ _ => none

def operation? : Moment → Option (InstructionId × Operation)
  | operate id op _ _ => some (id, op)
  | rung _ _ => none
  | reach _ _ _ => none

theorem after_reach_false (i : Instruction) (ctx : ScanContext) :
    (reach i false ctx).after = i.rearm ctx := by
  cases honeshot : i.oneshot with
  | true => simp [after, record, Instruction.rearm, honeshot, ScanContext.setOneshot]
  | false => simp [after, record, Instruction.rearm, honeshot]

theorem Leads.append {ctx mid last : ScanContext} {ms ns : List Moment} (hms : Leads ctx ms mid)
    (hns : Leads mid ns last) : Leads ctx (ms ++ ns) last := by
  induction ms generalizing ctx with
  | nil =>
    obtain rfl : mid = ctx := hms
    exact hns
  | cons m ms ih => exact ⟨hms.1, ih hms.2⟩

/-- What no moment changes is the same at the end. -/
theorem Leads.eq_of_moments {α : Type} {f : ScanContext → α} {ctx last : ScanContext}
    {ms : List Moment} (h : Leads ctx ms last) (hms : ∀ m ∈ ms, f m.after = f m.context) :
    f last = f ctx := by
  induction ms generalizing ctx with
  | nil => exact congrArg f h
  | cons m ms ih =>
    obtain ⟨hm, hrest⟩ := List.forall_mem_cons.mp hms
    rw [ih h.2 hrest, hm, h.1]

theorem Leads.of_split {ctx last : ScanContext} {before later : List Moment} {m : Moment}
    (h : Leads ctx (before ++ m :: later) last) : Leads m.after later last := by
  induction before generalizing ctx with
  | nil => exact h.2
  | cons k before ih => exact ih h.2

theorem Idle.mono {is js : List Instruction} {m : Moment} (h : Idle is m) (hsub : is ⊆ js) :
    Idle js m := by
  cases h with
  | reach i ctx hi => exact .reach i ctx (hsub hi)
  | operate id op ctx hop hworks => exact .operate id op ctx (hsub hop) hworks

end Moment

namespace Instruction

/-- The operation of an instruction that runs on a false rung. -/
def idleOperation? : Instruction → Option (InstructionId × Operation)
  | single id _ op => if op.inertWhenDisabled then none else some (id, op)
  | loop _ _ _ _ => none

/-- A passage through the instructions on a false rung. They are reached in order, all of them if
the flow goes on, and each that works on a false rung has operated then. -/
structure Rests (is : List Instruction) (ctx : ScanContext) (x : Passage) : Prop where
  leads : Moment.Leads ctx x.moments x.outcome.context
  idle : ∀ m ∈ x.moments, m.Idle is
  exit : x.outcome.exit.IsPlain fun exact => ∃ m ∈ x.moments, m.Overflows exact
  reached : x.moments.filterMap Moment.instruction? <+: is
  complete : x.outcome.exit = .proceed → x.moments.filterMap Moment.instruction? = is ∧
    x.moments.filterMap Moment.operation? = is.filterMap idleOperation?

namespace Rests

variable {is js : List Instruction} {ctx : ScanContext} {x : Passage}

theorem proceed (ctx : ScanContext) : Rests [] ctx (.proceed ctx) :=
  ⟨rfl, by simp [Passage.proceed], trivial, List.prefix_rfl, fun _ => ⟨rfl, rfl⟩⟩

theorem andThen {next : ScanContext → Passage} (h : Rests is ctx x)
    (hnext : ∀ mid, Rests js mid (next mid)) : Rests (is ++ js) ctx (x.andThen next) := by
  obtain ⟨ms, last, exit⟩ := x
  have hidle : ∀ m ∈ ms, m.Idle (is ++ js) := fun m hm => (h.idle m hm).mono (by simp)
  cases exit with
  | proceed =>
    have k := hnext last
    obtain ⟨hreached, hoperated⟩ := h.complete rfl
    have hall : ms.filterMap Moment.instruction? = is := hreached
    refine ⟨h.leads.append k.leads, ?_, k.exit.mono fun exact hoverflows => ?_, ?_, fun hexit => ?_⟩
    · exact List.forall_mem_append.mpr
        ⟨hidle, fun m hm => (k.idle m hm).mono (List.subset_append_right is js)⟩
    · obtain ⟨m, hm, hoverflows⟩ := hoverflows
      exact ⟨m, List.mem_append_right ms hm, hoverflows⟩
    · change (ms ++ (next last).moments).filterMap Moment.instruction? <+: is ++ js
      rw [List.filterMap_append, hall]
      exact (List.prefix_append_right_inj is).mpr k.reached
    · obtain ⟨kreached, koperated⟩ := k.complete hexit
      change (ms ++ (next last).moments).filterMap Moment.instruction? = is ++ js ∧
        (ms ++ (next last).moments).filterMap Moment.operation? =
          (is ++ js).filterMap idleOperation?
      rw [List.filterMap_append, List.filterMap_append, List.filterMap_append, kreached, koperated]
      exact ⟨congrArg (· ++ js) hall, congrArg (· ++ js.filterMap idleOperation?) hoperated⟩
  | leave => exact h.exit.elim
  | fail e =>
    have hstop : Passage.andThen ⟨ms, last, .fail e⟩ next = ⟨ms, last, .fail e⟩ := by
      simp [Passage.andThen, Outcome.onward, Outcome.andThen]
    rw [hstop]
    refine ⟨h.leads, hidle, h.exit, h.reached.trans (List.prefix_append is js), ?_⟩
    intro hexit
    cases hexit

end Rests

theorem idle_rests (i : Instruction) (ctx : ScanContext) : Rests [i] ctx (i.idle ctx) := by
  have hreach : ∀ m ∈ [Moment.reach i false ctx], m.Idle [i] := by
    simpa using Moment.Idle.reach i ctx (List.mem_singleton_self i)
  have hrearm := Moment.after_reach_false i ctx
  have hinert : i.idleOperation? = none →
      Rests [i] ctx ⟨[.reach i false ctx], (i.rearm ctx).proceed⟩ := fun hnone =>
    ⟨⟨rfl, hrearm.symm⟩, hreach, trivial, List.prefix_rfl,
      fun _ => ⟨rfl, by simp [hnone, Moment.operation?]⟩⟩
  cases i with
  | loop id oneshot head body => exact hinert rfl
  | single id oneshot op =>
    unfold idle
    cases hop : op.inertWhenDisabled with
    | true =>
      simp only [hop, if_true]
      exact hinert (by simp [idleOperation?, hop])
    | false =>
      simp only [hop, Bool.false_eq_true, if_false]
      have hworks : op.WorksIdle := Operation.inertWhenDisabled_eq_false.mp hop
      have hoperate : Moment.Idle [single id oneshot op]
          (.operate id op false ((single id oneshot op).rearm ctx)) :=
        .operate id op _ (List.mem_singleton_self _) hworks
      have hexit := op.execute_exit hworks.ne_call hworks.ne_leave
      refine ⟨⟨rfl, hrearm.symm, rfl⟩, ?_, (hexit _ id false _).mono fun exact hoverflows => ?_,
        List.prefix_rfl, fun _ => ⟨rfl, ?_⟩⟩
      · have hlast := List.forall_mem_singleton.mpr hoperate
        exact List.forall_mem_cons.mpr ⟨hreach _ (List.mem_singleton_self _), hlast⟩
      · exact ⟨_, List.mem_cons_of_mem _ (List.mem_singleton_self _), hoverflows⟩
      · have hown : (single id oneshot op).idleOperation? = some (id, op) := by
          simp [idleOperation?, hop]
        rw [List.filterMap_cons_some hown]
        rfl

theorem idleAll_rests (is : List Instruction) (ctx : ScanContext) :
    Rests is ctx (idleAll is ctx) := by
  induction is generalizing ctx with
  | nil => exact .proceed ctx
  | cons i is ih => exact (i.idle_rests ctx).andThen ih

end Instruction

section Outs

variable {ctx : ScanContext}

/-- Writes that agree on a name leave their value under it. -/
theorem ScanContext.tag?_writeAll {writes : List (Tag × Value)} {name : String} {v : Value}
    (hvalue : ∀ w ∈ writes, w.1.name = name → w.2 = v)
    (h : ctx.tag? name = some v ∨ ∃ w ∈ writes, w.1.name = name) :
    (ctx.writeAll writes).tag? name = some v := by
  induction writes generalizing ctx with
  | nil =>
    rcases h with h | ⟨w, hw, -⟩
    · exact h
    · cases hw
  | cons w writes ih =>
    obtain ⟨hw, hrest⟩ := List.forall_mem_cons.mp hvalue
    refine ih hrest ?_
    change (ctx.setTag w.1.name w.2).tag? name = some v ∨ _
    rw [tag?_setTag]
    by_cases hname : w.1.name = name
    · left
      rw [if_pos hname.symm, hw hname]
    · rw [if_neg (Ne.symm hname)]
      refine h.imp_right ?_
      rintro ⟨u, hu, heq⟩
      rcases List.mem_cons.mp hu with rfl | hu
      · exact absurd heq hname
      · exact ⟨u, hu, heq⟩

/-- An OUT that runs disabled switches off every cell that it means. -/
theorem Out.tag?_of_means {coil : Out} {u : Tag} (h : coil.target.Means ctx u) :
    (coil.execute false ctx).context.tag? u.name = some (.bool false) := by
  obtain ⟨target⟩ := coil
  cases target with
  | tag t =>
    obtain rfl : u = t := h
    exact (ScanContext.tag?_setTag ctx u.name _ u.name).trans (if_pos rfl)
  | range r =>
    obtain ⟨cells, hcells, hu⟩ := h
    have hexecute : (Out.mk (.range r)).execute false ctx =
        (ctx.writeAll (cells.tags.map fun t => (t, .bool false))).proceed := by
      simp only [execute, CoilTarget.drive, RangeRef.onCells, hcells]
    rw [hexecute]
    refine ScanContext.tag?_writeAll ?_ (.inr ⟨_, List.mem_map_of_mem hu, rfl⟩)
    intro w hw _
    obtain ⟨t, -, rfl⟩ := List.mem_map.mp hw
    rfl

end Outs

namespace Moment

variable {is : List Instruction} {m : Moment}

/-- A moment on a false rung reads the state and counts the calls as before. -/
theorem Idle.frame (h : m.Idle is) : m.after.state = m.context.state ∧
    m.after.edgeTags = m.context.edgeTags ∧ m.after.callDepth = m.context.callDepth := by
  cases h with
  | reach i ctx hi => exact ⟨rfl, rfl, rfl⟩
  | operate id op ctx hop hworks =>
    have heffect := (op.effect hworks.ne_call (fun _ ctx => ctx.proceed) id false ctx).frame
    exact ⟨heffect.1, heffect.2.2.1, heffect.2.2.2⟩

theorem Idle.tag?_eq (h : m.Idle is) {name : String} (hfault : ∀ f : Fault, f.tagName ≠ name)
    (htargets : ∀ id oneshot op, .single id oneshot op ∈ is → op.WorksIdle →
      ∀ t, op.Targets t → t.name ≠ name) :
    m.after.tag? name = m.context.tag? name := by
  cases h with
  | reach i ctx hi => rfl
  | operate id op ctx hop hworks =>
    exact (op.effect hworks.ne_call _ id false ctx).tag?_eq hfault (htargets id _ op hop hworks)

theorem Idle.memory?_eq (h : m.Idle is) {key : String}
    (hkeeps : ∀ id oneshot op, .single id oneshot op ∈ is → op.WorksIdle → ¬op.Keeps id key) :
    m.after.memory? key = m.context.memory? key := by
  cases h with
  | reach i ctx hi => rfl
  | operate id op ctx hop hworks =>
    exact (op.effect hworks.ne_call _ id false ctx).memory?_eq (hkeeps id _ op hop hworks)

end Moment

/-- What happens on a false rung, and how it ends. Its instructions are reached in order and never
enabled, all of them if the flow goes on. Only OUTs and instructions that always execute operate:
nothing but faults and what they name is changed, and an OUT has switched off what nothing behind it
writes. -/
structure Rung.HoldsStill (r : Rung) (ctx : ScanContext) (ms : List Moment) (o : Outcome) :
    Prop where
  leads : Moment.Leads ctx ms o.context
  idle : ∀ m ∈ ms, m.Idle r.instructions
  exit : o.exit.IsPlain fun exact => ∃ m ∈ ms, m.Overflows exact
  reached : ms.filterMap Moment.instruction? <+: r.instructions
  complete : o.exit = .proceed → ms.filterMap Moment.instruction? = r.instructions ∧
    ms.filterMap Moment.operation? = r.instructions.filterMap Instruction.idleOperation?
  frame : o.context.state = ctx.state ∧ o.context.edgeTags = ctx.edgeTags ∧
    o.context.callDepth = ctx.callDepth
  tags : ∀ name, (∀ f : Fault, f.tagName ≠ name) →
    (∀ id oneshot op, .single id oneshot op ∈ r.instructions → op.WorksIdle →
      ∀ t, op.Targets t → t.name ≠ name) →
    o.context.tag? name = ctx.tag? name
  memory : ∀ key,
    (∀ id oneshot op, .single id oneshot op ∈ r.instructions → op.WorksIdle → ¬op.Keeps id key) →
    o.context.memory? key = ctx.memory? key
  outs : ∀ before id coil mid later, ms = before ++ .operate id (.out coil) false mid :: later →
    ∀ u, coil.target.Means mid u →
      (∀ m ∈ later, m.after.tag? u.name = m.context.tag? u.name) →
      o.context.tag? u.name = some (.bool false)

namespace Rung

theorem holdsStill_of_rests {r : Rung} {ctx : ScanContext} {x : Passage}
    (h : Instruction.Rests r.instructions ctx x) : r.HoldsStill ctx x.moments x.outcome where
  leads := h.leads
  idle := h.idle
  exit := h.exit
  reached := h.reached
  complete := h.complete
  frame := by
    have hstate := h.leads.eq_of_moments fun m hm => (h.idle m hm).frame.1
    have hedgeTags := h.leads.eq_of_moments fun m hm => (h.idle m hm).frame.2.1
    have hcallDepth := h.leads.eq_of_moments fun m hm => (h.idle m hm).frame.2.2
    exact ⟨hstate, hedgeTags, hcallDepth⟩
  tags name hfault htargets :=
    h.leads.eq_of_moments (f := (ScanContext.tag? · name))
      fun m hm => (h.idle m hm).tag?_eq hfault htargets
  memory key hkeeps :=
    h.leads.eq_of_moments (f := (ScanContext.memory? · key))
      fun m hm => (h.idle m hm).memory?_eq hkeeps
  outs before id coil mid later hsplit u hu hlater := by
    have hleads := h.leads
    rw [hsplit] at hleads
    have hend := hleads.of_split.eq_of_moments (f := (ScanContext.tag? · u.name)) hlater
    exact hend.trans (Out.tag?_of_means hu)

/-- Wherever it stands and whatever the conditions of its branches say, a rung whose own conditions
do not hold on entry holds still, in the same way in all surroundings. -/
theorem holdsStill {r : Rung} {ctx : ScanContext} (h : r.enabled ctx = false) :
    ∃ ms o, r.HoldsStill ctx ms o ∧
      ∀ env calls, r.moments env calls ctx = .rung r ctx :: ms ∧ r.execute env ctx = o := by
  refine ⟨_, _, holdsStill_of_rests (Instruction.idleAll_rests r.instructions ctx),
    fun env calls => ?_⟩
  have hpassage := passage_eq_idleAll h env calls
  exact ⟨congrArg Passage.moments hpassage, congrArg Passage.outcome hpassage⟩

end Rung

/-! A false rung with a loop around a CALL and a coil, in a branch whose own condition holds. -/

namespace Sample

def stopped : Rung where
  conditions := [.normallyClosed start]
  items := [.branch [.bit start] [.instruction (.loop 0 false ⟨.literal (.int 2), pointer⟩
    [.single 1 false (.callSubroutine "Home"), .single 2 true coil])],
    .instruction (.single 3 false timer)]

theorem mem_stopped {id : InstructionId} {oneshot : Bool} {op : Operation}
    (h : .single id oneshot op ∈ stopped.instructions) :
    op = .callSubroutine "Home" ∨ op = coil ∨ op = timer := by
  have hlist : stopped.instructions =
    [.loop 0 false ⟨.literal (.int 2), pointer⟩
      [.single 1 false (.callSubroutine "Home"), .single 2 true coil],
      .single 1 false (.callSubroutine "Home"), .single 2 true coil, .single 3 false timer] := rfl
  rw [hlist] at h
  simp only [List.mem_cons, List.not_mem_nil, or_false, reduceCtorEq, false_or,
    Instruction.single.injEq] at h
  exact h.imp (fun h => h.2.2) (Or.imp (fun h => h.2.2) (fun h => h.2.2))

end Sample

/-- The loop does not write its index. -/
theorem Rung.holdsStill_sample :
    Sample.stopped.enabled (.start Sample.state ∅) = false ∧
      ∃ ms o, Sample.stopped.HoldsStill (.start Sample.state ∅) ms o ∧
        (∀ env, Sample.stopped.execute env (.start Sample.state ∅) = o) ∧
        o.context.tag? "Pointer" = some (.int 5) := by
  have hoff : Sample.stopped.enabled (.start Sample.state ∅) = false := by decide
  obtain ⟨ms, o, h, hsame⟩ := holdsStill hoff
  refine ⟨hoff, ms, o, h, fun env => (hsame env fun _ _ => []).2, ?_⟩
  have hfault : ∀ f : Fault, f.tagName ≠ "Pointer" := by
    intro f
    cases f <;> decide
  rw [h.tags "Pointer" hfault fun id oneshot op hop hworks t ht => ?_]
  · decide
  · rcases Sample.mem_stopped hop with rfl | rfl | rfl
    · exact ht.elim
    · obtain rfl : t = Sample.lamp := ht
      decide
    · obtain rfl | rfl : t = Sample.done ∨ t = Sample.count := ht <;> decide

end LadderLogic
