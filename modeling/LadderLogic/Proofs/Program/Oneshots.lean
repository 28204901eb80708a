import LadderLogic.Proofs.Program.Handles
import LadderLogic.Proofs.Scan.Failure

/-!
Oneshots. Tasks of one program that run one after the other on a runtime table leave there, for each
oneshot, whether its instruction was enabled when it was last reached. So the instruction acts when
it is enabled and was not enabled the time before.
-/

set_option autoImplicit false

namespace LadderLogic

namespace Instruction

/-- What an instruction does when its gate lets it act. -/
def act (env : Surroundings) : Instruction → ScanContext → Outcome
  | single id _ op => op.execute env.subroutines id true
  | loop _ _ head body => executePasses env head (executeAll env true body)

/-- What an instruction does when it is disabled. -/
def off (env : Surroundings) : Instruction → ScanContext → Outcome
  | single id _ op => fun ctx =>
    if op.inertWhenDisabled then ctx.proceed else op.execute env.subroutines id false ctx
  | loop _ _ _ body => executeAll env false body

/-- What an instruction does when it is enabled and has fired: an OUT is off, and any other does
nothing. -/
def spent : Instruction → ScanContext → Outcome
  | single _ _ (.out coil) => coil.execute false
  | _ => ScanContext.proceed

/-- The task of an instruction that acts. -/
def acting : Instruction → Task
  | single id _ op => .operate id op true
  | loop _ _ head body => .loop head body

theorem execute_eq_gate (env : Surroundings) (enabled : Bool) (i : Instruction)
    (ctx : ScanContext) :
    i.execute env enabled ctx =
      gate i.id i.oneshot enabled (i.act env) (i.off env) i.spent ctx := by
  cases i with
  | loop id oneshot head body =>
    rw [execute]
    rfl
  | single id oneshot op =>
    rw [execute]
    cases op <;> rfl

end Instruction

/-- The moment at which a visit reaches an instruction. -/
def Visit.reach? (v : Visit) : Option Moment :=
  match v.task with
  | .reach i enabled => some (.reach i enabled v.context)
  | _ => none

/-- The table behind a visit. -/
def Visit.record (r : RuntimeTable) (v : Visit) : RuntimeTable :=
  v.reach?.elim r (Moment.record r)

/-- The visits follow each other on a runtime table. -/
def Records : RuntimeTable → List Visit → RuntimeTable → Prop
  | r, [], last => last = r
  | r, v :: vs, last => v.context.runtime = r ∧ Records (v.record r) vs last

namespace Records

variable {r mid last : RuntimeTable} {visits more : List Visit}

theorem append (h : Records r visits mid) (k : Records mid more last) :
    Records r (visits ++ more) last := by
  induction visits generalizing r with
  | nil =>
    obtain rfl : mid = r := h
    exact k
  | cons v visits ih => exact ⟨h.1, ih h.2⟩

/-- A visit finds the table as the earlier ones have left it. -/
theorem runtime_of_split {before after : List Visit} {v : Visit}
    (h : Records r (before ++ v :: after) last) :
    v.context.runtime = (before.filterMap Visit.reach?).foldl Moment.record r := by
  induction before generalizing r with
  | nil => exact h.1
  | cons u before ih =>
    rw [ih h.2, List.filterMap_cons]
    unfold Visit.record
    cases u.reach? <;> rfl

theorem invariant {P : RuntimeTable → Prop} (h : Records r visits last) (hr : P r)
    (hstep : ∀ v ∈ visits, ∀ r, P r → P (v.record r)) :
    (∀ v ∈ visits, P v.context.runtime) ∧ P last := by
  induction visits generalizing r with
  | nil =>
    obtain rfl : last = r := h
    exact ⟨by simp, hr⟩
  | cons v visits ih =>
    obtain ⟨hv, hrest⟩ := List.forall_mem_cons.mp hstep
    obtain ⟨hvisits, hlast⟩ := ih h.2 (hv r hr) hrest
    exact ⟨List.forall_mem_cons.mpr ⟨h.1 ▸ hr, hvisits⟩, hlast⟩

end Records

section Run

variable {p : Program} {active : List String} {t : Task} {ctx : ScanContext}
  {visits : List Visit} {o : Outcome}

theorem Task.unfold_runtime {next : Task × ScanContext} (h : t.unfold p ctx = some next) :
    next.2.runtime = Visit.record ctx.runtime ⟨active, t, ctx⟩ := by
  rw [unfold_context h]
  cases t with
  | reach i enabled => exact apply_ite ScanContext.runtime _ _ _
  | _ => exact (entered_frame p _ ctx).1 nofun

/-- Induction over the run: only reaching an instruction touches the table. -/
theorem Runs.records (h : Runs p active t ctx visits o) :
    Records ctx.runtime visits o.context.runtime := by
  induction h with
  | unfold hunfold _ ih => exact ⟨rfl, Task.unfold_runtime hunfold ▸ ih⟩
  | operate subroutines hcall => exact ⟨rfl, (Operation.effect _ hcall _ _ _ _).frame.2.1⟩
  | called _ ih => exact ⟨rfl, ih⟩
  | unknown _ => exact ⟨rfl, rfl⟩
  | tooDeep _ _ => exact ⟨rfl, rfl⟩
  | @enter active name rungs ctx visits o _ _ _ ih =>
    have hend : (o.absorbLeave.mapContext ScanContext.exitCall).context.runtime =
        o.context.runtime := by
      obtain ⟨last, exit⟩ := o
      cases exit <;> rfl
    exact ⟨rfl, hend ▸ ih⟩
  | nothing => rfl
  | next _ _ _ ihfirst ihrest => exact ihfirst.append ihrest
  | stop _ _ ih => exact ih

end Run

namespace Task

/-- The instructions inside a task. -/
def instructions : Task → List Instruction
  | nothing => []
  | seq first rest => first.instructions ++ rest.instructions
  | rung r => r.instructions
  | item inner _ _ => inner.instructions
  | reach i _ => i.flatten
  | operate _ _ _ => []
  | loop _ body => Instruction.flattenAll body
  | pass _ body _ => Instruction.flattenAll body
  | call _ => []

theorem instructions_inOrder {α : Type} (f : α → Task) (xs : List α) :
    (inOrder (xs.map f)).instructions = xs.flatMap fun x => (f x).instructions :=
  flatMap_inOrder rfl (fun _ _ => rfl) f xs

theorem mem_instructions_reach (i : Instruction) (enabled : Bool) :
    i ∈ (reach i enabled).instructions := by
  cases i <;> simp [instructions, Instruction.flatten]

end Task

theorem Instruction.flatMap_flatten (is : List Instruction) :
    is.flatMap flatten = flattenAll is := by
  induction is with
  | nil => rw [flattenAll, List.flatMap_nil]
  | cons i is ih => rw [flattenAll, List.flatMap_cons, ih]

theorem RungItem.flatMap_instructions (items : List RungItem) :
    items.flatMap instructions = instructionsOfAll items := by
  induction items with
  | nil => rw [instructionsOfAll, List.flatMap_nil]
  | cons item items ih => rw [instructionsOfAll, List.flatMap_cons, ih]

/-- Taking a task apart brings in no instruction. -/
theorem Task.instructions_unfold {p : Program} {t : Task} {ctx : ScanContext}
    {next : Task × ScanContext} (h : t.unfold p ctx = some next) :
    next.1.instructions ⊆ t.instructions := by
  cases t with
  | rung r =>
    cases h
    rw [instructions_inOrder]
    change r.items.flatMap RungItem.instructions ⊆ RungItem.instructionsOfAll r.items
    rw [RungItem.flatMap_instructions]
    exact List.Subset.refl _
  | item item entry around =>
    cases item with
    | instruction i =>
      cases h
      exact List.Subset.refl _
    | branch conditions items =>
      cases h
      rw [instructions_inOrder]
      change items.flatMap RungItem.instructions ⊆ (RungItem.branch conditions items).instructions
      rw [RungItem.flatMap_instructions, RungItem.instructions]
      exact List.Subset.refl _
  | reach i enabled =>
    cases i with
    | single id oneshot op =>
      rcases reach_single_cases h with hnext | hnext | ⟨hnext, -⟩
      all_goals
        rw [hnext]
        exact List.nil_subset _
    | loop id oneshot head body =>
      have hbody : Instruction.flattenAll body ⊆
          (Instruction.loop id oneshot head body).flatten := by
        rw [Instruction.flatten]
        exact List.subset_cons_self _ _
      rcases reach_loop_cases h with hnext | hnext | hnext
      · rw [hnext]
        exact List.nil_subset _
      · rw [hnext]
        exact hbody
      · rw [hnext, instructions_inOrder]
        show body.flatMap Instruction.flatten ⊆ _
        rw [Instruction.flatMap_flatten]
        exact hbody
  | loop head body =>
    cases h
    rw [instructions_inOrder]
    intro j hj
    obtain ⟨number, -, hj⟩ := List.mem_flatMap.mp hj
    exact hj
  | pass head body number =>
    cases h
    rw [instructions_inOrder]
    change body.flatMap Instruction.flatten ⊆ Instruction.flattenAll body
    rw [Instruction.flatMap_flatten]
    exact List.Subset.refl _
  | nothing => cases h
  | seq first rest => cases h
  | operate id op enabled => cases h
  | call name => cases h

theorem Task.instructions_body_subset {p : Program} {rungs : List Rung}
    (h : ∀ r ∈ rungs, r ∈ p.allRungs) : (body rungs).instructions ⊆ p.instructions := by
  intro j hj
  rw [body, instructions_inOrder] at hj
  obtain ⟨r, hr, hj⟩ := List.mem_flatMap.mp hj
  exact Program.mem_instructions (h r hr) j hj

/-- A run of a task of the program reaches instructions of the program only. -/
theorem Runs.instructions_subset {p : Program} {active : List String} {t : Task}
    {ctx : ScanContext} {visits : List Visit} {o : Outcome} (h : Runs p active t ctx visits o)
    (ht : t.instructions ⊆ p.instructions) :
    ∀ v ∈ visits, v.task.instructions ⊆ p.instructions := by
  induction h with
  | unfold hunfold _ ih =>
    have hnext := List.Subset.trans (Task.instructions_unfold hunfold) ht
    exact List.forall_mem_cons.mpr ⟨ht, ih hnext⟩
  | operate _ _ => exact List.forall_mem_singleton.mpr ht
  | called _ ih => exact List.forall_mem_cons.mpr ⟨ht, ih ht⟩
  | unknown _ => exact List.forall_mem_singleton.mpr ht
  | tooDeep _ _ => exact List.forall_mem_singleton.mpr ht
  | @enter active name rungs ctx visits o hname _ _ ih =>
    exact List.forall_mem_cons.mpr
      ⟨ht, ih (Task.instructions_body_subset (Program.mem_allRungs_of_subroutine? hname))⟩
  | nothing => simp
  | next _ _ _ ihfirst ihrest =>
    obtain ⟨hfirst, hrest⟩ := List.append_subset.mp ht
    exact List.forall_mem_append.mpr ⟨ihfirst hfirst, ihrest hrest⟩
  | stop _ _ ih => exact ih (List.append_subset.mp ht).1

/-- What may happen on a runtime table: tasks of the program run one after the other, each in some
context with the table as it is then. -/
inductive Program.History (p : Program) (r : RuntimeTable) : List Visit → RuntimeTable → Prop
  | start : History p r [] r
  | run {before visits : List Visit} {active : List String} {t : Task} {ctx : ScanContext}
    {o : Outcome} :
    History p r before ctx.runtime → t.instructions ⊆ p.instructions →
    Runs p active t ctx visits o → History p r (before ++ visits) o.context.runtime

/-- The enables with which the visits reach the oneshot of a handle. -/
def oneshotEnables (id : InstructionId) (visits : List Visit) : List Bool :=
  (visits.filterMap Visit.reach?).filterMap (Moment.oneshot? id)

/-- How an instruction with a oneshot runs where it is reached, after it has been reached with the
enables `earlier`. -/
structure Program.Gates (p : Program) (i : Instruction) (earlier : List Bool) (enabled : Bool)
    (ctx : ScanContext) : Prop where
  acts_iff : (∃ mid, (Task.reach i enabled).unfold p ctx = some (i.acting, mid)) ↔
    enabled = true ∧ earlier.getLast? ≠ some true
  acts : enabled = true → earlier.getLast? ≠ some true → ∀ env,
    i.execute env enabled ctx = i.act env (ctx.setOneshot i.id true)
  spent : enabled = true → earlier.getLast? = some true → ∀ env,
    i.execute env enabled ctx = i.spent ctx
  off : enabled = false → ∀ env,
    i.execute env enabled ctx = i.off env (ctx.setOneshot i.id false)

/-- All entries of the table belong to instructions of the program that have a oneshot. -/
def RuntimeTable.OfOneshots (r : RuntimeTable) (p : Program) : Prop :=
  ∀ id ∈ r, ∃ i ∈ p.instructions, i.oneshot = true ∧ i.id = id

section History

variable {p : Program} {r last : RuntimeTable} {visits : List Visit}

theorem Program.History.records (h : p.History r visits last) : Records r visits last := by
  induction h with
  | start => rfl
  | run _ _ hruns ih => exact ih.append hruns.records

theorem Program.History.reached (h : p.History r visits last) {v : Visit} (hv : v ∈ visits)
    {i : Instruction} {enabled : Bool} (htask : v.task = .reach i enabled) :
    i ∈ p.instructions := by
  have hself : i ∈ v.task.instructions := by
    rw [htask]
    exact Task.mem_instructions_reach i enabled
  induction h with
  | start => cases hv
  | run _ ht hruns ih =>
    rcases List.mem_append.mp hv with hv | hv
    · exact ih hv
    · exact hruns.instructions_subset ht v hv hself

end History

/-- The gate of a oneshot lets it act if it is enabled and has not fired. -/
theorem Instruction.gate_acts_iff {id : InstructionId} {t : Task}
    {act idle spent : ScanContext → Task × ScanContext} (hact : ∀ ctx, (act ctx).1 = t)
    (hidle : ∀ ctx, (idle ctx).1 ≠ t) (hspent : ∀ ctx, (spent ctx).1 ≠ t) (enabled : Bool)
    (ctx : ScanContext) :
    (gate id true enabled act idle spent ctx).1 = t ↔
      enabled = true ∧ ctx.oneshotFired id = false := by
  unfold gate
  split_ifs with henabled honeshot hfired
  · exact iff_of_false (hspent ctx) (by simp [hfired])
  · exact iff_of_true (hact _) ⟨henabled, Bool.eq_false_of_not_eq_true hfired⟩
  · exact absurd rfl honeshot
  · exact iff_of_false (hidle _) fun h => henabled h.1
  · exact iff_of_false (hidle _) fun h => henabled h.1

theorem Instruction.acts_iff_not_fired {p : Program} {i : Instruction} (honeshot : i.oneshot = true)
    (enabled : Bool) (ctx : ScanContext) :
    (∃ mid, (Task.reach i enabled).unfold p ctx = some (i.acting, mid)) ↔
      enabled = true ∧ ctx.oneshotFired i.id = false := by
  have hnext : ∀ next : Task × ScanContext, (∃ mid, some next = some (i.acting, mid)) ↔
      next.1 = i.acting := by
    rintro ⟨t, mid⟩
    simp
  cases i with
  | single id oneshot op =>
    obtain rfl : oneshot = true := honeshot
    refine (hnext _).trans ?_
    apply gate_acts_iff
    · intro mid
      rfl
    · intro mid
      dsimp only
      split_ifs <;> nofun
    · intro mid
      cases op <;> nofun
  | loop id oneshot head body =>
    obtain rfl : oneshot = true := honeshot
    refine (hnext _).trans ?_
    apply gate_acts_iff
    · intro mid
      rfl
    · intro mid
      cases body <;> nofun
    · intro mid
      nofun

namespace Program

variable {p : Program} {r last : RuntimeTable} {visits : List Visit}

theorem gates_of_fired {i : Instruction} (honeshot : i.oneshot = true) {earlier : List Bool}
    {ctx : ScanContext} (hfired : ctx.oneshotFired i.id = earlier.getLast?.getD false)
    (enabled : Bool) : p.Gates i earlier enabled ctx := by
  have hlast : ctx.oneshotFired i.id = true ↔ earlier.getLast? = some true := by
    rw [hfired]
    cases earlier.getLast? <;> simp
  refine ⟨?_, fun henabled hother env => ?_, fun henabled hsame env => ?_, fun henabled env => ?_⟩
  · rw [Instruction.acts_iff_not_fired honeshot, ← Bool.not_eq_true, hlast]
  · rw [Instruction.execute_eq_gate, Instruction.gate, if_pos henabled, if_pos honeshot,
      if_neg fun h => hother (hlast.mp h)]
  · rw [Instruction.execute_eq_gate, Instruction.gate, if_pos henabled, if_pos honeshot,
      if_pos (hlast.mpr hsame)]
  · rw [Instruction.execute_eq_gate, Instruction.gate, if_neg (by simp [henabled]), if_pos honeshot]

theorem History.fired (h : p.History r visits last) {id : InstructionId} (hnone : r[id]? = none)
    {before after : List Visit} {v : Visit} (hsplit : visits = before ++ v :: after) :
    v.context.oneshotFired id =
      (oneshotEnables id before).getLast?.getD false := by
  have hrecords := h.records
  rw [hsplit] at hrecords
  have hstart : r.fired id = false := by simp [RuntimeTable.fired, hnone]
  rw [ScanContext.oneshotFired, hrecords.runtime_of_split, Moment.fired_foldl_record, hstart]
  rfl

/-- Only reaching a oneshot makes an entry, and it is that of the instruction reached. -/
theorem ofOneshots_record {v : Visit}
    (hv : ∀ i enabled, v.task = .reach i enabled → i ∈ p.instructions) {table : RuntimeTable}
    (h : table.OfOneshots p) : (v.record table).OfOneshots p := by
  obtain ⟨active, task, ctx⟩ := v
  cases task with
  | reach i enabled =>
    intro id hid
    change id ∈ if i.oneshot then table.setOneshot i.id enabled else table at hid
    by_cases honeshot : i.oneshot = true
    · by_cases hsame : i.id = id
      · exact ⟨i, hv i enabled rfl, honeshot, hsame⟩
      · have hother := RuntimeTable.getElem?_setOneshot_of_ne (r := table) hsame enabled
        rw [if_pos honeshot, Std.ExtTreeMap.mem_iff_isSome_getElem?, hother] at hid
        exact h id (Std.ExtTreeMap.mem_iff_isSome_getElem?.mpr hid)
    · rw [if_neg honeshot] at hid
      exact h id hid
  | _ => exact h

/-- Handles tell the instructions of a program apart. In every history of a runtime table in which a
oneshot instruction has no entry at first, it acts where it is enabled and was not enabled when it
was reached before; and a table that was empty has entries of oneshot instructions only. -/
theorem oneshots_of_history (haccepted : p.Accepted) (h : p.History r visits last) :
    (∀ i ∈ p.instructions, ∀ j ∈ p.instructions, i.id = j.id → i = j) ∧
    (∀ i ∈ p.instructions, i.oneshot = true → r[i.id]? = none →
      ∀ before v after enabled, visits = before ++ v :: after → v.task = .reach i enabled →
        p.Gates i (oneshotEnables i.id before) enabled v.context) ∧
    (r = ∅ → (∀ v ∈ visits, v.context.runtime.OfOneshots p) ∧ last.OfOneshots p) := by
  refine ⟨fun i hi j hj hid => eq_of_id haccepted hi hj hid, ?_, fun hempty => ?_⟩
  · intro i _ honeshot hnone before v after enabled hsplit _
    exact gates_of_fired honeshot (h.fired hnone hsplit) enabled
  · have hstart : r.OfOneshots p := by
      subst hempty
      intro id hid
      simp at hid
    refine h.records.invariant (P := fun table => table.OfOneshots p) hstart fun v hv table => ?_
    exact ofOneshots_record fun i enabled htask => h.reached hv htask

/-- The coil is reached twice on one table, enabled both times, and is off the second time. -/
theorem oneshots_of_history_sample :
    let i := Instruction.single 0 true Sample.coil
    ∃ visits last, Sample.failing.History ∅ visits last ∧
      (∃ ctx, Sample.failing.Gates i [true] true ctx ∧ ∀ env, i.execute env true ctx = i.spent ctx) ∧
      last.OfOneshots Sample.failing := by
  intro i
  have hi : (Task.reach i true).instructions ⊆ Sample.failing.instructions :=
    List.cons_subset.mpr ⟨List.mem_cons_self, List.nil_subset _⟩
  have hfirst : Runs Sample.failing [] (.reach i true) (.start Sample.state ∅) _ _ :=
    .unfold rfl (.operate Sample.failing.call nofun)
  let between := (Sample.coil.execute Sample.failing.call 0 true
    ((ScanContext.start Sample.state ∅).setOneshot 0 true)).context
  have hsecond : Runs Sample.failing [] (.reach i true) between _ _ :=
    .unfold rfl (.operate Sample.failing.call nofun)
  have hhistory := History.run (.run .start hi hfirst) hi hsecond
  obtain ⟨-, hgates, hentries⟩ := oneshots_of_history Sample.failing_accepted hhistory
  have hsecondGates : Sample.failing.Gates i [true] true between :=
    hgates i (hi List.mem_cons_self) rfl rfl _ _ _ true rfl rfl
  exact ⟨_, _, hhistory, ⟨_, hsecondGates, hsecondGates.spent rfl rfl⟩, (hentries rfl).2⟩

end Program

end LadderLogic
