import LadderLogic.Proofs.Program.Agenda
import LadderLogic.Proofs.Program.Oneshots
import LadderLogic.Proofs.Scan.Frame
import LadderLogic.Proofs.Scan.Lookup

/-!
The pulse of a coil with a oneshot, over the scans of a session. The coil is on where it is enabled
and was not enabled the time before, so it is seen on after the first scan of an activation, unless
that scan comes to it more than once: the second time it is off again.
-/

set_option autoImplicit false

namespace LadderLogic

open Agenda

namespace Visit

/-- The operation with this handle runs. -/
def Operates (id : InstructionId) (v : Visit) : Prop :=
  ∃ op enabled, v.task = .operate id op enabled

/-- What a task does where it is visited, and not what it consists of, leaves a tag as it reads. -/
def Leaves (p : Program) (name : String) (v : Visit) : Prop :=
  (perform p v.task v.context).2.context.tag? name = v.context.tag? name

end Visit

/-! Who can write a tag: the operations and the loops of a run stand in the program. -/

namespace Task

/-- Nothing but rungs, items and instructions that are still to be reached. -/
def Plain : Task → Prop
  | seq first rest => first.Plain ∧ rest.Plain
  | nothing => True
  | rung _ => True
  | item _ _ _ => True
  | reach _ _ => True
  | _ => False

@[simp] theorem plain_inOrder {α : Type} {f : α → Task} {xs : List α} :
    (inOrder (xs.map f)).Plain ↔ ∀ x ∈ xs, (f x).Plain :=
  forall_inOrder trivial fun _ _ => Iff.rfl

theorem plain_body (rs : List Rung) : (body rs).Plain := by
  simp [body, Plain]

/-- What taking a task apart can yield: operations and loops come from reaching an instruction. -/
inductive Yields (t : Task) : Task → Prop
  | plain {next : Task} : next.Plain → Yields t next
  | operate {id : InstructionId} {oneshot enabled : Bool} {op : Operation} (b : Bool) :
    t = reach (.single id oneshot op) enabled → Yields t (.operate id op b)
  | loop {id : InstructionId} {oneshot enabled : Bool} {head : ForHead} {body : List Instruction} :
    t = reach (.loop id oneshot head body) enabled → Yields t (.loop head body)
  | passes {head : ForHead} {body : List Instruction} (numbers : List ℕ) :
    t = .loop head body → Yields t (inOrder (numbers.map (pass head body)))

theorem yields_unfold {p : Program} {t : Task} {ctx : ScanContext} {next : Task × ScanContext}
    (h : t.unfold p ctx = some next) : t.Yields next.1 := by
  cases t with
  | rung r =>
    cases h
    exact .plain (plain_inOrder.mpr fun _ _ => trivial)
  | item item entry around =>
    cases item with
    | instruction i =>
      cases h
      exact .plain trivial
    | branch conditions items =>
      cases h
      exact .plain (plain_inOrder.mpr fun _ _ => trivial)
  | reach i enabled =>
    cases i with
    | single id oneshot op =>
      rcases reach_single_cases h with hnext | hnext | ⟨hnext, -⟩
      · exact hnext ▸ .plain trivial
      · exact hnext ▸ .operate true rfl
      · exact hnext ▸ .operate false rfl
    | loop id oneshot head body =>
      rcases reach_loop_cases h with hnext | hnext | hnext
      · exact hnext ▸ .plain trivial
      · exact hnext ▸ .loop rfl
      · exact hnext ▸ .plain (plain_inOrder.mpr fun _ _ => trivial)
  | loop head body =>
    cases h
    exact .passes _ rfl
  | pass head body number =>
    cases h
    exact .plain (plain_inOrder.mpr fun _ _ => trivial)
  | nothing => cases h
  | seq first rest => cases h
  | operate id op enabled => cases h
  | call name => cases h

/-- The operations and loops that a task is about are instructions of the program. -/
def Named (p : Program) : Task → Prop
  | seq first rest => first.Named p ∧ rest.Named p
  | operate id op _ => ∃ oneshot, .single id oneshot op ∈ p.instructions
  | loop head body => ∃ id oneshot, .loop id oneshot head body ∈ p.instructions
  | pass head body _ => ∃ id oneshot, .loop id oneshot head body ∈ p.instructions
  | _ => True

/-- No operation of the handle is taken up but by reaching its instruction. -/
def Avoids (id : InstructionId) : Task → Prop
  | seq first rest => first.Avoids id ∧ rest.Avoids id
  | operate other _ _ => other ≠ id
  | _ => True

theorem Plain.named {p : Program} {t : Task} (h : t.Plain) : t.Named p := by
  induction t with
  | seq first rest ihfirst ihrest => exact ⟨ihfirst h.1, ihrest h.2⟩
  | _ => trivial

theorem Plain.avoids {id : InstructionId} {t : Task} (h : t.Plain) : t.Avoids id := by
  induction t with
  | seq first rest ihfirst ihrest => exact ⟨ihfirst h.1, ihrest h.2⟩
  | _ => trivial

section Unfold

variable {p : Program} {t : Task} {ctx : ScanContext} {next : Task × ScanContext} {name : String}

theorem named_unfold (h : t.unfold p ctx = some next) (ht : t.instructions ⊆ p.instructions)
    (hnamed : t.Named p) : next.1.Named p := by
  have hreached : ∀ {i enabled}, t = reach i enabled → i ∈ p.instructions := by
    rintro i enabled rfl
    exact ht (mem_instructions_reach i enabled)
  obtain ⟨next, mid⟩ := next
  cases yields_unfold h with
  | plain hplain => exact hplain.named
  | operate b hreach => exact ⟨_, hreached hreach⟩
  | loop hreach => exact ⟨_, _, hreached hreach⟩
  | passes numbers hloop =>
    subst hloop
    exact (forall_inOrder trivial fun _ _ => Iff.rfl).mpr fun _ _ => hnamed

theorem avoids_unfold {id : InstructionId} (h : t.unfold p ctx = some next)
    (ht : ∀ i enabled, t = reach i enabled → i.id ≠ id) : next.1.Avoids id := by
  obtain ⟨next, mid⟩ := next
  cases yields_unfold h with
  | plain hplain => exact hplain.avoids
  | operate b hreach => exact ht _ _ hreach
  | loop hreach => trivial
  | passes numbers hloop => exact (forall_inOrder trivial fun _ _ => Iff.rfl).mpr fun _ _ => trivial

theorem unfold_reach_tag? {i : Instruction} {enabled : Bool}
    (h : (reach i enabled).unfold p ctx = some next) : next.2.tag? name = ctx.tag? name := by
  rw [unfold_context h]
  unfold entered
  dsimp only
  split_ifs <;> rfl

/-- A coil with a oneshot is driven wherever it is reached: on if it is enabled and has not
fired. -/
theorem unfold_coil {id : InstructionId} {coil : Out} {enabled : Bool}
    (h : (reach (.single id true (.out coil)) enabled).unfold p ctx = some next) :
    next.1 = operate id (.out coil) (enabled && !ctx.oneshotFired id) := by
  cases h
  cases enabled with
  | false => rfl
  | true =>
    cases hfired : ctx.oneshotFired id <;> simp [Instruction.gate, hfired]

end Unfold

end Task

section Writers

variable {p : Program} {id : InstructionId} {oneshot : Bool} {op : Operation} {name : String}

/-- Where no fault and no instruction but one names a tag, all that it does not do itself leaves the
tag. -/
theorem Visit.leaves_of_targets (hfault : ∀ f : Fault, f.tagName ≠ name)
    (htargets : ∀ j ∈ p.instructions, j ≠ .single id oneshot op → ∀ t, j.Targets t → t.name ≠ name)
    {v : Visit} (hnamed : v.task.Named p) (hv : ¬v.Operates id) : v.Leaves p name := by
  obtain ⟨active, t, ctx⟩ := v
  cases t with
  | operate other op enabled =>
    obtain ⟨oneshot, hop⟩ := hnamed
    by_cases hcall : ∃ name, op = .callSubroutine name
    · obtain ⟨name, rfl⟩ := hcall
      rfl
    · have hcall : ∀ name, op ≠ .callSubroutine name := fun name h => hcall ⟨name, h⟩
      have heffect := op.effect hcall p.call other enabled ctx
      unfold Leaves
      rw [perform_operate hcall p.call]
      refine heffect.tag?_eq hfault (htargets _ hop fun heq => hv ?_)
      cases heq
      exact ⟨_, enabled, rfl⟩
  | loop head body =>
    obtain ⟨other, gated, hloop⟩ := hnamed
    have heffect : (Instruction.loop other gated head body).Effect ctx _ :=
      Instruction.passes_effect p.loopLimit ctx
    exact heffect.tag?_eq hfault (htargets _ hloop nofun)
  | pass head body number =>
    obtain ⟨other, gated, hloop⟩ := hnamed
    have heffect : (Instruction.loop other gated head body).Effect ctx _ :=
      Instruction.writeIndex_effect number ctx
    exact heffect.tag?_eq hfault (htargets _ hloop nofun)
  | reach i enabled =>
    obtain ⟨next, hnext⟩ : ∃ next, (Task.reach i enabled).unfold p ctx = some next := by
      cases i <;> exact ⟨_, rfl⟩
    unfold Leaves
    rw [perform_of_unfold hnext]
    exact Task.unfold_reach_tag? hnext
  | call callee =>
    unfold Leaves perform
    dsimp only
    split
    · rfl
    · split_ifs <;> rfl
  | item item entry around => cases item <;> rfl
  | _ => rfl

variable {active : List String} {t : Task} {ctx : ScanContext} {visits : List Visit} {o : Outcome}

theorem Runs.named (h : Runs p active t ctx visits o) (ht : t.instructions ⊆ p.instructions)
    (hnamed : t.Named p) : ∀ v ∈ visits, v.task.Named p := by
  induction h with
  | unfold hunfold _ ih =>
    have hnext := List.Subset.trans (Task.instructions_unfold hunfold) ht
    exact List.forall_mem_cons.mpr ⟨hnamed, ih hnext (Task.named_unfold hunfold ht hnamed)⟩
  | operate _ _ => exact List.forall_mem_singleton.mpr hnamed
  | called _ ih => exact List.forall_mem_cons.mpr ⟨hnamed, ih ht trivial⟩
  | unknown _ => exact List.forall_mem_singleton.mpr hnamed
  | tooDeep _ _ => exact List.forall_mem_singleton.mpr hnamed
  | enter hname _ _ ih =>
    have hbody := Task.instructions_body_subset (Program.mem_allRungs_of_subroutine? hname)
    exact List.forall_mem_cons.mpr ⟨hnamed, ih hbody (Task.plain_body _).named⟩
  | nothing => simp
  | next _ _ _ ihfirst ihrest =>
    obtain ⟨hfirst, hrest⟩ := List.append_subset.mp ht
    exact List.forall_mem_append.mpr ⟨ihfirst hfirst hnamed.1, ihrest hrest hnamed.2⟩
  | stop _ _ ih => exact ih (List.append_subset.mp ht).1 hnamed.1

end Writers

/-! The tag of the coil, as the coil is reached again and again. -/

/-- What a tag holds after its coil has been reached with the enables, one after the other. At first
it holds `held`, and the oneshot has `fired` or not. -/
def pulse (fired : Bool) (held : Option Value) : List Bool → Option Value
  | [] => held
  | enabled :: rest => pulse enabled (some (.bool (enabled && !fired))) rest

theorem pulse_append (fired : Bool) (held : Option Value) (enables more : List Bool) :
    pulse fired held (enables ++ more) =
      pulse (enables.getLast?.getD fired) (pulse fired held enables) more := by
  induction enables generalizing fired held with
  | nil => rfl
  | cons enabled enables ih =>
    rw [List.cons_append, pulse, ih, pulse, List.getLast?_cons, Option.getD_some]

/-- The same enable several times: what was on the first time is off from the second time on. -/
theorem pulse_replicate (fired now : Bool) (held : Option Value) (n : ℕ) :
    pulse fired held (List.replicate (n + 1) now) =
      some (.bool (now && !fired && n == 0)) := by
  induction n generalizing fired held with
  | zero => cases now <;> cases fired <;> rfl
  | succ n ih =>
    rw [List.replicate_succ, pulse, ih]
    cases now <;> simp

theorem Records.last_eq {r last : RuntimeTable} {visits : List Visit} (h : Records r visits last) :
    last = (visits.filterMap Visit.reach?).foldl Moment.record r := by
  induction visits generalizing r with
  | nil => exact h
  | cons v visits ih =>
    rw [ih h.2, List.filterMap_cons]
    unfold Visit.record
    cases v.reach? <;> rfl

theorem Records.fired {r last : RuntimeTable} {visits : List Visit} (h : Records r visits last)
    (id : InstructionId) :
    last.fired id = (oneshotEnables id visits).getLast?.getD (r.fired id) := by
  rw [h.last_eq, Moment.fired_foldl_record]
  rfl

theorem Visit.not_operates {id : InstructionId} {v : Visit} (h : v.task.Avoids id) :
    ¬v.Operates id := by
  rintro ⟨op, enabled, htask⟩
  rw [htask] at h
  exact h rfl

theorem oneshotEnables_append (id : InstructionId) (visits more : List Visit) :
    oneshotEnables id (visits ++ more) = oneshotEnables id visits ++ oneshotEnables id more := by
  simp [oneshotEnables]

theorem oneshotEnables_of_ne {id : InstructionId} {v : Visit}
    (h : ∀ i enabled, v.task = .reach i enabled → i.id ≠ id) : oneshotEnables id [v] = [] := by
  obtain ⟨active, t, ctx⟩ := v
  cases t with
  | reach i enabled =>
    have hid : i.id ≠ id := h i enabled rfl
    simp [oneshotEnables, Visit.reach?, Moment.oneshot?, hid]
  | _ => rfl

theorem oneshotEnables_reach {id : InstructionId} {i : Instruction} (hid : i.id = id)
    (honeshot : i.oneshot = true) (active : List String) (enabled : Bool) (ctx : ScanContext)
    (visits : List Visit) :
    oneshotEnables id (⟨active, .reach i enabled, ctx⟩ :: visits) =
      enabled :: oneshotEnables id visits := by
  simp [oneshotEnables, Visit.reach?, Moment.oneshot?, hid, honeshot]

section Leaves

variable {p : Program} {name : String} {active : List String} {t : Task} {ctx : ScanContext}

theorem Visit.Leaves.of_unfold {next : Task × ScanContext}
    (h : Visit.Leaves p name ⟨active, t, ctx⟩) (hunfold : t.unfold p ctx = some next) :
    next.2.tag? name = ctx.tag? name := by
  unfold Visit.Leaves at h
  rwa [perform_of_unfold hunfold] at h

theorem Visit.Leaves.of_operate {id : InstructionId} {op : Operation} {enabled : Bool}
    (h : Visit.Leaves p name ⟨active, .operate id op enabled, ctx⟩)
    (hcall : ∀ name, op ≠ .callSubroutine name) (subroutines : Subroutines) :
    (op.execute subroutines id enabled ctx).context.tag? name = ctx.tag? name := by
  unfold Visit.Leaves at h
  rwa [perform_operate hcall subroutines] at h

/-- Taking a task apart touches no other oneshot than the one that it reaches. -/
theorem Task.unfold_oneshotFired {id : InstructionId} {next : Task × ScanContext}
    (h : t.unfold p ctx = some next) (hne : ∀ i enabled, t = .reach i enabled → i.id ≠ id) :
    next.2.oneshotFired id = ctx.oneshotFired id := by
  have hrecords : Records ctx.runtime [⟨[], t, ctx⟩] next.2.runtime :=
    ⟨rfl, Task.unfold_runtime h⟩
  have hfired := hrecords.fired id
  rwa [oneshotEnables_of_ne hne] at hfired

end Leaves

section Coil

variable {p : Program} {id : InstructionId} {u : Tag} {active : List String} {ctx : ScanContext}
  {visits : List Visit} {o : Outcome}

/-- Reaching the coil drives its tag. -/
theorem Runs.tag?_reach_coil {enabled : Bool}
    (h : Runs p active (.reach (.single id true (.out ⟨.tag u⟩)) enabled) ctx visits o) :
    oneshotEnables id visits = [enabled] ∧
      o.context.tag? u.name = some (.bool (enabled && !ctx.oneshotFired id)) := by
  cases h with
  | unfold hunfold hnext =>
    obtain rfl := Task.unfold_coil hunfold
    cases hnext with
    | unfold hunfold _ => cases hunfold
    | operate subroutines _ =>
      exact ⟨oneshotEnables_reach rfl rfl active enabled ctx _, ScanContext.tag?_write_self _ _ _⟩

/-- Induction over the run: each time the coil is reached it drives its tag, and in between nothing
touches that. -/
theorem Runs.tag?_coil
    (hunique : ∀ i ∈ p.instructions, i.id = id → i = .single id true (.out ⟨.tag u⟩))
    {t : Task} (h : Runs p active t ctx visits o) (ht : t.instructions ⊆ p.instructions)
    (havoids : t.Avoids id) (hleaves : ∀ v ∈ visits, ¬v.Operates id → v.Leaves p u.name) :
    o.context.tag? u.name =
      pulse (ctx.oneshotFired id) (ctx.tag? u.name) (oneshotEnables id visits) := by
  induction h with
  | @unfold active t next ctx mid visits o hunfold hnext ih =>
    by_cases hreach : ∃ i enabled, t = .reach i enabled ∧ i.id = id
    · obtain ⟨i, enabled, rfl, hid⟩ := hreach
      obtain rfl := hunique i (ht (Task.mem_instructions_reach i enabled)) hid
      obtain ⟨henables, htag⟩ := (Runs.unfold hunfold hnext).tag?_reach_coil
      rw [htag, henables]
      rfl
    · have hne : ∀ i enabled, t = .reach i enabled → i.id ≠ id :=
        fun i enabled htask hid => hreach ⟨i, enabled, htask, hid⟩
      obtain ⟨hfirst, hrest⟩ := List.forall_mem_cons.mp hleaves
      have hsame : mid.tag? u.name = ctx.tag? u.name :=
        (hfirst (Visit.not_operates havoids)).of_unfold hunfold
      have hfired : mid.oneshotFired id = ctx.oneshotFired id :=
        Task.unfold_oneshotFired hunfold hne
      have hnext := ih (List.Subset.trans (Task.instructions_unfold hunfold) ht)
        (Task.avoids_unfold hunfold hne) hrest
      rw [hnext, hfired, hsame, ← List.singleton_append, oneshotEnables_append,
        oneshotEnables_of_ne hne, List.nil_append]
  | operate subroutines hcall =>
    have hleave := hleaves _ (List.mem_singleton_self _) (Visit.not_operates havoids)
    exact hleave.of_operate hcall subroutines
  | called _ ih => exact ih ht trivial (List.forall_mem_cons.mp hleaves).2
  | unknown _ => rfl
  | tooDeep _ _ => rfl
  | @enter active name rungs ctx visits o hname _ _ ih =>
    have hend : (o.absorbLeave.mapContext ScanContext.exitCall).context.tag? u.name =
        o.context.tag? u.name := by
      obtain ⟨last, exit⟩ := o
      cases exit <;> rfl
    have hbody := Task.instructions_body_subset (Program.mem_allRungs_of_subroutine? hname)
    rw [hend]
    exact ih hbody (Task.plain_body rungs).avoids (List.forall_mem_cons.mp hleaves).2
  | nothing => rfl
  | next hfirst _ _ ihfirst ihrest =>
    obtain ⟨htfirst, htrest⟩ := List.append_subset.mp ht
    obtain ⟨hleavesFirst, hleavesRest⟩ := List.forall_mem_append.mp hleaves
    rw [ihrest htrest havoids.2 hleavesRest, ihfirst htfirst havoids.1 hleavesFirst,
      oneshotEnables_append, pulse_append]
    exact congrArg (fun fired => pulse fired _ _) (hfirst.records.fired id)
  | stop _ _ ih => exact ih (List.append_subset.mp ht).1 havoids.1 hleaves

end Coil

namespace Program

/-- What the scans of a session pass through, from an empty runtime table on, and the table that
they leave. The states and the time steps may be any, and a scan may fail. -/
inductive Scans (p : Program) : List Visit → RuntimeTable → Prop
  | start : Scans p [] ∅
  | scan {earlier visits : List Visit} {r : RuntimeTable} {o : Outcome} (s : SystemState)
    (dt : Float) : Scans p earlier r → Runs p [] (.body p.rungs) (p.entry s r dt) visits o →
    Scans p (earlier ++ visits) (p.scan s r dt).runtime

variable {p : Program} {earlier visits : List Visit} {r : RuntimeTable} {s : SystemState}
  {dt : Float} {o : Outcome}

theorem evaluate_eq_of_runs (h : Runs p [] (.body p.rungs) (p.entry s r dt) visits o) :
    p.evaluate (.startScan s r dt) = o := by
  obtain ⟨others, hothers⟩ := p.evaluate_runs (.startScan s r dt)
  exact (h.unique hothers).2

theorem entry_runtime (p : Program) (s : SystemState) (r : RuntimeTable) (dt : Float) :
    (p.entry s r dt).runtime = r :=
  (prepare_becomes p (.startScan s r dt)).frame.2.1

theorem Scans.records (h : p.Scans earlier r) : Records ∅ earlier r := by
  induction h with
  | start => rfl
  | @scan earlier visits r o s dt _ hruns ih =>
    have hrun := hruns.records
    rw [entry_runtime] at hrun
    have hlast : (p.scan s r dt).runtime = o.context.runtime :=
      congrArg (fun o : Outcome => o.context.runtime) (evaluate_eq_of_runs hruns)
    rw [hlast]
    exact ih.append hrun

section Session

variable {id : InstructionId} {u : Tag} {next : SystemState}

/-- What a scan commits for the tag of a coil with a oneshot, if nothing else writes it. -/
theorem tag?_coil_of_scan (haccepted : p.Accepted)
    (hcoil : .single id true (.out ⟨.tag u⟩) ∈ p.instructions) (hearlier : p.Scans earlier r)
    (hruns : Runs p [] (.body p.rungs) (p.entry s r dt) visits o)
    (hleaves : ∀ v ∈ visits, ¬v.Operates id → v.Leaves p u.name)
    (hscan : (p.scan s r dt).next = .ok next) :
    next.tag? u.name = pulse ((oneshotEnables id earlier).getLast?.getD false)
      ((p.entry s r dt).tag? u.name) (oneshotEnables id visits) := by
  have hunique : ∀ i ∈ p.instructions, i.id = id → i = .single id true (.out ⟨.tag u⟩) :=
    fun i hi hid => eq_of_id haccepted hi hcoil hid
  have hmain : (Task.body p.rungs).instructions ⊆ p.instructions :=
    Task.instructions_body_subset fun r hr => List.mem_append_left _ hr
  have hlast := hruns.tag?_coil hunique hmain (Task.plain_body p.rungs).avoids hleaves
  have hfired : (p.entry s r dt).oneshotFired id =
      (oneshotEnables id earlier).getLast?.getD false := by
    rw [ScanContext.oneshotFired, entry_runtime]
    exact hearlier.records.fired id
  rw [← hfired, ← hlast, ← evaluate_eq_of_runs hruns, Outcome.eq_commit_of_finish hscan,
    ScanContext.tag?_commit]
  rfl

/-- A coil with a oneshot may stand anywhere in the program. After a scan that has reached it, each
time with the same enable, it is seen on exactly if it was enabled, was not enabled when it was last
reached in an earlier scan, and was reached only once in this one. -/
theorem oneshot_pulses (haccepted : p.Accepted)
    (hcoil : .single id true (.out ⟨.tag u⟩) ∈ p.instructions) (hearlier : p.Scans earlier r)
    (hruns : Runs p [] (.body p.rungs) (p.entry s r dt) visits o)
    (hleaves : ∀ v ∈ visits, ¬v.Operates id → v.Leaves p u.name) {now : Bool} {n : ℕ}
    (henables : oneshotEnables id visits = List.replicate (n + 1) now)
    (hscan : (p.scan s r dt).next = .ok next) :
    ∃ lit, next.tag? u.name = some (.bool lit) ∧
      (lit = true ↔ now = true ∧ (oneshotEnables id earlier).getLast? ≠ some true ∧ n = 0) := by
  have htag := tag?_coil_of_scan haccepted hcoil hearlier hruns hleaves hscan
  rw [henables, pulse_replicate] at htag
  refine ⟨_, htag, ?_⟩
  cases (oneshotEnables id earlier).getLast? <;> simp [and_assoc]

end Session

end Program

/-! A loop around a coil with a oneshot. -/

namespace Sample

def repeatingRung (count : Int) : Rung where
  conditions := []
  items := [.instruction (.loop 0 false ⟨.literal (.int count), passes⟩ [.single 1 true coil])]

def repeating (count : Int) : Program := (Draft.empty.withRung (repeatingRung count)).assemble

theorem repeating_accepted (count : Int) : (repeating count).Accepted :=
  ⟨Draft.empty.withRung (repeatingRung count), rfl⟩

theorem repeating_instructions (count : Int) : (repeating count).instructions =
    [.loop 0 false ⟨.literal (.int count), passes⟩ [.single 1 true coil], .single 1 true coil] :=
  rfl

theorem coil_mem_repeating (count : Int) :
    .single 1 true coil ∈ (repeating count).instructions := by
  simp [repeating_instructions]

/-- The loop names its index alone. -/
theorem repeating_leaves {count : Int} {active : List String} {ctx : ScanContext}
    {visits : List Visit} {o : Outcome}
    (h : Runs (repeating count) active (.body (repeating count).rungs) ctx visits o) :
    ∀ v ∈ visits, ¬v.Operates 1 → v.Leaves (repeating count) lamp.name := by
  have hnamed := h.named (Task.instructions_body_subset fun r hr => List.mem_append_left _ hr)
    (Task.plain_body _).named
  have hfault : ∀ f : Fault, f.tagName ≠ lamp.name := by
    intro f
    cases f <;> decide
  have htargets : ∀ j ∈ (repeating count).instructions, j ≠ .single 1 true coil →
      ∀ t, j.Targets t → t.name ≠ lamp.name := by
    intro j hj hother t ht
    rw [repeating_instructions, List.mem_pair] at hj
    obtain rfl | rfl := hj
    · obtain rfl : t = passes := ht
      decide
    · exact absurd rfl hother
  exact fun v hv => Visit.leaves_of_targets hfault htargets (hnamed v hv)

end Sample

namespace Program

/-- One pass, and the coil is on. -/
theorem oneshot_pulses_sample :
    ∃ next, ((Sample.repeating 1).scan Sample.state ∅ 0.1).next = .ok next ∧
      next.tag? Sample.lamp.name = some (.bool true) := by
  let p := Sample.repeating 1
  obtain ⟨next, hscan⟩ : ∃ next, (p.scan Sample.state ∅ 0.1).next = .ok next := ⟨_, rfl⟩
  have hruns : Runs p [] (.body p.rungs) (p.entry Sample.state ∅ 0.1) _ _ :=
    .next (.unfold rfl (.next (.unfold rfl (.unfold rfl (.unfold rfl (.next (.unfold rfl
      (.next (.unfold rfl (.operate p.call nofun)) rfl .nothing)) rfl .nothing)))) rfl .nothing))
      rfl .nothing
  obtain ⟨lit, htag, hlit⟩ := oneshot_pulses (Sample.repeating_accepted 1)
    (Sample.coil_mem_repeating 1) .start hruns (Sample.repeating_leaves hruns)
    (rfl : _ = List.replicate (0 + 1) true) hscan
  refine ⟨next, hscan, ?_⟩
  rw [htag, hlit.mpr ⟨rfl, nofun, rfl⟩]

/-- A second pass in the same scan takes the pulse back before it is seen: a coil that is enabled
throughout the first scan of a session is not always on after it. -/
theorem exists_oneshot_without_pulse :
    ¬ ∀ (p : Program) (id : InstructionId) (u : Tag) (visits : List Visit) (s next : SystemState)
      (dt : Float) (o : Outcome) (now : Bool),
      p.Accepted → .single id true (.out ⟨.tag u⟩) ∈ p.instructions →
      Runs p [] (.body p.rungs) (p.entry s ∅ dt) visits o →
      (∀ v ∈ visits, ¬v.Operates id → v.Leaves p u.name) →
      oneshotEnables id visits ≠ [] → (∀ enabled ∈ oneshotEnables id visits, enabled = now) →
      (p.scan s ∅ dt).next = .ok next →
      (next.tag? u.name = some (.bool true) ↔ now = true) := by
  intro h
  let p := Sample.repeating 2
  obtain ⟨next, hscan⟩ : ∃ next, (p.scan Sample.state ∅ 0.1).next = .ok next := ⟨_, rfl⟩
  have hruns : Runs p [] (.body p.rungs) (p.entry Sample.state ∅ 0.1) _ _ :=
    .next (.unfold rfl (.next (.unfold rfl (.unfold rfl (.unfold rfl (.next (.unfold rfl
      (.next (.unfold rfl (.operate p.call nofun)) rfl .nothing)) rfl (.next (.unfold rfl
      (.next (.unfold rfl (.operate p.call nofun)) rfl .nothing)) rfl .nothing))))) rfl .nothing))
      rfl .nothing
  have haccepted := Sample.repeating_accepted 2
  have hcoil := Sample.coil_mem_repeating 2
  have hleaves := Sample.repeating_leaves hruns
  have hon : ∀ enabled ∈ List.replicate 2 true, enabled = true := fun _ => List.eq_of_mem_replicate
  have hlit := h p 1 Sample.lamp _ Sample.state next 0.1 _ true haccepted hcoil hruns hleaves nofun
    hon hscan
  have hoff : next.tag? Sample.lamp.name = some (.bool false) :=
    tag?_coil_of_scan haccepted hcoil .start hruns hleaves hscan
  rw [hoff] at hlit
  exact absurd (hlit.mpr rfl) (by decide)

end Program

end LadderLogic
