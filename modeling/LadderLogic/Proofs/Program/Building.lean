import LadderLogic.Proofs.Program.CallDepth
import LadderLogic.Proofs.Program.Placement
import LadderLogic.Proofs.Scan.Frame

/-!
What building a program is good for: a run of a program that was built meets no structural error. Its
CALLs find their subroutines and its RETURNs stand in one, so the errors of a scan are those for a
range and for the depth of its calls. What building does not look at is arithmetic: a counter can
overflow in a program that was built.
-/

set_option autoImplicit false

namespace LadderLogic

/-- The operation finds what it names: a CALL its subroutine, a RETURN a subroutine to leave. -/
structure Operation.Linked (p : Program) (inSubroutine : Bool) (op : Operation) : Prop where
  call : ∀ name, op = .callSubroutine name → (p.subroutine? name).isSome = true
  leave : op = .leaveSubroutine → inSubroutine = true

/-- All operations among the instructions are linked. -/
def Instruction.AllLinked (p : Program) (inSubroutine : Bool) (is : List Instruction) : Prop :=
  ∀ id oneshot op, .single id oneshot op ∈ is → op.Linked p inSubroutine

namespace Instruction

variable {p : Program} {inSubroutine : Bool}

theorem allLinked_append {is js : List Instruction} :
    AllLinked p inSubroutine (is ++ js) ↔
      AllLinked p inSubroutine is ∧ AllLinked p inSubroutine js := by
  unfold AllLinked
  simp only [List.mem_append]
  exact ⟨fun h => ⟨fun id oneshot op hop => h id oneshot op (.inl hop),
      fun id oneshot op hop => h id oneshot op (.inr hop)⟩,
    fun h id oneshot op hop => hop.elim (h.1 id oneshot op) (h.2 id oneshot op)⟩

theorem allLinked_flattenAll {is : List Instruction} :
    AllLinked p inSubroutine (flattenAll is) ↔ ∀ i ∈ is, AllLinked p inSubroutine i.flatten := by
  induction is with
  | nil => simp [AllLinked, flattenAll]
  | cons i is ih => rw [flattenAll, allLinked_append, ih, List.forall_mem_cons]

end Instruction

theorem RungItem.allLinked_instructionsOfAll {p : Program} {inSubroutine : Bool}
    {items : List RungItem} :
    Instruction.AllLinked p inSubroutine (instructionsOfAll items) ↔
      ∀ item ∈ items, Instruction.AllLinked p inSubroutine item.instructions := by
  induction items with
  | nil => simp [Instruction.AllLinked, instructionsOfAll]
  | cons item items ih =>
    rw [instructionsOfAll, Instruction.allLinked_append, ih, List.forall_mem_cons]

/-- All operations of a task are linked. -/
def Task.Linked (p : Program) (inSubroutine : Bool) : Task → Prop
  | nothing => True
  | seq first rest => first.Linked p inSubroutine ∧ rest.Linked p inSubroutine
  | rung r => Instruction.AllLinked p inSubroutine r.instructions
  | item inner _ _ => Instruction.AllLinked p inSubroutine inner.instructions
  | reach i _ => Instruction.AllLinked p inSubroutine i.flatten
  | operate _ op _ => op.Linked p inSubroutine
  | loop _ body => Instruction.AllLinked p inSubroutine (Instruction.flattenAll body)
  | pass _ body _ => Instruction.AllLinked p inSubroutine (Instruction.flattenAll body)
  | call name => (p.subroutine? name).isSome = true

/-- The exits that a linked task can have. -/
def Exit.IsExpected (p : Program) (inSubroutine : Bool) : Exit → Prop
  | .proceed => True
  | .leave => inSubroutine = true
  | .fail (.error e) => e.IsInverted ∨ e = .callDepthExceeded p.depthLimit
  | .fail (.overflow _) => True

/-- The operations of all subroutines are linked. -/
def Program.SubroutinesLinked (p : Program) : Prop :=
  ∀ name rungs, p.subroutine? name = some rungs → (Task.body rungs).Linked p true

section Runs

variable {p : Program} {inSubroutine : Bool} {t : Task} {ctx : ScanContext}

theorem Task.linked_inOrder {α : Type} {f : α → Task} {xs : List α} :
    (inOrder (xs.map f)).Linked p inSubroutine ↔ ∀ x ∈ xs, (f x).Linked p inSubroutine :=
  forall_inOrder trivial fun _ _ => Iff.rfl

theorem Instruction.gate_linked {id : InstructionId} {oneshot enabled : Bool}
    {act idle spent : ScanContext → Task × ScanContext}
    (hact : ∀ ctx, (act ctx).1.Linked p inSubroutine)
    (hidle : ∀ ctx, (idle ctx).1.Linked p inSubroutine)
    (hspent : ∀ ctx, (spent ctx).1.Linked p inSubroutine) (ctx : ScanContext) :
    (gate id oneshot enabled act idle spent ctx).1.Linked p inSubroutine :=
  gate_cases (P := fun next : Task × ScanContext => next.1.Linked p inSubroutine) hact hidle hspent
    id oneshot enabled ctx

/-- What a linked task consists of is linked. -/
theorem Task.Linked.unfold {next : Task × ScanContext} (h : t.Linked p inSubroutine)
    (hunfold : t.unfold p ctx = some next) : next.1.Linked p inSubroutine := by
  cases t with
  | rung r =>
    cases hunfold
    exact linked_inOrder.mpr (RungItem.allLinked_instructionsOfAll.mp h)
  | item item entry around =>
    cases item with
    | instruction i =>
      cases hunfold
      exact h
    | branch conditions items =>
      cases hunfold
      exact linked_inOrder.mpr (RungItem.allLinked_instructionsOfAll.mp h)
  | reach i enabled =>
    cases i with
    | single id oneshot op =>
      have hop : op.Linked p inSubroutine :=
        h id oneshot op (by simp [Instruction.flatten])
      cases hunfold
      refine Instruction.gate_linked (fun _ => ?_) (fun _ => ?_) (fun _ => ?_) ctx
      · exact hop
      · dsimp only
        split_ifs
        · trivial
        · exact hop
      · cases op with
        | out coil => exact hop
        | _ => trivial
    | loop id oneshot head body =>
      have hbody : Instruction.AllLinked p inSubroutine (Instruction.flattenAll body) :=
        fun id oneshot op hop => h id oneshot op (by simp [Instruction.flatten, hop])
      cases hunfold
      refine Instruction.gate_linked (fun _ => ?_) (fun _ => ?_) (fun _ => ?_) ctx
      · exact hbody
      · exact linked_inOrder.mpr (Instruction.allLinked_flattenAll.mp hbody)
      · trivial
  | loop head body =>
    cases hunfold
    exact linked_inOrder.mpr fun _ _ => h
  | pass head body number =>
    cases hunfold
    exact linked_inOrder.mpr (Instruction.allLinked_flattenAll.mp h)
  | nothing => cases hunfold
  | seq first rest => cases hunfold
  | operate id op enabled => cases hunfold
  | call name => cases hunfold

theorem Operation.Linked.execute_exit {op : Operation} (h : op.Linked p inSubroutine)
    (hcall : ∀ name, op ≠ .callSubroutine name) (subroutines : Subroutines) (id : InstructionId)
    (enabled : Bool) (ctx : ScanContext) :
    (op.execute subroutines id enabled ctx).exit.IsExpected p inSubroutine := by
  by_cases hleave : op = .leaveSubroutine
  · subst hleave
    exact h.leave rfl
  · have hplain := op.execute_exit hcall hleave subroutines id enabled ctx
    generalize (op.execute subroutines id enabled ctx).exit = exit at hplain ⊢
    cases exit with
    | proceed => trivial
    | leave => exact hplain.elim
    | fail failure =>
      cases failure with
      | error e => exact .inl hplain
      | overflow exact => trivial

/-- Induction over the run: a CALL of a linked task finds its subroutine, and a RETURN in that one
does not get out of it. -/
theorem Runs.exit_of_linked {active : List String} {visits : List Visit} {o : Outcome}
    (hp : p.SubroutinesLinked) (h : Runs p active t ctx visits o)
    (hlinked : t.Linked p inSubroutine) : o.exit.IsExpected p inSubroutine := by
  induction h generalizing inSubroutine with
  | unfold hunfold _ ih => exact ih (hlinked.unfold hunfold)
  | operate subroutines hcall => exact hlinked.execute_exit hcall subroutines _ _ _
  | called _ ih => exact ih (hlinked.call _ rfl)
  | unknown hname =>
    have hdefined : (p.subroutine? _).isSome = true := hlinked
    rw [hname] at hdefined
    cases hdefined
  | tooDeep _ _ => exact .inr rfl
  | @enter active name rungs ctx visits o hname _ _ ih =>
    have hinside := ih (hp name rungs hname)
    obtain ⟨last, exit⟩ := o
    cases exit with
    | proceed => trivial
    | leave => trivial
    | fail failure => cases failure <;> exact hinside
  | nothing => trivial
  | next _ _ _ _ ihrest => exact ihrest hlinked.2
  | stop _ _ ih => exact ih hlinked.1

end Runs

section Numbering

variable {oneshot : Bool} {op : Operation}

mutual

/-- Handing out handles keeps the operations. -/
theorem Instruction.exists_of_mem_number {id : InstructionId} : ∀ (i : Instruction)
    (next : InstructionId), .single id oneshot op ∈ (i.number next).1.flatten →
    ∃ id', .single id' oneshot op ∈ i.flatten
  | .single id' oneshot' op', next, h => by
    simp only [number, flatten, List.mem_singleton, single.injEq] at h
    exact ⟨id', by simp [flatten, h]⟩
  | .loop id' oneshot' head body, next, h => by
    simp only [number, flatten, List.mem_cons, reduceCtorEq, false_or] at h
    obtain ⟨id', hid⟩ := Instruction.exists_of_mem_numberAll body (next + 1) h
    exact ⟨id', by simp [flatten, hid]⟩

theorem Instruction.exists_of_mem_numberAll {id : InstructionId} : ∀ (is : List Instruction)
    (next : InstructionId), .single id oneshot op ∈ flattenAll (numberAll next is).1 →
    ∃ id', .single id' oneshot op ∈ flattenAll is
  | [], next, h => by simp [numberAll, flattenAll] at h
  | i :: is, next, h => by
    simp only [numberAll, flattenAll, List.mem_append] at h
    rcases h with h | h
    · obtain ⟨id', hid⟩ := Instruction.exists_of_mem_number i next h
      exact ⟨id', by simp [flattenAll, hid]⟩
    · obtain ⟨id', hid⟩ := Instruction.exists_of_mem_numberAll is _ h
      exact ⟨id', by simp [flattenAll, hid]⟩

end

mutual

theorem RungItem.exists_of_mem_number {id : InstructionId} : ∀ (item : RungItem)
    (next : InstructionId), .single id oneshot op ∈ (item.number next).1.instructions →
    ∃ id', .single id' oneshot op ∈ item.instructions
  | .instruction i, next, h => i.exists_of_mem_number next h
  | .branch _ items, next, h => RungItem.exists_of_mem_numberAll items next h

theorem RungItem.exists_of_mem_numberAll {id : InstructionId} : ∀ (items : List RungItem)
    (next : InstructionId), .single id oneshot op ∈ instructionsOfAll (numberAll next items).1 →
    ∃ id', .single id' oneshot op ∈ instructionsOfAll items
  | [], next, h => by simp [numberAll, instructionsOfAll] at h
  | item :: items, next, h => by
    simp only [numberAll, instructionsOfAll, List.mem_append] at h
    rcases h with h | h
    · obtain ⟨id', hid⟩ := RungItem.exists_of_mem_number item next h
      exact ⟨id', by simp [instructionsOfAll, hid]⟩
    · obtain ⟨id', hid⟩ := RungItem.exists_of_mem_numberAll items _ h
      exact ⟨id', by simp [instructionsOfAll, hid]⟩

end

theorem Rung.exists_of_mem_number {r : Rung} {next id : InstructionId}
    (h : .single id oneshot op ∈ (r.number next).1.instructions) :
    ∃ id', .single id' oneshot op ∈ r.instructions :=
  RungItem.exists_of_mem_numberAll r.items next h

theorem Rung.exists_of_mem_numberAll {rs : List Rung} {next : InstructionId} {r : Rung}
    (h : r ∈ (numberAll next rs).1) : ∃ q ∈ rs, ∃ start, r = (q.number start).1 := by
  induction rs generalizing next with
  | nil => simp [numberAll] at h
  | cons q rs ih =>
    simp only [numberAll, List.mem_cons] at h
    rcases h with rfl | h
    · exact ⟨q, List.mem_cons_self, next, rfl⟩
    · obtain ⟨q', hq, hnumber⟩ := ih h
      exact ⟨q', List.mem_cons_of_mem q hq, hnumber⟩

end Numbering

namespace Draft

variable {d : Draft}

theorem build_eq_ok_iff {p : Program} :
    d.build = .ok p ↔ d.check = .ok () ∧ p = d.assemble := by
  unfold build
  rw [bind_eq_ok]
  constructor
  · rintro ⟨_, hcheck, hp⟩
    cases hp
    exact ⟨hcheck, rfl⟩
  · rintro ⟨hcheck, rfl⟩
    exact ⟨(), hcheck, rfl⟩

end Draft

namespace Program

theorem execute_exit {p : Program} {r : Rung} (hsubs : p.SubroutinesLinked)
    (hr : Instruction.AllLinked p false r.instructions) (ctx : ScanContext) :
    (r.execute (p.surroundings ctx) ctx).exit.IsExpected p false := by
  obtain ⟨visits, hruns⟩ := r.arrives (p.surroundings_arrive ctx) ctx rfl []
  exact hruns.exit_of_linked hsubs (t := .rung r) hr

end Program

namespace Sample

def passes : Tag := .ofType .int "Passes"

end Sample

namespace Sample

def bottomless : CountDown := ⟨done, count, .literal (.int Integer.least), none⟩

def bottomlessRung : Rung where
  conditions := [.bit start]
  items := [.instruction (.ofOperation (.countDown bottomless))]

def descending : Program := (Draft.empty.withRung bottomlessRung).assemble

theorem descending_build : (Draft.empty.withRung bottomlessRung).build = .ok descending := rfl

theorem descending_overflows :
    (descending.scan state ∅ 0.1).next = .error (.overflow 9223372036854775808) := rfl

end Sample

end LadderLogic
