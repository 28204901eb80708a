import LadderLogic.Program
import LadderLogic.Proofs.Except

/-!
What building a program checks, said of the ladder itself: the item lists and loop bodies that it is
made of, at any depth, and what an operation needs of its place in the one that directly contains
it. The check lets a draft through exactly if every operation has it.
-/

set_option autoImplicit false

namespace LadderLogic

namespace RungItem

/-- The flows of a list of items: the list itself, and the flows of its branches and of the bodies of
its loops. -/
inductive Flow : List RungItem → List RungItem → Prop
  | here (items : List RungItem) : Flow items items
  | branch {items inner flow : List RungItem} {conditions : List Condition} :
    branch conditions inner ∈ items → Flow inner flow → Flow items flow
  | body {items flow : List RungItem} {id : InstructionId} {oneshot : Bool} {head : ForHead}
    {body : List Instruction} :
    instruction (.loop id oneshot head body) ∈ items → Flow (body.map instruction) flow →
    Flow items flow

/-- The flows of the later items are flows of the whole list, except for the rest itself. -/
theorem Flow.cons {item : RungItem} {items flow : List RungItem} (h : Flow items flow) :
    flow = items ∨ Flow (item :: items) flow := by
  cases h with
  | here => exact .inl rfl
  | branch hmem hinner => exact .inr (.branch (List.mem_cons_of_mem item hmem) hinner)
  | body hmem hbody => exact .inr (.body (List.mem_cons_of_mem item hmem) hbody)

/-- An operation stands in the flow, and the items `after` come behind it. -/
def Stands (op : Operation) (after flow : List RungItem) : Prop :=
  ∃ before id oneshot, flow = before ++ instruction (.single id oneshot op) :: after

mutual

/-- An instruction of a loop body or of an item stands in one of the flows. -/
theorem exists_flow_of_mem_flatten {op : Operation} {id : InstructionId} {oneshot : Bool} :
    ∀ (i : Instruction) (items : List RungItem), instruction i ∈ items →
    .single id oneshot op ∈ i.flatten →
    ∃ flow, Flow items flow ∧ instruction (.single id oneshot op) ∈ flow
  | .single id' oneshot' op', items, hitem, hmem => by
    simp only [Instruction.flatten, List.mem_singleton] at hmem
    exact ⟨items, .here items, hmem ▸ hitem⟩
  | .loop id' oneshot' head body, items, hitem, hmem => by
    simp only [Instruction.flatten, List.mem_cons, reduceCtorEq, false_or] at hmem
    obtain ⟨flow, hflow, hop⟩ :=
      exists_flow_of_mem_flattenAll body (body.map instruction) (fun _ => List.mem_map_of_mem) hmem
    exact ⟨flow, .body hitem hflow, hop⟩

theorem exists_flow_of_mem_flattenAll {op : Operation} {id : InstructionId} {oneshot : Bool} :
    ∀ (is : List Instruction) (items : List RungItem), (∀ i ∈ is, instruction i ∈ items) →
    .single id oneshot op ∈ Instruction.flattenAll is →
    ∃ flow, Flow items flow ∧ instruction (.single id oneshot op) ∈ flow
  | [], _, _, hmem => by simp [Instruction.flattenAll] at hmem
  | i :: is, items, hitems, hmem => by
    rw [Instruction.flattenAll, List.mem_append] at hmem
    rcases hmem with hmem | hmem
    · exact exists_flow_of_mem_flatten i items (hitems i List.mem_cons_self) hmem
    · exact exists_flow_of_mem_flattenAll is items
        (fun j hj => hitems j (List.mem_cons_of_mem i hj)) hmem

end

mutual

theorem exists_flow_of_mem_instructions {op : Operation} {id : InstructionId} {oneshot : Bool} :
    ∀ (item : RungItem) (items : List RungItem), item ∈ items →
    .single id oneshot op ∈ item.instructions →
    ∃ flow, Flow items flow ∧ instruction (.single id oneshot op) ∈ flow
  | .instruction i, items, hitem, hmem => exists_flow_of_mem_flatten i items hitem hmem
  | .branch conditions inner, items, hitem, hmem => by
    obtain ⟨flow, hflow, hop⟩ :=
      exists_flow_of_mem_instructionsOfAll inner inner (fun _ h => h) hmem
    exact ⟨flow, .branch hitem hflow, hop⟩

/-- An operation anywhere in the items stands in one of their flows. -/
theorem exists_flow_of_mem_instructionsOfAll {op : Operation} {id : InstructionId}
    {oneshot : Bool} :
    ∀ (part items : List RungItem), (∀ item ∈ part, item ∈ items) →
    .single id oneshot op ∈ instructionsOfAll part →
    ∃ flow, Flow items flow ∧ instruction (.single id oneshot op) ∈ flow
  | [], _, _, hmem => by simp [instructionsOfAll] at hmem
  | item :: rest, items, hsub, hmem => by
    rw [instructionsOfAll, List.mem_append] at hmem
    rcases hmem with hmem | hmem
    · exact exists_flow_of_mem_instructions item items (hsub item List.mem_cons_self) hmem
    · exact exists_flow_of_mem_instructionsOfAll rest items
        (fun j hj => hsub j (List.mem_cons_of_mem item hj)) hmem

end

end RungItem

open RungItem (Flow Stands)

namespace Draft

/-- What an operation needs of its place: a CALL its subroutine, a RETURN a subroutine around it, a
drum that nothing comes behind it. -/
structure Admits (d : Draft) (inSubroutine last : Bool) (op : Operation) : Prop where
  call : ∀ name, op = .callSubroutine name → name ∈ d.subroutines
  leave : op = .leaveSubroutine → inSubroutine = true
  drum : op.isTerminal = true → last = true

section Checks

variable (d : Draft) (inSubroutine : Bool)

theorem checkOperation_eq_ok_iff (last : Bool) (op : Operation) :
    d.checkOperation inSubroutine last op = .ok () ↔ d.Admits inSubroutine last op := by
  have hplace : d.Admits inSubroutine last op ↔
      (op.isTerminal = true → last = true) ∧ (∀ name, op = .callSubroutine name →
        name ∈ d.subroutines) ∧ (op = .leaveSubroutine → inSubroutine = true) :=
    ⟨fun h => ⟨h.drum, h.call, h.leave⟩, fun h => ⟨h.2.1, h.2.2, h.1⟩⟩
  rw [hplace]
  unfold checkOperation
  cases op with
  | callSubroutine name =>
    simp [Operation.isTerminal]
  | leaveSubroutine =>
    simp [Operation.isTerminal]
  | eventDrum op => simp [Operation.isTerminal]
  | timeDrum op => simp [Operation.isTerminal]
  | _ => simp [Operation.isTerminal]

theorem checkItems_cons_eq_ok_iff (item : RungItem) (items : List RungItem) :
    d.checkItems inSubroutine (item :: items) = .ok () ↔
      d.checkItem inSubroutine items.isEmpty item = .ok () ∧
        d.checkItems inSubroutine items = .ok () := by
  rw [checkItems, bind_eq_ok]
  exact ⟨fun ⟨_, hitem, hitems⟩ => ⟨hitem, hitems⟩, fun ⟨hitem, hitems⟩ => ⟨(), hitem, hitems⟩⟩

variable {d inSubroutine}

variable (d inSubroutine) in
/-- The operations of the items are admitted wherever they stand. -/
def AdmitsAll (items : List RungItem) : Prop :=
  ∀ flow, Flow items flow → ∀ op after, Stands op after flow →
    d.Admits inSubroutine after.isEmpty op

theorem AdmitsAll.tail {item : RungItem} {items : List RungItem}
    (h : d.AdmitsAll inSubroutine (item :: items)) : d.AdmitsAll inSubroutine items := by
  intro flow hflow op after hop
  have hcases : flow = items ∨ Flow (item :: items) flow := hflow.cons
  rcases hcases with rfl | hflow
  · obtain ⟨before, id, oneshot, rfl⟩ := hop
    exact h _ (.here _) op after ⟨item :: before, id, oneshot, rfl⟩
  · exact h flow hflow op after hop

mutual

theorem checkInstruction_of_admits : ∀ (i : Instruction) (items : List RungItem),
    d.AdmitsAll inSubroutine (.instruction i :: items) →
    d.checkInstruction inSubroutine items.isEmpty i = .ok ()
  | .single id oneshot op, items, h => by
    rw [checkInstruction, checkOperation_eq_ok_iff]
    exact h _ (.here _) op items ⟨[], id, oneshot, rfl⟩
  | .loop id oneshot head body, items, h => by
    rw [checkInstruction]
    exact checkBody_of_admits body fun flow hflow => h flow (.body List.mem_cons_self hflow)

theorem checkBody_of_admits : ∀ body : List Instruction,
    d.AdmitsAll inSubroutine (body.map .instruction) → d.checkBody inSubroutine body = .ok ()
  | [], _ => rfl
  | i :: is, h => by
    have hi := checkInstruction_of_admits i (is.map .instruction) h
    rw [List.isEmpty_map] at hi
    rw [checkBody, bind_eq_ok]
    exact ⟨(), hi, checkBody_of_admits is (AdmitsAll.tail h)⟩

end

mutual

theorem checkItem_of_admits : ∀ (item : RungItem) (items : List RungItem),
    d.AdmitsAll inSubroutine (item :: items) →
    d.checkItem inSubroutine items.isEmpty item = .ok ()
  | .instruction i, items, h => checkInstruction_of_admits i items h
  | .branch conditions inner, items, h => by
    rw [checkItem]
    exact checkItems_of_admits inner fun flow hflow => h flow (.branch List.mem_cons_self hflow)

theorem checkItems_of_admits : ∀ items : List RungItem,
    d.AdmitsAll inSubroutine items → d.checkItems inSubroutine items = .ok ()
  | [], _ => rfl
  | item :: items, h => (checkItems_cons_eq_ok_iff d inSubroutine item items).mpr
    ⟨checkItem_of_admits item items h, checkItems_of_admits items h.tail⟩

end

end Checks

end Draft

end LadderLogic
