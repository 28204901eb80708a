import LadderLogic.Proofs.Program.Building
import LadderLogic.Proofs.Program.Watched

/-!
The handles of a program. They are handed out one after the other, so no two instructions share one.
-/

set_option autoImplicit false

namespace LadderLogic

/-- The handles from `next` on, up to the first one that is free. -/
structure Consecutive (next : InstructionId) (ids : List InstructionId) (free : InstructionId) :
    Prop where
  free_eq : free = next + ids.length
  ids_eq : ids = List.range' next ids.length

namespace Consecutive

variable {next mid free : InstructionId} {ids more : List InstructionId}

theorem nil (next : InstructionId) : Consecutive next [] next := ⟨rfl, rfl⟩

theorem append (h : Consecutive next ids mid) (k : Consecutive mid more free) :
    Consecutive next (ids ++ more) free := by
  obtain ⟨rfl, hids⟩ := h
  obtain ⟨rfl, hmore⟩ := k
  refine ⟨by rw [List.length_append, Nat.add_assoc], ?_⟩
  conv_lhs => rw [hids, hmore]
  rw [List.range'_append_1, List.length_append]

theorem cons (h : Consecutive (next + 1) ids free) : Consecutive next (next :: ids) free := by
  have hfirst : Consecutive next [next] (next + 1) := ⟨rfl, rfl⟩
  exact hfirst.append h

end Consecutive

mutual

/-- Induction over an instruction and its loop bodies. -/
theorem Instruction.number_consecutive : ∀ (i : Instruction) (next : InstructionId),
    Consecutive next ((i.number next).1.flatten.map id) (i.number next).2
  | .single _ oneshot op, next => by
    unfold number flatten
    exact (Consecutive.nil (next + 1)).cons
  | .loop _ oneshot head body, next => by
    have hbody := Instruction.numberAll_consecutive body (next + 1)
    unfold number flatten
    exact hbody.cons

theorem Instruction.numberAll_consecutive : ∀ (is : List Instruction) (next : InstructionId),
    Consecutive next ((flattenAll (numberAll next is).1).map id) (numberAll next is).2
  | [], next => by
    unfold numberAll flattenAll
    exact .nil next
  | i :: is, next => by
    unfold numberAll flattenAll
    rw [List.map_append]
    exact (Instruction.number_consecutive i next).append (Instruction.numberAll_consecutive is _)

end

mutual

theorem RungItem.number_consecutive : ∀ (item : RungItem) (next : InstructionId),
    Consecutive next ((item.number next).1.instructions.map Instruction.id) (item.number next).2
  | .instruction i, next => by
    unfold number instructions
    exact i.number_consecutive next
  | .branch conditions items, next => by
    unfold number instructions
    exact RungItem.numberAll_consecutive items next

theorem RungItem.numberAll_consecutive : ∀ (items : List RungItem) (next : InstructionId),
    Consecutive next ((instructionsOfAll (numberAll next items).1).map Instruction.id)
      (numberAll next items).2
  | [], next => by
    unfold numberAll instructionsOfAll
    exact .nil next
  | item :: items, next => by
    unfold numberAll instructionsOfAll
    rw [List.map_append]
    exact (RungItem.number_consecutive item next).append (RungItem.numberAll_consecutive items _)

end

theorem Rung.numberAll_consecutive (rs : List Rung) (next : InstructionId) :
    Consecutive next (((numberAll next rs).1.flatMap instructions).map Instruction.id)
      (numberAll next rs).2 := by
  induction rs generalizing next with
  | nil => exact .nil next
  | cons r rs ih =>
    unfold numberAll
    rw [List.flatMap_cons, List.map_append]
    exact (RungItem.numberAll_consecutive r.items next).append (ih _)

theorem Draft.numberSubroutines_consecutive (subs : List (String × List Rung))
    (next : InstructionId) :
    Consecutive next
      ((((numberSubroutines next subs).1.flatMap Prod.snd).flatMap Rung.instructions).map
        Instruction.id)
      (numberSubroutines next subs).2 := by
  induction subs generalizing next with
  | nil => exact .nil next
  | cons s subs ih =>
    unfold numberSubroutines
    rw [List.flatMap_cons, List.flatMap_append, List.map_append]
    exact (Rung.numberAll_consecutive s.2 next).append (ih _)

namespace Program

variable {p : Program}

/-- Handles count from zero through all instructions of the program. -/
theorem ids_of_accepted (h : p.Accepted) :
    p.instructions.map Instruction.id = List.range p.instructionCount := by
  obtain ⟨d, hbuild⟩ := h
  obtain ⟨-, rfl⟩ := Draft.build_eq_ok_iff.mp hbuild
  have hmain := Rung.numberAll_consecutive d.rungs 0
  have hall := hmain.append (Draft.numberSubroutines_consecutive d.subroutines.toList _)
  rw [← List.map_append, ← List.flatMap_append] at hall
  have hids := hall.ids_eq
  rw [← Nat.zero_add (List.length _), ← hall.free_eq, ← List.range_eq_range'] at hids
  exact hids

theorem eq_of_id (h : p.Accepted) {i j : Instruction} (hi : i ∈ p.instructions)
    (hj : j ∈ p.instructions) (hid : i.id = j.id) : i = j := by
  have hnodup : (p.instructions.map Instruction.id).Nodup := by
    rw [ids_of_accepted h]
    exact List.nodup_range
  exact List.inj_on_of_nodup_map hnodup hi hj hid

end Program

end LadderLogic
