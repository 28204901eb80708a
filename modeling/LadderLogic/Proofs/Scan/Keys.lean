import LadderLogic.Proofs.Scan.Names
import LadderLogic.Proofs.Scan.Typing

/-!
The memory keys of different kinds of bookkeeping never collide.
-/

set_option autoImplicit false

namespace LadderLogic

theorem InstructionId.memoryKey_eq (id : InstructionId) (kind : String) :
    id.memoryKey kind = "_" ++ (kind ++ (":" ++ Decimal.text id)) := by
  unfold memoryKey
  simp only [String.append_assoc]

/-- An instruction keeps bookkeeping of different kinds in different cells. -/
theorem InstructionId.memoryKey_ne {kind other : String} (h : kind ≠ other) (id : InstructionId) :
    id.memoryKey kind ≠ id.memoryKey other := by
  intro heq
  rw [memoryKey_eq, memoryKey_eq] at heq
  exact h (String.append_left_inj _ |>.mp (String.append_right_inj _ |>.mp heq))

/-- The kinds of bookkeeping that hold truth values. -/
def levelKinds : List String := ["shift_clock", "drum_step_armed", "drum_jump", "drum_jog"]

theorem not_isCarryKey_memoryKey {kind : String} (h : kind ∈ levelKinds) (id : InstructionId) :
    ¬ IsCarryKey (id.memoryKey kind) := by
  unfold IsCarryKey
  rw [InstructionId.memoryKey_eq]
  simp only [levelKinds, List.mem_cons, List.not_mem_nil, or_false] at h
  rintro (⟨rest, heq⟩ | ⟨rest, heq⟩) <;>
    have heq := congrArg String.toList heq <;>
    rcases h with rfl | rfl | rfl | rfl <;>
    simp at heq

theorem isCarryKey_fracKey (name : String) : IsCarryKey (fracKey name) := .inl ⟨name, rfl⟩

theorem isCarryKey_drumFracKey (id : InstructionId) : IsCarryKey (DrumCore.fracKey id) :=
  .inr ⟨Decimal.text id, rfl⟩

theorem not_isCarryKey_dtKey : ¬ IsCarryKey dtKey := by
  rintro (⟨rest, heq⟩ | ⟨rest, heq⟩) <;>
    have heq := congrArg String.toList heq <;>
    simp [dtKey] at heq

theorem not_isCarryKey_prevKey (name : String) : ¬ IsCarryKey (prevKey name) := by
  rintro (⟨rest, heq⟩ | ⟨rest, heq⟩) <;>
    have heq := congrArg String.toList heq <;>
    simp [prevKey] at heq

theorem prevKey_injective {name other : String} (h : prevKey name = prevKey other) :
    name = other := by
  have heq := congrArg String.toList h
  simp only [prevKey, String.toList_append, List.append_cancel_left_eq] at heq
  exact String.toList_injective heq

theorem prevKey_ne_dtKey (name : String) : prevKey name ≠ dtKey := by
  intro heq
  have heq := congrArg String.toList heq
  simp [prevKey, dtKey] at heq

theorem prevKey_ne_fracKey (name tag : String) : prevKey name ≠ fracKey tag := by
  intro heq
  have heq := congrArg String.toList heq
  simp [prevKey, fracKey] at heq

theorem prevKey_ne_memoryKey {kind : String} (h : kind ∈ "drum_frac" :: levelKinds) (name : String)
    (id : InstructionId) : prevKey name ≠ id.memoryKey kind := by
  rw [InstructionId.memoryKey_eq]
  simp only [levelKinds, List.mem_cons, List.not_mem_nil, or_false] at h
  intro heq
  have heq := congrArg String.toList heq
  rcases h with rfl | rfl | rfl | rfl | rfl <;> simp [prevKey] at heq

/-- No operation keeps anything under the key of a tag's last level. -/
theorem Operation.not_keeps_prevKey (op : Operation) (id : InstructionId) (name : String) :
    ¬ op.Keeps id (prevKey name) := by
  have hlevel : ∀ kind ∈ "drum_frac" :: levelKinds, prevKey name ≠ id.memoryKey kind :=
    fun kind hkind => prevKey_ne_memoryKey hkind name id
  cases op with
  | onDelay op => exact prevKey_ne_fracKey name _
  | offDelay op => exact prevKey_ne_fracKey name _
  | shift op => exact hlevel "shift_clock" (by decide)
  | eventDrum op =>
    rintro (h | h | h)
    · exact hlevel "drum_step_armed" (by decide) h
    · exact hlevel "drum_jump" (by decide) h
    · exact hlevel "drum_jog" (by decide) h
  | timeDrum op =>
    rintro ((h | h | h) | h)
    · exact hlevel "drum_step_armed" (by decide) h
    · exact hlevel "drum_jump" (by decide) h
    · exact hlevel "drum_jog" (by decide) h
    · exact hlevel "drum_frac" (by decide) h
  | _ => exact not_false

end LadderLogic
