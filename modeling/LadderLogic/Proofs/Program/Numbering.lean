import LadderLogic.Proofs.Effect.Operation
import LadderLogic.Proofs.Program.Erasure
import LadderLogic.Proofs.Scan.Failure
import LadderLogic.Proofs.Text.Numerals

/-!
Handles are dense, in the order of the ladder, and keep the bookkeeping of instructions apart: the
runtime table and the memory are addressed through them, and no two addresses are the same.
-/

set_option autoImplicit false

namespace LadderLogic

/-- All kinds of memory cells that belong to one instruction. -/
def bookkeepingKinds : List String := "drum_frac" :: levelKinds

namespace InstructionId

variable {i j : InstructionId} {kind other : String}

theorem toList_memoryKey (id : InstructionId) (kind : String) :
    (id.memoryKey kind).toList = '_' :: (kind.toList ++ ':' :: (Decimal.text id).toList) := by
  rw [memoryKey_eq]
  simp

/-- No kind has a colon in it. -/
theorem takeWhile_kind (h : kind ∈ bookkeepingKinds) (rest : List Char) :
    (kind.toList ++ ':' :: rest).takeWhile (· != ':') = kind.toList := by
  simp only [bookkeepingKinds, levelKinds, List.mem_cons, List.not_mem_nil, or_false] at h
  rcases h with rfl | rfl | rfl | rfl | rfl <;> rfl

/-- The kind stands in front of the first colon of a key, the handle behind it. -/
theorem memoryKey_injective (hkind : kind ∈ bookkeepingKinds) (hother : other ∈ bookkeepingKinds)
    (h : i.memoryKey kind = j.memoryKey other) : i = j ∧ kind = other := by
  have hlist := congrArg String.toList h
  rw [toList_memoryKey, toList_memoryKey, List.cons.injEq] at hlist
  have hkinds : kind.toList = other.toList := by
    rw [← takeWhile_kind hkind, hlist.2, takeWhile_kind hother]
  have hids := hlist.2
  rw [hkinds, List.append_cancel_left_eq, List.cons.injEq] at hids
  have hint : (i : Int) = j := Decimal.text_injective (String.toList_injective hids.2)
  exact ⟨by exact_mod_cast hint, String.toList_injective hkinds⟩

theorem memoryKey_ne_dtKey (id : InstructionId) (kind : String) : id.memoryKey kind ≠ dtKey := by
  intro heq
  have hcolon : ':' ∈ (id.memoryKey kind).toList := by simp [toList_memoryKey]
  rw [heq] at hcolon
  exact absurd hcolon (by decide)

theorem memoryKey_ne_fracKey (h : kind ∈ bookkeepingKinds) (tag : String) :
    i.memoryKey kind ≠ fracKey tag := by
  rw [memoryKey_eq]
  simp only [bookkeepingKinds, levelKinds, List.mem_cons, List.not_mem_nil, or_false] at h
  intro heq
  have heq := congrArg String.toList heq
  rcases h with rfl | rfl | rfl | rfl | rfl <;> simp [fracKey] at heq

end InstructionId

/-- What an operation keeps in memory is kept under its own handle, or under a tag. -/
theorem Operation.keeps_cases {op : Operation} {id : InstructionId} {key : String}
    (h : op.Keeps id key) :
    (∃ kind ∈ bookkeepingKinds, key = id.memoryKey kind) ∨ ∃ tag, key = fracKey tag := by
  cases op with
  | onDelay op | offDelay op => exact .inr ⟨_, h⟩
  | shift op => exact .inl ⟨"shift_clock", by decide, h⟩
  | eventDrum op =>
    rcases h with h | h | h
    · exact .inl ⟨"drum_step_armed", by decide, h⟩
    · exact .inl ⟨"drum_jump", by decide, h⟩
    · exact .inl ⟨"drum_jog", by decide, h⟩
  | timeDrum op =>
    rcases h with (h | h | h) | h
    · exact .inl ⟨"drum_step_armed", by decide, h⟩
    · exact .inl ⟨"drum_jump", by decide, h⟩
    · exact .inl ⟨"drum_jog", by decide, h⟩
    · exact .inl ⟨"drum_frac", by decide, h⟩
  | _ => exact h.elim

/-- The bookkeeping of the second handle is out of reach of the first. -/
structure Isolated (i j : InstructionId) : Prop where
  keys : ∀ kind ∈ bookkeepingKinds, ∀ other ∈ bookkeepingKinds,
    i.memoryKey kind ≠ j.memoryKey other
  entry : ∀ (r : RuntimeTable) (fired : Bool),
    (r.setOneshot i fired)[j]? = r[j]? ∧ (r.withEntry i)[j]? = r[j]?
  /-- No operation under the first handle changes a memory cell of the second. -/
  memory : ∀ (op : Operation) (subroutines : Subroutines) (enabled : Bool) (ctx : ScanContext),
    (∀ name, op ≠ .callSubroutine name) → ∀ kind ∈ bookkeepingKinds,
      (op.execute subroutines i enabled ctx).context.memory? (j.memoryKey kind) =
        ctx.memory? (j.memoryKey kind)

theorem isolated_of_ne {i j : InstructionId} (h : i ≠ j) : Isolated i j where
  keys kind hkind other hother heq := h (InstructionId.memoryKey_injective hkind hother heq).1
  entry r fired := by
    refine ⟨RuntimeTable.getElem?_setOneshot_of_ne h fired, ?_⟩
    unfold RuntimeTable.withEntry
    simp [Std.ExtTreeMap.getElem?_insertIfNew, h]
  memory op subroutines enabled ctx hcall kind hkind := by
    refine (op.effect hcall subroutines i enabled ctx).memory?_eq fun hkeeps => ?_
    rcases Operation.keeps_cases hkeeps with ⟨other, hother, heq⟩ | ⟨tag, heq⟩
    · exact h (InstructionId.memoryKey_injective hkind hother heq).1.symm
    · exact InstructionId.memoryKey_ne_fracKey hkind tag heq

/-- The memory cells of a handle are different from each other, from that of the time step, and from
those of tags, whatever the tags are called. -/
structure OwnCells (i : InstructionId) : Prop where
  kinds : ∀ kind ∈ bookkeepingKinds, ∀ other ∈ bookkeepingKinds,
    i.memoryKey kind = i.memoryKey other → kind = other
  dt : ∀ kind ∈ bookkeepingKinds, i.memoryKey kind ≠ dtKey
  tags : ∀ kind ∈ bookkeepingKinds, ∀ tag,
    i.memoryKey kind ≠ prevKey tag ∧ i.memoryKey kind ≠ fracKey tag

theorem ownCells (i : InstructionId) : OwnCells i where
  kinds _ hkind _ hother heq := (InstructionId.memoryKey_injective hkind hother heq).2
  dt kind _ := i.memoryKey_ne_dtKey kind
  tags _ hkind tag :=
    ⟨(prevKey_ne_memoryKey hkind tag i).symm, InstructionId.memoryKey_ne_fracKey hkind tag⟩

/-- How the instructions of a draft are numbered in the program that is built from it. -/
structure Draft.Numbered (d : Draft) (p : Program) : Prop where
  /-- The handles are those from zero on, each once, in the order of the instructions. -/
  dense : p.instructions.map Instruction.id = List.range p.instructionCount
  /-- That is the order of the draft: its main rungs, then its subroutines, each instruction before
  those inside it. -/
  order : p.instructions.map Instruction.erase = d.instructions.map Instruction.erase
  byName : (p.subroutines.map Prod.fst).Pairwise fun a b => compare a b = .lt
  /-- The handles that were there before make no difference. -/
  fresh : ∀ e : Draft, e.erase = d.erase → e.build = .ok p
  isolated : p.instructions.Pairwise fun i j => Isolated i.id j.id ∧ Isolated j.id i.id
  own : ∀ i ∈ p.instructions, OwnCells i.id

namespace Draft

variable {d : Draft} {p : Program}

theorem map_erase_assemble (d : Draft) :
    d.assemble.allRungs.map Rung.erase = d.allRungs.map Rung.erase := by
  have hsubs : ∀ subs : List (String × List Rung),
      (eraseSubroutines subs).flatMap Prod.snd = (subs.flatMap Prod.snd).map Rung.erase := by
    intro subs
    unfold eraseSubroutines
    rw [List.flatMap_map, List.map_flatMap]
  unfold Program.allRungs allRungs assemble
  simp only [List.map_append, Rung.map_erase_numberAll, ← hsubs,
    eraseSubroutines_numberSubroutines]

theorem names_numberSubroutines (subs : List (String × List Rung)) (next : InstructionId) :
    (numberSubroutines next subs).1.map Prod.fst = subs.map Prod.fst := by
  have h := congrArg (List.map Prod.fst) (eraseSubroutines_numberSubroutines subs next)
  simpa [eraseSubroutines, Function.comp_def] using h

theorem order_of_assemble (d : Draft) :
    d.assemble.instructions.map Instruction.erase = d.instructions.map Instruction.erase := by
  unfold Program.instructions instructions
  rw [← Rung.flatMap_instructions_map_erase, map_erase_assemble,
    Rung.flatMap_instructions_map_erase]

theorem pairwise_isolated (h : p.instructions.map Instruction.id = List.range p.instructionCount) :
    p.instructions.Pairwise fun i j => Isolated i.id j.id ∧ Isolated j.id i.id := by
  have hnodup : (p.instructions.map Instruction.id).Nodup := h ▸ List.nodup_range
  refine (List.pairwise_map.mp hnodup).imp ?_
  intro i j hne
  exact ⟨isolated_of_ne hne, isolated_of_ne hne.symm⟩

theorem numbered_of_build (h : d.build = .ok p) : d.Numbered p := by
  have hdense := Program.ids_of_accepted ⟨d, h⟩
  obtain ⟨-, hp⟩ := build_eq_ok_iff.mp h
  refine ⟨hdense, ?_, ?_, ?_, pairwise_isolated hdense, fun i _ => ownCells i.id⟩
  · rw [hp, order_of_assemble]
  · have hnames : p.subroutines.map Prod.fst = d.subroutines.keys := by
      rw [← Std.ExtTreeMap.map_fst_toList_eq_keys, hp]
      exact names_numberSubroutines _ _
    rw [hnames]
    exact Std.ExtTreeMap.ordered_keys
  · intro e he
    rw [build_eq_of_erase_eq he, h]

end Draft

/-! Everywhere in the draft the handle is nine: in a loop inside a branch, behind it, and in a
subroutine. -/

namespace Sample

def used : Draft :=
  (Draft.empty.withRung
    ⟨[], [.branch []
        [.instruction (.loop 9 false ⟨.literal (.int 2), passes⟩ [.single 9 false timer])],
      .instruction (.single 9 false coil)]⟩)
    |>.withSubroutine "Home" [⟨[], [.instruction (.single 9 false .leaveSubroutine)]⟩]

end Sample

theorem Draft.numbered_of_build_sample :
    ∃ p, Sample.used.build = .ok p ∧ Sample.used.Numbered p ∧
      p.instructions.map Instruction.id = [0, 1, 2, 3] :=
  ⟨_, rfl, numbered_of_build rfl, rfl⟩

end LadderLogic
