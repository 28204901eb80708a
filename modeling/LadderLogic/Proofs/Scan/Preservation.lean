import LadderLogic.Proofs.Scan.Frame

/-!
Scans preserve typing: every step of a well-typed program keeps the values in the domains of their
tags and the carried fractions in theirs, and so does the commit.
-/

set_option autoImplicit false

namespace LadderLogic

/-- The types fit the instruction, which its checked constructors let through. -/
def Instruction.WellTyped (Γ : Typing) : Instruction → Prop
  | single _ _ op => op.WellFormed ∧ Γ.Covers op
  | loop _ _ head _ => Γ.Has head.index

/-- The types fit every instruction of the program. -/
def Program.WellTyped (Γ : Typing) (p : Program) : Prop := ∀ i ∈ p.instructions, i.WellTyped Γ

namespace Typing

variable {Γ : Typing} {p : Program} {s next : SystemState} {r : RuntimeTable} {dt : Float}
  {ctx mid : ScanContext}

theorem has_of_refreshes {t : Tag} (h : p.Refreshes t) : Γ.Has t := by
  rcases h with ⟨f, rfl⟩ | ⟨-, ht⟩
  · exact ⟨Γ.fault f, trivial⟩
  · simp only [SystemTag.status, List.mem_cons, List.not_mem_nil, or_false] at ht
    rcases ht with rfl | rfl | rfl
    · exact ⟨Γ.alwaysOn, trivial⟩
    · exact ⟨Γ.firstScan, trivial⟩
    · exact ⟨Γ.scanCounter, by decide⟩

theorem types_startScan (h : Γ.TypesState s) : Γ.TypesContext (.startScan s r dt) where
  tags name v t hv := by
    rw [ScanContext.tag?_startScan] at hv
    exact h.tags name v t hv
  carries key v hkey hv := by
    have hdt : key ≠ dtKey := fun heq => not_isCarryKey_dtKey (heq ▸ hkey)
    rw [ScanContext.memory?_startScan, if_neg hdt] at hv
    exact h.carries key v hkey hv

theorem types_entry (h : Γ.TypesState s) : Γ.TypesContext (p.entry s r dt) := by
  have hstart : Γ.TypesContext (.startScan s r dt) := types_startScan h
  have hwatch : Γ.TypesContext ((ScanContext.startScan s r dt).watch p.edgeTags) :=
    ⟨hstart.tags, hstart.carries⟩
  exact types_of_becomes (fun _ => has_of_refreshes) trivial hwatch (p.prepare_becomes _)

/-- One step of a well-typed program preserves the types. -/
theorem types_step (hp : p.WellTyped Γ) (h : Γ.TypesContext ctx)
    (hstep : ctx.Step (· ∈ p.instructions) mid) : Γ.TypesContext mid := by
  cases hstep with
  | act i hi heffect =>
    have htyped := hp i hi
    cases i with
    | single id oneshot op =>
      obtain ⟨hformed, hcovers⟩ := htyped
      exact types_of_becomes hcovers.targets ⟨hformed, Γ, hcovers, h⟩ h heffect
    | loop id oneshot head body =>
      have hindex : ∀ t, t = head.index → Γ.Has t := by
        rintro t rfl
        exact htyped
      exact types_of_becomes hindex trivial h heffect
  | oneshot i fired _ => exact ⟨h.tags, h.carries⟩
  | enterCall => exact ⟨h.tags, h.carries⟩
  | exitCall => exact ⟨h.tags, h.carries⟩

theorem types_reaches (hp : p.WellTyped Γ) (h : Γ.TypesContext ctx)
    (hreaches : ctx.Reaches (· ∈ p.instructions) mid) : Γ.TypesContext mid := by
  induction hreaches with
  | refl => exact h
  | tail _ hstep ih => exact types_step hp ih hstep

/-- The time step and the levels that a commit adds are no carried fractions. -/
theorem types_commit (h : Γ.TypesContext ctx) : Γ.TypesState (ctx.commit dt) where
  tags name v t hv := by
    rw [ScanContext.tag?_commit] at hv
    exact h.tags name v t hv
  carries key v hkey hv := by
    have hdt : key ≠ dtKey := fun heq => not_isCarryKey_dtKey (heq ▸ hkey)
    have hedge : ∀ name ∈ ctx.edgeTags, key ≠ prevKey name :=
      fun name _ heq => not_isCarryKey_prevKey name (heq ▸ hkey)
    rw [ScanContext.memory?_commit ctx dt hdt hedge] at hv
    exact h.carries key v hkey hv

end Typing

/-- A scan of a well-typed program takes a typed state to a typed state. -/
theorem Program.scan_types {Γ : Typing} {p : Program} {s next : SystemState} {r : RuntimeTable}
    {dt : Float} (hp : p.WellTyped Γ) (hs : Γ.TypesState s)
    (hscan : (p.scan s r dt).next = .ok next) : Γ.TypesState next := by
  obtain ⟨last, hreaches, rfl⟩ := reaches_of_scan hscan
  exact Typing.types_commit (Typing.types_reaches hp (Typing.types_entry hs) hreaches)

theorem ValueMap.mem_of_getElem?_ofEntries {entries : List (String × Value)} {key : String}
    {v : Value} (h : (ofEntries entries)[key]? = some v) : (key, v) ∈ entries := by
  unfold ofEntries at h
  rw [Std.ExtTreeMap.ofList_eq_insertMany_empty, Std.ExtTreeMap.getElem?_insertMany_list,
    Std.ExtTreeMap.getElem?_empty, Option.or_none, List.findSomeRev?_eq_findSome?_reverse] at h
  obtain ⟨⟨k, w⟩, hmem, hentry⟩ := List.exists_of_findSome?_eq_some h
  simp only [Option.ite_none_right_eq_some, compare_eq_iff_eq] at hentry
  obtain ⟨rfl, hw⟩ := hentry
  cases hw
  exact List.mem_reverse.mp hmem

namespace Sample

/-- The names of switches and the counter of scans; all other tags are INT. -/
def typing : Typing where
  type? name :=
    if name ∈ [start.name, lamp.name, done.name, Fault.outOfRange.tagName,
      Fault.divisionError.tagName, Fault.addressError.tagName, SystemTag.alwaysOnName,
      SystemTag.firstScanName] then some .bool
    else if name = SystemTag.scanCounterName then some .dint
    else some .int
  fault f := by cases f <;> decide
  alwaysOn := by decide
  firstScan := by decide
  scanCounter := by decide

theorem wellTyped : program.WellTyped typing := by
  intro i hi
  obtain rfl | rfl | rfl := mem_instructions hi
  · refine ⟨⟨rfl, trivial, fun e he => by cases he⟩, fun t ht => ?_, fun e he => by cases he⟩
    obtain rfl : t = lamp := ht
    exact ⟨by decide, trivial⟩
  · refine ⟨⟨rfl, trivial, fun e he => by cases he⟩, fun t ht => ?_, fun e he => by cases he⟩
    obtain ⟨a, ha, rfl⟩ : ∃ a, cells.contains a = true ∧ t = cells.cell a := ht
    obtain rfl | rfl | rfl | rfl := mem_cells ha <;> exact ⟨by decide, by decide⟩
  · refine ⟨⟨rfl, trivial, fun e he => by cases he⟩, fun t ht => ?_, fun e he => by cases he⟩
    obtain rfl | rfl : t = done ∨ t = count := ht <;> exact ⟨by decide, by decide⟩

theorem types_state : typing.TypesState state where
  tags name v t hv ht := by
    have hmem := ValueMap.mem_of_getElem?_ofEntries hv
    simp only [List.mem_cons, List.not_mem_nil, or_false, Prod.mk.injEq] at hmem
    obtain ⟨rfl, rfl⟩ | ⟨rfl, rfl⟩ | ⟨rfl, rfl⟩ := hmem <;> cases ht <;> decide
  carries key v _ hv := by
    have hmem := ValueMap.mem_of_getElem?_ofEntries hv
    simp only [List.mem_cons, List.not_mem_nil, or_false, Prod.mk.injEq] at hmem
    obtain ⟨-, rfl⟩ := hmem
    exact isCarry_zero

end Sample

/-- A timer is on the way, and everything keeps its type. -/
theorem Program.scan_types_sample :
    ∃ next, (Sample.program.scan Sample.state ∅ 0.1).next = .ok next ∧
      Sample.typing.TypesState next := by
  obtain ⟨next, hscan⟩ := Sample.exists_next
  exact ⟨next, hscan, scan_types Sample.wellTyped Sample.types_state hscan⟩

end LadderLogic
