import LadderLogic.Proofs.Instruction.WellFormed
import LadderLogic.Proofs.Scan.Keys

/-!
What coils, shift registers and searches do to a context.
-/

set_option autoImplicit false

namespace LadderLogic

/-- A context comes from another by changes that the operation names. They are typed if the
operation is sound at the start, and in words if the numbers of the operation are. -/
def Operation.Effect (op : Operation) (id : InstructionId) (ctx : ScanContext) :
    ScanContext → Prop :=
  ctx.Becomes (Permit op.Targets (op.Keeps id) (op.Sound ctx) op.InWords)

section Cells

variable {targets : Tag → Prop} {keeps : String → Prop} {sound words : Prop} {ctx mid : ScanContext}

/-- A range either has cells, or nothing but the address fault happens. -/
theorem RangeRef.onCells_becomes {r : RangeRef} {next : BlockRange → ScanContext}
    (hmid : ctx.Becomes (Permit targets keeps sound words) mid)
    (h : ∀ cells, r.resolve mid = .ok (some cells) →
      ctx.Becomes (Permit targets keeps sound words) (next cells)) :
    ctx.Becomes (Permit targets keeps sound words) (r.onCells mid next).context := by
  unfold onCells
  split
  case h_1 => exact hmid
  case h_2 => exact hmid.raise .addressError
  case h_3 cells hcells => exact h cells hcells

theorem CoilTarget.drive_becomes (target : CoilTarget) {value : Tag → Value}
    (hv : ∀ u, target.HasCell u → sound → u.type.Holds (value u))
    (hfits : ∀ u, target.HasCell u → words → (value u).Fits) :
    ctx.Becomes (Permit target.HasCell keeps sound words) (target.drive value ctx).context := by
  cases target with
  | tag t => exact .write .refl rfl (hv t rfl) (hfits t rfl)
  | range r =>
    refine RangeRef.onCells_becomes .refl fun cells hcells => .writeAll .refl fun w hw => ?_
    obtain ⟨u, hu, rfl⟩ := List.mem_map.mp hw
    have hcell := RangeRef.hasCell_of_resolve hcells u hu
    exact ⟨hcell, hv u hcell, hfits u hcell⟩

theorem CoilTarget.switch_becomes {target : CoilTarget}
    (hexpect : sound → ∃ u, target.expectBool = .ok u) (b : Bool) :
    ctx.Becomes (Permit target.HasCell keeps sound words)
      (target.drive (fun _ => .bool b) ctx).context := by
  refine target.drive_becomes (fun u hu hs => ?_) fun _ _ _ => trivial
  obtain ⟨_, h⟩ := hexpect hs
  rw [type_of_expectBool h hu]
  trivial

end Cells

theorem Out.effect (coil : Out) (id : InstructionId) (enabled : Bool) (ctx : ScanContext) :
    (Operation.out coil).Effect id ctx (coil.execute enabled ctx).context := by
  refine CoilTarget.switch_becomes (fun hs => ?_) enabled
  obtain ⟨u, hexpect, _⟩ := bind_eq_ok.mp hs.1.checked
  exact ⟨u, hexpect⟩

theorem Latch.effect (coil : Latch) (id : InstructionId) (ctx : ScanContext) :
    (Operation.latch coil).Effect id ctx (coil.execute ctx).context := by
  refine CoilTarget.switch_becomes (fun hs => ?_) true
  obtain ⟨u, hexpect, _⟩ := bind_eq_ok.mp hs.1.checked
  exact ⟨u, hexpect⟩

theorem Reset.effect (coil : Reset) (id : InstructionId) (ctx : ScanContext) :
    (Operation.reset coil).Effect id ctx (coil.execute ctx).context := by
  refine coil.target.drive_becomes (fun u hu hs => ?_) fun u hu hwords => hwords.initials u hu
  obtain ⟨-, Γ, hcover, -⟩ := hs
  exact (hcover.targets u hu).2

theorem Shift.effect (shift : Shift) (id : InstructionId) (enabled : Bool) (ctx : ScanContext) :
    (Operation.shift shift).Effect id ctx (shift.execute id enabled ctx).context := by
  have hcells : ∀ u, shift.range.HasCell u →
      MayDrive shift.range.HasCell ((Operation.shift shift).Sound ctx) u := by
    refine fun u hu => ⟨hu, fun hs => ?_⟩
    obtain ⟨_, hexpect, _⟩ := bind_eq_ok.mp hs.1.checked
    exact (RangeRef.type_eq_of_hasCell hu).trans (RangeRef.type_of_expectBool hexpect)
  have hclock : (Operation.shift shift).Effect id ctx
      (ctx.setMemory (clockKey id) (.bool (shift.clock.holds ctx))) :=
    .setMemory .refl rfl fun _ hkey =>
      absurd hkey (not_isCarryKey_memoryKey (by decide) id)
  apply RangeRef.onCells_becomes hclock
  intro cells hresolve
  have htags := RangeRef.hasCell_of_resolve hresolve
  unfold apply
  split_ifs
  · apply hclock.writeAll
    intro w hw
    obtain ⟨u, hu, rfl⟩ := List.mem_map.mp hw
    have hmay := hcells u (htags u hu)
    refine ⟨hmay.target, fun hs => ?_, fun _ => trivial⟩
    rw [hmay.type hs]
    trivial
  · exact hclock.driveAll (fun u hu => hcells u (htags u hu)) _
  · exact hclock

namespace Search

variable {search : Search}

theorem mem_of_findWindow {pattern : List Char} {wanted : Bool} {cells : List (Int × Option Char)}
    {a : Int} (h : findWindow pattern wanted cells = some a) : a ∈ cells.map Prod.fst := by
  induction cells with
  | nil => cases h
  | cons cell rest ih =>
    obtain ⟨address, c⟩ := cell
    simp only [findWindow] at h
    split_ifs at h
    · cases h
      exact List.mem_cons_self
    · exact List.mem_cons_of_mem _ (ih h)

theorem mem_of_hit {block : Block} {addresses : List Int} {ctx : ScanContext} {a : Int}
    (h : search.hit block addresses ctx = .ok (some a)) : a ∈ addresses := by
  unfold hit at h
  split at h
  case h_1 =>
    split at h
    case h_1 => cases h
    case h_2 => exact List.mem_of_find?_eq_some (Except.ok.inj h)
  case h_2 =>
    have hmem := mem_of_findWindow (Except.ok.inj h)
    rw [List.map_map] at hmem
    obtain ⟨b, hb, rfl⟩ := List.mem_map.mp hmem
    exact hb

theorem mem_of_remaining? {cells : BlockRange} {ctx : ScanContext} {addresses : List Int}
    (h : search.remaining? cells ctx = some addresses) {a : Int} (ha : a ∈ addresses) :
    a ∈ cells.addresses := by
  unfold remaining? at h
  dsimp only at h
  split_ifs at h <;> cases h
  · exact ha
  · exact (List.dropWhile_sublist _).mem ha
  · exact ha

/-- The address that is reported, or minus one, fits the result tag. -/
theorem report_becomes {id : InstructionId} {ctx mid : ScanContext} {found : Option Int}
    (h : (Operation.search search).Effect id ctx mid)
    (hfound : ∀ a, found = some a → search.range.HasAddress a) :
    (Operation.search search).Effect id ctx (search.report found mid) := by
  refine (h.write (.inl rfl) (fun hs => ?_) fun hwords => ?_).write (.inr rfl) (fun hs => ?_)
    fun _ => trivial
  · cases found with
    | some a => exact hs.1.reports a (hfound a rfl)
    | none =>
      have htype := (types_of_make hs.1.checked).1
      simp only [List.mem_cons, List.not_mem_nil, or_false] at htype
      rcases htype with htype | htype <;> rw [htype] <;> decide
  · cases found with
    | some a => exact hwords.reports a (hfound a rfl)
    | none => exact show Integer.Fits (-1) by decide
  · rw [(types_of_make hs.1.checked).2]
    trivial

theorem effect (search : Search) (id : InstructionId) (ctx : ScanContext) :
    (Operation.search search).Effect id ctx (search.execute ctx).context := by
  apply RangeRef.onCells_becomes .refl
  intro cells hresolve
  obtain ⟨-, hmem⟩ := RangeRef.hasAddress_of_resolve hresolve
  unfold run
  split
  case h_1 => exact report_becomes .refl fun a ha => by cases ha
  case h_2 addresses haddresses =>
    split
    case h_1 found hfound =>
      refine report_becomes .refl fun a ha => hmem a ?_
      subst ha
      exact mem_of_remaining? haddresses (mem_of_hit hfound)
    case h_2 => exact .raise .refl _

end Search

end LadderLogic
