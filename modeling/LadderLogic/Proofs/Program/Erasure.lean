import LadderLogic.Proofs.Program.Handles

/-!
Ladders without their handles. Numbering changes nothing but handles, and reads none: whatever the
instructions carried before, the program that is built is the same.
-/

set_option autoImplicit false

namespace LadderLogic

namespace Instruction

mutual

/-- The instruction with every handle in it set to zero. -/
def erase : Instruction → Instruction
  | single _ oneshot op => single 0 oneshot op
  | loop _ oneshot head body => loop 0 oneshot head (eraseAll body)

def eraseAll : List Instruction → List Instruction
  | [] => []
  | i :: is => i.erase :: eraseAll is

end

mutual

theorem erase_number : ∀ (i : Instruction) (next : InstructionId), (i.number next).1.erase = i.erase
  | single _ _ _, _ => rfl
  | loop _ _ _ body, next => by
    unfold number erase
    rw [eraseAll_numberAll body (next + 1)]

theorem eraseAll_numberAll : ∀ (is : List Instruction) (next : InstructionId),
    eraseAll (numberAll next is).1 = eraseAll is
  | [], _ => rfl
  | i :: is, next => by
    unfold numberAll eraseAll
    rw [erase_number i next, eraseAll_numberAll is _]

end

mutual

theorem number_erase : ∀ (i : Instruction) (next : InstructionId),
    i.erase.number next = i.number next
  | single _ _ _, _ => rfl
  | loop _ _ _ body, next => by
    unfold erase number
    rw [numberAll_eraseAll body (next + 1)]

theorem numberAll_eraseAll : ∀ (is : List Instruction) (next : InstructionId),
    numberAll next (eraseAll is) = numberAll next is
  | [], _ => rfl
  | i :: is, next => by
    unfold eraseAll numberAll
    rw [number_erase i next]
    dsimp only
    rw [numberAll_eraseAll is _]

end

mutual

theorem flatten_erase : ∀ i : Instruction, i.erase.flatten = i.flatten.map erase
  | single _ _ _ => rfl
  | loop _ _ _ body => by
    rw [erase, flatten, flatten, List.map_cons, flattenAll_eraseAll body, erase]

theorem flattenAll_eraseAll : ∀ is : List Instruction,
    flattenAll (eraseAll is) = (flattenAll is).map erase
  | [] => rfl
  | i :: is => by
    unfold eraseAll flattenAll
    rw [List.map_append, flatten_erase i, flattenAll_eraseAll is]

end

end Instruction

namespace RungItem

mutual

def erase : RungItem → RungItem
  | instruction i => instruction i.erase
  | branch conditions items => branch conditions (eraseAll items)

def eraseAll : List RungItem → List RungItem
  | [] => []
  | item :: items => item.erase :: eraseAll items

end

mutual

theorem erase_number : ∀ (item : RungItem) (next : InstructionId),
    (item.number next).1.erase = item.erase
  | instruction i, next => by
    unfold number erase
    rw [i.erase_number]
  | branch _ items, next => by
    unfold number erase
    rw [eraseAll_numberAll items next]

theorem eraseAll_numberAll : ∀ (items : List RungItem) (next : InstructionId),
    eraseAll (numberAll next items).1 = eraseAll items
  | [], _ => rfl
  | item :: items, next => by
    unfold numberAll eraseAll
    rw [erase_number item next, eraseAll_numberAll items _]

end

mutual

theorem number_erase : ∀ (item : RungItem) (next : InstructionId),
    item.erase.number next = item.number next
  | instruction i, next => by
    unfold erase number
    rw [i.number_erase]
  | branch _ items, next => by
    unfold erase number
    rw [numberAll_eraseAll items next]

theorem numberAll_eraseAll : ∀ (items : List RungItem) (next : InstructionId),
    numberAll next (eraseAll items) = numberAll next items
  | [], _ => rfl
  | item :: items, next => by
    unfold eraseAll numberAll
    rw [number_erase item next]
    dsimp only
    rw [numberAll_eraseAll items _]

end

mutual

theorem instructions_erase : ∀ item : RungItem,
    item.erase.instructions = item.instructions.map Instruction.erase
  | instruction i => by
    unfold erase instructions
    exact i.flatten_erase
  | branch _ items => by
    unfold erase instructions
    exact instructionsOfAll_eraseAll items

theorem instructionsOfAll_eraseAll : ∀ items : List RungItem,
    instructionsOfAll (eraseAll items) = (instructionsOfAll items).map Instruction.erase
  | [] => rfl
  | item :: items => by
    unfold eraseAll instructionsOfAll
    rw [List.map_append, instructions_erase item, instructionsOfAll_eraseAll items]

end

theorem isEmpty_eraseAll (items : List RungItem) : (eraseAll items).isEmpty = items.isEmpty := by
  cases items <;> rfl

end RungItem

namespace Rung

def erase (r : Rung) : Rung := ⟨r.conditions, RungItem.eraseAll r.items⟩

theorem instructions_erase (r : Rung) :
    r.erase.instructions = r.instructions.map Instruction.erase :=
  RungItem.instructionsOfAll_eraseAll r.items

theorem map_erase_numberAll (rs : List Rung) (next : InstructionId) :
    (numberAll next rs).1.map erase = rs.map erase := by
  induction rs generalizing next with
  | nil => rfl
  | cons r rs ih =>
    unfold numberAll
    rw [List.map_cons, List.map_cons, ih]
    unfold number erase
    rw [RungItem.eraseAll_numberAll]

theorem numberAll_map_erase (rs : List Rung) (next : InstructionId) :
    numberAll next (rs.map erase) = numberAll next rs := by
  induction rs generalizing next with
  | nil => rfl
  | cons r rs ih =>
    have hfirst : r.erase.number next = r.number next := by
      unfold number erase
      rw [RungItem.numberAll_eraseAll]
    unfold numberAll
    rw [List.map_cons]
    dsimp only
    rw [hfirst, ih]

theorem flatMap_instructions_map_erase (rs : List Rung) :
    (rs.map erase).flatMap instructions = (rs.flatMap instructions).map Instruction.erase := by
  rw [List.flatMap_map, List.map_flatMap]
  exact List.flatMap_congr fun r _ => r.instructions_erase

end Rung

namespace Draft

/-- The draft with every handle set to zero. -/
def erase (d : Draft) : Draft :=
  { d with
    rungs := d.rungs.map Rung.erase
    subroutines := d.subroutines.map fun _ rungs => rungs.map Rung.erase }

/-- All rungs, those of subroutines by name after the main ones. -/
def allRungs (d : Draft) : List Rung := d.rungs ++ d.subroutines.toList.flatMap Prod.snd

def instructions (d : Draft) : List Instruction := d.allRungs.flatMap Rung.instructions

def eraseSubroutines (subs : List (String × List Rung)) : List (String × List Rung) :=
  subs.map fun s => (s.1, s.2.map Rung.erase)

theorem toList_erase (d : Draft) :
    d.erase.subroutines.toList = eraseSubroutines d.subroutines.toList :=
  Std.ExtTreeMap.toList_map

theorem numberSubroutines_eraseSubroutines (subs : List (String × List Rung))
    (next : InstructionId) :
    numberSubroutines next (eraseSubroutines subs) = numberSubroutines next subs := by
  induction subs generalizing next with
  | nil => rfl
  | cons s subs ih =>
    obtain ⟨name, rungs⟩ := s
    change numberSubroutines next ((name, rungs.map Rung.erase) :: eraseSubroutines subs) = _
    unfold numberSubroutines
    rw [Rung.numberAll_map_erase]
    dsimp only
    rw [ih]

theorem eraseSubroutines_numberSubroutines (subs : List (String × List Rung))
    (next : InstructionId) :
    eraseSubroutines (numberSubroutines next subs).1 = eraseSubroutines subs := by
  induction subs generalizing next with
  | nil => rfl
  | cons s subs ih =>
    obtain ⟨name, rungs⟩ := s
    unfold numberSubroutines
    unfold eraseSubroutines at ih ⊢
    rw [List.map_cons, List.map_cons, ih, Rung.map_erase_numberAll]

theorem assemble_erase (d : Draft) : d.erase.assemble = d.assemble := by
  unfold assemble
  rw [toList_erase]
  simp only [erase, Rung.numberAll_map_erase, numberSubroutines_eraseSubroutines]

theorem checkOperation_erase (d : Draft) (inSubroutine last : Bool) (op : Operation) :
    d.erase.checkOperation inSubroutine last op = d.checkOperation inSubroutine last op := by
  unfold checkOperation erase
  simp only [Std.ExtTreeMap.contains_map]

mutual

theorem checkInstruction_erase (d : Draft) (inSubroutine : Bool) :
    ∀ (last : Bool) (i : Instruction),
    d.erase.checkInstruction inSubroutine last i.erase = d.checkInstruction inSubroutine last i
  | last, .single _ _ op => by
    unfold Instruction.erase checkInstruction
    exact d.checkOperation_erase inSubroutine last op
  | _, .loop _ _ _ body => by
    unfold Instruction.erase checkInstruction
    exact checkBody_erase d inSubroutine body

theorem checkBody_erase (d : Draft) (inSubroutine : Bool) : ∀ is : List Instruction,
    d.erase.checkBody inSubroutine (Instruction.eraseAll is) = d.checkBody inSubroutine is
  | [] => rfl
  | i :: is => by
    have hempty : (Instruction.eraseAll is).isEmpty = is.isEmpty := by cases is <;> rfl
    unfold Instruction.eraseAll checkBody
    rw [hempty, checkInstruction_erase d inSubroutine is.isEmpty i,
      checkBody_erase d inSubroutine is]

end

mutual

theorem checkItem_erase (d : Draft) (inSubroutine : Bool) : ∀ (last : Bool) (item : RungItem),
    d.erase.checkItem inSubroutine last item.erase = d.checkItem inSubroutine last item
  | last, .instruction i => by
    unfold RungItem.erase checkItem
    exact d.checkInstruction_erase inSubroutine last i
  | _, .branch _ items => by
    unfold RungItem.erase checkItem
    exact checkItems_erase d inSubroutine items

theorem checkItems_erase (d : Draft) (inSubroutine : Bool) : ∀ items : List RungItem,
    d.erase.checkItems inSubroutine (RungItem.eraseAll items) = d.checkItems inSubroutine items
  | [] => rfl
  | item :: items => by
    unfold RungItem.eraseAll checkItems
    rw [RungItem.isEmpty_eraseAll, checkItem_erase d inSubroutine items.isEmpty item,
      checkItems_erase d inSubroutine items]

end

theorem checkRungs_erase (d : Draft) (inSubroutine : Bool) (rungs : List Rung) :
    d.erase.checkRungs inSubroutine (rungs.map Rung.erase) = d.checkRungs inSubroutine rungs := by
  induction rungs with
  | nil => rfl
  | cons r rs ih =>
    have hitems := d.checkItems_erase inSubroutine r.items
    change d.erase.checkItems inSubroutine (RungItem.eraseAll r.items) >>=
        (fun _ => d.erase.checkRungs inSubroutine (rs.map Rung.erase)) =
      d.checkItems inSubroutine r.items >>= fun _ => d.checkRungs inSubroutine rs
    rw [hitems, ih]

theorem checkSubroutines_erase (d : Draft) (subs : List (String × List Rung)) :
    (eraseSubroutines subs).forM (fun s => d.erase.checkRungs true s.2) =
      subs.forM fun s => d.checkRungs true s.2 := by
  induction subs with
  | nil => rfl
  | cons s subs ih =>
    change d.erase.checkRungs true (s.2.map Rung.erase) >>=
        (fun _ => (eraseSubroutines subs).forM fun s => d.erase.checkRungs true s.2) =
      d.checkRungs true s.2 >>= fun _ => subs.forM fun s => d.checkRungs true s.2
    rw [checkRungs_erase, ih]

theorem check_erase (d : Draft) : d.erase.check = d.check := by
  unfold check
  rw [toList_erase, checkSubroutines_erase]
  exact congrArg (· >>= _) (d.checkRungs_erase false d.rungs)

theorem build_erase (d : Draft) : d.erase.build = d.build := by
  unfold build
  rw [check_erase, assemble_erase]

/-- Drafts that differ in handles only are built into the same program, or refused alike. -/
theorem build_eq_of_erase_eq {d e : Draft} (h : d.erase = e.erase) : d.build = e.build := by
  rw [← d.build_erase, h, e.build_erase]

end Draft

end LadderLogic
