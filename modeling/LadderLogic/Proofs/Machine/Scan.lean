import LadderLogic.Proofs.Machine.Agenda
import LadderLogic.Proofs.Program.Building
import LadderLogic.Proofs.Scan.Preservation

/-!
Whole scans in guarded steps, from the status tags to the commit. Whatever the operands evaluate to,
the machine comes to what the scan comes to, and the overflow of a counter is the one accident. A
counter overflows where its accumulator holds a value outside its type, which a search can report,
or where it counts down against the least integer. In a well-typed program only the second is left.
-/

set_option autoImplicit false

namespace LadderLogic

open Agenda Machine

namespace ScanContext

/-- Writes the status tags. The number of the running scan is an unsigned word before it is cut. -/
def refreshStatusGuarded (ctx : ScanContext) : Machine ScanContext := do
  let number ← unsigned 64 (ctx.state.scanId.toNat + 1)
  return ((ctx.setTag SystemTag.alwaysOnName (.bool true)).setTag SystemTag.firstScanName
    (.bool (ctx.state.scanId == 0))).setTag SystemTag.scanCounterName
      (.int (Integer.residue 32 true number))

def commitGuarded (ctx : ScanContext) (dt : Float) : Machine SystemState := do
  let number ← unsigned 64 (ctx.state.scanId.toNat + 1)
  return { ctx.commit dt with scanId := .ofNat number }

variable {ctx : ScanContext}

theorem unsigned_scanId (h : ctx.state.scanId.toNat + 1 < 2 ^ 64) :
    unsigned 64 (ctx.state.scanId.toNat + 1) = .ok (ctx.state.scanId + 1).toNat := by
  rw [show (ctx.state.scanId.toNat : Int) + 1 = ((ctx.state.scanId.toNat + 1 : Nat) : Int) from rfl,
    unsigned_of_lt h, UInt64.toNat_add]
  exact congrArg Except.ok (Nat.mod_eq_of_lt h).symm

theorem refreshStatusGuarded_eq (h : ctx.state.scanId.toNat + 1 < 2 ^ 64) :
    ctx.refreshStatusGuarded = .ok (Program.refreshStatus ctx) := by
  unfold refreshStatusGuarded
  rw [unsigned_scanId h]
  rfl

theorem commitGuarded_eq (h : ctx.state.scanId.toNat + 1 < 2 ^ 64) (dt : Float) :
    ctx.commitGuarded dt = .ok (ctx.commit dt) := by
  unfold commitGuarded
  rw [unsigned_scanId h]
  change Except.ok { ctx.commit dt with scanId := UInt64.ofNat (ctx.state.scanId + 1).toNat } = _
  rw [UInt64.ofNat_toNat]
  rfl

end ScanContext

/-- The end of a scan on the machine: a commit unless the flow has failed. -/
def Outcome.finishGuarded (o : Outcome) (dt : Float) :
    Machine (Except LadderError SystemState) := do
  match o.exit with
  | .fail (.error e) => return .error e
  | .fail (.overflow exact) => throw (.overflow exact)
  | .proceed => return .ok (← o.context.commitGuarded dt)
  | .leave => return .ok (← o.context.commitGuarded dt)

/-- What a scan comes to, with an overflow as an accident. -/
def ScanResult.onMachine (result : ScanResult) : Machine (Except LadderError SystemState) :=
  match result.next with
  | .ok s => .ok (.ok s)
  | .error (.error e) => .ok (.error e)
  | .error (.overflow exact) => .error (.overflow exact)

theorem ScanResult.onMachine_eq_error_iff {result : ScanResult} {accident : Accident} :
    result.onMachine = .error accident ↔
      ∃ exact, accident = .overflow exact ∧ result.next = .error (.overflow exact) := by
  unfold onMachine
  cases result.next with
  | ok s => simp
  | error failure =>
    cases failure with
    | error e => simp
    | overflow exact => simp [eq_comm]

namespace Outcome

variable {o : Outcome}

theorem finishGuarded_eq (h : o.context.state.scanId.toNat + 1 < 2 ^ 64) (dt : Float) :
    o.finishGuarded dt = (o.finish dt).onMachine := by
  obtain ⟨last, exit⟩ := o
  have hcommit : last.commitGuarded dt = .ok (last.commit dt) := ScanContext.commitGuarded_eq h dt
  unfold finishGuarded
  cases exit with
  | proceed =>
    dsimp only
    rw [hcommit]
    rfl
  | leave =>
    dsimp only
    rw [hcommit]
    rfl
  | fail failure =>
    cases failure with
    | error e => rfl
    | overflow exact => rfl

theorem onMachine_bind_finishGuarded (h : o.context.state.scanId.toNat + 1 < 2 ^ 64) (dt : Float) :
    (o.onMachine >>= fun o => o.finishGuarded dt) = (o.finish dt).onMachine := by
  rw [← finishGuarded_eq h dt]
  rcases o.onMachine_cases with ho | ⟨exact, hexit⟩
  · rw [ho]
    rfl
  · rw [onMachine_of_overflow hexit]
    unfold finishGuarded
    rw [hexit]
    rfl

end Outcome

namespace Program

variable {p : Program} {s : SystemState} {r : RuntimeTable} {dt : Float}

def prepareGuarded (p : Program) (ctx : ScanContext) : Machine ScanContext := do
  let ctx := ctx.watch p.edgeTags
  let ctx ← if p.statusTags then ctx.refreshStatusGuarded else pure ctx
  return ctx.clearFaults

/-- One scan on the machine: the status tags, the main rungs, and the end of the scan. -/
inductive ScansAs (p : Program) (s : SystemState) (r : RuntimeTable) (dt : Float) :
    Machine (Except LadderError SystemState) → Prop
  | stop {accident : Accident} :
    p.prepareGuarded (.startScan s r dt) = .error accident → ScansAs p s r dt (.error accident)
  | rungs {ctx : ScanContext} {flow : Machine Outcome} :
    p.prepareGuarded (.startScan s r dt) = .ok ctx →
    EndsAs p ⟨[.task (.body p.rungs)], ctx.proceed⟩ flow →
    ScansAs p s r dt (flow >>= fun o => o.finishGuarded dt)

theorem prepareGuarded_eq (h : s.scanId.toNat + 1 < 2 ^ 64) :
    p.prepareGuarded (.startScan s r dt) = .ok (p.entry s r dt) := by
  unfold prepareGuarded entry prepare
  cases p.statusTags with
  | true =>
    dsimp only
    rw [if_pos rfl, if_pos rfl, ScanContext.refreshStatusGuarded_eq h]
    rfl
  | false => rfl

theorem ready_opening (p : Program) (s : SystemState) (r : RuntimeTable) (dt : Float) :
    (Agenda.opening p s r dt).Ready p := by
  intro u hu
  refine ⟨p.belongs_opening s r dt u hu, ?_⟩
  cases List.mem_singleton.mp hu
  exact (Task.plain_body p.rungs).inLimit

/-- The machine comes to what the scan comes to. -/
theorem scansAs_iff (hchecked : p.Checked) (hwords : p.InWords)
    (hid : s.scanId.toNat + 1 < 2 ^ 64) (result : Machine (Except LadderError SystemState)) :
    p.ScansAs s r dt result ↔ result = (p.scan s r dt).onMachine := by
  have hprepare : p.prepareGuarded (.startScan s r dt) = .ok (p.entry s r dt) :=
    prepareGuarded_eq hid
  have hrungs : EndsAs p (.opening p s r dt) (p.evaluate (.startScan s r dt)).onMachine :=
    EndsAs.of_steps hchecked hwords (p.ready_opening s r dt) rfl (p.evaluate_steps _)
  have hstate := (frame_of_reaches (p.evaluate_traced (.startScan s r dt)).reaches).1
  have hfinish : ((p.evaluate (.startScan s r dt)).onMachine >>= fun o => o.finishGuarded dt) =
      (p.scan s r dt).onMachine :=
    Outcome.onMachine_bind_finishGuarded (by rwa [hstate]) dt
  constructor
  · intro h
    cases h with
    | stop hstop => cases hprepare.symm.trans hstop
    | rungs hctx hflow =>
      cases hprepare.symm.trans hctx
      rw [← hrungs.unique hflow] at hfinish
      exact hfinish
  · rintro rfl
    rw [← hfinish]
    exact .rungs hprepare hrungs

/-- What runs at a moment is an operation of the program, in a context of the scan. -/
theorem reaches_of_operate {id : InstructionId} {op : Operation} {enabled : Bool}
    {mid : ScanContext} (h : .operate id op enabled mid ∈ p.scanMoments s r dt) :
    (∃ oneshot, .single id oneshot op ∈ p.instructions) ∧
      (p.entry s r dt).Reaches (· ∈ p.instructions) mid :=
  (p.evaluate_traced (.startScan s r dt)).moments _ h

/-- How a scan runs on the machine. -/
structure RunsGuarded (p : Program) (s : SystemState) (r : RuntimeTable) (dt : Float) : Prop where
  /-- It comes to what the scan comes to, and to nothing else. -/
  ends : ∀ result, p.ScansAs s r dt result ↔ result = (p.scan s r dt).onMachine
  /-- Operands calculate without an accident, whatever they evaluate to, in every context that the
  instructions may lead to, also in the middle of one. -/
  operands : ∀ e mid, p.HasOperand e → (p.entry s r dt).Reaches (· ∈ p.instructions) mid →
    e.evaluateGuarded mid = .ok (e.evaluate mid)
  /-- The one accident is an operation that overflows where it runs. -/
  accidents : ∀ accident, p.ScansAs s r dt (.error accident) ↔
    ∃ exact, accident = .overflow exact ∧ ∃ m ∈ p.scanMoments s r dt, m.Overflows exact
  causes : ∀ id op enabled mid exact, .operate id op enabled mid ∈ p.scanMoments s r dt →
    op.Overflows enabled mid exact → op.OverflowCause enabled mid exact
  /-- With typed tags and reports that fit their tags, only the least integer as a preset is
  left. -/
  typed : ∀ Γ : Typing, p.WellTyped Γ → Γ.TypesState s → ∀ id op enabled mid exact,
    .operate id op enabled mid ∈ p.scanMoments s r dt → op.Overflows enabled mid exact →
    ∃ counter, op = .countDown counter ∧ counter.NegatesLeast enabled mid ∧
      exact = -Integer.least

/-- A scan of a program made by the checked constructors has no arithmetic accident but the overflow
of a counter. -/
theorem scan_guarded (hchecked : p.Checked) (hwords : p.InWords) (hs : s.InWords)
    (hid : s.scanId.toNat + 1 < 2 ^ 64) (r : RuntimeTable) (dt : Float) :
    p.RunsGuarded s r dt := by
  have hreached : ∀ {mid}, (p.entry s r dt).Reaches (· ∈ p.instructions) mid → mid.InWords :=
    fun h => (ScanContext.InWords.entry hs p r dt).reaches hwords.instructions h
  have hcauses : ∀ id op enabled mid exact, .operate id op enabled mid ∈ p.scanMoments s r dt →
      op.Overflows enabled mid exact → op.OverflowCause enabled mid exact := by
    intro id op enabled mid exact hmoment hoverflows
    obtain ⟨⟨oneshot, hop⟩, hmid⟩ := reaches_of_operate hmoment
    have hoperands : ∀ e ∈ op.operands, e.InWords := fun e he =>
      hwords.operands e (.inl ⟨_, hop, he⟩)
    exact op.cause_of_overflows (hchecked id oneshot op hop) (hwords.instructions _ hop) hoperands
      (hreached hmid) hoverflows
  constructor
  case ends => exact scansAs_iff hchecked hwords hid
  case operands =>
    intro e mid he hmid
    have hwordsOf := hwords.operands e he
    exact Expression.evaluateGuarded_eq hwordsOf.literals fun _ => hwordsOf.reads (hreached hmid)
  case accidents =>
    intro accident
    rw [scansAs_iff hchecked hwords hid, eq_comm, ScanResult.onMachine_eq_error_iff]
    simp only [scan_overflow_iff]
  case causes => exact hcauses
  case typed =>
    intro Γ hp hs id op enabled mid exact hmoment hoverflows
    obtain ⟨⟨oneshot, hop⟩, hmid⟩ := reaches_of_operate hmoment
    obtain ⟨hformed, hcovers⟩ := hp _ hop
    have htypes := Typing.types_reaches hp (Typing.types_entry hs) hmid
    exact Operation.negatesLeast_of_sound ⟨hformed, Γ, hcovers, htypes⟩
      (hcauses id op enabled mid exact hmoment hoverflows)

end Program

theorem Tag.ofType_initial_fits (type : TagType) (name : String) :
    (ofType type name).initial.Fits := by
  cases type with
  | int | dint | word => exact (by decide : Integer.Fits 0)
  | bool | real | char => trivial

/-! A program that comes to its next state, and one whose counter negates the least integer. -/

namespace Sample

/-- Only the instructions evaluate expressions: no branches, and no conditions with operands. -/
theorem operand_of_flat {p : Program}
    (hrungs : ∀ q ∈ p.allRungs, (∀ c ∈ q.conditions, c.operands = []) ∧
      ∀ item ∈ q.items, ∃ i, item = .instruction i)
    (hinner : ∀ i ∈ p.instructions, i.conditions = []) {e : Expression} (h : p.HasOperand e) :
    ∃ i ∈ p.instructions, e ∈ i.operands := by
  rcases h with h | ⟨q, hq, c, hc, he⟩
  · exact h
  · obtain ⟨hown, hflat⟩ := hrungs q hq
    rcases hc with hgate | ⟨i, hi, hc⟩
    · cases hgate with
      | own hmem =>
        rw [hown c hmem] at he
        cases he
      | inner hitem hinner =>
        obtain ⟨i, rfl⟩ := hflat _ hitem
        cases hinner
    · rw [hinner i (List.mem_flatMap.mpr ⟨q, hq, hi⟩)] at hc
      cases hc

theorem checked : program.Checked := by
  intro id oneshot op hop
  exact (wellTyped _ hop).1.checked

theorem inWords : program.InWords where
  instructions i hi := by
    obtain rfl | rfl | rfl := mem_instructions hi
    · refine ⟨fun t ht => ?_, fun i hi => hi.elim⟩
      obtain rfl : t = lamp := ht
      exact Tag.ofType_initial_fits _ _
    · refine ⟨fun t ht => ?_, fun i hi => hi.elim⟩
      obtain ⟨a, ha, rfl⟩ : ∃ a, cells.contains a = true ∧ t = cells.cell a := ht
      exact (by decide : Integer.Fits 0)
    · refine ⟨fun t ht => ?_, fun i hi => hi.elim⟩
      obtain rfl | rfl : t = done ∨ t = count := ht <;> exact Tag.ofType_initial_fits _ _
  operands e he := by
    have hrungs : program.allRungs = [⟨[.risingEdge start], [.instruction (.single 0 false coil),
      .instruction (.single 1 false store), .instruction (.single 2 false timer)]⟩] := rfl
    obtain ⟨i, hi, he⟩ := operand_of_flat (by simp [hrungs, Condition.operands]) (fun i hi => by
      obtain rfl | rfl | rfl := mem_instructions hi <;> rfl) he
    obtain rfl | rfl | rfl := mem_instructions hi
    · cases he
    · obtain rfl | rfl := List.mem_pair.mp he
      · exact ⟨(by decide : Integer.Fits 7), fun t ht => ht.elim⟩
      · refine ⟨trivial, fun t ht => ?_⟩
        obtain rfl : t = pointer := ht
        exact Tag.ofType_initial_fits _ _
    · obtain rfl := List.mem_singleton.mp he
      exact ⟨(by decide : Integer.Fits 10), fun t ht => ht.elim⟩

theorem inWords_state : state.InWords := by
  intro name v hv
  have hmem := ValueMap.mem_of_getElem?_ofEntries hv
  simp only [List.mem_cons, List.not_mem_nil, or_false, Prod.mk.injEq] at hmem
  obtain ⟨-, rfl⟩ | ⟨-, rfl⟩ | ⟨-, rfl⟩ := hmem
  · trivial
  · exact (by decide : Integer.Fits 5)
  · exact (by decide : Integer.Fits 9)

theorem mem_descending {i : Instruction} (h : i ∈ descending.instructions) :
    i = .single 0 false (.countDown bottomless) := by
  have hlist : descending.instructions = [.single 0 false (.countDown bottomless)] := rfl
  simpa [hlist] using h

theorem descending_wellTyped : descending.WellTyped typing := by
  intro i hi
  obtain rfl := mem_descending hi
  refine ⟨⟨rfl, trivial, fun e he => by cases he⟩, fun t ht => ?_, fun e he => by cases he⟩
  obtain rfl | rfl : t = done ∨ t = count := ht <;> exact ⟨by decide, by decide⟩

theorem descending_checked : descending.Checked := by
  intro id oneshot op hop
  exact (descending_wellTyped _ hop).1.checked

theorem descending_inWords : descending.InWords where
  instructions i hi := by
    obtain rfl := mem_descending hi
    refine ⟨fun t ht => ?_, fun i hi => hi.elim⟩
    obtain rfl | rfl : t = done ∨ t = count := ht <;> exact Tag.ofType_initial_fits _ _
  operands e he := by
    have hrungs : descending.allRungs = [bottomlessRung] := rfl
    obtain ⟨i, hi, he⟩ := operand_of_flat (by simp [hrungs, bottomlessRung, Condition.operands])
      (fun i hi => by rw [mem_descending hi]; rfl) he
    obtain rfl := mem_descending hi
    obtain rfl := List.mem_singleton.mp he
    exact ⟨(by decide : Integer.Fits Integer.least), fun t ht => ht.elim⟩

theorem descending_hasOperand : descending.HasOperand bottomless.preset :=
  .inl ⟨.single 0 false (.countDown bottomless), List.mem_singleton_self _,
    List.mem_singleton_self _⟩

end Sample

namespace Program

theorem scan_guarded_sample :
    Sample.program.Checked ∧ Sample.program.InWords ∧ Sample.descending.Checked ∧
      Sample.descending.InWords ∧ Sample.state.InWords ∧
      Sample.state.scanId.toNat + 1 < 2 ^ 64 ∧
      (∃ next, Sample.program.ScansAs Sample.state ∅ 0.1 (.ok (.ok next)) ∧ next.scanId = 5) ∧
      Sample.bottomless.preset.evaluateGuarded (Sample.descending.entry Sample.state ∅ 0.1) =
        .ok (.ok (.int Integer.least)) ∧
      Sample.descending.ScansAs Sample.state ∅ 0.1 (.error (.overflow (-Integer.least))) := by
  have hid : Sample.state.scanId.toNat + 1 < 2 ^ 64 := by decide
  have hscan := scan_guarded Sample.checked Sample.inWords Sample.inWords_state hid ∅ 0.1
  have hdescending := scan_guarded Sample.descending_checked Sample.descending_inWords
    Sample.inWords_state hid ∅ 0.1
  refine ⟨Sample.checked, Sample.inWords, Sample.descending_checked, Sample.descending_inWords,
    Sample.inWords_state, hid, ?_, ?_, ?_⟩
  · exact ⟨_, (hscan.ends _).mpr rfl, rfl⟩
  · exact hdescending.operands _ _ Sample.descending_hasOperand .refl
  · rw [hdescending.ends, eq_comm, ScanResult.onMachine_eq_error_iff]
    exact ⟨_, rfl, Sample.descending_overflows⟩

/-- A built program can overflow in a typed state. -/
theorem exists_scan_with_overflow :
    ∃ (Γ : Typing) (p : Program) (s : SystemState), p.Accepted ∧ p.Checked ∧ p.WellTyped Γ ∧
      Γ.TypesState s ∧ s.scanId.toNat + 1 < 2 ^ 64 ∧
      p.ScansAs s ∅ 0.1 (.error (.overflow 9223372036854775808)) := by
  refine ⟨Sample.typing, Sample.descending, Sample.state, ⟨_, Sample.descending_build⟩,
    Sample.descending_checked, Sample.descending_wellTyped, Sample.types_state, by decide, ?_⟩
  rw [scansAs_iff Sample.descending_checked Sample.descending_inWords (by decide), eq_comm,
    ScanResult.onMachine_eq_error_iff]
  exact ⟨_, rfl, Sample.descending_overflows⟩

end Program

end LadderLogic
