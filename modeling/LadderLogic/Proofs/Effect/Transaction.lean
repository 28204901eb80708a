import LadderLogic.Proofs.Effect.Pending

/-!
All or nothing. Each of these instructions makes all the writes that are due, or raises the first
fault among them and writes nothing else, or fails and leaves everything as it was.
-/

set_option autoImplicit false

namespace LadderLogic

namespace ScanContext

/-- Makes all pending writes, or raises the first fault among them. -/
def settle (ctx : ScanContext) (pending : List Pending) : ScanContext :=
  ctx.commitStaged (pending.mapM id)

/-- Settles what is due, or fails. -/
def settleDue (ctx : ScanContext) (due : Except LadderError (List Pending)) : Outcome :=
  match due with
  | .ok pending => (ctx.settle pending).proceed
  | .error e => ctx.fail (.error e)

theorem settle_ok (ctx : ScanContext) (writes : List (Tag × Value)) :
    ctx.settle (writes.map .ok) = ctx.writeAll writes := by
  rw [settle, sequence_map_ok]
  rfl

theorem writeAll_eq (ctx : ScanContext) (writes : List (Tag × Value)) :
    ctx.writeAll writes =
      { ctx with tags := writes.foldl (fun tags w => tags.insert w.1.name w.2) ctx.tags } := by
  induction writes generalizing ctx with
  | nil => rfl
  | cons w ws ih => exact ih (ctx.write w.1 w.2)

theorem perform_staged (ctx : ScanContext) {pending : List Pending} {staged : Staged}
    (h : staged = pending.mapM id) : ctx.perform (.ok staged) = ctx.settleDue (.ok pending) := by
  rw [h]
  rfl

end ScanContext

section Ranges

variable {ctx : ScanContext}

theorem RangeRef.onCells_eq_settleDue {r : RangeRef} {next : BlockRange → ScanContext}
    {pending : BlockRange → List Pending}
    (h : ∀ cells, r.resolve ctx = .ok (some cells) → next cells = ctx.settle (pending cells)) :
    r.onCells ctx next = ctx.settleDue (r.due ctx pending) := by
  unfold onCells due
  cases hcells : r.resolve ctx with
  | error e => rfl
  | ok found =>
    cases found with
    | none => rfl
    | some cells => exact congrArg ScanContext.proceed (h cells hcells)

theorem CoilTarget.drive_eq_settleDue (target : CoilTarget) (value : Tag → Value)
    (ctx : ScanContext) :
    target.drive value ctx = ctx.settleDue (target.due value ctx) := by
  cases target with
  | tag t => rfl
  | range r =>
    refine RangeRef.onCells_eq_settleDue fun cells _ => ?_
    rw [← ctx.settle_ok, List.map_map]
    rfl

theorem RangeRef.perform_eq_settleDue {r : RangeRef} {stage : BlockRange → Staged}
    {pending : BlockRange → List Pending} (h : ∀ cells, stage cells = (pending cells).mapM id) :
    ctx.perform ((r.resolve ctx).map fun
      | some cells => stage cells
      | none => .error .addressError) = ctx.settleDue (r.due ctx pending) := by
  unfold due
  cases r.resolve ctx with
  | error e => rfl
  | ok found =>
    cases found with
    | none => rfl
    | some cells => exact ctx.perform_staged (h cells)

end Ranges

theorem Fill.execute_eq_settleDue (fill : Fill) (ctx : ScanContext) :
    fill.execute ctx = ctx.settleDue (fill.due ctx) := by
  unfold execute stage due
  cases fill.value.evaluate ctx with
  | error e => rfl
  | ok value => exact RangeRef.perform_eq_settleDue fun cells => (sequence_map _).symm

theorem BlockCopy.stageCells_eq (copy : BlockCopy) (ctx : ScanContext)
    (source target : BlockRange) :
    copy.stageCells ctx source target =
      (if source.length = target.length then
        (source.tags.zip target.tags).map fun (src, dst) =>
          dst.storeConverted copy.conversion (ctx.read src)
      else [.error .addressError]).mapM id := by
  unfold stageCells
  split_ifs
  · exact (sequence_map _).symm
  · rfl

theorem BlockCopy.execute_eq_settleDue (copy : BlockCopy) (ctx : ScanContext) :
    copy.execute ctx = ctx.settleDue (copy.due ctx) := by
  unfold execute stage due RangeRef.due
  cases copy.source.resolve ctx with
  | error e => rfl
  | ok found =>
    cases found with
    | none => rfl
    | some source =>
      cases copy.target.resolve ctx with
      | error e => rfl
      | ok found =>
        cases found with
        | none => rfl
        | some target => exact ctx.perform_staged (copy.stageCells_eq ctx source target)

namespace SingleCopy

/-- The code walks along the cells and the text together. -/
theorem dueLetters_eq (tags : List Tag) (cs : List Char) :
    dueLetters tags cs = (fillCells tags cs).map .ok := by
  induction tags generalizing cs with
  | nil => rfl
  | cons t ts ih =>
    cases cs with
    | nil =>
      rw [fillCells, List.map_cons, ← ih []]
      simp [dueLetters, List.mapIdx_cons]
    | cons c cs =>
      rw [fillCells, List.map_cons, ← ih cs]
      simp [dueLetters, List.mapIdx_cons]

theorem sequence_dueLetters (tags : List Tag) (cs : List Char) :
    (dueLetters tags cs).mapM id = .ok (fillCells tags cs) := by
  rw [dueLetters_eq, sequence_map_ok]

theorem spreadText_copied (source : CopySource) (target : CopyTarget) (cells : BlockRange)
    (value : Value) :
    spreadText ⟨source, target, none⟩ cells value = (dueCopied cells value).mapM id := by
  unfold spreadText dueCopied
  cases value with
  | text s =>
    dsimp only
    split_ifs
    · exact (sequence_dueLetters _ _).symm
    · rfl
  | _ => rfl

theorem spreadText_eq (copy : SingleCopy) (cells : BlockRange) (value : Value) :
    copy.spreadText cells value = (copy.dueText cells value).mapM id := by
  obtain ⟨source, target, conversion⟩ := copy
  have hcopied := spreadText_copied source target cells value
  rcases conversion with _ | conversion
  · exact hcopied
  · cases conversion with
    | asText suppressZero =>
      unfold spreadText dueText
      dsimp only
      cases Conversion.render? value (sourceType? ⟨source, target, _⟩) suppressZero with
      | none => rfl
      | some cs =>
        dsimp only
        by_cases hlength : cs.length ≤ cells.length
        · rw [if_neg (not_lt.mpr hlength), if_pos hlength, sequence_dueLetters]
        · rw [if_pos (not_le.mp hlength), if_neg hlength]
          rfl
    | _ => exact hcopied

theorem execute_eq_settleDue (copy : SingleCopy) (ctx : ScanContext) :
    copy.execute ctx = ctx.settleDue (copy.due ctx) := by
  unfold execute stage due
  cases copy.sourceValue ctx with
  | error e => rfl
  | ok result =>
    cases result with
    | error fault => rfl
    | ok value =>
      obtain ⟨source, target, conversion⟩ := copy
      cases target with
      | tag target =>
        simp only [bind, Except.bind]
        cases target.resolve ctx with
        | none => rfl
        | some t =>
          dsimp only
          cases convertScalar ⟨source, .tag target, conversion⟩ t value <;> rfl
      | range target =>
        unfold RangeRef.due
        simp only [bind, Except.bind]
        cases target.resolve ctx with
        | error e => rfl
        | ok found =>
          cases found with
          | none => rfl
          | some cells => exact ctx.perform_staged (spreadText_eq _ cells value)

end SingleCopy

theorem Search.execute_eq_settleDue (search : Search) (ctx : ScanContext) :
    search.execute ctx = ctx.settleDue (search.due ctx) := by
  refine RangeRef.onCells_eq_settleDue fun cells _ => ?_
  unfold run
  cases search.remaining? cells ctx with
  | none => rfl
  | some addresses =>
    dsimp only
    cases search.hit cells.block addresses ctx with
    | ok hit => rfl
    | error fault => rfl

namespace Pack

variable {ctx : ScanContext}

theorem onPair_of_resolve {range : RangeRef} {tag : TagRef} {cells : BlockRange} {t : Tag}
    (hcells : range.resolve ctx = .ok (some cells)) (ht : tag.resolve ctx = some t)
    (next : BlockRange → Tag → ScanContext) :
    onPair range tag ctx next = (next cells t).proceed := by
  simp only [onPair, RangeRef.onCells, hcells, ht]

theorem onPair_eq_settleDue {range : RangeRef} {tag : TagRef}
    {next : BlockRange → Tag → ScanContext} {pending : BlockRange → Tag → List Pending}
    (h : ∀ cells t, range.resolve ctx = .ok (some cells) → tag.resolve ctx = some t →
      next cells t = ctx.settle (pending cells t)) :
    onPair range tag ctx next = ctx.settleDue (due range tag ctx pending) := by
  refine RangeRef.onCells_eq_settleDue fun cells hcells => ?_
  cases htag : tag.resolve ctx with
  | none => rfl
  | some t => exact h cells t hcells htag

theorem writePattern_eq (ctx : ScanContext) (t : Tag) (bits : Nat) :
    writePattern ctx t bits = ctx.settle [duePattern t bits] := by
  unfold writePattern duePattern
  cases t.type.valueOf bits with
  | some v => rfl
  | none => rfl

theorem toBits_eq (count n : Nat) :
    toBits count n = (List.range count).map n.testBit := by
  induction count generalizing n with
  | zero => rfl
  | succ count ih =>
    have hlow : (n % 2 == 1) = n.testBit 0 := by
      rw [Nat.testBit_zero]
      rfl
    rw [toBits, ih, List.range_succ_eq_map, List.map_cons, List.map_map, hlow]
    refine congrArg (n.testBit 0 :: ·) (List.map_congr_left ?_)
    intro i _
    exact (Nat.testBit_succ n i).symm

/-- The bits that the code spreads one after the other are those of the number. -/
theorem map_zip_toBits (tags : List Tag) (n : Nat) :
    (tags.zip ((toBits tags.length n).map Value.bool)).map .ok =
      tags.mapIdx fun i t => (.ok (t, .bool (n.testBit i)) : Pending) := by
  rw [toBits_eq, List.map_map]
  apply List.ext_getElem
  · simp
  · intro i _ _
    simp

/-- A narrow cell takes over any bits. -/
theorem exists_valueOf_of_narrow {t : TagType} (h : t ∈ TagType.narrow) (bits : Nat) :
    ∃ v, t.valueOf bits = some v := by
  rcases List.mem_pair.mp h with rfl | rfl
  · exact ⟨_, rfl⟩
  · exact ⟨_, rfl⟩

end Pack

theorem PackBits.execute_eq_settleDue (pack : PackBits) (ctx : ScanContext) :
    pack.execute ctx = ctx.settleDue (pack.due ctx) := by
  apply Pack.onPair_eq_settleDue
  intro cells t _ _
  split_ifs
  · rfl
  · exact Pack.writePattern_eq ctx t _

theorem PackWords.execute_eq_settleDue (pack : PackWords) (ctx : ScanContext) :
    pack.execute ctx = ctx.settleDue (pack.due ctx) := by
  apply Pack.onPair_eq_settleDue
  intro cells t _ _
  rcases cells.tags with _ | ⟨low, _ | ⟨high, _ | _⟩⟩
  · rfl
  · rfl
  · exact Pack.writePattern_eq ctx t _
  · rfl

theorem UnpackToBits.execute_eq_settleDue (unpack : UnpackToBits) (ctx : ScanContext) :
    unpack.execute ctx = ctx.settleDue (unpack.due ctx) := by
  apply Pack.onPair_eq_settleDue
  intro cells t _ _
  split_ifs
  · rfl
  · cases t.type.patternOf (ctx.read t) with
    | none => rfl
    | some pattern =>
      have hlength : cells.length = cells.tags.length := (List.length_map _).symm
      dsimp only
      rw [hlength, ← Pack.map_zip_toBits, ctx.settle_ok]

/-- The check of the words lets no cell through that could refuse its half. -/
theorem UnpackToWords.execute_eq_settleDue {unpack : UnpackToWords}
    (h : (Operation.unpackToWords unpack).Checked) (ctx : ScanContext) :
    unpack.execute ctx = ctx.settleDue (unpack.due ctx) := by
  apply Pack.onPair_eq_settleDue
  intro cells t hcells _
  have hnarrow : ∀ u ∈ cells.tags, u.type ∈ TagType.narrow := by
    intro u hu
    obtain ⟨_, _, h⟩ := bind_eq_ok.mp h
    obtain ⟨_, hexpect, _⟩ := bind_eq_ok.mp h
    rw [RangeRef.type_eq_of_hasCell (RangeRef.hasCell_of_resolve hcells u hu)]
    exact TagType.mem_of_expect hexpect
  rcases htags : cells.tags with _ | ⟨low, _ | ⟨high, _ | _⟩⟩
  · rfl
  · rfl
  · cases t.type.patternOf (ctx.read t) with
    | none => rfl
    | some pattern =>
      rw [htags] at hnarrow
      obtain ⟨v, hv⟩ := Pack.exists_valueOf_of_narrow (hnarrow low (by simp)) (pattern % 65536)
      obtain ⟨w, hw⟩ := Pack.exists_valueOf_of_narrow (hnarrow high (by simp)) (pattern / 65536)
      simp only [Pack.writePattern, Pack.duePattern, hv, hw]
      exact (ctx.settle_ok [(low, v), (high, w)]).symm
  · rfl

theorem PackText.execute_eq_settleDue (pack : PackText) (ctx : ScanContext) :
    pack.execute ctx = ctx.settleDue (pack.due ctx) := by
  apply Pack.onPair_eq_settleDue
  intro cells t _ _
  cases read? (cells.text ctx) t.type with
  | some v => rfl
  | none => rfl

namespace Bindings

variable {ctx : ScanContext}

theorem stage_eq (b : Bindings) (results : ValueMap) :
    b.stage ctx results = (b.outputs.filterMap fun (name, target) =>
      results[name]?.map fun value =>
        match target.resolve ctx with
        | some tag => tag.store value
        | none => .error .addressError).mapM id := by
  refine sequence_filterMap ?_ b.outputs
  rintro ⟨name, target⟩
  unfold stageOutput Tag.store
  dsimp only
  cases results[name]? with
  | none => rfl
  | some value =>
    dsimp only [Option.map_some, Option.elim]
    cases target.resolve ctx with
    | none => rfl
    | some tag =>
      dsimp only
      cases tag.type.storeCopy value <;> rfl

theorem call_eq_settle (b : Bindings) (function : ValueMap → ValueMap) (ctx : ScanContext) :
    b.call function ctx = ctx.settle (b.due function ctx) := by
  unfold call due
  cases b.gather ctx with
  | error e => rfl
  | ok inputs =>
    dsimp only
    rw [stage_eq]
    rfl

end Bindings

/-- How the execution of a transaction ends. -/
inductive Verdict where
  | refused (error : LadderError)
  | faulted (fault : Fault)
  | performed (writes : List (Tag × Value))

namespace Outcome

variable {ctx : ScanContext} {due : Except LadderError (List Pending)} {o : Outcome}

/-- The scan fails, and the context is as it was. -/
structure Refused (ctx : ScanContext) (due : Except LadderError (List Pending)) (o : Outcome)
    (error : LadderError) : Prop where
  cause : due = .error error
  exit : o.exit = .fail (.error error)
  context : o.context = ctx

/-- One fault that is due is raised. Its tag is all that changes. -/
structure Faulted (ctx : ScanContext) (due : Except LadderError (List Pending)) (o : Outcome)
    (fault : Fault) : Prop where
  cause : ∃ pending, due = .ok pending ∧ .error fault ∈ pending
  exit : o.exit = .proceed
  context : o.context = { ctx with
    tags := ctx.tags.insert fault.tagName (.bool true)
    notices := ctx.notices.push (.faultRaised ctx.state.scanId fault) }

/-- All that is due are writes. They are made one after the other, and no fault is raised. -/
structure Performed (ctx : ScanContext) (due : Except LadderError (List Pending)) (o : Outcome)
    (writes : List (Tag × Value)) : Prop where
  cause : due = .ok (writes.map .ok)
  exit : o.exit = .proceed
  context : o.context = { ctx with
    tags := writes.foldl (fun tags w => tags.insert w.1.name w.2) ctx.tags }

/-- The outcome is the one that the verdict tells. -/
def EndsAs (ctx : ScanContext) (due : Except LadderError (List Pending)) (o : Outcome) :
    Verdict → Prop
  | .refused e => o.Refused ctx due e
  | .faulted f => o.Faulted ctx due f
  | .performed writes => o.Performed ctx due writes

theorem settle_endsAs (ctx : ScanContext) (pending : List Pending) :
    ∃ verdict, (ctx.settle pending).proceed.EndsAs ctx (.ok pending) verdict := by
  cases h : pending.mapM id with
  | error f =>
    refine ⟨.faulted f, ⟨pending, rfl, mem_of_sequence_eq_error h⟩, rfl, ?_⟩
    rw [ScanContext.settle, h]
    rfl
  | ok writes =>
    obtain rfl := sequence_eq_ok_iff.mp h
    refine ⟨.performed writes, rfl, rfl, ?_⟩
    rw [ctx.settle_ok, ctx.writeAll_eq]
    rfl

theorem settleDue_endsAs (ctx : ScanContext) (due : Except LadderError (List Pending)) :
    ∃ verdict, (ctx.settleDue due).EndsAs ctx due verdict := by
  cases due with
  | error e => exact ⟨.refused e, rfl, rfl, rfl⟩
  | ok pending => exact settle_endsAs ctx pending

theorem Faulted.not_performed {f : Fault} {writes : List (Tag × Value)} (h : o.Faulted ctx due f) :
    ¬ o.Performed ctx due writes := by
  intro hwrites
  obtain ⟨pending, hpending, hmem⟩ := h.cause
  have heq : pending = writes.map .ok := Except.ok.inj (hpending.symm.trans hwrites.cause)
  rw [heq] at hmem
  obtain ⟨w, -, hw⟩ := List.mem_map.mp hmem
  cases hw

theorem Faulted.unique {f g : Fault} (hf : o.Faulted ctx due f) (hg : o.Faulted ctx due g) :
    f = g := by
  have hpush := congrArg ScanContext.notices (hf.context.symm.trans hg.context)
  exact (Notice.faultRaised.inj (Array.push_inj_right.mp hpush)).2

/-- No outcome can be told in two ways. -/
theorem EndsAs.unique {v w : Verdict} (hv : o.EndsAs ctx due v) (hw : o.EndsAs ctx due w) :
    v = w := by
  cases v with
  | refused e =>
    have hdue := hv.cause
    cases w with
    | refused d => exact congrArg Verdict.refused (Except.error.inj (hdue.symm.trans hw.cause))
    | faulted f =>
      obtain ⟨pending, hpending, -⟩ := hw.cause
      cases hdue.symm.trans hpending
    | performed writes => cases hdue.symm.trans hw.cause
  | faulted f =>
    cases w with
    | refused e =>
      obtain ⟨pending, hpending, -⟩ := hv.cause
      cases hpending.symm.trans hw.cause
    | faulted g => exact congrArg Verdict.faulted (Faulted.unique hv hw)
    | performed writes => exact absurd hw hv.not_performed
  | performed writes =>
    cases w with
    | refused e => cases hv.cause.symm.trans hw.cause
    | faulted f => exact absurd hv hw.not_performed
    | performed others =>
      have heq : writes.map .ok = others.map (.ok : _ → Pending) :=
        Except.ok.inj (hv.cause.symm.trans hw.cause)
      exact congrArg Verdict.performed (List.map_injective_iff.mpr (fun _ _ => Except.ok.inj) heq)

end Outcome

namespace Operation

/-- A transaction settles what is due. -/
theorem execute_eq_settleDue {op : Operation} (htransaction : op.IsTransaction)
    (hchecked : op.Checked) (subroutines : Subroutines) (id : InstructionId) (enabled : Bool)
    (ctx : ScanContext) :
    op.execute subroutines id enabled ctx = ctx.settleDue (op.due enabled ctx) := by
  cases op with
  | out op => exact op.target.drive_eq_settleDue _ ctx
  | latch op => exact op.target.drive_eq_settleDue _ ctx
  | reset op => exact op.target.drive_eq_settleDue _ ctx
  | copy op => exact op.execute_eq_settleDue ctx
  | blockCopy op => exact op.execute_eq_settleDue ctx
  | fill op => exact op.execute_eq_settleDue ctx
  | search op => exact op.execute_eq_settleDue ctx
  | packBits op => exact op.execute_eq_settleDue ctx
  | packWords op => exact op.execute_eq_settleDue ctx
  | unpackToBits op => exact op.execute_eq_settleDue ctx
  | unpackToWords op => exact UnpackToWords.execute_eq_settleDue hchecked ctx
  | packText op => exact op.execute_eq_settleDue ctx
  | runFunction op => exact congrArg ScanContext.proceed (op.bindings.call_eq_settle _ ctx)
  | runEnabledFunction op => exact congrArg ScanContext.proceed (op.bindings.call_eq_settle _ ctx)
  | _ => exact htransaction.elim

/-- A transaction is refused and leaves everything as it was, or it raises one fault and does
nothing else, or it makes all the writes that are due; and it is never two of these. -/
theorem endsAs_once {op : Operation} (htransaction : op.IsTransaction) (hchecked : op.Checked)
    (subroutines : Subroutines) (id : InstructionId) (enabled : Bool) (ctx : ScanContext) :
    ∃! verdict,
      (op.execute subroutines id enabled ctx).EndsAs ctx (op.due enabled ctx) verdict := by
  rw [execute_eq_settleDue htransaction hchecked]
  obtain ⟨verdict, h⟩ := Outcome.settleDue_endsAs ctx (op.due enabled ctx)
  exact ⟨verdict, h, fun _ hother => hother.unique h⟩

end Operation

/-! The first of two characters is a digit, the second is none. -/

namespace Sample

def letters : Block := ⟨"TXT", .char, 1, 2, none, none, true, .text ""⟩

def digits : Block := ⟨"DS", .int, 1, 2, none, none, true, .int 0⟩

def convert : Operation :=
  .blockCopy ⟨.direct letters.all, .direct digits.all, some .asValue⟩

def typed : ScanContext :=
  .start { SystemState.empty with
    tags := .ofEntries [("TXT1", .text "7"), ("TXT2", .text "x"), ("DS1", .int 3)] } ∅

def convertOnce : Outcome := convert.execute (fun _ ctx => ctx.proceed) 0 true typed

end Sample

/-- The digit is not written either. -/
theorem Operation.endsAs_once_sample :
    Sample.convert.Checked ∧
      (∃! verdict, Sample.convertOnce.EndsAs Sample.typed (Sample.convert.due true Sample.typed)
        verdict) ∧
      Sample.convertOnce.context.tag? "DS1" = some (.int 3) := by
  have htransaction : Sample.convert.IsTransaction := trivial
  have hchecked : Sample.convert.Checked := rfl
  exact ⟨hchecked, endsAs_once htransaction hchecked _ 0 true Sample.typed, rfl⟩

end LadderLogic
