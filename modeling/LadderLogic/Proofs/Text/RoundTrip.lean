import LadderLogic.Proofs.Block.Names
import LadderLogic.Proofs.Effect.Transaction
import LadderLogic.Proofs.Scan.Lookup

/-!
Numbers in CHAR cells. A number that has been copied as text into blank cells is read back from
them, by the instruction that packs text and by the copy that takes it as a value. One whose text
does not fit leaves them alone.
-/

set_option autoImplicit false

namespace LadderLogic

variable {ctx mid : ScanContext} {cells : BlockRange}

theorem ScanContext.notices_writeAll (ctx : ScanContext) (writes : List (Tag × Value)) :
    (ctx.writeAll writes).notices = ctx.notices := by
  induction writes generalizing ctx with
  | nil => rfl
  | cons w writes ih => exact ih (ctx.write w.1 w.2)

namespace BlockRange

/-- What a value adds to the text of a range. -/
def letters (v : Value) : List Char := (v.toText?.getD "").toList

theorem text_eq (cells : BlockRange) (ctx : ScanContext) :
    cells.text ctx = cells.tags.flatMap fun t => letters (ctx.read t) := rfl

theorem flatMap_letters (cs : List Char) :
    (cs.map fun c => Value.text (String.singleton c)).flatMap letters = cs := by
  induction cs with
  | nil => rfl
  | cons c cs ih =>
    rw [List.map_cons, List.flatMap_cons, ih]
    simp [letters, Value.toText?]

/-- The writes that put letters into the first cells of a range. -/
def spelled (cells : BlockRange) (cs : List Char) : List (Tag × Value) :=
  (cells.tags.take cs.length).zip (cs.map fun c => .text (String.singleton c))

/-- Text that is written into the first cells of a blank range is all the text of the range. -/
theorem text_writeAll_spelled (hnames : (cells.tags.map Tag.name).Nodup)
    (hblank : cells.text ctx = []) {cs : List Char} (hfits : cs.length ≤ cells.length) :
    cells.text (ctx.writeAll (cells.spelled cs)) = cs := by
  let front := cells.tags.take cs.length
  let back := cells.tags.drop cs.length
  let values := cs.map fun c => Value.text (String.singleton c)
  have hsplit : cells.tags = front ++ back := (List.take_append_drop cs.length cells.tags).symm
  have hlength : values.length = front.length := by simp [values, front, hfits]
  rw [hsplit, List.map_append, List.nodup_append] at hnames
  obtain ⟨hfront, -, hapart⟩ := hnames
  rw [text_eq, hsplit, List.flatMap_append, List.append_eq_nil_iff] at hblank
  let mid := ctx.writeAll (front.zip values)
  have hwritten : front.flatMap (fun t => letters (mid.read t)) = cs := by
    rw [← List.flatMap_map, ctx.read_writeAll_zip hfront hlength, flatMap_letters]
  have hrest : ∀ t ∈ back, mid.read t = ctx.read t := by
    intro t ht
    apply ScanContext.read_congr
    apply ScanContext.tag?_writeAll_of_ne
    intro w hw
    exact hapart _ (List.mem_map_of_mem (List.of_mem_zip hw).1) _ (List.mem_map_of_mem ht)
  have hstillBlank : back.flatMap (fun t => letters (mid.read t)) = [] := by
    rw [← hblank.2]
    apply List.flatMap_congr
    intro t ht
    rw [hrest t ht]
  show cells.text mid = cs
  rw [text_eq, hsplit, List.flatMap_append, hwritten, hstillBlank, List.append_nil]

end BlockRange

namespace SingleCopy

theorem fillCells_eq_zip {tags : List Tag} {cs : List Char} (h : tags.length = cs.length) :
    fillCells tags cs = tags.zip (cs.map fun c => .text (String.singleton c)) := by
  induction tags generalizing cs with
  | nil => rfl
  | cons t tags ih =>
    obtain ⟨c, cs, rfl⟩ := List.exists_cons_of_length_eq_add_one h.symm
    rw [fillCells, ih (Nat.succ.inj h), List.map_cons, List.zip_cons_cons]

variable {number : Expression} {range : RangeRef} {type : TagType} {i : Int}

/-- An expression that refers to a cell of an integral type, which holds a number of its domain,
and blank cells to write the number into. -/
structure Spells (number : Expression) (range : RangeRef) (ctx : ScanContext) (type : TagType)
    (i : Int) (cells : BlockRange) : Prop where
  integral : type.isInteger = true
  type_eq : number.staticType? = some type
  value_eq : number.evaluate ctx = .ok (.int i)
  holds : type.Holds (.int i)
  made : range.Made
  cells_eq : range.resolve ctx = .ok (some cells)
  blank : cells.text ctx = []

/-- The copy as text writes the letters that the number is rendered as, or refuses them all. -/
theorem execute_asText (h : Spells number range ctx type i cells) {suppressZero : Bool}
    {cs : List Char} (hrender : Conversion.render? (.int i) (some type) suppressZero = some cs) :
    SingleCopy.execute ⟨.value number, .range range, some (.asText suppressZero)⟩ ctx =
      (if cs.length ≤ cells.length then ctx.writeAll (cells.spelled cs)
        else ctx.raise .outOfRange).proceed := by
  have hstage : stage ⟨.value number, .range range, some (.asText suppressZero)⟩ ctx =
      .ok (if cells.length < cs.length then .error .outOfRange
        else .ok (fillCells (cells.tags.take cs.length) cs)) := by
    simp only [stage, sourceValue, h.value_eq, h.cells_eq, spreadText, sourceType?, h.type_eq,
      hrender, Except.mapError, bind, Except.bind, pure, Except.pure]
  rw [execute, hstage]
  by_cases hfits : cs.length ≤ cells.length
  · have hlength : (cells.tags.take cs.length).length = cs.length := by simp [hfits]
    rw [if_pos hfits, if_neg (not_lt.mpr hfits), fillCells_eq_zip hlength]
    rfl
  · rw [if_neg hfits, if_pos (not_le.mp hfits)]
    rfl

/-- Read back as text or as a value into any tag of the type, the cells give the number. A WORD is
read as text only. -/
def ReadsBack (cells : BlockRange) (mid : ScanContext) (type : TagType) (i : Int) : Prop :=
  ∀ {back : RangeRef} {target : TagRef} {t : Tag}, back.resolve mid = .ok (some cells) →
    target.resolve mid = some t → t.type = type →
    PackText.execute ⟨back, target⟩ mid = (mid.write t (.int i)).proceed ∧
      (type ≠ .word → SingleCopy.execute ⟨.range back, .tag target, some .asValue⟩ mid =
        (mid.write t (.int i)).proceed)

/-- A cell takes over a number of its domain as it is. -/
theorem storeExact_of_holds {t : Tag} (hintegral : t.type.isInteger = true)
    (hholds : t.type.Holds (.int i)) : t.storeExact i = .ok (t, .int i) := by
  obtain ⟨name, type, initial, retentive⟩ := t
  cases type with
  | bool | real | char => cases hintegral
  | int | dint | word =>
    obtain ⟨hlow, hhigh⟩ := hholds
    simp only [Tag.storeExact, TagType.bounds?, Tag.store, TagType.storeCopy,
      TagType.copyInteger?, Option.map_some, Integer.clamp]
    rw [if_neg (by omega), if_neg (by omega), if_neg (by omega)]

/-- A range that is copied as a value stores the number that its cells write together. -/
theorem stage_asValue {source : RangeRef} {target : TagRef} {t : Tag}
    (hcells : source.resolve ctx = .ok (some cells)) (ht : target.resolve ctx = some t) :
    stage ⟨.range source, .tag target, some .asValue⟩ ctx =
      .ok ((match Conversion.signedDecimal? (cells.text ctx) with
        | some i => t.storeExact i
        | none => .error .outOfRange).map fun write => [write]) := by
  cases hread : Conversion.signedDecimal? (cells.text ctx) <;>
    simp [stage, sourceValue, hcells, ht, convertScalar, Value.toText?, Except.map, bind,
      Except.bind, pure, Except.pure, hread]

theorem readsBack_of_text (hintegral : type.isInteger = true) (hholds : type.Holds (.int i))
    (hread : PackText.read? (cells.text mid) type = some (.int i))
    (hsigned : type ≠ .word → Conversion.signedDecimal? (cells.text mid) = some i) :
    ReadsBack cells mid type i := by
  intro back target t hcells ht htype
  subst htype
  constructor
  · rw [PackText.execute, Pack.onPair_of_resolve hcells ht]
    simp only [hread]
  · intro hword
    rw [execute, stage_asValue hcells ht, hsigned hword]
    simp only [storeExact_of_holds hintegral hholds]
    rfl

/-- A number that fits the cells as text is had back from them, and no fault is raised. One that
does not fit raises the fault, and no cell changes. -/
theorem written_and_read (h : Spells number range ctx type i cells) (suppressZero : Bool) :
    ∃ cs, Conversion.render? (.int i) (some type) suppressZero = some cs ∧
      (cs.length ≤ cells.length →
        ∃ mid : ScanContext,
          SingleCopy.execute ⟨.value number, .range range, some (.asText suppressZero)⟩ ctx =
            mid.proceed ∧
          mid.notices = ctx.notices ∧ (∀ f, mid.faultActive f = ctx.faultActive f) ∧
          ReadsBack cells mid type i) ∧
      (cells.length < cs.length →
        SingleCopy.execute ⟨.value number, .range range, some (.asText suppressZero)⟩ ctx =
          (ctx.raise .outOfRange).proceed ∧
        ∀ t ∈ cells.tags, (ctx.raise .outOfRange).tag? t.name = ctx.tag? t.name) := by
  obtain ⟨cs, hrender, hread, hsigned⟩ := Conversion.read?_render? h.integral h.holds suppressZero
  refine ⟨cs, hrender, ?_, ?_⟩
  · intro hfits
    have hnames := RangeRef.nodup_names_of_resolve h.made h.cells_eq
    have htext : cells.text (ctx.writeAll (cells.spelled cs)) = cs :=
      BlockRange.text_writeAll_spelled hnames h.blank hfits
    refine ⟨ctx.writeAll (cells.spelled cs), ?_, ctx.notices_writeAll _, ?_, ?_⟩
    · rw [execute_asText h hrender, if_pos hfits]
    · intro f
      have hfault : (ctx.writeAll (cells.spelled cs)).tag? f.tagName = ctx.tag? f.tagName := by
        apply ScanContext.tag?_writeAll_of_ne
        intro w hw
        exact BlockRange.name_ne_tagName (List.mem_of_mem_take (List.of_mem_zip hw).1) f
      unfold ScanContext.faultActive
      rw [hfault]
    · apply readsBack_of_text h.integral h.holds
      · rw [htext, hread]
      · rwa [htext]
  · intro hlong
    rw [execute_asText h hrender, if_neg (not_le.mpr hlong)]
    refine ⟨rfl, ?_⟩
    intro t ht
    unfold ScanContext.raise
    rw [ScanContext.tag?_setTag, if_neg (BlockRange.name_ne_tagName ht .outOfRange)]
    rfl

end SingleCopy

namespace Sample

def sixLetters : BlockRange := Block.all ⟨"MSG", .char, 1, 6, none, none, true, .text ""⟩

def fiveLetters : BlockRange := Block.all ⟨"TXT", .char, 1, 5, none, none, true, .text ""⟩

def offset : Tag := .ofType .int "Offset"

def measured : ScanContext := .start (.ofTags (.ofEntries [("Offset", .int (-123))])) ∅

theorem spells_offset {b : Block} (h : b.all.text measured = []) :
    SingleCopy.Spells (.tag offset) (.direct b.all) measured .int (-123) b.all where
  integral := rfl
  type_eq := rfl
  value_eq := rfl
  holds := by decide
  made := .all b
  cells_eq := rfl
  blank := h

end Sample

/-- The sign needs a cell of its own beside the five digits. -/
theorem SingleCopy.written_and_read_sample :
    (∃ mid : ScanContext,
      SingleCopy.execute ⟨.value (.tag Sample.offset), .range (.direct Sample.sixLetters),
        some (.asText false)⟩ Sample.measured = mid.proceed ∧
      ReadsBack Sample.sixLetters mid .int (-123)) ∧
    SingleCopy.execute ⟨.value (.tag Sample.offset), .range (.direct Sample.fiveLetters),
      some (.asText false)⟩ Sample.measured = (Sample.measured.raise .outOfRange).proceed := by
  have hrendered :
      Conversion.render? (.int (-123)) (some .int) false = some "-00123".toList := by decide
  have hsix : Spells (.tag Sample.offset) (.direct Sample.sixLetters) Sample.measured .int (-123)
      Sample.sixLetters := Sample.spells_offset rfl
  have hfive : Spells (.tag Sample.offset) (.direct Sample.fiveLetters) Sample.measured .int (-123)
      Sample.fiveLetters := Sample.spells_offset rfl
  obtain ⟨cs, hrender, hfits, -⟩ := written_and_read hsix false
  obtain ⟨ds, hrender', -, hlong⟩ := written_and_read hfive false
  obtain rfl : "-00123".toList = cs := Option.some.inj (hrendered.symm.trans hrender)
  obtain rfl : "-00123".toList = ds := Option.some.inj (hrendered.symm.trans hrender')
  obtain ⟨mid, hexecute, -, -, hread⟩ := hfits (by decide)
  exact ⟨⟨mid, hexecute, hread⟩, (hlong (by decide)).1⟩

end LadderLogic
