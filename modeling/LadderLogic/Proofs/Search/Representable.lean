import LadderLogic.Proofs.Effect.Coil
import LadderLogic.Proofs.Search.Continuous

/-!
What a search reports. A hit is written to the result tag as the address it is, so the result lies
in the domain of the tag, and apart from the codes of the cursor, where the block has only such
addresses, and nowhere else.
-/

set_option autoImplicit false

namespace LadderLogic

/-- A made range consists of cells that its block has. -/
theorem BlockRange.Made.contains {range : BlockRange} (h : range.Made) :
    ∀ a ∈ range.addresses, range.block.contains a = true := by
  induction h with
  | @select b first last range hselect =>
    unfold Block.select at hselect
    split_ifs at hselect
    cases hselect
    exact fun a ha => RangeRef.contains_of_mem_addressesBetween ha
  | all b => exact fun a ha => RangeRef.contains_of_mem_addressesBetween ha
  | reverse _ ih => exact fun a ha => ih a (List.mem_reverse.mp ha)

theorem RangeRef.Made.contains {r : RangeRef} (h : r.Made) {a : Int} (ha : r.HasAddress a) :
    r.block.contains a = true := by
  cases r with
  | direct range => exact BlockRange.Made.contains h a ha
  | indirect b first last reversed => exact ha

namespace Block

variable {b : Block} {a : Int}

theorem select_self (h : b.contains a = true) : b.select a a = .ok ⟨b, [a], false⟩ := by
  obtain ⟨hfirst, hlast⟩ := bounds_of_contains h
  have hlow : max a b.first = a := by omega
  have hhigh : min a b.last = a := by omega
  have hbounds : ¬ (a < b.first ∨ b.last < a) := by omega
  rw [select, if_neg (lt_irrefl a), if_neg hbounds, if_neg hbounds, addressesBetween, hlow, hhigh]
  simp [interval, h]

end Block

namespace Search

variable {search : Search} {b : Block} {t : TagType} {ctx : ScanContext} {a : Int}

/-- The checks let the search through. It searches the block, and its result has the type. -/
structure Accepted (search : Search) (b : Block) (t : TagType) : Prop where
  checked : (Operation.search search).Checked
  made : search.range.Made
  block : search.range.block = b
  result : search.result.type = t

/-- An execution finds a match at the address. -/
def Finds (search : Search) (ctx : ScanContext) (a : Int) : Prop :=
  ∃ cells addresses, search.range.resolve ctx = .ok (some cells) ∧
    search.remaining? cells ctx = some addresses ∧
    search.hit cells.block addresses ctx = .ok (some a)

/-- The address is in the domain of the type, and neither of the codes of a cursor. -/
structure Representable (t : TagType) (a : Int) : Prop where
  holds : t.Holds (.int a)
  restart : a ≠ 0
  exhausted : a ≠ -1

instance (t : TagType) (a : Int) : Decidable (Representable t a) :=
  decidable_of_iff (t.Holds (.int a) ∧ a ≠ 0 ∧ a ≠ -1)
    ⟨fun ⟨holds, restart, exhausted⟩ => ⟨holds, restart, exhausted⟩,
      fun ⟨holds, restart, exhausted⟩ => ⟨holds, restart, exhausted⟩⟩

/-- The address is written without a look at the domain of the result. -/
theorem execute_of_finds (h : search.Finds ctx a) :
    search.execute ctx =
      ((ctx.write search.result (.int a)).write search.found (.bool true)).proceed := by
  obtain ⟨cells, addresses, hcells, hremaining, hhit⟩ := h
  simp only [execute, RangeRef.onCells, hcells, run, hremaining, hhit]
  rfl

theorem contains_of_finds (hmade : search.range.Made) (h : search.Finds ctx a) :
    search.range.block.contains a = true := by
  obtain ⟨cells, addresses, hcells, hremaining, hhit⟩ := h
  have hmem : a ∈ cells.addresses := mem_of_remaining? hremaining (mem_of_hit hhit)
  exact hmade.contains ((RangeRef.hasAddress_of_resolve hcells).2 a hmem)

/-- A search of one cell. -/
def ofCell (b : Block) (a : Int) (pattern : SearchPattern) (t : TagType) : Search :=
  ⟨.direct ⟨b, [a], false⟩, pattern, .ofType t "At", .ofType .bool "Hit", false⟩

theorem accepted_ofCell {pattern : SearchPattern} (ht : t ∈ [.int, .dint])
    (ha : b.contains a = true)
    (hpattern : (∃ i, pattern = .number .eq (.literal (.int i)) ∧ b.type.isNumeric = true) ∨
      ∃ text, pattern = .text .eq text ∧ isPattern text = true ∧ b.type = .char) :
    (ofCell b a pattern t).Accepted b t where
  checked := by
    have hcounter : (Tag.ofType t "At").expectCounter = .ok () := if_pos ht
    have hbool : (Tag.ofType .bool "Hit").expectBool = .ok () := rfl
    rcases hpattern with ⟨i, rfl, hnumeric⟩ | ⟨text, rfl, htext, hchar⟩
    · simp [Operation.Checked, make, ofCell, hcounter, hbool, RangeRef.type, RangeRef.block,
        hnumeric, Expression.isNumeric, Value.isNumeric, bind, Except.bind, pure, Except.pure]
    · simp [Operation.Checked, make, ofCell, hcounter, hbool, RangeRef.expect, RangeRef.type,
        RangeRef.block, TagType.expect, hchar, htext, Comparison.isEquality, bind, Except.bind,
        pure, Except.pure]
  made := .select (Block.select_self ha)
  block := rfl
  result := rfl

theorem finds_number {i : Int} (hread : ctx.read (b.cell a) = .int i) (t : TagType) :
    (ofCell b a (.number .eq (.literal (.int i))) t).Finds ctx a := by
  have hmatch : Comparison.apply .eq (.int i) (.int i) = some true := by
    simp [Comparison.apply, Comparison.compareValue?, Value.toInt?, Comparison.holds]
  have hhit : (ofCell b a (.number .eq (.literal (.int i))) t).hit b [a] ctx = .ok (some a) := by
    simp [hit, ofCell, Expression.evaluate, hread, hmatch]
  exact ⟨⟨b, [a], false⟩, [a], rfl, rfl, hhit⟩

theorem finds_text (hread : ctx.read (b.cell a) = .text "x") (t : TagType) :
    (ofCell b a (.text .eq "x") t).Finds ctx a := by
  have hhit : (ofCell b a (.text .eq "x") t).hit b [a] ctx = .ok (some a) := by
    simp only [hit, ofCell, List.map_cons, List.map_nil, hread]
    rfl
  exact ⟨⟨b, [a], false⟩, [a], rfl, rfl, hhit⟩

/-- Every cell that a search is let to can be hit. -/
theorem exists_finds (hb : b.type ≠ .bool) (ht : t ∈ [.int, .dint]) (ha : b.contains a = true) :
    ∃ (search : Search) (ctx : ScanContext), search.Accepted b t ∧ search.Finds ctx a := by
  have hread : ∀ v, ((ScanContext.start SystemState.empty ∅).write (b.cell a) v).read (b.cell a) =
      v := ScanContext.read_write_self _ _
  by_cases hchar : b.type = .char
  · exact ⟨_, _, accepted_ofCell ht ha (.inr ⟨"x", rfl, by decide, hchar⟩),
      finds_text (hread (.text "x")) t⟩
  · have hnumeric : b.type.isNumeric = true := by
      revert hb hchar
      cases b.type <;> decide
    exact ⟨_, _, accepted_ofCell ht ha (.inl ⟨0, rfl, hnumeric⟩), finds_number (hread (.int 0)) t⟩

/-- What a search writes for a hit is the address. All searches of a block with such a result report
only what can be represented, if and only if the block has no other addresses. -/
theorem reports_representable_iff (hb : b.type ≠ .bool) (ht : t ∈ [.int, .dint]) :
    (∀ (search : Search) (ctx : ScanContext) (a : Int), search.Accepted b t →
      search.Finds ctx a → search.execute ctx =
        ((ctx.write search.result (.int a)).write search.found (.bool true)).proceed) ∧
    ((∀ (search : Search) (ctx : ScanContext) (a : Int), search.Accepted b t →
      search.Finds ctx a → Representable t a) ↔ ∀ a, b.contains a = true → Representable t a) := by
  refine ⟨fun search ctx a _ hfinds => execute_of_finds hfinds, ?_, ?_⟩
  · intro hreports a ha
    obtain ⟨search, ctx, haccepted, hfinds⟩ := exists_finds hb ht ha
    exact hreports search ctx a haccepted hfinds
  · intro hblock search ctx a haccepted hfinds
    exact hblock a (haccepted.block ▸ contains_of_finds haccepted.made hfinds)

end Search

namespace Sample

/-- A block that goes further down and up than an INT result can tell. -/
def longRow : Block := ⟨"DS", .int, -1, 40000, none, none, true, .int 0⟩

def sevenAt (a : Int) : Search := .ofCell longRow a (.number .eq (.literal (.int 7))) .int

def sevenIn (a : Int) : ScanContext :=
  (ScanContext.start SystemState.empty ∅).write (longRow.cell a) (.int 7)

end Sample

/-- In a block of the addresses one to five every hit can be told from the codes. -/
theorem Search.reports_representable_iff_sample :
    Sample.readings.type ≠ .bool ∧ TagType.int ∈ [TagType.int, .dint] ∧
      (Search.ofCell Sample.readings 4 (.number .eq (.literal (.int 7))) .int).Finds
        Sample.readingsTaken 4 ∧
      Representable .int 4 := by
  have hb : Sample.readings.type ≠ .bool := by decide
  have ht : TagType.int ∈ [TagType.int, .dint] := by decide
  have hread : Sample.readingsTaken.read (Sample.readings.cell 4) = .int 7 := rfl
  have hblock : ∀ a, Sample.readings.contains a = true → Representable .int a := by
    intro a ha
    have hbounds : 1 ≤ a ∧ a ≤ 5 := Block.bounds_of_contains ha
    exact ⟨⟨by omega, by omega⟩, by omega, by omega⟩
  have haccepted := accepted_ofCell ht (show Sample.readings.contains 4 = true by decide)
    (.inl ⟨7, rfl, rfl⟩)
  exact ⟨hb, ht, finds_number hread .int,
    (reports_representable_iff hb ht).2.mpr hblock _ _ 4 haccepted (finds_number hread .int)⟩

/-- Hits at the addresses -1 and 0 are written as the codes of the cursor, and one behind the domain
of INT is written as it is. -/
theorem Search.exists_unrepresentable_hit :
    Block.make "DS" .int (-1) 40000 = .ok Sample.longRow ∧
      ∀ a ∈ [-1, 0, 40000], (Sample.sevenAt a).Accepted Sample.longRow .int ∧
        (Sample.sevenAt a).Finds (Sample.sevenIn a) a ∧
        ((Sample.sevenAt a).execute (Sample.sevenIn a)).context.tag? "At" = some (.int a) ∧
        ¬ Representable .int a := by
  have hcontains : ∀ a ∈ [-1, 0, 40000], Sample.longRow.contains a = true := by decide
  have hnot : ∀ a ∈ [-1, 0, 40000], ¬ Representable .int a := by decide
  refine ⟨rfl, fun a ha => ?_⟩
  have hfinds : (Sample.sevenAt a).Finds (Sample.sevenIn a) a :=
    finds_number (ScanContext.read_write_self _ _ _) .int
  refine ⟨accepted_ofCell (by decide) (hcontains a ha) (.inl ⟨7, rfl, rfl⟩), hfinds, ?_, hnot a ha⟩
  rw [execute_of_finds hfinds]
  exact (ScanContext.tag?_write_of_ne (show "Hit" ≠ "At" by decide) _).trans
    (ScanContext.tag?_write_self _ _ _)

end LadderLogic
