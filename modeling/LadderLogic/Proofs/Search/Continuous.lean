import LadderLogic.Proofs.Scan.Lookup
import LadderLogic.Proofs.Search.Order

/-!
Continuous searches. The places of a range at which a match starts are defined beside the search;
one activation after the other reports them, and none after the last.
-/

set_option autoImplicit false

namespace LadderLogic

namespace Search

/-- Whether a match starts at the first of the addresses, which are those of a range from a place
on. -/
def startsMatch (search : Search) (block : Block) (ctx : ScanContext) : List Int → Bool
  | [] => false
  | a :: rest =>
    match search.pattern with
    | .number op value =>
      match value.evaluate ctx with
      | .ok wanted => op.apply (ctx.read (block.cell a)) wanted == some true
      | .error _ => false
    | .text op text =>
      let window := ((a :: rest).take text.toList.length).map fun b =>
        (ctx.read (block.cell b)).firstChar?
      window.length == text.toList.length && (window == text.toList.map some) == (op == .eq)

/-- The addresses at which a match starts, in the order of the range. -/
def places (search : Search) (block : Block) (ctx : ScanContext) (addresses : List Int) :
    List Int :=
  (addresses.tails.filter (search.startsMatch block ctx)).filterMap List.head?

/-- What an activation tells of a hit. -/
structure Reports (search : Search) (hit : Option Int) (o : Outcome) : Prop where
  exit : o.exit = .proceed
  result : o.context.tag? search.result.name = some (.int (hit.getD (-1)))
  found : o.context.tag? search.found.name = some (.bool hit.isSome)

/-- The range means these cells, they hold what they held in the first context, and the value is the
one of the first context. -/
structure Steady (search : Search) (cells : BlockRange) (first ctx : ScanContext) : Prop where
  range : search.range.resolve ctx = .ok (some cells)
  reads : ∀ a ∈ cells.addresses,
    ctx.read (cells.block.cell a) = first.read (cells.block.cell a)
  value : ∀ op value, search.pattern = .number op value →
    ∃ wanted, value.evaluate first = .ok wanted ∧ value.evaluate ctx = .ok wanted

/-- Activations over steady cells, counted from zero. The first finds zero in the result; each later
one finds the result as the activation before has left it. -/
inductive Activation (search : Search) (cells : BlockRange) (first : ScanContext) :
    Nat → ScanContext → Prop
  | start : search.Steady cells first first → first.readInt search.result = 0 →
    Activation search cells first 0 first
  | next {k : Nat} {last : ScanContext} (ctx : ScanContext) :
    Activation search cells first k last → search.Steady cells first ctx →
    ctx.tag? search.result.name = (search.execute last).context.tag? search.result.name →
    Activation search cells first (k + 1) ctx

variable {search : Search} {block : Block} {cells : BlockRange} {first ctx : ScanContext}

theorem places_cons (search : Search) (block : Block) (ctx : ScanContext) (a : Int)
    (rest : List Int) :
    search.places block ctx (a :: rest) =
      if search.startsMatch block ctx (a :: rest) then a :: search.places block ctx rest
      else search.places block ctx rest := by
  unfold places
  rw [List.tails_cons, List.filter_cons]
  split_ifs <;> rfl

/-- A search for a number finds the cells that compare so with it. -/
theorem places_number {op : Comparison} {value : Expression} {wanted : Value}
    (hpattern : search.pattern = .number op value) (hvalue : value.evaluate ctx = .ok wanted)
    (addresses : List Int) :
    search.places block ctx addresses =
      addresses.filter fun a => op.apply (ctx.read (block.cell a)) wanted == some true := by
  induction addresses with
  | nil => rfl
  | cons a rest ih =>
    rw [places_cons, ih, List.filter_cons]
    simp only [startsMatch, hpattern, hvalue]

theorem places_sublist (search : Search) (block : Block) (ctx : ScanContext)
    (addresses : List Int) : (search.places block ctx addresses).Sublist addresses := by
  induction addresses with
  | nil => exact List.Sublist.slnil
  | cons a rest ih =>
    rw [places_cons]
    split_ifs
    · exact ih.cons_cons a
    · exact ih.cons a

/-- Behind its first place the range goes on with the other places. -/
theorem exists_split_of_places {addresses : List Int} {a : Int} {later : List Int}
    (h : search.places block ctx addresses = a :: later) :
    ∃ before rest, addresses = before ++ a :: rest ∧ search.places block ctx rest = later := by
  induction addresses with
  | nil => cases h
  | cons b addresses ih =>
    rw [places_cons] at h
    split_ifs at h
    · obtain ⟨rfl, hrest⟩ := List.cons.inj h
      exact ⟨[], addresses, rfl, hrest⟩
    · obtain ⟨before, rest, rfl, hrest⟩ := ih h
      exact ⟨b :: before, rest, rfl, hrest⟩

theorem startsMatch_congr (hsteady : search.Steady cells first ctx) {addresses : List Int}
    (hsub : addresses ⊆ cells.addresses) :
    search.startsMatch cells.block ctx addresses =
      search.startsMatch cells.block first addresses := by
  cases addresses with
  | nil => rfl
  | cons a rest =>
    have hreads : ∀ b ∈ a :: rest, ctx.read (cells.block.cell b) =
        first.read (cells.block.cell b) := fun b hb => hsteady.reads b (hsub hb)
    unfold startsMatch
    cases hpattern : search.pattern with
    | number op value =>
      obtain ⟨wanted, hfirst, hnow⟩ := hsteady.value op value hpattern
      dsimp only
      rw [hfirst, hnow, hreads a List.mem_cons_self]
    | text op text =>
      have hwindow : ((a :: rest).take text.toList.length).map (fun b =>
            (ctx.read (cells.block.cell b)).firstChar?) =
          ((a :: rest).take text.toList.length).map fun b =>
            (first.read (cells.block.cell b)).firstChar? :=
        List.map_congr_left fun b hb =>
          congrArg Value.firstChar? (hreads b (List.mem_of_mem_take hb))
      dsimp only
      rw [hwindow]

theorem places_congr (hsteady : search.Steady cells first ctx) {addresses : List Int}
    (hsub : addresses ⊆ cells.addresses) :
    search.places cells.block ctx addresses = search.places cells.block first addresses := by
  induction addresses with
  | nil => rfl
  | cons a rest ih =>
    rw [places_cons, places_cons, startsMatch_congr hsteady hsub,
      ih fun b hb => hsub (List.mem_cons_of_mem a hb)]

/-- Where less than the text is left of a range no match starts. -/
theorem places_of_short {op : Comparison} {text : String}
    (hpattern : search.pattern = .text op text) {addresses : List Int}
    (hshort : addresses.length < text.toList.length) :
    search.places block ctx addresses = [] := by
  induction addresses with
  | nil => rfl
  | cons a rest ih =>
    have hstarts : search.startsMatch block ctx (a :: rest) = false := by
      simp only [startsMatch, hpattern]
      rw [Bool.and_eq_false_iff]
      left
      rw [beq_eq_false_iff_ne, List.length_map, List.length_take]
      omega
    rw [places_cons, hstarts]
    exact ih (by rw [List.length_cons] at hshort; omega)

theorem findWindow_eq {op : Comparison} {text : String} (hpattern : search.pattern = .text op text)
    (addresses : List Int) :
    findWindow text.toList (op == .eq)
        (addresses.map fun a => (a, (ctx.read (block.cell a)).firstChar?)) =
      (search.places block ctx addresses).head? := by
  induction addresses with
  | nil => rfl
  | cons a rest ih =>
    have hwindow : ((ctx.read (block.cell a)).firstChar? ::
          (rest.map fun b => (b, (ctx.read (block.cell b)).firstChar?)).map Prod.snd).take
            text.toList.length =
        ((a :: rest).take text.toList.length).map fun b =>
          (ctx.read (block.cell b)).firstChar? := by
      rw [List.map_take, List.map_map]
      rfl
    have hstarts : search.startsMatch block ctx (a :: rest) =
        ((((a :: rest).take text.toList.length).map fun b =>
            (ctx.read (block.cell b)).firstChar?).length == text.toList.length &&
          ((((a :: rest).take text.toList.length).map fun b =>
            (ctx.read (block.cell b)).firstChar?) == text.toList.map some) == (op == .eq)) := by
      simp only [startsMatch, hpattern]
    rw [List.map_cons, findWindow, hwindow, ih]
    by_cases hshort : (a :: rest).length < text.toList.length
    · rw [if_pos (by rw [List.length_map, List.length_take]; omega),
        places_of_short hpattern hshort]
      rfl
    · have hlength : (((a :: rest).take text.toList.length).map fun b =>
          (ctx.read (block.cell b)).firstChar?).length = text.toList.length := by
        rw [List.length_map, List.length_take]
        omega
      rw [if_neg (by omega), places_cons, hstarts, hlength, beq_self_eq_true, Bool.true_and]
      split_ifs <;> rfl

/-- What is hit is the first place. -/
theorem hit_eq (hsteady : search.Steady cells first ctx) {addresses : List Int}
    (hsub : addresses ⊆ cells.addresses) :
    search.hit cells.block addresses ctx =
      .ok (search.places cells.block first addresses).head? := by
  rw [← places_congr hsteady hsub]
  unfold hit
  cases hpattern : search.pattern with
  | number op value =>
    obtain ⟨wanted, -, hvalue⟩ := hsteady.value op value hpattern
    dsimp only
    rw [hvalue, places_number hpattern hvalue]
    exact congrArg Except.ok List.head?_filter.symm
  | text op text => exact congrArg Except.ok (findWindow_eq hpattern addresses)

theorem execute_eq (hsteady : search.Steady cells first ctx) :
    search.execute ctx = (search.run cells ctx).proceed := by
  unfold execute RangeRef.onCells
  rw [hsteady.range]

theorem run_of_remaining (hsteady : search.Steady cells first ctx) {addresses : List Int}
    (hsub : addresses ⊆ cells.addresses) (h : search.remaining? cells ctx = some addresses) :
    search.run cells ctx =
      search.report (search.places cells.block first addresses).head? ctx := by
  unfold run
  rw [h]
  dsimp only
  rw [hit_eq hsteady hsub]

theorem reports_of_report (hnames : search.result.name ≠ search.found.name) (hit : Option Int)
    (ctx : ScanContext) : search.Reports hit (search.report hit ctx).proceed where
  exit := rfl
  result := (ScanContext.tag?_write_of_ne hnames.symm _).trans (ScanContext.tag?_write_self _ _ _)
  found := ScanContext.tag?_write_self _ _ _

/-- Where a continuous search goes on, by the hit that it has reported. -/
theorem remaining?_of_result (hcontinuous : search.continuous = true)
    (hordered : cells.Ordered) (hpositive : ∀ a ∈ cells.addresses, 1 ≤ a) {hit : Option Int}
    (hresult : ctx.tag? search.result.name = some (.int (hit.getD (-1)))) :
    match hit with
    | none => search.remaining? cells ctx = none
    | some a => ∀ before rest, cells.addresses = before ++ a :: rest →
        search.remaining? cells ctx = some rest := by
  unfold remaining?
  rw [hcontinuous, if_pos rfl, ScanContext.readInt_of_tag? hresult]
  cases hit with
  | none => rfl
  | some a =>
    intro before rest hsplit
    have ha : 1 ≤ a := hpositive a (by rw [hsplit]; simp)
    dsimp only [Option.getD_some]
    rw [if_neg (by omega), if_neg (by omega), BlockRange.dropWhile_of_ordered hordered hsplit]

/-- What remains to be searched behind the first places, which have been reported: the end of the
range that has the other places, or nothing if there are none. -/
def Remains (search : Search) (cells : BlockRange) (first : ScanContext) (reported : Nat)
    (ctx : ScanContext) : Prop :=
  match search.remaining? cells ctx with
  | some rest => (∃ before, cells.addresses = before ++ rest) ∧
      search.places cells.block first rest =
        (search.places cells.block first cells.addresses).drop reported
  | none => (search.places cells.block first cells.addresses).drop reported = []

/-- An activation reports the next place. -/
theorem Remains.reports (hnames : search.result.name ≠ search.found.name)
    (hsteady : search.Steady cells first ctx) {k : Nat} (h : search.Remains cells first k ctx) :
    search.Reports (search.places cells.block first cells.addresses)[k]? (search.execute ctx) := by
  have hrun : search.run cells ctx =
      search.report (search.places cells.block first cells.addresses)[k]? ctx := by
    unfold Remains at h
    rw [← List.head?_drop]
    cases hremaining : search.remaining? cells ctx with
    | none =>
      rw [hremaining] at h
      unfold run
      rw [hremaining, h]
      rfl
    | some rest =>
      rw [hremaining] at h
      obtain ⟨⟨before, hsplit⟩, hplaces⟩ := h
      have hsub : rest ⊆ cells.addresses := hsplit ▸ List.subset_append_right before rest
      rw [run_of_remaining hsteady hsub hremaining, hplaces]
  rw [execute_eq hsteady, hrun]
  exact reports_of_report hnames _ ctx

/-- Behind a report the range goes on with the place after it. -/
theorem Remains.next (hcontinuous : search.continuous = true) (hordered : cells.Ordered)
    (hpositive : ∀ a ∈ cells.addresses, 1 ≤ a) {k : Nat} {last : ScanContext}
    (h : search.Remains cells first k last)
    (hresult : ctx.tag? search.result.name =
      some (.int (((search.places cells.block first cells.addresses)[k]?).getD (-1)))) :
    search.Remains cells first (k + 1) ctx := by
  have hlater : (search.places cells.block first cells.addresses).drop (k + 1) =
      ((search.places cells.block first cells.addresses).drop k).tail := List.tail_drop.symm
  rw [← List.head?_drop] at hresult
  unfold Remains at h ⊢
  rw [hlater]
  cases hdrop : (search.places cells.block first cells.addresses).drop k with
  | nil =>
    rw [hdrop] at hresult
    have hexhausted : search.remaining? cells ctx = none :=
      remaining?_of_result hcontinuous hordered hpositive hresult
    rw [hexhausted]
    rfl
  | cons a later =>
    rw [hdrop] at hresult h
    cases hremaining : search.remaining? cells last with
    | none =>
      rw [hremaining] at h
      cases h
    | some rest =>
      rw [hremaining] at h
      obtain ⟨⟨before, hsplit⟩, hplaces⟩ := h
      obtain ⟨between, behind, rfl, hbehind⟩ := exists_split_of_places hplaces
      have haddresses : cells.addresses = (before ++ between) ++ a :: behind := by
        rw [hsplit, List.append_assoc]
      have hgoes : ∀ before rest, cells.addresses = before ++ a :: rest →
          search.remaining? cells ctx = some rest :=
        remaining?_of_result hcontinuous hordered hpositive hresult
      rw [hgoes _ _ haddresses]
      exact ⟨⟨before ++ between ++ [a], by rw [haddresses, List.append_cons]⟩, hbehind⟩

theorem Activation.steady {k : Nat} (h : search.Activation cells first k ctx) :
    search.Steady cells first ctx := by
  cases h with
  | start hsteady => exact hsteady
  | next ctx _ hsteady => exact hsteady

theorem Activation.remains (hcontinuous : search.continuous = true) (hordered : cells.Ordered)
    (hpositive : ∀ a ∈ cells.addresses, 1 ≤ a) (hnames : search.result.name ≠ search.found.name)
    {k : Nat} (h : search.Activation cells first k ctx) : search.Remains cells first k ctx := by
  induction h with
  | start hsteady hzero =>
    have hall : search.remaining? cells first = some cells.addresses := by
      unfold remaining?
      rw [hcontinuous, if_pos rfl, hzero]
      rfl
    unfold Remains
    rw [hall]
    exact ⟨⟨[], rfl⟩, rfl⟩
  | next ctx hlast _ hresult ih =>
    exact ih.next hcontinuous hordered hpositive
      (hresult.trans (ih.reports hnames hlast.steady).result)

/-- No address is reported twice. -/
theorem nodup_places (hordered : cells.Ordered) :
    (search.places cells.block first cells.addresses).Nodup := by
  refine List.Nodup.sublist (places_sublist search cells.block first cells.addresses) ?_
  refine hordered.imp fun hpast heq => ?_
  rw [heq, isPast_irrefl] at hpast
  cases hpast

/-- A continuous search reports the places of its matches, one with each activation and none twice,
and then that there are no more. -/
theorem Activation.enumerates (hcontinuous : search.continuous = true) (hmade : search.range.Made)
    (hpositive : ∀ a ∈ cells.addresses, 1 ≤ a) (hnames : search.result.name ≠ search.found.name)
    {k : Nat} (h : search.Activation cells first k ctx) :
    (search.places cells.block first cells.addresses).Nodup ∧
      search.Reports (search.places cells.block first cells.addresses)[k]?
        (search.execute ctx) := by
  have hordered : cells.Ordered := RangeRef.ordered_of_resolve hmade h.steady.range
  exact ⟨nodup_places hordered,
    (h.remains hcontinuous hordered hpositive hnames).reports hnames h.steady⟩

end Search

/-! Sevens in a block with a gap, from the last cell to the first. -/

namespace Sample

def readings : Block := ⟨"DS", .int, 1, 5, some [(1, 2), (4, 5)], none, true, .int 0⟩

def sevens (result found : Tag) : Search :=
  ⟨.direct readings.all.reverse, .number .eq (.literal (.int 7)), result, found, true⟩

def hitAddress : Tag := .ofType .int "At"

def hitFlag : Tag := .ofType .bool "Hit"

/-- An INT tag under the name of the first cell of a block of bits. -/
def hitCell : Tag := .ofType .int "C1"

def foundCell : Tag := .ofType .bool "C1"

def readingsTaken : ScanContext :=
  .start (.ofTags (.ofEntries [("DS1", .int 7), ("DS4", .int 7), ("DS5", .int 0)])) ∅

/-- The context in which a search is activated for the next time. -/
def searched (search : Search) : Nat → ScanContext
  | 0 => readingsTaken
  | k + 1 => (search.execute (searched search k)).context

theorem steady_sevens {result found : Tag} {ctx : ScanContext}
    (hreads : ∀ a ∈ readings.all.reverse.addresses,
      ctx.read (readings.cell a) = readingsTaken.read (readings.cell a)) :
    (sevens result found).Steady readings.all.reverse readingsTaken ctx := by
  refine ⟨rfl, hreads, ?_⟩
  rintro op value ⟨⟩
  exact ⟨.int 7, rfl, rfl⟩

end Sample

theorem Search.Activation.enumerates_sample :
    (Sample.sevens Sample.hitAddress Sample.hitFlag).Activation Sample.readings.all.reverse
        Sample.readingsTaken 1
        (Sample.searched (Sample.sevens Sample.hitAddress Sample.hitFlag) 1) ∧
      (Sample.sevens Sample.hitAddress Sample.hitFlag).Reports (some 1)
        ((Sample.sevens Sample.hitAddress Sample.hitFlag).execute
          (Sample.searched (Sample.sevens Sample.hitAddress Sample.hitFlag) 1)) := by
  have hactivation : (Sample.sevens Sample.hitAddress Sample.hitFlag).Activation
      Sample.readings.all.reverse Sample.readingsTaken 1
      (Sample.searched (Sample.sevens Sample.hitAddress Sample.hitFlag) 1) :=
    .next _ (.start (Sample.steady_sevens (by decide)) rfl) (Sample.steady_sevens (by decide)) rfl
  have hmade : (Sample.sevens Sample.hitAddress Sample.hitFlag).range.Made := .reverse (.all _)
  exact ⟨hactivation, (enumerates rfl hmade (by decide) (by decide) hactivation).2⟩

/-- Where result and flag share a name the flag overwrites the address, and the second match is
lost. -/
theorem Search.exists_lost_match :
    Search.make (.direct Sample.readings.all.reverse) (.number .eq (.literal (.int 7)))
        Sample.hitCell Sample.foundCell =
      .ok { Sample.sevens Sample.hitCell Sample.foundCell with continuous := false } ∧
    (Sample.sevens Sample.hitCell Sample.foundCell).Activation Sample.readings.all.reverse
        Sample.readingsTaken 1 (Sample.searched (Sample.sevens Sample.hitCell Sample.foundCell) 1) ∧
    (Sample.sevens Sample.hitCell Sample.foundCell).places Sample.readings Sample.readingsTaken
        Sample.readings.all.reverse.addresses = [4, 1] ∧
    ¬ (Sample.sevens Sample.hitCell Sample.foundCell).Reports (some 1)
        ((Sample.sevens Sample.hitCell Sample.foundCell).execute
          (Sample.searched (Sample.sevens Sample.hitCell Sample.foundCell) 1)) := by
  refine ⟨rfl, ?_, rfl, fun h => ?_⟩
  · exact .next _ (.start (Sample.steady_sevens (by decide)) rfl)
      (Sample.steady_sevens (by decide)) rfl
  · have hfound := h.found
    revert hfound
    decide

end LadderLogic
