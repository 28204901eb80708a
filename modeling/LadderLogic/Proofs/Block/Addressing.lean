import LadderLogic.Block.CellCache
import LadderLogic.Proofs.Except
import LadderLogic.Reference

/-!
Addresses that are computed during the scan against addresses that are written into the program. The
bounds of a range are tested in another way and another order, and a range that is computed is turned
round after it has been found; but the two ways lead to the same cells, and where the one is an error
of the program the other is a fault of the scan.
-/

set_option autoImplicit false

namespace LadderLogic

namespace RangeRef

/-- A range found during the scan, against the one that is written with the same bounds: they fail
together on bounds in the wrong order, an address outside the block is a fault, and otherwise they
are the same. -/
structure Follows (found : Except LadderError (Option BlockRange))
    (written : Except LadderError BlockRange) : Prop where
  error_iff : ∀ e, found = .error e ↔
    written = .error e ∧ ∃ name first last, e = .invalidRange name first last
  fault_iff : found = .ok none ↔ ∃ name address, written = .error (.addressOutOfBlock name address)
  range_iff : ∀ range, found = .ok (some range) ↔ written = .ok range

theorem Follows.map {found : Except LadderError (Option BlockRange)}
    {written : Except LadderError BlockRange} (h : Follows found written)
    (f : BlockRange → BlockRange) : Follows (found.map (Option.map f)) (written.map f) where
  error_iff e := by rw [map_eq_error, map_eq_error, h.error_iff]
  fault_iff := by simp only [map_eq_ok, map_eq_error, Option.map_eq_none_iff, exists_eq_right,
    h.fault_iff]
  range_iff range := by
    rw [map_eq_ok, map_eq_ok]
    constructor
    · rintro ⟨cells, hcells, hmap⟩
      obtain ⟨last, rfl, rfl⟩ := Option.map_eq_some_iff.mp hmap
      exact ⟨last, (h.range_iff last).mp hcells, rfl⟩
    · rintro ⟨last, hlast, rfl⟩
      exact ⟨some last, (h.range_iff last).mpr hlast, rfl⟩

end RangeRef

namespace Block

/-- The three outcomes of a selection. An upper bound below the block, and a lower one above it, are
found out by the other bound. -/
theorem select_cases (b : Block) (first last : Int) :
    (last < first ∧ b.select first last = .error (.invalidRange b.name first last)) ∨
      (first ≤ last ∧ (first < b.first ∨ b.last < last) ∧
        ∃ address, b.select first last = .error (.addressOutOfBlock b.name address)) ∨
      (first ≤ last ∧ ¬(first < b.first ∨ b.last < last) ∧
        b.select first last = .ok ⟨b, b.addressesBetween first last, false⟩) := by
  unfold select
  split_ifs with horder hfirst hlast
  · exact .inl ⟨horder, rfl⟩
  · exact .inr (.inl ⟨by omega, by omega, first, rfl⟩)
  · exact .inr (.inl ⟨by omega, by omega, last, rfl⟩)
  · exact .inr (.inr ⟨by omega, by omega, rfl⟩)

theorem between_follows_select (b : Block) (first last : Int) :
    RangeRef.Follows (RangeRef.between b first last false) (b.select first last) := by
  rcases b.select_cases first last with
    ⟨horder, hselect⟩ | ⟨horder, houtside, address, hselect⟩ | ⟨horder, hinside, hselect⟩
  · have hfound : RangeRef.between b first last false =
        .error (.invalidRange b.name first last) := if_pos horder
    rw [hfound, hselect]
    refine ⟨fun e => ?_, iff_of_false nofun nofun, fun range => ⟨nofun, nofun⟩⟩
    constructor
    · rintro ⟨⟩
      exact ⟨rfl, b.name, first, last, rfl⟩
    · rintro ⟨⟨⟩, -⟩
      rfl
  · have hfound : RangeRef.between b first last false = .ok none := by
      rw [RangeRef.between, if_neg horder.not_gt, if_pos houtside]
    rw [hfound, hselect]
    refine ⟨fun e => iff_of_false nofun ?_, iff_of_true rfl ⟨_, _, rfl⟩, fun range => ⟨nofun, nofun⟩⟩
    rintro ⟨⟨⟩, _, _, _, ⟨⟩⟩
  · have hfound : RangeRef.between b first last false =
        .ok (some ⟨b, b.addressesBetween first last, false⟩) := by
      rw [RangeRef.between, if_neg horder.not_gt, if_neg hinside]
      rfl
    rw [hfound, hselect]
    refine ⟨fun e => iff_of_false nofun nofun, iff_of_false nofun nofun, fun range => ?_⟩
    simp only [Except.ok.injEq, Option.some.injEq]

theorem pointed_eq (b : Block) (pointer : Expression) (ctx : ScanContext) :
    b.pointed (pointer.evaluate ctx) =
      ((pointer.integer? ctx).bind b.resolvePointer).map b.cell := by
  unfold Expression.integer?
  cases pointer.evaluate ctx <;> rfl

end Block

namespace RangeRef

theorem between_not (b : Block) (first last : Int) (reversed : Bool) :
    between b first last (!reversed) =
      (between b first last reversed).map (Option.map BlockRange.reverse) := by
  unfold between
  split_ifs <;> cases reversed <;> simp_all [Except.map, BlockRange.reverse]

/-- Turning a reference round and resolving it is resolving it and turning the cells round. -/
theorem resolve_reverse (r : RangeRef) (ctx : ScanContext) :
    r.reverse.resolve ctx = (r.resolve ctx).map (Option.map BlockRange.reverse) := by
  cases r with
  | direct range => rfl
  | indirect b first last reversed =>
    simp only [reverse, resolve]
    split
    · exact between_not b _ _ reversed
    · rfl

theorem resolve_iterate_reverse (r : RangeRef) (ctx : ScanContext) (n : Nat) :
    (reverse^[n] r).resolve ctx = (r.resolve ctx).map (Option.map BlockRange.reverse^[n]) := by
  induction n generalizing r with
  | zero =>
    change r.resolve ctx = (r.resolve ctx).map (Option.map id)
    cases r.resolve ctx with
    | error e => rfl
    | ok cells => cases cells <;> rfl
  | succ n ih =>
    rw [Function.iterate_succ_apply, ih, resolve_reverse]
    cases r.resolve ctx with
    | error e => rfl
    | ok cells => cases cells <;> rfl

end RangeRef

/-- A range with computed bounds follows the one with the same literal bounds, however often both are
turned round, and a computed pointer leads to the cell that its address names, or nowhere if there is
none. The cells that copies of the block have remembered make no difference between the two. -/
theorem Block.addressing_agrees (b : Block) (ctx : ScanContext) :
    (∀ (first last : Expression) (i j : Int) (n : Nat), first.integer? ctx = some i →
        last.integer? ctx = some j →
        RangeRef.Follows ((RangeRef.reverse^[n] (.indirect b first last false)).resolve ctx)
          ((b.select i j).map BlockRange.reverse^[n])) ∧
      (∀ (pointer : Expression) (a : Int), pointer.integer? ctx = some a →
        (TagRef.indirect b pointer).resolve ctx = (b.get a).toOption ∧
          ∀ cache : CellCache, cache.resolve b (pointer.integer? ctx) =
            ((cache.get b a).1.toOption, (cache.get b a).2)) := by
  constructor
  · intro first last i j n hfirst hlast
    have hresolve : (RangeRef.indirect b first last false).resolve ctx =
        RangeRef.between b i j false := by
      simp only [RangeRef.resolve, hfirst, hlast]
    rw [RangeRef.resolve_iterate_reverse, hresolve]
    exact (b.between_follows_select i j).map _
  · intro pointer a hpointer
    constructor
    · change b.pointed (pointer.evaluate ctx) = _
      rw [pointed_eq, hpointer, Option.bind_some, Block.resolvePointer, Block.get]
      split_ifs <;> rfl
    · intro cache
      rw [hpointer]
      rw [CellCache.resolve, CellCache.get, Option.bind_some, Block.resolvePointer]
      split_ifs <;> rfl

namespace Sample

/-- A block with a gap between its windows. -/
def gapped : Block := ⟨"DS", .int, 1, 6, some [(1, 2), (5, 6)], none, true, .int 0⟩

def upper : Expression := .tag (.ofType .int "Upper")

def bounded : ScanContext := .start (.ofTags (.ofEntries [("Upper", .int 5)])) ∅

end Sample

/-- A range across the gap turned round, bounds in the wrong order, a bound outside the block, and
pointers to a cell and into the gap. -/
theorem Block.addressing_agrees_sample :
    (RangeRef.indirect Sample.gapped (.literal (.int 2)) Sample.upper false).reverse.resolve
        Sample.bounded = .ok (some ⟨Sample.gapped, [5, 2], true⟩) ∧
      (RangeRef.indirect Sample.gapped (.literal (.int 6)) Sample.upper false).resolve
        Sample.bounded = .error (.invalidRange "DS" 6 5) ∧
      (RangeRef.indirect Sample.gapped (.literal (.int 0)) Sample.upper false).resolve
        Sample.bounded = .ok none ∧
      (TagRef.indirect Sample.gapped Sample.upper).resolve Sample.bounded =
        some (Sample.gapped.cell 5) ∧
      (TagRef.indirect Sample.gapped (.literal (.int 3))).resolve Sample.bounded = none := by
  obtain ⟨hranges, hpointers⟩ := Sample.gapped.addressing_agrees Sample.bounded
  refine ⟨?_, ?_, ?_, ?_, ?_⟩
  · exact ((hranges (.literal (.int 2)) Sample.upper 2 5 1 rfl rfl).range_iff _).mpr rfl
  · exact ((hranges (.literal (.int 6)) Sample.upper 6 5 0 rfl rfl).error_iff _).mpr
      ⟨rfl, _, _, _, rfl⟩
  · exact (hranges (.literal (.int 0)) Sample.upper 0 5 0 rfl rfl).fault_iff.mpr ⟨_, _, rfl⟩
  · exact (hpointers Sample.upper 5 rfl).1
  · exact (hpointers (.literal (.int 3)) 3 rfl).1

end LadderLogic
