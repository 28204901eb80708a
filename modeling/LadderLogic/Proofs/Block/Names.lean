import LadderLogic.Proofs.Search.Order
import LadderLogic.Proofs.Text.Numerals

/-!
The names of cells. A name ends in the address of its cell, so the cells of a range have different
names, and none has the name of a fault.
-/

set_option autoImplicit false

namespace LadderLogic

theorem Decimal.integer_getLast? (i : Int) :
    ∃ c, (integer i).getLast? = some c ∧ c.isDigit = true := by
  have hlast := List.getLast_mem (digits_ne_nil i.natAbs)
  refine ⟨_, ?_, isDigit_of_mem_digits hlast⟩
  unfold integer
  split_ifs
  · rw [List.getLast?_cons, List.getLast?_eq_some_getLast (digits_ne_nil i.natAbs)]
    rfl
  · exact List.getLast?_eq_some_getLast _

namespace Block

theorem cellName_injective (b : Block) {i j : Int} (h : b.cellName i = b.cellName j) : i = j := by
  have hlists := congrArg String.toList h
  simp only [cellName, String.toList_append, List.append_cancel_left_eq] at hlists
  exact Decimal.text_injective (String.toList_injective hlists)

theorem cellName_ne_tagName (b : Block) (i : Int) (f : Fault) : b.cellName i ≠ f.tagName := by
  intro h
  obtain ⟨c, hc, hdigit⟩ := Decimal.integer_getLast? i
  have hlast : f.tagName.toList.getLast? = some c := by
    rw [← h, cellName, String.toList_append, List.getLast?_append, Decimal.text,
      String.toList_ofList, hc]
    rfl
  cases f <;> cases hlast <;> revert hdigit <;> decide

end Block

namespace BlockRange

@[simp] theorem length_tags (cells : BlockRange) : cells.tags.length = cells.length :=
  List.length_map _

theorem name_ne_tagName {cells : BlockRange} {t : Tag} (ht : t ∈ cells.tags) (f : Fault) :
    t.name ≠ f.tagName := by
  obtain ⟨a, -, rfl⟩ := List.mem_map.mp ht
  exact cells.block.cellName_ne_tagName a f

theorem Ordered.nodup_names {cells : BlockRange} (h : cells.Ordered) :
    (cells.tags.map Tag.name).Nodup := by
  unfold tags
  rw [List.map_map]
  apply List.Nodup.map
  · intro i j hij
    exact cells.block.cellName_injective hij
  · refine h.imp ?_
    intro i j hpast heq
    rw [heq, Search.isPast_irrefl] at hpast
    cases hpast

end BlockRange

/-- The cells that a range stands for have different names. -/
theorem RangeRef.nodup_names_of_resolve {r : RangeRef} (hmade : r.Made) {ctx : ScanContext}
    {cells : BlockRange} (h : r.resolve ctx = .ok (some cells)) :
    (cells.tags.map Tag.name).Nodup :=
  (ordered_of_resolve hmade h).nodup_names

end LadderLogic
