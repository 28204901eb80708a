import LadderLogic.Proofs.Machine.Cells

/-!
The order of the cells of a range. Ranges of a block run strictly upwards, and reversed ones
strictly downwards, whatever gaps the windows leave; so an address says where to go on.
-/

set_option autoImplicit false

namespace LadderLogic

/-- A range as blocks make them: between two addresses, over the whole block, or one of these
backwards. -/
inductive BlockRange.Made : BlockRange → Prop
  | select {b : Block} {first last : Int} {range : BlockRange} :
    b.select first last = .ok range → Made range
  | all (b : Block) : Made b.all
  | reverse {range : BlockRange} : Made range → Made range.reverse

/-- A range that is not chosen during the scan has been made by its block. -/
def RangeRef.Made : RangeRef → Prop
  | direct range => range.Made
  | indirect _ _ _ _ => True

theorem Search.isPast_irrefl (reversed : Bool) (a : Int) : isPast reversed a a = false := by
  cases reversed <;> simp [isPast]

theorem Search.isPast_asymm {reversed : Bool} {a b : Int} (h : isPast reversed a b = true) :
    isPast reversed b a = false := by
  cases reversed <;> simp only [isPast, Bool.false_eq_true, if_false, if_true,
    decide_eq_true_eq, decide_eq_false_iff_not] at h ⊢ <;> omega

/-- Each address lies behind those before it. -/
def BlockRange.Ordered (range : BlockRange) : Prop :=
  range.addresses.Pairwise fun x y => Search.isPast range.reversed x y = true

namespace Block

theorem bounds_of_contains {b : Block} {a : Int} (h : b.contains a = true) :
    b.first ≤ a ∧ a ≤ b.last := by
  unfold contains at h
  split at h
  case isTrue => cases h
  case isFalse hinside => omega

theorem pairwise_interval (low high : Int) : (interval low high).Pairwise (· < ·) := by
  unfold interval
  rw [List.pairwise_map]
  exact List.pairwise_lt_range.imp fun h => by omega

theorem pairwise_addressesBetween (b : Block) (low high : Int) :
    (b.addressesBetween low high).Pairwise (· < ·) :=
  (pairwise_interval _ _).filter _

end Block

namespace BlockRange

/-- Upwards as found, downwards if reversed. -/
theorem ordered_of_pairwise {b : Block} {addresses : List Int}
    (h : addresses.Pairwise (· < ·)) (reversed : Bool) :
    Ordered ⟨b, if reversed then addresses.reverse else addresses, reversed⟩ := by
  cases reversed with
  | false => exact h.imp fun hlt => decide_eq_true hlt
  | true => exact List.pairwise_reverse.mpr (h.imp fun hlt => decide_eq_true hlt)

theorem Ordered.reverse {range : BlockRange} (h : range.Ordered) : range.reverse.Ordered := by
  refine List.pairwise_reverse.mpr (h.imp fun {x y} hpast => ?_)
  unfold Search.isPast at hpast ⊢
  change (if !range.reversed then decide (x < y) else decide (y < x)) = true
  cases hreversed : range.reversed <;> simpa [hreversed] using hpast

theorem Made.ordered {range : BlockRange} (h : range.Made) : range.Ordered := by
  induction h with
  | @select b first last range hselect =>
    unfold Block.select at hselect
    split_ifs at hselect
    cases hselect
    exact ordered_of_pairwise (b.pairwise_addressesBetween first last) false
  | all b => exact ordered_of_pairwise (b.pairwise_addressesBetween b.first b.last) false
  | reverse _ ih => exact ih.reverse

/-- Behind an address of the range lies what follows it there. -/
theorem dropWhile_of_ordered {range : BlockRange} (h : range.Ordered) {before rest : List Int}
    {a : Int} (hsplit : range.addresses = before ++ a :: rest) :
    range.addresses.dropWhile (fun x => !Search.isPast range.reversed a x) = rest := by
  unfold Ordered at h
  rw [hsplit] at h ⊢
  obtain ⟨-, hrest, hbefore⟩ := List.pairwise_append.mp h
  have hahead : ∀ y ∈ rest, Search.isPast range.reversed a y = true :=
    (List.pairwise_cons.mp hrest).1
  have hbehind : ∀ x ∈ before ++ [a], (!Search.isPast range.reversed a x) = true := by
    intro x hx
    rcases List.mem_append.mp hx with hx | hx
    · rw [Search.isPast_asymm (hbefore x hx a List.mem_cons_self)]
      rfl
    · rw [List.mem_singleton.mp hx, Search.isPast_irrefl]
      rfl
  rw [List.append_cons, List.dropWhile_append_of_pos hbehind]
  cases rest with
  | nil => rfl
  | cons y rest =>
    refine List.dropWhile_cons_of_neg ?_
    rw [hahead y List.mem_cons_self]
    decide

end BlockRange

/-- A range that resolves, resolves to cells in order. -/
theorem RangeRef.ordered_of_resolve {r : RangeRef} (hmade : r.Made) {ctx : ScanContext}
    {cells : BlockRange} (h : r.resolve ctx = .ok (some cells)) : cells.Ordered := by
  cases r with
  | direct range =>
    cases h
    exact hmade.ordered
  | indirect b first last reversed =>
    simp only [resolve] at h
    split at h
    case h_1 i j _ _ =>
      unfold between at h
      split at h
      case isTrue => cases h
      case isFalse =>
        split at h
        case isTrue => cases h
        case isFalse =>
          cases h
          exact BlockRange.ordered_of_pairwise (b.pairwise_addressesBetween i j) reversed
    case h_2 => cases h

end LadderLogic
