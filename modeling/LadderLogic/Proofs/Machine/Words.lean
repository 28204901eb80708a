import LadderLogic.Proofs.Machine.Cells

/-!
Shift registers and pairs of words, in guarded steps. A register looks at its first cell only if it
has one, and two words are taken from a range only if it has exactly two cells. A word that is moved
up by half the width of a 32-bit word loses no bit.
-/

set_option autoImplicit false

namespace LadderLogic

open Machine

namespace Shift

def applyGuarded (shift : Shift) (rising enabled : Bool) (cells : BlockRange) (ctx : ScanContext) :
    Machine ScanContext := do
  let tags := cells.tags
  if Condition.optionHolds ctx shift.reset then
    return ctx.writeAll (tags.map fun t => (t, .bool false))
  if !rising || tags.isEmpty then return ctx
  let bits := tags.map ctx.readBool
  let first ← element tags 0
  return (ctx.write first (.bool enabled)).writeAll ((tags.drop 1).zip (bits.map Value.bool))

def executeGuarded (shift : Shift) (id : InstructionId) (enabled : Bool) (ctx : ScanContext) :
    Machine Outcome :=
  let clock := shift.clock.holds ctx
  let rising := clock && !ctx.memoryBool (clockKey id)
  let ctx := ctx.setMemory (clockKey id) (.bool clock)
  shift.range.onCellsGuarded ctx fun cells => shift.applyGuarded rising enabled cells ctx

/-- The bits behind the first cell are those before the last one: the last bit is dropped because no
cell is left for it. -/
theorem zip_shifted (enabled : Bool) (t : Tag) (ts : List Tag) (bit : Tag → Bool) :
    (t :: ts).zip ((shifted enabled ((t :: ts).map bit)).map Value.bool) =
      (t, .bool enabled) :: ts.zip (((t :: ts).map bit).map Value.bool) := by
  have hdrop : ∀ (ts : List Tag) (values : List Value),
      ts.zip (values.take ts.length) = ts.zip values := by
    intro ts
    induction ts with
    | nil => intro values; rfl
    | cons t ts ih =>
      intro values
      cases values with
      | nil => rfl
      | cons v values => simp [ih]
  unfold shifted
  rw [List.length_map, List.length_cons, List.take_succ_cons, List.map_cons, List.zip_cons_cons,
    List.map_take, hdrop]

theorem executeGuarded_eq (shift : Shift) (id : InstructionId) (enabled : Bool)
    (ctx : ScanContext) :
    shift.executeGuarded id enabled ctx = .ok (shift.execute id enabled ctx) := by
  refine RangeRef.onCellsGuarded_eq fun cells => ?_
  unfold applyGuarded apply
  dsimp only
  split_ifs with hreset hidle hrising hrising
  · rfl
  · rw [hrising] at hidle
    simp only [Bool.not_true, Bool.false_or, List.isEmpty_iff] at hidle
    rw [hidle]
    rfl
  · rfl
  · cases htags : cells.tags with
    | nil => simp [htags] at hidle
    | cons t ts =>
      rw [zip_shifted, element_of_getElem? le_rfl rfl]
      rfl
  · simp [hrising] at hidle

end Shift

namespace Pack

theorem readWord_lt (ctx : ScanContext) (tag : Tag) : readWord ctx tag < 65536 :=
  Nat.mod_lt _ (by decide)

/-- The first cell and the second one of two. -/
def pairGuarded (tags : List Tag) : Machine (Tag × Tag) := do
  return (← element tags 0, ← element tags 1)

theorem pairGuarded_pair (low high : Tag) : pairGuarded [low, high] = .ok (low, high) := rfl

/-- A word in the upper half of a 32-bit word. -/
def upperHalf (word : Nat) : Machine Nat := do
  let places ← shiftAmount 16 32
  return (word <<< places) % 2 ^ 32

theorem upperHalf_eq {word : Nat} (h : word < 65536) : upperHalf word = .ok (word <<< 16) := by
  unfold upperHalf
  rw [shiftAmount_of_lt (by decide) (by decide)]
  have hshifted : word <<< 16 < 2 ^ 32 := by
    rw [Nat.shiftLeft_eq]
    omega
  exact congrArg Except.ok (Nat.mod_eq_of_lt hshifted)

/-- The upper half of a 32-bit word. -/
def upperPart (pattern : Nat) : Machine Nat := do
  let places ← shiftAmount 16 32
  return pattern >>> places

theorem upperPart_eq (pattern : Nat) : upperPart pattern = .ok (pattern / 65536) := by
  unfold upperPart
  rw [shiftAmount_of_lt (by decide) (by decide)]
  exact congrArg Except.ok (Nat.shiftRight_eq_div_pow pattern 16)

/-- Writes the two halves of a pattern, each into its cell. -/
def spreadWords (ctx : ScanContext) (tags : List Tag) (pattern : Nat) : Machine ScanContext := do
  let upper ← upperPart pattern
  return (tags.zip [pattern % 65536, upper]).foldl
    (fun ctx half => writePattern ctx half.1 half.2) ctx

theorem spreadWords_pair (ctx : ScanContext) (low high : Tag) (pattern : Nat) :
    spreadWords ctx [low, high] pattern =
      .ok (writePattern (writePattern ctx low (pattern % 65536)) high (pattern / 65536)) := by
  unfold spreadWords
  rw [upperPart_eq]
  rfl

theorem or_shiftLeft {low : Nat} (h : low < 65536) (high : Nat) :
    low ||| high <<< 16 = low + 65536 * high := by
  have hor := Nat.two_pow_add_eq_or_of_lt (i := 16) h high
  rw [Nat.or_comm, Nat.shiftLeft_eq, Nat.mul_comm high, ← hor]
  omega

end Pack

def PackWords.executeGuarded (pack : PackWords) (ctx : ScanContext) : Machine Outcome :=
  Pack.onPairGuarded pack.words pack.target ctx fun cells target =>
    if cells.tags.length ≠ 2 then return ctx.raise .outOfRange
    else do
      let (low, high) ← Pack.pairGuarded cells.tags
      let upper ← Pack.upperHalf (Pack.readWord ctx high)
      return Pack.writePattern ctx target (Pack.readWord ctx low ||| upper)

def UnpackToWords.executeGuarded (unpack : UnpackToWords) (ctx : ScanContext) : Machine Outcome :=
  Pack.onPairGuarded unpack.words unpack.source ctx fun cells source =>
    if cells.tags.length ≠ 2 then return ctx.raise .outOfRange
    else match source.type.patternOf (ctx.read source) with
      | some pattern => Pack.spreadWords ctx cells.tags pattern
      | none => return ctx.raise .outOfRange

theorem PackWords.executeGuarded_eq (pack : PackWords) (ctx : ScanContext) :
    pack.executeGuarded ctx = .ok (pack.execute ctx) := by
  refine Pack.onPairGuarded_eq fun cells target => ?_
  match cells.tags with
  | [] => rfl
  | [_] => rfl
  | [low, high] =>
    rw [if_neg (by simp), Pack.pairGuarded_pair]
    dsimp only
    rw [← Pack.or_shiftLeft (Pack.readWord_lt ctx low)]
    simp only [bind, Except.bind, Pack.upperHalf_eq (Pack.readWord_lt ctx high)]
    rfl
  | _ :: _ :: _ :: rest =>
    rw [if_pos (by simp)]
    rfl

theorem UnpackToWords.executeGuarded_eq (unpack : UnpackToWords) (ctx : ScanContext) :
    unpack.executeGuarded ctx = .ok (unpack.execute ctx) := by
  refine Pack.onPairGuarded_eq fun cells source => ?_
  match cells.tags with
  | [] => rfl
  | [_] => rfl
  | [low, high] =>
    rw [if_neg (by simp)]
    dsimp only
    cases source.type.patternOf (ctx.read source) with
    | none => rfl
    | some pattern => exact Pack.spreadWords_pair ctx low high pattern
  | _ :: _ :: _ :: rest =>
    rw [if_pos (by simp)]
    rfl

end LadderLogic
