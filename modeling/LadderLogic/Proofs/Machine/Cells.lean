import LadderLogic.Instruction
import LadderLogic.Proofs.Machine.Arithmetic

/-!
Cells by their place, in guarded steps. A search looks at the cells of a range by index, text at a
whole window of them, and bits are packed by shifts of a 32-bit word. No index leads behind the end
of the range, because a pattern is never empty, and no shift is as wide as the word.
-/

set_option autoImplicit false

namespace LadderLogic

open Machine

/-- Goes on with the cells of a range in guarded steps. -/
def RangeRef.onCellsGuarded (r : RangeRef) (ctx : ScanContext)
    (next : BlockRange → Machine ScanContext) : Machine Outcome :=
  match r.resolve ctx with
  | .error e => .ok (ctx.fail (.error e))
  | .ok none => .ok (ctx.raise .addressError).proceed
  | .ok (some cells) => do return (← next cells).proceed

theorem RangeRef.onCellsGuarded_eq {r : RangeRef} {ctx : ScanContext}
    {guarded : BlockRange → Machine ScanContext} {next : BlockRange → ScanContext}
    (h : ∀ cells, guarded cells = .ok (next cells)) :
    r.onCellsGuarded ctx guarded = .ok (r.onCells ctx next) := by
  unfold onCellsGuarded onCells
  cases r.resolve ctx with
  | error e => rfl
  | ok cells =>
    cases cells with
    | none => rfl
    | some cells =>
      dsimp only
      rw [h]
      rfl

namespace Search

/-- The first of `count` places from `place` on that passes the test. -/
def findPlace (test : Nat → Machine Bool) : Nat → Nat → Machine (Option Nat)
  | 0, _ => .ok none
  | count + 1, place => do
    if ← test place then return some place else findPlace test count (place + 1)

def addressAt (addresses : List Int) : Option Nat → Machine (Option Int)
  | none => .ok none
  | some place => do return some (← element addresses place)

/-- Compares the cells from a place on with a text, up to the first difference. -/
def matchesAt (cells : List (Option Char)) : List Char → Nat → Machine Bool
  | [], _ => .ok true
  | c :: cs, place => do
    if (← element cells place) = some c then matchesAt cells cs (place + 1) else return false

/-- The number of places from `place` on at which a window of the given width ends inside. -/
def windowCount (length width place : Nat) : Nat :=
  if width ≤ length then length - width + 1 - place else 0

/-- The place at which a search begins; `none` if a continuous one is exhausted. -/
def firstPlace? (search : Search) (cells : BlockRange) (ctx : ScanContext) : Option Nat :=
  if search.continuous then
    let last := ctx.readInt search.result
    if last = 0 then some 0
    else if last = -1 then none
    else some (cells.addresses.findIdx (isPast cells.reversed last))
  else some 0

def hitGuarded (search : Search) (block : Block) (addresses : List Int) (place : Nat)
    (ctx : ScanContext) : Machine (Except Fault (Option Int)) :=
  match search.pattern with
  | .number op value =>
    match value.evaluate ctx with
    | .error e => .ok (.error e.fault)
    | .ok wanted => do
      let hit ← findPlace
        (fun i => do
          return op.apply (ctx.read (block.cell (← element addresses i))) wanted == some true)
        (addresses.length - place) place
      return .ok (← addressAt addresses hit)
  | .text op text => do
    let cells := addresses.map fun a => (ctx.read (block.cell a)).firstChar?
    let hit ← findPlace
      (fun i => do return (← matchesAt cells text.toList i) == (op == .eq))
      (windowCount addresses.length text.toList.length place) place
    return .ok (← addressAt addresses hit)

def runGuarded (search : Search) (cells : BlockRange) (ctx : ScanContext) : Machine ScanContext :=
  match search.firstPlace? cells ctx with
  | none => .ok (search.report none ctx)
  | some place => do
    match ← search.hitGuarded cells.block cells.addresses place ctx with
    | .ok address => return search.report address ctx
    | .error fault => return ctx.raise fault

def executeGuarded (search : Search) (ctx : ScanContext) : Machine Outcome :=
  search.range.onCellsGuarded ctx fun cells => search.runGuarded cells ctx

theorem remaining?_eq_drop (search : Search) (cells : BlockRange) (ctx : ScanContext) :
    search.remaining? cells ctx = (search.firstPlace? cells ctx).map cells.addresses.drop := by
  unfold remaining? firstPlace?
  dsimp only
  split_ifs
  · rfl
  · rfl
  · rw [Option.map_some, List.dropWhile_eq_drop_findIdx_not]
    simp only [Bool.not_not]
  · rfl

/-- The element behind the first `before.length` ones. -/
theorem element_append {α : Type} (before rest : List α) (x : α) :
    element (before ++ x :: rest) (before.length : Int) = .ok x :=
  element_of_getElem? (by omega) (by simp)

theorem addressAt_append (before rest : List Int) (a : Int) :
    addressAt (before ++ a :: rest) (some before.length) = .ok (some a) := by
  simp only [addressAt, element_append]
  rfl

/-- One place is looked at, and then the search goes on behind it. -/
theorem findPlace_step {test : Nat → Machine Bool} {b : Bool} {count place : Nat}
    {addresses : List Int} (h : test place = .ok b) :
    (findPlace test (count + 1) place >>= addressAt addresses) =
      if b then addressAt addresses (some place)
      else findPlace test count (place + 1) >>= addressAt addresses := by
  rw [findPlace, h]
  cases b <;> rfl

/-- Induction over the addresses that are left. -/
theorem findPlace_number (pred : Int → Bool) (rest before : List Int) :
    (findPlace (fun i => do return pred (← element (before ++ rest) i)) rest.length before.length
      >>= addressAt (before ++ rest)) = .ok (rest.find? pred) := by
  induction rest generalizing before with
  | nil => rfl
  | cons a rest ih =>
    have hnext := ih (before ++ [a])
    simp only [List.append_assoc, List.singleton_append, List.length_append,
      List.length_singleton] at hnext
    have htest : (do return pred (← element (before ++ a :: rest) (before.length : Int)) :
        Machine Bool) = .ok (pred a) := by
      rw [element_append]
      rfl
    rw [List.length_cons, findPlace_step htest, hnext, List.find?_cons]
    cases pred a with
    | true => exact addressAt_append before rest a
    | false => rfl

theorem matchesAt_eq {cells : List (Option Char)} (text : List Char) {place : Nat}
    (h : place + text.length ≤ cells.length) :
    matchesAt cells text place =
      .ok ((cells.drop place).take text.length == text.map some) := by
  induction text generalizing place with
  | nil => rfl
  | cons c cs ih =>
    rw [List.length_cons] at h
    have hplace : place < cells.length := by omega
    have hhere : element cells (place : Int) = .ok cells[place] :=
      element_of_getElem? (by omega) (by simp [hplace])
    rw [List.drop_eq_getElem_cons hplace, List.length_cons, List.take_succ_cons, List.map_cons,
      List.cons_beq_cons, matchesAt, hhere]
    change (if cells[place] = some c then _ else _ : Machine Bool) = _
    by_cases hc : cells[place] = some c
    · rw [if_pos hc, ih (by omega), hc, beq_self_eq_true, Bool.true_and]
    · rw [if_neg hc, beq_eq_false_iff_ne.mpr hc]
      rfl

/-- Induction over the addresses that are left: a window that ends inside is compared in full, and
behind the last one there is nothing to find. The text is not empty, so a hit has an address. -/
theorem findPlace_text {charAt : Int → Option Char} {text : List Char} (htext : text ≠ [])
    (wanted : Bool) (rest before : List Int) :
    (findPlace (fun i => do
        return (← matchesAt ((before ++ rest).map charAt) text i) == wanted)
      (windowCount (before ++ rest).length text.length before.length) before.length
      >>= addressAt (before ++ rest)) =
      .ok (findWindow text wanted (rest.map fun a => (a, charAt a))) := by
  have hwidth : 0 < text.length := List.length_pos_of_ne_nil htext
  induction rest generalizing before with
  | nil =>
    have hcount : windowCount (before ++ []).length text.length before.length = 0 := by
      unfold windowCount
      rw [List.append_nil]
      split_ifs <;> omega
    rw [hcount]
    rfl
  | cons a rest ih =>
    have hnext := ih (before ++ [a])
    simp only [List.append_assoc, List.singleton_append] at hnext
    rw [show (before ++ [a]).length = before.length + 1 by simp] at hnext
    have hwindow : ((charAt a :: (rest.map fun a => (a, charAt a)).map Prod.snd).take text.length) =
        (((before ++ a :: rest).map charAt).drop before.length).take text.length := by
      simp [Function.comp_def]
    rw [List.map_cons, findWindow, hwindow]
    by_cases hfit : text.length ≤ rest.length + 1
    · have hcount : windowCount (before ++ a :: rest).length text.length before.length =
          windowCount (before ++ a :: rest).length text.length (before.length + 1) + 1 := by
        unfold windowCount
        rw [List.length_append, List.length_cons]
        split_ifs <;> omega
      have hmatch : matchesAt ((before ++ a :: rest).map charAt) text before.length = .ok _ :=
        matchesAt_eq text (by simp; omega)
      have hlong : ¬((((before ++ a :: rest).map charAt).drop before.length).take
          text.length).length < text.length := by
        simp
        omega
      rw [if_neg hlong, hcount, findPlace_step (by rw [hmatch]; rfl), hnext]
      split_ifs
      · exact addressAt_append before rest a
      · rfl
    · have hcount : windowCount (before ++ a :: rest).length text.length before.length = 0 := by
        unfold windowCount
        rw [List.length_append, List.length_cons]
        split_ifs <;> omega
      have hshort : ((((before ++ a :: rest).map charAt).drop before.length).take
          text.length).length < text.length := by
        simp
        omega
      rw [if_pos hshort, hcount]
      rfl

theorem hitGuarded_eq {search : Search} (block : Block) {addresses : List Int} {place : Nat}
    (htext : ∀ op text, search.pattern = .text op text → text.toList ≠ [])
    (hplace : place ≤ addresses.length) (ctx : ScanContext) :
    search.hitGuarded block addresses place ctx =
      .ok (search.hit block (addresses.drop place) ctx) := by
  obtain ⟨before, rest, rfl, rfl⟩ : ∃ before rest, addresses = before ++ rest ∧
      place = before.length :=
    ⟨addresses.take place, addresses.drop place, (List.take_append_drop _ _).symm, by simp [hplace]⟩
  rw [List.drop_left]
  unfold hitGuarded hit
  cases hpattern : search.pattern with
  | number op value =>
    dsimp only
    cases value.evaluate ctx with
    | error e => rfl
    | ok wanted =>
      have hfind := findPlace_number
        (fun a => op.apply (ctx.read (block.cell a)) wanted == some true) rest before
      dsimp only
      rw [← bind_assoc, List.length_append, Nat.add_sub_cancel_left, hfind]
      rfl
  | text op text =>
    dsimp only
    rw [← bind_assoc, findPlace_text (htext op text hpattern)]
    rfl

theorem firstPlace?_le {search : Search} {cells : BlockRange} {ctx : ScanContext} {place : Nat}
    (h : search.firstPlace? cells ctx = some place) : place ≤ cells.addresses.length := by
  unfold firstPlace? at h
  dsimp only at h
  split_ifs at h <;> cases h
  · exact Nat.zero_le _
  · exact List.findIdx_le_length
  · exact Nat.zero_le _

theorem text_ne_nil_of_make {range : RangeRef} {pattern : SearchPattern} {result found : Tag}
    {search : Search} (h : make range pattern result found = .ok search) {op : Comparison}
    {text : String} (htext : pattern = .text op text) : text.toList ≠ [] := by
  subst htext
  obtain ⟨_, _, h⟩ := bind_eq_ok.mp h
  obtain ⟨_, _, h⟩ := bind_eq_ok.mp h
  obtain ⟨_, _, h⟩ := bind_eq_ok.mp h
  dsimp only at h
  by_cases hop : (!op.isEquality) = true
  · rw [if_pos hop] at h
    cases h
  · rw [if_neg hop] at h
    by_cases hpattern : (!isPattern text) = true
    · rw [if_pos hpattern] at h
      cases h
    · rintro hnil
      obtain rfl : text = "" := String.toList_eq_nil_iff.mp hnil
      exact hpattern rfl

theorem executeGuarded_eq {search : Search}
    (htext : ∀ op text, search.pattern = .text op text → text.toList ≠ []) (ctx : ScanContext) :
    search.executeGuarded ctx = .ok (search.execute ctx) := by
  refine RangeRef.onCellsGuarded_eq fun cells => ?_
  unfold runGuarded run
  rw [remaining?_eq_drop]
  cases hfirst : search.firstPlace? cells ctx with
  | none => rfl
  | some place =>
    dsimp only [Option.map_some]
    rw [hitGuarded_eq cells.block htext (firstPlace?_le hfirst)]
    cases search.hit cells.block (cells.addresses.drop place) ctx <;> rfl

end Search

namespace Pack

/-- Sets bits of a 32-bit word from a place on. -/
def gatherBits : List Bool → Nat → Nat → Machine Nat
  | [], _, pattern => .ok pattern
  | b :: bs, place, pattern =>
    if b then do
      let places ← shiftAmount place 32
      gatherBits bs (place + 1) (pattern ||| 1 <<< places)
    else gatherBits bs (place + 1) pattern

/-- Reads so many bits of a pattern from a place on. -/
def spreadBits (pattern : Nat) : Nat → Nat → Machine (List Bool)
  | 0, _ => .ok []
  | count + 1, place => do
    let places ← shiftAmount place 32
    return ((pattern >>> places) % 2 == 1) :: (← spreadBits pattern count (place + 1))

def onPairGuarded (range : RangeRef) (tag : TagRef) (ctx : ScanContext)
    (next : BlockRange → Tag → Machine ScanContext) : Machine Outcome :=
  range.onCellsGuarded ctx fun cells =>
    match tag.resolve ctx with
    | some t => next cells t
    | none => .ok (ctx.raise .addressError)

theorem onPairGuarded_eq {range : RangeRef} {tag : TagRef} {ctx : ScanContext}
    {guarded : BlockRange → Tag → Machine ScanContext} {next : BlockRange → Tag → ScanContext}
    (h : ∀ cells t, guarded cells t = .ok (next cells t)) :
    onPairGuarded range tag ctx guarded = .ok (onPair range tag ctx next) := by
  refine RangeRef.onCellsGuarded_eq fun cells => ?_
  cases tag.resolve ctx with
  | none => rfl
  | some t => exact h cells t

/-- Induction over the bits: those set so far are below the place, so setting the next one adds
its power of two. -/
theorem gatherBits_eq (bits : List Bool) {place pattern : Nat} (hplace : place + bits.length ≤ 32)
    (hpattern : pattern < 2 ^ place) :
    gatherBits bits place pattern = .ok (pattern + 2 ^ place * ofBits bits) := by
  induction bits generalizing place pattern with
  | nil => rfl
  | cons b bs ih =>
    rw [List.length_cons] at hplace
    have hpower : 2 ^ (place + 1) = 2 ^ place * 2 := pow_succ 2 place
    cases b with
    | false =>
      rw [gatherBits, if_neg Bool.false_ne_true, ih (by omega) (by omega), hpower, ofBits,
        if_neg Bool.false_ne_true, Nat.zero_add, Nat.mul_assoc]
    | true =>
      have hset : pattern ||| 1 <<< place = pattern + 2 ^ place := by
        have hor := Nat.two_pow_add_eq_or_of_lt hpattern 1
        rw [mul_one] at hor
        rw [Nat.one_shiftLeft, Nat.or_comm, ← hor, Nat.add_comm]
      rw [gatherBits, if_pos rfl, shiftAmount_of_lt (by omega) (by omega)]
      change gatherBits bs (place + 1) (pattern ||| 1 <<< place) = _
      rw [hset, ih (by omega) (by omega), hpower, ofBits, if_pos rfl]
      congr 1
      ring

theorem spreadBits_eq (pattern count : Nat) {place : Nat} (h : place + count ≤ 32) :
    spreadBits pattern count place = .ok (toBits count (pattern >>> place)) := by
  induction count generalizing place with
  | zero => rfl
  | succ count ih =>
    rw [spreadBits, shiftAmount_of_lt (by omega) (by omega), ih (by omega), toBits,
      Nat.shiftRight_succ]
    rfl

end Pack

theorem TagType.width_le (t : TagType) : t.width ≤ 32 := by
  cases t <;> decide

namespace PackBits

def executeGuarded (pack : PackBits) (ctx : ScanContext) : Machine Outcome :=
  Pack.onPairGuarded pack.bits pack.target ctx fun cells target =>
    if target.type.width < cells.length then .ok (ctx.raise .outOfRange)
    else do
      let pattern ← Pack.gatherBits (cells.tags.map ctx.readBool) 0 0
      return Pack.writePattern ctx target pattern

theorem executeGuarded_eq (pack : PackBits) (ctx : ScanContext) :
    pack.executeGuarded ctx = .ok (pack.execute ctx) := by
  refine Pack.onPairGuarded_eq fun cells target => ?_
  split_ifs with hwidth
  · rfl
  · have hle := target.type.width_le
    have hlength : (cells.tags.map ctx.readBool).length = cells.length := by
      simp [BlockRange.tags, BlockRange.length]
    rw [Pack.gatherBits_eq _ (by omega) (by decide), Nat.zero_add, pow_zero, one_mul]
    rfl

end PackBits

namespace UnpackToBits

def executeGuarded (unpack : UnpackToBits) (ctx : ScanContext) : Machine Outcome :=
  Pack.onPairGuarded unpack.bits unpack.source ctx fun cells source =>
    if source.type.width < cells.length then .ok (ctx.raise .outOfRange)
    else match source.type.patternOf (ctx.read source) with
      | some pattern => do
        let bits ← Pack.spreadBits pattern cells.length 0
        return ctx.writeAll (cells.tags.zip (bits.map Value.bool))
      | none => .ok (ctx.raise .outOfRange)

theorem executeGuarded_eq (unpack : UnpackToBits) (ctx : ScanContext) :
    unpack.executeGuarded ctx = .ok (unpack.execute ctx) := by
  refine Pack.onPairGuarded_eq fun cells source => ?_
  split_ifs with hwidth
  · rfl
  · have hle := source.type.width_le
    cases source.type.patternOf (ctx.read source) with
    | none => rfl
    | some pattern =>
      dsimp only
      rw [Pack.spreadBits_eq pattern cells.length (by omega), Nat.shiftRight_zero]
      rfl

end UnpackToBits

end LadderLogic
