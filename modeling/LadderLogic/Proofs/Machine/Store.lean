import LadderLogic.Instruction
import LadderLogic.Proofs.Machine.Arithmetic

/-!
What enters a cell, in guarded steps. A CALC wraps its result to the width of the cell, by a modulus
that is a shifted one; a copy that converts takes the digit that a character stands for, or the
character of a code. All of these stay in their words whatever is stored.
-/

set_option autoImplicit false

namespace LadderLogic

open Machine

/-- Goes through a list with steps that may end in an error, up to the first one that does. -/
def Machine.traverse {ε α β : Type} (step : α → Machine (Except ε β)) :
    List α → Machine (Except ε (List β))
  | [] => return .ok []
  | a :: rest => do
    onResult (← step a) fun b => do
      onResult (← traverse step rest) fun bs => return .ok (b :: bs)

theorem Machine.traverse_eq {ε α β : Type} {guarded : α → Machine (Except ε β)}
    {step : α → Except ε β} (h : ∀ a, guarded a = .ok (step a)) (xs : List α) :
    traverse guarded xs = .ok (xs.mapM step) := by
  induction xs with
  | nil => rfl
  | cons a rest ih =>
    rw [traverse, h, ih, List.mapM_cons]
    exact onResult_eq fun b _ => onResult_eq fun bs _ => rfl

namespace Integer

/-- The residue modulo a power of two. A signed one in the upper half of the residues is moved down by
the modulus. -/
def residueGuarded (bits : Nat) (isSigned : Bool) (i : Int) : Machine Int := do
  let width ← shiftAmount bits 64
  let half ← shiftAmount (bits - 1) 64
  let modulus : Int := (1 <<< width : Nat)
  let wrapped := i % modulus
  if isSigned && (1 <<< half : Nat) ≤ wrapped then word (wrapped - modulus) else return wrapped

/-- The balanced residue modulo an even number, from the residue that is not negative. -/
theorem bmod_two_mul (i : Int) (half : Nat) :
    i.bmod (2 * half) = if (half : Int) ≤ i % (2 * half : Nat) then
      i % (2 * half : Nat) - (2 * half : Nat) else i % (2 * half : Nat) := by
  have hcenter : (((2 * half : Nat) : Int) + 1) / 2 = half := by omega
  unfold Int.bmod
  rw [hcenter]
  dsimp only
  by_cases hupper : (half : Int) ≤ i % (2 * half : Nat)
  · rw [if_neg (not_lt.mpr hupper), if_pos hupper]
  · rw [if_pos (not_le.mp hupper), if_neg hupper]

theorem residueGuarded_eq {bits : Nat} (hpos : 0 < bits) (hle : bits ≤ 32) (isSigned : Bool)
    (i : Int) : residueGuarded bits isSigned i = .ok (residue bits isSigned i) := by
  obtain ⟨places, rfl⟩ : ∃ places, bits = places + 1 := ⟨bits - 1, by omega⟩
  have hplaces : ((places : Int) + 1).toNat = places + 1 := by omega
  have hhalf : 0 < 1 <<< places ∧ 1 <<< places ≤ 2147483648 := by
    rw [Nat.one_shiftLeft]
    exact ⟨Nat.two_pow_pos places, Nat.pow_le_pow_right (by decide : 0 < 2) (by omega : places ≤ 31)⟩
  have hmodulus : 1 <<< (places + 1) = 2 * 1 <<< places := by
    rw [Nat.one_shiftLeft, Nat.one_shiftLeft, pow_succ, Nat.mul_comm]
  unfold residueGuarded residue
  rw [shiftAmount_of_lt (by omega) (by omega), shiftAmount_of_lt (by omega) (by omega)]
  simp only [bind, Except.bind, Int.toNat_natCast, Nat.cast_add, Nat.cast_one,
    add_sub_cancel_right]
  rw [hplaces, hmodulus]
  generalize 1 <<< places = half at hhalf
  cases isSigned with
  | false => rfl
  | true =>
    simp only [Bool.true_and, decide_eq_true_eq, if_true, bmod_two_mul]
    split_ifs
    · have hlow := Int.emod_nonneg i (by omega : ((2 * half : Nat) : Int) ≠ 0)
      have hhigh := Int.emod_lt_of_pos i (by omega : 0 < ((2 * half : Nat) : Int))
      exact word_of_fits (fits_of_small (by omega))
    · rfl

end Integer

namespace TagType

/-- Widths of cells are at most those of DINT, so every residue is exact. -/
def storeCalcGuarded (t : TagType) (v : Value) (hex : Bool) : Machine (Option Value) :=
  match calcInteger? v with
  | none => return none
  | some i =>
    if hex then do return some (t.storeWord (← Integer.residueGuarded 16 false i))
    else match t with
      | bool => return some (.bool v.isTruthy)
      | int => do return some (.int (← Integer.residueGuarded 16 true i))
      | dint => do return some (.int (← Integer.residueGuarded 32 true i))
      | word => do return some (.int (← Integer.residueGuarded 16 false i))
      | real => return calcReal? v
      | char => return none

theorem storeCalcGuarded_eq (t : TagType) (v : Value) (hex : Bool) :
    t.storeCalcGuarded v hex = .ok (t.storeCalc v hex) := by
  have hword : ∀ isSigned i, Integer.residueGuarded 16 isSigned i = .ok _ :=
    Integer.residueGuarded_eq (by decide) (by decide)
  have hlong : ∀ isSigned i, Integer.residueGuarded 32 isSigned i = .ok _ :=
    Integer.residueGuarded_eq (by decide) (by decide)
  unfold storeCalcGuarded storeCalc
  cases calcInteger? v with
  | none => rfl
  | some i =>
    cases hex with
    | true =>
      simp only [if_true, hword]
      rfl
    | false => cases t <;> simp only [Bool.false_eq_true, if_false, hword, hlong] <;> rfl

end TagType

namespace Calc

def storedGuarded (c : Calc) (t : TagType) : Option Value → Machine (Option Value)
  | none => return none
  | some v => t.storeCalcGuarded v c.hex

def zeroGuarded (t : TagType) (hex : Bool) : Machine Value := do
  return (← t.storeCalcGuarded (.int 0) hex).getD t.initial

/-- Stores a result, or zero where there is none. -/
def settleGuarded (c : Calc) (result : Option Value) (ctx : ScanContext) : Machine ScanContext :=
  match c.target.resolve ctx with
  | none => return ctx.raise .addressError
  | some tag => do
    match ← c.storedGuarded tag.type result with
    | some v => return ctx.write tag v
    | none => return (ctx.raise .divisionError).write tag (← zeroGuarded tag.type c.hex)

def executeGuarded (c : Calc) (ctx : ScanContext) : Machine ScanContext :=
  match c.expression.evaluate ctx with
  | .error .address => return ctx.raise .addressError
  | result => c.settleGuarded result.toOption ctx

theorem storedGuarded_eq (c : Calc) (t : TagType) (v : Option Value) :
    c.storedGuarded t v = .ok (v.bind fun v => t.storeCalc v c.hex) := by
  cases v with
  | none => rfl
  | some v => exact t.storeCalcGuarded_eq v c.hex

theorem zeroGuarded_eq (t : TagType) (hex : Bool) : zeroGuarded t hex = .ok (zero t hex) := by
  unfold zeroGuarded zero
  rw [t.storeCalcGuarded_eq]
  rfl

theorem settleGuarded_eq (c : Calc) (result : Option Value) (ctx : ScanContext) :
    c.settleGuarded result ctx = .ok
      (match c.target.resolve ctx with
        | none => ctx.raise .addressError
        | some tag =>
          match result.bind fun v => tag.type.storeCalc v c.hex with
          | some v => ctx.write tag v
          | none => (ctx.raise .divisionError).write tag (zero tag.type c.hex)) := by
  unfold settleGuarded
  cases c.target.resolve ctx with
  | none => rfl
  | some tag =>
    dsimp only
    rw [storedGuarded_eq, zeroGuarded_eq]
    cases result.bind fun v => tag.type.storeCalc v c.hex <;> rfl

theorem executeGuarded_eq (c : Calc) (ctx : ScanContext) :
    c.executeGuarded ctx = .ok (c.execute ctx) := by
  unfold executeGuarded execute
  cases c.expression.evaluate ctx with
  | ok v => exact c.settleGuarded_eq (some v) ctx
  | error fault =>
    cases fault with
    | address => rfl
    | divisionByZero | domain | nonFinite => exact c.settleGuarded_eq none ctx

end Calc

namespace Conversion

/-- The digit that a character stands for, by its distance from zero. -/
def charDigitGuarded (v : Value) : Machine (Except Fault Int) :=
  match v.firstChar? with
  | some c =>
    if c.isDigit then do return .ok (← word ((c.toNat : Int) - ('0'.toNat : Int)))
    else return .error .outOfRange
  | none => return .error .outOfRange

/-- The character of a code, which is a byte. -/
def codeCharGuarded (v : Value) : Machine (Except Fault Value) :=
  match v.toInt? with
  | some i =>
    if 0 ≤ i ∧ i ≤ 127 then do
      return .ok (.text (String.singleton (Char.ofNat (← unsigned 8 i))))
    else return .error .outOfRange
  | none => return .error .outOfRange

theorem charDigitGuarded_eq (v : Value) : charDigitGuarded v = .ok (charDigit v) := by
  unfold charDigitGuarded charDigit
  cases v.firstChar? with
  | none => rfl
  | some c =>
    dsimp only
    split_ifs with hdigit
    · have hbounds : '0'.toNat ≤ c.toNat ∧ c.toNat ≤ '9'.toNat := by
        simpa [Char.isDigit, Char.le_def, UInt32.le_iff_toNat_le] using hdigit
      have hdistance : (c.toNat : Int) - ('0'.toNat : Int) = (Decimal.digitValue c : Int) := by
        unfold Decimal.digitValue
        omega
      have hnine : '9'.toNat = 57 := rfl
      have hfits : Integer.Fits (Decimal.digitValue c : Int) := by
        unfold Decimal.digitValue
        exact Integer.fits_of_small (by omega)
      rw [hdistance, word_of_fits hfits]
      rfl
    · rfl

theorem codeCharGuarded_eq (v : Value) : codeCharGuarded v = .ok (codeChar v) := by
  unfold codeCharGuarded codeChar
  cases v.toInt? with
  | none => rfl
  | some i =>
    dsimp only
    split_ifs with hcode
    · obtain ⟨code, rfl⟩ := Int.eq_ofNat_of_zero_le hcode.1
      rw [unsigned_of_lt (by omega : code < 2 ^ 8)]
      rfl
    · rfl

end Conversion

def Tag.storeConvertedGuarded (tag : Tag) (conversion : Option Conversion) (value : Value) :
    Machine (Except Fault (Tag × Value)) :=
  match conversion with
  | none => return tag.store value
  | some .asValue => do
    onResult (← Conversion.charDigitGuarded value) fun i => return tag.storeExact i
  | some .asAscii => return tag.storeConverted (some .asAscii) value
  | some .asBinary => do
    onResult (← Conversion.codeCharGuarded value) fun v => return tag.store v
  | some (.asText _) => return .error .outOfRange

theorem Tag.storeConvertedGuarded_eq (tag : Tag) (conversion : Option Conversion)
    (value : Value) :
    tag.storeConvertedGuarded conversion value = .ok (tag.storeConverted conversion value) := by
  unfold storeConvertedGuarded storeConverted
  split
  case h_1 => rfl
  case h_2 =>
    rw [Conversion.charDigitGuarded_eq]
    exact onResult_eq fun _ _ => rfl
  case h_3 => rfl
  case h_4 =>
    rw [Conversion.codeCharGuarded_eq]
    exact onResult_eq fun _ _ => rfl
  case h_5 => rfl

/-- Makes the writes that are staged in guarded steps. -/
def ScanContext.performGuarded (ctx : ScanContext) (staged : Machine (Except LadderError Staged)) :
    Machine Outcome :=
  return ctx.perform (← staged)

namespace SingleCopy

def convertScalarGuarded (copy : SingleCopy) (tag : Tag) (value : Value) :
    Machine (Except Fault (Tag × Value)) :=
  match copy.source, copy.conversion with
  | .range _, some .asValue =>
    match value.toText?.bind fun s => Conversion.signedDecimal? s.toList with
    | some i => return tag.storeExact i
    | none => return .error .outOfRange
  | _, conversion => tag.storeConvertedGuarded conversion value

def stageTagGuarded (copy : SingleCopy) (target : TagRef) (value : Value) (ctx : ScanContext) :
    Machine (Except LadderError Staged) :=
  match target.resolve ctx with
  | some tag => do return .ok ((← copy.convertScalarGuarded tag value).map fun write => [write])
  | none => return .ok (.error .addressError)

/-- A text is spread over cells without any arithmetic, so only a single tag needs guards. -/
def stageGuarded (copy : SingleCopy) (ctx : ScanContext) : Machine (Except LadderError Staged) :=
  match copy.target with
  | .range _ => return copy.stage ctx
  | .tag target =>
    onResult (copy.sourceValue ctx) fun source =>
      match source with
      | .error fault => return .ok (.error fault)
      | .ok value => copy.stageTagGuarded target value ctx

def executeGuarded (copy : SingleCopy) (ctx : ScanContext) : Machine Outcome :=
  ctx.performGuarded (copy.stageGuarded ctx)

theorem convertScalarGuarded_eq (copy : SingleCopy) (tag : Tag) (value : Value) :
    copy.convertScalarGuarded tag value = .ok (copy.convertScalar tag value) := by
  unfold convertScalarGuarded convertScalar
  cases copy.source with
  | value e => exact tag.storeConvertedGuarded_eq copy.conversion value
  | range r =>
    cases copy.conversion with
    | none => exact tag.storeConvertedGuarded_eq none value
    | some conversion =>
      cases conversion with
      | asValue =>
        dsimp only
        cases value.toText?.bind fun s => Conversion.signedDecimal? s.toList <;> rfl
      | asAscii | asText _ | asBinary => exact tag.storeConvertedGuarded_eq _ value

theorem stageGuarded_eq (copy : SingleCopy) (ctx : ScanContext) :
    copy.stageGuarded ctx = .ok (copy.stage ctx) := by
  unfold stageGuarded
  cases htarget : copy.target with
  | range r => rfl
  | tag target =>
    unfold stage
    rw [htarget]
    refine onResult_eq fun source _ => ?_
    cases source with
    | error fault => rfl
    | ok value =>
      dsimp only
      unfold stageTagGuarded
      cases target.resolve ctx with
      | none => rfl
      | some tag =>
        dsimp only
        rw [convertScalarGuarded_eq]
        rfl

theorem executeGuarded_eq (copy : SingleCopy) (ctx : ScanContext) :
    copy.executeGuarded ctx = .ok (copy.execute ctx) := by
  unfold executeGuarded
  rw [stageGuarded_eq]
  rfl

end SingleCopy

namespace BlockCopy

def stageCellsGuarded (copy : BlockCopy) (ctx : ScanContext) (source target : BlockRange) :
    Machine Staged :=
  if source.length = target.length then
    traverse (fun pair => pair.2.storeConvertedGuarded copy.conversion (ctx.read pair.1))
      (source.tags.zip target.tags)
  else return .error .addressError

def stageGuarded (copy : BlockCopy) (ctx : ScanContext) : Machine (Except LadderError Staged) :=
  onResult (copy.source.resolve ctx) fun source =>
    match source with
    | none => return .ok (.error .addressError)
    | some source => onResult (copy.target.resolve ctx) fun target =>
        match target with
        | none => return .ok (.error .addressError)
        | some target => do return .ok (← copy.stageCellsGuarded ctx source target)

def executeGuarded (copy : BlockCopy) (ctx : ScanContext) : Machine Outcome :=
  ctx.performGuarded (copy.stageGuarded ctx)

theorem stageCellsGuarded_eq (copy : BlockCopy) (ctx : ScanContext)
    (source target : BlockRange) :
    copy.stageCellsGuarded ctx source target = .ok (copy.stageCells ctx source target) := by
  unfold stageCellsGuarded stageCells
  split_ifs
  · exact traverse_eq (fun pair => pair.2.storeConvertedGuarded_eq _ _) _
  · rfl

theorem stageGuarded_eq (copy : BlockCopy) (ctx : ScanContext) :
    copy.stageGuarded ctx = .ok (copy.stage ctx) := by
  refine onResult_eq fun source _ => ?_
  cases source with
  | none => rfl
  | some source =>
    refine onResult_eq fun target _ => ?_
    cases target with
    | none => rfl
    | some target =>
      dsimp only
      rw [stageCellsGuarded_eq]
      rfl

theorem executeGuarded_eq (copy : BlockCopy) (ctx : ScanContext) :
    copy.executeGuarded ctx = .ok (copy.execute ctx) := by
  unfold executeGuarded
  rw [stageGuarded_eq]
  rfl

end BlockCopy

end LadderLogic
