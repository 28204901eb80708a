import LadderLogic.Proofs.Effect.PlainCopy
import LadderLogic.Proofs.Text.RoundTrip

/-!
Which texts are read as integers. The grammar stands by itself: digits in positional notation, and
for decimal numbers a sign before them. Main results: a text is read for a type exactly if it
follows the grammar of the type and its number lies in the domain, and a range that is copied as a
value stores exactly such a number and otherwise raises a fault.
-/

set_option autoImplicit false

namespace LadderLogic

/-- A row of digits and its number. A digit counts as often as the base to the number of digits
after it says. -/
inductive Positional (base : Nat) (IsDigit : Char → Nat → Prop) : List Char → Nat → Prop
  | last {c : Char} {d : Nat} (digit : IsDigit c d) : Positional base IsDigit [c] d
  | more {c : Char} {d : Nat} {cs : List Char} {n : Nat} (digit : IsDigit c d)
      (rest : Positional base IsDigit cs n) :
      Positional base IsDigit (c :: cs) (d * base ^ cs.length + n)

def DecimalDigit (c : Char) (d : Nat) : Prop := d < 10 ∧ c = Nat.digitChar d

/-- A hexadecimal digit in either case. -/
def HexDigit (c : Char) (d : Nat) : Prop :=
  d < 16 ∧ (c = Nat.digitChar d ∨ c = (Nat.digitChar d).toUpper)

/-- At most one sign, and decimal digits after it. -/
inductive SignedDecimal : List Char → Int → Prop
  | bare {ds : List Char} {n : Nat} (digits : Positional 10 DecimalDigit ds n) : SignedDecimal ds n
  | plus {ds : List Char} {n : Nat} (digits : Positional 10 DecimalDigit ds n) :
      SignedDecimal ('+' :: ds) n
  | minus {ds : List Char} {n : Nat} (digits : Positional 10 DecimalDigit ds n) :
      SignedDecimal ('-' :: ds) (-n)

namespace Positional

variable {base : Nat} {IsDigit : Char → Nat → Prop} {cs : List Char} {n : Nat}

theorem ne_nil (h : Positional base IsDigit cs n) : cs ≠ [] := by
  cases h <;> simp

/-- Digits that are read from the left on, by induction on them: what was read before counts as
often as the base to the number of digits says. -/
theorem foldlM_eq_some_iff {digit? : Char → Option Nat}
    (hdigit : ∀ c d, IsDigit c d ↔ digit? c = some d) (hsome : cs ≠ []) {start total : Nat} :
    cs.foldlM (fun n c => (digit? c).map (base * n + ·)) start = some total ↔
      ∃ n, Positional base IsDigit cs n ∧ total = start * base ^ cs.length + n := by
  induction cs generalizing start with
  | nil => exact absurd rfl hsome
  | cons c cs ih =>
    simp only [List.foldlM_cons, Option.bind_eq_bind, Option.bind_eq_some_iff,
      Option.map_eq_some_iff]
    by_cases hcs : cs = []
    · subst hcs
      constructor
      · rintro ⟨_, ⟨d, hd, rfl⟩, htotal⟩
        refine ⟨d, .last ((hdigit c d).mpr hd), ?_⟩
        simp only [List.foldlM_nil, Option.pure_def, Option.some.injEq] at htotal
        simp [← htotal, mul_comm]
      · rintro ⟨n, hn, rfl⟩
        cases hn with
        | last digit => exact ⟨_, ⟨n, (hdigit c n).mp digit, rfl⟩, by simp [mul_comm]⟩
        | more digit rest => exact absurd rfl rest.ne_nil
    · constructor
      · rintro ⟨_, ⟨d, hd, rfl⟩, htotal⟩
        obtain ⟨n, hn, rfl⟩ := (ih hcs).mp htotal
        refine ⟨_, .more ((hdigit c d).mpr hd) hn, ?_⟩
        rw [List.length_cons, pow_succ]
        ring
      · rintro ⟨n, hn, rfl⟩
        cases hn with
        | last digit => exact absurd rfl hcs
        | more digit rest =>
          refine ⟨_, ⟨_, (hdigit c _).mp digit, rfl⟩, (ih hcs).mpr ⟨_, rest, ?_⟩⟩
          rw [List.length_cons, pow_succ]
          ring

end Positional

namespace Decimal

variable {c : Char} {cs : List Char} {d n : Nat}

/-- The decimal digit that a character stands for. -/
def decimalValue? (c : Char) : Option Nat := if c.isDigit then some (digitValue c) else none

theorem digitChar_eq_iff {d : Nat} (hd : d < 10) : c = Nat.digitChar d ↔ c.toNat = 48 + d := by
  have hvalue : (Nat.digitChar d).toNat = 48 + d := by
    interval_cases d <;> rfl
  rw [← Char.toNat_inj, hvalue]

theorem decimalDigit_iff (c : Char) (d : Nat) : DecimalDigit c d ↔ decimalValue? c = some d := by
  have hdigit : c.isDigit = true ↔ 48 ≤ c.toNat ∧ c.toNat ≤ 57 := Char.isDigit_iff_toNat
  have hvalue : digitValue c = c.toNat - 48 := rfl
  simp only [DecimalDigit, decimalValue?, Option.ite_none_right_eq_some, Option.some.injEq, hdigit,
    hvalue]
  constructor
  · rintro ⟨hd, hc⟩
    have := (digitChar_eq_iff hd).mp hc
    omega
  · rintro ⟨hrange, rfl⟩
    have hd : c.toNat - 48 < 10 := by omega
    exact ⟨hd, (digitChar_eq_iff hd).mpr (by omega)⟩

theorem hexDigit_iff (c : Char) (d : Nat) : HexDigit c d ↔ hexValue? c = some d := by
  constructor
  · rintro ⟨hd, rfl | rfl⟩ <;> interval_cases d <;> rfl
  · intro h
    refine ⟨hexValue?_lt h, ?_⟩
    have hc : c = Char.ofNat c.toNat := (Char.ofNat_toNat c).symm
    unfold hexValue? at h
    split_ifs at h with hdigit hlower hupper <;> simp only [Option.some.injEq] at h <;> subst h <;>
      rw [hc]
    · obtain ⟨hlow, hhigh⟩ : 48 ≤ c.toNat ∧ c.toNat ≤ 57 := Char.isDigit_iff_toNat.mp hdigit
      interval_cases c.toNat <;> decide
    · obtain ⟨hlow, hhigh⟩ : 97 ≤ c.toNat ∧ c.toNat ≤ 102 := hlower
      interval_cases c.toNat <;> decide
    · obtain ⟨hlow, hhigh⟩ : 65 ≤ c.toNat ∧ c.toNat ≤ 70 := hupper
      interval_cases c.toNat <;> decide

theorem foldlM_decimalValue? (cs : List Char) (start : Nat) :
    cs.foldlM (fun n c => (decimalValue? c).map (10 * n + ·)) start =
      if cs.all Char.isDigit then some (cs.foldl (fun n c => 10 * n + digitValue c) start)
      else none := by
  induction cs generalizing start with
  | nil => simp
  | cons c cs ih =>
    rw [List.foldlM_cons, List.all_cons, List.foldl_cons]
    by_cases hc : c.isDigit = true
    · rw [decimalValue?, if_pos hc, hc, Bool.true_and]
      exact ih (10 * start + digitValue c)
    · simp [decimalValue?, hc]

/-- Decimal digits have the value that their places give them. -/
theorem positional_iff : Positional 10 DecimalDigit cs n ↔
    cs ≠ [] ∧ cs.all Char.isDigit = true ∧ value cs = n := by
  have hread : cs ≠ [] → (Positional 10 DecimalDigit cs n ↔
      cs.all Char.isDigit = true ∧ value cs = n) := by
    intro hsome
    have h : cs.foldlM (fun n c => (decimalValue? c).map (10 * n + ·)) 0 = some n ↔ _ :=
      Positional.foldlM_eq_some_iff decimalDigit_iff hsome
    rw [foldlM_decimalValue?, Option.ite_none_right_eq_some, Option.some.injEq] at h
    simpa [value] using h.symm
  constructor
  · intro h
    exact ⟨h.ne_nil, (hread h.ne_nil).mp h⟩
  · rintro ⟨hsome, h⟩
    exact (hread hsome).mpr h

theorem hexNumber?_eq_some_iff (hsome : cs ≠ []) :
    hexNumber? cs = some n ↔ Positional 16 HexDigit cs n := by
  rw [hexNumber?, Positional.foldlM_eq_some_iff hexDigit_iff hsome]
  simp

end Decimal

namespace Conversion

variable {cs : List Char} {i : Int}

theorem signedDecimal?_plus {ds : List Char} (hsome : ds ≠ [])
    (hdigits : ∀ c ∈ ds, c.isDigit = true) :
    signedDecimal? ('+' :: ds) = Integer.checked (Decimal.value ds) :=
  if_pos ⟨hsome, List.all_eq_true.mpr hdigits⟩

/-- What is accepted as a signed decimal is one, with a number of 64 bits. -/
theorem signedDecimal?_eq_some_iff :
    signedDecimal? cs = some i ↔ SignedDecimal cs i ∧ Integer.Fits i := by
  constructor
  · intro h
    unfold signedDecimal? at h
    split at h
    next negative ds hsplit =>
      rw [Option.ite_none_right_eq_some] at h
      obtain ⟨⟨hsome, hdigits⟩, hchecked⟩ := h
      have hnumber := Decimal.positional_iff.mpr ⟨hsome, hdigits, rfl⟩
      rw [Integer.checked, Option.ite_none_right_eq_some, Option.some.injEq] at hchecked
      obtain ⟨hfits, rfl⟩ := hchecked
      refine ⟨?_, hfits⟩
      split at hsplit <;> cases hsplit
      · exact .minus hnumber
      · exact .plus hnumber
      · exact .bare hnumber
  · rintro ⟨h, hfits⟩
    have hchecked : Integer.checked i = some i := if_pos hfits
    cases h with
    | bare digits =>
      obtain ⟨hsome, hdigits, rfl⟩ := Decimal.positional_iff.mp digits
      rw [signedDecimal?_of_digits hsome (List.all_eq_true.mp hdigits), hchecked]
    | plus digits =>
      obtain ⟨hsome, hdigits, rfl⟩ := Decimal.positional_iff.mp digits
      rw [signedDecimal?_plus hsome (List.all_eq_true.mp hdigits), hchecked]
    | minus digits =>
      obtain ⟨hsome, hdigits, rfl⟩ := Decimal.positional_iff.mp digits
      rw [signedDecimal?_dash hsome (List.all_eq_true.mp hdigits), hchecked]

end Conversion

namespace PackText

variable {cs : List Char} {v : Value}

theorem readInteger?_eq_some_iff {low high : Int}
    (hfits : ∀ i, low ≤ i → i ≤ high → Integer.Fits i) :
    readInteger? low high cs = some v ↔
      ∃ i, SignedDecimal cs i ∧ (low ≤ i ∧ i ≤ high) ∧ v = .int i := by
  unfold readInteger?
  constructor
  · intro h
    split at h
    next i hread =>
      rw [Option.ite_none_right_eq_some, Option.some.injEq] at h
      obtain ⟨hrange, rfl⟩ := h
      exact ⟨i, (Conversion.signedDecimal?_eq_some_iff.mp hread).1, hrange, rfl⟩
    next => cases h
  · rintro ⟨i, hnumber, hrange, rfl⟩
    have hread := Conversion.signedDecimal?_eq_some_iff.mpr ⟨hnumber, hfits i hrange.1 hrange.2⟩
    simp only [hread]
    exact if_pos hrange

/-- INT and DINT take the signed decimals of their domains. -/
theorem read?_decimal_iff {type : TagType} (htype : type = .int ∨ type = .dint) :
    read? cs type = some v ↔ ∃ i, SignedDecimal cs i ∧ type.Holds (.int i) ∧ v = .int i := by
  rcases htype with rfl | rfl
  · exact readInteger?_eq_some_iff fun i _ _ => Integer.fits_of_small (by omega)
  · exact readInteger?_eq_some_iff fun i _ _ => Integer.fits_of_small (by omega)

/-- WORD takes up to four hexadecimal digits, which always lie in its domain. -/
theorem read?_word_iff : read? cs .word = some v ↔
    ∃ n : Nat, Positional 16 HexDigit cs n ∧ cs.length ≤ 4 ∧ v = .int n := by
  show readWord? cs = some v ↔ _
  unfold readWord?
  constructor
  · intro h
    rw [Option.ite_none_left_eq_some] at h
    obtain ⟨hlength, h⟩ := h
    rw [not_or, not_lt] at hlength
    obtain ⟨i, hi, rfl⟩ := Option.map_eq_some_iff.mp h
    obtain ⟨n, hn, hcast⟩ := Option.bind_eq_some_iff.mp hi
    obtain rfl : (n : Int) = i := Option.some.inj hcast
    exact ⟨n, (Decimal.hexNumber?_eq_some_iff hlength.1).mp hn, hlength.2, rfl⟩
  · rintro ⟨n, hn, hlength, rfl⟩
    rw [if_neg (by simp [hn.ne_nil, hlength]), (Decimal.hexNumber?_eq_some_iff hn.ne_nil).mpr hn]
    rfl

end PackText

namespace Tag

/-- A number outside the domain is refused, not clamped. -/
theorem storeExact_of_not_holds {t : Tag} {i : Int} (htype : t.type.isInteger = true)
    (hholds : ¬ t.type.Holds (.int i)) : t.storeExact i = .error .outOfRange := by
  obtain ⟨name, type, initial, retentive⟩ := t
  cases type with
  | bool | real | char => cases htype
  | int | dint | word =>
    simp only [TagType.Holds, not_and_or, not_le] at hholds
    simp only [Tag.storeExact, TagType.bounds?]
    exact if_pos hholds

end Tag

namespace SingleCopy

variable {ctx : ScanContext} {range : RangeRef} {target : TagRef} {copy : SingleCopy}
  {cells : BlockRange} {t : Tag} {i : Int}

theorem execute_of_signedDecimal (htype : t.type.isInteger = true)
    (hcells : range.resolve ctx = .ok (some cells)) (ht : target.resolve ctx = some t)
    (hnumber : SignedDecimal (cells.text ctx) i) (hholds : t.type.Holds (.int i)) :
    execute ⟨.range range, .tag target, some .asValue⟩ ctx = (ctx.write t (.int i)).proceed := by
  have hread := Conversion.signedDecimal?_eq_some_iff.mpr
    ⟨hnumber, Typing.fits_of_holds hholds⟩
  rw [execute, stage_asValue hcells ht, hread]
  simp only [storeExact_of_holds htype hholds]
  rfl

theorem execute_of_not_signedDecimal (htype : t.type.isInteger = true)
    (hcells : range.resolve ctx = .ok (some cells)) (ht : target.resolve ctx = some t)
    (hnone : ∀ i, ¬ (SignedDecimal (cells.text ctx) i ∧ t.type.Holds (.int i))) :
    execute ⟨.range range, .tag target, some .asValue⟩ ctx =
      (ctx.raise .outOfRange).proceed := by
  rw [execute, stage_asValue hcells ht]
  cases hread : Conversion.signedDecimal? (cells.text ctx) with
  | none => rfl
  | some i =>
    have hnumber := (Conversion.signedDecimal?_eq_some_iff.mp hread).1
    have hholds : ¬ t.type.Holds (.int i) := fun h => hnone i ⟨hnumber, h⟩
    simp only [Tag.storeExact_of_not_holds htype hholds]
    rfl

theorem isInteger_of_make (hmade : make (.range range) (.tag target) (some .asValue) = .ok copy)
    (ht : target.resolve ctx = some t) : t.type.isInteger = true := by
  have hvalid := isValid_of_make hmade
  rw [TagRef.type_eq_of_hasCell (TagRef.hasCell_of_resolve ht)]
  simp only [isValid, Bool.and_eq_true] at hvalid
  exact hvalid.2

/-- A write raises no fault, and it tells which number was written. -/
theorem write_injective {j : Int}
    (h : (ctx.write t (.int i)).proceed = (ctx.write t (.int j)).proceed) : i = j := by
  have hcontext := congrArg (fun o : Outcome => o.context.tag? t.name) h
  simpa [ScanContext.proceed, ScanContext.write, ScanContext.tag?_setTag] using hcontext

theorem write_ne_raise {v : Value} (f : Fault) :
    (ctx.write t v).proceed ≠ (ctx.raise f).proceed := by
  intro h
  have hnotices := congrArg (fun o : Outcome => o.context.notices.size) h
  simp [ScanContext.proceed, ScanContext.write, ScanContext.raise, ScanContext.report,
    ScanContext.setTag] at hnotices

/-- A copy of a text as a value stores exactly the signed decimals of the domain. For any other text
it only raises the fault, which is a tag like others. -/
structure StoresNumber (copy : SingleCopy) (ctx : ScanContext) (cells : BlockRange) (t : Tag) :
    Prop where
  stores_iff : ∀ i, copy.execute ctx = (ctx.write t (.int i)).proceed ↔
    SignedDecimal (cells.text ctx) i ∧ t.type.Holds (.int i)
  refuses : (∀ i, ¬ (SignedDecimal (cells.text ctx) i ∧ t.type.Holds (.int i))) →
    copy.execute ctx = (ctx.raise .outOfRange).proceed ∧
    (ctx.raise .outOfRange).faultActive .outOfRange = true ∧
    ∀ name ≠ Fault.outOfRange.tagName, (ctx.raise .outOfRange).tag? name = ctx.tag? name

theorem storesNumber_of_make (hmade : make (.range range) (.tag target) (some .asValue) = .ok copy)
    (hcells : range.resolve ctx = .ok (some cells)) (ht : target.resolve ctx = some t) :
    copy.StoresNumber ctx cells t := by
  have htype := isInteger_of_make hmade ht
  obtain rfl : ⟨.range range, .tag target, some .asValue⟩ = copy := by
    rw [make, if_pos (isValid_of_make hmade)] at hmade
    exact Except.ok.inj hmade
  constructor
  case stores_iff =>
    intro i
    constructor
    · intro hwrite
      by_cases hsome : ∃ j, SignedDecimal (cells.text ctx) j ∧ t.type.Holds (.int j)
      · obtain ⟨j, hnumber, hholds⟩ := hsome
        rw [execute_of_signedDecimal htype hcells ht hnumber hholds] at hwrite
        obtain rfl := write_injective hwrite
        exact ⟨hnumber, hholds⟩
      · rw [execute_of_not_signedDecimal htype hcells ht (not_exists.mp hsome)] at hwrite
        exact absurd hwrite.symm (write_ne_raise _)
    · rintro ⟨hnumber, hholds⟩
      exact execute_of_signedDecimal htype hcells ht hnumber hholds
  case refuses =>
    intro hnone
    refine ⟨execute_of_not_signedDecimal htype hcells ht hnone, ?_, ?_⟩
    · simp [ScanContext.faultActive, ScanContext.raise, ScanContext.tag?_setTag, Value.isTruthy]
    · intro name hname
      unfold ScanContext.raise
      rw [ScanContext.tag?_setTag, if_neg hname]
      rfl

/-- Text is read as an integer exactly by the grammar of its type, and within the domain; and so it
is stored by a copy. -/
theorem reads_grammar :
    (∀ type, type = .int ∨ type = .dint → ∀ cs v, PackText.read? cs type = some v ↔
      ∃ i, SignedDecimal cs i ∧ type.Holds (.int i) ∧ v = .int i) ∧
    (∀ cs v, PackText.read? cs .word = some v ↔
      ∃ n : Nat, Positional 16 HexDigit cs n ∧ cs.length ≤ 4 ∧ v = .int n) ∧
    ∀ (range : RangeRef) (target : TagRef) (copy : SingleCopy) (ctx : ScanContext)
      (cells : BlockRange) (t : Tag),
      make (.range range) (.tag target) (some .asValue) = .ok copy →
      range.resolve ctx = .ok (some cells) → target.resolve ctx = some t →
      copy.StoresNumber ctx cells t :=
  ⟨fun _ h _ _ => PackText.read?_decimal_iff h, fun _ _ => PackText.read?_word_iff,
    fun _ _ _ _ _ _ => storesNumber_of_make⟩

end SingleCopy

namespace Sample

def threeLetters : BlockRange := Block.all ⟨"TXT", .char, 1, 3, none, none, true, .text ""⟩

/-- The letters spell a number with a zero in front. -/
def spelled : ScanContext :=
  .start (.ofTags (.ofEntries
    [("TXT1", .text "-"), ("TXT2", .text "0"), ("TXT3", .text "7")])) ∅

/-- The letters are no number, and the fault tag is declared as a number itself. -/
def misspelled : ScanContext :=
  .start (.ofTags (.ofEntries
    [("TXT1", .text "-"), (Fault.outOfRange.tagName, .int 5)])) ∅

end Sample

theorem SingleCopy.reads_grammar_sample :
    PackText.read? ['-', '0', '7'] .int = some (.int (-7)) ∧
    SingleCopy.execute ⟨.range (.direct Sample.threeLetters), .tag (.direct Sample.offset),
      some .asValue⟩ Sample.spelled = (Sample.spelled.write Sample.offset (.int (-7))).proceed := by
  have hnumber : SignedDecimal ['-', '0', '7'] (-(7 : Nat)) :=
    .minus (.more (d := 0) ⟨by decide, rfl⟩ (.last (d := 7) ⟨by decide, rfl⟩))
  have hcells : (RangeRef.direct Sample.threeLetters).resolve Sample.spelled =
      .ok (some Sample.threeLetters) := rfl
  have htarget : (TagRef.direct Sample.offset).resolve Sample.spelled = some Sample.offset := rfl
  obtain ⟨hdecimal, -, hcopy⟩ := reads_grammar
  have hstores := (hcopy _ _ _ _ _ _ rfl hcells htarget).stores_iff (-7)
  exact ⟨(hdecimal .int (.inl rfl) _ _).mpr ⟨-7, hnumber, by decide, rfl⟩,
    hstores.mpr ⟨hnumber, by decide⟩⟩

/-- The fault tag can be the target of a copy. Then a text that is no number overwrites it. -/
theorem SingleCopy.exists_overwritten_target :
    ∃ (range : RangeRef) (target : Tag) (copy : SingleCopy) (ctx : ScanContext)
        (cells : BlockRange),
      make (.range range) (.tag (.direct target)) (some .asValue) = .ok copy ∧
      range.resolve ctx = .ok (some cells) ∧
      (∀ i, ¬ (SignedDecimal (cells.text ctx) i ∧ target.type.Holds (.int i))) ∧
      (copy.execute ctx).context.faultActive .outOfRange = true ∧
      (copy.execute ctx).context.tag? target.name ≠ ctx.tag? target.name := by
  let target : Tag := .ofType .int Fault.outOfRange.tagName
  have hnone : ∀ i, ¬ (SignedDecimal (Sample.threeLetters.text Sample.misspelled) i ∧
      target.type.Holds (.int i)) := by
    rintro i ⟨hnumber, hholds⟩
    have hread : Conversion.signedDecimal? ['-'] = some i :=
      Conversion.signedDecimal?_eq_some_iff.mpr ⟨hnumber, Typing.fits_of_holds hholds⟩
    exact absurd hread nofun
  have hcells : (RangeRef.direct Sample.threeLetters).resolve Sample.misspelled =
      .ok (some Sample.threeLetters) := rfl
  have htarget : (TagRef.direct target).resolve Sample.misspelled = some target := rfl
  have hexecute := execute_of_not_signedDecimal rfl hcells htarget hnone
  refine ⟨.direct Sample.threeLetters, target, _, Sample.misspelled, _, rfl, rfl, hnone, ?_, ?_⟩
  · rw [hexecute]
    rfl
  · rw [hexecute]
    decide

end LadderLogic
