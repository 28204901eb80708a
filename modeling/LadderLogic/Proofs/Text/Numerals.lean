import LadderLogic.Proofs.Expression.Integers
import LadderLogic.Proofs.Text.Ascii

/-!
Numbers as text, read back. The digits of a number have its value whatever zeros stand before them,
so what a number is rendered as is read as that number again, in decimal and in hexadecimal.
-/

set_option autoImplicit false

namespace LadderLogic

namespace Decimal

theorem value_eq (cs : List Char) : value cs = Nat.ofDigitChars 10 cs 0 := by
  rw [Nat.ofDigitChars_eq_foldl]
  rfl

@[simp] theorem value_digits (n : Nat) : value (digits n) = n := by
  rw [value_eq]
  exact Nat.ofDigitChars_ten_toDigits

theorem digits_injective {n m : Nat} (h : digits n = digits m) : n = m := by
  rw [← value_digits n, h, value_digits]

@[simp] theorem digits_ne_nil (n : Nat) : digits n ≠ [] := Nat.toDigits_ne_nil

theorem isDigit_of_mem_digits {n : Nat} {c : Char} (h : c ∈ digits n) : c.isDigit = true :=
  Nat.isDigit_of_mem_toDigits (by decide) (by decide) h

/-- Zeros in front do not count. -/
theorem value_padLeft (width : Nat) (cs : List Char) : value (padLeft width cs) = value cs := by
  unfold padLeft value
  rw [List.foldl_append]
  congr 1
  induction width - cs.length with
  | zero => rfl
  | succ count ih => exact ih

/-- The texts of different integers differ. -/
theorem text_injective {i j : Int} (h : text i = text j) : i = j := by
  have h := String.ofList_injective h
  have hsign : ∀ n m : Nat, '-' :: digits n ≠ digits m := by
    intro n m heq
    have hdash : '-' ∈ digits m := by
      rw [← heq]
      exact List.mem_cons_self
    exact absurd (isDigit_of_mem_digits hdash) (by decide)
  unfold integer at h
  split_ifs at h with hi hj hj
  · have habs := digits_injective (List.cons.inj h).2
    omega
  · exact absurd h (hsign _ _)
  · exact absurd h.symm (hsign _ _)
  · have habs := digits_injective h
    omega

theorem hexNumber?_append_singleton (cs : List Char) (c : Char) :
    hexNumber? (cs ++ [c]) =
      (hexNumber? cs).bind fun n => (hexValue? c).map (16 * n + ·) := by
  simp [hexNumber?, List.foldlM_append]

theorem hexValue?_digitChar {d : Nat} (h : d < 16) :
    hexValue? (Nat.digitChar d).toUpper = some d := by
  interval_cases d <;> rfl

/-- Induction on the number: its last digit is what a division by sixteen leaves. -/
theorem hexNumber?_upperHex (n : Nat) : hexNumber? (upperHex n) = some n := by
  induction n using Nat.strong_induction_on with
  | _ n ih =>
    by_cases hn : n < 16
    · rw [upperHex, Nat.toDigits_of_lt_base hn]
      simp [hexNumber?, hexValue?_digitChar hn]
    · have hlast : n % 16 < 16 := Nat.mod_lt n (by decide)
      have hsplit : upperHex n = upperHex (n / 16) ++ [(Nat.digitChar (n % 16)).toUpper] := by
        have h := Nat.toDigits_append_toDigits (b := 16) (n := n / 16) (by decide) (by omega) hlast
        rw [Nat.div_add_mod, Nat.toDigits_of_lt_base hlast] at h
        rw [upperHex, ← h, List.map_append]
        rfl
      rw [hsplit, hexNumber?_append_singleton, ih (n / 16) (by omega), Option.bind_some,
        hexValue?_digitChar hlast, Option.map_some, Nat.div_add_mod]

theorem hexNumber?_padLeft (width : Nat) (cs : List Char) :
    hexNumber? (padLeft width cs) = hexNumber? cs := by
  unfold padLeft hexNumber?
  rw [List.foldlM_append]
  have hzeros : ∀ count : Nat, (List.replicate count '0').foldlM
      (fun n c => (hexValue? c).map (16 * n + ·)) 0 = some 0 := by
    intro count
    induction count with
    | zero => rfl
    | succ count ih => exact ih
  rw [hzeros]
  rfl

@[simp] theorem upperHex_ne_nil (n : Nat) : upperHex n ≠ [] := by
  simp [upperHex]

/-- A 16-bit number has at most four hexadecimal digits. -/
theorem length_upperHex_le {n : Nat} (h : n ≤ 65535) : (upperHex n).length ≤ 4 := by
  rw [upperHex, List.length_map, Nat.length_toDigits_le_iff (by decide) (by decide)]
  omega

end Decimal

namespace Conversion

variable {type : TagType} {i : Int}

/-- Digits without a sign are read as their value. -/
theorem signedDecimal?_of_digits {ds : List Char} (hsome : ds ≠ [])
    (hdigits : ∀ c ∈ ds, c.isDigit = true) :
    signedDecimal? ds = Integer.checked (Decimal.value ds) := by
  cases ds with
  | nil => exact absurd rfl hsome
  | cons c rest =>
    have hall : (c :: rest).all Char.isDigit = true := List.all_eq_true.mpr hdigits
    have hdash : c ≠ '-' := by
      rintro rfl
      exact absurd (hdigits '-' List.mem_cons_self) (by decide)
    have hplus : c ≠ '+' := by
      rintro rfl
      exact absurd (hdigits '+' List.mem_cons_self) (by decide)
    unfold signedDecimal?
    split
    next heq =>
      split at heq
      · exact absurd (List.cons.inj ‹_›).1 hdash
      · exact absurd (List.cons.inj ‹_›).1 hplus
      · cases heq
        exact if_pos ⟨hsome, hall⟩

theorem signedDecimal?_dash {ds : List Char} (hsome : ds ≠ [])
    (hdigits : ∀ c ∈ ds, c.isDigit = true) :
    signedDecimal? ('-' :: ds) = Integer.checked (-(Decimal.value ds : Int)) :=
  if_pos ⟨hsome, List.all_eq_true.mpr hdigits⟩

/-- The digits of a magnitude, with or without zeros in front. -/
theorem filled_spec (width : Nat) (suppressZero : Bool) (n : Nat) {ds : List Char}
    (h : ds = if suppressZero then Decimal.digits n else Decimal.padLeft width (Decimal.digits n)) :
    ds ≠ [] ∧ (∀ c ∈ ds, c.isDigit = true) ∧ Decimal.value ds = n := by
  subst h
  split_ifs
  · exact ⟨Decimal.digits_ne_nil n, fun c hc => Decimal.isDigit_of_mem_digits hc,
      Decimal.value_digits n⟩
  · refine ⟨by simp [Decimal.padLeft], ?_, by rw [Decimal.value_padLeft, Decimal.value_digits]⟩
    intro c hc
    rcases List.mem_append.mp hc with hzero | hdigit
    · rw [List.eq_of_mem_replicate hzero]
      rfl
    · exact Decimal.isDigit_of_mem_digits hdigit

/-- A decimal rendering is read as the integer that was rendered, if that is a 64-bit one. -/
theorem signedDecimal?_renderDecimal (width : Nat) (suppressZero : Bool) (hfits : Integer.Fits i) :
    signedDecimal? (renderDecimal width suppressZero i) = some i := by
  obtain ⟨hsome, hdigits, hvalue⟩ := filled_spec width suppressZero i.natAbs rfl
  have hchecked : Integer.checked i = some i := if_pos hfits
  unfold renderDecimal
  dsimp only
  by_cases hi : i < 0
  · have habs : -(i.natAbs : Int) = i := by omega
    rw [if_pos hi, signedDecimal?_dash hsome hdigits, hvalue, habs, hchecked]
  · have habs : (i.natAbs : Int) = i := by omega
    rw [if_neg hi, signedDecimal?_of_digits hsome hdigits, hvalue, habs, hchecked]

/-- A word of up to four hexadecimal digits is read as the number that was rendered. -/
theorem readWord?_renderHex (suppressZero : Bool) (hdomain : TagType.word.Holds (.int i)) :
    ∃ cs, renderHex? suppressZero i = some cs ∧ PackText.readWord? cs = some (.int i) := by
  obtain ⟨hlow, hhigh⟩ : 0 ≤ i ∧ i ≤ 65535 := hdomain
  have hlength : (Decimal.upperHex i.toNat).length ≤ 4 := Decimal.length_upperHex_le (by omega)
  have hcast : ((i.toNat : Nat) : Int) = i := Int.toNat_of_nonneg hlow
  unfold renderHex?
  rw [if_pos ⟨hlow, hhigh⟩]
  refine ⟨_, rfl, ?_⟩
  unfold PackText.readWord?
  split_ifs with hsuppress hbad hbad
  · rcases hbad with hbad | hbad
    · exact absurd hbad (Decimal.upperHex_ne_nil _)
    · omega
  · rw [Decimal.hexNumber?_upperHex]
    simp [hcast]
  · rcases hbad with hbad | hbad
    · simp [Decimal.padLeft] at hbad
    · simp [Decimal.padLeft] at hbad
      omega
  · rw [Decimal.hexNumber?_padLeft, Decimal.hexNumber?_upperHex]
    simp [hcast]

/-- Every integer of a cell can be rendered, and a cell of the same type reads it back from the
text; a decimal one is also a signed decimal. -/
theorem read?_render? (htype : type.isInteger = true) (hdomain : type.Holds (.int i))
    (suppressZero : Bool) :
    ∃ cs, render? (.int i) (some type) suppressZero = some cs ∧
      PackText.read? cs type = some (.int i) ∧
      (type ≠ .word → signedDecimal? cs = some i) := by
  cases type with
  | bool | real | char => cases htype
  | int =>
    obtain ⟨hlow, hhigh⟩ : -32768 ≤ i ∧ i ≤ 32767 := hdomain
    have hfits : Integer.Fits i := Integer.fits_of_small (by omega)
    have hread := signedDecimal?_renderDecimal 5 suppressZero hfits
    refine ⟨_, rfl, ?_, fun _ => hread⟩
    simp only [PackText.read?, PackText.readInteger?, hread]
    exact if_pos ⟨hlow, hhigh⟩
  | dint =>
    obtain ⟨hlow, hhigh⟩ : -2147483648 ≤ i ∧ i ≤ 2147483647 := hdomain
    have hfits : Integer.Fits i := Integer.fits_of_small (by omega)
    have hread := signedDecimal?_renderDecimal 10 suppressZero hfits
    refine ⟨_, rfl, ?_, fun _ => hread⟩
    simp only [PackText.read?, PackText.readInteger?, hread]
    exact if_pos ⟨hlow, hhigh⟩
  | word =>
    obtain ⟨cs, hrender, hread⟩ := readWord?_renderHex suppressZero hdomain
    exact ⟨cs, hrender, hread, fun h => absurd rfl h⟩

end Conversion

end LadderLogic
