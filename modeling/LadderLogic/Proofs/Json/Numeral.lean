import LadderLogic.Json.Numeral
import LadderLogic.Proofs.Text.Numerals

/-!
Numbers in JSON, read back. What is written digit by digit is read as it was written, up to the
character after it, and integers of 64 bits have the value that they were written for.
-/

set_option autoImplicit false

namespace LadderLogic

/-- At least one digit, and nothing else. -/
structure Decimal.IsDigits (ds : List Char) : Prop where
  ne_nil : ds ≠ []
  all : ∀ c ∈ ds, c.isDigit = true

theorem Decimal.isDigits_digits (n : Nat) : IsDigits (digits n) :=
  ⟨digits_ne_nil n, fun _ hc => isDigit_of_mem_digits hc⟩

/-- Digits are taken up to the first character that is none. -/
theorem Decimal.spanDigits_append {ds rest : List Char} (hds : ∀ c ∈ ds, c.isDigit = true)
    (hrest : ∀ c ∈ rest.head?, c.isDigit = false) : spanDigits (ds ++ rest) = (ds, rest) := by
  have hstop : rest.takeWhile Char.isDigit = [] ∧ rest.dropWhile Char.isDigit = rest := by
    cases rest with
    | nil => exact ⟨rfl, rfl⟩
    | cons c rest =>
      have hc : c.isDigit = false := hrest c rfl
      simp [hc]
  unfold spanDigits
  rw [List.takeWhile_append_of_pos hds, List.dropWhile_append_of_pos hds, hstop.1, hstop.2,
    List.append_nil]

namespace Json.Numeral

open Decimal

/-- The character goes on with no numeral. -/
def endsBefore (c : Char) : Bool := !c.isDigit && c != '.' && c != 'e' && c != 'E'

/-- A numeral that is written before this text ends there. -/
def Ends (rest : List Char) : Prop := ∀ c ∈ rest.head?, endsBefore c = true

/-- The fraction with its point. -/
def fractionText : Option (List Char) → List Char
  | some ds => '.' :: ds
  | none => []

/-- The exponent with its mark and sign. -/
def exponentText : Option (Bool × List Char) → List Char
  | some (negative, ds) => 'e' :: (if negative then '-' else '+') :: ds
  | none => []

def text (n : Numeral) : List Char :=
  (if n.negative then ['-'] else []) ++
    (n.whole ++ (fractionText n.fraction ++ exponentText n.exponent))

/-- Parts that are made of digits, without zeros in front. -/
structure WellFormed (n : Numeral) : Prop where
  whole : IsDigits n.whole
  leading : ∀ ds, n.whole = '0' :: ds → ds = []
  fraction : ∀ ds ∈ n.fraction, IsDigits ds
  exponent : ∀ e ∈ n.exponent, IsDigits e.2

variable {n : Numeral} {rest : List Char}

theorem Ends.isDigit (h : Ends rest) : ∀ c ∈ rest.head?, c.isDigit = false := by
  intro c hc
  have := h c hc
  simp only [endsBefore, Bool.and_eq_true, Bool.not_eq_true'] at this
  exact this.1.1.1

theorem readExponent?_text {e : Option (Bool × List Char)} (he : ∀ x ∈ e, IsDigits x.2)
    (hrest : Ends rest) : readExponent? (exponentText e ++ rest) = some (e, rest) := by
  cases e with
  | none =>
    cases rest with
    | nil => rfl
    | cons c rest =>
      have hc := hrest c rfl
      have hmark : ¬ (c = 'e' ∨ c = 'E') := by
        rintro (rfl | rfl) <;> simp [endsBefore] at hc
      simp only [exponentText, List.nil_append, readExponent?, if_neg hmark]
  | some x =>
    obtain ⟨negative, ds⟩ := x
    have hds := he _ rfl
    have hspan := spanDigits_append hds.all hrest.isDigit
    cases negative with
    | true => simp [exponentText, readExponent?, splitSign, hspan, hds.ne_nil]
    | false => simp [exponentText, readExponent?, splitSign, hspan, hds.ne_nil]

/-- The exponent starts with no digit and no point. -/
theorem head?_exponentText {e : Option (Bool × List Char)} (hrest : Ends rest) :
    ∀ c ∈ (exponentText e ++ rest).head?, c.isDigit = false ∧ c ≠ '.' := by
  intro c hc
  cases e with
  | none =>
    refine ⟨hrest.isDigit c hc, ?_⟩
    rintro rfl
    exact absurd (hrest '.' hc) (by decide)
  | some x =>
    obtain rfl : 'e' = c := Option.some.inj hc
    decide

theorem readFraction?_text {fraction : Option (List Char)} (hds : ∀ ds ∈ fraction, IsDigits ds)
    {tail : List Char} (htail : ∀ c ∈ tail.head?, c.isDigit = false ∧ c ≠ '.') :
    readFraction? (fractionText fraction ++ tail) = some (fraction, tail) := by
  cases fraction with
  | none =>
    cases tail with
    | nil => rfl
    | cons c tail =>
      have hpoint := (htail c rfl).2
      simp only [fractionText, List.nil_append]
      unfold readFraction?
      split
      case h_1 heq => exact absurd (List.cons.inj heq).1 hpoint
      case h_2 => rfl
  | some ds =>
    have hds := hds ds rfl
    have hspan := spanDigits_append hds.all fun c hc => (htail c hc).1
    simp [fractionText, readFraction?, hspan, hds.ne_nil]

theorem readWhole?_append {whole tail : List Char} (hwhole : IsDigits whole)
    (hleading : ∀ ds, whole = '0' :: ds → ds = [])
    (htail : ∀ c ∈ tail.head?, c.isDigit = false) :
    readWhole? (whole ++ tail) = some (whole, tail) := by
  unfold readWhole?
  rw [spanDigits_append hwhole.all htail]
  match whole, hwhole, hleading with
  | [], hwhole, _ => exact absurd rfl hwhole.ne_nil
  | [d], _, _ =>
    dsimp only
    split <;> rename_i heq
    · cases heq
    · cases heq
    · rfl
  | d :: e :: ds, _, hleading =>
    have hzero : d ≠ '0' := by
      rintro rfl
      cases hleading _ rfl
    dsimp only
    split
    case h_1 heq => cases heq
    case h_2 heq => exact absurd (List.cons.inj heq).1 hzero
    case h_3 => rfl

/-- A numeral is read as it is written, wherever it ends. -/
theorem read?_text (h : n.WellFormed) (hrest : Ends rest) :
    read? (n.text ++ rest) = some (n, rest) := by
  obtain ⟨negative, whole, fraction, exponent⟩ := n
  have hexponent : readExponent? (exponentText exponent ++ rest) = some (exponent, rest) :=
    readExponent?_text h.exponent hrest
  have htail : ∀ c ∈ (exponentText exponent ++ rest).head?, c.isDigit = false ∧ c ≠ '.' :=
    head?_exponentText hrest
  have hfraction := readFraction?_text h.fraction htail
  have hbehind : ∀ c ∈ (fractionText fraction ++ (exponentText exponent ++ rest)).head?,
      c.isDigit = false := by
    cases fraction with
    | none => exact fun c hc => (htail c hc).1
    | some ds =>
      rintro c ⟨⟩
      rfl
  have hwhole := readWhole?_append h.whole h.leading hbehind
  dsimp only at hfraction hwhole
  have htext : text ⟨negative, whole, fraction, exponent⟩ ++ rest =
      (if negative then ['-'] else []) ++
        (whole ++ (fractionText fraction ++ (exponentText exponent ++ rest))) := by
    simp [text]
  rw [htext]
  unfold read?
  cases negative with
  | true =>
    simp only [if_true, List.cons_append, List.nil_append, hwhole, Option.bind_eq_bind,
      Option.bind_some, hfraction, hexponent]
    rfl
  | false =>
    have hdash : ∀ tail, whole ++ (fractionText fraction ++ (exponentText exponent ++ rest)) ≠
        '-' :: tail := by
      intro tail heq
      cases whole with
      | nil => exact h.whole.ne_nil rfl
      | cons d ds =>
        have hdigit := h.whole.all d List.mem_cons_self
        rw [(List.cons.inj heq).1] at hdigit
        exact absurd hdigit (by decide)
    simp only [Bool.false_eq_true, if_false, List.nil_append, hwhole, Option.bind_eq_bind,
      Option.bind_some, hfraction, hexponent]
    rfl

/-- The numeral of an integer. -/
def ofInt (i : Int) : Numeral := ⟨decide (i < 0), digits i.natAbs, none, none⟩

theorem text_ofInt (i : Int) : (ofInt i).text = integer i := by
  unfold integer ofInt text
  by_cases hi : i < 0 <;> simp [hi, fractionText, exponentText]

/-- Numbers are written without zeros in front. -/
theorem leading_digits (n : Nat) : ∀ ds, digits n = '0' :: ds → ds = [] := by
  induction n using Nat.strong_induction_on with
  | _ n ih =>
    intro ds h
    by_cases hn : n < 10
    · rw [digits, Nat.toDigits_of_lt_base hn] at h
      exact (List.cons.inj h).2.symm
    · have hsplit : digits n = digits (n / 10) ++ [Nat.digitChar (n % 10)] := by
        have hdigits := Nat.toDigits_append_toDigits (b := 10) (n := n / 10) (by decide) (by omega)
          (Nat.mod_lt n (by decide))
        rw [Nat.div_add_mod, Nat.toDigits_of_lt_base (Nat.mod_lt n (by decide))] at hdigits
        exact hdigits.symm
      cases hfront : digits (n / 10) with
      | nil => exact absurd hfront (digits_ne_nil _)
      | cons d front =>
        rw [hsplit, hfront] at h
        obtain rfl : d = '0' := (List.cons.inj h).1
        obtain rfl := ih (n / 10) (by omega) front hfront
        have hzero : n / 10 = 0 := by
          rw [← value_digits (n / 10), hfront]
          rfl
        omega

theorem wellFormed_ofInt (i : Int) : (ofInt i).WellFormed where
  whole := isDigits_digits _
  leading := leading_digits _
  fraction := nofun
  exponent := nofun

/-- A number that is not negative is read as it is, up to 64 bits. -/
theorem value?_ofInt_natural {i : Int} (hi : 0 ≤ i) (hfits : i < UInt64.size) :
    (ofInt i).value? = some (.natural i.toNat) := by
  have hnot : ¬ i < 0 := by omega
  have habs : i.natAbs = i.toNat := by omega
  have hsmall : ¬ UInt64.size ≤ i.toNat := by omega
  simp [value?, ofInt, hnot, habs, hsmall]

theorem value?_ofInt_negative {i : Int} (hi : i < 0) (hfits : Integer.Fits i) :
    (ofInt i).value? = some (.negative i) := by
  have hback : -(i.natAbs : Int) = i := by omega
  have hsmall : ¬ UInt64.size ≤ i.natAbs := by
    have := hfits.1
    unfold Integer.least at this
    simp only [UInt64.size]
    omega
  have hone : 1 ≤ i.natAbs := by omega
  simp only [value?, ofInt, value_digits]
  rw [hback]
  simp [hi, hsmall, hone, hfits]

end Json.Numeral

end LadderLogic
