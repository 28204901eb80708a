import LadderLogic.Proofs.Binary.Range

/-!
Words that denote a number stand for it exactly. Decoding gives the number in its one canonical
form, encoding that form gives the word back, and a number of single precision is widened and
narrowed without a change.
-/

set_option autoImplicit false

namespace LadderLogic.Binary

namespace Format

variable {f : Format} {num den m : Nat} {e : Int}

/-- The form in which decoding gives a number: the leading bit is set, or the place is the last one
that there is. -/
structure IsCanonical (f : Format) (m : Nat) (e : Int) : Prop where
  significand : m < 2 ^ f.precision
  least : f.minExponent ≤ e
  greatest : e ≤ f.maxExponent
  leading : 2 ^ f.fractionBits ≤ m ∨ e = f.minExponent

/-- The magnitude bits of a number in canonical form. -/
def magnitudeOf (f : Format) (m : Nat) (e : Int) : Nat :=
  (e - f.minExponent).toNat * 2 ^ f.fractionBits + m

/-- The word of a number in canonical form. -/
def wordOf (f : Format) (negative : Bool) (m : Nat) (e : Int) : Nat :=
  (if negative then f.signBit else 0) + f.magnitudeOf m e

theorem Regular.precision_eq (hf : f.Regular) : f.precision = f.fractionBits + 1 := by
  have := hf.1
  unfold fractionBits
  omega

theorem IsCanonical.magnitudeOf_lt (h : f.IsCanonical m e) (hf : f.Regular) :
    f.magnitudeOf m e < f.infinity := by
  rw [lt_infinity_iff hf]
  refine le_trans ?_ (f.magnitudeAt_mono h.greatest)
  have hm := h.significand
  unfold magnitudeOf magnitudeAt
  omega

/-- The fields of the magnitude of a number in canonical form. -/
theorem decodeMagnitude_magnitudeOf (hf : f.Regular) (negative : Bool) (h : f.IsCanonical m e) :
    f.decodeMagnitude negative (f.magnitudeOf m e) = .finite negative m e := by
  have hfinite := h.magnitudeOf_lt hf
  have hF : 0 < 2 ^ f.fractionBits := Nat.two_pow_pos _
  have hm := h.significand
  rw [hf.two_pow_precision] at hm
  have hleast := h.least
  unfold decodeMagnitude
  simp only [Nat.one_shiftLeft, Nat.shiftRight_eq_div_pow]
  rw [if_neg hfinite.not_gt, if_neg hfinite.ne]
  unfold magnitudeOf
  rw [Nat.mul_comm, Nat.mul_add_div hF, Nat.mul_add_mod]
  rcases lt_or_ge m (2 ^ f.fractionBits) with hlow | hhigh
  · have he : e = f.minExponent := h.leading.resolve_left hlow.not_ge
    rw [Nat.div_eq_of_lt hlow, Nat.mod_eq_of_lt hlow, if_pos (by omega), he]
  · have hdiv : m / 2 ^ f.fractionBits = 1 := Nat.div_eq_of_lt_le (by omega) (by omega)
    have hmod : m % 2 ^ f.fractionBits + 2 ^ f.fractionBits = m := by
      have := Nat.div_add_mod m (2 ^ f.fractionBits)
      rw [hdiv] at this
      omega
    rw [hdiv, if_neg (by omega), hmod, Datum.finite.injEq]
    refine ⟨rfl, rfl, ?_⟩
    omega

theorem decode_wordOf (hf : f.Regular) (negative : Bool) (h : f.IsCanonical m e) :
    f.decode (f.wordOf negative m e) = .finite negative m e := by
  unfold wordOf
  rw [decode_word negative (h.magnitudeOf_lt hf).le]
  exact decodeMagnitude_magnitudeOf hf negative h

theorem IsCanonical.wordOf_lt (h : f.IsCanonical m e) (hf : f.Regular) (negative : Bool) :
    f.wordOf negative m e < 2 * f.signBit :=
  word_lt negative (h.magnitudeOf_lt hf).le

/-- A magnitude that denotes a number is that of a canonical form. -/
theorem canonical_of_decodeMagnitude (hf : f.Regular) {negative sign : Bool} {magnitude : Nat}
    (h : f.decodeMagnitude sign magnitude = .finite negative m e) :
    f.IsCanonical m e ∧ negative = sign ∧ magnitude = f.magnitudeOf m e := by
  have hF : 0 < 2 ^ f.fractionBits := Nat.two_pow_pos _
  have hmod := Nat.mod_lt magnitude hF
  have hsplit := Nat.div_add_mod magnitude (2 ^ f.fractionBits)
  have hinfinite : ¬ f.infinity < magnitude ∧ magnitude ≠ f.infinity := by
    constructor <;> intro hbad <;> simp [decodeMagnitude, hbad] at h
  have hfinite : magnitude < f.infinity := lt_of_le_of_ne (not_lt.mp hinfinite.1) hinfinite.2
  have hexponent : magnitude / 2 ^ f.fractionBits < 2 ^ f.exponentBits - 1 := by
    rw [Nat.div_lt_iff_lt_mul hF, ← infinity_eq]
    exact hfinite
  have hfour : 2 ^ 2 ≤ 2 ^ f.exponentBits := Nat.pow_le_pow_right (by decide) hf.2
  unfold decodeMagnitude at h
  simp only [Nat.one_shiftLeft, Nat.shiftRight_eq_div_pow] at h
  rw [if_neg hinfinite.1, if_neg hinfinite.2] at h
  generalize magnitude / 2 ^ f.fractionBits = exponent at *
  generalize magnitude % 2 ^ f.fractionBits = fraction at *
  split at h
  case isTrue hzero =>
    obtain ⟨rfl, rfl, rfl⟩ := Datum.finite.inj h
    rw [hzero] at hsplit
    refine ⟨⟨?_, le_rfl, minExponent_le_maxExponent hf, .inr rfl⟩, rfl, ?_⟩
    · rw [hf.two_pow_precision]
      omega
    · simp [magnitudeOf]
      omega
  case isFalse hpositive =>
    obtain ⟨rfl, rfl, rfl⟩ := Datum.finite.inj h
    refine ⟨⟨?_, by omega, ?_, .inl (by omega)⟩, rfl, ?_⟩
    · rw [hf.two_pow_precision]
      omega
    · rw [maxExponent, Nat.one_shiftLeft]
      omega
    · have hplace : (f.minExponent + exponent - 1 - f.minExponent).toNat = exponent - 1 := by omega
      have hmul : (exponent - 1) * 2 ^ f.fractionBits + 2 ^ f.fractionBits =
          2 ^ f.fractionBits * exponent := by
        rw [← Nat.succ_mul, Nat.succ_eq_add_one, Nat.sub_add_cancel (by omega), Nat.mul_comm]
      unfold magnitudeOf
      rw [hplace]
      omega

/-- A word that denotes a number is the word of its canonical form. -/
theorem canonical_of_decode (hf : f.Regular) {negative : Bool} {word : Nat}
    (hword : word < 2 * f.signBit) (h : f.decode word = .finite negative m e) :
    f.IsCanonical m e ∧ word = f.wordOf negative m e := by
  obtain ⟨hcanonical, hsign, hmagnitude⟩ := canonical_of_decodeMagnitude hf h
  refine ⟨hcanonical, ?_⟩
  have hpos : 0 < f.signBit := by
    rw [signBit_eq]
    positivity
  have hsplit := Nat.div_add_mod word f.signBit
  have hdiv : word / f.signBit < 2 := (Nat.div_lt_iff_lt_mul hpos).mpr hword
  unfold wordOf
  rw [← hmagnitude, hsign]
  generalize word / f.signBit = sign at *
  rcases (by omega : sign = 0 ∨ sign = 1) with rfl | rfl
  · simp
    omega
  · simp
    omega

theorem roundQuotient_exact (m : Nat) (hden : 0 < den) : roundQuotient (m * den) den = m := by
  unfold roundQuotient
  rw [Nat.mul_div_cancel _ hden, Nat.mul_mod_left]
  simp [hden.ne]

/-- The place that is kept of a ratio is that of its canonical form. -/
theorem lastPlace_of_canonical (hf : f.Regular) (h : f.IsCanonical m e) (hden : 0 < den)
    (hvalue : (num : ℚ) / den = m * 2 ^ e) : f.lastPlace num den = e := by
  have htwo : (0 : ℚ) < 2 ^ e := by positivity
  have hd : (0 : ℚ) < den := by exact_mod_cast hden
  by_cases hnum : num = 0
  · have hm : m = 0 := by
      rw [hnum, Nat.cast_zero, zero_div, eq_comm, mul_eq_zero] at hvalue
      exact_mod_cast hvalue.resolve_right htwo.ne'
    have hF : 0 < 2 ^ f.fractionBits := Nat.two_pow_pos _
    have he : e = f.minExponent := h.leading.resolve_left (by omega)
    rw [lastPlace, if_pos hnum, he]
  · obtain ⟨hleast, hfits, hbest⟩ := lastPlace_spec (f := f) hnum hden
    have hle : f.lastPlace num den ≤ e := by
      apply hbest e h.least
      rw [hvalue, zpow_add₀ two_ne_zero, zpow_natCast]
      have hm : (m : ℚ) < 2 ^ f.precision := by exact_mod_cast h.significand
      gcongr
    rcases h.leading with hleading | he
    · have hlow : (2 : ℚ) ^ ((f.fractionBits : Int) + e) ≤ num / den := by
        rw [hvalue, zpow_add₀ two_ne_zero, zpow_natCast]
        have hm : (2 : ℚ) ^ f.fractionBits ≤ m := by exact_mod_cast hleading
        gcongr
      have hlt := (zpow_lt_zpow_iff_right₀ (one_lt_two (α := ℚ))).mp (hlow.trans_lt hfits)
      have hp := hf.precision_eq
      omega
    · omega

/-- A ratio that is a number of the format is encoded as that number. -/
theorem encode_of_canonical (hf : f.Regular) (negative : Bool) (h : f.IsCanonical m e)
    (hden : 0 < den) (hvalue : (num : ℚ) / den = m * 2 ^ e) :
    f.encode negative num den = f.wordOf negative m e := by
  obtain ⟨hpos, hscaled⟩ := scaled_spec num hden e
  have hd : ((scaled num den e).2 : ℚ) ≠ 0 := by exact_mod_cast hpos.ne'
  have hexact : (scaled num den e).1 = m * (scaled num den e).2 := by
    rw [hvalue, mul_div_cancel_right₀ _ (by positivity), div_eq_iff hd] at hscaled
    exact_mod_cast hscaled
  unfold encode wordOf
  congr 1
  rw [encodeMagnitude_eq, lastPlace_of_canonical hf h hden hvalue, hexact,
    roundQuotient_exact m hpos, Nat.shiftLeft_eq]
  exact min_eq_right (h.magnitudeOf_lt hf).le

/-- Two forms of one number have the same word. -/
theorem encodeDatum_of_value_eq (hf : f.Regular) (negative : Bool) (h : f.IsCanonical m e)
    {n : Nat} {k : Int} (hvalue : (n : ℚ) * 2 ^ k = m * 2 ^ e) :
    f.encodeDatum (.finite negative n k) = f.wordOf negative m e := by
  obtain ⟨num, den, hden, hratio, hencode⟩ := f.encodeDatum_finite negative n k
  rw [hencode]
  exact encode_of_canonical hf negative h hden (hratio.trans hvalue)

end Format

open Format

theorem single_minExponent : single.minExponent = -149 := by decide

theorem single_maxExponent : single.maxExponent = 104 := by decide

theorem double_maxExponent : double.maxExponent = 971 := by decide

/-- A number of single precision has a canonical form in double precision. -/
theorem exists_widened {m : Nat} {e : Int} (h : single.IsCanonical m e) :
    ∃ n k, double.IsCanonical n k ∧ (n : ℚ) * 2 ^ k = m * 2 ^ e := by
  have hm : m < 2 ^ 24 := h.significand
  have hleast : -149 ≤ e := single_minExponent ▸ h.least
  have hgreatest : e ≤ 104 := single_maxExponent ▸ h.greatest
  rcases Nat.eq_zero_or_pos m with rfl | hpos
  · refine ⟨0, -1074, ⟨by decide, by decide, by decide, .inr (by decide)⟩, by simp⟩
  · have hlog : m.log2 < 24 := (Nat.log2_lt hpos.ne').mpr hm
    have hlow := Nat.log2_self_le hpos.ne'
    have hhigh := Nat.lt_log2_self (n := m)
    -- The leading bit moves to the one before the 52 fraction bits.
    have hpow : 2 ^ m.log2 * 2 ^ (52 - m.log2) = 2 ^ 52 := by
      rw [← pow_add]
      congr 1
      omega
    refine ⟨m * 2 ^ (52 - m.log2), e - (52 - m.log2 : Nat), ⟨?_, ?_, ?_, .inl ?_⟩, ?_⟩
    · change _ < 2 ^ 53
      calc m * 2 ^ (52 - m.log2) < 2 ^ (m.log2 + 1) * 2 ^ (52 - m.log2) :=
            Nat.mul_lt_mul_of_pos_right hhigh (Nat.two_pow_pos _)
        _ = 2 ^ 52 * 2 := by rw [pow_succ, Nat.mul_right_comm, hpow]
    · rw [double_minExponent]
      omega
    · rw [double_maxExponent]
      omega
    · change 2 ^ 52 ≤ _
      rw [← hpow]
      exact Nat.mul_le_mul_right _ hlow
    · rw [zpow_sub₀ two_ne_zero, zpow_natCast]
      push_cast
      field_simp

theorem single_signBit_two : 2 * single.signBit = 2 ^ 32 := by decide

/-- The real of a word of single precision denotes the number of the word. -/
theorem datum_ofSingleWord {word m : Nat} {negative : Bool} {e : Int} (hword : word < 2 ^ 32)
    (h : single.decode word = .finite negative m e) :
    ∃ n k, datum (ofSingleWord word) = .finite negative n k ∧ (n : ℚ) * 2 ^ k = m * 2 ^ e := by
  obtain ⟨hcanonical, -⟩ := canonical_of_decode single_regular (single_signBit_two ▸ hword) h
  obtain ⟨n, k, hwide, hvalue⟩ := exists_widened hcanonical
  refine ⟨n, k, ?_, hvalue⟩
  have hlt : double.wordOf negative n k < 2 ^ 64 :=
    double_signBit_two ▸ hwide.wordOf_lt double_regular negative
  rw [ofSingleWord, h, ofDatum, encodeDatum_of_value_eq double_regular negative hwide hvalue.symm,
    datum_ofWord hlt, decode_wordOf double_regular negative hwide]

/-- A number of single precision is widened and narrowed without a change. -/
theorem singleWord_ofSingleWord {word m : Nat} {negative : Bool} {e : Int} (hword : word < 2 ^ 32)
    (h : single.decode word = .finite negative m e) : singleWord (ofSingleWord word) = word := by
  obtain ⟨hcanonical, heq⟩ := canonical_of_decode single_regular (single_signBit_two ▸ hword) h
  obtain ⟨n, k, hdatum, hvalue⟩ := datum_ofSingleWord hword h
  rw [singleWord, hdatum, encodeDatum_of_value_eq single_regular negative hcanonical hvalue, heq]

/-- A word of single precision that is a finite real is a finite word. -/
theorem decode_of_isFinite_ofSingleWord {word : Nat}
    (h : isFinite (ofSingleWord word) = true) :
    ∃ negative m e, single.decode word = .finite negative m e := by
  cases hword : single.decode word with
  | finite negative m e => exact ⟨negative, m, e, rfl⟩
  | nan =>
    rw [ofSingleWord, hword] at h
    exact absurd h (by decide +kernel)
  | infinite negative =>
    rw [ofSingleWord, hword] at h
    cases negative <;> exact absurd h (by decide +kernel)

theorem singleWord_lt (x : Float) : singleWord x < 2 ^ 32 := by
  unfold singleWord
  cases datum x with
  | nan => decide
  | infinite negative => cases negative <;> decide
  | finite negative m e => exact single_signBit_two ▸ single.encodeDatum_finite_lt negative m e

end LadderLogic.Binary
