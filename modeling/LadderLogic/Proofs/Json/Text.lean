import LadderLogic.Json
import LadderLogic.Proofs.Text.Numerals

/-!
Texts in JSON, read back. Every text, whatever characters it has, is read as it was before it was
quoted.
-/

set_option autoImplicit false

namespace LadderLogic.Json

/-- Whether a character is written by its code. -/
def isCoded (c : Char) : Bool :=
  c < ' ' && c ∉ ['\x08', '\x0c', '\n', '\r', '\t']

/-- What a quoted character is read as. -/
def Piece.ofChar (c : Char) : Piece := if isCoded c then .unit c.toNat else .char c

/-- The four hexadecimal digits of a control character. -/
theorem exists_hexDigits {n : Nat} (h : n < 32) :
    ∃ a b c d, Decimal.padLeft 4 (Nat.toDigits 16 n) = [a, b, c, d] ∧
      Decimal.hexNumber? [a, b, c, d] = some n := by
  interval_cases n <;> exact ⟨_, _, _, _, rfl, rfl⟩

/-- An escape of one letter. -/
theorem readPieces?_letter {c d : Char} (h : unescape? d = some c) (rest : List Char) :
    readPieces? ('\\' :: d :: rest) =
      (readPieces? rest).map fun (ps, tail) => (.char c :: ps, tail) := by
  have hu : d ≠ 'u' := by
    rintro rfl
    cases h
  rw [readPieces?.eq_def]
  split
  case h_1 heq => cases heq
  case h_2 heq => exact absurd (List.cons.inj (List.cons.inj heq).2).1 hu
  case h_3 heq =>
    cases heq
    rw [h]
    cases readPieces? rest <;> rfl
  case h_4 hnone heq =>
    cases heq
    exact absurd rfl (hnone d rest rfl)
  case h_5 heq => cases heq

theorem readPieces?_coded {c : Char} (h : c.toNat < 32) (rest : List Char) :
    readPieces? ('\\' :: 'u' :: Decimal.padLeft 4 (Nat.toDigits 16 c.toNat) ++ rest) =
      (readPieces? rest).map fun (ps, tail) => (.unit c.toNat :: ps, tail) := by
  obtain ⟨a, b, c', d, hdigits, hnumber⟩ := exists_hexDigits h
  rw [hdigits]
  simp only [List.cons_append, List.nil_append, readPieces?, hnumber]
  cases readPieces? rest <;> rfl

theorem readPieces?_plain {c : Char} (hquote : c ≠ '"') (hslash : c ≠ '\\') (hblank : ¬ c < ' ')
    (rest : List Char) :
    readPieces? (c :: rest) = (readPieces? rest).map fun (ps, tail) => (.char c :: ps, tail) := by
  rw [readPieces?.eq_def]
  split <;> simp_all

theorem readPieces?_escapedChar (c : Char) (rest : List Char) :
    readPieces? (escapedChar c ++ rest) =
      (readPieces? rest).map fun (ps, tail) => (Piece.ofChar c :: ps, tail) := by
  unfold escapedChar
  split_ifs with hquote hslash hback hform hline hreturn htab hblank
  · subst hquote
    exact readPieces?_letter rfl rest
  · subst hslash
    exact readPieces?_letter rfl rest
  · subst hback
    exact readPieces?_letter rfl rest
  · subst hform
    exact readPieces?_letter rfl rest
  · subst hline
    exact readPieces?_letter rfl rest
  · subst hreturn
    exact readPieces?_letter rfl rest
  · subst htab
    exact readPieces?_letter rfl rest
  · have hcoded : isCoded c = true := by
      simp [isCoded, hblank, hback, hform, hline, hreturn, htab]
    rw [Piece.ofChar, if_pos hcoded]
    exact readPieces?_coded hblank rest
  · have hplain : isCoded c = false := by simp [isCoded, hblank]
    rw [Piece.ofChar, if_neg (by simp [hplain])]
    exact readPieces?_plain hquote hslash hblank rest

theorem readPieces?_quoted (cs rest : List Char) :
    readPieces? (cs.flatMap escapedChar ++ '"' :: rest) = some (cs.map Piece.ofChar, rest) := by
  induction cs with
  | nil => rfl
  | cons c cs ih =>
    rw [List.flatMap_cons, List.append_assoc, readPieces?_escapedChar, ih]
    rfl

/-- A unit that is no surrogate stands for itself. -/
theorem Piece.join?_unit {n : Nat} (h : n < 32) (ps : List Piece) :
    join? (.unit n :: ps) = (join? ps).map (Char.ofNat n :: ·) := by
  have hlead : isLead n = false := by
    simp [isLead]
    omega
  have htrail : isTrail n = false := by
    simp [isTrail]
    omega
  cases ps with
  | nil => simp [join?, hlead, htrail]
  | cons p ps => cases p <;> simp [join?, hlead, htrail]

theorem Piece.join?_map_ofChar (cs : List Char) : join? (cs.map ofChar) = some cs := by
  induction cs with
  | nil => rfl
  | cons c cs ih =>
    rw [List.map_cons, ofChar]
    split_ifs with hcoded
    · have hcontrol : c.toNat < 32 := by
        simp only [isCoded, Bool.and_eq_true, decide_eq_true_eq] at hcoded
        exact hcoded.1
      rw [join?_unit hcontrol, ih, Char.ofNat_toNat]
      rfl
    · rw [join?, ih]
      rfl

theorem readText?_quoted (s : String) (rest : List Char) :
    readText? (s.toList.flatMap escapedChar ++ '"' :: rest) = some (some s, rest) := by
  rw [readText?, readPieces?_quoted]
  simp [Piece.join?_map_ofChar]

end LadderLogic.Json
