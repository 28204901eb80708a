import LadderLogic.Proofs.Json.Numeral
import LadderLogic.Toml.Read

/-!
Values in TOML, read back at the end of a line. A natural number is no date, since no date goes on
with digits alone, and no real, since no fraction or exponent follows.
-/

set_option autoImplicit false

namespace LadderLogic.Toml

open Decimal

variable {ds rest : List Char}

theorem ne_of_isDigit {d c : Char} (hd : d.isDigit = true) (hc : c.isDigit = false) : d ≠ c := by
  rintro rfl
  rw [hd] at hc
  cases hc

theorem exists_cons_of_isDigits (h : IsDigits ds) :
    ∃ d more, ds = d :: more ∧ d.isDigit = true := by
  obtain ⟨d, more, rfl⟩ := List.exists_cons_of_ne_nil h.ne_nil
  exact ⟨d, more, rfl, h.all d (by simp)⟩

theorem readGrouped?_digits (hds : ∀ c ∈ ds, c.isDigit = true) (rest : List Char) :
    readGrouped? Char.isDigit (ds ++ '\n' :: rest) = some (ds, '\n' :: rest) := by
  induction ds with
  | nil => rfl
  | cons d ds ih =>
    have hd : d.isDigit = true := hds d (by simp)
    have hline : d ≠ '_' := ne_of_isDigit hd (by decide)
    have hds' := ih fun c hc => hds c (by simp [hc])
    rw [List.cons_append, readGrouped?.eq_def]
    split
    next heq => exact absurd (List.cons.inj heq).1 hline
    next heq =>
      obtain ⟨rfl, rfl⟩ := List.cons.inj heq
      rw [if_pos hd, hds']
      rfl
    next heq => cases heq

theorem readNatural?_digits (hds : IsDigits ds) (hleading : ∀ more, ds = '0' :: more → more = [])
    (rest : List Char) : readNatural? (ds ++ '\n' :: rest) = some (ds, '\n' :: rest) := by
  obtain ⟨d, more, rfl, hd⟩ := exists_cons_of_isDigits hds
  unfold readNatural?
  split
  next heq =>
    obtain ⟨rfl, rfl⟩ := List.cons.inj heq
    obtain rfl := hleading more rfl
    rfl
  next =>
    have hmore : ∀ c ∈ more, c.isDigit = true := fun c hc => hds.all c (by simp [hc])
    unfold readDigits?
    rw [List.cons_append]
    simp only [hd, if_true, readGrouped?_digits hmore, Option.map_some]

theorem readField?_eq_some {width low high n : Nat} {cs after : List Char}
    (h : readField? width low high cs = some (n, after)) : after = cs.drop width := by
  unfold readField? at h
  simp only at h
  split_ifs at h
  simp_all

theorem expect?_drop (hds : ∀ c ∈ ds, c.isDigit = true) {mark : Char} (hmark : mark.isDigit = false)
    (hline : mark ≠ '\n') {width : Nat} (hwidth : width ≤ ds.length) (rest : List Char) :
    expect? mark ((ds ++ '\n' :: rest).drop width) = none := by
  rw [List.drop_append_of_le_length hwidth]
  cases hdrop : ds.drop width with
  | nil => simp [expect?, hline.symm]
  | cons d more =>
    have hd := hds d (List.mem_of_mem_drop (hdrop ▸ List.mem_cons_self))
    simp [expect?, ne_of_isDigit hd hmark]

theorem width_le_of_readField? {width low high n : Nat} {after : List Char}
    (h : readField? width low high (ds ++ '\n' :: rest) = some (n, after)) : width ≤ ds.length := by
  unfold readField? at h
  simp only at h
  split_ifs at h with htake
  by_contra hlong
  have hmem : '\n' ∈ (ds ++ '\n' :: rest).take width := by
    rw [List.take_append]
    obtain ⟨k, hk⟩ : ∃ k, width - ds.length = k + 1 := ⟨width - ds.length - 1, by omega⟩
    simp [hk]
  have hall := List.all_eq_true.mp htake.2 _ hmem
  exact absurd hall (by decide)

/-- After a field of digits come digits or the end of the line, and no mark. -/
theorem expect?_of_readField? (hds : ∀ c ∈ ds, c.isDigit = true) {width low high n : Nat}
    {after : List Char} (h : readField? width low high (ds ++ '\n' :: rest) = some (n, after))
    {mark : Char} (hmark : mark.isDigit = false) (hline : mark ≠ '\n') :
    expect? mark after = none := by
  rw [readField?_eq_some h]
  exact expect?_drop hds hmark hline (width_le_of_readField? h) rest

theorem skipDate?_digits (hds : ∀ c ∈ ds, c.isDigit = true) (rest : List Char) :
    skipDate? (ds ++ '\n' :: rest) = none := by
  unfold skipDate?
  cases hfield : readField? 4 0 9999 (ds ++ '\n' :: rest) with
  | none => rfl
  | some r =>
    have hmark : expect? '-' r.2 = none := expect?_of_readField? hds hfield (by decide) (by decide)
    simp [hmark]

theorem skipTime?_digits (hds : ∀ c ∈ ds, c.isDigit = true) (rest : List Char) :
    skipTime? (ds ++ '\n' :: rest) = none := by
  unfold skipTime?
  cases hfield : readField? 2 0 23 (ds ++ '\n' :: rest) with
  | none => rfl
  | some r =>
    have hmark : expect? ':' r.2 = none := expect?_of_readField? hds hfield (by decide) (by decide)
    simp [hmark]

theorem readDateTime?_digits (hds : ∀ c ∈ ds, c.isDigit = true) (rest : List Char) :
    readDateTime? (ds ++ '\n' :: rest) = none := by
  simp [readDateTime?, skipDate?_digits hds, skipTime?_digits hds]

theorem splitSign_digits (hds : IsDigits ds) (rest : List Char) :
    splitSign (ds ++ rest) = (false, ds ++ rest) := by
  obtain ⟨d, more, rfl, hd⟩ := exists_cons_of_isDigits hds
  rw [List.cons_append]
  unfold splitSign
  split
  next heq =>
    exact absurd (List.cons.inj heq).1 (ne_of_isDigit hd (by decide))
  next heq =>
    exact absurd (List.cons.inj heq).1 (ne_of_isDigit hd (by decide))
  next => rfl

theorem readReal?_digits (hds : IsDigits ds) (hleading : ∀ more, ds = '0' :: more → more = [])
    (rest : List Char) : readReal? (ds ++ '\n' :: rest) = none := by
  have hwhole := readNatural?_digits hds hleading rest
  have htail : readTail? ('\n' :: rest) = none := rfl
  obtain ⟨d, more, rfl, hd⟩ := exists_cons_of_isDigits hds
  unfold readReal?
  rw [splitSign_digits hds]
  rw [List.cons_append] at hwhole ⊢
  dsimp only
  split
  next heq =>
    exact absurd (List.cons.inj heq).1 (ne_of_isDigit hd (by decide))
  next heq =>
    exact absurd (List.cons.inj heq).1 (ne_of_isDigit hd (by decide))
  next => simp [hwhole, htail]

theorem readInteger?_digits (hds : IsDigits ds) (hleading : ∀ more, ds = '0' :: more → more = [])
    (hfits : Integer.Fits (value ds)) (rest : List Char) :
    readInteger? (ds ++ '\n' :: rest) = some (integer (value ds), '\n' :: rest) := by
  have hnatural := readNatural?_digits hds hleading rest
  have hsign := splitSign_digits hds ('\n' :: rest)
  have hbase : ∀ c more, ds ++ '\n' :: rest = '0' :: c :: more → c = '\n' := by
    intro c more heq
    obtain ⟨d, others, rfl, -⟩ := exists_cons_of_isDigits hds
    obtain ⟨rfl, hothers⟩ := List.cons.inj heq
    obtain rfl := hleading others rfl
    exact (List.cons.inj hothers).1.symm
  unfold readInteger?
  split
  next heq => exact absurd (hbase _ _ heq) (by decide)
  next heq => exact absurd (hbase _ _ heq) (by decide)
  next heq => exact absurd (hbase _ _ heq) (by decide)
  next => simp [hsign, hnatural, bounded?, Integer.checked, Binary.signed, hfits]

/-- A value that starts with a digit is a number or a date. -/
theorem readValue?_of_isDigit (levels : Nat) {d : Char} (hd : d.isDigit = true) (cs : List Char) :
    readValue? levels (d :: cs) = readNumber? (d :: cs) := by
  have ht := ne_of_isDigit hd (show 't'.isDigit = false by decide)
  have hf := ne_of_isDigit hd (show 'f'.isDigit = false by decide)
  have hbracket := ne_of_isDigit hd (show '['.isDigit = false by decide)
  have hbrace := ne_of_isDigit hd (show '\x7b'.isDigit = false by decide)
  have hbasic := ne_of_isDigit hd (show '"'.isDigit = false by decide)
  have hliteral := ne_of_isDigit hd (show '\''.isDigit = false by decide)
  have htext : readText? (d :: cs) = none := by
    unfold readText?
    split <;> simp_all
  unfold readValue?
  split <;> simp_all

theorem readValue?_digits (levels : Nat) {n : Nat} (hn : Integer.Fits n) (rest : List Char) :
    readValue? levels (digits n ++ '\n' :: rest) = some (integer n, '\n' :: rest) := by
  have hds := isDigits_digits n
  have hleading := Json.Numeral.leading_digits n
  have hvalue : Integer.Fits (value (digits n)) := by rwa [value_digits]
  have hnumber : readNumber? (digits n ++ '\n' :: rest) = some (integer n, '\n' :: rest) := by
    unfold readNumber?
    rw [readDateTime?_digits hds.all, readReal?_digits hds hleading,
      readInteger?_digits hds hleading hvalue, value_digits]
    rfl
  obtain ⟨d, more, hcons, hd⟩ := exists_cons_of_isDigits hds
  rw [hcons, List.cons_append] at hnumber ⊢
  rw [readValue?_of_isDigit levels hd, hnumber]

theorem readValue?_boolean (levels : Nat) (b : Bool) (rest : List Char) :
    readValue? levels ((if b then "true" else "false").toList ++ rest) = some (boolean b, rest) := by
  rw [readValue?.eq_def]
  cases b <;> rfl

/-- What stands in a basic text without an escape. -/
def IsLetter (c : Char) : Prop := isPlain c = true ∧ c ≠ '"' ∧ c ≠ '\\'

theorem readBasic?_letters {cs : List Char} (hcs : ∀ c ∈ cs, IsLetter c) {fuel : Nat}
    (hfuel : cs.length < fuel) (rest : List Char) :
    readBasic? fuel (cs ++ '"' :: rest) = some (cs, rest) := by
  induction cs generalizing fuel with
  | nil =>
    obtain ⟨fuel, rfl⟩ : ∃ k, fuel = k + 1 := ⟨fuel - 1, by simp at hfuel; omega⟩
    rfl
  | cons c cs ih =>
    obtain ⟨fuel, rfl⟩ : ∃ k, fuel = k + 1 := ⟨fuel - 1, by simp at hfuel; omega⟩
    obtain ⟨hplain, hquote, hescape⟩ := hcs c (by simp)
    have hmore := ih (fun x hx => hcs x (by simp [hx])) (by simpa using hfuel)
    rw [List.cons_append]
    unfold readBasic?
    split
    next heq => exact absurd (List.cons.inj heq).1 hquote
    next heq => exact absurd (List.cons.inj heq).1 hescape
    next heq =>
      obtain ⟨rfl, rfl⟩ := List.cons.inj heq
      rw [if_pos hplain, hmore]
      rfl
    next heq => cases heq

theorem readValue?_letters (levels : Nat) {cs : List Char} (hsome : cs ≠ [])
    (hcs : ∀ c ∈ cs, IsLetter c) (rest : List Char) :
    readValue? levels ('"' :: cs ++ '"' :: rest) = some (text (String.ofList cs), rest) := by
  have hbasic : readBasic? (cs ++ '"' :: rest).length (cs ++ '"' :: rest) = some (cs, rest) :=
    readBasic?_letters hcs (by simp) rest
  have htext : readText? ('"' :: cs ++ '"' :: rest) = some (cs, rest) := by
    obtain ⟨c, more, rfl⟩ := List.exists_cons_of_ne_nil hsome
    have hquote := (hcs c (by simp)).2.1
    rw [List.cons_append] at hbasic
    rw [List.cons_append, List.cons_append]
    unfold readText?
    split
    next heq => exact absurd (List.cons.inj (List.cons.inj heq).2).1 hquote
    next heq =>
      obtain ⟨-, rfl⟩ := List.cons.inj heq
      exact hbasic
    next heq => cases heq
    next heq => cases heq
    next _ hnone _ _ => exact absurd rfl (hnone _)
  rw [List.cons_append] at htext ⊢
  unfold readValue?
  simp [htext]

end LadderLogic.Toml
