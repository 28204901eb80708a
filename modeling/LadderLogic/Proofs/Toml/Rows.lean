import LadderLogic.Proofs.Toml.Values

/-!
Documents row by row. A row is a blank line, a header with one key, or a key with a value that ends
with the line. Main result: rows that are written one after the other are read as their lines.
-/

set_option autoImplicit false

namespace LadderLogic.Toml

open Decimal

/-- A value that is written on one line. -/
inductive Plain where
  | natural (n : Nat)
  | boolean (b : Bool)
  | text (cs : List Char)

namespace Plain

def written : Plain → List Char
  | natural n => digits n
  | boolean b => (if b then "true" else "false").toList
  | text cs => '"' :: cs ++ ['"']

def value : Plain → Toml
  | natural n => .integer n
  | boolean b => .boolean b
  | text cs => .text (String.ofList cs)

/-- A number in range, or a text that is not empty and needs no escapes. -/
def WellFormed : Plain → Prop
  | natural n => Integer.Fits n
  | boolean _ => True
  | text cs => cs ≠ [] ∧ ∀ c ∈ cs, IsLetter c

theorem readValue?_written {v : Plain} (h : v.WellFormed) (levels : Nat) (rest : List Char) :
    readValue? levels (v.written ++ '\n' :: rest) = some (v.value, '\n' :: rest) := by
  cases v with
  | natural n => exact readValue?_digits levels h rest
  | boolean b => exact readValue?_boolean levels b ('\n' :: rest)
  | text cs =>
    have htext := readValue?_letters levels h.1 h.2 ('\n' :: rest)
    simpa [written, value] using htext

theorem head?_written (v : Plain) : ∃ c more, v.written = c :: more ∧ isSpace c = false := by
  cases v with
  | natural n =>
    obtain ⟨d, more, hcons, hd⟩ := exists_cons_of_isDigits (isDigits_digits n)
    have hspace := ne_of_isDigit hd (show ' '.isDigit = false by decide)
    have htab := ne_of_isDigit hd (show '\t'.isDigit = false by decide)
    exact ⟨d, more, hcons, by simp [isSpace, hspace, htab]⟩
  | boolean b => cases b <;> exact ⟨_, _, rfl, by decide⟩
  | text cs => exact ⟨_, _, rfl, by decide⟩

end Plain

/-- A key that needs no quotes. -/
structure IsKey (key : List Char) : Prop where
  ne_nil : key ≠ []
  bare : ∀ c ∈ key, isBare c = true

theorem IsKey.exists_cons {key : List Char} (h : IsKey key) :
    ∃ k more, key = k :: more ∧ isBare k = true := by
  obtain ⟨k, more, rfl⟩ := List.exists_cons_of_ne_nil h.ne_nil
  exact ⟨k, more, rfl, h.bare k (by simp)⟩

variable {key rest : List Char}

theorem ne_of_isBare {c d : Char} (hc : isBare c = true) (hd : isBare d = false) : c ≠ d := by
  rintro rfl
  rw [hc] at hd
  cases hd

theorem skipSpaces_cons {c : Char} (hc : isSpace c = false) (cs : List Char) :
    skipSpaces (c :: cs) = c :: cs := by
  simp [skipSpaces, hc]

theorem isSpace_of_isBare {c : Char} (hc : isBare c = true) : isSpace c = false := by
  have hspace := ne_of_isBare hc (show isBare ' ' = false by decide)
  have htab := ne_of_isBare hc (show isBare '\t' = false by decide)
  simp [isSpace, hspace, htab]

theorem readPart?_key (hkey : IsKey key) {c : Char} (hc : isBare c = false) (rest : List Char) :
    readPart? (key ++ c :: rest) = some (String.ofList key, c :: rest) := by
  have htake : (key ++ c :: rest).takeWhile isBare = key := by
    rw [List.takeWhile_append_of_pos hkey.bare]
    simp [hc]
  have hdrop : (key ++ c :: rest).dropWhile isBare = c :: rest := by
    rw [List.dropWhile_append_of_pos hkey.bare]
    simp [hc]
  unfold readPart?
  obtain ⟨k, more, rfl, hk⟩ := hkey.exists_cons
  split
  next heq => exact absurd (List.cons.inj heq).1 (ne_of_isBare hk (by decide))
  next heq => exact absurd (List.cons.inj heq).1 (ne_of_isBare hk (by decide))
  next => simp only [htake, hdrop, hkey.ne_nil, if_false]

/-- A key ends before the first character that may not stand in one, unless a point follows. -/
theorem readKey?_key (hkey : IsKey key) {c : Char} (hc : isBare c = false) (rest : List Char)
    (hpoint : ∀ more, skipSpaces (c :: rest) ≠ '.' :: more) :
    readKey? (key ++ c :: rest) = some ([], String.ofList key, skipSpaces (c :: rest)) := by
  have hskip : skipSpaces (key ++ c :: rest) = key ++ c :: rest := by
    obtain ⟨k, more, rfl, hk⟩ := hkey.exists_cons
    exact skipSpaces_cons (isSpace_of_isBare hk) _
  have hparts : readParts? (depthLimit - 1) (key ++ c :: rest) =
      some ([String.ofList key], skipSpaces (c :: rest)) := by
    change readParts? (78 + 1) _ = _
    unfold readParts?
    rw [hskip, readPart?_key hkey hc]
    simp only [Option.bind_eq_bind, Option.bind_some]
    rfl
  unfold readKey?
  rw [hparts]
  rfl

/-- A line of a document that is written in the one way that is used here. -/
inductive Row where
  | blank
  | header (key : List Char)
  | pair (key : List Char) (value : Plain)

namespace Row

def written : Row → List Char
  | blank => ['\n']
  | header key => '[' :: key ++ [']', '\n']
  | pair key value => key ++ [' ', '=', ' '] ++ value.written ++ ['\n']

def line? : Row → Option Line
  | blank => none
  | header key => some (.header [] (String.ofList key))
  | pair key value => some (.pair [] (String.ofList key) value.value)

def WellFormed : Row → Prop
  | blank => True
  | header key => IsKey key
  | pair key value => IsKey key ∧ value.WellFormed

end Row

theorem readLine?_header (hkey : IsKey key) (rest : List Char) :
    readLine? ('[' :: key ++ ']' :: rest) = some (.header [] (String.ofList key), rest) := by
  have hread := readKey?_key hkey (show isBare ']' = false by decide) rest (by
    rw [skipSpaces_cons (by decide)]
    simp)
  rw [skipSpaces_cons (by decide)] at hread
  unfold readLine?
  split
  next heq =>
    obtain ⟨k, more, rfl, hk⟩ := hkey.exists_cons
    exact absurd (List.cons.inj (List.cons.inj heq).2).1 (ne_of_isBare hk (by decide))
  next heq =>
    have htail : key ++ ']' :: rest = _ := (List.cons.inj heq).2
    rw [← htail, hread]
    rfl
  next _ hnone => exact absurd rfl (hnone _)

theorem readLine?_pair (hkey : IsKey key) {v : Plain} (hv : v.WellFormed) (rest : List Char) :
    readLine? (key ++ [' ', '=', ' '] ++ v.written ++ '\n' :: rest) =
      some (.pair [] (String.ofList key) v.value, '\n' :: rest) := by
  have hskip : skipSpaces (' ' :: (v.written ++ '\n' :: rest)) = v.written ++ '\n' :: rest := by
    obtain ⟨c, more, hcons, hc⟩ := v.head?_written
    rw [hcons]
    exact skipSpaces_cons hc _
  have hread := readKey?_key hkey (show isBare ' ' = false by decide)
    ('=' :: ' ' :: (v.written ++ '\n' :: rest)) (by
      intro more
      change '=' :: _ ≠ '.' :: more
      simp)
  have hpair : readPair? (readValue? (depthLimit - 1))
      (key ++ ' ' :: '=' :: ' ' :: (v.written ++ '\n' :: rest)) =
        some (([], String.ofList key, v.value), '\n' :: rest) := by
    have hequals : expect? '=' (skipSpaces (' ' :: '=' :: ' ' :: (v.written ++ '\n' :: rest))) =
        some (' ' :: (v.written ++ '\n' :: rest)) := rfl
    simp [readPair?, hread, hequals, hskip, Plain.readValue?_written hv]
  have hrow : key ++ [' ', '=', ' '] ++ v.written ++ '\n' :: rest =
      key ++ ' ' :: '=' :: ' ' :: (v.written ++ '\n' :: rest) := by simp
  rw [hrow]
  obtain ⟨k, more, rfl, hk⟩ := hkey.exists_cons
  unfold readLine?
  split
  next heq => exact absurd (List.cons.inj heq).1 (ne_of_isBare hk (by decide))
  next heq => exact absurd (List.cons.inj heq).1 (ne_of_isBare hk (by decide))
  next =>
    rw [hpair]
    rfl

/-- No line ends before what starts one. -/
theorem endLine?_cons {c : Char} (hspace : isSpace c = false) (hcomment : c ≠ '#') (hfeed : c ≠ '\n')
    (hreturn : c ≠ '\r') (cs : List Char) : endLine? (c :: cs) = none := by
  unfold endLine?
  rw [skipSpaces_cons hspace]
  simp only
  split
  next heq =>
    split at heq
    next hc => exact absurd (List.cons.inj hc).1 hcomment
    next => cases heq
  next =>
    split
    next hc => exact absurd (List.cons.inj hc).1 hcomment
    next =>
      unfold newline?
      split
      next hc => exact absurd (List.cons.inj hc).1 hfeed
      next hc => exact absurd (List.cons.inj hc).1 hreturn
      next => rfl

theorem readDocumentLines?_cons {c : Char} {cs after rest : List Char} {line : Line}
    (hbegin : c = '[' ∨ isBare c = true)
    (hline : readLine? (c :: cs) = some (line, after)) (hend : endLine? after = some rest)
    (fuel : Nat) :
    readDocumentLines? (fuel + 1) (c :: cs) =
      (readDocumentLines? fuel rest).map (line :: ·) := by
  have hne : ∀ d, d ≠ '[' → isBare d = false → c ≠ d := by
    intro d hd hbare
    rcases hbegin with rfl | hc
    · exact hd.symm
    · exact ne_of_isBare hc hbare
  have hspace : isSpace c = false := by
    simp [isSpace, hne ' ' (by decide) (by decide), hne '\t' (by decide) (by decide)]
  have hnone := endLine?_cons hspace (hne '#' (by decide) (by decide))
    (hne '\n' (by decide) (by decide)) (hne '\r' (by decide) (by decide)) cs
  rw [readDocumentLines?, skipSpaces_cons hspace]
  simp [hnone, hline, hend, Option.map_eq_bind]

theorem readDocumentLines?_row {row : Row} (h : row.WellFormed) (fuel : Nat) (rest : List Char) :
    readDocumentLines? (fuel + 1) (row.written ++ rest) =
      (readDocumentLines? fuel rest).map (row.line?.toList ++ ·) := by
  cases row with
  | blank =>
    have hend : endLine? ('\n' :: rest) = some rest := rfl
    change readDocumentLines? (fuel + 1) ('\n' :: rest) = _
    rw [readDocumentLines?, skipSpaces_cons (by decide)]
    simp [hend, Row.line?]
  | header key =>
    have hline := readLine?_header h ('\n' :: rest)
    have hread := readDocumentLines?_cons (.inl rfl) hline rfl fuel
    simpa [Row.written, Row.line?] using hread
  | pair key value =>
    obtain ⟨hkey, hvalue⟩ := h
    have hline := readLine?_pair hkey hvalue rest
    obtain ⟨k, more, rfl, hk⟩ := hkey.exists_cons
    have hread := readDocumentLines?_cons (.inr hk) hline rfl fuel
    simpa [Row.written, Row.line?] using hread

/-- Rows are read as their lines, by induction on the rows: each takes one unit of fuel. -/
theorem readDocumentLines?_rows {rows : List Row} (h : ∀ row ∈ rows, row.WellFormed) {fuel : Nat}
    (hfuel : rows.length < fuel) :
    readDocumentLines? fuel (rows.flatMap Row.written) = some (rows.filterMap Row.line?) := by
  induction rows generalizing fuel with
  | nil =>
    obtain ⟨fuel, rfl⟩ : ∃ k, fuel = k + 1 := ⟨fuel - 1, by simp at hfuel; omega⟩
    rfl
  | cons row rows ih =>
    obtain ⟨fuel, rfl⟩ : ∃ k, fuel = k + 1 := ⟨fuel - 1, by simp at hfuel; omega⟩
    have hmore := ih (fun r hr => h r (by simp [hr])) (by simpa using hfuel)
    rw [List.flatMap_cons, readDocumentLines?_row (h row (by simp)), hmore]
    cases hrow : row.line? <;> simp [hrow]

theorem Row.head?_written {row : Row} (h : row.WellFormed) :
    ∃ c more, row.written = c :: more ∧ c ≠ '\ufeff' := by
  cases row with
  | blank => exact ⟨_, _, rfl, by decide⟩
  | header key => exact ⟨_, _, rfl, by decide⟩
  | pair key value =>
    obtain ⟨k, more, rfl, hk⟩ := h.1.exists_cons
    exact ⟨k, _, rfl, ne_of_isBare hk (by decide)⟩

theorem length_le_written {rows : List Row} (h : ∀ row ∈ rows, row.WellFormed) :
    rows.length ≤ (rows.flatMap Row.written).length := by
  induction rows with
  | nil => simp
  | cons row rows ih =>
    obtain ⟨c, more, hrow, -⟩ := Row.head?_written (h row (by simp))
    have hmore := ih fun r hr => h r (by simp [hr])
    rw [List.flatMap_cons, hrow]
    simp only [List.length_cons, List.length_append]
    omega

/-- A document that is written in rows defines what their lines define. -/
theorem read?_of_rows {s : String} {rows : List Row} (hs : s.toList = rows.flatMap Row.written)
    (h : ∀ row ∈ rows, row.WellFormed) : read? s = addLines [] [] (rows.filterMap Row.line?) := by
  have hlines := readDocumentLines?_rows h (Nat.lt_succ_of_le (length_le_written h))
  unfold read?
  rw [hs]
  dsimp only
  split
  next heq =>
    cases rows with
    | nil => cases heq
    | cons row rows =>
      obtain ⟨c, more, hrow, hc⟩ := Row.head?_written (h row (by simp))
      rw [List.flatMap_cons, hrow] at heq
      exact absurd (List.cons.inj heq).1 hc
  next =>
    rw [hlines]
    rfl

end LadderLogic.Toml
