import LadderLogic.Proofs.Json.Numeral
import LadderLogic.Proofs.Json.Text
import LadderLogic.Snapshot

/-!
JSON texts without blanks, read back: words, numerals, quoted texts, and objects of such.
-/

set_option autoImplicit false

namespace LadderLogic.Json

open Snapshot (separated)

/-- The text is read as the value, whatever follows that does not go on with a numeral, if the
readings may be nested as deep as the text is long. -/
def Denotes (cs : List Char) (v : Json) : Prop :=
  ∀ (fuel : Nat) (rest : List Char), cs.length ≤ fuel → Numeral.Ends rest →
    readValue? fuel (cs ++ rest) = some (v, rest)

theorem skip_cons {c : Char} (h : isBlank c = false) (cs : List Char) : skip (c :: cs) = c :: cs :=
  List.dropWhile_cons_of_neg (by simp [h])

theorem denotes_null : Denotes "null".toList .null := by
  intro fuel rest hfuel _
  obtain ⟨fuel, rfl⟩ := Nat.exists_eq_add_of_le' hfuel
  rfl

theorem denotes_bool (b : Bool) : Denotes (if b then "true" else "false").toList (.bool b) := by
  intro fuel rest hfuel _
  cases b with
  | true =>
    obtain ⟨fuel, rfl⟩ := Nat.exists_eq_add_of_le' hfuel
    rfl
  | false =>
    obtain ⟨fuel, rfl⟩ := Nat.exists_eq_add_of_le' hfuel
    rfl

theorem denotes_quoted (s : String) : Denotes (quoted s.toList) (.text (some s)) := by
  intro fuel rest hfuel _
  have htext : quoted s.toList ++ rest = '"' :: (s.toList.flatMap escapedChar ++ '"' :: rest) := by
    simp [quoted]
  obtain ⟨fuel, rfl⟩ := Nat.exists_eq_add_of_le' (Nat.le_trans (Nat.succ_pos _) hfuel)
  rw [htext, readValue?, skip_cons rfl]
  simp only [readText?_quoted]
  rfl

/-- A numeral starts with a sign or a digit. -/
def startsNumeral (c : Char) : Bool := c == '-' || c.isDigit

theorem Numeral.head_text {n : Numeral} (h : n.WellFormed) :
    ∃ c cs, n.text = c :: cs ∧ startsNumeral c = true := by
  obtain ⟨d, ds, hwhole⟩ := List.exists_cons_of_ne_nil h.whole.ne_nil
  have hd := h.whole.all d (by simp [hwhole])
  unfold text
  cases n.negative with
  | true => exact ⟨'-', _, rfl, rfl⟩
  | false =>
    rw [hwhole]
    exact ⟨d, _, rfl, by simp [startsNumeral, hd]⟩

theorem ne_of_startsNumeral {c : Char} (hc : startsNumeral c = true) (d : Char)
    (hd : startsNumeral d = false) : c ≠ d := by
  rintro rfl
  rw [hc] at hd
  cases hd

theorem denotes_numeral {n : Numeral} (h : n.WellFormed) : Denotes n.text (.number n) := by
  intro fuel rest hfuel hrest
  have hread := Numeral.read?_text h hrest
  obtain ⟨c, cs, htext, hc⟩ := Numeral.head_text h
  have hother := ne_of_startsNumeral hc
  have hblank : isBlank c = false := by
    simp [isBlank, hother ' ' rfl, hother '\n' rfl, hother '\t' rfl, hother '\r' rfl]
  rw [htext] at hfuel hread ⊢
  obtain ⟨fuel, rfl⟩ := Nat.exists_eq_add_of_le' (Nat.le_trans (Nat.succ_pos _) hfuel)
  rw [readValue?, List.cons_append, skip_cons hblank]
  split
  case h_1 heq => exact absurd (List.cons.inj heq).1 (hother 'n' rfl)
  case h_2 heq => exact absurd (List.cons.inj heq).1 (hother 't' rfl)
  case h_3 heq => exact absurd (List.cons.inj heq).1 (hother 'f' rfl)
  case h_4 heq => exact absurd (List.cons.inj heq).1 (hother '"' rfl)
  case h_5 heq => exact absurd (List.cons.inj heq).1 (hother '[' rfl)
  case h_6 heq => exact absurd (List.cons.inj heq).1 (hother '\x7b' rfl)
  case h_7 =>
    rw [← List.cons_append, hread]
    rfl

/-- A member of an object: the quoted name, a colon and the text of the value. -/
def memberText (name : String) (cs : List Char) : List Char := quoted name.toList ++ ':' :: cs

/-- A member as it is written and as it is read. -/
structure Entry where
  name : String
  text : List Char
  value : Json
  denotes : Denotes text value

namespace Entry

def written (e : Entry) : List Char := memberText e.name e.text

def member (e : Entry) : Option String × Json := (some e.name, e.value)

theorem written_append (e : Entry) (rest : List Char) :
    e.written ++ rest =
      '"' :: (e.name.toList.flatMap escapedChar ++ '"' :: (':' :: (e.text ++ rest))) := by
  simp [written, memberText, quoted]

theorem length_text_lt (e : Entry) : e.text.length < e.written.length := by
  have := congrArg List.length (e.written_append [])
  simp only [List.append_nil, List.length_cons, List.length_append] at this
  omega

/-- Members start with the quote of a name. -/
theorem separated_eq_quote (e : Entry) (es : List Entry) (rest : List Char) :
    ∃ cs, separated ((e :: es).map written) ++ rest = '"' :: cs := by
  cases es with
  | nil => exact ⟨_, e.written_append rest⟩
  | cons next es =>
    simp only [List.map_cons, separated, List.append_assoc]
    exact ⟨_, e.written_append _⟩

end Entry

theorem ends_nil : Numeral.Ends [] := by rintro c ⟨⟩

theorem ends_cons {c : Char} (h : Numeral.endsBefore c = true) (rest : List Char) :
    Numeral.Ends (c :: rest) := by
  rintro _ ⟨⟩
  exact h

theorem readMembers?_last (e : Entry) {fuel : Nat} (hfuel : e.text.length ≤ fuel)
    (rest : List Char) :
    readMembers? (fuel + 1) (e.written ++ '\x7d' :: rest) = some ([e.member], rest) := by
  have hvalue := e.denotes fuel ('\x7d' :: rest) hfuel (ends_cons rfl rest)
  rw [readMembers?, e.written_append, skip_cons rfl]
  simp only [readText?_quoted, Option.bind_eq_bind, Option.bind_some]
  rw [skip_cons rfl]
  simp only [hvalue, Option.bind_some]
  rw [skip_cons rfl]
  rfl

theorem readMembers?_comma (e : Entry) {fuel : Nat} (hfuel : e.text.length ≤ fuel)
    (rest : List Char) :
    readMembers? (fuel + 1) (e.written ++ ',' :: rest) =
      (readMembers? fuel rest).map fun (members, tail) => (e.member :: members, tail) := by
  have hvalue := e.denotes fuel (',' :: rest) hfuel (ends_cons rfl rest)
  rw [readMembers?, e.written_append, skip_cons rfl]
  simp only [readText?_quoted, Option.bind_eq_bind, Option.bind_some]
  rw [skip_cons rfl]
  simp only [hvalue, Option.bind_some]
  rw [skip_cons rfl]
  show (readMembers? fuel rest).bind _ = _
  cases readMembers? fuel rest <;> rfl

theorem readMembers?_separated (e : Entry) (es : List Entry) {fuel : Nat}
    (hfuel : (separated ((e :: es).map Entry.written)).length ≤ fuel) (rest : List Char) :
    readMembers? fuel (separated ((e :: es).map Entry.written) ++ '\x7d' :: rest) =
      some ((e :: es).map Entry.member, rest) := by
  have hlength := e.length_text_lt
  induction es generalizing e fuel with
  | nil =>
    simp only [List.map_cons, List.map_nil, separated] at hfuel ⊢
    obtain ⟨fuel, rfl⟩ := Nat.exists_eq_add_of_le' (show 1 ≤ fuel by omega)
    exact readMembers?_last e (by omega) rest
  | cons next es ih =>
    simp only [List.map_cons, separated, List.append_assoc, List.cons_append, List.length_append,
      List.length_cons] at hfuel ⊢
    obtain ⟨fuel, rfl⟩ := Nat.exists_eq_add_of_le' (show 1 ≤ fuel by omega)
    have hlonger : (separated ((next :: es).map Entry.written)).length ≤ fuel := by
      rw [List.map_cons]
      omega
    have hrest := ih next hlonger next.length_text_lt
    rw [List.map_cons] at hrest
    rw [readMembers?_comma e (by omega), hrest]
    rfl

/-- Objects are read member by member. -/
theorem denotes_object (es : List Entry) :
    Denotes ('\x7b' :: (separated (es.map Entry.written) ++ ['\x7d']))
      (.object (es.map Entry.member)) := by
  intro fuel rest hfuel _
  simp only [List.length_cons, List.length_append] at hfuel
  obtain ⟨fuel, rfl⟩ := Nat.exists_eq_add_of_le' (show 1 ≤ fuel by omega)
  cases es with
  | nil => rfl
  | cons e es =>
    have hmembers := readMembers?_separated e es (show _ ≤ fuel by omega) rest
    obtain ⟨cs, hcs⟩ := e.separated_eq_quote es ('\x7d' :: rest)
    have htext : '\x7b' :: (separated ((e :: es).map Entry.written) ++ ['\x7d']) ++ rest =
        '\x7b' :: (separated ((e :: es).map Entry.written) ++ '\x7d' :: rest) := by simp
    rw [hcs] at hmembers htext
    rw [htext, readValue?, skip_cons rfl]
    simp only [skip_cons (show isBlank '"' = false from rfl)]
    show (readMembers? fuel ('"' :: cs)).map _ = _
    rw [hmembers]
    rfl

/-- A whole text. -/
theorem ofText?_of_denotes {cs : List Char} {v : Json} (h : Denotes cs v) :
    ofText? (String.ofList cs) = some v := by
  have hread := h (2 * cs.length + 2) [] (by omega) ends_nil
  rw [List.append_nil] at hread
  unfold ofText?
  simp only [String.toList_ofList, hread]
  rfl

end LadderLogic.Json
