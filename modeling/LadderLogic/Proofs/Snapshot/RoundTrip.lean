import LadderLogic.Proofs.Binary.Exact
import LadderLogic.Proofs.Expression.Integers
import LadderLogic.Proofs.Json.Reading
import LadderLogic.Proofs.Json.Real

/-!
Snapshots, read back. The text of a state is the JSON text of its values, in which nothing but the
digits of its reals can be lost: names and texts come back through their escapes, integers digit by
digit, and no real is ever taken for an integer. So a state survives being written exactly if each
of its reals does.
-/

set_option autoImplicit false

namespace LadderLogic

namespace ValueMap

theorem getElem?_ofEntries {entries : List (String × Value)}
    (hnames : (entries.map Prod.fst).Nodup) (name : String) (v : Value) :
    (ofEntries entries)[name]? = some v ↔ (name, v) ∈ entries := by
  have hdistinct : entries.Pairwise fun a b => ¬ compare a.1 b.1 = .eq := by
    rw [List.Nodup, List.pairwise_map] at hnames
    exact hnames.imp fun hne heq => hne (Std.compare_eq_iff_eq.mp heq)
  have hmem {w : Value} (h : (name, w) ∈ entries) : (ofEntries entries)[name]? = some w :=
    Std.ExtTreeMap.getElem?_ofList_of_mem (Std.compare_eq_iff_eq.mpr rfl) hdistinct h
  refine ⟨fun h => ?_, hmem⟩
  by_cases hname : name ∈ entries.map Prod.fst
  · obtain ⟨⟨_, w⟩, hw, rfl⟩ := List.mem_map.mp hname
    rw [hmem hw] at h
    exact Option.some.inj h ▸ hw
  · have hnone : (ofEntries entries)[name]? = none :=
      Std.ExtTreeMap.getElem?_ofList_of_contains_eq_false (by simpa using hname)
    rw [hnone] at h
    cases h

theorem nodup_names (m : ValueMap) : (m.toList.map Prod.fst).Nodup := by
  rw [List.Nodup, List.pairwise_map]
  exact Std.ExtTreeMap.distinct_keys_toList.imp fun hne heq =>
    hne (Std.compare_eq_iff_eq.mpr heq)

theorem ofEntries_toList (m : ValueMap) : ofEntries m.toList = m := by
  apply Std.ExtTreeMap.ext_getElem?
  intro name
  apply Option.ext
  intro v
  rw [getElem?_ofEntries m.nodup_names, Std.ExtTreeMap.mem_toList_iff_getElem?_eq_some]

end ValueMap

namespace Snapshot

open Binary Json

/-- The number that a real is written as has the value of the real. -/
def RealReadsBack (x : Float) : Prop :=
  ((Numeral.read? (realText x)).bind fun (n, _) => n.toReal?) = some x

instance (x : Float) : Decidable (RealReadsBack x) := inferInstanceAs (Decidable (_ = _))

/-- A real is written as no number, or as one that does not look like an integer. -/
theorem realText_cases (x : Float) :
    realText x = "null".toList ∨
      ∃ n : Numeral, n.WellFormed ∧ realText x = n.text ∧ n.value? = n.toReal?.map .real := by
  unfold realText
  cases hdatum : datum x with
  | nan => exact .inl rfl
  | infinite negative => exact .inl rfl
  | finite negative m e =>
    obtain ⟨hcanonical, -⟩ := Format.canonical_of_decodeMagnitude Format.double_regular hdatum
    have hlow : -1074 ≤ e := double_minExponent ▸ hcanonical.least
    have hhigh : e ≤ 971 := double_maxExponent ▸ hcanonical.greatest
    obtain ⟨n, hformed, -, htext, hreal⟩ :=
      realLayout.spellsReal_finiteText rfl negative hcanonical.significand hlow hhigh
    refine .inr ⟨n, hformed, htext.symm, ?_⟩
    unfold Numeral.value?
    simp [hreal]

/-- What is read where a real is written. -/
def realJson (x : Float) : Json :=
  match Numeral.read? (realText x) with
  | some (n, _) => .number n
  | none => .null

/-- What is read where a real is written is nothing, or a number with the real that its digits
say. -/
theorem realJson_cases (x : Float) :
    (realText x = "null".toList ∧ realJson x = .null ∧ ¬ RealReadsBack x) ∨
      ∃ n : Numeral, n.WellFormed ∧ realText x = n.text ∧ realJson x = .number n ∧
        n.value? = n.toReal?.map .real ∧ (RealReadsBack x ↔ n.toReal? = some x) := by
  unfold RealReadsBack realJson
  rcases realText_cases x with htext | ⟨n, hformed, htext, hvalue⟩
  · have hread : Numeral.read? "null".toList = none := rfl
    exact .inl ⟨htext, by rw [htext, hread], by rw [htext, hread]; simp⟩
  · have hread := Numeral.read?_text hformed ends_nil
    rw [List.append_nil, ← htext] at hread
    exact .inr ⟨n, hformed, htext, by rw [hread], hvalue, by simp [hread]⟩

theorem denotes_real (x : Float) : Denotes (realText x) (realJson x) := by
  rcases realJson_cases x with ⟨htext, hjson, -⟩ | ⟨n, hformed, htext, hjson, -, -⟩
  · rw [htext, hjson]
    exact denotes_null
  · rw [htext, hjson]
    exact denotes_numeral hformed

theorem readValue?_realJson (x : Float) :
    readValue? (realJson x) = some (.real x) ↔ RealReadsBack x := by
  rcases realJson_cases x with ⟨-, hjson, hlost⟩ | ⟨n, -, -, hjson, hvalue, hback⟩
  · simp [hjson, readValue?, hlost]
  · simp [hjson, readValue?, hvalue, hback]

theorem readReal?_realJson (x : Float) : readReal? (realJson x) = some x ↔ RealReadsBack x := by
  rcases realJson_cases x with ⟨-, hjson, hlost⟩ | ⟨n, -, -, hjson, hvalue, hback⟩
  · simp [hjson, readReal?, hlost]
  · have hreal : (Json.Number.toReal ∘ Json.Number.real) = id := rfl
    simp [hjson, readReal?, hvalue, hback, hreal]

/-- What is read where a value is written. -/
def valueJson : Value → Json
  | .bool b => .bool b
  | .int i => .number (.ofInt i)
  | .real x => realJson x
  | .text s => .text (some s)

theorem denotes_value (v : Value) : Denotes (valueText v) (valueJson v) := by
  cases v with
  | bool b => exact denotes_bool b
  | int i =>
    have h := denotes_numeral (Numeral.wellFormed_ofInt i)
    rwa [Numeral.text_ofInt] at h
  | real x => exact denotes_real x
  | text s => exact denotes_quoted s

theorem readValue?_integer {i : Int} (h : Integer.Fits i) :
    readValue? (.number (.ofInt i)) = some (.int i) := by
  by_cases hi : 0 ≤ i
  · have hsize : i < UInt64.size := by
      have := h.2
      unfold Integer.greatest at this
      simp only [UInt64.size]
      omega
    have hback : (i.toNat : Int) = i := Int.toNat_of_nonneg hi
    simp [readValue?, Numeral.value?_ofInt_natural hi hsize, hback, h]
  · simp [readValue?, Numeral.value?_ofInt_negative (by omega) h]

/-- Of all values, only reals can come back as something else. -/
theorem readValue?_valueJson {v : Value} (hfits : v.Fits) :
    readValue? (valueJson v) = some v ↔ ∀ x, v = .real x → RealReadsBack x := by
  cases v with
  | bool b => simp [valueJson, readValue?]
  | int i => simp [valueJson, readValue?_integer hfits]
  | real x => simp [valueJson, readValue?_realJson]
  | text s => simp [valueJson, readValue?]

/-- What is read where a map is written. -/
def mapJson (m : ValueMap) : Json :=
  .object (m.toList.map fun e => (some e.1, valueJson e.2))

def mapEntry (e : String × Value) : Entry := ⟨e.1, valueText e.2, valueJson e.2, denotes_value e.2⟩

theorem denotes_map (m : ValueMap) : Denotes (mapText m) (mapJson m) := by
  have h := denotes_object (m.toList.map mapEntry)
  simp only [List.map_map] at h
  exact h

/-- Reads values one by one, under the names they have. -/
def readEntries? (entries : List (String × Value)) : Option (List (String × Value)) :=
  entries.mapM fun e => (readValue? (valueJson e.2)).map (e.1, ·)

theorem readMap?_eq (m : ValueMap) :
    readMap? (mapJson m) = (readEntries? m.toList).map .ofEntries := by
  have hentry : (fun x : Option String × Json => do return (← x.1, ← readValue? x.2)) ∘
      (fun e : String × Value => (some e.1, valueJson e.2)) =
        fun e => (readValue? (valueJson e.2)).map (e.1, ·) := by
    funext e
    show (readValue? (valueJson e.2)).bind _ = _
    cases readValue? (valueJson e.2) <;> rfl
  unfold readMap? mapJson readEntries?
  simp only [List.mapM_map, hentry]
  exact Option.map_eq_bind.symm

/-- An entry is read with its value, and then the others. -/
theorem readEntries?_cons {e : String × Value} {entries result : List (String × Value)} :
    readEntries? (e :: entries) = some result ↔
      ∃ w rest, readValue? (valueJson e.2) = some w ∧ readEntries? entries = some rest ∧
        result = (e.1, w) :: rest := by
  rw [readEntries?, List.mapM_cons]
  cases readValue? (valueJson e.2) with
  | none => simp
  | some w =>
    show (readEntries? entries).bind _ = _ ↔ _
    cases readEntries? entries <;> simp [eq_comm]

theorem readEntries?_self {entries : List (String × Value)}
    (h : ∀ e ∈ entries, readValue? (valueJson e.2) = some e.2) :
    readEntries? entries = some entries := by
  induction entries with
  | nil => rfl
  | cons e entries ih =>
    have hrest := ih fun x hx => h x (List.mem_cons_of_mem e hx)
    exact readEntries?_cons.mpr ⟨e.2, entries, h e List.mem_cons_self, hrest, rfl⟩

theorem names_of_readEntries? {entries result : List (String × Value)}
    (h : readEntries? entries = some result) : result.map Prod.fst = entries.map Prod.fst := by
  induction entries generalizing result with
  | nil =>
    cases h
    rfl
  | cons e entries ih =>
    obtain ⟨w, rest, -, hrest, rfl⟩ := readEntries?_cons.mp h
    simp [ih hrest]

theorem mem_of_readEntries? {entries result : List (String × Value)}
    (h : readEntries? entries = some result) {name : String} {v : Value}
    (hv : (name, v) ∈ entries) :
    ∃ w, readValue? (valueJson v) = some w ∧ (name, w) ∈ result := by
  induction entries generalizing result with
  | nil => cases hv
  | cons e entries ih =>
    obtain ⟨w, rest, hw, hrest, rfl⟩ := readEntries?_cons.mp h
    rcases List.mem_cons.mp hv with rfl | hv
    · exact ⟨w, hw, List.mem_cons_self⟩
    · obtain ⟨u, hu, hmem⟩ := ih hrest hv
      exact ⟨u, hu, List.mem_cons_of_mem _ hmem⟩

/-- Maps are read name by name. -/
theorem readMap?_mapJson (m : ValueMap) :
    readMap? (mapJson m) = some m ↔
      ∀ (name : String) (v : Value), m[name]? = some v → readValue? (valueJson v) = some v := by
  simp only [← Std.ExtTreeMap.mem_toList_iff_getElem?_eq_some]
  rw [readMap?_eq]
  constructor
  · intro h name v hv
    obtain ⟨result, hread, hresult⟩ := Option.map_eq_some_iff.mp h
    obtain ⟨w, hw, hmem⟩ := mem_of_readEntries? hread hv
    have hnames : (result.map Prod.fst).Nodup := names_of_readEntries? hread ▸ m.nodup_names
    have hlast := (ValueMap.getElem?_ofEntries hnames name w).mpr hmem
    rw [hresult, Std.ExtTreeMap.mem_toList_iff_getElem?_eq_some.mp hv] at hlast
    rw [hw, hlast]
  · intro h
    rw [readEntries?_self fun e he => h e.1 e.2 he, Option.map_some, m.ofEntries_toList]

theorem denotes_natural (n : Nat) : Denotes (Decimal.digits n) (.number (.ofInt n)) := by
  have h := denotes_numeral (Numeral.wellFormed_ofInt n)
  rwa [Numeral.text_ofInt, Decimal.integer, if_neg (by omega), Int.natAbs_natCast] at h

theorem readScanId?_ofInt (id : UInt64) :
    readScanId? (.number (.ofInt id.toNat)) = some id := by
  have hsize : (id.toNat : Int) < UInt64.size := by
    have := id.toNat_lt
    simp only [UInt64.size]
    omega
  simp [readScanId?, Numeral.value?_ofInt_natural (Int.natCast_nonneg _) hsize]

/-- The fields of a state as they are written. -/
def fields (s : SystemState) : List Entry :=
  [⟨"scan_id", Decimal.digits s.scanId.toNat, .number (.ofInt s.scanId.toNat), denotes_natural _⟩,
    ⟨"timestamp", realText s.timestamp, realJson s.timestamp, denotes_real _⟩,
    ⟨"tags", mapText s.tags, mapJson s.tags, denotes_map _⟩,
    ⟨"memory", mapText s.memory, mapJson s.memory, denotes_map _⟩]

theorem write_eq (s : SystemState) :
    write s = String.ofList ('\x7b' :: (separated ((fields s).map Entry.written) ++ ['\x7d'])) := by
  unfold write
  simp [fields, Entry.written, separated, memberText, quoted, escapedChar]

/-- A written state is read field by field. -/
theorem read?_write (s : SystemState) :
    read? (write s) = readFields? (.number (.ofInt s.scanId.toNat)) (realJson s.timestamp)
      (mapJson s.tags) (mapJson s.memory) := by
  have htext := ofText?_of_denotes (denotes_object (fields s))
  rw [← write_eq] at htext
  unfold read?
  rw [htext]
  simp [fields, Entry.member, field?]

theorem readFields?_eq_some_iff {scanId timestamp tags memory : Json} {s : SystemState} :
    readFields? scanId timestamp tags memory = some s ↔
      readScanId? scanId = some s.scanId ∧ readReal? timestamp = some s.timestamp ∧
        readMap? tags = some s.tags ∧ readMap? memory = some s.memory := by
  obtain ⟨i, x, m, n⟩ := s
  unfold readFields?
  cases readScanId? scanId <;> cases readReal? timestamp <;> cases readMap? tags <;>
    cases readMap? memory <;> simp

theorem readMap?_eq_self_iff {m : ValueMap}
    (hfits : ∀ (name : String) (v : Value), m[name]? = some v → v.Fits) :
    readMap? (mapJson m) = some m ↔
      ∀ (name : String) (x : Float), m[name]? = some (.real x) → RealReadsBack x := by
  rw [readMap?_mapJson]
  constructor
  · intro h name x hx
    exact (readValue?_realJson x).mp (h name (.real x) hx)
  · intro h name v hv
    refine (readValue?_valueJson (hfits name v hv)).mpr ?_
    rintro x rfl
    exact h name x hv

/-- A tag or a memory cell of the state has this value. -/
def Holds (s : SystemState) (v : Value) : Prop :=
  ∃ name : String, s.tags[name]? = some v ∨ s.memory[name]? = some v

/-- A state whose integers are those of 64 bits is read back from its text, with every value as the
variant that it was, exactly if all of its reals are read back from theirs. -/
theorem reads_back_iff {s : SystemState} (hfits : ∀ v, Holds s v → v.Fits) :
    read? (write s) = some s ↔
      RealReadsBack s.timestamp ∧ ∀ x, Holds s (.real x) → RealReadsBack x := by
  have htags := readMap?_eq_self_iff fun name v hv => hfits v ⟨name, .inl hv⟩
  have hmemory := readMap?_eq_self_iff fun name v hv => hfits v ⟨name, .inr hv⟩
  rw [read?_write, readFields?_eq_some_iff, readReal?_realJson, htags, hmemory]
  constructor
  · rintro ⟨-, htime, htags, hmemory⟩
    refine ⟨htime, ?_⟩
    rintro x ⟨name, hx | hx⟩
    · exact htags name x hx
    · exact hmemory name x hx
  · rintro ⟨htime, hreals⟩
    exact ⟨readScanId?_ofInt s.scanId, htime, fun name x hx => hreals x ⟨name, .inl hx⟩,
      fun name x hx => hreals x ⟨name, .inr hx⟩⟩

/-- The digits may also be read as a real next to the one that they were written for. -/
example : ¬ RealReadsBack (-964.0150750609437) := by decide +kernel

namespace Sample

def tags : List (String × Value) :=
  [("Run", .bool true), ("Low \"A\"", .int (-9223372036854775808)), ("Level", .real 3.0),
    ("Zero", .real (-0.0)), ("Note", .text "true\n\x01 \\ ü")]

def memory : List (String × Value) := [("_frac:T1", .real 0.25), ("_prev:Note", .text "12.5")]

def state : SystemState :=
  ⟨18446744073709551615, 1e300, ValueMap.ofEntries tags, ValueMap.ofEntries memory⟩

theorem mem_of_holds {v : Value} (h : Holds state v) : v ∈ (tags ++ memory).map Prod.snd := by
  obtain ⟨name, h | h⟩ := h
  · have hmem := (ValueMap.getElem?_ofEntries (by decide) name v).mp h
    exact List.mem_map.mpr ⟨_, List.mem_append_left _ hmem, rfl⟩
  · have hmem := (ValueMap.getElem?_ofEntries (by decide) name v).mp h
    exact List.mem_map.mpr ⟨_, List.mem_append_right _ hmem, rfl⟩

end Sample

/-- A whole real, minus zero, and texts that look like other values or need escapes. -/
theorem reads_back_iff_sample :
    (∀ v, Holds Sample.state v → v.Fits) ∧ read? (write Sample.state) = some Sample.state := by
  have hfits : ∀ v, Holds Sample.state v → v.Fits := by
    intro v hv
    have hv := Sample.mem_of_holds hv
    simp only [Sample.tags, Sample.memory, List.cons_append, List.nil_append, List.map_cons,
      List.map_nil, List.mem_cons, List.not_mem_nil, or_false] at hv
    rcases hv with rfl | rfl | rfl | rfl | rfl | rfl | rfl <;> trivial
  refine ⟨hfits, (reads_back_iff hfits).mpr ⟨by decide +kernel, fun x hx => ?_⟩⟩
  have hx := Sample.mem_of_holds hx
  have hreals : x = 3.0 ∨ x = -0.0 ∨ x = 0.25 := by
    simpa [Sample.tags, Sample.memory] using hx
  rcases hreals with rfl | rfl | rfl <;> decide +kernel

end Snapshot

end LadderLogic
