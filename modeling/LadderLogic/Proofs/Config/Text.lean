import LadderLogic.Config.Text
import LadderLogic.Proofs.Toml.Rows

/-!
The text of a configuration. It is written in rows, each of which is read as a line, and the lines
define the tables that a configuration is read from. Main result: what is written is read back.
-/

set_option autoImplicit false

namespace LadderLogic

open Toml

@[simp] theorem Severity.ofName?_name (s : Severity) : ofName? s.name = some s := by
  cases s <;> decide

@[simp] theorem LogTarget.ofName?_name (t : LogTarget) : ofName? t.name = some t := by
  cases t <;> decide

theorem Severity.wellFormed_name (s : Severity) : (Plain.text s.name.toList).WellFormed := by
  cases s <;> simp [name, Plain.WellFormed, IsLetter, isPlain]

theorem LogTarget.wellFormed_name (t : LogTarget) : (Plain.text t.name.toList).WellFormed := by
  cases t <;> simp [name, Plain.WellFormed, IsLetter, isPlain]

theorem Toml.wellFormed_natural (n : UInt32) : (Plain.natural n.toNat).WellFormed := by
  have hn := n.toNat_lt
  constructor
  · simp [Integer.least]
  · simp only [Integer.greatest]
    omega

@[simp] theorem Toml.toUInt32?_integer (n : UInt32) : toUInt32? (integer n.toNat) = some n := by
  have hn := n.toNat_lt
  simpa [toUInt32?] using hn

theorem Toml.readSetting?_of_lookup {α : Type} {entries : Entries} {name : String} {value : Toml}
    (h : entries.lookup name = some value) (kind : TableKind) (position : Nat)
    (read? : Toml → Option α) (default : α) :
    readSetting? (table kind entries) position name read? default = read? value := by
  simp [readSetting?, setting?, readGiven?, h]

/-- The tables of the groups of settings. -/
def Limits.entries (l : Limits) : Entries :=
  [("max_loop_iterations", .integer l.maxLoopIterations.toNat),
    ("max_call_depth", .integer l.maxCallDepth.toNat)]

def LoggingConfig.entries (l : LoggingConfig) : Entries :=
  [("level", .text l.level.name), ("target", .text l.target.name)]

theorem Limits.ofToml?_entries (l : Limits) : ofToml? (.table .header l.entries) = some l := by
  have hloops : l.entries.lookup "max_loop_iterations" = some (.integer l.maxLoopIterations.toNat) := rfl
  have hdepth : l.entries.lookup "max_call_depth" = some (.integer l.maxCallDepth.toNat) := rfl
  simp [ofToml?, readSetting?_of_lookup hloops, readSetting?_of_lookup hdepth]

theorem LoggingConfig.ofToml?_entries (l : LoggingConfig) :
    ofToml? (.table .header l.entries) = some l := by
  have hlevel : l.entries.lookup "level" = some (.text l.level.name) := rfl
  have htarget : l.entries.lookup "target" = some (.text l.target.name) := rfl
  simp [ofToml?, readSetting?_of_lookup hlevel, readSetting?_of_lookup htarget, choice?]

namespace EngineConfig

def entries (c : EngineConfig) : Entries :=
  [("limits", .table .header c.limits.entries),
    ("system", .table .header [("status_tags", .boolean c.statusTags)]),
    ("logging", .table .header c.logging.entries)]

theorem ofToml?_entries (c : EngineConfig) : ofToml? (.table .header c.entries) = some c := by
  have hlimits : c.entries.lookup "limits" = some (.table .header c.limits.entries) := rfl
  have hsystem : c.entries.lookup "system" =
      some (.table .header [("status_tags", .boolean c.statusTags)]) := rfl
  have hlogging : c.entries.lookup "logging" = some (.table .header c.logging.entries) := rfl
  have hstatus : statusTagsOfToml? (.table .header [("status_tags", .boolean c.statusTags)]) =
      some c.statusTags := rfl
  simp [ofToml?, readSetting?_of_lookup hlimits, readSetting?_of_lookup hsystem,
    readSetting?_of_lookup hlogging, hstatus, Limits.ofToml?_entries, LoggingConfig.ofToml?_entries]

/-- The rows of a configuration: a header for each group, and its settings. -/
def rows (c : EngineConfig) : List Row :=
  [.header "limits".toList,
    .pair "max_loop_iterations".toList (.natural c.limits.maxLoopIterations.toNat),
    .pair "max_call_depth".toList (.natural c.limits.maxCallDepth.toNat),
    .blank,
    .header "system".toList,
    .pair "status_tags".toList (.boolean c.statusTags),
    .blank,
    .header "logging".toList,
    .pair "level".toList (.text c.logging.level.name.toList),
    .pair "target".toList (.text c.logging.target.name.toList)]

theorem toList_write (c : EngineConfig) : c.write.toList = c.rows.flatMap Row.written := by
  unfold write rows
  rw [String.toList_ofList]
  simp only [Row.written, Plain.written, List.flatMap_cons, List.flatMap_nil]
  -- The fixed texts are compared character by character, around what is not fixed.
  generalize Decimal.digits c.limits.maxLoopIterations.toNat = loops
  generalize Decimal.digits c.limits.maxCallDepth.toNat = depth
  generalize (if c.statusTags = true then "true" else "false").toList = status
  generalize c.logging.level.name.toList = level
  generalize c.logging.target.name.toList = target
  simp

theorem wellFormed_rows (c : EngineConfig) : ∀ row ∈ c.rows, row.WellFormed := by
  have hkeys : ∀ key ∈ ["limits", "max_loop_iterations", "max_call_depth", "system", "status_tags",
      "logging", "level", "target"], IsKey key.toList := by
    intro key hkey
    fin_cases hkey <;> constructor <;> simp [isBare]
  simp only [List.forall_mem_cons] at hkeys
  obtain ⟨hlimits, hloops, hdepth, hsystem, hstatus, hlogging, hlevel, htarget, -⟩ := hkeys
  simp only [rows, List.forall_mem_cons, List.not_mem_nil, false_implies, implies_true, and_true]
  exact ⟨hlimits, ⟨hloops, wellFormed_natural _⟩, ⟨hdepth, wellFormed_natural _⟩, trivial,
    hsystem, ⟨hstatus, trivial⟩, trivial, hlogging, ⟨hlevel, Severity.wellFormed_name _⟩,
    htarget, LogTarget.wellFormed_name _⟩

theorem addLines_rows (c : EngineConfig) :
    addLines [] [] (c.rows.filterMap Row.line?) = some c.entries := by
  have hlines : c.rows.filterMap Row.line? =
      [.header [] "limits",
        .pair [] "max_loop_iterations" (.integer c.limits.maxLoopIterations.toNat),
        .pair [] "max_call_depth" (.integer c.limits.maxCallDepth.toNat),
        .header [] "system",
        .pair [] "status_tags" (.boolean c.statusTags),
        .header [] "logging",
        .pair [] "level" (.text c.logging.level.name),
        .pair [] "target" (.text c.logging.target.name)] := by
    simp [rows, List.filterMap_cons, Row.line?, Plain.value]
  rw [hlines]
  rfl

/-- Every configuration is read from the text that is written for it. -/
theorem read?_write (c : EngineConfig) : read? c.write = some c := by
  unfold read?
  rw [read?_of_rows c.toList_write c.wellFormed_rows, addLines_rows, Option.bind_some,
    ofToml?_entries]

end EngineConfig

end LadderLogic
