import LadderLogic.Proofs.Block.Names
import LadderLogic.Proofs.Effect.Transaction
import LadderLogic.Proofs.Scan.Lookup

/-!
Block copies between overlapping ranges. All source cells are read before a target cell is written,
and the cells of a range have names of their own, so every target cell holds what its source cell
held before, whatever the two ranges share and in whatever order they run.
-/

set_option autoImplicit false

namespace LadderLogic

/-- What a conversion makes of the value of a cell, before it is stored. -/
inductive Conversion.Yields : Option Conversion → Value → Value → Prop
  | plain (v : Value) : Yields none v v
  | digit {s : String} {c : Char} : s.toList.head? = some c → c.isDigit = true →
    Yields (some .asValue) (.text s) (.int (Decimal.digitValue c))
  | code {s : String} {c : Char} : s.toList.head? = some c → c.toNat < 128 →
    Yields (some .asAscii) (.text s) (.int c.toNat)
  | letter {v : Value} {i : Int} : v.toInt? = some i → 0 ≤ i → i ≤ 127 →
    Yields (some .asBinary) v (.text (String.singleton (Char.ofNat i.toNat)))

namespace Conversion

variable {v : Value} {i : Int}

theorem exists_text_of_firstChar? {c : Char} (h : v.firstChar? = some c) :
    ∃ s, v = .text s ∧ s.toList.head? = some c := by
  obtain ⟨s, htext, hc⟩ := Option.bind_eq_some_iff.mp h
  cases v with
  | text _ =>
    cases htext
    exact ⟨s, rfl, hc⟩
  | _ => cases htext

theorem yields_of_charDigit (h : charDigit v = .ok i) : Yields (some .asValue) v (.int i) := by
  unfold charDigit at h
  split at h
  case h_1 c hc =>
    obtain ⟨s, rfl, hhead⟩ := exists_text_of_firstChar? hc
    split at h
    case isTrue hdigit =>
      cases h
      exact .digit hhead hdigit
    case isFalse => cases h
  case h_2 => cases h

theorem yields_of_charCode (h : charCode v = .ok i) : Yields (some .asAscii) v (.int i) := by
  unfold charCode at h
  split at h
  case h_1 c hc =>
    obtain ⟨s, rfl, hhead⟩ := exists_text_of_firstChar? hc
    split at h
    case isTrue hascii =>
      cases h
      exact .code hhead hascii
    case isFalse => cases h
  case h_2 => cases h

theorem yields_of_codeChar {u : Value} (h : codeChar v = .ok u) : Yields (some .asBinary) v u := by
  unfold codeChar at h
  split at h
  case h_1 i hi =>
    split at h
    case isTrue hcode =>
      cases h
      exact .letter hi hcode.1 hcode.2
    case isFalse => cases h
  case h_2 => cases h

end Conversion

namespace Tag

variable {t : Tag} {v : Value} {write : Tag × Value}

/-- The cell takes over, under the copy law, what the conversion makes of a value. -/
def Receives (t : Tag) (conversion : Option Conversion) (v w : Value) : Prop :=
  ∃ u, Conversion.Yields conversion v u ∧ t.type.storeCopy u = some w

theorem storeCopy_of_store (h : t.store v = .ok write) :
    write.1 = t ∧ t.type.storeCopy v = some write.2 := by
  unfold store at h
  split at h
  case h_1 stored hstored =>
    cases h
    exact ⟨rfl, hstored⟩
  case h_2 => cases h

theorem storeCopy_of_storeExact {i : Int} (h : t.storeExact i = .ok write) :
    write.1 = t ∧ t.type.storeCopy (.int i) = some write.2 := by
  unfold storeExact at h
  split at h
  case h_1 =>
    split at h
    · cases h
    · exact storeCopy_of_store h
  case h_2 => exact storeCopy_of_store h

theorem receives_of_storeConverted {conversion : Option Conversion}
    (h : t.storeConverted conversion v = .ok write) :
    write.1 = t ∧ t.Receives conversion v write.2 := by
  cases conversion with
  | none =>
    obtain ⟨htag, hstored⟩ := storeCopy_of_store h
    exact ⟨htag, v, .plain v, hstored⟩
  | some c =>
    cases c with
    | asText suppressZero => cases h
    | asValue =>
      obtain ⟨i, hi, hstore⟩ := bind_eq_ok.mp h
      obtain ⟨htag, hstored⟩ := storeCopy_of_storeExact hstore
      exact ⟨htag, _, Conversion.yields_of_charDigit hi, hstored⟩
    | asAscii =>
      obtain ⟨i, hi, hstore⟩ := bind_eq_ok.mp h
      obtain ⟨htag, hstored⟩ := storeCopy_of_storeExact hstore
      exact ⟨htag, _, Conversion.yields_of_charCode hi, hstored⟩
    | asBinary =>
      obtain ⟨u, hu, hstore⟩ := bind_eq_ok.mp h
      obtain ⟨htag, hstored⟩ := storeCopy_of_store hstore
      exact ⟨htag, u, Conversion.yields_of_codeChar hu, hstored⟩

end Tag

namespace BlockCopy

variable {copy : BlockCopy} {ctx next : ScanContext} {source target : BlockRange}
variable {writes : List (Tag × Value)}

/-- Each target cell has received the value that its source cell had before. No other tag has
changed. -/
structure Copied (copy : BlockCopy) (source target : BlockRange) (ctx next : ScanContext) :
    Prop where
  length : source.length = target.length
  cells : ∀ (i : Nat) (src dst : Tag), source.tags[i]? = some src → target.tags[i]? = some dst →
    ∃ w, next.tag? dst.name = some w ∧ dst.Receives copy.conversion (ctx.read src) w
  others : ∀ name, (∀ dst ∈ target.tags, dst.name ≠ name) → next.tag? name = ctx.tag? name
  memory : next.memory? = ctx.memory?

/-- Writes are due only between ranges that are there and of the same length. -/
theorem ranges_of_due (h : copy.due ctx = .ok (writes.map .ok)) :
    ∃ source target, copy.source.resolve ctx = .ok (some source) ∧
      copy.target.resolve ctx = .ok (some target) ∧ source.length = target.length ∧
      ((source.tags.zip target.tags).map fun (src, dst) =>
        dst.storeConverted copy.conversion (ctx.read src)) = writes.map .ok := by
  have hfault : [.error .addressError] ≠ writes.map (.ok : _ → Pending) := by
    intro heq
    obtain ⟨_, -, hmem⟩ := List.mem_map.mp (heq ▸ List.mem_singleton_self _)
    cases hmem
  unfold due at h
  split at h
  case h_1 => cases h
  case h_2 => exact absurd (Except.ok.inj h) hfault
  case h_3 source hsource =>
    obtain ⟨found, htarget, hdue⟩ := map_eq_ok.mp h
    cases found with
    | none => exact absurd hdue hfault
    | some target =>
      dsimp only at hdue
      split at hdue
      case isFalse => exact absurd hdue hfault
      case isTrue hlength => exact ⟨source, target, hsource, htarget, hlength, hdue⟩

/-- The writes go to the target cells in their order, and each carries over its source cell. -/
theorem writes_eq_zip (hlength : source.length = target.length)
    (h : ((source.tags.zip target.tags).map fun (src, dst) =>
      dst.storeConverted copy.conversion (ctx.read src)) = writes.map .ok) :
    ∃ values : List Value, writes = target.tags.zip values ∧ values.length = target.tags.length ∧
      ∀ (i : Nat) (src dst : Tag), source.tags[i]? = some src → target.tags[i]? = some dst →
        ∃ w, values[i]? = some w ∧ dst.Receives copy.conversion (ctx.read src) w := by
  have hcount : writes.length = target.tags.length := by
    simpa [hlength] using (congrArg List.length h).symm
  have hstored : ∀ (i : Nat) (src dst : Tag), source.tags[i]? = some src →
      target.tags[i]? = some dst → ∃ write, writes[i]? = some write ∧ write.1 = dst ∧
        dst.Receives copy.conversion (ctx.read src) write.2 := by
    intro i src dst hsrc hdst
    have hget := congrArg (·[i]?) h
    simp only [List.getElem?_map, List.zip, List.getElem?_zipWith, hsrc, hdst,
      Option.map_some] at hget
    obtain ⟨write, hwrite, heq⟩ := Option.map_eq_some_iff.mp hget.symm
    obtain ⟨htag, hreceives⟩ := Tag.receives_of_storeConverted heq.symm
    exact ⟨write, hwrite, htag, hreceives⟩
  have htags : writes.map Prod.fst = target.tags := by
    apply List.ext_getElem
    · rw [List.length_map, hcount]
    · intro i hi hdst
      have hsrc : i < source.tags.length := by simpa [hlength] using hdst
      obtain ⟨write, hwrite, htag, -⟩ :=
        hstored i _ _ (List.getElem?_eq_getElem hsrc) (List.getElem?_eq_getElem hdst)
      rw [List.getElem_map, (List.getElem?_eq_some_iff.mp hwrite).2, htag]
  refine ⟨writes.map Prod.snd, List.zip_of_prod htags rfl, by rw [List.length_map, hcount], ?_⟩
  intro i src dst hsrc hdst
  obtain ⟨write, hwrite, -, hreceives⟩ := hstored i src dst hsrc hdst
  exact ⟨write.2, by rw [List.getElem?_map, hwrite, Option.map_some], hreceives⟩

/-- Values that the cells of a range receive together are held by them afterwards, because no two
cells have the same name. -/
theorem copied_writeAll {values : List Value} (hlength : source.length = target.length)
    (hnames : (target.tags.map Tag.name).Nodup) (hcount : values.length = target.tags.length)
    (h : ∀ (i : Nat) (src dst : Tag), source.tags[i]? = some src → target.tags[i]? = some dst →
      ∃ w, values[i]? = some w ∧ dst.Receives copy.conversion (ctx.read src) w) :
    copy.Copied source target ctx (ctx.writeAll (target.tags.zip values)) where
  length := hlength
  cells := by
    intro i src dst hsrc hdst
    obtain ⟨w, hw, hreceives⟩ := h i src dst hsrc hdst
    have hcell := congrArg (·[i]?) (ctx.tag?_writeAll_zip hnames hcount)
    simp only [List.getElem?_map, hdst, hw, Option.map_some] at hcell
    exact ⟨w, Option.some.inj hcell, hreceives⟩
  others := by
    intro name hname
    apply ScanContext.tag?_writeAll_of_ne
    intro w hw
    exact hname w.1 (List.of_mem_zip hw).1
  memory := by rw [ctx.writeAll_eq]; rfl

/-- A block copy that raises no fault and does not fail copies all cells at once. -/
theorem simultaneous (htarget : copy.target.Made) (ctx : ScanContext)
    (hexit : ∀ e, (copy.execute ctx).exit ≠ .fail e)
    (hfault : (copy.execute ctx).context.notices = ctx.notices) :
    ∃ source target, copy.source.resolve ctx = .ok (some source) ∧
      copy.target.resolve ctx = .ok (some target) ∧
      copy.Copied source target ctx (copy.execute ctx).context := by
  rw [execute_eq_settleDue] at hexit hfault ⊢
  obtain ⟨verdict, hends⟩ := Outcome.settleDue_endsAs ctx (copy.due ctx)
  cases verdict with
  | refused e => exact absurd hends.exit (hexit (.error e))
  | faulted f =>
    rw [hends.context] at hfault
    exact absurd (congrArg Array.size hfault) (by simp)
  | performed writes =>
    obtain ⟨source, target, hsource, hresolved, hlength, hdue⟩ := ranges_of_due hends.cause
    obtain ⟨values, rfl, hcount, hreceives⟩ := writes_eq_zip hlength hdue
    have hnames := RangeRef.nodup_names_of_resolve htarget hresolved
    rw [hends.context, ← ctx.writeAll_eq]
    exact ⟨source, target, hsource, hresolved, copied_writeAll hlength hnames hcount hreceives⟩

end BlockCopy

/-! Three cells move up by one within their block. -/

namespace Sample

def row : Block := ⟨"DS", .int, 1, 4, none, none, true, .int 0⟩

def moveUp : BlockCopy :=
  ⟨.direct ⟨row, row.addressesBetween 1 3, false⟩, .direct ⟨row, row.addressesBetween 2 4, false⟩,
    none⟩

def filledRow : ScanContext :=
  .start { SystemState.empty with
    tags := .ofEntries [("DS1", .int 5), ("DS2", .int 6), ("DS3", .int 7), ("DS4", .int 8)] } ∅

end Sample

/-- The first value has not run through the whole range. -/
theorem BlockCopy.simultaneous_sample :
    Sample.moveUp.target.Made ∧
      (∀ e, (Sample.moveUp.execute Sample.filledRow).exit ≠ .fail e) ∧
      (Sample.moveUp.execute Sample.filledRow).context.notices = Sample.filledRow.notices ∧
      (∃ source target, Sample.moveUp.source.resolve Sample.filledRow = .ok (some source) ∧
        Sample.moveUp.target.resolve Sample.filledRow = .ok (some target) ∧
        Sample.moveUp.Copied source target Sample.filledRow
          (Sample.moveUp.execute Sample.filledRow).context) ∧
      Sample.row.all.tags.map (Sample.moveUp.execute Sample.filledRow).context.readInt =
        [5, 5, 6, 7] := by
  have hmade : Sample.moveUp.target.Made := .select (show Sample.row.select 2 4 = .ok _ from rfl)
  have hexit : ∀ e, (Sample.moveUp.execute Sample.filledRow).exit ≠ .fail e := nofun
  exact ⟨hmade, hexit, rfl, simultaneous hmade _ hexit rfl, by decide +kernel⟩

end LadderLogic
