import LadderLogic.Proofs.Scan.Typing

/-!
What a context holds after writes, and what a reading of it depends on.
-/

set_option autoImplicit false

namespace LadderLogic

namespace ScanContext

variable {ctx mid : ScanContext}

theorem tag?_write_self (ctx : ScanContext) (t : Tag) (v : Value) :
    (ctx.write t v).tag? t.name = some v :=
  (tag?_setTag ctx t.name v t.name).trans (if_pos rfl)

theorem tag?_write_of_ne {t : Tag} {name : String} (h : t.name ≠ name) (v : Value) :
    (ctx.write t v).tag? name = ctx.tag? name :=
  (tag?_setTag ctx t.name v name).trans (if_neg h.symm)

theorem tag?_writeAll_of_ne {writes : List (Tag × Value)} {name : String}
    (h : ∀ w ∈ writes, w.1.name ≠ name) : (ctx.writeAll writes).tag? name = ctx.tag? name := by
  induction writes generalizing ctx with
  | nil => rfl
  | cons w writes ih =>
    obtain ⟨hw, hrest⟩ := List.forall_mem_cons.mp h
    exact (ih hrest).trans (tag?_write_of_ne hw w.2)

/-- Tags of different names keep what is written to them, one value each. -/
theorem tag?_writeAll_zip {tags : List Tag} {values : List Value}
    (hnames : (tags.map Tag.name).Nodup) (hlength : values.length = tags.length) :
    tags.map (fun t => (ctx.writeAll (tags.zip values)).tag? t.name) = values.map some := by
  induction tags generalizing ctx values with
  | nil =>
    obtain rfl := List.eq_nil_of_length_eq_zero hlength
    rfl
  | cons t tags ih =>
    obtain ⟨v, values, rfl⟩ := List.exists_cons_of_length_eq_add_one hlength
    obtain ⟨hfresh, hrest⟩ := List.nodup_cons.mp hnames
    have hhead : ((ctx.write t v).writeAll (tags.zip values)).tag? t.name = some v := by
      refine (tag?_writeAll_of_ne ?_).trans (tag?_write_self ctx t v)
      intro w hw heq
      exact hfresh (heq ▸ List.mem_map_of_mem (List.of_mem_zip hw).1)
    exact List.cons_eq_cons.mpr ⟨hhead, ih hrest (Nat.succ.inj hlength)⟩

theorem read_write_self (ctx : ScanContext) (t : Tag) (v : Value) : (ctx.write t v).read t = v := by
  unfold read getTag
  rw [tag?_write_self]
  rfl

theorem read_write_of_ne {t u : Tag} (h : t.name ≠ u.name) (v : Value) :
    (ctx.write t v).read u = ctx.read u := by
  unfold read getTag
  rw [tag?_write_of_ne h]

theorem read_writeAll_zip (ctx : ScanContext) {tags : List Tag} {values : List Value}
    (hnames : (tags.map Tag.name).Nodup) (hlength : values.length = tags.length) :
    tags.map (ctx.writeAll (tags.zip values)).read = values := by
  have h : tags.map (fun t => (ctx.writeAll (tags.zip values)).tag? t.name) = values.map some :=
    tag?_writeAll_zip hnames hlength
  apply List.ext_getElem
  · rw [List.length_map, hlength]
  · intro i hi hvalue
    have hget := List.getElem_of_eq h (by simpa using hi)
    simp only [List.getElem_map] at hget ⊢
    unfold read getTag
    rw [hget]
    rfl

theorem readBool_writeAll_zip (ctx : ScanContext) {tags : List Tag} {bits : List Bool}
    (hnames : (tags.map Tag.name).Nodup) (hlength : bits.length = tags.length) :
    tags.map (ctx.writeAll (tags.zip (bits.map Value.bool))).readBool = bits := by
  have hvalues : (bits.map Value.bool).length = tags.length := by rw [List.length_map, hlength]
  have h := read_writeAll_zip ctx hnames hvalues
  calc tags.map (ctx.writeAll (tags.zip (bits.map Value.bool))).readBool
      = (tags.map (ctx.writeAll (tags.zip (bits.map Value.bool))).read).map Value.isTruthy := by
        rw [List.map_map]
        rfl
    _ = (bits.map Value.bool).map Value.isTruthy := by rw [h]
    _ = bits := by
        rw [List.map_map]
        exact List.map_id bits

theorem memoryBool_setMemory (ctx : ScanContext) (key : String) (b : Bool) (other : String) :
    (ctx.setMemory key (.bool b)).memoryBool other =
      if other = key then b else ctx.memoryBool other := by
  unfold memoryBool
  rw [memory?_setMemory]
  split_ifs <;> rfl

theorem memoryBool_writeAll (ctx : ScanContext) (writes : List (Tag × Value)) (key : String) :
    (ctx.writeAll writes).memoryBool key = ctx.memoryBool key := by
  induction writes generalizing ctx with
  | nil => rfl
  | cons w writes ih => exact ih (ctx.write w.1 w.2)

theorem read_congr {t : Tag} (h : mid.tag? t.name = ctx.tag? t.name) : mid.read t = ctx.read t := by
  unfold read getTag
  rw [h]

theorem readBool_congr {t : Tag} (h : mid.tag? t.name = ctx.tag? t.name) :
    mid.readBool t = ctx.readBool t :=
  congrArg Value.isTruthy (read_congr h)

theorem readInt_congr {t : Tag} (h : mid.tag? t.name = ctx.tag? t.name) :
    mid.readInt t = ctx.readInt t := by
  unfold readInt
  rw [read_congr h]

theorem readInt_of_tag? {t : Tag} {i : Int} (h : ctx.tag? t.name = some (.int i)) :
    ctx.readInt t = i := by
  unfold readInt read getTag
  rw [h]
  rfl

theorem readBool_of_tag? {t : Tag} {b : Bool} (h : ctx.tag? t.name = some (.bool b)) :
    ctx.readBool t = b := by
  unfold readBool read getTag
  rw [h]
  rfl

theorem memoryBool_congr {key : String} (h : mid.memory? key = ctx.memory? key) :
    mid.memoryBool key = ctx.memoryBool key := by
  unfold memoryBool
  rw [h]

theorem memoryReal_congr {key : String} (h : mid.memory? key = ctx.memory? key) :
    mid.memoryReal key = ctx.memoryReal key := by
  unfold memoryReal
  rw [h]

theorem tag?_raise_of_ne {f : Fault} {name : String} (h : f.tagName ≠ name) (ctx : ScanContext) :
    (ctx.raise f).tag? name = ctx.tag? name :=
  (tag?_setTag (ctx.report _) f.tagName _ name).trans (if_neg h.symm)

theorem readBool_raise {t : Tag} (ctx : ScanContext) (f : Fault) (h : ctx.readBool t = true) :
    (ctx.raise f).readBool t = true := by
  by_cases hname : f.tagName = t.name
  · apply readBool_of_tag?
    exact (tag?_setTag (ctx.report _) f.tagName _ t.name).trans (if_pos hname.symm)
  · exact (readBool_congr (tag?_raise_of_ne hname ctx)).trans h

end ScanContext

end LadderLogic
