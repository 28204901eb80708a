import LadderLogic.Proofs.Drum.Request

/-!
Two scans side by side. Contexts that hold the same tags, memory, oneshots and call depth are alike,
and they stay alike while the same is done to both. Everything that runs in a context reads nothing
else of it.
-/

set_option autoImplicit false

namespace LadderLogic

/-- The smallest things that a scan does to its context. -/
inductive Touch where
  | change (c : Change)
  | oneshot (id : InstructionId) (fired : Bool)
  | enterCall
  | exitCall

namespace Touch

/-- What an operation does besides its reading: writes to `targets`, memory and faults. -/
def Plain (targets : Tag → Prop) : Touch → Prop
  | change (.write t _) => targets t
  | change (.remember _ _) => True
  | change (.raise _) => True
  | _ => False

end Touch

namespace ScanContext

def touch (ctx : ScanContext) : Touch → ScanContext
  | .change c => ctx.change c
  | .oneshot id fired => ctx.setOneshot id fired
  | .enterCall => ctx.enterCall
  | .exitCall => ctx.exitCall

/-- No instruction can tell one context from the other. -/
structure Alike (a b : ScanContext) : Prop where
  tags : a.tag? = b.tag?
  memory : a.memory? = b.memory?
  runtime : a.runtime = b.runtime
  callDepth : a.callDepth = b.callDepth

/-- The pair `a`, `b` becomes another pair by the same permitted touches on either side. -/
inductive InStep (permitted : Touch → Prop) (a b : ScanContext) :
    ScanContext → ScanContext → Prop
  | start : a.Alike b → InStep permitted a b a b
  | touch {c d : ScanContext} (x : Touch) :
    InStep permitted a b c d → permitted x → InStep permitted a b (c.touch x) (d.touch x)

end ScanContext

/-- The exits are the same and the contexts are in step. -/
structure Outcome.InStep (permitted : Touch → Prop) (a b : ScanContext) (o q : Outcome) : Prop where
  exit : o.exit = q.exit
  context : a.InStep permitted b o.context q.context

namespace ScanContext

namespace Alike

variable {a b : ScanContext}

theorem refl (a : ScanContext) : a.Alike a := ⟨rfl, rfl, rfl, rfl⟩

theorem setTag (h : a.Alike b) (name : String) (v : Value) :
    (a.setTag name v).Alike (b.setTag name v) where
  tags := by
    funext other
    rw [tag?_setTag, tag?_setTag, h.tags]
  memory := h.memory
  runtime := h.runtime
  callDepth := h.callDepth

theorem setMemory (h : a.Alike b) (key : String) (v : Value) :
    (a.setMemory key v).Alike (b.setMemory key v) where
  tags := h.tags
  memory := by
    funext other
    rw [memory?_setMemory, memory?_setMemory, h.memory]
  runtime := h.runtime
  callDepth := h.callDepth

theorem report (h : a.Alike b) (n m : Notice) : (a.report n).Alike (b.report m) :=
  ⟨h.tags, h.memory, h.runtime, h.callDepth⟩

theorem touch (h : a.Alike b) (x : Touch) : (a.touch x).Alike (b.touch x) := by
  cases x with
  | change c =>
    cases c with
    | write t v => exact h.setTag t.name v
    | remember key v => exact h.setMemory key v
    | raise f => exact (h.report _ _).setTag f.tagName (.bool true)
    | report n => exact h.report n n
  | oneshot id fired =>
    exact ⟨h.tags, h.memory, congrArg (RuntimeTable.setOneshot · id fired) h.runtime, h.callDepth⟩
  | enterCall => exact ⟨h.tags, h.memory, h.runtime, congrArg (· + 1) h.callDepth⟩
  | exitCall => exact ⟨h.tags, h.memory, h.runtime, congrArg (· - 1) h.callDepth⟩

theorem read (h : a.Alike b) (t : Tag) : a.read t = b.read t :=
  read_congr (congrFun h.tags t.name)

theorem readBool (h : a.Alike b) : a.readBool = b.readBool :=
  funext fun t => readBool_congr (congrFun h.tags t.name)

theorem readInt (h : a.Alike b) (t : Tag) : a.readInt t = b.readInt t :=
  readInt_congr (congrFun h.tags t.name)

theorem memoryBool (h : a.Alike b) (key : String) : a.memoryBool key = b.memoryBool key :=
  memoryBool_congr (congrFun h.memory key)

theorem memoryReal (h : a.Alike b) (key : String) : a.memoryReal key = b.memoryReal key := by
  unfold ScanContext.memoryReal
  rw [h.memory]

theorem evaluate (h : a.Alike b) (e : Expression) : e.evaluate a = e.evaluate b :=
  e.evaluate_congr h.tags

theorem sameView (h : a.Alike b) : Condition.SameView a b := ⟨h.tags, fun _ => h.memoryBool _⟩

theorem holds (h : a.Alike b) (c : Condition) : c.holds a = c.holds b :=
  Condition.holds_congr h.sameView c

theorem allHold (h : a.Alike b) (cs : List Condition) :
    Condition.allHold a cs = Condition.allHold b cs :=
  Condition.allHold_congr h.sameView cs

theorem optionHolds (h : a.Alike b) (c : Option Condition) :
    Condition.optionHolds a c = Condition.optionHolds b c :=
  Condition.optionHolds_congr h.sameView c

theorem tagOf (h : a.Alike b) (r : TagRef) : r.resolve a = r.resolve b := by
  cases r with
  | direct t => rfl
  | indirect block pointer =>
    unfold TagRef.resolve
    dsimp only
    rw [h.evaluate]

theorem cellsOf (h : a.Alike b) (r : RangeRef) : r.resolve a = r.resolve b := by
  cases r with
  | direct range => rfl
  | indirect block first last reversed =>
    unfold RangeRef.resolve
    dsimp only
    rw [first.integer?_congr h.tags, last.integer?_congr h.tags]

theorem textOf (h : a.Alike b) (cells : BlockRange) : cells.text a = cells.text b := by
  unfold BlockRange.text
  simp only [h.read]

end Alike

namespace InStep

variable {permitted : Touch → Prop} {targets : Tag → Prop} {a b c d : ScanContext}

theorem alike (h : a.InStep permitted b c d) : c.Alike d := by
  induction h with
  | start hstart => exact hstart
  | touch x _ _ ih => exact ih.touch x

theorem trans {e f : ScanContext} (h : a.InStep permitted b c d) (k : c.InStep permitted d e f) :
    a.InStep permitted b e f := by
  induction k with
  | start _ => exact h
  | touch x _ hx ih => exact ih.touch x hx

theorem mono {more : Touch → Prop} (h : a.InStep permitted b c d)
    (hmore : ∀ x, permitted x → more x) : a.InStep more b c d := by
  induction h with
  | start hstart => exact .start hstart
  | touch x _ hx ih => exact ih.touch x (hmore x hx)

theorem write (h : a.InStep (Touch.Plain targets) b c d) {t : Tag} (ht : targets t) (v : Value) :
    a.InStep (Touch.Plain targets) b (c.write t v) (d.write t v) :=
  h.touch (.change (.write t v)) ht

theorem setMemory (h : a.InStep (Touch.Plain targets) b c d) (key : String) (v : Value) :
    a.InStep (Touch.Plain targets) b (c.setMemory key v) (d.setMemory key v) :=
  h.touch (.change (.remember key v)) trivial

theorem raise (h : a.InStep (Touch.Plain targets) b c d) (f : Fault) :
    a.InStep (Touch.Plain targets) b (c.raise f) (d.raise f) :=
  h.touch (.change (.raise f)) trivial

theorem writeAll (h : a.InStep (Touch.Plain targets) b c d) {writes : List (Tag × Value)}
    (hw : ∀ w ∈ writes, targets w.1) :
    a.InStep (Touch.Plain targets) b (c.writeAll writes) (d.writeAll writes) := by
  induction writes generalizing c d with
  | nil => exact h
  | cons w writes ih =>
    obtain ⟨hfirst, hrest⟩ := List.forall_mem_cons.mp hw
    exact ih (h.write hfirst w.2) hrest

theorem proceed (h : a.InStep permitted b c d) : Outcome.InStep permitted a b c.proceed d.proceed :=
  ⟨rfl, h⟩

theorem leave (h : a.InStep permitted b c d) : Outcome.InStep permitted a b c.leave d.leave :=
  ⟨rfl, h⟩

theorem fail (h : a.InStep permitted b c d) (e : ScanFailure) :
    Outcome.InStep permitted a b (c.fail e) (d.fail e) :=
  ⟨rfl, h⟩

theorem onWord (h : a.InStep permitted b c d) {exact : Int} {next other : Int → Outcome}
    (hnext : ∀ i, Outcome.InStep permitted a b (next i) (other i)) :
    Outcome.InStep permitted a b (c.onWord exact next) (d.onWord exact other) := by
  unfold ScanContext.onWord
  cases Integer.checked exact with
  | none => exact h.fail _
  | some i => exact hnext i

end InStep

end ScanContext

theorem Outcome.InStep.andThen {permitted : Touch → Prop} {a b : ScanContext} {o q : Outcome}
    {next other : ScanContext → Outcome} (h : Outcome.InStep permitted a b o q)
    (hnext : ∀ c d, a.InStep permitted b c d → Outcome.InStep permitted a b (next c) (other d)) :
    Outcome.InStep permitted a b (o.andThen next) (q.andThen other) := by
  obtain ⟨last, exit⟩ := o
  obtain ⟨mid, twin⟩ := q
  obtain ⟨hexit, hcontext⟩ := h
  obtain rfl : exit = twin := hexit
  cases exit with
  | proceed => exact hnext last mid hcontext
  | leave => exact hcontext.leave
  | fail failure => exact hcontext.fail failure

end LadderLogic
