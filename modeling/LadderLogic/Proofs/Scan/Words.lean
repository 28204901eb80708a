import LadderLogic.Proofs.Scan.Frame

/-!
Words in scans. Every integer of a state is a 64-bit word, and an operation whose own numbers are
words writes nothing else, whether the tags that it writes hold values of their types or not. So all
operands of a scan are calculated from words.
-/

set_option autoImplicit false

namespace LadderLogic

/-- Every integer in a tag of the state is a word. -/
def SystemState.InWords (s : SystemState) : Prop :=
  ∀ (name : String) (v : Value), s.tag? name = some v → v.Fits

/-- Every integer in a tag of the scan is a word. -/
def ScanContext.InWords (ctx : ScanContext) : Prop :=
  ∀ (name : String) (v : Value), ctx.tag? name = some v → v.Fits

theorem Value.toInt?_fits {v : Value} {i : Int} (h : v.Fits) (hi : v.toInt? = some i) :
    Integer.Fits i := by
  cases v with
  | bool b =>
    cases hi
    cases b <;> decide
  | int j =>
    cases hi
    exact h
  | real x =>
    refine Number.toInt_fits (a := .real x) trivial ?_
    simp only [toInt?] at hi
    split at hi <;> cases hi
    exact if_pos ‹_›
  | text s => cases hi

namespace ScanContext.InWords

variable {ctx mid : ScanContext}

theorem setTag (h : ctx.InWords) (name : String) {v : Value} (hv : v.Fits) :
    (ctx.setTag name v).InWords := by
  intro other w hw
  rw [ScanContext.tag?_setTag] at hw
  split_ifs at hw
  · cases hw
    exact hv
  · exact h other w hw

theorem becomes {targets : Tag → Prop} {keeps : String → Prop} {sound words : Prop}
    (h : ctx.InWords) (hwords : words)
    (hb : ctx.Becomes (Permit targets keeps sound words) mid) : mid.InWords := by
  induction hb with
  | refl => exact h
  | step c _ hc ih =>
    cases c with
    | write t v => exact ih.setTag t.name (hc.2.2 hwords)
    | remember key v => exact ih
    | raise f => exact ih.setTag f.tagName trivial
    | report n => exact ih

/-- One step of instructions whose numbers are words. -/
theorem step {acts : Instruction → Prop} (hacts : ∀ i, acts i → i.InWords) (h : ctx.InWords)
    (hstep : ctx.Step acts mid) : mid.InWords := by
  cases hstep with
  | act i hi heffect => exact h.becomes (hacts i hi) heffect
  | oneshot i fired _ => exact h
  | enterCall => exact h
  | exitCall => exact h

theorem reaches {acts : Instruction → Prop} (hacts : ∀ i, acts i → i.InWords) (h : ctx.InWords)
    (hreaches : ctx.Reaches acts mid) : mid.InWords := by
  induction hreaches with
  | refl => exact h
  | tail _ hstep ih => exact ih.step hacts hstep

theorem entry {s : SystemState} (h : s.InWords) (p : Program) (r : RuntimeTable) (dt : Float) :
    (p.entry s r dt).InWords := by
  have hstart : ((startScan s r dt).watch p.edgeTags).InWords := by
    intro name v hv
    refine h name v ?_
    rw [← tag?_startScan s r dt]
    exact hv
  exact hstart.becomes trivial (p.prepare_becomes _)

theorem read (h : ctx.InWords) {t : Tag} (ht : t.initial.Fits) : (ctx.read t).Fits := by
  unfold ScanContext.read getTag
  cases hv : ctx.tag? t.name with
  | none => exact ht
  | some v => exact h t.name v hv

end ScanContext.InWords

/-- The literals of an expression are words, and so are the defaults of the cells that it reads. -/
structure Expression.InWords (e : Expression) : Prop where
  literals : e.LiteralsFit
  initials : ∀ t, e.Mentions t → t.initial.Fits

namespace Expression.InWords

variable {e : Expression} {ctx : ScanContext}

theorem reads (h : e.InWords) (hctx : ctx.InWords) {t : Tag} (ht : e.Mentions t) :
    (ctx.read t).Fits :=
  hctx.read (h.initials t ht)

theorem preset_fits (h : e.InWords) (hctx : ctx.InWords) {i : Int}
    (hi : (e.preset ctx).1 = some i) : Integer.Fits i := by
  unfold preset at hi
  cases hv : e.evaluate ctx with
  | error fault => rw [hv] at hi; cases hi
  | ok v =>
    rw [hv] at hi
    exact Value.toInt?_fits (evaluate_fits h.literals (fun _ => h.reads hctx) hv) hi

end Expression.InWords

end LadderLogic
