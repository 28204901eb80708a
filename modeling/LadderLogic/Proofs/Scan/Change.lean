import LadderLogic.Proofs.Scan.Typing

/-!
Operations change a context in elementary steps: a write to a tag, a memory cell, a fault, a notice.
A permit says which tags and keys may be touched, and what the values are worth if the start is
sound. What permitted changes preserve is proved once here.
-/

set_option autoImplicit false

namespace LadderLogic

inductive Change where
  | write (tag : Tag) (value : Value)
  | remember (key : String) (value : Value)
  | raise (fault : Fault)
  | report (notice : Notice)

def ScanContext.change (ctx : ScanContext) : Change → ScanContext
  | .write t v => ctx.write t v
  | .remember key v => ctx.setMemory key v
  | .raise f => ctx.raise f
  | .report n => ctx.report n

/-- The second context comes from the first by changes of the given kind, one after the other. -/
inductive ScanContext.Becomes (permitted : Change → Prop) (ctx : ScanContext) : ScanContext → Prop
  | refl : Becomes permitted ctx ctx
  | step {mid : ScanContext} (c : Change) :
    Becomes permitted ctx mid → permitted c → Becomes permitted ctx (mid.change c)

/-- The changes that touch only `targets`, the memory keys of `keeps` and fault tags. If `sound`
holds, the values are in the domain of their tag, and carried fractions stay carried fractions. If
`words` holds, the integers that are written are words. -/
def Permit (targets : Tag → Prop) (keeps : String → Prop) (sound words : Prop) : Change → Prop
  | .write t v => targets t ∧ (sound → t.type.Holds v) ∧ (words → v.Fits)
  | .remember key v => keeps key ∧ (sound → IsCarryKey key → v.IsCarry)
  | .raise _ => True
  | .report _ => True

structure MayDrive (targets : Tag → Prop) (sound : Prop) (t : Tag) : Prop where
  target : targets t
  type : sound → t.type = .bool

structure MayCount (targets : Tag → Prop) (sound : Prop) (t : Tag) : Prop where
  target : targets t
  type : sound → t.type ∈ [.int, .dint]

namespace ScanContext.Becomes

section General

variable {permitted : Change → Prop} {ctx mid : ScanContext}

/-- Changes leave alone what does not belong to the overlay. -/
theorem frame (h : Becomes permitted ctx mid) :
    mid.state = ctx.state ∧ mid.runtime = ctx.runtime ∧ mid.edgeTags = ctx.edgeTags ∧
      mid.callDepth = ctx.callDepth := by
  induction h with
  | refl => exact ⟨rfl, rfl, rfl, rfl⟩
  | step c _ _ ih => cases c <;> exact ih

/-- One part after the other, the second one only if the flow goes on. -/
theorem andThen {o : Outcome} {next : ScanContext → Outcome} (h : Becomes permitted ctx o.context)
    (hnext : ∀ mid, Becomes permitted ctx mid → Becomes permitted ctx (next mid).context) :
    Becomes permitted ctx (o.andThen next).context := by
  obtain ⟨last, exit⟩ := o
  cases exit with
  | proceed => exact hnext last h
  | leave => exact h
  | fail failure => exact h

/-- An integer operation that overflows changes nothing. -/
theorem onWord (h : Becomes permitted ctx mid) {exact : Int} {next : Int → Outcome}
    (hnext : ∀ i, Becomes permitted ctx (next i).context) :
    Becomes permitted ctx (mid.onWord exact next).context := by
  unfold ScanContext.onWord
  cases Integer.checked exact with
  | none => exact h
  | some i => exact hnext i

end General

section Permitted

variable {targets : Tag → Prop} {keeps : String → Prop} {sound words : Prop} {ctx mid : ScanContext}

theorem write (h : Becomes (Permit targets keeps sound words) ctx mid) {t : Tag} {v : Value}
    (ht : targets t) (hv : sound → t.type.Holds v) (hfits : words → v.Fits) :
    Becomes (Permit targets keeps sound words) ctx (mid.write t v) :=
  h.step (.write t v) ⟨ht, hv, hfits⟩

/-- What is in the domain of its tag is in the words. -/
theorem store (h : Becomes (Permit targets keeps sound words) ctx mid) {t : Tag} {v : Value}
    (ht : targets t) (hv : t.type.Holds v) :
    Becomes (Permit targets keeps sound words) ctx (mid.write t v) :=
  h.write ht (fun _ => hv) fun _ => Typing.fits_of_holds hv

theorem setMemory (h : Becomes (Permit targets keeps sound words) ctx mid) {key : String} {v : Value}
    (hkey : keeps key) (hv : sound → IsCarryKey key → v.IsCarry) :
    Becomes (Permit targets keeps sound words) ctx (mid.setMemory key v) :=
  h.step (.remember key v) ⟨hkey, hv⟩

theorem raise (h : Becomes (Permit targets keeps sound words) ctx mid) (f : Fault) :
    Becomes (Permit targets keeps sound words) ctx (mid.raise f) :=
  h.step (.raise f) trivial

theorem report (h : Becomes (Permit targets keeps sound words) ctx mid) (n : Notice) :
    Becomes (Permit targets keeps sound words) ctx (mid.report n) :=
  h.step (.report n) trivial

theorem writeAll (h : Becomes (Permit targets keeps sound words) ctx mid) {writes : List (Tag × Value)}
    (hw : ∀ w ∈ writes, targets w.1 ∧ (sound → w.1.type.Holds w.2) ∧ (words → w.2.Fits)) :
    Becomes (Permit targets keeps sound words) ctx (mid.writeAll writes) := by
  induction writes generalizing mid with
  | nil => exact h
  | cons w ws ih =>
    obtain ⟨ht, hv, hfits⟩ := hw w List.mem_cons_self
    exact ih (h.write ht hv hfits) fun u hu => hw u (List.mem_cons_of_mem w hu)

theorem drive (h : Becomes (Permit targets keeps sound words) ctx mid) {t : Tag}
    (ht : MayDrive targets sound t) (b : Bool) :
    Becomes (Permit targets keeps sound words) ctx (mid.write t (.bool b)) := by
  refine h.write ht.target (fun hs => ?_) fun _ => trivial
  rw [ht.type hs]
  trivial

theorem driveAll (h : Becomes (Permit targets keeps sound words) ctx mid) {tags : List Tag}
    (ht : ∀ t ∈ tags, MayDrive targets sound t) (bits : List Bool) :
    Becomes (Permit targets keeps sound words) ctx
      (mid.writeAll (tags.zip (bits.map Value.bool))) := by
  apply h.writeAll
  intro w hw
  obtain ⟨ht1, hv⟩ := List.of_mem_zip hw
  obtain ⟨b, -, hb⟩ := List.mem_map.mp hv
  refine ⟨(ht w.1 ht1).target, fun hs => ?_, fun _ => ?_⟩
  · rw [(ht w.1 ht1).type hs, ← hb]
    trivial
  · rw [← hb]
    trivial

/-- What is neither a target nor a fault reads as before. -/
theorem tag?_eq (h : Becomes (Permit targets keeps sound words) ctx mid) {name : String}
    (hfault : ∀ f : Fault, f.tagName ≠ name) (htargets : ∀ t, targets t → t.name ≠ name) :
    mid.tag? name = ctx.tag? name := by
  induction h with
  | refl => rfl
  | @step last c _ hc ih =>
    rw [← ih]
    cases c with
    | write t v => exact (tag?_setTag last t.name v name).trans (if_neg (htargets t hc.1).symm)
    | remember key v => rfl
    | raise f =>
      exact (tag?_setTag (last.report _) f.tagName _ name).trans (if_neg (hfault f).symm)
    | report n => rfl

theorem memory?_eq (h : Becomes (Permit targets keeps sound words) ctx mid) {key : String}
    (hkey : ¬ keeps key) : mid.memory? key = ctx.memory? key := by
  induction h with
  | refl => rfl
  | @step last c _ hc ih =>
    rw [← ih]
    cases c with
    | write t v => rfl
    | remember other v =>
      refine (memory?_setMemory last other v key).trans (if_neg fun heq => hkey ?_)
      rw [heq]
      exact hc.1
    | raise f => rfl
    | report n => rfl

theorem clearCount (h : Becomes (Permit targets keeps sound words) ctx mid) {t : Tag}
    (ht : MayCount targets sound t) :
    Becomes (Permit targets keeps sound words) ctx (mid.write t (.int 0)) :=
  h.write ht.target (fun hs => TagType.holds_counter_zero (ht.type hs))
    fun _ => show Integer.Fits 0 by decide

end Permitted

end ScanContext.Becomes

/-- Some assignment of types covers the targets, and the context respects it. -/
def Covered (targets : Tag → Prop) (ctx : ScanContext) : Prop :=
  ∃ Γ : Typing, (∀ t, targets t → Γ.Has t) ∧ Γ.TypesContext ctx

namespace Typing

variable {Γ : Typing} {ctx : ScanContext}

theorem types_write (h : Γ.TypesContext ctx) {t : Tag} {v : Value}
    (ht : Γ.type? t.name = some t.type) (hv : t.type.Holds v) : Γ.TypesContext (ctx.write t v) where
  tags := by
    intro name w type hw htype
    rw [ScanContext.write, ScanContext.tag?_setTag] at hw
    split_ifs at hw with hname
    · subst hname
      rw [ht] at htype
      cases hw
      cases htype
      exact hv
    · exact h.tags name w type hw htype
  carries := h.carries

theorem types_setMemory (h : Γ.TypesContext ctx) {key : String} {v : Value}
    (hv : IsCarryKey key → v.IsCarry) : Γ.TypesContext (ctx.setMemory key v) where
  tags := h.tags
  carries := by
    intro other w hother hw
    rw [ScanContext.memory?_setMemory] at hw
    split_ifs at hw with hkey
    · subst hkey
      cases hw
      exact hv hother
    · exact h.carries other w hother hw

theorem types_raise (h : Γ.TypesContext ctx) (f : Fault) : Γ.TypesContext (ctx.raise f) := by
  have hreport : Γ.TypesContext (ctx.report (.faultRaised ctx.state.scanId f)) :=
    ⟨h.tags, h.carries⟩
  exact types_write hreport (t := f.tag) (Γ.fault f) trivial

/-- The invariant of typed scans: permitted changes keep a sound context typed. -/
theorem types_of_becomes {targets : Tag → Prop} {keeps : String → Prop} {sound words : Prop}
    {mid : ScanContext} (hcover : ∀ t, targets t → Γ.Has t) (hs : sound) (h : Γ.TypesContext ctx)
    (hb : ctx.Becomes (Permit targets keeps sound words) mid) : Γ.TypesContext mid := by
  induction hb with
  | refl => exact h
  | step c _ hc ih =>
    cases c with
    | write t v => exact types_write ih (hcover t hc.1).1 (hc.2.1 hs)
    | remember key v => exact types_setMemory ih (hc.2 hs)
    | raise f => exact types_raise ih f
    | report n => exact ⟨ih.tags, ih.carries⟩

end Typing

namespace Covered

variable {targets : Tag → Prop} {keeps : String → Prop} {sound words : Prop} {ctx mid : ScanContext}

theorem of_becomes (h : Covered targets ctx) (hs : sound)
    (hb : ctx.Becomes (Permit targets keeps sound words) mid) : Covered targets mid := by
  obtain ⟨Γ, hcover, htypes⟩ := h
  exact ⟨Γ, hcover, Typing.types_of_becomes hcover hs htypes hb⟩

theorem nonNeg_memoryReal (h : Covered targets ctx) {key : String} (hkey : IsCarryKey key) :
    Binary.NonNeg (Binary.unpacked (ctx.memoryReal key)) := by
  obtain ⟨Γ, -, htypes⟩ := h
  exact Typing.nonNeg_memoryReal htypes.carries hkey

/-- The integer that an accumulator reads as belongs to its domain. -/
theorem holds_readInt (h : Covered targets ctx) {t : Tag} (ht : MayCount targets sound t)
    (hs : sound) : t.type.Holds (.int (ctx.readInt t)) := by
  obtain ⟨Γ, hcover, htypes⟩ := h
  have hread := Typing.holds_read htypes (hcover t ht.target)
  have htype := ht.type hs
  unfold ScanContext.readInt
  simp only [List.mem_cons, List.not_mem_nil, or_false] at htype
  generalize ctx.read t = v at hread
  rcases htype with htype | htype <;> rw [htype] at hread ⊢ <;> cases v <;>
    first | exact hread | exact hread.elim

end Covered

end LadderLogic
