import LadderLogic.Scan.Outcome
import LadderLogic.Proofs.Machine.Arithmetic

/-!
Outcomes on a machine. What overflows in a scan is an accident there, and the flow does not go on
behind it. Everything else that a part of a scan can come to is the same.
-/

set_option autoImplicit false

namespace LadderLogic

open Machine

namespace Outcome

/-- The outcome on a machine, where an overflow is an accident. -/
def onMachine (o : Outcome) : Machine Outcome :=
  match o.exit with
  | .fail (.overflow exact) => .error (.overflow exact)
  | .fail (.error _) => .ok o
  | .proceed => .ok o
  | .leave => .ok o

theorem onMachine_of_ne {o : Outcome} (h : ∀ exact, o.exit ≠ .fail (.overflow exact)) :
    o.onMachine = .ok o := by
  obtain ⟨ctx, exit⟩ := o
  cases exit with
  | proceed => rfl
  | leave => rfl
  | fail failure =>
    cases failure with
    | error e => rfl
    | overflow exact => exact absurd rfl (h exact)

theorem onMachine_of_overflow {o : Outcome} {exact : Int} (h : o.exit = .fail (.overflow exact)) :
    o.onMachine = .error (.overflow exact) := by
  obtain ⟨ctx, exit⟩ := o
  obtain rfl : exit = _ := h
  rfl

theorem onMachine_cases (o : Outcome) :
    o.onMachine = .ok o ∨ ∃ exact, o.exit = .fail (.overflow exact) := by
  by_cases h : ∃ exact, o.exit = .fail (.overflow exact)
  · exact .inr h
  · exact .inl (onMachine_of_ne fun exact hexit => h ⟨exact, hexit⟩)

/-- On a machine, too, the second part runs only if the first one goes on. -/
theorem onMachine_andThen {o : Outcome} {first : Machine ScanContext}
    {next : ScanContext → Outcome} {second : ScanContext → Machine ScanContext}
    (h : ScanContext.proceed <$> first = o.onMachine)
    (hnext : ∀ mid, ScanContext.proceed <$> second mid = (next mid).onMachine) :
    ScanContext.proceed <$> (first >>= second) = (o.andThen next).onMachine := by
  obtain ⟨last, exit⟩ := o
  cases first with
  | error accident =>
    cases exit with
    | proceed => cases h
    | leave => cases h
    | fail failure =>
      cases failure with
      | error e => cases h
      | overflow exact => exact h
  | ok mid =>
    cases exit with
    | proceed =>
      cases h
      exact hnext last
    | leave => cases h
    | fail failure =>
      cases failure with
      | error e => cases h
      | overflow exact => cases h

end Outcome

/-- The result of an integer operation is a word, or the machine stops. -/
theorem ScanContext.onWord_onMachine {exact : Int} {ctx : ScanContext} {next : Int → Outcome}
    {guarded : Int → Machine ScanContext}
    (h : ∀ i, proceed <$> guarded i = (next i).onMachine) :
    proceed <$> (word exact >>= guarded) = (ctx.onWord exact next).onMachine := by
  unfold word onWord Integer.checked
  by_cases hfits : Integer.Fits exact
  · rw [if_pos hfits, if_pos hfits]
    exact h exact
  · rw [if_neg hfits, if_neg hfits]
    rfl

end LadderLogic
