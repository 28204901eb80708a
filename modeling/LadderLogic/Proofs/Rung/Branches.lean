import LadderLogic.Rung
import Mathlib

/-!
The enables of a rung. They are decided in one walk over its branches and handed out in another one,
which runs the instructions; the two walks meet every branch at the same place. So a rung runs as if
each instruction looked up the conditions around it in the context in which the rung was entered.
-/

set_option autoImplicit false

namespace LadderLogic

theorem Condition.allHold_append (ctx : ScanContext) (cs ds : List Condition) :
    allHold ctx (cs ++ ds) = (allHold ctx cs && allHold ctx ds) := by
  induction cs with
  | nil => simp [allHold]
  | cons c cs ih => simp [allHold, ih, Bool.and_assoc]

namespace RungItem

mutual

/-- Runs an item with the conditions around it, which hold or not in the context `entry` whatever
has been written since. -/
def runUnder (env : Instruction.Surroundings) (entry : ScanContext) (around : List Condition) :
    RungItem → ScanContext → Outcome
  | instruction i, ctx => i.execute env (Condition.allHold entry around) ctx
  | branch conditions items, ctx => runAllUnder env entry (around ++ conditions) items ctx

def runAllUnder (env : Instruction.Surroundings) (entry : ScanContext) (around : List Condition) :
    List RungItem → ScanContext → Outcome
  | [], ctx => ctx.proceed
  | item :: items, ctx =>
    (item.runUnder env entry around ctx).andThen (runAllUnder env entry around items)

end

mutual

/-- Every branch, an outer one before those inside it, and whether all conditions around its items
hold. -/
def decisions (entry : ScanContext) (around : List Condition) : RungItem → List (RungItem × Bool)
  | instruction _ => []
  | branch conditions items =>
    (branch conditions items, Condition.allHold entry (around ++ conditions)) ::
      decisionsOfAll entry (around ++ conditions) items

def decisionsOfAll (entry : ScanContext) (around : List Condition) :
    List RungItem → List (RungItem × Bool)
  | [] => []
  | item :: items => item.decisions entry around ++ decisionsOfAll entry around items

end

mutual

/-- The branches that a run comes to, each with the enable that it takes from those left. There is
none if the list has run out and the branch falls back on `false`. -/
def visits (env : Instruction.Surroundings) :
    RungItem → List Bool → ScanContext → List (RungItem × Option Bool)
  | instruction _, _, _ => []
  | branch conditions items, decided, ctx =>
    (branch conditions items, decided.head?) ::
      visitsOfAll env (decided.headD false) items decided.tail ctx

def visitsOfAll (env : Instruction.Surroundings) (enabled : Bool) :
    List RungItem → List Bool → ScanContext → List (RungItem × Option Bool)
  | [], _, _ => []
  | item :: items, decided, ctx =>
    item.visits env decided ctx ++
      match item.run env enabled decided ctx with
      | (decided, ⟨ctx, .proceed⟩) => visitsOfAll env enabled items decided ctx
      | (_, ⟨_, .leave⟩) => []
      | (_, ⟨_, .fail _⟩) => []

end

/-- A branch that takes the enable which was decided for it. -/
def taken (d : RungItem × Bool) : RungItem × Option Bool := (d.1, some d.2)

/-- The branches of a run take the first of the decisions, all of them if it goes on, and its
outcome is the one expected. -/
structure Aligned (decisions : List (RungItem × Bool)) (visits : List (RungItem × Option Bool))
    (outcome expected : Outcome) : Prop where
  eq_expected : outcome = expected
  isPrefix : visits <+: decisions.map taken
  complete : outcome.exit = .proceed → visits = decisions.map taken

section Walks

variable (env : Instruction.Surroundings) (entry : ScanContext)

mutual

/-- The walk that decides the enables lists one for each branch, in this order. -/
theorem enables_eq_decisions (around : List Condition) : ∀ item : RungItem,
    item.enables entry (Condition.allHold entry around) =
      (item.decisions entry around).map Prod.snd
  | instruction _ => rfl
  | branch conditions items => by
    unfold enables decisions
    rw [List.map_cons, ← enablesOfAll_eq_decisions (around ++ conditions) items,
      Condition.allHold_append]

theorem enablesOfAll_eq_decisions (around : List Condition) : ∀ items : List RungItem,
    enablesOfAll entry (Condition.allHold entry around) items =
      (decisionsOfAll entry around items).map Prod.snd
  | [] => rfl
  | item :: items => by
    unfold enablesOfAll decisionsOfAll
    rw [List.map_append, enables_eq_decisions around item, enablesOfAll_eq_decisions around items]

end

mutual

/-- A run takes one enable for each branch that it comes to, and no other. -/
theorem run_eq_drop_visits : ∀ (item : RungItem) (enabled : Bool) (decided : List Bool)
    (ctx : ScanContext),
    (item.run env enabled decided ctx).1 =
      decided.drop (item.visits env decided ctx).length
  | instruction _, _, _, _ => rfl
  | branch conditions items, enabled, decided, ctx => by
    unfold run visits
    rw [runAll_eq_drop_visits items, List.length_cons, ← List.drop_one, List.drop_drop,
      Nat.add_comm]

theorem runAll_eq_drop_visits : ∀ (items : List RungItem) (enabled : Bool) (decided : List Bool)
    (ctx : ScanContext),
    (runAll env enabled items decided ctx).1 =
      decided.drop (visitsOfAll env enabled items decided ctx).length
  | [], _, _, _ => rfl
  | item :: items, enabled, decided, ctx => by
    have hitem := run_eq_drop_visits item enabled decided ctx
    unfold runAll visitsOfAll
    generalize item.run env enabled decided ctx = result at hitem
    obtain ⟨left, last, exit⟩ := result
    dsimp only at hitem
    subst hitem
    cases exit with
    | proceed =>
      dsimp only
      rw [runAll_eq_drop_visits items, List.drop_drop, List.length_append]
    | leave => simp only [List.append_nil]
    | fail e => simp only [List.append_nil]

end

mutual

/-- Induction over an item and those inside it: while the enables of its branches are at the head of
the list, every branch finds its own. -/
theorem run_aligned : ∀ (item : RungItem) (around : List Condition) (rest : List Bool)
    (ctx : ScanContext),
    Aligned (item.decisions entry around)
      (item.visits env
        ((item.decisions entry around).map Prod.snd ++ rest) ctx)
      (item.run env (Condition.allHold entry around)
        ((item.decisions entry around).map Prod.snd ++ rest) ctx).2
      (item.runUnder env entry around ctx)
  | instruction i, around, rest, ctx => ⟨rfl, List.prefix_rfl, fun _ => rfl⟩
  | branch conditions items, around, rest, ctx => by
    have hitems := runAll_aligned items (around ++ conditions) rest ctx
    unfold decisions run visits runUnder
    simp only [List.map_cons, List.cons_append, List.headD_cons, List.tail_cons, List.head?_cons]
    exact ⟨hitems.eq_expected, List.cons_prefix_cons.mpr ⟨rfl, hitems.isPrefix⟩,
      fun h => congrArg _ (hitems.complete h)⟩

theorem runAll_aligned : ∀ (items : List RungItem) (around : List Condition) (rest : List Bool)
    (ctx : ScanContext),
    Aligned (decisionsOfAll entry around items)
      (visitsOfAll env (Condition.allHold entry around) items
        ((decisionsOfAll entry around items).map Prod.snd ++ rest) ctx)
      (runAll env (Condition.allHold entry around) items
        ((decisionsOfAll entry around items).map Prod.snd ++ rest) ctx).2
      (runAllUnder env entry around items ctx)
  | [], around, rest, ctx => ⟨rfl, List.prefix_rfl, fun _ => rfl⟩
  | item :: items, around, rest, ctx => by
    unfold decisionsOfAll visitsOfAll runAll runAllUnder
    rw [List.map_append, List.append_assoc]
    have hitem := run_aligned item around
      ((decisionsOfAll entry around items).map Prod.snd ++ rest) ctx
    have hleft := run_eq_drop_visits env item (Condition.allHold entry around)
      ((item.decisions entry around).map Prod.snd ++
        ((decisionsOfAll entry around items).map Prod.snd ++ rest)) ctx
    rw [← hitem.eq_expected]
    generalize item.run env (Condition.allHold entry around)
      ((item.decisions entry around).map Prod.snd ++
        ((decisionsOfAll entry around items).map Prod.snd ++ rest)) ctx = result at hitem hleft
    obtain ⟨left, last, exit⟩ := result
    have hstopped : ∀ visits, visits <+: (item.decisions entry around).map taken →
        visits ++ [] <+: (item.decisions entry around ++ decisionsOfAll entry around items).map
          taken := by
      intro visits h
      rw [List.append_nil, List.map_append]
      exact h.trans (List.prefix_append _ _)
    cases exit with
    | proceed =>
      -- The item has used up its own enables, so those of the items behind it come next.
      have hvisits := hitem.complete rfl
      have hrest : left = (decisionsOfAll entry around items).map Prod.snd ++ rest := by
        rw [show left = _ from hleft, hvisits]
        simp
      subst hrest
      have hitems := runAll_aligned items around rest last
      refine ⟨hitems.eq_expected, ?_, fun h => ?_⟩
      · rw [hvisits, List.map_append]
        exact (List.prefix_append_right_inj _).mpr hitems.isPrefix
      · rw [hvisits, List.map_append]
        exact congrArg _ (hitems.complete h)
    | leave => exact ⟨rfl, hstopped _ hitem.isPrefix, fun h => nomatch h⟩
    | fail e => exact ⟨rfl, hstopped _ hitem.isPrefix, fun h => nomatch h⟩

end

end Walks

end RungItem

namespace Rung

/-- Runs the items in order until one does not go on. An instruction gets the conjunction of the
conditions of the rung and of all branches around it, as they hold on entry. -/
def executeUnder (env : Instruction.Surroundings) (r : Rung) (ctx : ScanContext) : Outcome :=
  RungItem.runAllUnder env ctx r.conditions r.items ctx

/-- The enables that are decided when the rung is entered. -/
def enables (r : Rung) (ctx : ScanContext) : List Bool :=
  RungItem.enablesOfAll ctx (r.enabled ctx) r.items

/-- The branches of the rung with their enables. -/
def decisions (r : Rung) (ctx : ScanContext) : List (RungItem × Bool) :=
  RungItem.decisionsOfAll ctx r.conditions r.items

/-- The branches that a run of the rung comes to. -/
def visits (env : Instruction.Surroundings) (r : Rung) (ctx : ScanContext) :
    List (RungItem × Option Bool) :=
  RungItem.visitsOfAll env (r.enabled ctx) r.items (r.enables ctx) ctx

theorem enables_eq_decisions (r : Rung) (ctx : ScanContext) :
    r.enables ctx = (r.decisions ctx).map Prod.snd :=
  RungItem.enablesOfAll_eq_decisions ctx r.conditions r.items

theorem aligned (env : Instruction.Surroundings) (r : Rung) (ctx : ScanContext) :
    RungItem.Aligned (r.decisions ctx) (r.visits env ctx) (r.execute env ctx)
      (r.executeUnder env ctx) := by
  have haligned := RungItem.runAll_aligned env ctx r.items r.conditions [] ctx
  rw [List.append_nil, ← RungItem.enablesOfAll_eq_decisions] at haligned
  exact haligned

theorem execute_eq_executeUnder (env : Instruction.Surroundings) (r : Rung) (ctx : ScanContext) :
    r.execute env ctx = r.executeUnder env ctx :=
  (r.aligned env ctx).eq_expected

/-- A rung has the outcome of the run that decides every enable on entry. Its branches take the
enables that were decided for them, one each and in the order in which they were listed, and none
falls back on `false`; only branches behind a RETURN or a failure leave theirs. -/
theorem execute_refines (env : Instruction.Surroundings) (r : Rung) (ctx : ScanContext) :
    r.execute env ctx = r.executeUnder env ctx ∧
      r.enables ctx = (r.decisions ctx).map Prod.snd ∧
      (∃ n, r.visits env ctx = ((r.decisions ctx).take n).map RungItem.taken) ∧
      ((r.execute env ctx).exit = .proceed →
        r.visits env ctx = (r.decisions ctx).map RungItem.taken) ∧
      (RungItem.runAll env (r.enabled ctx) r.items (r.enables ctx) ctx).1 =
        (r.enables ctx).drop (r.visits env ctx).length := by
  have haligned := r.aligned env ctx
  refine ⟨haligned.eq_expected, r.enables_eq_decisions ctx, ?_, haligned.complete,
    RungItem.runAll_eq_drop_visits env r.items (r.enabled ctx) (r.enables ctx) ctx⟩
  refine ⟨(r.visits env ctx).length, ?_⟩
  rw [List.map_take]
  exact List.prefix_iff_eq_take.mp haligned.isPrefix

end Rung

end LadderLogic
