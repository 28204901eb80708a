import Mathlib
import LadderLogic.Program

/-!
The tags that a program watches for edges. The occurrences of edge conditions are defined by what
contains what; a built program watches exactly the tags that occur so.
-/

set_option autoImplicit false

namespace LadderLogic

/-- An edge of the tag occurs in the condition. -/
inductive Condition.HasEdge (t : Tag) : Condition → Prop
  | rising : HasEdge t (risingEdge t)
  | falling : HasEdge t (fallingEdge t)
  | all {cs : List Condition} {c : Condition} : c ∈ cs → HasEdge t c → HasEdge t (all cs)
  | any {cs : List Condition} {c : Condition} : c ∈ cs → HasEdge t c → HasEdge t (any cs)

/-- A tag and the level it reads as while it is unwritten. -/
def Tag.unwrittenLevel (t : Tag) : String × Bool := (t.name, t.initial.isTruthy)

namespace Condition

theorem mem_edgesOfAll {cs : List Condition} {e : String × Bool} :
    e ∈ edgesOfAll cs ↔ ∃ c ∈ cs, e ∈ c.edges := by
  induction cs with
  | nil => simp [edgesOfAll]
  | cons c cs ih => simp [edgesOfAll, ih]

mutual

/-- Induction over a condition and its parts. -/
theorem hasEdge_of_mem_edges {e : String × Bool} :
    ∀ c : Condition, e ∈ c.edges → ∃ t, c.HasEdge t ∧ e = t.unwrittenLevel
  | risingEdge t, h => ⟨t, .rising, List.mem_singleton.mp h⟩
  | fallingEdge t, h => ⟨t, .falling, List.mem_singleton.mp h⟩
  | all cs, h => by
    obtain ⟨c, hc, t, ht, he⟩ := hasEdge_of_mem_edgesOfAll cs h
    exact ⟨t, .all hc ht, he⟩
  | any cs, h => by
    obtain ⟨c, hc, t, ht, he⟩ := hasEdge_of_mem_edgesOfAll cs h
    exact ⟨t, .any hc ht, he⟩
  | bit _, h | normallyClosed _, h | nonzero _, h | compare _ _ _, h | compareIndirect _ _ _ _, h
  | compareExpressions _ _ _, h | compareText _ _ _, h => by simp [edges] at h

theorem hasEdge_of_mem_edgesOfAll {e : String × Bool} :
    ∀ cs : List Condition, e ∈ edgesOfAll cs →
      ∃ c ∈ cs, ∃ t, c.HasEdge t ∧ e = t.unwrittenLevel
  | [], h => by simp [edgesOfAll] at h
  | c :: cs, h => by
    rcases List.mem_append.mp h with h | h
    · exact ⟨c, List.mem_cons_self, hasEdge_of_mem_edges c h⟩
    · obtain ⟨d, hd, hedge⟩ := hasEdge_of_mem_edgesOfAll cs h
      exact ⟨d, List.mem_cons_of_mem c hd, hedge⟩

end

theorem HasEdge.mem_edges {t : Tag} {c : Condition} (h : c.HasEdge t) :
    t.unwrittenLevel ∈ c.edges := by
  induction h with
  | rising => exact List.mem_singleton_self _
  | falling => exact List.mem_singleton_self _
  | all hc _ ih => exact mem_edgesOfAll.mpr ⟨_, hc, ih⟩
  | any hc _ ih => exact mem_edgesOfAll.mpr ⟨_, hc, ih⟩

end Condition

namespace RungItem

/-- The condition gates a branch, at any depth. -/
inductive Gate (c : Condition) : RungItem → Prop
  | own {conditions : List Condition} {items : List RungItem} :
    c ∈ conditions → Gate c (branch conditions items)
  | inner {conditions : List Condition} {items : List RungItem} {item : RungItem} :
    item ∈ items → Gate c item → Gate c (branch conditions items)

/-- The condition gates a branch or belongs to an instruction, at any depth. -/
def HasCondition (item : RungItem) (c : Condition) : Prop :=
  item.Gate c ∨ ∃ i ∈ item.instructions, c ∈ i.conditions

theorem mem_branchEdgesOfAll {items : List RungItem} {e : String × Bool} :
    e ∈ branchEdgesOfAll items ↔ ∃ item ∈ items, e ∈ item.branchEdges := by
  induction items with
  | nil => simp [branchEdgesOfAll]
  | cons item items ih => simp [branchEdgesOfAll, ih]

theorem mem_instructionsOfAll {items : List RungItem} {i : Instruction} :
    i ∈ instructionsOfAll items ↔ ∃ item ∈ items, i ∈ item.instructions := by
  induction items with
  | nil => simp [instructionsOfAll]
  | cons item items ih => simp [instructionsOfAll, ih]

/-- What belongs to an item of a branch belongs to the branch. -/
theorem HasCondition.inner {conditions : List Condition} {items : List RungItem} {item : RungItem}
    {c : Condition} (hitem : item ∈ items) (h : item.HasCondition c) :
    (branch conditions items).HasCondition c := by
  rcases h with h | ⟨i, hi, hc⟩
  · exact .inl (.inner hitem h)
  · exact .inr ⟨i, mem_instructionsOfAll.mpr ⟨item, hitem, hi⟩, hc⟩

mutual

/-- Induction over a branch and its items. -/
theorem hasCondition_of_mem_branchEdges {e : String × Bool} :
    ∀ item : RungItem, e ∈ item.branchEdges → ∃ c, item.HasCondition c ∧ e ∈ c.edges
  | instruction i, h => by simp [branchEdges] at h
  | branch conditions items, h => by
    simp only [branchEdges, List.mem_append, List.mem_flatMap, Condition.mem_edgesOfAll] at h
    rcases h with (⟨c, hc, he⟩ | h) | ⟨i, hi, c, hc, he⟩
    · exact ⟨c, .inl (.own hc), he⟩
    · obtain ⟨item, hitem, c, hc, he⟩ := hasCondition_of_mem_branchEdgesOfAll items h
      exact ⟨c, hc.inner hitem, he⟩
    · exact ⟨c, .inr ⟨i, hi, hc⟩, he⟩

theorem hasCondition_of_mem_branchEdgesOfAll {e : String × Bool} :
    ∀ items : List RungItem, e ∈ branchEdgesOfAll items →
      ∃ item ∈ items, ∃ c, item.HasCondition c ∧ e ∈ c.edges
  | [], h => by simp [branchEdgesOfAll] at h
  | item :: items, h => by
    rcases List.mem_append.mp h with h | h
    · exact ⟨item, List.mem_cons_self, hasCondition_of_mem_branchEdges item h⟩
    · obtain ⟨other, hother, hc⟩ := hasCondition_of_mem_branchEdgesOfAll items h
      exact ⟨other, List.mem_cons_of_mem item hother, hc⟩

end

theorem Gate.mem_branchEdges {item : RungItem} {c : Condition} {e : String × Bool}
    (h : item.Gate c) (he : e ∈ c.edges) : e ∈ item.branchEdges := by
  induction h with
  | own hc =>
    simp only [branchEdges, List.mem_append, Condition.mem_edgesOfAll]
    exact .inl (.inl ⟨c, hc, he⟩)
  | inner hitem _ ih =>
    simp only [branchEdges, List.mem_append, mem_branchEdgesOfAll]
    exact .inl (.inr ⟨_, hitem, ih⟩)

end RungItem

namespace Rung

/-- The condition gates the rung or one of its branches, or belongs to one of its instructions. -/
def HasCondition (r : Rung) (c : Condition) : Prop := (RungItem.ofRung r).HasCondition c

theorem mem_edges_iff {r : Rung} {e : String × Bool} :
    e ∈ r.edges ↔ ∃ c, r.HasCondition c ∧ e ∈ c.edges := by
  constructor
  · exact RungItem.hasCondition_of_mem_branchEdges _
  · rintro ⟨c, hgate | ⟨i, hi, hc⟩, he⟩
    · exact hgate.mem_branchEdges he
    · refine List.mem_append_right _ (List.mem_flatMap.mpr ⟨i, hi, ?_⟩)
      exact Condition.mem_edgesOfAll.mpr ⟨c, hc, he⟩

end Rung

theorem getElem?_insert_eq {β : Type} (m : Std.ExtTreeMap String β) (key : String) (v : β)
    (other : String) :
    (m.insert key v)[other]? = if other = key then some v else m[other]? := by
  rw [Std.ExtTreeMap.getElem?_insert]
  split_ifs <;> simp_all

/-- Lookups after some entries have been inserted that agree on the key. -/
theorem getElem?_insertMany_of_agree {β : Type} {l : List (String × β)} {k : String} {v : β}
    (h : ∀ e ∈ l, e.1 = k → e.2 = v) (m : Std.ExtTreeMap String β) :
    (m.insertMany l)[k]? = if k ∈ l.map Prod.fst then some v else m[k]? := by
  induction l generalizing m with
  | nil => simp
  | cons e l ih =>
    obtain ⟨key, w⟩ := e
    rw [Std.ExtTreeMap.insertMany_cons, ih fun d hd => h d (List.mem_cons_of_mem _ hd)]
    by_cases hkey : key = k
    · obtain rfl : w = v := h (key, w) List.mem_cons_self hkey
      subst hkey
      simp
    · have hne : ¬ k = key := fun heq => hkey heq.symm
      simp only [Std.ExtTreeMap.getElem?_insert, compare_eq_iff_eq, hkey, if_false, List.map_cons,
        List.mem_cons, hne, false_or]

namespace Program

/-- The checks of a build let the program through. -/
def Accepted (p : Program) : Prop := ∃ d : Draft, d.build = .ok p

/-- An edge of the tag occurs somewhere in the program. -/
def Watches (p : Program) (t : Tag) : Prop :=
  ∃ r ∈ p.allRungs, ∃ c, r.HasCondition c ∧ c.HasEdge t

/-- Tags of one name that are watched for edges have one default. -/
def UniformEdges (p : Program) : Prop :=
  ∀ t u, p.Watches t → p.Watches u → t.name = u.name → t.initial = u.initial

variable {p : Program}

theorem mem_edges_iff {e : String × Bool} :
    e ∈ p.allRungs.flatMap Rung.edges ↔ ∃ t, p.Watches t ∧ e = t.unwrittenLevel := by
  simp only [List.mem_flatMap, Rung.mem_edges_iff]
  constructor
  · rintro ⟨r, hr, c, hc, he⟩
    obtain ⟨t, ht, rfl⟩ := Condition.hasEdge_of_mem_edges c he
    exact ⟨t, ⟨r, hr, c, hc, ht⟩, rfl⟩
  · rintro ⟨t, ⟨r, hr, c, hc, ht⟩, rfl⟩
    exact ⟨r, hr, c, hc, ht.mem_edges⟩

theorem edgeTags_of_accepted (h : p.Accepted) :
    p.edgeTags = .ofMentions (p.allRungs.flatMap Rung.edges) := by
  obtain ⟨d, hbuild⟩ := h
  unfold Draft.build at hbuild
  cases hcheck : d.check with
  | error e => simp [hcheck] at hbuild
  | ok u =>
    rw [hcheck] at hbuild
    cases hbuild
    rfl

/-- Only tags with an edge in the program are watched. -/
theorem watches_of_mem_edgeTags (h : p.Accepted) {name : String} (hname : name ∈ p.edgeTags) :
    ∃ t, p.Watches t ∧ t.name = name := by
  rw [edgeTags_of_accepted h, EdgeTags.ofMentions, Std.ExtTreeMap.mem_ofList] at hname
  simp only [List.contains_eq_mem, decide_eq_true_eq, List.mem_map] at hname
  obtain ⟨e, he, rfl⟩ := hname
  obtain ⟨t, ht, rfl⟩ := mem_edges_iff.mp he
  exact ⟨t, ht, rfl⟩

/-- Every tag with an edge in the program is watched, under its own default. -/
theorem edgeTags_of_watches (h : p.Accepted) (hu : p.UniformEdges) {t : Tag} (ht : p.Watches t) :
    p.edgeTags[t.name]? = some t.initial.isTruthy := by
  have hmem : t.name ∈ (p.allRungs.flatMap Rung.edges).map Prod.fst :=
    List.mem_map.mpr ⟨t.unwrittenLevel, mem_edges_iff.mpr ⟨t, ht, rfl⟩, rfl⟩
  have hagree : ∀ e ∈ p.allRungs.flatMap Rung.edges, e.1 = t.name → e.2 = t.initial.isTruthy := by
    intro e he hname
    obtain ⟨u, hwatches, rfl⟩ := mem_edges_iff.mp he
    exact congrArg Value.isTruthy (hu u t hwatches ht hname)
  rw [edgeTags_of_accepted h, EdgeTags.ofMentions, Std.ExtTreeMap.ofList_eq_insertMany_empty,
    getElem?_insertMany_of_agree hagree, if_pos hmem]

end Program

end LadderLogic
