import LadderLogic.Proofs.Scan.Frame

/-!
What a failed scan leaves behind. Its writes are lost, but the runtime table belongs to the driver
and is brought up to date as instructions are reached: a oneshot that was enabled before the failure
has fired.
-/

set_option autoImplicit false

namespace LadderLogic

/-- Whether the oneshot of a handle is enabled where a moment reaches it. -/
def Moment.oneshot? (id : InstructionId) : Moment → Option Bool
  | reach i enabled _ => if i.oneshot = true ∧ i.id = id then some enabled else none
  | rung _ _ => none
  | operate _ _ _ _ => none

namespace RuntimeTable

variable {r : RuntimeTable} {id other : InstructionId}

theorem fired_setOneshot (r : RuntimeTable) (id other : InstructionId) (b : Bool) :
    (r.setOneshot id b).fired other = if id = other then b else r.fired other := by
  unfold setOneshot fired
  split_ifs with hset heq heq
  · simp [heq]
  · simp [Std.ExtTreeMap.getElem?_insert, heq]
  · -- clearing a oneshot that has no entry
    subst heq
    simp only [Bool.or_eq_true, not_or, Bool.not_eq_true] at hset
    obtain ⟨rfl, hnone⟩ := hset
    simp [Std.ExtTreeMap.getElem?_eq_none_of_contains_eq_false hnone]
  · rfl

theorem getElem?_setOneshot_of_ne (h : id ≠ other) (b : Bool) :
    (r.setOneshot id b)[other]? = r[other]? := by
  unfold setOneshot
  split_ifs
  · simp [Std.ExtTreeMap.getElem?_insert, h]
  · rfl

end RuntimeTable

namespace Moment

variable {id : InstructionId}

/-- One moment settles the oneshot that it reaches and no other. -/
theorem fired_record (m : Moment) (r : RuntimeTable) (id : InstructionId) :
    (m.record r).fired id = (m.oneshot? id).getD (r.fired id) := by
  cases m with
  | reach i enabled ctx =>
    simp only [record, oneshot?]
    by_cases honeshot : i.oneshot = true
    · rw [if_pos honeshot, RuntimeTable.fired_setOneshot]
      by_cases hid : i.id = id
      · rw [if_pos hid, if_pos ⟨honeshot, hid⟩, Option.getD_some]
      · rw [if_neg hid, if_neg fun hboth => hid hboth.2, Option.getD_none]
    · rw [if_neg honeshot, if_neg fun hboth => honeshot hboth.1, Option.getD_none]
  | rung q ctx => rfl
  | operate id op enabled ctx => rfl

theorem getElem?_record {m : Moment} (h : m.oneshot? id = none) (r : RuntimeTable) :
    (m.record r)[id]? = r[id]? := by
  cases m with
  | reach i enabled ctx =>
    simp only [oneshot?, ite_eq_right_iff, reduceCtorEq, imp_false] at h
    simp only [record]
    split_ifs with honeshot
    · exact RuntimeTable.getElem?_setOneshot_of_ne (fun hid => h ⟨honeshot, hid⟩) enabled
    · rfl
  | rung q ctx => rfl
  | operate id op enabled ctx => rfl

/-- Of several moments that reach a oneshot the last one counts. -/
theorem fired_foldl_record (ms : List Moment) (r : RuntimeTable) (id : InstructionId) :
    (ms.foldl record r).fired id = (ms.filterMap (oneshot? id)).getLast?.getD (r.fired id) := by
  induction ms generalizing r with
  | nil => rfl
  | cons m ms ih =>
    rw [List.foldl_cons, ih, fired_record]
    cases h : m.oneshot? id with
    | none => simp [h]
    | some enabled => simp [h, List.getLast?_cons]

theorem getElem?_foldl_record {ms : List Moment} (h : ms.filterMap (oneshot? id) = [])
    (r : RuntimeTable) : (ms.foldl record r)[id]? = r[id]? := by
  induction ms generalizing r with
  | nil => rfl
  | cons m ms ih =>
    rw [List.filterMap_eq_nil_iff] at h
    have hms : ms.filterMap (oneshot? id) = [] :=
      List.filterMap_eq_nil_iff.mpr fun k hk => h k (List.mem_cons_of_mem m hk)
    rw [List.foldl_cons, ih hms, getElem?_record (h m List.mem_cons_self)]

end Moment

/-- What a driver holds between scans. -/
@[ext]
structure Simulation where
  state : SystemState
  runtime : RuntimeTable

namespace Program

/-- A driver attempts a scan. One that fails gives no state, so the old one stays. -/
def attempt (p : Program) (sim : Simulation) (dt : Float) : Simulation :=
  let result := p.scan sim.state sim.runtime dt
  ⟨result.next.toOption.getD sim.state, result.runtime⟩

/-- The enables with which an attempt reaches the oneshot of a handle, in order. -/
def enables (p : Program) (sim : Simulation) (dt : Float) (id : InstructionId) : List Bool :=
  (p.scanMoments sim.state sim.runtime dt).filterMap (Moment.oneshot? id)

/-- A failed attempt keeps the state. A oneshot that it reached has fired if it was enabled the last
time, every other one keeps its entry, and if it reached none, it is as if it had never been made. -/
theorem attempt_of_error {p : Program} {sim : Simulation} {dt : Float} {e : ScanFailure}
    (h : (p.scan sim.state sim.runtime dt).next = .error e) :
    (p.attempt sim dt).state = sim.state ∧
      (∀ id, (p.attempt sim dt).runtime.fired id =
        (p.enables sim dt id).getLast?.getD (sim.runtime.fired id)) ∧
      (∀ id, p.enables sim dt id = [] → (p.attempt sim dt).runtime[id]? = sim.runtime[id]?) ∧
      ((∀ id, p.enables sim dt id = []) → p.attempt sim dt = sim) := by
  have hstate : (p.attempt sim dt).state = sim.state := by
    simp only [attempt, h]
    rfl
  have hruntime : (p.attempt sim dt).runtime =
      (p.scanMoments sim.state sim.runtime dt).foldl Moment.record sim.runtime :=
    scan_runtime p sim.state sim.runtime dt
  have hkept : ∀ id, p.enables sim dt id = [] →
      (p.attempt sim dt).runtime[id]? = sim.runtime[id]? := by
    intro id hid
    rw [hruntime]
    exact Moment.getElem?_foldl_record hid sim.runtime
  refine ⟨hstate, fun id => ?_, hkept, fun hnone => ?_⟩
  · rw [hruntime]
    exact Moment.fired_foldl_record _ sim.runtime id
  · have htable : (p.attempt sim dt).runtime = sim.runtime := by
      ext id
      rw [hkept id (hnone id)]
    exact Simulation.ext hstate htable

end Program

namespace Sample

/-- A coil with a oneshot, and a range whose bounds turn out to be in the wrong order. -/
def failingRung : Rung where
  conditions := []
  items := [.instruction (.single 0 true coil), .instruction (.ofOperation
    (.fill ⟨.literal (.int 1), .indirect cells (.tag pointer) (.literal (.int 2)) false⟩))]

def failing : Program := (Draft.empty.withRung failingRung).assemble

theorem failing_accepted : failing.Accepted := ⟨Draft.empty.withRung failingRung, rfl⟩

theorem failing_scan :
    (failing.scan state ∅ 0.1).next = .error (.error (.invalidRange "DS" 5 2)) := rfl

end Sample

namespace Program

/-- A failed attempt loses the write of the coil and keeps the oneshot as fired. -/
theorem attempt_of_error_sample :
    (Sample.failing.attempt ⟨Sample.state, ∅⟩ 0.1).state = Sample.state ∧
      (Sample.failing.attempt ⟨Sample.state, ∅⟩ 0.1).runtime.fired 0 = true := by
  obtain ⟨hstate, hfired, -, -⟩ :=
    @attempt_of_error Sample.failing ⟨Sample.state, ∅⟩ 0.1 _ Sample.failing_scan
  refine ⟨hstate, ?_⟩
  rw [hfired]
  rfl

/-- A failed scan does not always leave the runtime table as it was. -/
theorem exists_failed_scan_with_effect :
    ¬ ∀ (p : Program) (s : SystemState) (r : RuntimeTable) (dt : Float) (e : LadderError),
      p.Accepted → (p.scan s r dt).next = .error (.error e) → (p.scan s r dt).runtime = r := by
  intro h
  have hsame := h Sample.failing Sample.state ∅ 0.1 _ Sample.failing_accepted Sample.failing_scan
  have hfired : (Sample.failing.scan Sample.state ∅ 0.1).runtime.fired 0 = true := rfl
  rw [hsame] at hfired
  exact absurd hfired (by decide)

end Program

end LadderLogic
