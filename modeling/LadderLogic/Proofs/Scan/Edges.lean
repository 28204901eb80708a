import LadderLogic.Proofs.Scan.Frame

/-!
Edges over whole runs: each commit records the level of every watched tag, no instruction touches
what was recorded, and so an edge compares the level of now with that of the end of the last scan.
-/

set_option autoImplicit false

namespace LadderLogic

/-- The level that a tag reads as in a committed state. -/
def SystemState.levelOf (s : SystemState) (t : Tag) : Bool :=
  ((s.tag? t.name).getD t.initial).isTruthy

/-- The contexts in which the parts shared by drums look at their conditions. -/
def DrumCore.Observes (drum : DrumCore) (id : InstructionId) (ctx : ScanContext) (c : Condition)
    (mid : ScanContext) : Prop :=
  let afterJump := (edge (drum.jump.map Prod.fst) (jumpKey id) ctx).2
  (c ∈ drum.jump.map Prod.fst ∧ mid = ctx) ∨ (c ∈ drum.jog ∧ mid = afterJump) ∨
    (c ∈ drum.reset ∧ mid = (edge drum.jog (jogKey id) afterJump).2)

/-- The operation, started in the first context, looks at a condition in the second one. -/
def Operation.Observes (id : InstructionId) (enabled : Bool) (ctx : ScanContext) :
    Operation → Condition → ScanContext → Prop
  | onDelay op, c, mid => c ∈ op.reset ∧ mid = ctx
  | countUp op, c, mid => (c ∈ op.down ∨ c ∈ op.reset) ∧ mid = ctx
  | countDown op, c, mid => c ∈ op.reset ∧ mid = ctx
  | shift op, c, mid => (c = op.clock ∧ mid = ctx) ∨
    (c ∈ op.reset ∧ mid = ctx.setMemory (Shift.clockKey id) (.bool (op.clock.holds ctx)))
  | eventDrum op, c, mid => op.core.Observes id ctx c mid ∨
    (c ∈ op.events ∧ mid = (op.core.begin id enabled ctx).2)
  | timeDrum op, c, mid => op.core.Observes id ctx c mid
  | _, _, _ => False

/-- A condition is looked at in a context: the gates of a rung and its branches where the rung is
entered, the conditions of an operation while it runs. -/
def Moment.Observes : Moment → Condition → ScanContext → Prop
  | rung r ctx, c, mid => (RungItem.ofRung r).Gate c ∧ mid = ctx
  | reach _ _ _, _, _ => False
  | operate id op enabled ctx, c, mid => op.Observes id enabled ctx c mid

section Observations

variable {id : InstructionId} {ctx mid : ScanContext} {c : Condition}

theorem DrumCore.Observes.becomes {drum : DrumCore} {targets : Tag → Prop} {keeps : String → Prop}
    {sound words : Prop} (ha : drum.Allowed id targets keeps sound words)
    (h : drum.Observes id ctx c mid) :
    c ∈ drum.conditions ∧ ctx.Becomes (Permit targets keeps sound words) mid := by
  have hstart : ctx.Becomes (Permit targets keeps sound words) ctx := .refl
  have hjump := edge_becomes ha hstart (drum.jump.map Prod.fst) (.inr (.inl rfl))
  have hjog := edge_becomes ha hjump drum.jog (.inr (.inr rfl))
  simp only [conditions, List.mem_append, Option.mem_toList]
  rcases h with ⟨hc, rfl⟩ | ⟨hc, rfl⟩ | ⟨hc, rfl⟩
  · exact ⟨.inl (.inr hc), .refl⟩
  · exact ⟨.inr hc, hjump⟩
  · exact ⟨.inl (.inl hc), hjog⟩

/-- An operation looks only at conditions that it is known to contain, and on its way only makes
changes that it names. -/
theorem Operation.Observes.effect {op : Operation} {enabled : Bool}
    (h : op.Observes id enabled ctx c mid) : c ∈ op.conditions ∧ op.Effect id ctx mid := by
  cases op with
  | onDelay op =>
    obtain ⟨hc, rfl⟩ := h
    exact ⟨Option.mem_toList.mpr hc, .refl⟩
  | countUp op =>
    obtain ⟨hc, rfl⟩ := h
    refine ⟨?_, .refl⟩
    simpa [conditions] using hc
  | countDown op =>
    obtain ⟨hc, rfl⟩ := h
    exact ⟨Option.mem_toList.mpr hc, .refl⟩
  | shift op =>
    rcases h with ⟨rfl, rfl⟩ | ⟨hc, rfl⟩
    · exact ⟨List.mem_cons_self, .refl⟩
    · refine ⟨List.mem_cons_of_mem _ (Option.mem_toList.mpr hc), .setMemory .refl rfl fun _ hkey => ?_⟩
      exact absurd hkey (not_isCarryKey_memoryKey (by decide) id)
  | eventDrum op =>
    rcases h with h | ⟨hc, rfl⟩
    · obtain ⟨hc, hbecomes⟩ := h.becomes (op.allowed id ctx)
      exact ⟨List.mem_append_right _ hc, hbecomes⟩
    · exact ⟨List.mem_append_left _ hc, (DrumCore.begin_becomes (op.allowed id ctx) .refl enabled).1⟩
  | timeDrum op => exact h.becomes (op.allowed id ctx)
  | _ => exact h.elim

end Observations

namespace Program

variable {p : Program} {s next : SystemState} {r : RuntimeTable} {dt : Float}
  {ctx mid : ScanContext}

/-- No instruction touches the recorded level of a tag. -/
theorem not_keeps_prevKey (i : Instruction) (name : String) : ¬ i.Keeps (prevKey name) := by
  cases i with
  | single id oneshot op => exact op.not_keeps_prevKey id name
  | loop id oneshot head body => exact not_false

/-- What is looked at during a scan is a condition of the program, in a context that still has the
recorded levels of the start. -/
theorem observes_of_mem_moments {m : Moment} (hm : m ∈ p.scanMoments s r dt) {c : Condition}
    (h : m.Observes c mid) : (∃ q ∈ p.allRungs, q.HasCondition c) ∧ mid.state = s ∧
      ∀ name, mid.memory? (prevKey name) = s.memory? (prevKey name) := by
  obtain ⟨hfrom, hreaches⟩ := (p.evaluate_traced (.startScan s r dt)).moments m hm
  obtain ⟨hstate, -⟩ := frame_of_reaches hreaches
  have hmemory : ∀ name, m.context.memory? (prevKey name) = s.memory? (prevKey name) := by
    intro name
    exact memory?_of_reaches hreaches (prevKey_ne_dtKey name) fun i _ => not_keeps_prevKey i name
  cases m with
  | rung q ctx =>
    obtain ⟨hgate, rfl⟩ := h
    exact ⟨⟨q, hfrom, .inl hgate⟩, hstate, hmemory⟩
  | reach i enabled ctx => exact h.elim
  | operate id op enabled ctx =>
    obtain ⟨oneshot, hmem⟩ := hfrom
    obtain ⟨hc, heffect⟩ := h.effect
    obtain ⟨q, hq, hi⟩ := List.mem_flatMap.mp hmem
    refine ⟨⟨q, hq, .inr ⟨_, hi, hc⟩⟩, heffect.frame.1.trans hstate, ?_⟩
    intro name
    exact (heffect.memory?_eq (op.not_keeps_prevKey id name)).trans (hmemory name)

/-- A successful scan records the level of every watched tag as the next state has it. -/
theorem recorded_of_scan (h : p.Accepted) (hu : p.UniformEdges)
    (hscan : (p.scan s r dt).next = .ok next) {t : Tag} (ht : p.Watches t) :
    next.memory? (prevKey t.name) = some (.bool (next.levelOf t)) := by
  obtain ⟨last, hreaches, rfl⟩ := reaches_of_scan hscan
  have hwatched : last.edgeTags[t.name]? = some t.initial.isTruthy := by
    rw [(frame_of_reaches hreaches).2]
    exact edgeTags_of_watches h hu ht
  have hlevel : last.levelOf t.name t.initial.isTruthy = (last.commit dt).levelOf t := by
    unfold ScanContext.levelOf SystemState.levelOf
    rw [ScanContext.tag?_commit]
    cases last.tag? t.name <;> rfl
  rw [ScanContext.memory?_commit_prevKey dt hwatched, hlevel]

/-- Runs of scans from a fresh state, with tags patched in between, and the level that each tag had
at the end of the last scan. -/
inductive Session (p : Program) : SystemState → (Tag → Bool) → Prop
  | fresh (tags : ValueMap) : Session p (.ofTags tags) fun _ => false
  | patch {s : SystemState} {level : Tag → Bool} (tags : ValueMap) :
    Session p s level → Session p (s.patched tags) level
  | scan {s next : SystemState} {level : Tag → Bool} (r : RuntimeTable) (dt : Float) :
    Session p s level → (p.scan s r dt).next = .ok next → Session p next next.levelOf

/-- The memory of a session knows the last level of every watched tag. -/
theorem Session.recorded (h : p.Accepted) (hu : p.UniformEdges) {level : Tag → Bool}
    (hs : p.Session s level) {t : Tag} (ht : p.Watches t) :
    ((s.memory? (prevKey t.name)).map Value.isTruthy).getD false = level t := by
  induction hs with
  | fresh tags => simp [SystemState.ofTags, SystemState.empty, SystemState.memory?]
  | patch tags _ ih => exact ih
  | scan r dt _ hscan _ =>
    rw [recorded_of_scan h hu hscan ht]
    rfl

/-- Over every session, each scan records the levels of all watched tags, and wherever a scan looks
at a condition its edges compare the level of now with the level at the end of the last scan. -/
theorem edges_of_session (h : p.Accepted) (hu : p.UniformEdges) {level : Tag → Bool}
    (hs : p.Session s level) (r : RuntimeTable) (dt : Float) :
    (∀ next, (p.scan s r dt).next = .ok next → ∀ t, p.Watches t →
      next.memory? (prevKey t.name) = some (.bool (next.levelOf t))) ∧
    ∀ m ∈ p.scanMoments s r dt, ∀ c mid, m.Observes c mid → ∀ t, c.HasEdge t →
      (Condition.risingEdge t).holds mid = (mid.readBool t && !level t) ∧
      (Condition.fallingEdge t).holds mid = (!mid.readBool t && level t) ∧
      (mid.tags[t.name]? = none → mid.readBool t = s.levelOf t) := by
  refine ⟨fun next hscan t ht => recorded_of_scan h hu hscan ht, ?_⟩
  intro m hm c mid hobserves t hedge
  obtain ⟨⟨q, hq, hc⟩, hstate, hmemory⟩ := observes_of_mem_moments hm hobserves
  have hlevel : mid.memoryBool (prevKey t.name) = level t := by
    unfold ScanContext.memoryBool
    rw [hmemory t.name]
    exact hs.recorded h hu ⟨q, hq, c, hc, hedge⟩
  refine ⟨?_, ?_, fun hunwritten => ?_⟩
  · rw [Condition.holds, hlevel]
  · rw [Condition.holds, hlevel]
  · unfold ScanContext.readBool ScanContext.read ScanContext.getTag ScanContext.tag?
    rw [hunwritten, hstate]
    rfl

end Program

namespace Sample

theorem eq_start_of_watches {t : Tag} (h : program.Watches t) : t = start := by
  obtain ⟨q, hq, c, hc, ht⟩ := h
  obtain rfl : q = (rung.number 0).1 := List.mem_singleton.mp hq
  rcases hc with hgate | ⟨i, hi, hc⟩
  · cases hgate with
    | own hc =>
      obtain rfl := List.mem_singleton.mp hc
      cases ht
      rfl
    | inner hitem hgate =>
      obtain rfl | rfl | rfl : _ = RungItem.instruction (.single 0 false coil) ∨
          _ = RungItem.instruction (.single 1 false store) ∨
          _ = RungItem.instruction (.single 2 false timer) := by
        simpa [rung, Rung.number, RungItem.numberAll, RungItem.number, Instruction.number,
          Instruction.ofOperation] using hitem
      all_goals cases hgate
  · obtain rfl | rfl | rfl := mem_instructions (List.mem_flatMap.mpr ⟨_, hq, hi⟩) <;> cases hc

theorem uniformEdges : program.UniformEdges := by
  intro t u ht hu _
  rw [eq_start_of_watches ht, eq_start_of_watches hu]

/-- A state before any scan, with the start switch on. -/
def started : SystemState := .ofTags (.ofEntries [("Start", .bool true)])

end Sample

/-- The first scan sees the switch rise, and records that it is on. -/
theorem Program.edges_of_session_sample :
    (Condition.risingEdge Sample.start).holds (Sample.program.entry Sample.started ∅ 0.1) = true ∧
      ∃ next, (Sample.program.scan Sample.started ∅ 0.1).next = .ok next ∧
        next.memory? (prevKey "Start") = some (.bool (next.levelOf Sample.start)) := by
  obtain ⟨next, hscan⟩ : ∃ next, (Sample.program.scan Sample.started ∅ 0.1).next = .ok next :=
    ⟨_, rfl⟩
  have hgate : Condition.risingEdge Sample.start ∈ Sample.rung.conditions := List.mem_cons_self
  have hwatches : Sample.program.Watches Sample.start :=
    ⟨(Sample.rung.number 0).1, List.mem_cons_self, _, .inl (.own hgate), .rising⟩
  obtain ⟨hrecorded, hedges⟩ := edges_of_session Sample.accepted Sample.uniformEdges
    (.fresh (.ofEntries [("Start", .bool true)])) ∅ 0.1
  obtain ⟨hrising, -, hunwritten⟩ := hedges
    (.rung (Sample.rung.number 0).1 (Sample.program.entry Sample.started ∅ 0.1))
    (List.mem_append_left _ List.mem_cons_self) _ _ ⟨.own hgate, rfl⟩ Sample.start .rising
  refine ⟨?_, next, hscan, hrecorded next hscan Sample.start hwatches⟩
  rw [hrising, hunwritten rfl]
  rfl

end LadderLogic
