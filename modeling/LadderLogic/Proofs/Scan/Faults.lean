import LadderLogic.Proofs.Lockstep.Agenda

/-!
Faults last for one scan. A scan starts with all of them cleared, whatever its state holds of them,
a fault that is raised stays raised to the end, and the commit keeps exactly those that were raised.
-/

set_option autoImplicit false

namespace LadderLogic

open Agenda

/-- A fault has been raised since the scan began. -/
def ScanContext.Raised (ctx : ScanContext) (f : Fault) : Prop :=
  .faultRaised ctx.state.scanId f ∈ ctx.notices

instance (ctx : ScanContext) (f : Fault) : Decidable (ctx.Raised f) :=
  inferInstanceAs (Decidable (_ ∈ ctx.notices))

/-- The program may get from one context to the other, touch by touch. -/
def ScanContext.Onward (p : Program) : ScanContext → ScanContext → Prop :=
  Relation.ReflTransGen fun ctx next => ∃ x : Touch, x.Of p ∧ next = ctx.touch x

/-- The states differ at most in the fault tags. -/
structure SystemState.AgreesButFaults (s t : SystemState) : Prop where
  scanId : s.scanId = t.scanId
  timestamp : s.timestamp = t.timestamp
  memory : s.memory = t.memory
  tags : ∀ name, (∀ f : Fault, f.tagName ≠ name) → s.tag? name = t.tag? name

/-- No instruction of the program writes a fault tag. -/
def Program.SparesFaults (p : Program) : Prop :=
  ∀ i ∈ p.instructions, ∀ t, i.Targets t → ∀ f : Fault, t.name ≠ f.tagName

/-- The rungs of a program ahead, and the context in which the first of them is entered. -/
def Agenda.opening (p : Program) (s : SystemState) (r : RuntimeTable) (dt : Float) : Agenda :=
  ⟨[.task (.body p.rungs)], (p.entry s r dt).proceed⟩

namespace ScanContext

variable {p : Program} {permitted : Touch → Prop} {a b c d : ScanContext}

/-- What takes part in commits and reports, and no instruction reads. -/
structure SameFrame (a b : ScanContext) : Prop where
  scanId : a.state.scanId = b.state.scanId
  timestamp : a.state.timestamp = b.state.timestamp
  edgeTags : a.edgeTags = b.edgeTags
  notices : a.notices = b.notices

theorem SameFrame.touch (h : a.SameFrame b) (x : Touch) : (a.touch x).SameFrame (b.touch x) := by
  cases x with
  | change c =>
    cases c with
    | raise f =>
      refine ⟨h.scanId, h.timestamp, h.edgeTags, ?_⟩
      change a.notices.push (.faultRaised a.state.scanId f) =
        b.notices.push (.faultRaised b.state.scanId f)
      rw [h.notices, h.scanId]
    | report n => exact ⟨h.scanId, h.timestamp, h.edgeTags, congrArg (Array.push · n) h.notices⟩
    | _ => exact ⟨h.scanId, h.timestamp, h.edgeTags, h.notices⟩
  | _ => exact ⟨h.scanId, h.timestamp, h.edgeTags, h.notices⟩

theorem InStep.sameFrame (h : a.InStep permitted b c d) (hframe : a.SameFrame b) :
    c.SameFrame d := by
  induction h with
  | start _ => exact hframe
  | touch x _ _ ih => exact ih.touch x

/-- A commit does not see how the tags are spread over the state and the overlay. -/
theorem commit_congr (h : a.Alike b) (hframe : a.SameFrame b) (dt : Float) :
    a.commit dt = b.commit dt := by
  have htags : a.currentTags = b.currentTags := by
    apply Std.ExtTreeMap.ext_getElem?
    intro name
    unfold currentTags
    rw [Std.ExtTreeMap.getElem?_union, Std.ExtTreeMap.getElem?_union]
    exact congrFun h.tags name
  have hmemory : a.state.memory ∪ a.memory = b.state.memory ∪ b.memory := by
    apply Std.ExtTreeMap.ext_getElem?
    intro key
    rw [Std.ExtTreeMap.getElem?_union, Std.ExtTreeMap.getElem?_union]
    exact congrFun h.memory key
  have hlevels : a.edgeMemory = b.edgeMemory := by
    unfold edgeMemory levelOf
    rw [hframe.edgeTags, h.tags]
  unfold commit
  rw [hframe.scanId, hframe.timestamp, htags, hmemory, hlevels]

/-- Contexts that are in step with themselves. -/
theorem InStep.onward (h : a.InStep (Touch.Of p) b c d) : a.Onward p c := by
  induction h with
  | start _ => exact .refl
  | touch x _ hx ih => exact ih.tail ⟨x, hx, rfl⟩

theorem tag?_clearFaults (ctx : ScanContext) (f : Fault) :
    ctx.clearFaults.tag? f.tagName = some (.bool false) := by
  simp only [clearFaults, Fault.all, List.foldl_cons, List.foldl_nil, tag?_setTag]
  cases f <;> simp

theorem tag?_clearFaults_of_ne (ctx : ScanContext) {name : String}
    (h : ∀ f : Fault, f.tagName ≠ name) : ctx.clearFaults.tag? name = ctx.tag? name := by
  simp only [clearFaults, Fault.all, List.foldl_cons, List.foldl_nil, tag?_setTag]
  rw [if_neg (h _).symm, if_neg (h _).symm, if_neg (h _).symm]

/-- What clearing the faults does not hide was the same before. -/
theorem Alike.clearFaults (htags : ∀ name, (∀ f : Fault, f.tagName ≠ name) →
      a.tag? name = b.tag? name) (hmemory : a.memory? = b.memory?)
    (hruntime : a.runtime = b.runtime) (hdepth : a.callDepth = b.callDepth) :
    a.clearFaults.Alike b.clearFaults where
  tags := by
    funext name
    by_cases hname : ∃ f : Fault, f.tagName = name
    · obtain ⟨f, rfl⟩ := hname
      rw [tag?_clearFaults, tag?_clearFaults]
    · have hne : ∀ f : Fault, f.tagName ≠ name := fun f hf => hname ⟨f, hf⟩
      rw [tag?_clearFaults_of_ne a hne, tag?_clearFaults_of_ne b hne, htags name hne]
  memory := hmemory
  runtime := hruntime
  callDepth := hdepth

/-- The invariant of a scan: each fault tag tells whether its fault has been raised. -/
def TellsFaults (ctx : ScanContext) : Prop :=
  ∀ f : Fault, ctx.tag? f.tagName = some (.bool (decide (ctx.Raised f)))

theorem raised_touch {x : Touch} (hx : x.Of p) (ctx : ScanContext) (f : Fault) :
    (ctx.touch x).Raised f ↔ ctx.Raised f ∨ x = .change (.raise f) := by
  cases x with
  | change c =>
    cases c with
    | raise g =>
      have hpush : (ctx.touch (.change (.raise g))).Raised f ↔
          ctx.Raised f ∨ (.faultRaised ctx.state.scanId f : Notice) =
            .faultRaised ctx.state.scanId g := Array.mem_push
      rw [hpush]
      simp [eq_comm]
    | report n =>
      obtain ⟨count, limit, rfl⟩ := hx
      have hpush : (ctx.touch (.change (.report (.loopClamped count limit)))).Raised f ↔
          ctx.Raised f ∨ (.faultRaised ctx.state.scanId f : Notice) = .loopClamped count limit :=
        Array.mem_push
      rw [hpush]
      simp
    | _ => simp [touch, change, Raised, write, setTag, setMemory]
  | _ => simp [touch, Raised, setOneshot, enterCall, exitCall]

theorem raised_onward {ctx later : ScanContext} {f : Fault} (h : ctx.Onward p later)
    (hraised : ctx.Raised f) : later.Raised f := by
  induction h with
  | refl => exact hraised
  | tail _ hstep ih =>
    obtain ⟨x, hx, rfl⟩ := hstep
    exact (raised_touch hx _ f).mpr (.inl ih)

/-- The tag of a fault is written where the fault is raised and nowhere else. -/
theorem tag?_touch (hp : p.SparesFaults) {x : Touch} (hx : x.Of p) (ctx : ScanContext) (f : Fault) :
    x = .change (.raise f) ∧ (ctx.touch x).tag? f.tagName = some (.bool true) ∨
      x ≠ .change (.raise f) ∧ (ctx.touch x).tag? f.tagName = ctx.tag? f.tagName := by
  cases x with
  | change c =>
    cases c with
    | write t v =>
      obtain ⟨i, hi, ht⟩ := hx
      exact .inr ⟨nofun, tag?_write_of_ne (hp i hi t ht f) v⟩
    | raise g =>
      have htag : (ctx.touch (.change (.raise g))).tag? f.tagName =
          if f.tagName = g.tagName then some (.bool true) else ctx.tag? f.tagName :=
        tag?_setTag (ctx.report _) g.tagName (.bool true) f.tagName
      by_cases hfault : g = f
      · subst hfault
        exact .inl ⟨rfl, htag.trans (if_pos rfl)⟩
      · have hname : f.tagName ≠ g.tagName := by
          cases f <;> cases g <;> first | exact absurd rfl hfault | decide
        refine .inr ⟨fun heq => hfault ?_, htag.trans (if_neg hname)⟩
        cases heq
        rfl
    | remember key v => exact .inr ⟨nofun, rfl⟩
    | report n => exact .inr ⟨nofun, rfl⟩
  | _ => exact .inr ⟨nofun, rfl⟩

/-- One step of the invariant. -/
theorem TellsFaults.touch (hp : p.SparesFaults) {ctx : ScanContext} (h : ctx.TellsFaults)
    {x : Touch} (hx : x.Of p) : (ctx.touch x).TellsFaults := by
  intro f
  have hraised := raised_touch hx ctx f
  rcases tag?_touch hp hx ctx f with ⟨hraise, htag⟩ | ⟨hother, htag⟩
  · have hnow : (ctx.touch x).Raised f := hraised.mpr (.inr hraise)
    rw [htag, decide_eq_true hnow]
  · have hsame : (ctx.touch x).Raised f ↔ ctx.Raised f := hraised.trans (or_iff_left hother)
    rw [htag, h f, decide_eq_decide.mpr hsame]

theorem TellsFaults.onward (hp : p.SparesFaults) {ctx later : ScanContext} (h : ctx.TellsFaults)
    (honward : ctx.Onward p later) : later.TellsFaults := by
  induction honward with
  | refl => exact h
  | tail _ hstep ih =>
    obtain ⟨x, hx, rfl⟩ := hstep
    exact ih.touch hp hx

end ScanContext

namespace Program

variable {p : Program} {s t : SystemState} {r : RuntimeTable} {dt : Float}

theorem entry_notices (p : Program) (s : SystemState) (r : RuntimeTable) (dt : Float) :
    (p.entry s r dt).notices = #[] := by
  unfold entry prepare
  split <;> rfl

theorem entry_not_raised (p : Program) (s : SystemState) (r : RuntimeTable) (dt : Float)
    (f : Fault) : ¬(p.entry s r dt).Raised f := by
  unfold ScanContext.Raised
  rw [entry_notices]
  exact Array.not_mem_empty _

theorem entry_tellsFaults (p : Program) (s : SystemState) (r : RuntimeTable) (dt : Float) :
    (p.entry s r dt).TellsFaults := by
  intro f
  rw [decide_eq_false (p.entry_not_raised s r dt f)]
  exact ScanContext.tag?_clearFaults _ f

/-- States that agree but for fault tags lead to contexts that are alike. -/
theorem entry_alike (p : Program) (h : s.AgreesButFaults t) (r : RuntimeTable) (dt : Float) :
    (p.entry s r dt).Alike (p.entry t r dt) := by
  have hstart : ∀ name, (∀ f : Fault, f.tagName ≠ name) →
      ((ScanContext.startScan s r dt).watch p.edgeTags).tag? name =
        ((ScanContext.startScan t r dt).watch p.edgeTags).tag? name := by
    intro name hname
    have htag := h.tags name hname
    rw [← ScanContext.tag?_startScan s r dt, ← ScanContext.tag?_startScan t r dt] at htag
    exact htag
  have hmemory : (p.entry s r dt).memory? = (p.entry t r dt).memory? := by
    funext key
    rw [entry_memory?, entry_memory?, SystemState.memory?, SystemState.memory?, h.memory]
  have hruntime : (p.entry s r dt).runtime = (p.entry t r dt).runtime := by
    rw [entry_runtime, entry_runtime]
  have hdepth : (p.entry s r dt).callDepth = (p.entry t r dt).callDepth := by
    unfold entry
    rw [prepare_callDepth, prepare_callDepth]
    rfl
  unfold entry prepare at hmemory hruntime hdepth ⊢
  refine ScanContext.Alike.clearFaults (fun name hname => ?_) hmemory hruntime hdepth
  split_ifs
  · have hscanId : ((ScanContext.startScan s r dt).watch p.edgeTags).state.scanId =
        ((ScanContext.startScan t r dt).watch p.edgeTags).state.scanId := h.scanId
    unfold refreshStatus
    simp only [ScanContext.tag?_setTag, hstart name hname, hscanId]
  · exact hstart name hname

theorem entry_sameFrame (p : Program) (h : s.AgreesButFaults t) (r : RuntimeTable) (dt : Float) :
    (p.entry s r dt).SameFrame (p.entry t r dt) := by
  have hs : (p.entry s r dt).state = s := (prepare_becomes p _).frame.1
  have ht : (p.entry t r dt).state = t := (prepare_becomes p _).frame.1
  refine ⟨?_, ?_, ?_, ?_⟩
  · rw [hs, ht, h.scanId]
  · rw [hs, ht, h.timestamp]
  · rw [entry_edgeTags, entry_edgeTags]
  · rw [entry_notices, entry_notices]

theorem belongs_opening (p : Program) (s : SystemState) (r : RuntimeTable) (dt : Float) :
    ∀ u, .task u ∈ (Agenda.opening p s r dt).frames → u.Belongs p := by
  intro u hu
  cases List.mem_singleton.mp hu
  exact Task.belongs_body fun _ hr => List.mem_append_left _ hr

/-- The runs of a program from contexts that are alike are in step at each point. -/
theorem opening_inStep (h : (p.entry s r dt).Alike (p.entry t r dt)) :
    Agenda.InStep p (p.entry s r dt) (p.entry t r dt) (.opening p s r dt) (.opening p t r dt) where
  frames := .cons (.task (.refl _)) .nil
  belongs := p.belongs_opening s r dt
  flow := (ScanContext.InStep.start h).proceed

theorem evaluate_inStep (h : (p.entry s r dt).Alike (p.entry t r dt)) :
    Outcome.InStep (Touch.Of p) (p.entry s r dt) (p.entry t r dt)
      (p.evaluate (.startScan s r dt)) (p.evaluate (.startScan t r dt)) := by
  have hfirst := p.evaluate_steps (.startScan s r dt)
  have hsecond := p.evaluate_steps (.startScan t r dt)
  obtain ⟨⟨frames, o⟩, hother, hinStep⟩ := steps_inStep (opening_inStep h) hfirst
  cases hinStep.frames
  obtain rfl := steps_unique hsecond hother
  exact hinStep.flow

/-- A scan depends on its state through what the first rung finds. -/
theorem scan_congr (h : (p.entry s r dt).Alike (p.entry t r dt))
    (hframe : (p.entry s r dt).SameFrame (p.entry t r dt)) : p.scan s r dt = p.scan t r dt := by
  obtain ⟨hexit, hcontext⟩ := evaluate_inStep h
  have hend := hcontext.sameFrame hframe
  have hcommit := ScanContext.commit_congr hcontext.alike hend dt
  change (p.evaluate (.startScan s r dt)).finish dt = (p.evaluate (.startScan t r dt)).finish dt
  unfold Outcome.finish
  rw [hexit, hcommit, hcontext.alike.runtime, hend.notices]

/-- What stands in the program goes on touch by touch, and stands in it at each point. -/
theorem onward_of_steps {x y : Agenda} (hbelongs : ∀ u, .task u ∈ x.frames → u.Belongs p)
    (hsteps : Steps p x y) : x.flow.context.Onward p y.flow.context ∧
      ∀ u, .task u ∈ y.frames → u.Belongs p := by
  obtain ⟨other, -, hinStep⟩ := steps_inStep (Agenda.InStep.self hbelongs) hsteps
  exact ⟨hinStep.flow.context.onward, hinStep.belongs⟩

/-- What holds of faults in every scan of a program that leaves their tags alone. -/
structure FaultsPerScan (p : Program) (s : SystemState) (r : RuntimeTable) (dt : Float) : Prop where
  /-- What the state holds in the fault tags makes no difference. -/
  forgets : ∀ t, s.AgreesButFaults t → p.scan t r dt = p.scan s r dt
  /-- The evaluation is the run of the main rungs. It goes from its start to each of its points, and
  from there to each later one, by touches of the program. -/
  ends : Steps p (.opening p s r dt) ⟨[], p.evaluate (.startScan s r dt)⟩
  goes : ∀ {x y : Agenda}, Steps p (.opening p s r dt) x → Steps p x y →
    (p.entry s r dt).Onward p x.flow.context ∧ x.flow.context.Onward p y.flow.context
  /-- No fault has been raised at first, and one kind of touch raises it. -/
  starts : ∀ f, ¬(p.entry s r dt).Raised f
  raises : ∀ (ctx : ScanContext) {x : Touch} (f : Fault), x.Of p →
    ((ctx.touch x).Raised f ↔ ctx.Raised f ∨ x = .change (.raise f))
  lasts : ∀ {ctx later : ScanContext} {f : Fault}, ctx.Onward p later → ctx.Raised f →
    later.Raised f
  /-- At every point, between the touches of an operation too, a fault tag tells whether its fault
  has been raised. -/
  reads : ∀ {ctx : ScanContext}, (p.entry s r dt).Onward p ctx →
    ∀ f : Fault, ctx.tag? f.tagName = some (.bool (decide (ctx.Raised f)))
  /-- The next state has in each fault tag whether the scan has raised the fault. -/
  commits : ∀ {next : SystemState}, (p.scan s r dt).next = .ok next →
    ∀ f : Fault, next.tag? f.tagName =
      some (.bool (decide ((p.evaluate (.startScan s r dt)).context.Raised f)))

/-- What the fault tags hold before a scan makes no difference to it. During the scan and at its end
they tell which faults it has raised. -/
theorem faultsPerScan (hp : p.SparesFaults) (s : SystemState) (r : RuntimeTable) (dt : Float) :
    p.FaultsPerScan s r dt where
  forgets t h := (scan_congr (p.entry_alike h r dt) (p.entry_sameFrame h r dt)).symm
  ends := p.evaluate_steps (.startScan s r dt)
  goes hx hy := by
    obtain ⟨hfirst, hbelongs⟩ := onward_of_steps (p.belongs_opening s r dt) hx
    exact ⟨hfirst, (onward_of_steps hbelongs hy).1⟩
  starts := p.entry_not_raised s r dt
  raises ctx _ f hx := ScanContext.raised_touch hx ctx f
  lasts honward hraised := ScanContext.raised_onward honward hraised
  reads honward := (p.entry_tellsFaults s r dt).onward hp honward
  commits hnext f := by
    have hends := p.evaluate_steps (.startScan s r dt)
    obtain ⟨honward, -⟩ := onward_of_steps (p.belongs_opening s r dt) hends
    rw [Outcome.eq_commit_of_finish hnext, ScanContext.tag?_commit]
    exact (p.entry_tellsFaults s r dt).onward hp honward f

end Program

/-! The pointer leads between the windows, and the state still holds a fault of another scan. -/

namespace Sample

theorem sparesFaults : program.SparesFaults := by
  intro i hi t ht f heq
  obtain rfl | rfl | rfl := mem_instructions hi
  · obtain rfl : t = lamp := ht
    cases f <;> exact absurd heq (by decide)
  · obtain ⟨a, ha, rfl⟩ : ∃ a, cells.contains a = true ∧ t = cells.cell a := ht
    obtain rfl | rfl | rfl | rfl := mem_cells ha <;> cases f <;> exact absurd heq (by decide)
  · obtain rfl | rfl : t = done ∨ t = count := ht <;> cases f <;> exact absurd heq (by decide)

def astray : SystemState :=
  state.patched (.ofEntries [("Pointer", .int 3), (Fault.outOfRange.tagName, .bool true)])

theorem raised_astray (f : Fault) :
    (program.evaluate (.startScan astray ∅ 0.1)).context.Raised f ↔ f = .addressError := by
  have hnotices : (program.evaluate (.startScan astray ∅ 0.1)).context.notices =
      #[.faultRaised 4 .addressError] := rfl
  change .faultRaised 4 f ∈ (program.evaluate (.startScan astray ∅ 0.1)).context.notices ↔ _
  rw [hnotices]
  simp

end Sample

theorem Program.faultsPerScan_sample : Sample.program.FaultsPerScan Sample.astray ∅ 0.1 ∧
    ∃ next, (Sample.program.scan Sample.astray ∅ 0.1).next = .ok next ∧
      next.tag? Fault.addressError.tagName = some (.bool true) ∧
      next.tag? Fault.outOfRange.tagName = some (.bool false) := by
  have hfaults := faultsPerScan Sample.sparesFaults Sample.astray ∅ 0.1
  have hraised := (Sample.raised_astray .addressError).mpr rfl
  have hclear := mt (Sample.raised_astray .outOfRange).mp (by decide)
  refine ⟨hfaults, _, rfl, ?_, ?_⟩
  · rw [hfaults.commits rfl .addressError, decide_eq_true hraised]
  · rw [hfaults.commits rfl .outOfRange, decide_eq_false hclear]

end LadderLogic
