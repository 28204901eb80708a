import LadderLogic.Proofs.Effect.Operation
import LadderLogic.Proofs.Instruction.Exits

/-!
A whole scan as a run of steps. Each step is that of one instruction of the program, a oneshot, or a
CALL entered or left; the moments happen on the way, and the runtime table is what they record. The
scan overflows exactly if an operation at one of the moments does.
-/

set_option autoImplicit false

namespace LadderLogic

/-- One step of a scan that runs the instructions `acts`. -/
inductive ScanContext.Step (acts : Instruction → Prop) : ScanContext → ScanContext → Prop
  | act {ctx next : ScanContext} (i : Instruction) : acts i → i.Effect ctx next → Step acts ctx next
  | oneshot (ctx : ScanContext) (i : Instruction) (fired : Bool) :
    acts i → Step acts ctx (ctx.setOneshot i.id fired)
  | enterCall (ctx : ScanContext) : Step acts ctx ctx.enterCall
  | exitCall (ctx : ScanContext) : Step acts ctx ctx.exitCall

abbrev ScanContext.Reaches (acts : Instruction → Prop) : ScanContext → ScanContext → Prop :=
  Relation.ReflTransGen (Step acts)

/-- The rung, the instruction or the operation of a moment is one of those given. -/
def Moment.From (acts : Instruction → Prop) (rungs : Rung → Prop) : Moment → Prop
  | rung r _ => rungs r
  | reach i _ _ => acts i
  | operate id op _ _ => ∃ oneshot, acts (.single id oneshot op)

/-- A part of a scan that starts in a context, passes through the moments and ends so. -/
structure Traced (acts : Instruction → Prop) (rungs : Rung → Prop) (ctx : ScanContext)
    (ms : List Moment) (o : Outcome) : Prop where
  reaches : ctx.Reaches acts o.context
  runtime : o.context.runtime = ms.foldl Moment.record ctx.runtime
  moments : ∀ m ∈ ms, m.From acts rungs ∧ ctx.Reaches acts m.context
  overflow : ∀ exact, o.exit = .fail (.overflow exact) ↔ ∃ m ∈ ms, m.Overflows exact

theorem RuntimeTable.setOneshot_of_fired {r : RuntimeTable} {id : InstructionId}
    (h : r.fired id = true) : r.setOneshot id true = r := by
  unfold fired at h
  cases hid : r[id]? with
  | none => simp [hid] at h
  | some b =>
    obtain rfl : b = true := by simpa [hid] using h
    unfold setOneshot
    rw [if_pos (by simp)]
    ext k
    rw [Std.ExtTreeMap.getElem?_insert]
    split_ifs with hk
    · obtain rfl := compare_eq_iff_eq.mp hk
      rw [hid]
    · rfl

namespace Traced

variable {acts : Instruction → Prop} {rungs : Rung → Prop} {ctx mid : ScanContext}
  {ms : List Moment} {o : Outcome}

/-- A part without moments that does not overflow. -/
theorem of_exit {exit : Exit} (ctx : ScanContext)
    (h : ∀ exact, exit ≠ .fail (.overflow exact)) : Traced acts rungs ctx [] ⟨ctx, exit⟩ :=
  ⟨.refl, rfl, by simp, fun exact => iff_of_false (h exact) (by simp)⟩

theorem proceed (ctx : ScanContext) : Traced acts rungs ctx [] ctx.proceed :=
  .of_exit ctx nofun

/-- A step that leaves the runtime table alone, with no moment of its own. -/
theorem of_step (hstep : ctx.Step acts mid) (hruntime : mid.runtime = ctx.runtime)
    (h : Traced acts rungs mid ms o) : Traced acts rungs ctx ms o where
  reaches := .head hstep h.reaches
  runtime := by rw [h.runtime, hruntime]
  moments m hm := ⟨(h.moments m hm).1, .head hstep (h.moments m hm).2⟩
  overflow := h.overflow

theorem cons {m : Moment} (hm : m.From acts rungs) (hctx : m.context = ctx)
    (hreach : ctx.Reaches acts mid) (hruntime : mid.runtime = m.record ctx.runtime)
    (hsafe : ∀ exact, ¬m.Overflows exact) (h : Traced acts rungs mid ms o) :
    Traced acts rungs ctx (m :: ms) o where
  reaches := hreach.trans h.reaches
  runtime := by rw [h.runtime, hruntime, List.foldl_cons]
  moments k hk := by
    rcases List.mem_cons.mp hk with rfl | hk
    · exact ⟨hm, hctx ▸ .refl⟩
    · exact ⟨(h.moments k hk).1, hreach.trans (h.moments k hk).2⟩
  overflow exact := by
    rw [h.overflow, List.exists_mem_cons_iff, or_iff_right (hsafe exact)]

/-- One part after the other, the second one only if the flow goes on. -/
theorem andThen {next : ScanContext → Outcome} {moments : ScanContext → List Moment}
    (h : Traced acts rungs ctx ms o)
    (hnext : ∀ mid, Traced acts rungs mid (moments mid) (next mid)) :
    Traced acts rungs ctx (ms ++ o.onward moments) (o.andThen next) := by
  obtain ⟨last, exit⟩ := o
  cases exit with
  | proceed =>
    have k := hnext last
    refine ⟨h.reaches.trans k.reaches, ?_, fun m hm => ?_, fun exact => ?_⟩
    · have hruntime : last.runtime = ms.foldl Moment.record ctx.runtime := h.runtime
      rw [List.foldl_append, ← hruntime]
      exact k.runtime
    · rcases List.mem_append.mp hm with hm | hm
      · exact h.moments m hm
      · exact ⟨(k.moments m hm).1, h.reaches.trans (k.moments m hm).2⟩
    · -- The first part has gone on, so it did not overflow.
      have hfirst : ¬∃ m ∈ ms, m.Overflows exact := fun hm => nomatch (h.overflow exact).mpr hm
      change (next last).exit = .fail (.overflow exact) ↔ ∃ m ∈ ms ++ moments last, _
      simp only [k.overflow, List.mem_append, or_and_right, exists_or]
      exact (or_iff_right hfirst).symm
  | leave =>
    change Traced acts rungs ctx (ms ++ []) _
    rw [List.append_nil]
    exact h
  | fail e =>
    change Traced acts rungs ctx (ms ++ []) _
    rw [List.append_nil]
    exact h

/-- A subroutine inside the boundary of its CALL. -/
theorem insideCall (h : Traced acts rungs ctx.enterCall ms o) :
    Traced acts rungs ctx ms (o.absorbLeave.mapContext ScanContext.exitCall) := by
  have hend : (o.absorbLeave.mapContext ScanContext.exitCall).context = o.context.exitCall := by
    obtain ⟨last, exit⟩ := o
    cases exit <;> rfl
  have hexit : ∀ exact, (o.absorbLeave.mapContext ScanContext.exitCall).exit =
      .fail (.overflow exact) ↔ o.exit = .fail (.overflow exact) := by
    intro exact
    obtain ⟨last, exit⟩ := o
    cases exit <;> simp [Outcome.absorbLeave, Outcome.mapContext]
  have hstart := of_step (.enterCall ctx) rfl h
  refine ⟨?_, ?_, hstart.moments, fun exact => (hexit exact).trans (hstart.overflow exact)⟩
  · rw [hend]
    exact hstart.reaches.tail (.exitCall o.context)
  · rw [hend]
    exact hstart.runtime

end Traced

section Instructions

variable {acts : Instruction → Prop} {rungs : Rung → Prop} {env : Instruction.Surroundings}
  {calls : CallMoments}

theorem Operation.traced {op : Operation} {id : InstructionId} {oneshot : Bool}
    (hacts : acts (.single id oneshot op))
    (hcalls : ∀ name ctx, Traced acts rungs ctx (calls name ctx) (env.subroutines name ctx))
    (enabled : Bool) (ctx : ScanContext) :
    Traced acts rungs ctx (op.moments calls id enabled ctx)
      (op.execute env.subroutines id enabled ctx) := by
  by_cases hcall : ∃ name, op = .callSubroutine name
  · obtain ⟨name, rfl⟩ := hcall
    exact .cons ⟨oneshot, hacts⟩ rfl .refl rfl (fun _ => not_false) (hcalls name ctx)
  · have hcall : ∀ name, op ≠ .callSubroutine name := fun name h => hcall ⟨name, h⟩
    have heffect := op.effect hcall env.subroutines id enabled ctx
    have hmoments : op.moments calls id enabled ctx = [.operate id op enabled ctx] := by
      unfold moments
      cases op with
      | callSubroutine name => exact absurd rfl (hcall name)
      | _ => rfl
    rw [hmoments]
    refine ⟨.single (.act _ hacts heffect), heffect.frame.2.1, ?_, fun exact => ?_⟩
    · intro m hm
      obtain rfl := List.mem_singleton.mp hm
      exact ⟨⟨oneshot, hacts⟩, .refl⟩
    · rw [op.exit_eq_overflow_iff hcall]
      simp [Moment.Overflows]

/-- Whatever the gate of a oneshot lets run, reaching the instruction records its enable. -/
theorem Instruction.gate_traced {i : Instruction} (hacts : acts i)
    {act idle spent : ScanContext → Outcome} {actMoments idleMoments spentMoments : ScanContext → List Moment}
    (hact : ∀ ctx, Traced acts rungs ctx (actMoments ctx) (act ctx))
    (hidle : ∀ ctx, Traced acts rungs ctx (idleMoments ctx) (idle ctx))
    (hspent : ∀ ctx, Traced acts rungs ctx (spentMoments ctx) (spent ctx)) (enabled : Bool)
    (ctx : ScanContext) :
    Traced acts rungs ctx
      (.reach i enabled ctx ::
        gate i.id i.oneshot enabled actMoments idleMoments spentMoments ctx)
      (gate i.id i.oneshot enabled act idle spent ctx) := by
  have hset : ∀ fired, ctx.Reaches acts (ctx.setOneshot i.id fired) :=
    fun fired => .single (.oneshot ctx i fired hacts)
  unfold gate
  split_ifs with henabled honeshot hfired honeshot
  · refine .cons hacts rfl .refl ?_ (fun _ => not_false) (hspent ctx)
    simp only [Moment.record, honeshot, henabled, if_true]
    exact (RuntimeTable.setOneshot_of_fired hfired).symm
  · refine .cons hacts rfl (hset true) ?_ (fun _ => not_false) (hact _)
    simp only [Moment.record, honeshot, henabled, if_true]
    rfl
  · refine .cons hacts rfl .refl ?_ (fun _ => not_false) (hact ctx)
    simp only [Moment.record, honeshot, Bool.false_eq_true, if_false]
  · refine .cons hacts rfl (hset false) ?_ (fun _ => not_false) (hidle _)
    simp only [Moment.record, honeshot, if_true, Bool.not_eq_true] at henabled ⊢
    rw [henabled]
    rfl
  · refine .cons hacts rfl .refl ?_ (fun _ => not_false) (hidle ctx)
    simp only [Moment.record, honeshot, Bool.false_eq_true, if_false]

theorem Instruction.single_traced {id : InstructionId} {oneshot : Bool} {op : Operation}
    (hacts : acts (single id oneshot op))
    (hcalls : ∀ name ctx, Traced acts rungs ctx (calls name ctx) (env.subroutines name ctx))
    (enabled : Bool) (ctx : ScanContext) :
    Traced acts rungs ctx ((single id oneshot op).moments env calls enabled ctx)
      ((single id oneshot op).execute env enabled ctx) := by
  unfold moments execute singleMoments executeSingle
  refine gate_traced (i := single id oneshot op) hacts (Operation.traced hacts hcalls true)
    (fun mid => ?_) (fun mid => ?_) enabled ctx
  · split_ifs
    · exact .proceed mid
    · exact Operation.traced hacts hcalls false mid
  · cases op with
    | out coil => exact Operation.traced hacts hcalls false mid
    | _ => exact .proceed mid

theorem ScanContext.runPasses_traced {step : Nat → ScanContext → Outcome}
    {moments : Nat → ScanContext → List Moment}
    (hstep : ∀ pass ctx, Traced acts rungs ctx (moments pass ctx) (step pass ctx))
    (count pass : Nat) (ctx : ScanContext) :
    Traced acts rungs ctx (Instruction.runMoments step moments count pass ctx)
      (runPasses step count pass ctx) := by
  induction count generalizing pass ctx with
  | zero => exact .proceed ctx
  | succ count ih => exact (hstep pass ctx).andThen fun mid => ih (pass + 1) mid

theorem Instruction.passes_traced {id : InstructionId} {oneshot : Bool} {head : ForHead}
    {body : List Instruction} (hacts : acts (loop id oneshot head body))
    {run : ScanContext → Outcome} {moments : ScanContext → List Moment}
    (hrun : ∀ ctx, Traced acts rungs ctx (moments ctx) (run ctx)) (ctx : ScanContext) :
    Traced acts rungs ctx (passesMoments env head run moments ctx)
      (executePasses env head run ctx) := by
  have hpasses : (loop id oneshot head body).Effect ctx (head.passes env.loopLimit ctx).2 :=
    passes_effect env.loopLimit ctx
  refine .of_step (.act _ hacts hpasses) hpasses.frame.2.1
    (ScanContext.runPasses_traced (fun pass mid => ?_) _ 0 _)
  have hindex : (loop id oneshot head body).Effect mid (head.writeIndex pass mid) :=
    writeIndex_effect pass mid
  exact .of_step (.act _ hacts hindex) hindex.frame.2.1 (hrun _)

mutual

/-- Induction over an instruction and its loop bodies. -/
theorem Instruction.traced
    (hcalls : ∀ name ctx, Traced acts rungs ctx (calls name ctx) (env.subroutines name ctx))
    (enabled : Bool) : ∀ (i : Instruction), (∀ j ∈ i.flatten, acts j) → ∀ ctx : ScanContext,
    Traced acts rungs ctx (i.moments env calls enabled ctx) (i.execute env enabled ctx)
  | .single id oneshot op, hacts, ctx =>
    single_traced (hacts _ (by simp [flatten])) hcalls enabled ctx
  | .loop id oneshot head body, hacts, ctx => by
    have hloop : acts (.loop id oneshot head body) := hacts _ (by simp [flatten])
    have hbody : ∀ j ∈ flattenAll body, acts j := fun j hj => hacts j (by simp [flatten, hj])
    have hinside : ∀ enabled mid, Traced acts rungs mid (momentsOfAll env calls enabled body mid)
        (executeAll env enabled body mid) := fun enabled =>
      Instruction.traced_all hcalls enabled body hbody
    unfold moments execute
    exact gate_traced (i := .loop id oneshot head body) hloop
      (passes_traced hloop (hinside true)) (hinside false) .proceed enabled ctx

theorem Instruction.traced_all
    (hcalls : ∀ name ctx, Traced acts rungs ctx (calls name ctx) (env.subroutines name ctx))
    (enabled : Bool) : ∀ (is : List Instruction), (∀ j ∈ flattenAll is, acts j) →
    ∀ ctx : ScanContext,
    Traced acts rungs ctx (momentsOfAll env calls enabled is ctx) (executeAll env enabled is ctx)
  | [], _, ctx => by
    unfold momentsOfAll executeAll
    exact .proceed ctx
  | i :: is, hacts, ctx => by
    have hi : ∀ j ∈ i.flatten, acts j := fun j hj => hacts j (by simp [flattenAll, hj])
    have his : ∀ j ∈ flattenAll is, acts j := fun j hj => hacts j (by simp [flattenAll, hj])
    unfold momentsOfAll executeAll
    exact (Instruction.traced hcalls enabled i hi ctx).andThen
      (Instruction.traced_all hcalls enabled is his)

end

/-- The items of a rung run as long as the flow goes on. -/
theorem RungItem.runAll_cons (enabled : Bool) (item : RungItem) (items : List RungItem)
    (decided : List Bool) (ctx : ScanContext) :
    (runAll env enabled (item :: items) decided ctx).2 =
      (item.run env enabled decided ctx).2.andThen fun mid =>
        (runAll env enabled items (item.run env enabled decided ctx).1 mid).2 := by
  rw [runAll]
  generalize item.run env enabled decided ctx = result
  obtain ⟨rest, last, exit⟩ := result
  cases exit <;> rfl

mutual

/-- Induction over a branch and its items. -/
theorem RungItem.traced
    (hcalls : ∀ name ctx, Traced acts rungs ctx (calls name ctx) (env.subroutines name ctx)) :
    ∀ (item : RungItem), (∀ j ∈ item.instructions, acts j) →
    ∀ (enabled : Bool) (decided : List Bool) (ctx : ScanContext),
    Traced acts rungs ctx (item.moments env calls enabled decided ctx)
      (item.run env enabled decided ctx).2
  | .instruction i, hacts, enabled, decided, ctx => by
    unfold moments run
    exact i.traced hcalls enabled (fun j hj => hacts j (by simpa [instructions] using hj)) ctx
  | .branch conditions items, hacts, enabled, decided, ctx => by
    unfold moments run
    exact RungItem.traced_all hcalls items (fun j hj => hacts j (by simpa [instructions] using hj))
      (decided.headD false) decided.tail ctx

theorem RungItem.traced_all
    (hcalls : ∀ name ctx, Traced acts rungs ctx (calls name ctx) (env.subroutines name ctx)) :
    ∀ (items : List RungItem), (∀ j ∈ instructionsOfAll items, acts j) →
    ∀ (enabled : Bool) (decided : List Bool) (ctx : ScanContext),
    Traced acts rungs ctx (momentsOfAll env calls enabled items decided ctx)
      (runAll env enabled items decided ctx).2
  | [], _, enabled, decided, ctx => by
    unfold momentsOfAll runAll
    exact .proceed ctx
  | item :: items, hacts, enabled, decided, ctx => by
    have hitem : ∀ j ∈ item.instructions, acts j :=
      fun j hj => hacts j (by simp [instructionsOfAll, hj])
    have hitems : ∀ j ∈ instructionsOfAll items, acts j :=
      fun j hj => hacts j (by simp [instructionsOfAll, hj])
    rw [runAll_cons]
    unfold momentsOfAll
    exact (RungItem.traced hcalls item hitem enabled decided ctx).andThen
      (RungItem.traced_all hcalls items hitems enabled _)

end

theorem Rung.traced
    (hcalls : ∀ name ctx, Traced acts rungs ctx (calls name ctx) (env.subroutines name ctx))
    {r : Rung} (hr : rungs r) (hacts : ∀ j ∈ r.instructions, acts j) (ctx : ScanContext) :
    Traced acts rungs ctx (r.moments env calls ctx) (r.execute env ctx) :=
  .cons hr rfl .refl rfl (fun _ => not_false) (RungItem.traced_all hcalls r.items hacts _ _ ctx)

theorem Rung.traced_all
    (hcalls : ∀ name ctx, Traced acts rungs ctx (calls name ctx) (env.subroutines name ctx))
    {rs : List Rung} (hrs : ∀ r ∈ rs, rungs r ∧ ∀ j ∈ r.instructions, acts j) (ctx : ScanContext) :
    Traced acts rungs ctx (momentsOfAll env calls rs ctx) (executeAll env rs ctx) := by
  induction rs generalizing ctx with
  | nil => exact .proceed ctx
  | cons r rs ih =>
    obtain ⟨hr, hacts⟩ := hrs r List.mem_cons_self
    exact (Rung.traced hcalls hr hacts ctx).andThen
      (ih fun q hq => hrs q (List.mem_cons_of_mem r hq))

end Instructions

namespace Program

variable {p : Program}

abbrev Traced (p : Program) : ScanContext → List Moment → Outcome → Prop :=
  LadderLogic.Traced (· ∈ p.instructions) (· ∈ p.allRungs)

theorem mem_allRungs_of_subroutine? {name : String} {rungs : List Rung}
    (h : p.subroutine? name = some rungs) : ∀ r ∈ rungs, r ∈ p.allRungs := by
  intro r hr
  obtain ⟨before, after, hsplit, -⟩ := List.lookup_eq_some_iff.mp h
  refine List.mem_append_right _ (List.mem_flatMap.mpr ⟨(name, rungs), ?_, hr⟩)
  rw [hsplit]
  simp

theorem mem_instructions {r : Rung} (h : r ∈ p.allRungs) :
    ∀ j ∈ r.instructions, j ∈ p.instructions :=
  fun _ hj => List.mem_flatMap.mpr ⟨r, h, hj⟩

/-- A CALL is entered and left on every exit, and runs rungs of the program in between. -/
theorem callWithin_traced (levels : Nat) (name : String) (ctx : ScanContext) :
    p.Traced ctx (p.callMoments levels name ctx) (p.callWithin levels name ctx) := by
  induction levels generalizing name ctx with
  | zero =>
    unfold callMoments callWithin
    cases p.subroutine? name with
    | none => exact .of_exit ctx nofun
    | some rungs => exact .of_exit ctx nofun
  | succ levels ih =>
    unfold callMoments callWithin
    cases hrungs : p.subroutine? name with
    | none => exact .of_exit ctx nofun
    | some rungs =>
      have hmem := mem_allRungs_of_subroutine? hrungs
      have hinside : p.Traced ctx.enterCall
          (Rung.momentsOfAll ⟨p.loopLimit, p.callWithin levels⟩ (p.callMoments levels) rungs
            ctx.enterCall)
          (Rung.executeAll ⟨p.loopLimit, p.callWithin levels⟩ rungs ctx.enterCall) :=
        Rung.traced_all ih (fun r hr => ⟨hmem r hr, mem_instructions (hmem r hr)⟩) ctx.enterCall
      exact hinside.insideCall

theorem evaluate_traced (p : Program) (ctx : ScanContext) :
    p.Traced (p.prepare ctx) (p.moments ctx) (p.evaluate ctx) :=
  Rung.traced_all (fun name mid => callWithin_traced _ name mid)
    (fun _ hr => ⟨List.mem_append_left _ hr, mem_instructions (List.mem_append_left _ hr)⟩) _

/-- The runtime table that a scan leaves is what its moments record, whether it fails or not. -/
theorem scan_runtime (p : Program) (s : SystemState) (r : RuntimeTable) (dt : Float) :
    (p.scan s r dt).runtime = (p.scanMoments s r dt).foldl Moment.record r := by
  have hprepare : (p.prepare (.startScan s r dt)).runtime = r := by
    unfold prepare
    split <;> rfl
  have htraced := (p.evaluate_traced (.startScan s r dt)).runtime
  rw [hprepare] at htraced
  exact htraced

/-- A scan overflows exactly if an operation does that it runs. -/
theorem scan_overflow_iff (p : Program) (s : SystemState) (r : RuntimeTable) (dt : Float)
    (exact : Int) : (p.scan s r dt).next = .error (.overflow exact) ↔
      ∃ m ∈ p.scanMoments s r dt, m.Overflows exact := by
  refine Iff.trans ?_ ((p.evaluate_traced (.startScan s r dt)).overflow exact)
  change ((p.evaluate (.startScan s r dt)).finish dt).next = _ ↔ _
  obtain ⟨last, exit⟩ := p.evaluate (.startScan s r dt)
  cases exit <;> simp [Outcome.finish]

end Program

end LadderLogic
