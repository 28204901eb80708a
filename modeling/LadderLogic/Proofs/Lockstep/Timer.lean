import LadderLogic.Proofs.Lockstep.Context

/-!
Timers and counters in contexts that are alike. What they read of the clock, of their fractions and
of their conditions is the same on both sides.
-/

set_option autoImplicit false

namespace LadderLogic

section Parts

variable {targets : Tag → Prop} {a b c d : ScanContext}

theorem Expression.preset_inStep (e : Expression) (h : a.InStep (Touch.Plain targets) b c d) :
    (e.preset c).1 = (e.preset d).1 ∧
      a.InStep (Touch.Plain targets) b (e.preset c).2 (e.preset d).2 := by
  unfold preset
  rw [h.alike.evaluate]
  cases e.evaluate d with
  | error fault => exact ⟨rfl, h.raise _⟩
  | ok v => exact ⟨rfl, h⟩

theorem Expression.onPreset_inStep (e : Expression) {next other : Int → ScanContext → ScanContext}
    (h : a.InStep (Touch.Plain targets) b c d)
    (hnext : ∀ i last mid, a.InStep (Touch.Plain targets) b last mid →
      a.InStep (Touch.Plain targets) b (next i last) (other i mid)) :
    a.InStep (Touch.Plain targets) b
      (match e.preset c with
        | (none, last) => last
        | (some i, last) => next i last)
      (match e.preset d with
        | (none, last) => last
        | (some i, last) => other i last) := by
  obtain ⟨hvalue, hcontext⟩ := e.preset_inStep h
  generalize e.preset c = left at hvalue hcontext
  generalize e.preset d = right at hvalue hcontext
  obtain ⟨value, last⟩ := left
  obtain ⟨twin, mid⟩ := right
  obtain rfl : value = twin := hvalue
  cases value with
  | none => exact hcontext
  | some i => exact hnext i last mid hcontext

theorem Counter.onPreset_inStep (preset : Expression) {next other : Int → ScanContext → Outcome}
    (h : a.InStep (Touch.Plain targets) b c d)
    (hnext : ∀ i last mid, a.InStep (Touch.Plain targets) b last mid →
      Outcome.InStep (Touch.Plain targets) a b (next i last) (other i mid)) :
    Outcome.InStep (Touch.Plain targets) a b (onPreset preset c next) (onPreset preset d other) := by
  obtain ⟨hvalue, hcontext⟩ := preset.preset_inStep h
  unfold onPreset
  generalize preset.preset c = left at hvalue hcontext
  generalize preset.preset d = right at hvalue hcontext
  obtain ⟨value, last⟩ := left
  obtain ⟨twin, mid⟩ := right
  obtain rfl : value = twin := hvalue
  cases value with
  | none => exact hcontext.proceed
  | some i => exact hnext i last mid hcontext

/-- The count and the fraction that a timer comes to. -/
theorem Timer.accumulate_inStep (h : a.InStep (Touch.Plain targets) b c d) (key : String)
    (t : Tag) (unit : TimeUnit) :
    (accumulate c key (c.readInt t) unit).1 = (accumulate d key (d.readInt t) unit).1 ∧
      a.InStep (Touch.Plain targets) b (accumulate c key (c.readInt t) unit).2
        (accumulate d key (d.readInt t) unit).2 := by
  have htotal : elapsed (c.memoryReal key) c.dt unit = elapsed (d.memoryReal key) d.dt unit := by
    unfold ScanContext.dt
    rw [h.alike.memoryReal, h.alike.memoryReal]
  unfold accumulate
  dsimp only
  rw [h.alike.readInt, htotal]
  exact ⟨rfl, h.setMemory _ _⟩

theorem Counter.move_inStep (h : a.InStep (Touch.Plain targets) b c d) {accumulator : Tag}
    (ht : targets accumulator) (delta : Int) :
    Outcome.InStep (Touch.Plain targets) a b (move accumulator delta c)
      (move accumulator delta d) := by
  unfold move
  rw [h.alike.readInt]
  exact h.onWord fun _ => (h.write ht _).proceed

end Parts

section Timers

variable {a b : ScanContext}

theorem OnDelay.inStep (timer : OnDelay) (enabled : Bool) (h : a.Alike b) :
    a.InStep (Touch.Plain (Operation.onDelay timer).Targets) b (timer.execute enabled a)
      (timer.execute enabled b) := by
  have hstart : a.InStep (Touch.Plain (Operation.onDelay timer).Targets) b a b := .start h
  have hclear : a.InStep (Touch.Plain (Operation.onDelay timer).Targets) b (timer.clear a)
      (timer.clear b) :=
    ((hstart.write (.inr rfl) _).write (.inl rfl) _).setMemory _ _
  unfold execute
  rw [h.optionHolds]
  split_ifs
  · exact hclear
  · refine timer.preset.onPreset_inStep hstart fun preset last mid hlast => ?_
    obtain ⟨hcount, hcontext⟩ :=
      Timer.accumulate_inStep hlast (fracKey timer.accumulator.name) timer.accumulator timer.unit
    dsimp only
    rw [hcount]
    exact (hcontext.write (.inr rfl) _).write (.inl rfl) _
  · exact hclear
  · exact hstart

theorem OffDelay.inStep (timer : OffDelay) (enabled : Bool) (h : a.Alike b) :
    a.InStep (Touch.Plain (Operation.offDelay timer).Targets) b (timer.execute enabled a)
      (timer.execute enabled b) := by
  have hstart : a.InStep (Touch.Plain (Operation.offDelay timer).Targets) b a b := .start h
  unfold execute
  rw [h.readBool]
  split_ifs
  · exact ((hstart.write (.inl rfl) _).write (.inr rfl) _).setMemory _ _
  · refine timer.preset.onPreset_inStep hstart fun preset last mid hlast => ?_
    obtain ⟨hcount, hcontext⟩ :=
      Timer.accumulate_inStep hlast (fracKey timer.accumulator.name) timer.accumulator timer.unit
    dsimp only
    rw [hcount]
    have hwrite := hcontext.write (t := timer.accumulator) (.inr rfl)
    split_ifs
    · exact (hwrite _).write (.inl rfl) _
    · exact hwrite _
  · exact hstart

theorem CountUp.inStep (counter : CountUp) (enabled : Bool) (h : a.Alike b) :
    Outcome.InStep (Touch.Plain (Operation.countUp counter).Targets) a b (counter.execute enabled a)
      (counter.execute enabled b) := by
  have hstart : a.InStep (Touch.Plain (Operation.countUp counter).Targets) b a b := .start h
  unfold execute delta
  simp only [h.optionHolds]
  split
  · exact ((hstart.write (.inr rfl) _).write (.inl rfl) _).proceed
  · refine (Counter.move_inStep hstart (.inr rfl) _).andThen fun c d hmoved => ?_
    refine Counter.onPreset_inStep counter.preset hmoved fun preset last mid hlast => ?_
    rw [hlast.alike.readInt]
    exact (hlast.write (.inl rfl) _).proceed

theorem CountDown.inStep (counter : CountDown) (enabled : Bool) (h : a.Alike b) :
    Outcome.InStep (Touch.Plain (Operation.countDown counter).Targets) a b
      (counter.execute enabled a) (counter.execute enabled b) := by
  have hstart : a.InStep (Touch.Plain (Operation.countDown counter).Targets) b a b := .start h
  have hmoved : Outcome.InStep (Touch.Plain (Operation.countDown counter).Targets) a b
      (counter.moved enabled a) (counter.moved enabled b) := by
    unfold moved
    split_ifs
    · exact Counter.move_inStep hstart (.inr rfl) _
    · exact hstart.proceed
  unfold execute
  rw [h.optionHolds]
  split
  · exact ((hstart.write (.inr rfl) _).write (.inl rfl) _).proceed
  · refine hmoved.andThen fun c d hmid => ?_
    refine Counter.onPreset_inStep counter.preset hmid fun preset last mid hlast => ?_
    refine hlast.onWord fun bound => ?_
    rw [hlast.alike.readInt]
    exact (hlast.write (.inl rfl) _).proceed

end Timers

end LadderLogic
