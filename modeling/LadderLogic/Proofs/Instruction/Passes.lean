import LadderLogic.Proofs.Drum.Request
import LadderLogic.Proofs.Expression.Finite
import LadderLogic.Proofs.Instruction.WellFormed
import LadderLogic.Proofs.TagType.Laws

/-!
Passes of a loop. The number of passes is settled before the first of them, and each one starts
where the one before has left the context, with its own number in the index tag. So neither the
count nor the numbers depend on what the body writes. The numbers are stored under the copy law: an
INT index stays at its greatest value from pass 32767 on.
-/

set_option autoImplicit false

namespace LadderLogic

theorem Limits.toNat_le_of_acceptsLoop {n : UInt32} (h : acceptsLoop n = true) :
    n.toNat ≤ 1000000 := by
  unfold acceptsLoop at h
  rw [Bool.and_eq_true, decide_eq_true_eq, decide_eq_true_eq] at h
  exact UInt32.le_iff_toNat_le.mp h.2

namespace ForHead

/-- Passes one after the other, of which the first has the number `pass`. Each starts with its
number written to the index, and ends the loop unless it goes on to its end. The list has the
contexts in which the body starts. -/
inductive Passes (head : ForHead) (body : ScanContext → Outcome) :
    ℕ → ScanContext → List ScanContext → Outcome → Prop
  | done {pass : ℕ} {ctx : ScanContext} : Passes head body pass ctx [] ctx.proceed
  | stop {pass : ℕ} {ctx : ScanContext}
      (hstop : (body (head.writeIndex pass ctx)).exit ≠ .proceed) :
      Passes head body pass ctx [head.writeIndex pass ctx] (body (head.writeIndex pass ctx))
  | next {pass : ℕ} {ctx : ScanContext} {starts : List ScanContext} {o : Outcome}
      (hnext : (body (head.writeIndex pass ctx)).exit = .proceed)
      (rest : Passes head body (pass + 1) (body (head.writeIndex pass ctx)).context starts o) :
      Passes head body pass ctx (head.writeIndex pass ctx :: starts) o

/-- The context before the first pass. A count above the limit has raised a fault. -/
def opening (limit : ℕ) (c : Int) (ctx : ScanContext) : ScanContext :=
  if (limit : Int) < c then (ctx.report (.loopClamped c limit)).raise .outOfRange else ctx

/-- The number of a pass as the index tag holds it. -/
def number (head : ForHead) (pass : ℕ) : Int :=
  if head.index.type = .int then min pass 32767 else pass

/-- A loop with the count `c` that may run up to `limit` times: how many passes it makes, which
number the index tag has when each of them starts, and what the loop raises on its own. -/
structure Repeats (head : ForHead) (body : ScanContext → Outcome) (limit : ℕ) (c : Int)
    (number : ℕ → Int) (ctx : ScanContext) (starts : List ScanContext) (o : Outcome) : Prop where
  passes : head.Passes body 0 (opening limit c ctx) starts o
  most : (starts.length : Int) ≤ min (max c 0) limit
  /-- There are fewer passes only if the last one ends in a RETURN or an error. -/
  fewer : (starts.length : Int) < min (max c 0) limit →
    ∃ last, starts.getLast? = some last ∧ body last = o ∧
      (o.exit = .leave ∨ ∃ e, o.exit = .fail e)
  index : ∀ (k : ℕ) (start : ScanContext), starts[k]? = some start →
    start.read head.index = .int (number k)
  raises : (opening limit c ctx).notices =
    if (limit : Int) < c then
      (ctx.notices.push (.loopClamped c limit)).push (.faultRaised ctx.state.scanId .outOfRange)
    else ctx.notices
  active : (opening limit c ctx).faultActive .outOfRange =
    (decide ((limit : Int) < c) || ctx.faultActive .outOfRange)
  /-- Writing a number to the index raises nothing. -/
  quiet : ∀ pass mid, (head.writeIndex pass mid).notices = mid.notices

variable {head : ForHead} {body : ScanContext → Outcome} {count : Expression} {index : Tag}
  {starts : List ScanContext} {ctx start : ScanContext} {o : Outcome} {limit pass k : ℕ} {c : Int}

theorem opening_of_le (h : c ≤ limit) (ctx : ScanContext) : opening limit c ctx = ctx :=
  if_neg (not_lt.mpr h)

theorem opening_of_lt (h : (limit : Int) < c) (ctx : ScanContext) :
    opening limit c ctx = (ctx.report (.loopClamped c limit)).raise .outOfRange :=
  if_pos h

theorem notices_opening (limit : ℕ) (c : Int) (ctx : ScanContext) :
    (opening limit c ctx).notices =
      if (limit : Int) < c then
        (ctx.notices.push (.loopClamped c limit)).push (.faultRaised ctx.state.scanId .outOfRange)
      else ctx.notices := by
  unfold opening
  split_ifs <;> rfl

theorem faultActive_opening (limit : ℕ) (c : Int) (ctx : ScanContext) :
    (opening limit c ctx).faultActive .outOfRange =
      (decide ((limit : Int) < c) || ctx.faultActive .outOfRange) := by
  by_cases h : (limit : Int) < c
  · rw [opening_of_lt h, decide_eq_true h, Bool.true_or]
    unfold ScanContext.faultActive ScanContext.raise
    rw [ScanContext.tag?_setTag, if_pos rfl]
    rfl
  · rw [opening_of_le (not_lt.mp h), decide_eq_false h, Bool.false_or]

theorem notices_writeIndex (head : ForHead) (pass : ℕ) (ctx : ScanContext) :
    (head.writeIndex pass ctx).notices = ctx.notices := by
  unfold writeIndex
  split <;> rfl

/-- The number of passes is settled by the count as it is before the first one. -/
theorem passes_of_integer? (h : head.count.integer? ctx = some c) (limit : ℕ) :
    head.passes limit ctx = ((min (max c 0) limit).toNat, opening limit c ctx) := by
  unfold Expression.integer? at h
  split at h
  case h_2 => cases h
  case h_1 v hv =>
    unfold passes opening
    simp only [hv, h, Option.getD_some]
    split_ifs <;> congr 1 <;> omega

/-- A loop that may make `count` passes makes them all unless one of them does not proceed. -/
theorem exists_passes (head : ForHead) (body : ScanContext → Outcome) (count pass : ℕ)
    (ctx : ScanContext) :
    ∃ starts, head.Passes body pass ctx starts
        (ctx.runPasses (fun pass mid => body (head.writeIndex pass mid)) count pass) ∧
      starts.length ≤ count ∧ (starts.length < count →
        (ctx.runPasses (fun pass mid => body (head.writeIndex pass mid)) count pass).exit ≠
          .proceed) := by
  induction count generalizing pass ctx with
  | zero => exact ⟨[], .done, le_rfl, fun h => absurd h (Nat.not_lt_zero _)⟩
  | succ count ih =>
    have hrun : ctx.runPasses (fun pass mid => body (head.writeIndex pass mid)) (count + 1) pass =
        (body (head.writeIndex pass ctx)).andThen
          (ScanContext.runPasses (fun pass mid => body (head.writeIndex pass mid)) count
            (pass + 1)) := rfl
    rw [hrun]
    -- The first pass decides whether there are more, and these are a loop of their own.
    by_cases h : (body (head.writeIndex pass ctx)).exit = .proceed
    · rw [Outcome.andThen_of_proceed h]
      obtain ⟨starts, hpasses, hmost, hfewer⟩ :=
        ih (pass + 1) (body (head.writeIndex pass ctx)).context
      refine ⟨head.writeIndex pass ctx :: starts, .next h hpasses, Nat.succ_le_succ hmost, ?_⟩
      intro hless
      exact hfewer (Nat.lt_of_succ_lt_succ hless)
    · rw [Outcome.andThen_of_ne_proceed h]
      exact ⟨[head.writeIndex pass ctx], .stop h, Nat.succ_le_succ (Nat.zero_le _), fun _ => h⟩

/-- A loop that does not proceed ends as its last pass does. -/
theorem Passes.exists_last (h : head.Passes body pass ctx starts o) (hexit : o.exit ≠ .proceed) :
    ∃ last, starts.getLast? = some last ∧ body last = o := by
  induction h with
  | done => exact absurd rfl hexit
  | stop hstop => exact ⟨_, rfl, rfl⟩
  | next hnext rest ih =>
    obtain ⟨last, hlast, hend⟩ := ih hexit
    refine ⟨last, ?_, hend⟩
    rw [List.getLast?_cons, hlast]
    rfl

/-- Whatever the passes before have done, a pass starts with its number just written. -/
theorem Passes.exists_writeIndex (h : head.Passes body pass ctx starts o)
    (hstart : starts[k]? = some start) : ∃ mid, start = head.writeIndex (pass + k) mid := by
  induction h generalizing k with
  | done => cases hstart
  | @stop pass ctx hstop =>
    cases k with
    | zero =>
      cases hstart
      exact ⟨ctx, rfl⟩
    | succ k => cases hstart
  | @next pass ctx starts o hnext rest ih =>
    cases k with
    | zero =>
      cases hstart
      exact ⟨ctx, rfl⟩
    | succ k =>
      obtain ⟨mid, hmid⟩ := ih hstart
      refine ⟨mid, hmid.trans ?_⟩
      rw [Nat.add_right_comm, Nat.add_assoc]

theorem type_of_make (h : make count index = .ok head) : head.index.type ∈ [.int, .dint] := by
  unfold make at h
  split at h
  · cases h
  · obtain ⟨_, hindex, hhead⟩ := bind_eq_ok.mp h
    cases hhead
    exact Tag.type_of_expectCounter hindex

theorem count_of_make (h : make count index = .ok head) : head.count = count := by
  unfold make at h
  split at h
  · cases h
  · obtain ⟨_, _, hhead⟩ := bind_eq_ok.mp h
    cases hhead
    rfl

/-- The index reads as the number just written to it, or as the INT nearest to that. -/
theorem read_writeIndex (htype : head.index.type ∈ [.int, .dint]) (hk : k ≤ 2147483647)
    (mid : ScanContext) : (head.writeIndex k mid).read head.index = .int (head.number k) := by
  have hstored : head.index.type.storeCopy (.int k) = some (.int (head.number k)) := by
    rw [List.mem_pair] at htype
    unfold number
    rcases htype with hint | hdint
    · rw [hint, if_pos rfl, TagType.storeLaws_int.storeCopy]
      unfold Integer.clamp
      congr 2
      split_ifs <;> omega
    · rw [hdint, if_neg (by decide), TagType.storeLaws_dint.storeCopy,
        Integer.clamp_of_mem (by omega) (by omega)]
  unfold writeIndex
  rw [hstored]
  exact ScanContext.read_write_self mid head.index _

/-- A loop whose body always proceeds makes all of its passes. -/
theorem Repeats.length_eq {number : ℕ → Int} (h : head.Repeats body limit c number ctx starts o)
    (hbody : ∀ mid, (body mid).exit = .proceed) :
    (starts.length : Int) = min (max c 0) limit := by
  rcases h.most.lt_or_eq with hless | heq
  · obtain ⟨last, -, rfl, hexit⟩ := h.fewer hless
    rw [hbody last] at hexit
    rcases hexit with hleave | ⟨e, hfail⟩
    · cases hleave
    · cases hfail
  · exact heq

/-- A loop under a valid limit that is let through to its passes. -/
theorem repeats (hmake : make count index = .ok head) (hlimit : limit ≤ 1000000)
    (hcount : head.count.integer? ctx = some c) (body : ScanContext → Outcome)
    (env : Instruction.Surroundings) (henv : env.loopLimit = limit) :
    ∃ starts, head.Repeats body limit c head.number ctx starts
      (Instruction.executePasses env head body ctx) := by
  have hrun : Instruction.executePasses env head body ctx =
      (opening limit c ctx).runPasses (fun pass mid => body (head.writeIndex pass mid))
        (min (max c 0) limit).toNat 0 := by
    unfold Instruction.executePasses
    rw [henv, passes_of_integer? hcount]
  obtain ⟨starts, hpasses, hmost, hfewer⟩ :=
    exists_passes head body (min (max c 0) limit).toNat 0 (opening limit c ctx)
  rw [← hrun] at hpasses hfewer
  refine ⟨starts, hpasses, by omega, ?_, ?_, notices_opening limit c ctx,
    faultActive_opening limit c ctx, head.notices_writeIndex⟩
  · intro hless
    have hexit := hfewer (by omega)
    obtain ⟨last, hlast, hend⟩ := hpasses.exists_last hexit
    refine ⟨last, hlast, hend, ?_⟩
    cases hcase : (Instruction.executePasses env head body ctx).exit with
    | proceed => exact absurd hcase hexit
    | leave => exact .inl rfl
    | fail e => exact .inr ⟨e, rfl⟩
  · intro k start hstart
    obtain ⟨hk, -⟩ := List.getElem?_eq_some_iff.mp hstart
    obtain ⟨mid, rfl⟩ := hpasses.exists_writeIndex hstart
    rw [Nat.zero_add]
    exact read_writeIndex (type_of_make hmake) (by omega) mid

end ForHead

namespace Instruction

/-- The context behind an open gate. -/
def entered (id : InstructionId) (oneshot : Bool) (ctx : ScanContext) : ScanContext :=
  if oneshot then ctx.setOneshot id true else ctx

theorem tag?_entered (id : InstructionId) (oneshot : Bool) (ctx : ScanContext) :
    (entered id oneshot ctx).tag? = ctx.tag? := by
  unfold entered
  split_ifs <;> rfl

theorem gate_of_open {α : Type} {id : InstructionId} {oneshot : Bool} {ctx : ScanContext}
    (h : oneshot = true → ctx.oneshotFired id = false) (act idle spent : ScanContext → α) :
    gate id oneshot true act idle spent ctx = act (entered id oneshot ctx) := by
  unfold gate entered
  cases oneshot with
  | false => rfl
  | true =>
    rw [h rfl]
    rfl

/-- A loop on a true rung whose oneshot has not fired makes as many passes as its count says, up to
the limit. When a pass starts, a DINT index has its number, and an INT index has it up to 32767. -/
theorem execute_loop_repeats {p : Program} {calls : Subroutines} {id : InstructionId}
    {oneshot : Bool} {count : Expression} {index : Tag} {head : ForHead} {ctx : ScanContext}
    {c : Int} (body : List Instruction) (hmake : ForHead.make count index = .ok head)
    (hlimit : Limits.acceptsLoop p.limits.maxLoopIterations = true)
    (hopen : oneshot = true → ctx.oneshotFired id = false)
    (hcount : count.integer? ctx = some c) :
    ∃ starts, head.Repeats (executeAll ⟨p.loopLimit, calls⟩ true body) p.loopLimit c head.number
      (entered id oneshot ctx) starts
      ((loop id oneshot head body).execute ⟨p.loopLimit, calls⟩ true ctx) := by
  have hentered : head.count.integer? (entered id oneshot ctx) = some c := by
    rw [ForHead.count_of_make hmake, count.integer?_congr (tag?_entered id oneshot ctx), hcount]
  rw [execute, gate_of_open hopen]
  exact ForHead.repeats hmake (Limits.toNat_le_of_acceptsLoop hlimit) hentered _ _ rfl

end Instruction

namespace Sample

def pass : Tag := .ofType .dint "Pass"

def thrice : ForHead := ⟨.literal (.int 3), pass⟩

/-- A body that sets the index back. -/
def settingBack : List Instruction :=
  [.single 1 false (.calculate ⟨.literal (.int 7), .direct pass, false⟩)]

def limited (limit : UInt32) : Program := { Draft.empty with limits := ⟨limit, 32⟩ }.assemble

/-- A place with nothing to call. -/
def uncalling (limit : UInt32) : Instruction.Surroundings :=
  ⟨(limited limit).loopLimit, fun _ ctx => ctx.proceed⟩

end Sample

namespace Instruction

theorem exit_settingBack (env : Surroundings) (ctx : ScanContext) :
    (executeAll env true Sample.settingBack ctx).exit = .proceed := by
  unfold Sample.settingBack
  rw [executeAll, execute]
  rfl

/-- The third pass has its number although the body sets the index back. -/
theorem execute_loop_repeats_sample :
    ForHead.make (.literal (.int 3)) Sample.pass = .ok Sample.thrice ∧
      Limits.acceptsLoop (Sample.limited 10000).limits.maxLoopIterations = true ∧
      Sample.blank.oneshotFired 0 = false ∧
      (Expression.literal (.int 3)).integer? Sample.blank = some 3 ∧
      ∃ starts, Sample.thrice.Repeats
          (executeAll (Sample.uncalling 10000) true Sample.settingBack) 10000 3
          Sample.thrice.number (entered 0 true Sample.blank) starts
          ((loop 0 true Sample.thrice Sample.settingBack).execute (Sample.uncalling 10000) true
            Sample.blank) ∧
        starts.length = 3 ∧ ∃ start, starts[2]? = some start ∧
          start.read Sample.pass = .int 2 := by
  have hmake : ForHead.make (.literal (.int 3)) Sample.pass = .ok Sample.thrice := rfl
  have hlimit : Limits.acceptsLoop (Sample.limited 10000).limits.maxLoopIterations = true := by
    decide
  have hopen : Sample.blank.oneshotFired 0 = false := rfl
  have hcount : (Expression.literal (.int 3)).integer? Sample.blank = some 3 := rfl
  obtain ⟨starts, h⟩ : ∃ starts, Sample.thrice.Repeats
      (executeAll (Sample.uncalling 10000) true Sample.settingBack) 10000 3
      Sample.thrice.number (entered 0 true Sample.blank) starts
      ((loop 0 true Sample.thrice Sample.settingBack).execute (Sample.uncalling 10000) true
        Sample.blank) :=
    execute_loop_repeats Sample.settingBack hmake hlimit (fun _ => hopen) hcount
  have hlength : starts.length = 3 := by
    have hall := h.length_eq (exit_settingBack _)
    exact_mod_cast hall
  have hstart : starts[2]? = some starts[2] := List.getElem?_eq_getElem (by omega)
  exact ⟨hmake, hlimit, hopen, hcount, starts, h, hlength, starts[2], hstart,
    h.index 2 starts[2] hstart⟩

/-- An INT index keeps its greatest value while the passes go on. -/
theorem exists_pass_past_index :
    ¬ ∀ (p : Program) (calls : Subroutines) (id : InstructionId) (oneshot : Bool)
      (count : Expression) (index : Tag) (head : ForHead) (body : List Instruction)
      (ctx : ScanContext) (c : Int), ForHead.make count index = .ok head →
      Limits.acceptsLoop p.limits.maxLoopIterations = true →
      (oneshot = true → ctx.oneshotFired id = false) → count.integer? ctx = some c →
      ∃ starts, head.Repeats (executeAll ⟨p.loopLimit, calls⟩ true body) p.loopLimit c
        (fun k => (k : Int)) (entered id oneshot ctx) starts
        ((loop id oneshot head body).execute ⟨p.loopLimit, calls⟩ true ctx) := by
  intro h
  obtain ⟨starts, hrun⟩ := h (Sample.limited 1000000) (fun _ ctx => ctx.proceed) 0 false
    (.literal (.int 32769)) (.ofType .int "I") ⟨.literal (.int 32769), .ofType .int "I"⟩ []
    Sample.blank 32769 rfl (by decide) (fun h => by cases h) rfl
  have hlength : starts.length = 32769 := by
    have hall := hrun.length_eq fun mid => by
      rw [executeAll]
      rfl
    exact_mod_cast hall
  have hstart : starts[32768]? = some starts[32768] := List.getElem?_eq_getElem (by omega)
  have hindex := hrun.index 32768 starts[32768] hstart
  obtain ⟨mid, hmid⟩ := hrun.passes.exists_writeIndex hstart
  rw [hmid, ForHead.read_writeIndex (by decide) (by decide)] at hindex
  have hnumber := Value.int.inj hindex
  revert hnumber
  decide

end Instruction

end LadderLogic
