import LadderLogic.Proofs.Scan.Commit
import LadderLogic.Proofs.Scan.Run

/-!
The frame of a scan: what the program does not name is the same before and after, whatever pointers
and range bounds come out as.
-/

set_option autoImplicit false

namespace LadderLogic

namespace ScanContext

variable {acts : Instruction → Prop} {ctx mid : ScanContext}

theorem Effect.frame {i : Instruction} (h : i.Effect ctx mid) :
    mid.state = ctx.state ∧ mid.edgeTags = ctx.edgeTags :=
  ⟨(Becomes.frame h).1, (Becomes.frame h).2.2.1⟩

theorem Step.frame (h : ctx.Step acts mid) :
    mid.state = ctx.state ∧ mid.edgeTags = ctx.edgeTags := by
  cases h with
  | act i _ heffect => exact Effect.frame heffect
  | oneshot i fired _ => exact ⟨rfl, rfl⟩
  | enterCall => exact ⟨rfl, rfl⟩
  | exitCall => exact ⟨rfl, rfl⟩

/-- One step writes no tag that its instruction does not name. -/
theorem Step.tag?_eq (h : ctx.Step acts mid) {name : String}
    (hfault : ∀ f : Fault, f.tagName ≠ name)
    (htargets : ∀ i, acts i → ∀ t, i.Targets t → t.name ≠ name) :
    mid.tag? name = ctx.tag? name := by
  cases h with
  | act i hi heffect => exact Becomes.tag?_eq heffect hfault (htargets i hi)
  | oneshot i fired _ => rfl
  | enterCall => rfl
  | exitCall => rfl

theorem Step.memory?_eq (h : ctx.Step acts mid) {key : String}
    (hkey : ∀ i, acts i → ¬ i.Keeps key) : mid.memory? key = ctx.memory? key := by
  cases h with
  | act i hi heffect => exact Becomes.memory?_eq heffect (hkey i hi)
  | oneshot i fired _ => rfl
  | enterCall => rfl
  | exitCall => rfl

/-- What every step leaves alone is the same after any number of them. -/
theorem Reaches.eq_of_step {α : Type} (f : ScanContext → α)
    (hstep : ∀ {a b : ScanContext}, a.Step acts b → f b = f a) (h : ctx.Reaches acts mid) :
    f mid = f ctx := by
  induction h with
  | refl => rfl
  | tail _ h ih => rw [hstep h, ih]

end ScanContext

/-- A scan that ends well ends with a commit. -/
theorem Outcome.eq_commit_of_finish {o : Outcome} {dt : Float} {next : SystemState}
    (h : (o.finish dt).next = .ok next) : next = o.context.commit dt := by
  unfold finish at h
  dsimp only at h
  split at h <;> cases h <;> rfl

namespace Program

/-- The names that a scan of the program may write: status tags if they are on, fault tags, and
what its instructions target. Of a computed target these are the cells that its block contains. -/
inductive Writes (p : Program) (name : String) : Prop
  | status (t : Tag) : p.statusTags = true → t ∈ SystemTag.status → t.name = name → Writes p name
  | fault (f : Fault) : f.tagName = name → Writes p name
  | target (i : Instruction) (t : Tag) :
    i ∈ p.instructions → i.Targets t → t.name = name → Writes p name

/-- The memory keys that a scan of the program may keep. -/
inductive KeepsKey (p : Program) (key : String) : Prop
  | dt : key = dtKey → KeepsKey p key
  | level (t : Tag) : p.Watches t → key = prevKey t.name → KeepsKey p key
  | kept (i : Instruction) : i ∈ p.instructions → i.Keeps key → KeepsKey p key

variable {p : Program} {s next : SystemState} {r : RuntimeTable} {dt : Float}

/-- The context of a scan when its first rung is reached. -/
def entry (p : Program) (s : SystemState) (r : RuntimeTable) (dt : Float) : ScanContext :=
  p.prepare (.startScan s r dt)

theorem entry_edgeTags (p : Program) (s : SystemState) (r : RuntimeTable) (dt : Float) :
    (p.entry s r dt).edgeTags = p.edgeTags := by
  have hprepare := (prepare_becomes p (.startScan s r dt)).frame.2.2.1
  rw [entry, hprepare]
  change (∅ : EdgeTags) ∪ p.edgeTags = p.edgeTags
  ext name
  simp [Std.ExtTreeMap.getElem?_union]

/-- The first rung reads a tag as committed, unless it is a status or a fault tag. -/
theorem entry_tag? {name : String} (h : ∀ t, p.Refreshes t → t.name ≠ name) :
    (p.entry s r dt).tag? name = s.tag? name := by
  have hfault : ∀ f : Fault, f.tagName ≠ name := fun f => h f.tag (.inl ⟨f, rfl⟩)
  rw [entry, (prepare_becomes p _).tag?_eq hfault h]
  exact ScanContext.tag?_startScan s r dt name

theorem entry_memory? (key : String) :
    (p.entry s r dt).memory? key = if key = dtKey then some (.real dt) else s.memory? key := by
  rw [entry, (prepare_becomes p _).memory?_eq not_false]
  exact ScanContext.memory?_startScan s r dt key

section Reached

variable {ctx : ScanContext} (h : (p.entry s r dt).Reaches (· ∈ p.instructions) ctx)

include h

/-- Every context of a scan has the committed state and the watched tags of the program. -/
theorem frame_of_reaches : ctx.state = s ∧ ctx.edgeTags = p.edgeTags := by
  have hstate := h.eq_of_step ScanContext.state fun hstep => hstep.frame.1
  have hedgeTags := h.eq_of_step ScanContext.edgeTags fun hstep => hstep.frame.2
  exact ⟨hstate.trans (prepare_becomes p _).frame.1, hedgeTags.trans (entry_edgeTags p s r dt)⟩

/-- At every point of a scan, what the program does not write reads as committed. -/
theorem tag?_of_reaches {name : String} (hname : ¬ p.Writes name) :
    ctx.tag? name = s.tag? name := by
  have hfault : ∀ f : Fault, f.tagName ≠ name := by
    intro f heq
    exact hname (.fault f heq)
  have htargets : ∀ i ∈ p.instructions, ∀ t, i.Targets t → t.name ≠ name := by
    intro i hi t ht heq
    exact hname (.target i t hi ht heq)
  have hrefresh : ∀ t, p.Refreshes t → t.name ≠ name := by
    rintro t (⟨f, rfl⟩ | ⟨hstatus, ht⟩) heq
    · exact hfault f heq
    · exact hname (.status t hstatus ht heq)
  rw [h.eq_of_step (ScanContext.tag? · name) fun hstep => hstep.tag?_eq hfault htargets]
  exact entry_tag? hrefresh

/-- At every point of a scan, a memory cell that no instruction keeps is as committed. -/
theorem memory?_of_reaches {key : String} (hdt : key ≠ dtKey)
    (hkeeps : ∀ i ∈ p.instructions, ¬ i.Keeps key) : ctx.memory? key = s.memory? key := by
  rw [h.eq_of_step (ScanContext.memory? · key) fun hstep => hstep.memory?_eq hkeeps,
    entry_memory?, if_neg hdt]

end Reached

/-- A scan that succeeds commits a context that its first rung leads to. -/
theorem reaches_of_scan (h : (p.scan s r dt).next = .ok next) :
    ∃ last, (p.entry s r dt).Reaches (· ∈ p.instructions) last ∧ next = last.commit dt := by
  have hreaches := (p.evaluate_traced (.startScan s r dt)).reaches
  refine ⟨_, hreaches, ?_⟩
  exact Outcome.eq_commit_of_finish h

/-- A scan writes only the tags and keeps only the memory keys that the program names. -/
theorem scan_frame (h : p.Accepted) (hscan : (p.scan s r dt).next = .ok next) :
    (∀ name, ¬ p.Writes name → next.tag? name = s.tag? name) ∧
      ∀ key, ¬ p.KeepsKey key → next.memory? key = s.memory? key := by
  obtain ⟨last, hreaches, rfl⟩ := reaches_of_scan hscan
  constructor
  · intro name hname
    rw [ScanContext.tag?_commit]
    exact tag?_of_reaches hreaches hname
  · intro key hkey
    have hdt : key ≠ dtKey := fun heq => hkey (.dt heq)
    have hkeeps : ∀ i ∈ p.instructions, ¬ i.Keeps key := fun i hi hk => hkey (.kept i hi hk)
    have hedge : ∀ name ∈ last.edgeTags, key ≠ prevKey name := by
      intro name hname heq
      rw [(frame_of_reaches hreaches).2] at hname
      obtain ⟨t, ht, rfl⟩ := watches_of_mem_edgeTags h hname
      exact hkey (.level t ht heq)
    rw [ScanContext.memory?_commit last dt hdt hedge]
    exact memory?_of_reaches hreaches hdt hkeeps

end Program

/-! A program with an edge, a coil, a timer and a target that a pointer chooses in a sparse block. -/

namespace Sample

def start : Tag := .ofType .bool "Start"

def lamp : Tag := .ofType .bool "Lamp"

def done : Tag := .ofType .bool "Done"

def count : Tag := .ofType .int "Count"

def pointer : Tag := .ofType .int "Pointer"

def cells : Block := ⟨"DS", .int, 1, 6, some [(1, 2), (5, 6)], none, true, .int 0⟩

def coil : Operation := .out ⟨.tag lamp⟩

def store : Operation :=
  .copy ⟨.value (.literal (.int 7)), .tag (.indirect cells (.tag pointer)), none⟩

def timer : Operation := .onDelay ⟨done, count, .literal (.int 10), .sec, none⟩

def rung : Rung where
  conditions := [.risingEdge start]
  items := [coil, store, timer].map fun op => .instruction (.ofOperation op)

def program : Program := (Draft.empty.withRung rung).assemble

def state : SystemState where
  scanId := 4
  timestamp := 0.5
  tags := .ofEntries [("Start", .bool true), ("Pointer", .int 5), ("DS3", .int 9)]
  memory := .ofEntries [(fracKey "Count", .real 0.0)]

theorem accepted : program.Accepted := ⟨Draft.empty.withRung rung, rfl⟩

theorem exists_next : ∃ next, (program.scan state ∅ 0.1).next = .ok next := ⟨_, rfl⟩

theorem mem_instructions {i : Instruction} (h : i ∈ program.instructions) :
    i = .single 0 false coil ∨ i = .single 1 false store ∨ i = .single 2 false timer := by
  have hlist : program.instructions =
    [.single 0 false coil, .single 1 false store, .single 2 false timer] := rfl
  simpa [hlist] using h

theorem mem_cells {a : Int} (h : cells.contains a = true) : a = 1 ∨ a = 2 ∨ a = 5 ∨ a = 6 := by
  simp [Block.contains, cells] at h
  omega

/-- The address 3 lies between the windows. -/
theorem not_writes : ¬ program.Writes "DS3" := by
  rintro (⟨t, -, ht, heq⟩ | ⟨f, heq⟩ | ⟨i, t, hi, ht, heq⟩)
  · revert t
    decide
  · cases f <;> exact absurd heq (by decide)
  · obtain rfl | rfl | rfl := mem_instructions hi
    · obtain rfl : t = lamp := ht
      exact absurd heq (by decide)
    · obtain ⟨a, ha, rfl⟩ : ∃ a, cells.contains a = true ∧ t = cells.cell a := ht
      obtain rfl | rfl | rfl | rfl := mem_cells ha <;> exact absurd heq (by decide)
    · obtain rfl | rfl : t = done ∨ t = count := ht <;> exact absurd heq (by decide)

theorem not_keepsKey : ¬ program.KeepsKey (fracKey "Pointer") := by
  rintro (heq | ⟨t, -, heq⟩ | ⟨i, hi, hkey⟩)
  · exact absurd heq (by decide)
  · exact prevKey_ne_fracKey t.name "Pointer" heq.symm
  · obtain rfl | rfl | rfl := mem_instructions hi
    · exact hkey
    · exact hkey
    · have heq : fracKey "Pointer" = fracKey "Count" := hkey
      exact absurd heq (by decide)

end Sample

/-- The pointer leads to DS5, and the cell between the windows stays as it is. -/
theorem Program.scan_frame_sample :
    ∃ next, (Sample.program.scan Sample.state ∅ 0.1).next = .ok next ∧
      next.tag? "DS3" = Sample.state.tag? "DS3" ∧
      next.memory? (fracKey "Pointer") = Sample.state.memory? (fracKey "Pointer") := by
  obtain ⟨next, hscan⟩ := Sample.exists_next
  have hframe := scan_frame Sample.accepted hscan
  exact ⟨next, hscan, hframe.1 "DS3" Sample.not_writes, hframe.2 _ Sample.not_keepsKey⟩

end LadderLogic
