import LadderLogic.Proofs.Program.Watched
import LadderLogic.Proofs.Scan.Change
import LadderLogic.Proofs.Scan.Keys
import LadderLogic.Proofs.Scan.Moments

/-!
The two ends of a scan: what a context holds before the first rung, and what a commit keeps of the
last one.
-/

set_option autoImplicit false

namespace LadderLogic

namespace SystemTag

/-- The tags that tell how the scan stands. -/
def status : List Tag := [alwaysOn, firstScan, scanCounter]

end SystemTag

namespace Program

/-- The tags that are written before the first rung. -/
def Refreshes (p : Program) (t : Tag) : Prop :=
  (∃ f : Fault, t = f.tag) ∨ (p.statusTags = true ∧ t ∈ SystemTag.status)

/-- What is allowed before the first rung: sound writes to status and fault tags. -/
abbrev MayRefresh (p : Program) : Change → Prop := Permit p.Refreshes (fun _ => False) True True

theorem clearFaults_becomes {p : Program} {ctx mid : ScanContext}
    (h : ctx.Becomes p.MayRefresh mid) : ctx.Becomes p.MayRefresh mid.clearFaults := by
  have hfault : ∀ f : Fault, MayDrive p.Refreshes True f.tag :=
    fun f => ⟨.inl ⟨f, rfl⟩, fun _ => rfl⟩
  exact ((h.drive (hfault .outOfRange) false).drive (hfault .divisionError) false).drive
    (hfault .addressError) false

theorem refreshStatus_becomes {p : Program} (hstatus : p.statusTags = true) (ctx : ScanContext) :
    ctx.Becomes p.MayRefresh (refreshStatus ctx) := by
  have hmem : ∀ t ∈ SystemTag.status, p.Refreshes t := fun t ht => .inr ⟨hstatus, ht⟩
  have hon : ctx.Becomes p.MayRefresh (ctx.write SystemTag.alwaysOn (.bool true)) :=
    ScanContext.Becomes.drive .refl ⟨hmem _ (by decide), fun _ => rfl⟩ true
  have hfirst := hon.drive (t := SystemTag.firstScan) ⟨hmem _ (by decide), fun _ => rfl⟩
    (ctx.state.scanId == 0)
  exact hfirst.store (t := SystemTag.scanCounter) (hmem _ (by decide)) (Integer.residue_dint_mem _)

/-- A context is readied by writes to status and fault tags alone. -/
theorem prepare_becomes (p : Program) (ctx : ScanContext) :
    (ctx.watch p.edgeTags).Becomes p.MayRefresh (p.prepare ctx) := by
  unfold prepare
  split_ifs with hstatus
  · exact clearFaults_becomes (refreshStatus_becomes hstatus _)
  · exact clearFaults_becomes .refl

end Program

namespace ScanContext

theorem tag?_startScan (s : SystemState) (r : RuntimeTable) (dt : Float) (name : String) :
    (startScan s r dt).tag? name = s.tag? name := by
  simp [startScan, start, setDt, setMemory, tag?, SystemState.tag?]

theorem memory?_startScan (s : SystemState) (r : RuntimeTable) (dt : Float) (key : String) :
    (startScan s r dt).memory? key = if key = dtKey then some (.real dt) else s.memory? key := by
  have hstart : (start s r).memory? key = s.memory? key := by
    simp [start, memory?, SystemState.memory?]
  rw [startScan, setDt, memory?_setMemory, hstart]

variable {ctx : ScanContext}

/-- A commit keeps every tag as it reads. -/
theorem tag?_commit (ctx : ScanContext) (dt : Float) (name : String) :
    (ctx.commit dt).tag? name = ctx.tag? name := by
  unfold commit currentTags SystemState.tag? tag?
  exact Std.ExtTreeMap.getElem?_union

theorem mem_edgeMemory {entry : String × Value} :
    entry ∈ ctx.edgeMemory ↔ ∃ name unwritten, ctx.edgeTags[name]? = some unwritten ∧
      entry = (prevKey name, .bool (ctx.levelOf name unwritten)) := by
  simp only [edgeMemory, List.mem_map, Prod.exists, Std.ExtTreeMap.mem_toList_iff_getElem?_eq_some,
    eq_comm]

/-- Of the memory that is about no watched tag, a commit sets the time step and keeps the rest. -/
theorem memory?_commit_of_unwatched (ctx : ScanContext) (dt : Float) {key : String}
    (hedge : ∀ name ∈ ctx.edgeTags, key ≠ prevKey name) :
    (ctx.commit dt).memory? key = if key = dtKey then some (.real dt) else ctx.memory? key := by
  have hnot : ∀ entry ∈ ctx.edgeMemory, entry.1 ≠ key := by
    intro entry hentry
    obtain ⟨name, unwritten, hname, rfl⟩ := mem_edgeMemory.mp hentry
    exact (hedge name (Std.ExtTreeMap.mem_iff_isSome_getElem?.mpr (by simp [hname]))).symm
  have hkeys : key ∉ ctx.edgeMemory.map Prod.fst := by
    intro hmem
    obtain ⟨entry, hentry, heq⟩ := List.mem_map.mp hmem
    exact hnot entry hentry heq
  unfold commit SystemState.memory? memory?
  rw [getElem?_insertMany_of_agree (v := .bool false) fun entry h heq => absurd heq (hnot entry h),
    if_neg hkeys, getElem?_insert_eq, Std.ExtTreeMap.getElem?_union]

/-- A commit keeps the memory, but for the time step and the levels of watched tags. -/
theorem memory?_commit (ctx : ScanContext) (dt : Float) {key : String} (hdt : key ≠ dtKey)
    (hedge : ∀ name ∈ ctx.edgeTags, key ≠ prevKey name) :
    (ctx.commit dt).memory? key = ctx.memory? key :=
  (memory?_commit_of_unwatched ctx dt hedge).trans (if_neg hdt)

/-- No watched tag takes the cell of the time step. -/
theorem memory?_commit_dtKey (ctx : ScanContext) (dt : Float) :
    (ctx.commit dt).memory? dtKey = some (.real dt) :=
  (memory?_commit_of_unwatched ctx dt fun name _ => (prevKey_ne_dtKey name).symm).trans (if_pos rfl)

/-- A commit records the level of a watched tag as it reads. -/
theorem memory?_commit_prevKey (dt : Float) {name : String} {unwritten : Bool}
    (h : ctx.edgeTags[name]? = some unwritten) :
    (ctx.commit dt).memory? (prevKey name) = some (.bool (ctx.levelOf name unwritten)) := by
  have hagree : ∀ entry ∈ ctx.edgeMemory, entry.1 = prevKey name →
      entry.2 = .bool (ctx.levelOf name unwritten) := by
    intro entry hentry hkey
    obtain ⟨other, level, hother, rfl⟩ := mem_edgeMemory.mp hentry
    obtain rfl := prevKey_injective hkey
    obtain rfl : level = unwritten := Option.some.inj (hother.symm.trans h)
    rfl
  have hmem : prevKey name ∈ ctx.edgeMemory.map Prod.fst :=
    List.mem_map.mpr ⟨_, mem_edgeMemory.mpr ⟨name, unwritten, h, rfl⟩, rfl⟩
  unfold commit SystemState.memory?
  rw [getElem?_insertMany_of_agree hagree, if_pos hmem]

end ScanContext

end LadderLogic
