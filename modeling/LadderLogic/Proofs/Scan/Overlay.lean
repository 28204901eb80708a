import LadderLogic.Proofs.Scan.Commit

/-!
A running scan keeps its writes in an overlay over the committed state. To whoever reads and writes
through it, it behaves as a pair of plain maps that start as those of the state and are changed in
place, and the commit is what these maps have become.
-/

set_option autoImplicit false

namespace LadderLogic

open Std

/-- Entries that are collected first and merged then might as well be inserted one by one. -/
theorem union_ofList {β : Type} (m : ExtTreeMap String β) (entries : List (String × β)) :
    m ∪ .ofList entries = entries.foldl (fun m e => m.insert e.1 e.2) m := by
  rw [← ExtTreeMap.insertMany_list_eq_foldl]
  apply ExtTreeMap.ext_getElem?
  intro key
  rw [ExtTreeMap.getElem?_union, ExtTreeMap.ofList_eq_insertMany_empty,
    ExtTreeMap.getElem?_insertMany_list, ExtTreeMap.getElem?_insertMany_list]
  simp

/-- What a scan can change in its context. -/
inductive Update where
  | setTag (name : String) (value : Value)
  | setTags (entries : List (String × Value))
  | write (tag : Tag) (value : Value)
  | setMemory (key : String) (value : Value)
  | setDt (dt : Float)
  | raise (fault : Fault)
  | clearFaults
  | watch (mentions : List (String × Bool))

/-- What a scan can read from its context. -/
inductive Query where
  | lookup (name : String)
  | getTag (name : String) (fallback : Value)
  | read (tag : Tag)
  | readBool (tag : Tag)
  | readInt (tag : Tag)
  | getMemory (key : String) (fallback : Value)
  | memoryReal (key : String)
  | memoryBool (key : String)
  | faultActive (fault : Fault)

inductive Answer where
  | optional (v : Option Value)
  | value (v : Value)
  | bool (b : Bool)
  | int (i : Int)
  | real (x : Float)

inductive Access where
  | update (u : Update)
  | query (q : Query)

/-- Something that takes updates and answers queries. -/
structure Store (σ : Type) where
  update : Update → σ → σ
  answer : Query → σ → Answer

/-- The answers of a store to a sequence of accesses, in order, and what it is in the end. -/
def Store.run {σ : Type} (store : Store σ) : List Access → σ → List Answer × σ
  | [], s => ([], s)
  | .update u :: rest, s => store.run rest (store.update u s)
  | .query q :: rest, s =>
    let (answers, last) := store.run rest s
    (store.answer q s :: answers, last)

namespace ScanContext

def update : Update → ScanContext → ScanContext
  | .setTag name v, ctx => ctx.setTag name v
  | .setTags entries, ctx => ctx.setTags (.ofEntries entries)
  | .write t v, ctx => ctx.write t v
  | .setMemory key v, ctx => ctx.setMemory key v
  | .setDt dt, ctx => ctx.setDt dt
  | .raise fault, ctx => ctx.raise fault
  | .clearFaults, ctx => ctx.clearFaults
  | .watch mentions, ctx => ctx.watch (.ofMentions mentions)

def answer : Query → ScanContext → Answer
  | .lookup name, ctx => .optional (ctx.tag? name)
  | .getTag name fallback, ctx => .value (ctx.getTag name fallback)
  | .read t, ctx => .value (ctx.read t)
  | .readBool t, ctx => .bool (ctx.readBool t)
  | .readInt t, ctx => .int (ctx.readInt t)
  | .getMemory key fallback, ctx => .value (ctx.getMemory key fallback)
  | .memoryReal key, ctx => .real (ctx.memoryReal key)
  | .memoryBool key, ctx => .bool (ctx.memoryBool key)
  | .faultActive fault, ctx => .bool (ctx.faultActive fault)

/-- The running scan as it is: writes to the overlay, reads through both layers. -/
def overlay : Store ScanContext := ⟨update, answer⟩

end ScanContext

/-- Plain maps of tags and of memory, and of the tags watched for edges. -/
structure Maps where
  tags : ValueMap
  memory : ValueMap
  watched : EdgeTags

namespace Maps

/-- The maps of a state, with nothing watched. -/
def ofState (s : SystemState) : Maps := ⟨s.tags, s.memory, ∅⟩

def setTag (m : Maps) (name : String) (v : Value) : Maps := { m with tags := m.tags.insert name v }

def setMemory (m : Maps) (key : String) (v : Value) : Maps :=
  { m with memory := m.memory.insert key v }

def update : Update → Maps → Maps
  | .setTag name v, m => m.setTag name v
  | .setTags entries, m => entries.foldl (fun m e => m.setTag e.1 e.2) m
  | .write t v, m => m.setTag t.name v
  | .setMemory key v, m => m.setMemory key v
  | .setDt dt, m => m.setMemory dtKey (.real dt)
  | .raise fault, m => m.setTag fault.tagName (.bool true)
  | .clearFaults, m => Fault.all.foldl (fun m f => m.setTag f.tagName (.bool false)) m
  | .watch mentions, m =>
    { m with watched := mentions.foldl (fun w e => w.insert e.1 e.2) m.watched }

def answer : Query → Maps → Answer
  | .lookup name, m => .optional m.tags[name]?
  | .getTag name fallback, m => .value (m.tags[name]?.getD fallback)
  | .read t, m => .value (m.tags[t.name]?.getD t.initial)
  | .readBool t, m => .bool (m.tags[t.name]?.getD t.initial).isTruthy
  | .readInt t, m => .int ((m.tags[t.name]?.getD t.initial).toInt?.getD 0)
  | .getMemory key fallback, m => .value (m.memory[key]?.getD fallback)
  | .memoryReal key, m => .real ((m.memory[key]?.bind Value.toReal?).getD 0.0)
  | .memoryBool key, m => .bool ((m.memory[key]?.map Value.isTruthy).getD false)
  | .faultActive fault, m => .bool ((m.tags[fault.tagName]?.map Value.isTruthy).getD false)

def plain : Store Maps := ⟨update, answer⟩

/-- What is committed of the maps: the tags, and the memory with the time step and the level of
every watched tag. -/
structure CommitsTo (m : Maps) (s : SystemState) (dt : Float) (next : SystemState) : Prop where
  tags : next.tags = m.tags
  step : next.memory[dtKey]? = some (.real dt)
  level : ∀ name unwritten, m.watched[name]? = some unwritten →
    next.memory[prevKey name]? = some (.bool ((m.tags[name]?.map Value.isTruthy).getD unwritten))
  memory : ∀ key, key ≠ dtKey → (∀ name ∈ m.watched, key ≠ prevKey name) →
    next.memory[key]? = m.memory[key]?
  scanId : next.scanId = s.scanId + 1
  timestamp : next.timestamp = s.timestamp + dt

end Maps

/-- A context over the state reads as the maps do. -/
structure ScanContext.ReadsAs (ctx : ScanContext) (s : SystemState) (m : Maps) : Prop where
  tags : ∀ name, ctx.tag? name = m.tags[name]?
  memory : ∀ key, ctx.memory? key = m.memory[key]?
  watched : ctx.edgeTags = m.watched
  state : ctx.state = s

namespace ScanContext

variable {ctx : ScanContext} {s : SystemState} {m : Maps}

theorem setTags_ofEntries (ctx : ScanContext) (entries : List (String × Value)) :
    ctx.setTags (.ofEntries entries) = entries.foldl (fun c e => c.setTag e.1 e.2) ctx := by
  unfold setTags ValueMap.ofEntries
  rw [union_ofList]
  induction entries generalizing ctx with
  | nil => rfl
  | cons e entries ih => exact ih (ctx.setTag e.1 e.2)

namespace ReadsAs

theorem start (s : SystemState) (runtime : RuntimeTable) :
    (start s runtime).ReadsAs s (.ofState s) where
  tags := by simp [ScanContext.start, tag?, Maps.ofState]
  memory := by simp [ScanContext.start, memory?, Maps.ofState]
  watched := rfl
  state := rfl

theorem setTag (h : ctx.ReadsAs s m) (name : String) (v : Value) :
    (ctx.setTag name v).ReadsAs s (m.setTag name v) where
  tags other := by rw [tag?_setTag, h.tags, Maps.setTag, getElem?_insert_eq]
  memory := h.memory
  watched := h.watched
  state := h.state

theorem setMemory (h : ctx.ReadsAs s m) (key : String) (v : Value) :
    (ctx.setMemory key v).ReadsAs s (m.setMemory key v) where
  tags := h.tags
  memory other := by rw [memory?_setMemory, h.memory, Maps.setMemory, getElem?_insert_eq]
  watched := h.watched
  state := h.state

theorem foldl_setTag {α : Type} (name : α → String) (value : α → Value) (items : List α)
    (h : ctx.ReadsAs s m) :
    (items.foldl (fun c x => c.setTag (name x) (value x)) ctx).ReadsAs s
      (items.foldl (fun m x => m.setTag (name x) (value x)) m) := by
  induction items generalizing ctx m with
  | nil => exact h
  | cons x items ih => exact ih (h.setTag (name x) (value x))

/-- An update changes the context as it changes the maps. -/
theorem update (h : ctx.ReadsAs s m) (u : Update) :
    (ScanContext.update u ctx).ReadsAs s (Maps.update u m) := by
  cases u with
  | setTag name v => exact h.setTag name v
  | setTags entries =>
    show (ctx.setTags (.ofEntries entries)).ReadsAs s _
    rw [setTags_ofEntries]
    exact h.foldl_setTag Prod.fst Prod.snd entries
  | write t v => exact h.setTag t.name v
  | setMemory key v => exact h.setMemory key v
  | setDt dt => exact h.setMemory dtKey (.real dt)
  | raise fault =>
    have hreport : (ctx.report (.faultRaised ctx.state.scanId fault)).ReadsAs s m :=
      ⟨h.tags, h.memory, h.watched, h.state⟩
    exact hreport.setTag fault.tagName (.bool true)
  | clearFaults => exact h.foldl_setTag Fault.tagName (fun _ => .bool false) Fault.all
  | watch mentions =>
    refine ⟨h.tags, h.memory, ?_, h.state⟩
    show ctx.edgeTags ∪ .ofList mentions = _
    rw [union_ofList, h.watched]
    rfl

/-- Every query is answered as by the maps. -/
theorem answer (h : ctx.ReadsAs s m) (q : Query) :
    ScanContext.answer q ctx = Maps.answer q m := by
  cases q <;>
    simp only [ScanContext.answer, Maps.answer, getTag, read, readBool, readInt, getMemory,
      memoryReal, memoryBool, faultActive, h.tags, h.memory]

theorem run (h : ctx.ReadsAs s m) (accesses : List Access) :
    (overlay.run accesses ctx).1 = (Maps.plain.run accesses m).1 ∧
      (overlay.run accesses ctx).2.ReadsAs s (Maps.plain.run accesses m).2 := by
  induction accesses generalizing ctx m with
  | nil => exact ⟨rfl, h⟩
  | cons access accesses ih =>
    cases access with
    | update u => exact ih (h.update u)
    | query q =>
      obtain ⟨hanswers, hlast⟩ := ih h
      refine ⟨?_, hlast⟩
      show ScanContext.answer q ctx :: _ = Maps.answer q m :: _
      rw [h.answer, hanswers]

theorem commitsTo (h : ctx.ReadsAs s m) (dt : Float) : m.CommitsTo s dt (ctx.commit dt) where
  tags := by
    apply ExtTreeMap.ext_getElem?
    intro name
    exact (tag?_commit ctx dt name).trans (h.tags name)
  step := memory?_commit_dtKey ctx dt
  level name unwritten hname := by
    rw [← h.tags, ← levelOf]
    exact memory?_commit_prevKey dt (h.watched ▸ hname)
  memory key hdt hkey :=
    (memory?_commit ctx dt hdt (h.watched ▸ hkey)).trans (h.memory key)
  scanId := congrArg (fun s : SystemState => s.scanId + 1) h.state
  timestamp := congrArg (fun s : SystemState => s.timestamp + dt) h.state

end ReadsAs

/-- Every access sequence is answered as by plain maps, which the commit keeps. The state itself
stays, and a context on the next one reads the tags as they were read last. -/
theorem overlay_transparent (s : SystemState) (runtime : RuntimeTable) (accesses : List Access) :
    let scan := overlay.run accesses (start s runtime)
    let maps := Maps.plain.run accesses (.ofState s)
    scan.1 = maps.1 ∧ scan.2.state = s ∧
      ∀ dt, maps.2.CommitsTo s dt (scan.2.commit dt) ∧
        ∀ table, (∀ name, (start (scan.2.commit dt) table).tag? name = scan.2.tag? name) ∧
          ∀ t, (start (scan.2.commit dt) table).read t = scan.2.read t := by
  intro scan maps
  obtain ⟨hanswers, hlast⟩ := (ReadsAs.start s runtime).run accesses
  refine ⟨hanswers, hlast.state, ?_⟩
  intro dt
  refine ⟨hlast.commitsTo dt, ?_⟩
  intro table
  have hfresh (name : String) :
      (start (scan.2.commit dt) table).tag? name = scan.2.tag? name :=
    ((ReadsAs.start (scan.2.commit dt) table).tags name).trans (tag?_commit scan.2 dt name)
  refine ⟨hfresh, ?_⟩
  intro t
  unfold read getTag
  rw [hfresh]

end ScanContext

end LadderLogic
