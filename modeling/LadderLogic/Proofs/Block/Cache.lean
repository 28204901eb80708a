import LadderLogic.Proofs.Block.Addressing
import LadderLogic.Proofs.Block.Windows

/-!
The cells that a block and its copies remember together. A cell is remembered in the form it had for
the handle that asked for it first, so a look-up through another handle, or after an edit, gives the
default and the retentive flag of that first look-up. The name and the type are always right, because
no edit changes them, and nothing is stale if these two fields are set before the first look-up.
-/

set_option autoImplicit false

namespace LadderLogic

namespace Block

/-- What can be changed in a handle on a block after it has been made. -/
inductive Edit where
  | windows (windows : List (Int × Int))
  | direction (direction : Direction)
  | retentive (retentive : Bool)
  | initial (value : Value)

/-- The handle after an edit. Windows that are refused leave it as it was. -/
def edited (b : Block) : Edit → Block
  | .windows windows => (b.withWindows windows).toOption.getD b
  | .direction direction => b.withDirection direction
  | .retentive retentive => b.withRetentive retentive
  | .initial value => { b with initial := value }

/-- A way to ask a handle for cells. -/
inductive Look where
  | get (address : Int)
  | resolve (pointer : Option Int)
  | tags (addresses : List Int)

namespace Look

/-- The addresses whose cells are given, in order. -/
def addresses (b : Block) : Look → List Int
  | get address => if b.contains address then [address] else []
  | resolve pointer => (pointer.bind b.resolvePointer).toList
  | tags addresses => addresses

/-- The cells that are given, and what is remembered afterwards. -/
def run (cache : CellCache) (b : Block) : Look → List Tag × CellCache
  | get address => ((cache.get b address).1.toOption.toList, (cache.get b address).2)
  | resolve pointer => ((cache.resolve b pointer).1.toList, (cache.resolve b pointer).2)
  | tags addresses => cache.tags ⟨b, addresses, false⟩

end Look

/-- The handles on a block and its copies, and the cells that they remember together. -/
structure Family where
  handles : List Block
  cache : CellCache

/-- What happens to one of the handles, which are numbered as they are made. -/
inductive Event where
  | copy (handle : Nat)
  | edit (handle : Nat) (change : Edit)
  | look (handle : Nat) (look : Look)

namespace Family

def step (f : Family) : Event → Family
  | .copy i => { f with handles := f.handles ++ f.handles[i]?.toList }
  | .edit i change => { f with handles := f.handles.modify i (·.edited change) }
  | .look i look =>
    match f.handles[i]? with
    | some b => { f with cache := (look.run f.cache b).2 }
    | none => f

/-- The addresses that an event asks for, each with the handle as it is then. -/
def asks (f : Family) : Event → List (Int × Block)
  | .look i look => f.handles[i]?.toList.flatMap fun b => (look.addresses b).map (·, b)
  | _ => []

end Family

/-- What can become of a block that has just been made, with all that was asked for on the way. -/
inductive History (origin : Block) : List (Int × Block) → Family → Prop
  | start : History origin [] ⟨[origin], ∅⟩
  | next {asked : List (Int × Block)} {f : Family} (e : Event) :
    History origin asked f → History origin (asked ++ f.asks e) (f.step e)

end Block

namespace CellCache

variable {cache : CellCache} {b : Block}

theorem fetch_fst (cache : CellCache) (b : Block) (address : Int) :
    (cache.fetch b address).1 = (cache[address]?).getD (b.cell address) := by
  unfold fetch
  split <;> simp_all

theorem fetch_snd (cache : CellCache) (b : Block) (address other : Int) :
    (cache.fetch b address).2[other]? =
      (cache[other]?).or (if other = address then some (b.cell other) else none) := by
  unfold fetch
  split
  case h_1 tag hfound =>
    by_cases h : other = address
    · rw [h, hfound]
      rfl
    · simp [h]
  case h_2 hmissing =>
    rw [Std.ExtTreeMap.getElem?_insert]
    by_cases h : other = address
    · simp [h, hmissing]
    · simp [h, Ne.symm h]

/-- What has been remembered meanwhile through the same handle is what the handle gives afresh. -/
theorem getD_fetch_snd (cache : CellCache) (b : Block) (address other : Int) :
    ((cache.fetch b address).2[other]?).getD (b.cell other) =
      (cache[other]?).getD (b.cell other) := by
  rw [fetch_snd]
  cases cache[other]? with
  | some tag => rfl
  | none => split_ifs <;> rfl

/-- Asking for one cell after the other gives what was remembered before, or else fresh cells, also
where an address comes twice. -/
theorem fetchAll_fst (cache : CellCache) (b : Block) (addresses : List Int) :
    (cache.fetchAll b addresses).1 = addresses.map fun a => (cache[a]?).getD (b.cell a) := by
  induction addresses generalizing cache with
  | nil => rfl
  | cons a addresses ih =>
    change (cache.fetch b a).1 :: ((cache.fetch b a).2.fetchAll b addresses).1 = _
    rw [ih, fetch_fst, List.map_cons]
    simp only [getD_fetch_snd]

theorem fetchAll_snd (cache : CellCache) (b : Block) (addresses : List Int) (other : Int) :
    (cache.fetchAll b addresses).2[other]? =
      (cache[other]?).or (((addresses.map (·, b)).lookup other).map (·.cell other)) := by
  induction addresses generalizing cache with
  | nil => simp [fetchAll]
  | cons a addresses ih =>
    change ((cache.fetch b a).2.fetchAll b addresses).2[other]? = _
    rw [ih, fetch_snd, Option.or_assoc, List.map_cons, List.lookup_cons]
    by_cases h : other = a
    · simp [h]
    · simp [h, beq_eq_false_iff_ne.mpr h]

end CellCache

theorem Block.Look.run_eq (cache : CellCache) (b : Block) (look : Look) :
    look.run cache b = cache.fetchAll b (look.addresses b) := by
  cases look with
  | get address =>
    unfold run addresses CellCache.get
    dsimp only
    split_ifs <;> rfl
  | resolve pointer =>
    unfold run addresses CellCache.resolve
    dsimp only
    cases pointer.bind b.resolvePointer <;> rfl
  | tags addresses => rfl

/-- While what is remembered agrees with a handle, look-ups through it give fresh cells and leave it
so. Hence a scan can do without remembering if all blocks are finished before it. -/
theorem Block.Look.run_of_agrees {cache : CellCache} {b : Block} (h : cache.Agrees b) (look : Look) :
    (look.run cache b).1 = (look.addresses b).map b.cell ∧ (look.run cache b).2.Agrees b := by
  rw [run_eq]
  constructor
  · rw [CellCache.fetchAll_fst]
    apply List.map_congr_left
    intro a _
    cases hcached : cache[a]? with
    | none => rfl
    | some tag => exact h a tag hcached
  · intro a tag hafter
    rw [CellCache.fetchAll_snd, Option.or_eq_some_iff] at hafter
    rcases hafter with hbefore | ⟨-, hfresh⟩
    · exact h a tag hbefore
    · obtain ⟨asker, hasker, rfl⟩ := Option.map_eq_some_iff.mp hfresh
      obtain ⟨before, after, hsplit, -⟩ := List.lookup_eq_some_iff.mp hasker
      have hmem : (a, asker) ∈ (look.addresses b).map (·, b) := by simp [hsplit]
      obtain ⟨_, _, heq⟩ := List.mem_map.mp hmem
      rw [(Prod.mk.inj heq).2]

namespace Block

variable {origin b : Block} {asked : List (Int × Block)} {f : Family}

/-- Name and type are those of the block that was made. -/
structure Descends (origin b : Block) : Prop where
  name : b.name = origin.name
  type : b.type = origin.type

theorem Descends.edited (h : Descends origin b) (change : Edit) :
    Descends origin (b.edited change) := by
  cases change with
  | windows windows =>
    unfold Block.edited
    dsimp only
    cases hresult : b.withWindows windows with
    | error e => exact h
    | ok c =>
      obtain ⟨-, rfl⟩ := withWindows_eq_ok_iff.mp hresult
      exact ⟨h.name, h.type⟩
  | direction direction => exact ⟨h.name, h.type⟩
  | retentive retentive => exact ⟨h.name, h.type⟩
  | initial value => exact ⟨h.name, h.type⟩

theorem Family.handles_look (f : Family) (i : Nat) (look : Look) :
    (f.step (.look i look)).handles = f.handles := by
  unfold step
  dsimp only
  split <;> rfl

theorem History.descends (h : History origin asked f) : ∀ b ∈ f.handles, Descends origin b := by
  induction h with
  | start =>
    intro b hb
    obtain rfl := List.mem_singleton.mp hb
    exact ⟨rfl, rfl⟩
  | @next asked f e _ ih =>
    intro b hb
    cases e with
    | copy i =>
      rcases List.mem_append.mp hb with hb | hb
      · exact ih b hb
      · exact ih b (List.mem_of_getElem? (Option.mem_toList.mp hb))
    | edit i change =>
      obtain ⟨j, hj⟩ := List.mem_iff_getElem?.mp hb
      change (f.handles.modify i _)[j]? = some b at hj
      rw [List.getElem?_modify, Option.map_eq_map, Option.map_eq_some_iff] at hj
      obtain ⟨c, hc, rfl⟩ := hj
      have hc := ih c (List.mem_of_getElem? hc)
      split_ifs
      · exact hc.edited change
      · exact hc
    | look i look =>
      rw [Family.handles_look] at hb
      exact ih b hb

/-- What an event adds to the cache are the cells that it asks for and that have not been asked for
before. -/
theorem Family.cache_step (f : Family) (e : Event) (a : Int) :
    (f.step e).cache[a]? = (f.cache[a]?).or (((f.asks e).lookup a).map (·.cell a)) := by
  cases e with
  | copy i => simp [step, asks]
  | edit i change => simp [step, asks]
  | look i look =>
    unfold step asks
    dsimp only
    cases hhandle : f.handles[i]? with
    | none => simp
    | some b =>
      dsimp only
      rw [Look.run_eq, CellCache.fetchAll_snd]
      simp

theorem Family.mem_handles_of_asks {f : Family} {e : Event} {p : Int × Block}
    (h : p ∈ f.asks e) : p.2 ∈ f.handles := by
  cases e with
  | copy i => cases h
  | edit i change => cases h
  | look i look =>
    obtain ⟨b, hb, hp⟩ := List.mem_flatMap.mp h
    obtain ⟨a, -, rfl⟩ := List.mem_map.mp hp
    exact List.mem_of_getElem? (Option.mem_toList.mp hb)

theorem History.asked_descends (h : History origin asked f) :
    ∀ p ∈ asked, Descends origin p.2 := by
  induction h with
  | start => simp
  | @next asked f e hbefore ih =>
    intro p hp
    rcases List.mem_append.mp hp with hp | hp
    · exact ih p hp
    · exact hbefore.descends p.2 (Family.mem_handles_of_asks hp)

/-- The cache remembers for each address the cell of the handle that asked for it first. -/
theorem History.cache_eq (h : History origin asked f) (a : Int) :
    f.cache[a]? = (asked.lookup a).map (·.cell a) := by
  induction h with
  | start => rfl
  | @next asked f e _ ih =>
    rw [Family.cache_step, ih, List.lookup_append, Option.map_or]

/-- The handle that asked for an address first, as it was then, or the given one if none has. -/
def firstAsked (asked : List (Int × Block)) (b : Block) (a : Int) : Block := (asked.lookup a).getD b

theorem History.cell_firstAsked (h : History origin asked f) (hb : b ∈ f.handles) (a : Int) :
    (firstAsked asked b a).cell a =
      { b.cell a with
        initial := (firstAsked asked b a).initial
        retentive := (firstAsked asked b a).retentive } := by
  unfold firstAsked
  cases hfirst : asked.lookup a with
  | none => rfl
  | some first =>
    obtain ⟨before, after, rfl, -⟩ := List.lookup_eq_some_iff.mp hfirst
    have hasker : Descends origin first := h.asked_descends (a, first) (by simp)
    have hhandle := h.descends b hb
    simp [cell, cellName, hasker.name, hasker.type, hhandle.name, hhandle.type]

/-- A look-up gives the name and the type of the handle that it goes through, but the default and the
retentive flag of the handle that asked for the cell first, as it was then. So nothing is stale for a
handle if and only if each remembered cell was first asked for under the default and the flag that
the handle has now. -/
theorem History.gives_first_asked (h : History origin asked f) (hb : b ∈ f.handles) :
    (∀ look : Look, (look.run f.cache b).1 = (look.addresses b).map fun a =>
        { b.cell a with
          initial := (firstAsked asked b a).initial
          retentive := (firstAsked asked b a).retentive }) ∧
      (f.cache.Agrees b ↔ ∀ a first, asked.lookup a = some first →
        first.initial = b.initial ∧ first.retentive = b.retentive) := by
  constructor
  · intro look
    rw [Look.run_eq, CellCache.fetchAll_fst]
    apply List.map_congr_left
    intro a _
    rw [h.cache_eq, ← h.cell_firstAsked hb, firstAsked]
    cases asked.lookup a <;> rfl
  · constructor
    · intro hagrees a first hfirst
      have hcache : f.cache[a]? = some (first.cell a) := by rw [h.cache_eq, hfirst]; rfl
      have hcell := hagrees a _ hcache
      exact ⟨congrArg Tag.initial hcell, congrArg Tag.retentive hcell⟩
    · intro hsame a tag hcache
      rw [h.cache_eq, Option.map_eq_some_iff] at hcache
      obtain ⟨first, hfirst, rfl⟩ := hcache
      have hcell := h.cell_firstAsked hb a
      obtain ⟨hinitial, hretentive⟩ := hsame a first hfirst
      simp only [firstAsked, hfirst, Option.getD_some, hinitial, hretentive] at hcell
      exact hcell

end Block

namespace Sample

def cachedRow : Block := ⟨"DS", .int, 1, 10, none, none, true, .int 0⟩

def editedRow : Block := { cachedRow with initial := .int 7 }

def cachedFamily : Block.Family := (⟨[cachedRow], ∅⟩ : Block.Family).step (.look 0 (.get 4))

/-- A cell of the row has been asked for, and then the default is changed. -/
def editedFamily : Block.Family := cachedFamily.step (.edit 0 (.initial (.int 7)))

theorem history_editedFamily : Block.History cachedRow [(4, cachedRow)] editedFamily := by
  have hstart : Block.History cachedRow [] ⟨[cachedRow], ∅⟩ := .start
  have hcached : Block.History cachedRow [(4, cachedRow)] cachedFamily :=
    .next (.look 0 (.get 4)) hstart
  exact .next (.edit 0 (.initial (.int 7))) hcached

end Sample

theorem Block.History.gives_first_asked_sample :
    Block.History Sample.cachedRow [(4, Sample.cachedRow)] Sample.editedFamily ∧
      Sample.editedRow ∈ Sample.editedFamily.handles ∧
      ((Look.tags [5, 4]).run Sample.editedFamily.cache Sample.editedRow).1 =
        [⟨"DS5", .int, .int 7, true⟩, ⟨"DS4", .int, .int 0, true⟩] := by
  have hmem : Sample.editedRow ∈ Sample.editedFamily.handles := List.mem_singleton_self _
  have hgives := gives_first_asked Sample.history_editedFamily hmem
  exact ⟨Sample.history_editedFamily, hmem, hgives.1 (.tags [5, 4])⟩

/-- The cell keeps the default it had before the edit. -/
theorem Block.exists_stale_cell :
    Block.make "DS" .int 1 10 = .ok Sample.cachedRow ∧
      Block.History Sample.cachedRow [(4, Sample.cachedRow)] Sample.editedFamily ∧
      Sample.editedFamily.handles = [Sample.editedRow] ∧
      ((Look.get 4).run Sample.editedFamily.cache Sample.editedRow).1 =
        [⟨"DS4", .int, .int 0, true⟩] ∧
      Sample.editedRow.cell 4 = ⟨"DS4", .int, .int 7, true⟩ :=
  ⟨rfl, Sample.history_editedFamily, rfl, rfl, rfl⟩

end LadderLogic
