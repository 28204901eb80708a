import LadderLogic.Proofs.Block.Names

/-!
The windows of a block. They are checked one after the other in their order, each against the one
before it only; since no window is empty, that keeps any two of them apart. A list of windows is
accepted in any order, to the same block, and its ranges run through exactly the addresses that lie
in a window.
-/

set_option autoImplicit false

namespace LadderLogic

/-- The address lies in the window. -/
def InWindow (w : Int × Int) (a : Int) : Prop := w.1 ≤ a ∧ a ≤ w.2

/-- The windows have no address in common. -/
def Apart (v w : Int × Int) : Prop := ∀ a, ¬(InWindow v a ∧ InWindow w a)

theorem Apart.symm {v w : Int × Int} (h : Apart v w) : Apart w v :=
  fun a ha => h a ha.symm

section Order

theorem windowLe_iff (v w : Int × Int) :
    windowLe v w = true ↔ v.1 < w.1 ∨ v.1 = w.1 ∧ v.2 ≤ w.2 := by
  simp [windowLe]

instance windowLe_total : Std.Total fun v w => windowLe v w = true where
  total v w := by
    rw [windowLe_iff, windowLe_iff]
    omega

instance windowLe_trans : IsTrans (Int × Int) fun v w => windowLe v w = true where
  trans u v w huv hvw := by
    rw [windowLe_iff] at *
    omega

theorem windowLe_antisymm {v w : Int × Int} (hvw : windowLe v w = true)
    (hwv : windowLe w v = true) : v = w := by
  rw [windowLe_iff] at *
  exact Prod.ext (by omega) (by omega)

theorem insertWindow_eq (w : Int × Int) (ws : List (Int × Int)) :
    insertWindow w ws = ws.orderedInsert (fun v w => windowLe v w = true) w := by
  induction ws with
  | nil => rfl
  | cons v ws ih => rw [insertWindow, ih, List.orderedInsert_cons]

theorem sortWindows_eq (ws : List (Int × Int)) :
    sortWindows ws = ws.insertionSort fun v w => windowLe v w = true := by
  unfold sortWindows List.insertionSort
  rw [funext₂ insertWindow_eq]

theorem perm_sortWindows (ws : List (Int × Int)) : (sortWindows ws).Perm ws := by
  rw [sortWindows_eq]
  exact List.perm_insertionSort _ ws

theorem pairwise_sortWindows (ws : List (Int × Int)) :
    (sortWindows ws).Pairwise fun v w => windowLe v w = true := by
  rw [sortWindows_eq]
  exact List.pairwise_insertionSort _ ws

/-- The order of a list is forgotten by sorting it. -/
theorem sortWindows_congr {vs ws : List (Int × Int)} (h : vs.Perm ws) :
    sortWindows vs = sortWindows ws := by
  have hperm := (perm_sortWindows vs).trans (h.trans (perm_sortWindows ws).symm)
  exact hperm.eq_of_pairwise (fun _ _ _ _ => windowLe_antisymm) (pairwise_sortWindows vs)
    (pairwise_sortWindows ws)

end Order

namespace Block

variable {b c : Block} {ws windows : List (Int × Int)}

/-- The window has an address, and all of them lie in the block. -/
structure Encloses (b : Block) (w : Int × Int) : Prop where
  nonempty : w.1 ≤ w.2
  first_le : b.first ≤ w.1
  le_last : w.2 ≤ b.last

/-- What windows a block can be restricted to. -/
structure Admits (b : Block) (windows : List (Int × Int)) : Prop where
  encloses : ∀ w ∈ windows, b.Encloses w
  apart : windows.Pairwise Apart

/-- The list runs upwards through the addresses that exist from `low` to `high`, and their cells have
different names. -/
structure Enumerates (b : Block) (low high : Int) (addresses : List Int) : Prop where
  increasing : addresses.Pairwise (· < ·)
  mem_iff : ∀ a, a ∈ addresses ↔ low ≤ a ∧ a ≤ high ∧ b.contains a = true
  names : ((⟨b, addresses, false⟩ : BlockRange).tags.map Tag.name).Nodup

theorem windowFault?_eq_none_iff {previous : Option Int} {w : Int × Int} :
    b.windowFault? previous w = none ↔ b.Encloses w ∧ ∀ stop ∈ previous, stop < w.1 := by
  unfold windowFault?
  split_ifs with hempty hfirst hlast
  · exact iff_of_false nofun fun h => by have := h.1.nonempty; omega
  · exact iff_of_false nofun fun h => by have := h.1.first_le; omega
  · exact iff_of_false nofun fun h => by have := h.1.le_last; omega
  · have hencloses : b.Encloses w := ⟨by omega, by omega, by omega⟩
    cases previous with
    | none => simp [hencloses]
    | some stop => simp [hencloses]

/-- Each window begins behind all those before it, and not only behind the last one. -/
theorem windowsFault?_eq_none_iff {previous : Option Int} :
    b.windowsFault? previous ws = none ↔
      (∀ w ∈ ws, b.Encloses w) ∧ ws.Pairwise (fun v w => v.2 < w.1) ∧
        ∀ stop ∈ previous, ∀ w ∈ ws, stop < w.1 := by
  induction ws generalizing previous with
  | nil => simp [windowsFault?]
  | cons w ws ih =>
    have hsplit : b.windowsFault? previous (w :: ws) = none ↔
        b.windowFault? previous w = none ∧ b.windowsFault? (some w.2) ws = none := by
      rw [windowsFault?]
      cases b.windowFault? previous w <;> simp
    rw [hsplit, windowFault?_eq_none_iff, ih, List.forall_mem_cons, List.pairwise_cons]
    constructor
    · rintro ⟨⟨hw, hstop⟩, hws, hpairs, hbehind⟩
      refine ⟨⟨hw, hws⟩, ⟨hbehind w.2 rfl, hpairs⟩, fun stop hprevious => ?_⟩
      refine List.forall_mem_cons.mpr ⟨hstop stop hprevious, fun v hv => ?_⟩
      have hhead := hstop stop hprevious
      have hnonempty := hw.nonempty
      have hnext := hbehind w.2 rfl v hv
      omega
    · rintro ⟨⟨hw, hws⟩, ⟨hbehind, hpairs⟩, hprevious⟩
      refine ⟨⟨hw, fun stop hstop => hprevious stop hstop w List.mem_cons_self⟩, hws, hpairs, ?_⟩
      rintro _ ⟨⟩
      exact hbehind

/-- Of two windows in their order the first ends before the second begins if they are apart. -/
theorem apart_iff {v w : Int × Int} (hw : b.Encloses w) (hle : windowLe v w = true) :
    Apart v w ↔ v.2 < w.1 := by
  have hnonempty := hw.nonempty
  rw [windowLe_iff] at hle
  constructor
  · intro hapart
    by_contra hmeet
    exact hapart w.1 ⟨⟨by omega, by omega⟩, le_rfl, hnonempty⟩
  · rintro hlt a ⟨⟨-, hleft⟩, hright, -⟩
    omega

theorem admits_congr (h : ws.Perm windows) : b.Admits ws ↔ b.Admits windows := by
  have hapart : ws.Pairwise Apart ↔ windows.Pairwise Apart := h.pairwise_iff Apart.symm
  constructor
  · rintro ⟨hencloses, hpairs⟩
    exact ⟨fun w hw => hencloses w (h.mem_iff.mpr hw), hapart.mp hpairs⟩
  · rintro ⟨hencloses, hpairs⟩
    exact ⟨fun w hw => hencloses w (h.mem_iff.mp hw), hapart.mpr hpairs⟩

theorem windowsFault?_sorted (hsorted : ws.Pairwise fun v w => windowLe v w = true) :
    b.windowsFault? none ws = none ↔ b.Admits ws := by
  rw [windowsFault?_eq_none_iff]
  constructor
  · rintro ⟨hencloses, hpairs, -⟩
    refine ⟨hencloses, (hsorted.and hpairs).imp_of_mem ?_⟩
    rintro v w - hw ⟨hle, hlt⟩
    exact (apart_iff (hencloses w hw) hle).mpr hlt
  · rintro ⟨hencloses, hpairs⟩
    refine ⟨hencloses, (hsorted.and hpairs).imp_of_mem ?_, nofun⟩
    rintro v w - hw ⟨hle, hapart⟩
    exact (apart_iff (hencloses w hw) hle).mp hapart

theorem withWindows_eq_ok_iff :
    b.withWindows windows = .ok c ↔
      b.Admits windows ∧ c = { b with windows := some (sortWindows windows) } := by
  have hfault := windowsFault?_sorted (b := b) (pairwise_sortWindows windows)
  rw [admits_congr (perm_sortWindows windows)] at hfault
  unfold withWindows
  dsimp only
  cases hresult : b.windowsFault? none (sortWindows windows) with
  | none =>
    simp [hfault.mp hresult, eq_comm]
  | some e =>
    rw [hresult] at hfault
    simp [← hfault]

theorem withWindows_congr (h : ws.Perm windows) : b.withWindows ws = b.withWindows windows := by
  unfold withWindows
  rw [sortWindows_congr h]

/-- The bounds of the block say nothing more about an address that lies in a window. -/
theorem contains_of_withWindows (h : b.withWindows windows = .ok c) (a : Int) :
    c.contains a = true ↔ ∃ w ∈ windows, InWindow w a := by
  obtain ⟨hadmits, rfl⟩ := withWindows_eq_ok_iff.mp h
  have hmem (w : Int × Int) : w ∈ sortWindows windows ↔ w ∈ windows :=
    (perm_sortWindows windows).mem_iff
  unfold contains
  split_ifs with houtside
  · refine iff_of_false nofun ?_
    rintro ⟨w, hw, hlow, hhigh⟩
    have hencloses := hadmits.encloses w hw
    have hfirst := hencloses.first_le
    have hlast := hencloses.le_last
    dsimp only at houtside
    omega
  · simp [hmem, InWindow]

theorem mem_interval {low high a : Int} : a ∈ interval low high ↔ low ≤ a ∧ a ≤ high := by
  unfold interval
  simp only [List.mem_map, List.mem_range]
  constructor
  · rintro ⟨n, hn, rfl⟩
    omega
  · rintro ⟨hlow, hhigh⟩
    exact ⟨(a - low).toNat, by omega, by omega⟩

theorem enumerates_addressesBetween (b : Block) (low high : Int) :
    b.Enumerates low high (b.addressesBetween low high) where
  increasing := b.pairwise_addressesBetween low high
  mem_iff a := by
    rw [addressesBetween, List.mem_filter, mem_interval]
    constructor
    · rintro ⟨⟨hlow, hhigh⟩, ha⟩
      exact ⟨by omega, by omega, ha⟩
    · rintro ⟨hlow, hhigh, ha⟩
      obtain ⟨hfirst, hlast⟩ := bounds_of_contains ha
      exact ⟨⟨by omega, by omega⟩, ha⟩
  names :=
    (BlockRange.ordered_of_pairwise (b.pairwise_addressesBetween low high) false).nodup_names

/-- Windows are accepted if and only if each of them has an address and lies in the block and any two
are apart, and their order does not matter. Then the addresses of the block are those in a window,
and the addresses between two bounds are listed upwards, each once. -/
theorem accepts_and_enumerates (b : Block) (windows : List (Int × Int)) :
    ((∃ c, b.withWindows windows = .ok c) ↔ b.Admits windows) ∧
      (∀ other : List (Int × Int), other.Perm windows →
        b.withWindows other = b.withWindows windows) ∧
      (∀ c, b.withWindows windows = .ok c →
        (∀ a, c.contains a = true ↔ ∃ w ∈ windows, InWindow w a) ∧
          ∀ low high, c.Enumerates low high (c.addressesBetween low high)) := by
  refine ⟨?_, fun other h => withWindows_congr h, fun c h => ?_⟩
  · constructor
    · rintro ⟨c, h⟩
      exact (withWindows_eq_ok_iff.mp h).1
    · intro hadmits
      exact ⟨_, withWindows_eq_ok_iff.mpr ⟨hadmits, rfl⟩⟩
  · exact ⟨contains_of_withWindows h, c.enumerates_addressesBetween⟩

end Block

namespace Sample

/-- The points of a machine, still without windows. -/
def points : Block := ⟨"X", .bool, 1, 816, none, none, false, .bool false⟩

def racks : Block := { points with windows := some [(1, 16), (101, 116)] }

end Sample

/-- Windows given in the wrong order, a range across the gap between them, and windows that meet. -/
theorem Block.accepts_and_enumerates_sample :
    Sample.points.Admits [(101, 116), (1, 16)] ∧
      Sample.points.withWindows [(1, 16), (101, 116)] = .ok Sample.racks ∧
      Sample.racks.contains 116 = true ∧ Sample.racks.contains 50 = false ∧
      Sample.racks.Enumerates 15 102 [15, 16, 101, 102] ∧
      ¬∃ c, Sample.points.withWindows [(101, 116), (1, 101)] = .ok c := by
  have haccepted : Sample.points.withWindows [(101, 116), (1, 16)] = .ok Sample.racks := rfl
  obtain ⟨hadmits, hperm, hwindows⟩ :=
    Sample.points.accepts_and_enumerates [(101, 116), (1, 16)]
  have hmeet := (Sample.points.accepts_and_enumerates [(101, 116), (1, 101)]).1
  obtain ⟨hcontains, henumerates⟩ := hwindows _ haccepted
  refine ⟨hadmits.mp ⟨_, haccepted⟩, ?_, ?_, ?_, henumerates 15 102, fun haccepted => ?_⟩
  · rw [hperm _ (List.Perm.swap _ _ _)]
    exact haccepted
  · exact (hcontains 116).mpr ⟨(101, 116), by simp, by decide, by decide⟩
  · refine Bool.eq_false_iff.mpr fun h => ?_
    obtain ⟨w, hw, hlow, hhigh⟩ := (hcontains 50).mp h
    rcases List.mem_pair.mp hw with rfl | rfl
    · exact absurd hlow (by decide)
    · exact absurd hhigh (by decide)
  · have hapart := List.pairwise_pair.mp (hmeet.mp haccepted).apart
    exact hapart 101 ⟨⟨by decide, by decide⟩, by decide, by decide⟩

end LadderLogic
