import LadderLogic.Proofs.Log.Slots

/-!
Rotations and writes, by what they make of the log files. A rotation makes every file one step
older, and the oldest one is gone. A write that succeeds appends to the live file, or makes a new
one after a rotation.
-/

set_option autoImplicit false

namespace LadderLogic.LogFile

variable {base t u : FileTree} {d : Place} {slots : Nat → Option ByteArray} {log log' : LogFile}
  {m : LogMessage}

/-- The moves that make the live file and the archives below a number one step older. -/
def shifts (log : LogFile) : Nat → List (Path × Path)
  | 0 => []
  | n + 1 => (log.path n, log.path (n + 1)) :: log.shifts n

theorem moves_eq (log : LogFile) : log.moves = log.shifts archiveCount := rfl

/-- What the files hold when each has become one step older. -/
def aged (slots : Nat → Option ByteArray) : Nat → Option ByteArray
  | 0 => none
  | k + 1 => slots k

section
variable (hsite : Site base log.directory d)
include hsite

/-- Moves into a free slot, by induction on its number: each move frees the slot for the next. -/
theorem exists_moveAll (husable : ∀ k ≤ archiveCount, (log.path k).isUsable = true) {n : Nat}
    (hn : n ≤ archiveCount) (hfree : slots n = none) (h : Shows base d slots t) :
    ∃ u, moveAll (log.shifts n) t = (u, true) ∧
      Shows base d (fun k => if k ≤ n then aged slots k else slots k) u := by
  induction n generalizing slots t with
  | zero =>
    refine ⟨t, rfl, h.congr fun k _ => ?_⟩
    by_cases hk : k ≤ 0
    · obtain rfl : k = 0 := Nat.le_zero.mp hk
      simp [aged, hfree]
    · rw [if_neg hk]
  | succ n ih =>
    have hn' : n ≤ archiveCount := by omega
    unfold shifts moveAll
    rw [h.has_path hsite hn' (husable n hn')]
    cases hslot : slots n with
    | none =>
      obtain ⟨u, hmoves, hshows⟩ := ih hn' hslot h
      refine ⟨u, by simpa using hmoves, hshows.congr fun k _ => ?_⟩
      by_cases hk : k = n + 1
      · subst hk
        simp [aged, hfree, hslot]
      · have hiff : k ≤ n ↔ k ≤ n + 1 := by omega
        simp only [hiff]
    | some c =>
      obtain ⟨v, hrename, hmoved⟩ :=
        h.exists_rename? hsite hn' hn (husable n hn') (husable (n + 1) hn) hslot
      obtain ⟨u, hmoves, hshows⟩ := ih hn' (by simp) hmoved
      refine ⟨u, by simpa [hrename] using hmoves, hshows.congr fun k _ => ?_⟩
      by_cases hk : k ≤ n
      · rw [if_pos hk, if_pos (by omega)]
        cases k with
        | zero => rfl
        | succ k => simp [aged, Function.update_of_ne (show k ≠ n by omega),
            Function.update_of_ne (show k ≠ n + 1 by omega)]
      · by_cases hk' : k = n + 1
        · subst hk'
          simp [aged, hslot]
        · rw [if_neg hk, if_neg (by omega), Function.update_of_ne hk',
            Function.update_of_ne (by omega)]

theorem exists_rotate (husable : ∀ k ≤ archiveCount, (log.path k).isUsable = true)
    (h : Shows base d slots t) :
    ∃ u, log.rotate t = (u, true) ∧ Shows base d (aged slots) u := by
  have hlast : archiveCount ≤ archiveCount := le_refl _
  have haged : ∀ {slots' : Nat → Option ByteArray}, (∀ k < archiveCount, slots' k = slots k) →
      ∀ k ≤ archiveCount, (if k ≤ archiveCount then aged slots' k else slots' k) = aged slots k := by
    intro slots' hslots k hk
    rw [if_pos hk]
    cases k with
    | zero => rfl
    | succ k => exact hslots k hk
  unfold rotate
  rw [show log.archive archiveCount = log.path archiveCount from rfl, moves_eq,
    h.has_path hsite hlast (husable _ hlast)]
  cases hslot : slots archiveCount with
  | none =>
    obtain ⟨u, hmoves, hshows⟩ := exists_moveAll hsite husable hlast hslot h
    exact ⟨u, by simpa using hmoves, hshows.congr (haged fun _ _ => rfl)⟩
  | some c =>
    obtain ⟨v, hremove, hremoved⟩ := h.exists_removeFile? hsite hlast (husable _ hlast) hslot
    obtain ⟨u, hmoves, hshows⟩ := exists_moveAll hsite husable hlast (by simp) hremoved
    refine ⟨u, by simpa [hremove] using hmoves, hshows.congr (haged fun k hk => ?_)⟩
    exact Function.update_of_ne (by omega) _ _

/-- Without a first archive that can be used, no live file is rotated away. -/
theorem isUsable_of_rotate (hlive : (log.path 0).isUsable = true) (h : Shows base d slots t)
    {c : ByteArray} (hc : slots 0 = some c) (hrotate : log.rotate t = (u, true)) :
    (log.path 1).isUsable = true := by
  by_contra hfirst
  have hplace : ∀ k, 1 ≤ k → k ≤ archiveCount → t.place? (log.path k) = none := by
    intro k hk hk'
    rw [h.place?_path hsite hk', if_neg]
    exact fun husable => hfirst (isUsable_path hk hk' husable (by decide))
  have hgone : ∀ k, 1 ≤ k → k ≤ archiveCount → t.has (log.path k) = false := by
    intro k hk hk'
    simp [FileTree.has, FileTree.find?, hplace k hk hk']
  have hthere : t.has (log.path 0) = true := by
    rw [h.has_path hsite (by decide) hlive, hc]
    rfl
  have hrename : t.rename? (log.path 0) (log.path 1) = none := by
    simp [FileTree.rename?, hplace 1 (by decide) (by decide)]
  have hfails : log.rotate t = (t, false) := by
    unfold rotate
    rw [show log.archive archiveCount = log.path 4 from rfl, moves_eq,
      hgone 4 (by decide) (by decide)]
    simp [archiveCount, shifts, moveAll, hgone 3 (by decide) (by decide),
      hgone 2 (by decide) (by decide), hgone 1 (by decide) (by decide), hthere, hrename]
  rw [hfails] at hrotate
  cases hrotate

end

/-- What the live file holds, which is nothing while it is not there. -/
def liveOf (slots : Nat → Option ByteArray) : ByteArray := (slots 0).getD .empty

@[simp] theorem liveOf_aged (slots : Nat → Option ByteArray) : liveOf (aged slots) = .empty := rfl

/-- The size that was counted is the size of the live file. -/
def Tracks (log : LogFile) (slots : Nat → Option ByteArray) : Prop :=
  ∀ size, log.openSize = some size →
    (log.path 0).isUsable = true ∧ ∃ c, slots 0 = some c ∧ c.size = size

theorem tracks_closed (directory : Path) (slots : Nat → Option ByteArray) :
    Tracks ⟨directory, none⟩ slots := by
  intro size hsize
  cases hsize

section
variable (hsite : Site base log.directory d) (htracks : Tracks log slots)
  (h : Shows base d slots t)
include hsite htracks h

theorem exists_ensureOpen? (hlive : (log.path 0).isUsable = true) :
    ∃ u, log.ensureOpen? t = some ((liveOf slots).size, u) ∧
      Shows base d (Function.update slots 0 (some (liveOf slots))) u := by
  have hkeep : ∀ {c : ByteArray}, slots 0 = some c →
      Shows base d (Function.update slots 0 (some (liveOf slots))) t := by
    intro c hc
    apply h.congr
    intro k _
    by_cases hk : k = 0
    · subst hk
      simp [liveOf, hc]
    · rw [Function.update_of_ne hk]
  unfold ensureOpen?
  cases hopen : log.openSize with
  | some size =>
    obtain ⟨-, c, hc, rfl⟩ := htracks size hopen
    exact ⟨t, by simp [liveOf, hc], hkeep hc⟩
  | none =>
    simp only [← path_zero, h.find?_path hsite (Nat.zero_le _) hlive]
    cases hslot : slots 0 with
    | some c => exact ⟨t, by simp [liveOf, hslot], hkeep hslot⟩
    | none =>
      obtain ⟨u, hwrite, hshows⟩ := h.exists_write? hsite (Nat.zero_le _) hlive .empty
      exact ⟨u, by simp [hwrite, liveOf, hslot], by simpa [liveOf, hslot] using hshows⟩

theorem isUsable_of_ensureOpen? {r : Nat × FileTree} (hopened : log.ensureOpen? t = some r) :
    (log.path 0).isUsable = true := by
  unfold ensureOpen? at hopened
  cases hopen : log.openSize with
  | some size => exact (htracks size hopen).1
  | none =>
    by_contra hlive
    have hplace : t.place? log.live = none := by
      rw [← path_zero, h.place?_path hsite (Nat.zero_le _), if_neg hlive]
    simp [hopen, FileTree.find?, FileTree.write?, hplace] at hopened

end

theorem exists_append (hsite : Site base log.directory d) (h : Shows base d slots t)
    (hlive : (log.path 0).isUsable = true) {old : ByteArray} (hold : slots 0 = some old)
    (bytes : ByteArray) :
    ∃ u, log.append old.size bytes t =
        ({ log with openSize := some (old.size + bytes.size) }, u, true) ∧
      Shows base d (Function.update slots 0 (some (old ++ bytes))) u := by
  obtain ⟨u, happend, hshows⟩ := h.exists_append? hsite (Nat.zero_le _) hlive hold bytes
  rw [path_zero] at happend
  exact ⟨u, by simp [append, happend], hshows⟩

/-- What the files hold when the live file has got longer. -/
def grown (slots : Nat → Option ByteArray) (bytes : ByteArray) : Nat → Option ByteArray :=
  Function.update slots 0 (some (liveOf slots ++ bytes))

/-- What the files hold when all have become older and a new one has been started. -/
def renewed (slots : Nat → Option ByteArray) (bytes : ByteArray) : Nat → Option ByteArray
  | 0 => some bytes
  | 1 => some (liveOf slots)
  | k + 2 => slots (k + 1)

/-- What the files hold after a write. -/
def written (slots : Nat → Option ByteArray) (bytes : ByteArray) : Nat → Option ByteArray :=
  if (liveOf slots).size + bytes.size ≤ sizeLimit then grown slots bytes else renewed slots bytes

@[simp] theorem liveOf_grown (slots : Nat → Option ByteArray) (bytes : ByteArray) :
    liveOf (grown slots bytes) = liveOf slots ++ bytes := by
  simp [liveOf, grown]

@[simp] theorem liveOf_renewed (slots : Nat → Option ByteArray) (bytes : ByteArray) :
    liveOf (renewed slots bytes) = bytes := rfl

section
variable (hsite : Site base log.directory d) (htracks : Tracks log slots)
  (h : Shows base d slots t)
include hsite htracks h

/-- What fits is appended to the live file. -/
theorem exists_write_of_fits (hlive : (log.path 0).isUsable = true)
    (hfits : (liveOf slots).size + m.bytes.size ≤ sizeLimit) :
    ∃ u, log.write m t =
        ({ log with openSize := some ((liveOf slots).size + m.bytes.size) }, u, true) ∧
      Shows base d (grown slots m.bytes) u := by
  obtain ⟨v, hopen, hopened⟩ := exists_ensureOpen? hsite htracks h hlive
  obtain ⟨u, happend, hshows⟩ :=
    exists_append hsite hopened hlive (Function.update_self ..) m.bytes
  refine ⟨u, ?_, by simpa [grown] using hshows⟩
  simp only [write, hopen, if_pos hfits, happend]

/-- What does not fit makes all files older and starts a new one. -/
theorem exists_write_of_not_fits (hfirst : (log.path 1).isUsable = true)
    (hlong : ¬ (liveOf slots).size + m.bytes.size ≤ sizeLimit) :
    ∃ u, log.write m t = ({ log with openSize := some m.bytes.size }, u, true) ∧
      Shows base d (renewed slots m.bytes) u := by
  have husable : ∀ k ≤ archiveCount, (log.path k).isUsable = true :=
    fun k hk => isUsable_path (le_refl 1) (by decide) hfirst hk
  have hlive := husable 0 (Nat.zero_le _)
  obtain ⟨v, hopen, hopened⟩ := exists_ensureOpen? hsite htracks h hlive
  obtain ⟨w, hrotate, hrotated⟩ := exists_rotate hsite husable hopened
  have hsite' : Site base log.closed.directory d := hsite
  obtain ⟨x, hnew, hempty⟩ :=
    exists_ensureOpen? hsite' (tracks_closed log.directory _) hrotated hlive
  rw [liveOf_aged] at hnew hempty
  obtain ⟨u, happend, hshows⟩ :=
    exists_append hsite' hempty hlive (Function.update_self ..) m.bytes
  refine ⟨u, ?_, hshows.congr fun k _ => ?_⟩
  · have hrest : log.closed.append ByteArray.empty.size m.bytes x =
        ({ log with openSize := some m.bytes.size }, u, true) := by
      rw [happend]
      simp [closed]
    simp only [write, hopen, if_neg hlong, hrotate, hnew]
    exact hrest
  · match k with
    | 0 => simp [renewed]
    | 1 => simp [aged, renewed]
    | k + 2 => simp [aged, renewed]

/-- A write that succeeds has done one or the other, and has counted the live file. -/
theorem shows_of_write (hwrite : log.write m t = (log', u, true)) :
    log'.directory = log.directory ∧ Tracks log' (written slots m.bytes) ∧
      Shows base d (written slots m.bytes) u := by
  have hlive : (log.path 0).isUsable = true := by
    cases hopen : log.ensureOpen? t with
    | none => simp [write, hopen] at hwrite
    | some r => exact isUsable_of_ensureOpen? hsite htracks h hopen
  unfold written
  by_cases hfits : (liveOf slots).size + m.bytes.size ≤ sizeLimit
  · obtain ⟨v, hwritten, hshows⟩ := exists_write_of_fits hsite htracks h hlive hfits
    have hsame := hwritten.symm.trans hwrite
    simp only [Prod.mk.injEq, and_true] at hsame
    obtain ⟨rfl, rfl⟩ := hsame
    rw [if_pos hfits]
    refine ⟨rfl, ?_, hshows⟩
    intro size hsize
    refine ⟨hlive, _, Function.update_self .., ?_⟩
    simpa using hsize
  · obtain ⟨v, hopen, hopened⟩ := exists_ensureOpen? hsite htracks h hlive
    have hfirst : (log.path 1).isUsable = true := by
      rcases hrotate : log.rotate v with ⟨w, rotated⟩
      cases rotated with
      | false => simp [write, hopen, hfits, hrotate] at hwrite
      | true => exact isUsable_of_rotate hsite hlive hopened (Function.update_self ..) hrotate
    obtain ⟨x, hwritten, hshows⟩ := exists_write_of_not_fits hsite htracks h hfirst hfits
    have hsame := hwritten.symm.trans hwrite
    simp only [Prod.mk.injEq, and_true] at hsame
    obtain ⟨rfl, rfl⟩ := hsame
    rw [if_neg hfits]
    refine ⟨rfl, ?_, hshows⟩
    intro size hsize
    refine ⟨hlive, _, rfl, ?_⟩
    simpa using hsize

/-- Where the archives can be used, no write fails. -/
theorem exists_write (hfirst : (log.path 1).isUsable = true) (m : LogMessage) :
    ∃ log' u, log.write m t = (log', u, true) := by
  by_cases hfits : (liveOf slots).size + m.bytes.size ≤ sizeLimit
  · have hlive := isUsable_path (le_refl 1) (by decide) hfirst (Nat.zero_le _)
    obtain ⟨u, hwrite, -⟩ := exists_write_of_fits hsite htracks h hlive hfits
    exact ⟨_, u, hwrite⟩
  · obtain ⟨u, hwrite, -⟩ := exists_write_of_not_fits hsite htracks h hfirst hfits
    exact ⟨_, u, hwrite⟩

end

end LadderLogic.LogFile
