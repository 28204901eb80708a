import LadderLogic.Proofs.Log.Rotation

/-!
Logs over time. Main result: however often a log is written and opened again, its files hold the
end of what was there at first and of all lines since, cut where a file ends. The newest line ends
the live file, which is not too long unless it is that line alone.
-/

set_option autoImplicit false

namespace LadderLogic

/-- What the file at a place holds, which is nothing if there is none. -/
def FileTree.contentAt (t : FileTree) (p : Place) : ByteArray :=
  match t.node? p with
  | some (.file content) => content
  | _ => .empty

namespace LogFile

/-- The archives in a directory, from the oldest on. -/
def archivesIn (d : Place) (t : FileTree) : List ByteArray :=
  [4, 3, 2, 1].map fun n => t.contentAt (d ++ [archiveName n])

def liveIn (d : Place) (t : FileTree) : ByteArray := t.contentAt (d ++ [fileName])

def filesIn (d : Place) (t : FileTree) : List ByteArray := archivesIn d t ++ [liveIn d t]

def joined (contents : List ByteArray) : ByteArray := contents.foldr (· ++ ·) .empty

def linesOf (messages : List LogMessage) : ByteArray := joined (messages.map LogMessage.bytes)

@[simp] theorem joined_nil : joined [] = .empty := rfl

@[simp] theorem joined_cons (c : ByteArray) (cs : List ByteArray) :
    joined (c :: cs) = c ++ joined cs := rfl

@[simp] theorem joined_append (cs ds : List ByteArray) :
    joined (cs ++ ds) = joined cs ++ joined ds := by
  induction cs with
  | nil => simp
  | cons c cs ih => rw [List.cons_append, joined_cons, joined_cons, ih, ByteArray.append_assoc]

theorem linesOf_append (ms ns : List LogMessage) : linesOf (ms ++ ns) = linesOf ms ++ linesOf ns := by
  simp [linesOf]

@[simp] theorem linesOf_singleton (m : LogMessage) : linesOf [m] = m.bytes := by
  simp [linesOf]

theorem joined_map_linesOf (groups : List (List LogMessage)) :
    joined (groups.map linesOf) = linesOf groups.flatten := by
  induction groups with
  | nil => rfl
  | cons group groups ih => rw [List.map_cons, joined_cons, List.flatten_cons, linesOf_append, ih]

/-- The files that there have ever been, from the oldest on: those of the beginning, the live one
with the lines that still went into it, and one for each group of later lines. -/
def filesEver (archives : List ByteArray) (live : ByteArray) (first : List LogMessage)
    (later : List (List LogMessage)) : List ByteArray :=
  archives ++ [live ++ linesOf first] ++ later.map linesOf

/-- The files are the last ones that there have been. Those before them are lost as a whole, and
every file that was started since the beginning has a line. -/
def KeepsTail (archives : List ByteArray) (live : ByteArray) (messages : List LogMessage)
    (files : List ByteArray) : Prop :=
  ∃ first later lost, messages = first ++ later.flatten ∧ [] ∉ later ∧
    lost ++ files = filesEver archives live first later

namespace KeepsTail

variable {archives files : List ByteArray} {live current oldest : ByteArray}
  {messages : List LogMessage}

theorem start (archives : List ByteArray) (live : ByteArray) :
    KeepsTail archives live [] (archives ++ [live]) :=
  ⟨[], [], [], rfl, by simp, by simp [filesEver, linesOf]⟩

/-- The files together are the end of all contents together. -/
theorem exists_lost (h : KeepsTail archives live messages files) :
    ∃ lost, lost ++ joined files = joined (archives ++ [live]) ++ linesOf messages := by
  obtain ⟨first, later, lost, rfl, -, hfiles⟩ := h
  refine ⟨joined lost, ?_⟩
  rw [← joined_append, hfiles, linesOf_append, ← joined_map_linesOf]
  simp [filesEver, ByteArray.append_assoc]

/-- Another line in the live file. -/
theorem grown (h : KeepsTail archives live messages (files ++ [current])) (m : LogMessage) :
    KeepsTail archives live (messages ++ [m]) (files ++ [current ++ m.bytes]) := by
  obtain ⟨first, later, lost, rfl, hlater, hfiles⟩ := h
  rcases later.eq_nil_or_concat with rfl | ⟨groups, group, rfl⟩
  · refine ⟨first ++ [m], [], lost, by simp, by simp, ?_⟩
    simp only [filesEver, List.map_nil, List.append_nil, ← List.append_assoc] at hfiles ⊢
    obtain ⟨hbefore, hlast⟩ := List.append_inj' hfiles rfl
    obtain rfl := List.singleton_injective hlast
    rw [hbefore, linesOf_append, linesOf_singleton, ByteArray.append_assoc]
  · refine ⟨first, groups ++ [group ++ [m]], lost, by simp, ?_, ?_⟩
    · simp only [List.concat_eq_append, List.mem_append, List.mem_singleton, not_or] at hlater ⊢
      exact ⟨hlater.1, by simp⟩
    · simp only [filesEver, List.concat_eq_append, List.map_append, List.map_cons, List.map_nil,
        ← List.append_assoc] at hfiles ⊢
      obtain ⟨hbefore, hlast⟩ := List.append_inj' hfiles rfl
      obtain rfl := List.singleton_injective hlast
      rw [hbefore, linesOf_append, linesOf_singleton]

/-- A line in a new file, for which the oldest file is lost. -/
theorem renewed (h : KeepsTail archives live messages (oldest :: files)) (m : LogMessage) :
    KeepsTail archives live (messages ++ [m]) (files ++ [m.bytes]) := by
  obtain ⟨first, later, lost, rfl, hlater, hfiles⟩ := h
  refine ⟨first, later ++ [[m]], lost ++ [oldest], by simp, by simpa using hlater, ?_⟩
  have hall : lost ++ [oldest] ++ (files ++ [m.bytes]) = (lost ++ oldest :: files) ++ [m.bytes] := by
    simp
  rw [hall, hfiles]
  simp [filesEver]

end KeepsTail

variable {directory : Path} {base start t u : FileTree} {d : Place}
  {slots : Nat → Option ByteArray} {log log' : LogFile} {messages : List LogMessage}
  {m : LogMessage}

theorem contentAt_of_shows (h : Shows base d slots t) {k : Nat} (hk : k ≤ archiveCount) :
    t.contentAt (d ++ [slotName k]) = (slots k).getD .empty := by
  unfold FileTree.contentAt
  rw [h.own k hk]
  cases slots k <;> rfl

theorem filesIn_of_shows (h : Shows base d slots t) :
    archivesIn d t = [4, 3, 2, 1].map (fun k => (slots k).getD .empty) ∧
      liveIn d t = liveOf slots := by
  constructor
  · apply List.map_congr_left
    intro n hn
    have hn' : n ≤ archiveCount ∧ archiveName n = slotName n := by
      fin_cases hn <;> exact ⟨by decide, rfl⟩
    rw [hn'.2]
    exact contentAt_of_shows h hn'.1
  · exact contentAt_of_shows h (Nat.zero_le _)

/-- A write adds its line to what the files keep. -/
theorem keepsTail_of_written {archives : List ByteArray} {live : ByteArray}
    (h : Shows base d slots t) (h' : Shows base d (written slots m.bytes) u)
    (hkeep : KeepsTail archives live messages (filesIn d t)) :
    KeepsTail archives live (messages ++ [m]) (filesIn d u) := by
  unfold filesIn at hkeep ⊢
  rw [(filesIn_of_shows h).1, (filesIn_of_shows h).2] at hkeep
  rw [(filesIn_of_shows h').1, (filesIn_of_shows h').2]
  unfold written
  by_cases hfits : (liveOf slots).size + m.bytes.size ≤ sizeLimit
  · rw [if_pos hfits, liveOf_grown]
    exact hkeep.grown m
  · rw [if_neg hfits, liveOf_renewed]
    exact hkeep.renewed m

/-- The newest line ends the live file, which is not too long unless it is that line alone. -/
theorem liveOf_written (slots : Nat → Option ByteArray) (bytes : ByteArray) :
    (∃ earlier, liveOf (written slots bytes) = earlier ++ bytes) ∧
      ((liveOf (written slots bytes)).size ≤ sizeLimit ∨ liveOf (written slots bytes) = bytes) := by
  unfold written
  by_cases hfits : (liveOf slots).size + bytes.size ≤ sizeLimit
  · rw [if_pos hfits, liveOf_grown, ByteArray.size_append]
    exact ⟨⟨liveOf slots, rfl⟩, .inl hfits⟩
  · rw [if_neg hfits, liveOf_renewed]
    exact ⟨⟨.empty, by simp⟩, .inr rfl⟩

/-- The names that belong to the log: that of the live file and those of all archives, also of
ones that the log does not keep. -/
def IsOwn (name : String) : Prop := name = fileName ∨ ∃ n, name = archiveName n

theorem isOwn_slotName (k : Nat) : IsOwn (slotName k) := by
  cases k with
  | zero => exact .inl rfl
  | succ k => exact .inr ⟨k + 1, rfl⟩

/-- A log directory as it should be: what has the name of a log file is a file, and there are no
archives but those that the log keeps. -/
structure Tidy (d : Place) (t : FileTree) : Prop where
  files : ∀ k ≤ archiveCount, t.isDirectoryAt (d ++ [slotName k]) = false
  few : ∀ n, t.node? (d ++ [archiveName n]) ≠ none → 1 ≤ n ∧ n ≤ archiveCount

/-- What the log files hold in a tree. -/
def slotsAt (d : Place) (t : FileTree) (k : Nat) : Option ByteArray :=
  match t.node? (d ++ [slotName k]) with
  | some (.file content) => some content
  | _ => none

theorem shows_slotsAt (h : Tidy d t) : Shows t d (slotsAt d t) t where
  own k hk := by
    have hfile := FileTree.isDirectoryAt_eq_false_iff.mp (h.files k hk)
    unfold slotsAt
    rcases hnode : t.node? (d ++ [slotName k]) with _ | ⟨content | _⟩
    · rfl
    · rfl
    · exact absurd hnode hfile
  other _ _ := rfl

theorem archiveName_ne_slotName {n : Nat} (hn : ¬(1 ≤ n ∧ n ≤ archiveCount)) {k : Nat}
    (hk : k ≤ archiveCount) : d ++ [archiveName n] ≠ d ++ [slotName k] := by
  intro h
  have hname : archiveName n = slotName k := by simpa using h
  cases k with
  | zero => exact fileName_ne_archiveName n hname.symm
  | succ k =>
    obtain rfl : n = k + 1 := archiveName_injective hname
    exact hn ⟨by omega, hk⟩

theorem tidy_of_shows (hbase : Tidy d base) (h : Shows base d slots t) : Tidy d t where
  files k hk := by
    rw [FileTree.isDirectoryAt_eq_false_iff, h.own k hk]
    cases slots k <;> simp
  few n hn := by
    by_contra hout
    apply hout
    apply hbase.few
    rwa [← h.other]
    exact fun k hk => archiveName_ne_slotName hout hk

/-- A log that is opened in a directory, written, and opened there again, without a failure. What
else happens in the tree leaves the directory and what belongs to the log there alone. The first
tree is that after the first opening, and the messages are those that were written. -/
inductive Run (directory : Path) (start : FileTree) :
    List LogMessage → LogFile → FileTree → Prop
  | opened {before : FileTree} {log : LogFile}
      (opening : inDirectory directory before = (some log, start)) : Run directory start [] log start
  | reopened {messages : List LogMessage} {log log' : LogFile} {t u : FileTree}
      (run : Run directory start messages log t)
      (opening : inDirectory directory t = (some log', u)) : Run directory start messages log' u
  | wrote {messages : List LogMessage} {log log' : LogFile} {t u : FileTree} {m : LogMessage}
      (run : Run directory start messages log t) (writing : log.write m t = (log', u, true)) :
      Run directory start (messages ++ [m]) log' u
  | elsewhere {messages : List LogMessage} {log : LogFile} {t u : FileTree}
      (run : Run directory start messages log t)
      (place : u.place? directory = t.place? directory)
      (isDirectory : u.isDirectory directory = true)
      (own : ∀ d, t.place? directory = some d → ∀ name, IsOwn name →
        u.node? (d ++ [name]) = t.node? (d ++ [name])) : Run directory start messages log u

theorem createDirectory_of_inDirectory (h : inDirectory directory t = (some log, u)) :
    log = ⟨directory, none⟩ ∧ t.createDirectory directory = (u, true) := by
  unfold inDirectory at h
  split at h
  next u' hcreate =>
    simp only [Prod.mk.injEq, Option.some.injEq] at h
    obtain ⟨rfl, rfl⟩ := h
    exact ⟨rfl, hcreate⟩
  next => cases h

/-- A log is opened again without a change to the tree. -/
theorem inDirectory_of_shows (hsite : Site base directory d) (h : Shows base d slots t) :
    inDirectory directory t = (some ⟨directory, none⟩, t) := by
  have hsite' : Site base (LogFile.mk directory none).directory d := hsite
  have hdirectories := h.isDirectoryAt_eq hsite'
  have hthere : t.isDirectory directory = true := by
    apply FileTree.isDirectory_iff.mpr
    refine ⟨d, ?_, ?_⟩
    · rw [FileTree.place?_congr hdirectories, hsite.place]
    · rw [hdirectories, hsite.isDirectory]
  unfold inDirectory
  rw [FileTree.createDirectory_of_isDirectory hthere]

/-- The state of a run: but for the log files the tree is the base, the counted size is that of the
live file, and the files keep the tail. -/
structure Reaches (directory : Path) (d : Place) (archives : List ByteArray) (live : ByteArray)
    (messages : List LogMessage) (log : LogFile) (base : FileTree)
    (slots : Nat → Option ByteArray) (t : FileTree) : Prop where
  directory : log.directory = directory
  site : Site base log.directory d
  tidy : Tidy d base
  tracks : Tracks log slots
  shows : Shows base d slots t
  keep : KeepsTail archives live messages (filesIn d t)

namespace Reaches

variable {archives : List ByteArray} {live : ByteArray}

theorem opened (hplace : start.place? directory = some d)
    (hdirectory : start.isDirectory directory = true) (htidy : Tidy d start) :
    Reaches directory d (archivesIn d start) (liveIn d start) [] ⟨directory, none⟩ start
      (slotsAt d start) start := by
  obtain ⟨p, hp, hthere⟩ := FileTree.isDirectory_iff.mp hdirectory
  obtain rfl : d = p := Option.some.inj (hplace.symm.trans hp)
  exact ⟨rfl, ⟨hplace, hthere, htidy.files⟩, htidy, tracks_closed _ _, shows_slotsAt htidy,
    .start _ _⟩

variable (h : Reaches directory d archives live messages log base slots t)
include h

theorem reopened :
    inDirectory directory t = (some ⟨directory, none⟩, t) ∧
      Reaches directory d archives live messages ⟨directory, none⟩ base slots t := by
  have hsite : Site base directory d := h.directory ▸ h.site
  constructor
  · exact inDirectory_of_shows hsite h.shows
  · exact ⟨rfl, hsite, h.tidy, tracks_closed _ _, h.shows, h.keep⟩

theorem wrote (hwrite : log.write m t = (log', u, true)) :
    Reaches directory d archives live (messages ++ [m]) log' base (written slots m.bytes) u := by
  obtain ⟨hdirectory, htracks, hshows⟩ := shows_of_write h.site h.tracks h.shows hwrite
  exact ⟨hdirectory.trans h.directory, hdirectory ▸ h.site, h.tidy, htracks, hshows,
    keepsTail_of_written h.shows hshows h.keep⟩

/-- What happens elsewhere makes another base. -/
theorem elsewhere (hplace : u.place? directory = t.place? directory)
    (hdirectory : u.isDirectory directory = true)
    (hown : ∀ d, t.place? directory = some d → ∀ name, IsOwn name →
      u.node? (d ++ [name]) = t.node? (d ++ [name])) :
    Reaches directory d archives live messages log u slots u := by
  have hplace' : t.place? directory = some d := by
    rw [← h.directory, FileTree.place?_congr (h.shows.isDirectoryAt_eq h.site), h.site.place]
  have hname := hown d hplace'
  obtain ⟨p, hp, hthere⟩ := FileTree.isDirectory_iff.mp hdirectory
  obtain rfl : d = p := Option.some.inj ((hplace.trans hplace').symm.trans hp)
  have hfiles : ∀ k, u.node? (d ++ [slotName k]) = t.node? (d ++ [slotName k]) :=
    fun k => hname _ (isOwn_slotName k)
  have htidy : Tidy d u := by
    have htidy := tidy_of_shows h.tidy h.shows
    constructor
    · intro k hk
      rw [FileTree.isDirectoryAt_congr (hfiles k), htidy.files k hk]
    · intro n hn
      rw [hname _ (.inr ⟨n, rfl⟩)] at hn
      exact htidy.few n hn
  have hshows : Shows u d slots u := ⟨fun k hk => (hfiles k).trans (h.shows.own k hk), fun _ _ => rfl⟩
  refine ⟨h.directory, ⟨h.directory ▸ hp, hthere, htidy.files⟩, htidy, h.tracks, hshows, ?_⟩
  have hsame : filesIn d u = filesIn d t := by
    simp only [filesIn, filesIn_of_shows hshows, filesIn_of_shows h.shows]
  exact hsame ▸ h.keep

end Reaches

namespace Run

variable (hrun : Run directory start messages log t) (hplace : start.place? directory = some d)
  (htidy : Tidy d start)
include hrun hplace htidy

theorem exists_reaches : ∃ base slots,
    Reaches directory d (archivesIn d start) (liveIn d start) messages log base slots t := by
  induction hrun with
  | opened opening =>
    obtain ⟨rfl, hcreated⟩ := createDirectory_of_inDirectory opening
    have hdirectory := FileTree.isDirectory_of_createDirectory hcreated
    exact ⟨_, _, .opened hplace hdirectory htidy⟩
  | reopened run opening ih =>
    obtain ⟨base, slots, hreaches⟩ := ih
    obtain ⟨hopened, hreaches'⟩ := hreaches.reopened
    rw [hopened] at opening
    simp only [Prod.mk.injEq, Option.some.injEq] at opening
    obtain ⟨rfl, rfl⟩ := opening
    exact ⟨_, _, hreaches'⟩
  | wrote run writing ih =>
    obtain ⟨base, slots, hreaches⟩ := ih
    exact ⟨_, _, hreaches.wrote writing⟩
  | elsewhere run place isDirectory own ih =>
    obtain ⟨base, slots, hreaches⟩ := ih
    exact ⟨_, _, hreaches.elsewhere place isDirectory own⟩

/-- A log can be opened again without a change to the tree, and where the names of archives can be
used, a message can be written. After every write the files hold the end of what was there at first
and of all lines since, cut where a file ends. No other archive has appeared and nothing else has
changed, and the newest line ends the live file, which is not too long unless it is that line
alone. -/
theorem keeps_tail (m : LogMessage) :
    inDirectory directory t = (some ⟨directory, none⟩, t) ∧
    ((log.path 1).isUsable = true → ∃ log' u, log.write m t = (log', u, true)) ∧
    ∀ log' u, log.write m t = (log', u, true) →
      KeepsTail (archivesIn d start) (liveIn d start) (messages ++ [m]) (filesIn d u) ∧
      (∃ lost, lost ++ joined (filesIn d u) =
        joined (filesIn d start) ++ linesOf (messages ++ [m])) ∧
      Tidy d u ∧
      (∀ q, (∀ k ≤ archiveCount, q ≠ d ++ [slotName k]) → u.node? q = t.node? q) ∧
      (∃ earlier, liveIn d u = earlier ++ m.bytes) ∧
      ((liveIn d u).size ≤ sizeLimit ∨ liveIn d u = m.bytes) := by
  obtain ⟨base, slots, hreaches⟩ := hrun.exists_reaches hplace htidy
  refine ⟨hreaches.reopened.1, ?_, ?_⟩
  · intro husable
    exact exists_write hreaches.site hreaches.tracks hreaches.shows husable m
  · intro log' u hwrite
    have hwritten := hreaches.wrote hwrite
    have hlive := (filesIn_of_shows hwritten.shows).2
    obtain ⟨hnewest, hsize⟩ := liveOf_written slots m.bytes
    refine ⟨hwritten.keep, hwritten.keep.exists_lost, tidy_of_shows hwritten.tidy hwritten.shows,
      ?_, ?_, ?_⟩
    · intro q hq
      rw [hwritten.shows.other q hq, hreaches.shows.other q hq]
    · rwa [hlive]
    · rwa [hlive]

end Run

/-- A log directory with a live file that is full, and with the oldest archive. -/
def fullTree : FileTree :=
  (((∅ : FileTree).insert ["logs"] .directory).insert (["logs"] ++ [slotName 0])
    (.file ⟨Array.replicate sizeLimit 120⟩)).insert (["logs"] ++ [slotName 4]) (.file ⟨#[121, 10]⟩)

theorem node?_fullTree (p : Place) : fullTree.node? p =
    if p = ["logs"] ++ [slotName 4] then some (.file ⟨#[121, 10]⟩)
    else if p = ["logs"] ++ [slotName 0] then some (.file ⟨Array.replicate sizeLimit 120⟩)
    else if p = ["logs"] then some .directory
    else FileTree.node? ∅ p := by
  unfold fullTree
  rw [FileTree.node?_insert (by simp), FileTree.node?_insert (by simp),
    FileTree.node?_insert (by simp)]

theorem tidy_fullTree : Tidy ["logs"] fullTree where
  files k hk := by
    have hempty : FileTree.node? ∅ (["logs"] ++ [slotName k]) = none := rfl
    rw [FileTree.isDirectoryAt_eq_false_iff, node?_fullTree]
    simp only [slot_inj, hempty]
    split_ifs <;> simp_all
  few n hn := by
    have hempty : FileTree.node? ∅ (["logs"] ++ [archiveName n]) = none := rfl
    by_contra hout
    apply hn
    rw [node?_fullTree, if_neg (archiveName_ne_slotName hout (by decide)),
      if_neg (archiveName_ne_slotName hout (by decide)), if_neg (by simp), hempty]

theorem place?_fullTree : fullTree.place? ⟨["logs"]⟩ = some ["logs"] := by
  apply FileTree.place?_singleton
  · constructor <;> decide
  · simp [Path.isUsable, String.contains_char_eq]
    decide

theorem inDirectory_fullTree :
    inDirectory ⟨["logs"]⟩ fullTree = (some ⟨⟨["logs"]⟩, none⟩, fullTree) := by
  have hthere : fullTree.isDirectory ⟨["logs"]⟩ = true := by
    apply FileTree.isDirectory_iff.mpr
    refine ⟨["logs"], place?_fullTree, ?_⟩
    rw [FileTree.isDirectoryAt_iff, node?_fullTree]
    simp
  unfold inDirectory
  rw [FileTree.createDirectory_of_isDirectory hthere]

theorem Run.keeps_tail_sample : ∃ log' u,
    (LogFile.mk ⟨["logs"]⟩ none).write ⟨.info, "next"⟩ fullTree = (log', u, true) ∧
    (∃ lost, lost ++ joined (filesIn ["logs"] u) =
      joined (filesIn ["logs"] fullTree) ++ linesOf [⟨.info, "next"⟩]) ∧
    Tidy ["logs"] u ∧ ∃ earlier, liveIn ["logs"] u = earlier ++ "[INFO] next\n".toUTF8 := by
  have hrun : Run ⟨["logs"]⟩ fullTree [] ⟨⟨["logs"]⟩, none⟩ fullTree := .opened inDirectory_fullTree
  have husable : (LogFile.mk ⟨["logs"]⟩ none |>.path 1).isUsable = true := by
    simp [Path.isUsable, path, Path.child_eq, Path.stemParts, String.contains_char_eq]
    decide
  obtain ⟨-, hwrites, hkeeps⟩ :=
    Run.keeps_tail hrun place?_fullTree tidy_fullTree ⟨.info, "next"⟩
  obtain ⟨log', u, hwrite⟩ := hwrites husable
  obtain ⟨-, hlost, htidy, -, hnewest, -⟩ := hkeeps log' u hwrite
  exact ⟨log', u, hwrite, hlost, htidy, hnewest⟩

end LogFile

end LadderLogic
