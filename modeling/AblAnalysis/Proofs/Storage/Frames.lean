import AblAnalysis.Proofs.Storage.Walks
import Mathlib.Data.List.Infix

/-!
What changes to a disk leave alone. Operations take away only the files they are given, and put something
only where nothing was; so directories stay, and so does any file that is not the one at hand. What an
operation changes lies at the goals of its paths and at the directories around these, so that a region they
lie in is all that changes (`Disk.Keeps`).
-/

namespace AblAnalysis.Disk

variable {d d' d'' : Disk} {place : Place} {kept kept' region : Place → Prop} {path name : String}
  {outer : List String}

/-- Whether on the way from one disk to another directories stay where they are, the files at some places
stay as they are, and nothing changes outside a region. -/
structure Keeps (kept region : Place → Prop) (d d' : Disk) : Prop where
  here : d'.here = d.here
  directories : ∀ q, d.IsDirectory q → d'.IsDirectory q
  files : ∀ g, kept g → ∀ bytes time, d.node? g = some (.file bytes time) →
    d'.node? g = some (.file bytes time)
  outside : ∀ q, ¬ region q → d'.node? q = d.node? q

theorem Keeps.refl (d : Disk) : Keeps kept region d d :=
  ⟨rfl, fun _ hq => hq, fun _ _ _ _ hg => hg, fun _ _ => rfl⟩

theorem Keeps.trans (h : Keeps kept region d d') (h' : Keeps kept region d' d'') :
    Keeps kept region d d'' :=
  ⟨h'.here.trans h.here, fun q hq => h'.directories q (h.directories q hq),
    fun g hg bytes time hfile => h'.files g hg bytes time (h.files g hg bytes time hfile),
    fun q hq => (h'.outside q hq).trans (h.outside q hq)⟩

theorem Keeps.mono (h : Keeps kept region d d') (himp : ∀ g, kept' g → kept g) :
    Keeps kept' region d d' :=
  ⟨h.here, h.directories, fun g hg => h.files g (himp g hg), h.outside⟩

/-- Disks on which the same stands everywhere are alike, whatever their times and failures in store. -/
theorem keeps_of_nodes (hnodes : d'.nodes = d.nodes) (hhere : d'.here = d.here) :
    Keeps kept region d d' := by
  have hnode : ∀ q, d'.node? q = d.node? q := fun q => by rw [node?, node?, hnodes]
  refine ⟨hhere, fun q hq => ?_, fun g _ bytes time hfile => (hnode g).trans hfile, fun q _ => hnode q⟩
  rw [IsDirectory, hnode]
  exact hq

theorem Same.keeps (h : d.Same d') : Keeps kept region d d' :=
  keeps_of_nodes h.nodes h.here

/-! ### Single nodes -/

/-- A node may be put where no directory is lost, and no file that is to stay. -/
theorem keeps_put {node : DiskNode} (hregion : region place)
    (hfile : ∀ bytes time, d.node? place = some (.file bytes time) → ¬ kept place)
    (hdirectory : d.IsDirectory place → ∃ time, node = .directory time) :
    Keeps kept region d (d.put place node) := by
  refine ⟨rfl, fun q hq => ?_, fun g hg bytes time hnode => ?_, fun q hq => ?_⟩
  · rw [IsDirectory, node?_put]
    split
    · rename_i heq
      obtain ⟨time, rfl⟩ := hdirectory (heq ▸ hq)
      exact ⟨time, rfl⟩
    · exact hq
  · have hne : g ≠ place := fun heq => hfile bytes time (heq ▸ hnode) (heq ▸ hg)
    rw [node?_put, if_neg hne, hnode]
  · have hne : q ≠ place := fun heq => hq (heq ▸ hregion)
    rw [node?_put, if_neg hne]

/-- Changing the time of a directory changes no more than that. -/
theorem keeps_stamp (hparent : d.IsDirectory place.parent) (hregion : region place.parent) :
    Keeps kept region d (d.stamp place) := by
  refine keeps_put hregion (fun bytes time hfile => ?_) fun _ => ⟨d.now, rfl⟩
  exact absurd hparent (not_isDirectory_of_file hfile)

theorem keeps_put_stamp {node : DiskNode} (hnode : d.node? place = none)
    (hparent : d.IsDirectory place.parent) (hregion : region place)
    (hregion' : region place.parent) : Keeps kept region d ((d.put place node).stamp place) := by
  have hput : Keeps kept region d (d.put place node) :=
    keeps_put hregion (fun bytes time hfile => absurd (hnode.symm.trans hfile) (by simp))
      fun hdirectory => absurd hdirectory (not_isDirectory hnode)
  exact hput.trans (keeps_stamp (hput.directories _ hparent) hregion')

/-- A file that is not to stay may be taken away. -/
theorem keeps_take {bytes : List UInt8} {time : Int} (hnode : d.node? place = some (.file bytes time))
    (hne : ¬ kept place) (hparent : d.IsDirectory place.parent) (hregion : region place)
    (hregion' : region place.parent) : Keeps kept region d (d.take place) := by
  refine ⟨rfl, ?_, ?_, ?_⟩
  · rintro q ⟨time', hq⟩
    have hfile : q ≠ place := by
      rintro rfl
      exact not_isDirectory_of_file hnode ⟨time', hq⟩
    rw [IsDirectory, node?_take, if_neg hfile]
    split
    · exact ⟨_, rfl⟩
    · exact ⟨time', hq⟩
  · intro g hg bytes' time' hfile
    have hdirectory : g ≠ place.parent := by
      rintro rfl
      exact not_isDirectory_of_file hfile hparent
    have hplace : g ≠ place := fun heq => hne (heq ▸ hg)
    rw [node?_take, if_neg hdirectory, if_neg hplace, hfile]
  · intro q hq
    have hdirectory : q ≠ place.parent := fun heq => hq (heq ▸ hregion')
    have hplace : q ≠ place := fun heq => hq (heq ▸ hregion)
    rw [node?_take, if_neg hdirectory, if_neg hplace]

/-! ### Directories -/

/-- Creating a directory where one is changes nothing. -/
theorem keeps_createDirectory {result : Except IoFailure Unit}
    (hgoal : d.IsDirectory (d.goal path) ∨ region (d.goal path) ∧ region (d.goal path).parent)
    (h : d.createDirectory path = (result, d')) : Keeps kept region d d' := by
  rw [createDirectory] at h
  split at h
  · rename_i hfault
    obtain ⟨-, rfl⟩ := Prod.mk.inj h
    exact (same_of_nextFault hfault).keeps
  rename_i d₁ hfault
  have hsame := same_of_nextFault hfault
  split at h
  · obtain ⟨-, rfl⟩ := Prod.mk.inj h
    exact hsame.keeps
  rename_i place hlocate
  obtain rfl : place = d.goal path := (locate_ok hlocate).trans (goal_of_here hsame.here path)
  split at h
  · obtain ⟨-, rfl⟩ := Prod.mk.inj h
    exact hsame.keeps
  rename_i hnode
  split at h
  · rename_i time hparent
    obtain ⟨-, rfl⟩ := Prod.mk.inj h
    rcases hgoal with hdirectory | ⟨hregion, hregion'⟩
    · exact absurd hdirectory (not_isDirectory ((hsame.node? _).symm.trans hnode))
    · exact hsame.keeps.trans (keeps_put_stamp hnode ⟨time, hparent⟩ hregion hregion')
  · obtain ⟨-, rfl⟩ := Prod.mk.inj h
    exact hsame.keeps
  · obtain ⟨-, rfl⟩ := Prod.mk.inj h
    exact hsame.keeps

/-- Whether the directories of a path, whose pieces are given last first, are there, or would be created
inside a region. -/
def MadeIn (d : Disk) (region : Place → Prop) (ps : List String) : Prop :=
  ∀ q, d.MadeFor ps q → d.IsDirectory q ∨ region q ∧ region q.parent

theorem MadeIn.of_keeps {ps : List String} (h : d.MadeIn region ps) (hkeeps : Keeps kept region d d') :
    d'.MadeIn region ps := by
  intro q hq
  exact (h q (hq.of_here hkeeps.here)).imp_left (hkeeps.directories q)

/-! ### Files -/

/-- Every step of a path that leads somewhere is taken from a directory. -/
theorem isDirectory_of_locate (hlocate : d.locate path = .ok place) {before after : List String}
    (hpieces : Text.pieces '/' path = before ++ after) (hafter : after ≠ []) :
    d.IsDirectory (before.foldl advance (d.start path)) := by
  obtain ⟨piece, after, rfl⟩ := List.exists_cons_of_ne_nil hafter
  rw [locate] at hlocate
  split at hlocate
  · exact absurd hlocate (by simp)
  split at hlocate
  · exact absurd hlocate (by simp)
  rw [trace] at hlocate
  split at hlocate
  · exact absurd hlocate (by simp)
  · rw [hpieces] at hlocate
    exact isDirectory_of_walk hlocate

/-- A path that ends with a name leads to it from the directory around it. -/
theorem isDirectory_parent_goal (h : Path.EndsIn path outer name)
    (hlocate : d.locate path = .ok place) : d.IsDirectory (d.goal path).parent := by
  rw [goal_of_endsIn h, Place.parent_child]
  exact isDirectory_of_locate hlocate h.pieces (List.cons_ne_nil _ _)

theorem locate_of_find {node : DiskNode} (h : d.find path = .ok (place, node)) :
    d.locate path = .ok place := by
  rw [find] at h
  split at h
  · exact absurd h (by simp)
  · rename_i hlocate
    split at h
    · rw [hlocate, (Prod.mk.inj (Except.ok.inj h)).1]
    · exact absurd h (by simp)

/-- Whether what a path leads to, and the directory around it, lie in a region. -/
structure Within (d : Disk) (region : Place → Prop) (path : String) : Prop where
  goal : region (d.goal path)
  around : region (d.goal path).parent

theorem Within.of_here (h : d.Within region path) (hhere : d'.here = d.here) :
    d'.Within region path := by
  refine ⟨?_, ?_⟩ <;> rw [goal_of_here hhere]
  · exact h.goal
  · exact h.around

/-- A file that is not to stay may be removed. -/
theorem keeps_removeFile {result : Except IoFailure Unit} (hpath : Path.EndsIn path outer name)
    (hne : ¬ kept (d.goal path)) (hwithin : d.Within region path)
    (h : d.removeFile path = (result, d')) : Keeps kept region d d' := by
  rcases result with failure | _
  · exact (same_of_removeFile h).keeps
  obtain ⟨d₁, bytes, time, hsame, hfind, rfl⟩ := removeFile_ok h
  have hparent : d₁.IsDirectory (d.goal path).parent := by
    rw [← goal_of_here hsame.here]
    exact isDirectory_parent_goal hpath (locate_of_find hfind)
  exact hsame.keeps.trans
    (keeps_take (find_ok hfind).2 hne hparent hwithin.goal hwithin.around)

/-- A file that is not to stay may be created or emptied. -/
theorem keeps_createFile {result : Except IoFailure Place} (hne : ¬ kept (d.goal path))
    (hwithin : d.Within region path) (h : d.createFile path = (result, d')) :
    Keeps kept region d d' ∧ ∀ place, result = .ok place →
      place = d.goal path ∧ ∃ time, d'.node? (d.goal path) = some (.file [] time) := by
  rw [createFile] at h
  split at h
  · rename_i hfault
    obtain ⟨rfl, rfl⟩ := Prod.mk.inj h
    exact ⟨(same_of_nextFault hfault).keeps, by simp⟩
  rename_i d₁ hfault
  have hsame := same_of_nextFault hfault
  split at h
  · obtain ⟨rfl, rfl⟩ := Prod.mk.inj h
    exact ⟨hsame.keeps, by simp⟩
  rename_i place hlocate
  obtain rfl : place = d.goal path := (locate_ok hlocate).trans (goal_of_here hsame.here path)
  split at h
  · obtain ⟨rfl, rfl⟩ := Prod.mk.inj h
    exact ⟨hsame.keeps, by simp⟩
  · rename_i bytes time hnode
    obtain ⟨rfl, rfl⟩ := Prod.mk.inj h
    refine ⟨hsame.keeps.trans (keeps_put hwithin.goal (fun _ _ _ => hne)
      fun hdirectory => absurd hdirectory (not_isDirectory_of_file hnode)), fun place hplace => ?_⟩
    exact ⟨(Except.ok.inj hplace).symm, d₁.now, by rw [node?_put, if_pos rfl]⟩
  rename_i hnode
  split at h
  · rename_i time hparent
    obtain ⟨rfl, rfl⟩ := Prod.mk.inj h
    have hinside : d.goal path ≠ (d.goal path).parent := by
      intro heq
      rw [← heq, hnode] at hparent
      exact absurd hparent (by simp)
    refine ⟨hsame.keeps.trans (keeps_put_stamp hnode ⟨time, hparent⟩ hwithin.goal hwithin.around),
      fun place hplace => ⟨(Except.ok.inj hplace).symm, d₁.now, ?_⟩⟩
    rw [node?_stamp, if_neg hinside, node?_put, if_pos rfl]
  · obtain ⟨rfl, rfl⟩ := Prod.mk.inj h
    exact ⟨hsame.keeps, by simp⟩
  · obtain ⟨rfl, rfl⟩ := Prod.mk.inj h
    exact ⟨hsame.keeps, by simp⟩

/-- A file that is not to stay may be filled where it was created. -/
theorem keeps_fillFile {old bytes : List UInt8} {time : Int} {result : Except IoFailure Unit}
    (hne : ¬ kept place) (hregion : region place) (hnode : d.node? place = some (.file old time))
    (h : d.fillFile place bytes = (result, d')) :
    Keeps kept region d d' ∧
      (result = .ok () → ∃ time, d'.node? place = some (.file bytes time)) := by
  rcases fillFile_cases h with ⟨failure, rfl, hsame⟩ | ⟨d₁, hsame, rfl, rfl⟩
  · exact ⟨hsame.keeps, by simp⟩
  · have hfile : ¬ d₁.IsDirectory place := not_isDirectory_of_file ((hsame.node? _).trans hnode)
    refine ⟨hsame.keeps.trans (keeps_put hregion (fun _ _ _ => hne)
      fun hdirectory => absurd hdirectory hfile), fun _ => ⟨d₁.now, by rw [node?_put, if_pos rfl]⟩⟩

/-- A file that is not to stay may be given the name of another one that is not either. -/
theorem keeps_rename {source target : String} {bytes : List UInt8} {time : Int}
    {result : Except IoFailure Unit} (hpath : Path.EndsIn source outer name)
    (hsource : d.node? (d.goal source) = some (.file bytes time))
    (hne : ¬ kept (d.goal source)) (hne' : ¬ kept (d.goal target)) (hwithin : d.Within region source)
    (hwithin' : d.Within region target) (h : d.rename source target = (result, d')) :
    Keeps kept region d d' := by
  rcases result with failure | _
  · exact (same_of_rename h).keeps
  obtain ⟨d₁, node, hsame, hfind, -, hnew, hparent', rfl⟩ := rename_ok h
  have hold := (find_ok hfind).2
  obtain rfl : node = .file bytes time :=
    Option.some.inj ((hold.symm.trans (hsame.node? _)).trans hsource)
  have hparent : d₁.IsDirectory (d.goal source).parent := by
    rw [← goal_of_here hsame.here]
    exact isDirectory_parent_goal hpath (locate_of_find hfind)
  have htake : Keeps kept region d₁ (d₁.take (d.goal source)) :=
    keeps_take hold hne hparent hwithin.goal hwithin.around
  have hdirectory : ¬ (d₁.take (d.goal source)).IsDirectory (d.goal target) := by
    rintro ⟨time', htaken⟩
    have hsourceParent : d.goal target ≠ (d.goal source).parent :=
      fun heq => hnew (heq ▸ hparent)
    rw [node?_take, if_neg hsourceParent] at htaken
    split at htaken
    · exact absurd htaken (by simp)
    · exact hnew ⟨time', htaken⟩
  have hput : Keeps kept region d₁
      ((d₁.take (d.goal source)).put (d.goal target) (.file bytes time)) :=
    htake.trans (keeps_put hwithin'.goal (fun _ _ _ => hne') fun hd => absurd hd hdirectory)
  exact hsame.keeps.trans
    (hput.trans (keeps_stamp (hput.directories _ hparent') hwithin'.around))

/-! ### Looking past a region -/

/-- Whether a path stays outside a region at every step of its way. -/
def Avoids (d : Disk) (region : Place → Prop) (path : String) : Prop :=
  ∀ front ∈ (Text.pieces '/' path).inits, ¬ region (front.foldl advance (d.start path))

instance instDecidableAvoids (d : Disk) (region : Place → Prop) [DecidablePred region]
    (path : String) : Decidable (d.Avoids region path) :=
  inferInstanceAs (Decidable (∀ front ∈ (Text.pieces '/' path).inits,
    ¬ region (front.foldl advance (d.start path))))

theorem Keeps.walk_eq (h : Keeps kept region d d') {ps : List String}
    (hps : ∀ front ∈ ps.inits, ¬ region (front.foldl advance place)) :
    d'.walk place ps = d.walk place ps := by
  induction ps generalizing place with
  | nil => rfl
  | cons piece ps ih =>
    have hplace : d'.node? place = d.node? place :=
      h.outside place (hps [] ((List.mem_inits _ _).2 List.nil_prefix))
    have hrest : d'.walk (advance place piece) ps = d.walk (advance place piece) ps := by
      refine ih fun front hfront => ?_
      exact hps (piece :: front) ((List.mem_inits _ _).2 (List.cons_prefix_cons.2
        ⟨rfl, (List.mem_inits _ _).1 hfront⟩))
    rw [walk, walk, hplace, hrest]

theorem Keeps.trace_eq (h : Keeps kept region d d') (hpath : d.Avoids region path) :
    d'.trace path = d.trace path := by
  rw [trace, trace, h.here]
  congr 1
  exact h.walk_eq hpath

theorem Keeps.node?_goal (h : Keeps kept region d d') (hpath : d.Avoids region path) :
    d'.node? (d.goal path) = d.node? (d.goal path) :=
  h.outside _ (hpath _ ((List.mem_inits _ _).2 (List.prefix_refl _)))

/-- What a path that avoids a region names is not changed inside the region. -/
theorem Keeps.find_eq (h : Keeps kept region d d') (hpath : d.Avoids region path) :
    d'.find path = d.find path := by
  have hlocate : d'.locate path = d.locate path := by rw [locate, locate, h.trace_eq hpath]
  rw [find, find, hlocate]
  cases hplace : d.locate path with
  | error failure => rfl
  | ok place =>
    obtain rfl := locate_ok hplace
    simp only [h.node?_goal hpath]

theorem Keeps.modified?_eq (h : Keeps kept region d d') (hpath : d.Avoids region path) :
    d'.modified? path = d.modified? path := by
  rw [modified?, modified?, h.find_eq hpath]

theorem Keeps.canonical?_eq (h : Keeps kept region d d') (hpath : d.Avoids region path) :
    d'.canonical? path = d.canonical? path := by
  rw [canonical?, canonical?, h.trace_eq hpath]
  cases htrace : d.trace path with
  | error failure => rfl
  | ok place =>
    obtain rfl : place = d.goal path := by
      rw [trace] at htrace
      split at htrace
      · exact absurd htrace (by simp)
      · exact walk_ok htrace
    simp only [h.node?_goal hpath]

/-! ### Files that stay -/

theorem exists_find_of_openFile {bytes : List UInt8} (h : d.openFile path = .ok ⟨bytes, none⟩) :
    ∃ time, d.find path = .ok (d.goal path, .file bytes time) := by
  rw [openFile] at h
  split at h
  · exact absurd h (by simp)
  · rename_i place bytes' time hfind
    obtain rfl := (find_ok hfind).1
    obtain rfl : bytes' = bytes := congrArg Artifact.Stream.bytes (Except.ok.inj h)
    exact ⟨time, hfind⟩
  · exact absurd (congrArg Artifact.Stream.fault (Except.ok.inj h)) (by simp)

/-- A file that is left alone is opened as before, and has its time. -/
theorem Keeps.openFile_eq (h : Keeps kept region d d') (hkept : kept (d.goal path)) {bytes : List UInt8}
    (hopen : d.openFile path = .ok ⟨bytes, none⟩) :
    d'.openFile path = .ok ⟨bytes, none⟩ ∧ d'.modified? path = d.modified? path := by
  obtain ⟨time, hfind⟩ := exists_find_of_openFile hopen
  have hfind' : d'.find path = .ok (d.goal path, .file bytes time) := by
    rw [find, locate_of_directories h.directories h.here (locate_of_find hfind)]
    simp only [h.files _ hkept bytes time (find_ok hfind).2]
  rw [openFile, modified?, modified?, hfind, hfind']
  exact ⟨rfl, rfl⟩

end AblAnalysis.Disk
