import AblAnalysis.Project.Batch
import AblAnalysis.Proofs.Project.Reloading
import AblAnalysis.Proofs.Storage.Nesting
import AblAnalysis.Proofs.Task.Promises
import AblAnalysis.Storage.Steps

/-!
What dealing with a unit leaves alone, step by step, and what it relies on. Loading leaves the disk as it is,
and a parser that only reads changes nothing either. What is left are the changes of a build: it removes an
artifact, creates the directories around it, and writes it under a temporary name first. All other files stay,
and so does everything outside a region; and if the others leave these two places alone, then a unit that is
built has its artifact there (`Batch.works_serve`).
-/

namespace AblAnalysis

open Artifact

/-! ### Beside others -/

/-- Whether a disk comes after another with directories where they were, and changes in a region only. -/
def Disk.Follows (region : Place → Prop) (d d' : Disk) : Prop :=
  Disk.Keeps (fun _ => False) region d d'

/-- Whether a step keeps files, and a property of what the parser has for itself. -/
structure Leaves {π : Type} (kept region : Place → Prop) (I : π → Prop) (s s' : Disk × π) : Prop where
  disk : Disk.Keeps kept region s.1 s'.1
  own : I s.2 → I s'.2

section Leaves

variable {π : Type} {kept kept' region : Place → Prop} {I : π → Prop} {d : Disk} {s s' s'' : Disk × π}

theorem Leaves.refl (s : Disk × π) : Leaves kept region I s s :=
  ⟨.refl s.1, id⟩

theorem Leaves.trans (h : Leaves kept region I s s') (h' : Leaves kept region I s' s'') :
    Leaves kept region I s s'' :=
  ⟨h.disk.trans h'.disk, fun hs => h'.own (h.own hs)⟩

theorem Leaves.mono (h : Leaves kept region I s s') (himp : ∀ g, kept' g → kept g) :
    Leaves kept' region I s s' :=
  ⟨h.disk.mono himp, h.own⟩

theorem Disk.Follows.of_keeps {d' d'' : Disk} (h : d.Follows region d')
    (hkeeps : Disk.Keeps kept region d' d'') : d.Follows region d'' :=
  h.trans (hkeeps.mono fun _ => False.elim)

end Leaves

/-- Whether a task on an artifact leads from one property to another, while others leave its places alone; it
leaves all other places alone. -/
def Works {π α : Type} (d : Disk) (artifact : String) (region : Place → Prop) (I : π → Prop)
    (P : Disk → Prop) (t : Task (Disk × π) α) (Q : α → Disk → Prop) : Prop :=
  Task.Brings (Leaves (d.Owns artifact) region I) (Leaves (fun g => ¬ d.Owns artifact g) region I)
    (fun s => P s.1) t fun a s => Q a s.1

variable {π α : Type} {d : Disk} {region : Place → Prop} {I : π → Prop} {session : Session}
  {parser : UnitParser (Task (Disk × π))} {artifact name : String} {outer : List String}

/-- What is true of a task on a disk is true of it on a part of the state. -/
theorem works_onFirst {P : Disk → Prop} {t : Task Disk α} {Q : α → Disk → Prop}
    (h : Task.Brings (Disk.Keeps (d.Owns artifact) region)
      (Disk.Keeps (fun g => ¬ d.Owns artifact g) region) P t Q) :
    Works d artifact region I P t.onFirst Q :=
  h.onFirst (fun _ _ hrely => hrely.disk) fun _ _ hkeeps hsame => ⟨hkeeps, fun hs => hsame ▸ hs⟩

/-- Whether a parser leaves everything where it is. It may take time, and meet failures. -/
def ReadsOnly (parser : UnitParser (Task (Disk × π))) : Prop :=
  ∀ context, (parser context).Always fun s s' => s'.1.nodes = s.1.nodes ∧ s'.1.here = s.1.here

/-! ### Operations -/

namespace Disk

variable {kept kept' : Place → Prop} {place : Place} {path : String}

theorem stable_follows : Task.Stable (Keeps kept region) (d.Follows region) :=
  fun _ _ h hkeeps => h.of_keeps hkeeps

/-- The directories of a path are created without a change outside a region. -/
theorem brings_stepPieces {ps : List String} (hmade : d.MadeIn region ps) :
    Task.Brings (Keeps kept region) (Keeps kept' region) (d.Follows region) (stepPieces ps)
      fun _ => d.Follows region := by
  induction ps with
  | nil => exact .pure fun _ h => h
  | cons piece outer ih =>
    have houter : d.MadeIn region outer := fun q hq => hmade q (hq.cons piece)
    rw [stepPieces]
    split
    · exact ih houter
    rename_i hpart
    replace hpart : Path.isPart piece = true := by simpa using hpart
    have hcreate : Task.Brings (Keeps kept region) (Keeps kept' region) (d.Follows region)
        (.once (·.createDirectory (String.intercalate "/" (piece :: outer).reverse)))
        fun _ => d.Follows region := by
      refine .once stable_follows fun e created e' he hcreated => ?_
      have hgoal := hmade.of_keeps he _ ⟨piece, outer, List.suffix_refl _, hpart, rfl⟩
      have hkeeps : Keeps kept' region e e' := keeps_createDirectory hgoal hcreated
      exact ⟨hkeeps, he.of_keeps hkeeps⟩
    have hlook : Task.Brings (Keeps kept region) (Keeps kept' region) (d.Follows region)
        (.look (·.isDirectory (String.intercalate "/" (piece :: outer).reverse)))
        fun _ => d.Follows region :=
      .look stable_follows Keeps.refl fun _ h => h
    refine hcreate.bind fun created => ?_
    rcases created with failure | _
    · dsimp only
      split
      · refine (ih houter).bind fun made => ?_
        rcases made with failure' | _
        · exact .pure fun _ h => h
        refine hcreate.bind fun again => ?_
        rcases again with failure' | _
        · exact hlook.bind fun there => by split <;> exact .pure fun _ h => h
        · exact .pure fun _ h => h
      · exact hlook.bind fun there => by split <;> exact .pure fun _ h => h
    · exact .pure fun _ h => h

/-- Whether there is a file with some bytes at a place. -/
def FileAt (d : Disk) (place : Place) (bytes : List UInt8) : Prop :=
  ∃ time, d.node? place = some (.file bytes time)

theorem stable_fileAt {bytes : List UInt8} (hkept : kept place) :
    Task.Stable (Keeps kept region) fun e => d.Follows region e ∧ e.FileAt place bytes := by
  rintro e e' ⟨h, time, hnode⟩ hkeeps
  exact ⟨h.of_keeps hkeeps, time, hkeeps.files _ hkept _ _ hnode⟩

/-- A file is written at its place, if others leave it there between the steps. -/
theorem brings_stepWrite (hown : kept (d.goal path)) (hwithin : d.Within region path)
    (bytes : List UInt8) :
    Task.Brings (Keeps kept region) (Keeps (fun g => ¬ kept g) region) (d.Follows region)
      (stepWrite path bytes) fun written e => d.Follows region e ∧
        (written = .ok () → e.FileAt (d.goal path) bytes) := by
  have hcreate : Task.Brings (Keeps kept region) (Keeps (fun g => ¬ kept g) region) (d.Follows region)
      (.once (·.createFile path)) fun created e => d.Follows region e ∧
        ∀ place, created = .ok place → place = d.goal path ∧ e.FileAt (d.goal path) [] := by
    refine .once stable_follows fun e created e' he hcreated => ?_
    have hgoal : e.goal path = d.goal path := goal_of_here he.here path
    have hother : ¬ ¬ kept (e.goal path) := by
      rw [hgoal]
      exact not_not_intro hown
    obtain ⟨hkeeps, hfile⟩ : Keeps (fun g => ¬ kept g) region e e' ∧ _ :=
      keeps_createFile hother (hwithin.of_here he.here) hcreated
    rw [hgoal] at hfile
    exact ⟨hkeeps, he.of_keeps hkeeps, hfile⟩
  have hfill : Task.Brings (Keeps kept region) (Keeps (fun g => ¬ kept g) region)
      (fun e => d.Follows region e ∧ e.FileAt (d.goal path) [])
      (.once (·.fillFile (d.goal path) bytes)) fun filled e => d.Follows region e ∧
        (filled = .ok () → e.FileAt (d.goal path) bytes) := by
    refine .once (stable_fileAt hown) ?_
    rintro e filled e' ⟨he, time, hnode⟩ hfilled
    obtain ⟨hkeeps, hfile⟩ : Keeps (fun g => ¬ kept g) region e e' ∧ _ :=
      keeps_fillFile (not_not_intro hown) hwithin.goal hnode hfilled
    exact ⟨hkeeps, he.of_keeps hkeeps, hfile⟩
  have hsync : Task.Brings (Keeps kept region) (Keeps (fun g => ¬ kept g) region)
      (fun e => d.Follows region e ∧ e.FileAt (d.goal path) bytes) (.once (·.syncFile))
      fun _ e => d.Follows region e ∧ e.FileAt (d.goal path) bytes := by
    refine .once (stable_fileAt hown) ?_
    rintro e synced e' ⟨he, time, hnode⟩ hsynced
    have hsame := same_of_syncFile hsynced
    have hkeeps : Keeps (fun g => ¬ kept g) region e e' := hsame.keeps
    exact ⟨hkeeps, he.of_keeps hkeeps, time, (hsame.node? _).trans hnode⟩
  rw [stepWrite]
  refine hcreate.bind fun created => ?_
  rcases created with failure | place
  · exact .pure fun e he => ⟨he.1, by simp⟩
  rintro e ⟨he, hplace⟩
  obtain ⟨rfl, hempty⟩ := hplace place rfl
  refine hfill.bind (fun filled => ?_) e ⟨he, hempty⟩
  rcases filled with failure | _
  · exact .pure fun e he => ⟨he.1, by simp⟩
  refine (hsync.weaken (fun e he => ⟨he.1, he.2 rfl⟩) fun _ _ h => h).bind fun synced => ?_
  rcases synced with failure | _
  · exact .pure fun e he => ⟨he.1, by simp⟩
  · exact .pure fun e he => ⟨he.1, fun _ => he.2⟩

end Disk

namespace Record

variable {r : Record} {unit : ParsedUnit}

/-! ### Writing -/

theorem works_store (hpath : Path.EndsIn artifact outer name) (hconfined : d.Confined region artifact)
    (bytes : List UInt8) :
    Works d artifact region I (d.Follows region) (store Disk.sharedSteps artifact bytes)
      fun stored e => d.Follows region e ∧
        (stored = .ok () → e.openFile artifact = .ok ⟨bytes, none⟩) := by
  obtain ⟨directory, hparent, haround⟩ := hpath.exists_parent
  have hcreate : Works d artifact region I (d.Follows region)
      (Disk.sharedSteps.createDirectories directory) fun _ => d.Follows region := by
    refine works_onFirst (Disk.brings_stepPieces ?_)
    rintro q ⟨piece, rest, hsuffix, hpart, rfl⟩
    refine hconfined.made _ ⟨piece, rest, ?_, hpart, rfl⟩
    rw [hpath.pieces, List.dropLast_concat]
    exact haround piece rest hsuffix hpart
  have hwrite : Works d artifact region I (d.Follows region)
      (Disk.sharedSteps.writeFile (artifact ++ ".tmp") bytes) fun written e => d.Follows region e ∧
        (written = .ok () → e.FileAt (d.goal (artifact ++ ".tmp")) bytes) :=
    works_onFirst (Disk.brings_stepWrite (d.owns_temporary artifact) hconfined.aside bytes)
  have hrename : Works d artifact region I
      (fun e => d.Follows region e ∧ e.FileAt (d.goal (artifact ++ ".tmp")) bytes)
      (Disk.sharedSteps.rename (artifact ++ ".tmp") artifact) fun renamed e => d.Follows region e ∧
        (renamed = .ok () → e.openFile artifact = .ok ⟨bytes, none⟩) := by
    refine works_onFirst (.once (Disk.stable_fileAt (d.owns_temporary artifact)) ?_)
    rintro e renamed e' ⟨he, time, hnode⟩ hrenamed
    have hgoal (path : String) : e.goal path = d.goal path := Disk.goal_of_here he.here path
    rw [← hgoal] at hnode
    have hkeeps : Disk.Keeps (fun g => ¬ d.Owns artifact g) region e e' := by
      have hconfined' := hconfined.of_keeps he
      refine Disk.keeps_rename hpath.temporary hnode ?_ ?_ hconfined'.aside hconfined'.within hrenamed
      · rw [hgoal]
        exact not_not_intro (d.owns_temporary artifact)
      · rw [hgoal]
        exact not_not_intro (d.owns_goal artifact)
    refine ⟨hkeeps, he.of_keeps hkeeps, ?_⟩
    rintro rfl
    exact Disk.openFile_of_rename hrenamed hnode (Disk.parent_goal_ne hpath e)
  rw [store]
  simp only [hparent]
  refine hcreate.bind fun created => ?_
  rcases created with failure | _
  · exact .pure fun s hs => ⟨hs, by simp⟩
  refine hwrite.bind fun written => ?_
  rcases written with ⟨stage, failure⟩ | _
  · cases stage <;> exact .pure fun s hs => ⟨hs.1, by simp⟩
  refine (hrename.weaken (fun s hs => ⟨hs.1, hs.2 rfl⟩) fun _ _ h => h).bind fun renamed => ?_
  rcases renamed with failure | _
  · exact .pure fun s hs => ⟨hs.1, by simp⟩
  · exact .pure fun s hs => ⟨hs.1, fun _ => hs.2 rfl⟩

/-- Whether the artifact of a record has become that of a unit. -/
def Holds (r : Record) (unit : ParsedUnit) (d : Disk) : Prop :=
  ∃ bytes, (Contents.describe unit).encode unit.tree = .ok bytes ∧
    d.openFile r.artifact = .ok ⟨bytes, none⟩

theorem works_write (hpath : Path.EndsIn r.artifact outer name)
    (hconfined : d.Confined region r.artifact) (unit : ParsedUnit) :
    Works d r.artifact region I (d.Follows region) (r.write Disk.sharedSteps session unit)
      fun answer e => d.Follows region e ∧ (answer.1 = .ok () → r.Holds unit e) := by
  rw [write, Contents.note_refresh]
  cases hencode : (Contents.describe unit).encode unit.tree with
  | error cause => exact .pure fun s hs => ⟨hs, by simp⟩
  | ok bytes =>
    have hpause : Works d r.artifact region I (d.Follows region)
        (Disk.sharedSteps.pause session.cache.retryDelay.toNat) fun _ => d.Follows region :=
      works_onFirst (.look Disk.stable_follows Disk.Keeps.refl fun e he => he)
    refine ((works_store hpath hconfined bytes).retryFrom hpause (fun _ _ hs => hs.1) _ _).bind
      fun stored => ?_
    rcases stored with cause | _
    · exact .pure fun s hs => ⟨hs.1, by simp⟩
    · exact .pure fun s hs => ⟨hs.1, fun _ => ⟨bytes, hencode, hs.2 rfl⟩⟩

/-! ### Building -/

/-- Whether a unit is one that the parser can give for the source of a record, and its artifact is there. -/
def BuiltFrom (parser : UnitParser (Task (Disk × π))) (session : Session) (r : Record) (unit : ParsedUnit)
    (d : Disk) : Prop :=
  Task.CanGive (.ok unit) (parser (UnitContext.start session r.source)) ∧ r.Holds unit d

theorem works_parsing (hparser : ReadsOnly parser) (context : UnitContext)
    (hown : (parser context).Always fun s s' => I s.2 → I s'.2) :
    Works d artifact region I (d.Follows region) (parser context)
      fun answer e => d.Follows region e ∧ Task.CanGive answer (parser context) := by
  refine .of_always ((hparser context).and hown) ?_ fun s s' hs hrely => hs.of_keeps hrely.disk
  rintro s s' hs ⟨⟨hnodes, hhere⟩, hI⟩
  have hkeeps : Disk.Keeps (fun g => ¬ d.Owns artifact g) region s.1 s'.1 :=
    Disk.keeps_of_nodes hnodes hhere
  exact ⟨⟨hkeeps, hI⟩, hs.of_keeps hkeeps⟩

theorem works_rebuild (hpath : Path.EndsIn r.artifact outer name)
    (hconfined : d.Confined region r.artifact) (hparser : ReadsOnly parser)
    (hown : (parser (UnitContext.start session r.source)).Always fun s s' => I s.2 → I s'.2) :
    Works d r.artifact region I (d.Follows region) (r.rebuild Disk.sharedSteps session parser)
      fun answer e => d.Follows region e ∧
        ∀ unit, answer.1 = .ok unit → r.BuiltFrom parser session unit e := by
  let cleared : Record := { r with contents := r.contents.refresh }
  rw [rebuild]
  refine (works_parsing hparser _ hown).bind fun parsed => ?_
  rcases parsed with cause | unit
  · exact .pure fun s hs => ⟨hs.1, by simp⟩
  rintro s ⟨hs, hgives⟩
  have hwrite : Works d r.artifact region I (d.Follows region)
      (cleared.write Disk.sharedSteps session unit) fun answer e =>
        d.Follows region e ∧ (answer.1 = .ok () → cleared.Holds unit e) :=
    works_write (r := cleared) hpath hconfined unit
  refine hwrite.bind (fun answer => ?_) s hs
  rcases answer with ⟨cause | _, written⟩
  · exact .pure fun s hs => ⟨hs.1, by simp⟩
  · refine .pure fun s hs => ⟨hs.1, fun unit' hunit => ?_⟩
    obtain rfl := Except.ok.inj hunit
    exact ⟨hgives, hs.2 rfl⟩

theorem works_build (hpath : Path.EndsIn r.artifact outer name)
    (hconfined : d.Confined region r.artifact) (hparser : ReadsOnly parser)
    (hown : (parser (UnitContext.start session r.source)).Always fun s s' => I s.2 → I s'.2) :
    Works d r.artifact region I (d.Follows region) (r.build Disk.sharedSteps session parser)
      fun answer e => d.Follows region e ∧
        ∀ unit, answer.1 = .ok unit → r.BuiltFrom parser session unit e := by
  have hrebuild : Works d r.artifact region I (d.Follows region)
      (r.rebuild Disk.sharedSteps session parser) fun answer e => d.Follows region e ∧
        ∀ unit, answer.1 = .ok unit → r.BuiltFrom parser session unit e :=
    works_rebuild hpath hconfined hparser hown
  have hremove : Works d r.artifact region I (d.Follows region) (Disk.sharedSteps.remove r.artifact)
      fun _ => d.Follows region := by
    refine works_onFirst (.once Disk.stable_follows fun e removed e' he hremoved => ?_)
    have hkeeps : Disk.Keeps (fun g => ¬ d.Owns r.artifact g) region e e' := by
      refine Disk.keeps_removeFile hpath ?_ (hconfined.of_keeps he).within hremoved
      rw [Disk.goal_of_here he.here]
      exact not_not_intro (d.owns_goal r.artifact)
    exact ⟨hkeeps, he.of_keeps hkeeps⟩
  rw [build]
  refine hremove.bind fun removed => ?_
  rcases removed with failure | _
  · dsimp only
    split
    · exact hrebuild
    · exact .pure fun s hs => ⟨hs, by simp⟩
  · exact hrebuild

/-! ### Loading -/

/-- Whether a task only looks at the state. -/
def Looks {σ α : Type} (t : Task σ α) : Prop :=
  t.Always fun s s' => s' = s

variable {source : String} {target : Depth} {time : Int}

theorem looks_modified? (path : String) :
    Looks ((Disk.sharedSteps : Files (Task (Disk × π))).modified? path) :=
  fun _ => ⟨rfl, trivial⟩

theorem looks_isFresh (name : String) :
    Looks (isFresh (Disk.sharedSteps : Files (Task (Disk × π))) session time name) := by
  have hfind (paths : List String) :
      Looks (Session.firstExisting? (Disk.sharedSteps : Files (Task (Disk × π))) paths) := by
    induction paths with
    | nil => exact Task.always_pure _ _
    | cons path paths ih =>
      rw [Session.firstExisting?, Files.has]
      refine ((looks_modified? path).bind fun _ => Task.always_pure _ _).bind fun there => ?_
      split
      · exact Task.always_pure _ _
      · exact ih
  rw [isFresh, Session.findFile?]
  refine (hfind _).bind fun found => ?_
  rcases found with - | path
  · exact Task.always_pure _ _
  refine (looks_modified? path).bind fun changed => ?_
  cases changed <;> exact Task.always_pure _ _

theorem looks_firstChanged? (names : List String) :
    Looks (firstChanged? (Disk.sharedSteps : Files (Task (Disk × π))) session time names) := by
  induction names with
  | nil => exact Task.always_pure _ _
  | cons name names ih =>
    rw [firstChanged?]
    split
    · exact ih
    refine (looks_isFresh name).bind fun fresh => ?_
    split
    · exact ih
    · exact Task.always_pure _ _

theorem looks_readFrom (c : Contents) (stream : Stream) :
    Looks (readFrom (Disk.sharedSteps : Files (Task (Disk × π))) session artifact target c stream) := by
  rw [readFrom]
  split
  · exact Task.always_pure _ _
  refine (looks_modified? artifact).bind fun changed => ?_
  rcases changed with - | time
  · exact Task.always_pure _ _
  refine (looks_firstChanged? _).bind fun stale => ?_
  cases stale <;> exact Task.always_pure _ _

theorem looks_loadFile (c : Contents) :
    Looks (loadFile (Disk.sharedSteps : Files (Task (Disk × π))) session source artifact target c) := by
  have hopen : Looks ((Disk.sharedSteps : Files (Task (Disk × π))).openFile artifact) :=
    fun _ => ⟨rfl, trivial⟩
  have hnewer (time : Int) :
      Looks (sourceIsNewer (Disk.sharedSteps : Files (Task (Disk × π))) source time) := by
    rw [sourceIsNewer]
    refine (looks_modified? source).bind fun changed => ?_
    cases changed <;> exact Task.always_pure _ _
  rw [loadFile]
  refine (looks_modified? artifact).bind fun changed => ?_
  rcases changed with - | time
  · exact Task.always_pure _ _
  refine (hnewer time).bind fun newer => ?_
  split
  · exact Task.always_pure _ _
  split
  · exact Task.always_pure _ _
  refine hopen.bind fun opened => ?_
  rcases opened with failure | stream
  · exact Task.always_pure _ _
  · exact looks_readFrom c stream

/-- Loading leaves everything as it is, and the record is for the same unit as before. -/
theorem works_load : Works d artifact region I (d.Follows region) (r.load Disk.sharedSteps session)
    fun answer e => d.Follows region e ∧ r.Alike answer.2 := by
  have hlooks : Looks (r.find (Disk.sharedSteps : Files (Task (Disk × π))) session .stringsLoaded) := by
    rw [find]
    split
    · exact Task.always_pure _ _
    · exact looks_loadFile _
  have hfind : Works d artifact region I (d.Follows region)
      (r.find Disk.sharedSteps session .stringsLoaded) fun _ => d.Follows region := by
    refine (Task.Brings.of_always hlooks ?_ fun s s' hs hrely => hs.of_keeps hrely.disk).weaken
      (fun _ h => h) fun _ _ h => h.1
    rintro s _ hs rfl
    exact ⟨.refl _, hs⟩
  rw [load, loadTo_eq_find]
  exact hfind.bind fun found => .pure fun s hs => ⟨hs, r.alike_loaded _ _⟩

end Record

/-! ### One unit -/

namespace Batch

variable {r : Record}

/-- Dealing with the unit of a record. If it is built, its artifact is there. -/
theorem works_serve (hpath : Path.EndsIn r.artifact outer name)
    (hconfined : d.Confined region r.artifact) (hparser : ReadsOnly parser)
    (hown : (parser (UnitContext.start session r.source)).Always fun s s' => I s.2 → I s'.2) :
    Works d r.artifact region I (d.Follows region) (serve Disk.sharedSteps session parser r)
      fun outcome e => d.Follows region e ∧
        (outcome = .built → ∃ unit, r.BuiltFrom parser session unit e) := by
  rw [serve]
  refine Record.works_load.bind fun answer => ?_
  obtain ⟨failure | _, loaded⟩ := answer
  · rintro s ⟨hs, halike⟩
    have hbuild : Works d loaded.artifact region I (d.Follows region)
        (loaded.build Disk.sharedSteps session parser) fun answer e => d.Follows region e ∧
          ∀ unit, answer.1 = .ok unit → loaded.BuiltFrom parser session unit e :=
      Record.works_build (halike.artifact ▸ hpath) (halike.artifact ▸ hconfined) hparser
        (halike.source ▸ hown)
    rw [halike.artifact] at hbuild
    refine hbuild.bind (fun built => ?_) s hs
    rcases built with ⟨cause | unit, _⟩
    · exact .pure fun s hs => ⟨hs.1, by simp⟩
    · refine .pure fun s hs => ⟨hs.1, fun _ => ⟨unit, ?_⟩⟩
      obtain ⟨hgives, hholds⟩ := hs.2 unit rfl
      rw [halike.source] at hgives
      refine ⟨hgives, ?_⟩
      rw [Record.Holds, halike.artifact] at hholds
      exact hholds
  · exact .pure fun s hs => ⟨hs.1, by simp⟩

end Batch

end AblAnalysis
