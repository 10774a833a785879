import AblAnalysis.Proofs.Project.Reloading
import AblAnalysis.Proofs.Storage.Retries
import AblAnalysis.Proofs.Storage.Walks

/-!
What building leaves on a disk. The old artifact is removed first, and the new one appears under its
name as a whole or not at all: the steps before that put nothing where the artifact goes
(`brings_store`), however often they are repeated. So after a build the artifact is that of the unit, or
it is gone, or nothing has been done at all (`build_run`). That takes a path that can be followed to the
last `..` in it: when a directory before that is missing, what is behind it is hidden from the removal,
and writing the new artifact creates the directory (`openFile_build_detour`).
-/

namespace AblAnalysis

open Artifact

/-! ### Programs and what they leave -/

/-- Whether a program, from any state with one property, comes to an answer and a state with another. -/
def Brings {σ α : Type} (P : σ → Prop) (program : StateM σ α) (Q : α → σ → Prop) : Prop :=
  ∀ s, P s → Q (program.run s).1 (program.run s).2

namespace Brings

variable {σ α β : Type} {P : σ → Prop} {Q : β → σ → Prop} {R : α → σ → Prop}

theorem pure {b : β} (h : ∀ s, P s → Q b s) : Brings P (pure b) Q :=
  h

theorem bind {program : StateM σ α} {next : α → StateM σ β} (h : Brings P program R)
    (hnext : ∀ a, Brings (R a) (next a) Q) : Brings P (program >>= next) Q := by
  intro s hs
  exact hnext _ _ (h s hs)

theorem weaken {P' : σ → Prop} {program : StateM σ α} (h : Brings P program R)
    (himp : ∀ s, P' s → P s) : Brings P' program R :=
  fun s hs => h s (himp s hs)

/-- An operation on the state is known by its answer and the state after it. -/
theorem modifyGet {operation : σ → α × σ}
    (h : ∀ s a s', P s → operation s = (a, s') → R a s') : Brings P (modifyGet operation) R :=
  fun s hs => h s _ _ hs rfl

/-- An operation that leaves everything in order when it fails can be repeated. -/
theorem retryFrom {pause : StateM σ Unit} {operation : StateM σ (Except Error α)}
    {S : Except Error α → σ → Prop} (h : Brings P operation S)
    (hpause : Brings P pause fun _ => P) (herror : ∀ e s, S (.error e) s → P s)
    (limit attempt : UInt32) :
    Brings P (AblAnalysis.retryFrom (fun _ => pause) operation limit attempt) S := by
  rw [retryFrom_eq_retry]
  induction limit.toNat - attempt.toNat with
  | zero => exact h
  | succ retries ih =>
    rw [retry]
    refine h.bind fun result => ?_
    split
    · rename_i text
      intro s hs
      exact hpause.bind (fun _ => ih) s (herror _ s hs)
    · exact .pure fun s hs => hs

end Brings

namespace Disk

/-- Whether nothing stands where a path leads, and it leads where it did on an earlier disk, if it could
be followed there. -/
def Clear (d : Disk) (path : String) (d' : Disk) : Prop :=
  d.Leads path → d'.here = d.here ∧ d'.Lacks path

/-- Whether what a path names can be removed, or is not there. -/
def Removes (d : Disk) (path : String) : Prop :=
  ∀ failure, (d.removeFile path).1 = .error failure → failure.kind = .notFound

/-- Whether a file holds what was to be stored in it, or storing it failed and nothing is there. -/
def Stored {ε α : Type} (d : Disk) (path : String) (bytes : List UInt8) : Except ε α → Disk → Prop
  | .ok _, d' => d'.openFile path = .ok ⟨bytes, none⟩
  | .error _, d' => d.Clear path d'

end Disk

namespace Record

variable {artifact name : String} {outer : List String} {d d' : Disk}

/-- The directories that are created for an artifact, and the file that becomes it, are elsewhere. -/
theorem brings_store (h : Path.EndsIn artifact outer name)
    (hapart : d.Leads artifact → d.Apart artifact outer) (bytes : List UInt8) :
    Brings (d.Clear artifact) (store Disk.files artifact bytes) (d.Stored artifact bytes) := by
  obtain ⟨directory, hparent, -⟩ := h.exists_parent
  have hcreate : Brings (d.Clear artifact) (Disk.files.createDirectories directory)
      fun _ => d.Clear artifact := by
    refine .modifyGet fun d₁ created d₂ hclear hcreated hleads => ?_
    obtain ⟨hhere, hlacks⟩ := hclear hleads
    obtain ⟨hhere', hlacks'⟩ :=
      hlacks.createDirectories h ((hapart hleads).of_here hhere) hparent hcreated
    exact ⟨hhere'.trans hhere, hlacks'⟩
  have hwrite : Brings (d.Clear artifact) (Disk.files.writeFile (artifact ++ ".tmp") bytes)
      fun written d₁ => d.Clear artifact d₁ ∧ (written = .ok () →
        ∃ time, d₁.node? (d₁.goal (artifact ++ ".tmp")) = some (.file bytes time)) := by
    refine .modifyGet fun d₁ written d₂ hclear hwritten => ?_
    obtain ⟨hadds, hfile⟩ := Disk.addsOnly_writeFile hwritten
    rw [Disk.goal_of_here hadds.here]
    refine ⟨fun hleads => ?_, hfile⟩
    obtain ⟨hhere, hlacks⟩ := hclear hleads
    exact ⟨hadds.here.trans hhere, hlacks.of_addsOnly hadds (Disk.goal_temporary_ne h d₁).symm⟩
  have hrename : Brings (fun d₁ => d.Clear artifact d₁ ∧
        ∃ time, d₁.node? (d₁.goal (artifact ++ ".tmp")) = some (.file bytes time))
      (Disk.files.rename (artifact ++ ".tmp") artifact) (d.Stored artifact bytes) := by
    refine .modifyGet fun d₁ renamed d₂ ⟨hclear, time, htime⟩ hrenamed => ?_
    rcases renamed with failure | _
    · intro hleads
      have hsame := Disk.same_of_rename hrenamed
      obtain ⟨hhere, hlacks⟩ := hclear hleads
      exact ⟨hsame.here.trans hhere, hlacks.of_same hsame⟩
    · exact Disk.openFile_of_rename hrenamed htime (Disk.parent_goal_ne h d₁)
  rw [store]
  simp only [hparent]
  refine hcreate.bind fun created => ?_
  rcases created with failure | _
  · exact .pure fun d₁ hclear => hclear
  refine hwrite.bind fun written => ?_
  rcases written with ⟨stage, failure⟩ | _
  · cases stage <;> exact .pure fun d₁ hclear => hclear.1
  refine (hrename.weaken fun d₁ hfile => ⟨hfile.1, hfile.2 rfl⟩).bind fun renamed => ?_
  rcases renamed with failure | _
  · exact .pure fun d₁ hclear => hclear
  · exact .pure fun d₁ hopened => hopened

variable {session : Session} {parser : UnitParser (StateM Disk)} {r r' : Record}

/-- Whether the artifact of a record has become that of a unit, and the record says so. -/
structure Written (r : Record) (unit : ParsedUnit) (r' : Record) (d : Disk) : Prop where
  artifact : ∃ bytes, (Contents.describe unit).encode unit.tree = .ok bytes ∧
    d.openFile r.artifact = .ok ⟨bytes, none⟩
  record : r' = { r with checked := true, contents := (Contents.describe unit).complete unit.tree }
  depth : r'.contents.depth = .stringsLoaded
  current : r'.contents.current = true

/-- What comes of writing a unit once the old artifact is gone: the new one, or none. -/
def WrittenOr (d : Disk) (r : Record) : Except Error ParsedUnit × Record → Disk → Prop
  | (.ok unit, r'), d' => r.Written unit r' d'
  | (.error _, _), d' => d.Clear r.artifact d'

theorem brings_write (h : Path.EndsIn r.artifact outer name)
    (hapart : d.Leads r.artifact → d.Apart r.artifact outer) (unit : ParsedUnit) :
    Brings (d.Clear r.artifact) (r.write Disk.files session unit) fun answer =>
      WrittenOr d r (answer.1.map fun _ => unit, answer.2) := by
  rw [write, Contents.note_refresh]
  cases hencode : (Contents.describe unit).encode unit.tree with
  | error cause => exact .pure fun d₁ hclear => hclear
  | ok bytes =>
    have hstore : Brings (d.Clear r.artifact)
        (retryFrom (fun _ => Disk.files.pause session.cache.retryDelay.toNat)
          (store Disk.files r.artifact bytes) session.cache.maxRetries 0)
        (d.Stored r.artifact bytes) :=
      (brings_store h hapart bytes).retryFrom (.pure fun d₁ hclear => hclear)
        (fun cause d₁ hclear => hclear) _ _
    refine hstore.bind fun stored => ?_
    rcases stored with cause | _
    · exact .pure fun d₁ hclear => hclear
    · exact .pure fun d₁ hopened => ⟨⟨bytes, hencode, hopened⟩, rfl, rfl, rfl⟩

/-- Whether a parser puts nothing where an artifact goes, and stays in the current directory. -/
def Spares (parser : UnitParser (StateM Disk)) (artifact : String) : Prop :=
  ∀ context d d' answer, (parser context).run d = (answer, d') →
    d'.here = d.here ∧ (d.Lacks artifact → d'.Lacks artifact)

theorem brings_rebuild (h : Path.EndsIn r.artifact outer name)
    (hapart : d.Leads r.artifact → d.Apart r.artifact outer) (hparser : Spares parser r.artifact) :
    Brings (d.Clear r.artifact) (r.rebuild Disk.files session parser) (WrittenOr d r) := by
  have hparsed : Brings (d.Clear r.artifact) (parser (UnitContext.start session r.source))
      fun _ => d.Clear r.artifact := by
    intro d₁ hclear hleads
    obtain ⟨hhere, hlacks⟩ := hclear hleads
    obtain ⟨hhere', hlacks'⟩ := hparser _ d₁ _ _ rfl
    exact ⟨hhere'.trans hhere, hlacks' hlacks⟩
  let cleared : Record := { r with contents := r.contents.refresh }
  have hwrite (unit : ParsedUnit) : Brings (d.Clear r.artifact)
      (cleared.write Disk.files session unit) fun answer =>
        WrittenOr d cleared (answer.1.map fun _ => unit, answer.2) :=
    brings_write (r := cleared) h hapart unit
  rw [rebuild]
  refine hparsed.bind fun parsed => ?_
  rcases parsed with cause | unit
  · exact .pure fun d₁ hclear => hclear
  refine (hwrite unit).bind fun answer => ?_
  rcases answer with ⟨cause | _, written⟩
  · exact .pure fun d₁ hclear => hclear
  · exact .pure fun d₁ hd => ⟨hd.artifact, hd.record, hd.depth, hd.current⟩

/-! ### Building -/

/-- Whether a load without bytes of its own says that the artifact is missing, however far it goes. -/
def Misses (r : Record) (d : Disk) : Prop :=
  ∀ (session : Session) (target : Depth),
    ({ r with blob := none }.loadTo Disk.files session target).run d =
      pure ((.error .missing, { r with blob := none }.loaded target {}), d)

theorem misses_of_lacks (h : d.Lacks r.artifact) : r.Misses d := by
  intro session target
  have hmodified : (Disk.files.modified? r.artifact).run d = pure (none, d) := by
    rw [(Disk.shows_snapshot d).modified?]
    exact congrArg (fun time => pure (time, d)) h.modified?
  rw [loadTo_run_eq, find, Contents.refresh_eq]
  simp only [loadFile, StateT.run_bind, hmodified, pure_bind]
  rfl

/-- What can come of a build, by what removing the old artifact comes to. -/
inductive Built (session : Session) (d : Disk) (r : Record) :
    Except Error ParsedUnit → Record → Disk → Prop
  /-- The old artifact could not be removed, and nothing has been done, whatever the parser is. -/
  | kept {failure : IoFailure} {d' : Disk} : d.removeFile r.artifact = (.error failure, d') →
      failure.kind ≠ .notFound → d.Same d' →
      (∀ parser : UnitParser (StateM Disk), (r.build Disk.files session parser).run d =
        pure ((.error (failure.classify "Failed to delete artifact"), r), d')) →
      Built session d r (.error (failure.classify "Failed to delete artifact")) r d'
  /-- Something failed later, and the artifact is gone if its path could be followed. -/
  | gone {cause : Error} {r' : Record} {d' : Disk} : d.Removes r.artifact → r.Alike r' →
      (d.Leads r.artifact → d'.Lacks r.artifact ∧ r'.Misses d') →
      Built session d r (.error cause) r' d'
  /-- The artifact is that of the unit. -/
  | done {unit : ParsedUnit} {r' : Record} {d' : Disk} : d.Removes r.artifact →
      r.Written unit r' d' → Built session d r (.ok unit) r' d'

theorem build_run_of_removes {d₁ : Disk} {removed : Except IoFailure Unit}
    (hremoved : d.removeFile r.artifact = (removed, d₁)) (h : d.Removes r.artifact) :
    (r.build Disk.files session parser).run d = (r.rebuild Disk.files session parser).run d₁ := by
  have hrun : (Disk.files.remove r.artifact).run d = pure (removed, d₁) := hremoved
  rw [build, StateT.run_bind, hrun, pure_bind]
  rcases removed with failure | _
  · have hkind : failure.kind = .notFound := h failure (by rw [hremoved])
    dsimp only
    rw [if_pos hkind]
  · rfl

theorem build_run_of_kept {failure : IoFailure}
    (hremoved : d.removeFile r.artifact = (.error failure, d')) (hkind : failure.kind ≠ .notFound) :
    (r.build Disk.files session parser).run d =
      pure ((.error (failure.classify "Failed to delete artifact"), r), d') := by
  have hrun : (Disk.files.remove r.artifact).run d = pure (.error failure, d') := hremoved
  rw [build, StateT.run_bind, hrun, pure_bind]
  dsimp only
  rw [if_neg hkind]
  rfl

/-- Once an old artifact is removed, or there is none, nothing is there, and none of the directories
around it has its place. -/
theorem clear_of_removes {d₁ : Disk} {removed : Except IoFailure Unit} (hsound : d.Sound)
    (hhonest : d.Honest) (hpath : Path.EndsIn artifact outer name)
    (hremoved : d.removeFile artifact = (removed, d₁)) (h : d.Removes artifact) :
    d.Clear artifact d₁ ∧ (d.Leads artifact → d.Apart artifact outer) := by
  rcases removed with failure | _
  · have hkind : failure.kind = .notFound := h failure (by rw [hremoved])
    have hsame := Disk.same_of_removeFile hremoved
    have hlacks (hleads : d.Leads artifact) : d₁.Lacks artifact :=
      hsound.lacks_of_removeFile hhonest hleads hpath.ne_empty hremoved hkind
    refine ⟨fun hleads => ⟨hsame.here, hlacks hleads⟩, fun hleads => hleads.apart hpath ?_⟩
    exact Disk.not_isDirectory ((hlacks hleads).of_same hsame.symm)
  · obtain ⟨hdirectory, hhere, hlacks⟩ := Disk.lacks_of_removeFile hpath hremoved
    exact ⟨fun _ => ⟨hhere, hlacks⟩, fun hleads => hleads.apart hpath hdirectory⟩

theorem built_of_writtenOr {answer : Except Error ParsedUnit × Record} (hremoves : d.Removes r.artifact)
    (halike : r.Alike answer.2) (h : WrittenOr d r answer d') :
    Built session d r answer.1 answer.2 d' := by
  obtain ⟨cause | unit, r'⟩ := answer
  · refine .gone hremoves halike fun hleads => ?_
    obtain ⟨-, hlacks⟩ := h hleads
    refine ⟨hlacks, misses_of_lacks ?_⟩
    rw [halike.artifact]
    exact hlacks
  · exact .done hremoves h

/-- A build ends in one of three ways. If the old artifact cannot be removed, nothing has been done and
the parser has not been run. If anything fails after that, nothing is where the artifact goes, and a load
says so, provided that the path can be followed to the last `..` in it. If nothing fails, the artifact is
exactly that of the unit, and the record is complete and up to date. -/
theorem build_run (hartifact : r.artifact = Path.artifact session.cache.directory r.source)
    (hsound : d.Sound) (hhonest : d.Honest) (hparser : Spares parser r.artifact)
    {answer : Except Error ParsedUnit}
    (hrun : (r.build Disk.files session parser).run d = pure ((answer, r'), d')) :
    Built session d r answer r' d' := by
  obtain ⟨outer, name, hpath⟩ := Path.exists_endsIn_artifact session.cache.directory r.source
  rw [← hartifact] at hpath
  rcases hremoved : d.removeFile r.artifact with ⟨removed, d₁⟩
  by_cases hremoves : d.Removes r.artifact
  · obtain ⟨hclear, hapart⟩ := clear_of_removes hsound hhonest hpath hremoved hremoves
    rw [build_run_of_removes hremoved hremoves] at hrun
    have hrebuilt : Brings (d.Clear r.artifact) (r.rebuild Disk.files session parser)
        (WrittenOr d r) := brings_rebuild hpath hapart hparser
    have halike : Answers (r.rebuild Disk.files session parser) fun answer => r.Alike answer.2 :=
      answers_rebuild_alike
    replace hrebuilt := hrebuilt d₁ hclear
    replace halike := halike d₁
    rw [hrun] at hrebuilt halike
    exact built_of_writtenOr hremoves halike hrebuilt
  · obtain ⟨failure, hfailed, hkind⟩ : ∃ failure, (d.removeFile r.artifact).1 = .error failure ∧
        failure.kind ≠ .notFound := by simpa [Disk.Removes] using hremoves
    rw [hremoved] at hfailed
    obtain rfl : removed = .error failure := hfailed
    rw [build_run_of_kept hremoved hkind] at hrun
    obtain ⟨hanswer, rfl⟩ := Prod.mk.inj hrun
    obtain ⟨rfl, rfl⟩ := Prod.mk.inj hanswer
    exact .kept hremoved hkind (Disk.same_of_removeFile hremoved) fun parser =>
      build_run_of_kept hremoved hkind

/-- A disk with an artifact in the directory of artifacts. -/
def builtDisk : Disk :=
  (({} : Disk).put ⟨1, ["pubs"]⟩ (.directory 0)).put ⟨2, ["b.pub", "pubs"]⟩ (.file [1] 0)

theorem sound_builtDisk : builtDisk.Sound :=
  (Disk.sound_empty.put ⟨0, rfl⟩ (Disk.not_isDirectory (by decide)) _).put ⟨0, rfl⟩
    (Disk.not_isDirectory (by decide)) _

/-- A parser that fails, and an artifact that was there before. -/
theorem build_run_failing :
    let r : Record := { source := "b", artifact := "./pubs/b.pub" }
    let parser : UnitParser (StateM Disk) := fun _ => pure (.error (.config .invalidToml))
    let answer := (r.build Disk.files {} parser).run builtDisk
    builtDisk.openFile r.artifact = .ok ⟨[1], none⟩ ∧ answer.1.1 = .error (.config .invalidToml) ∧
      answer.2.Lacks r.artifact ∧ answer.1.2.Misses answer.2 := by
  intro r parser answer
  have hremoved : (builtDisk.removeFile r.artifact).1 = .ok () := by decide +kernel
  have hfailed : answer.1.1 = .error (.config .invalidToml) := by decide +kernel
  have hparser : Spares parser r.artifact := by
    intro context d d' parsed hrun
    obtain ⟨-, rfl⟩ := Prod.mk.inj hrun
    exact ⟨rfl, id⟩
  have hbuilt : Built {} builtDisk r answer.1.1 answer.1.2 answer.2 :=
    build_run (by decide +kernel) sound_builtDisk (Disk.honest_of_faults rfl) hparser rfl
  refine ⟨by decide +kernel, hfailed, ?_⟩
  generalize answer.1.1 = result, answer.1.2 = r', answer.2 = d' at hbuilt hfailed ⊢
  cases hbuilt with
  | kept hkept =>
    rw [hkept] at hremoved
    exact absurd hremoved (by simp)
  | gone hremoves halike hgone => exact hgone (Disk.leads_of_not_mem (by decide) _)
  | done => exact absurd hfailed (by simp)

/-- The disk with a directory where the artifact would first be written. -/
def blockedDisk : Disk :=
  builtDisk.put ⟨2, ["b.pub.tmp", "pubs"]⟩ (.directory 0)

/-- The path of this artifact goes through a directory that is missing, so that it leads to nothing, and
nothing is removed. The build creates the directory and fails later. Now the path leads to an artifact
that was there before. -/
theorem openFile_build_detour :
    let r : Record := { source := "q/../b", artifact := "./pubs/q/../b.pub" }
    let unit : ParsedUnit := { tree := .single { kind := 4 } }
    let answer := (r.build Disk.files {} fun _ => pure (.ok unit)).run blockedDisk
    r.artifact = Path.artifact ({} : Session).cache.directory r.source ∧
      blockedDisk.Sound ∧ blockedDisk.Honest ∧
      blockedDisk.openFile r.artifact = .error .notFound ∧
      answer.1.1 = .error (IoFailure.isADirectory.classify "Failed to create temp file") ∧
      answer.2.openFile r.artifact = .ok ⟨[1], none⟩ := by
  intro r unit answer
  have hsound : blockedDisk.Sound :=
    sound_builtDisk.put ⟨0, rfl⟩ (Disk.not_isDirectory (by decide)) _
  exact ⟨by decide +kernel, hsound, Disk.honest_of_faults rfl, by decide +kernel, by decide +kernel,
    by decide +kernel⟩

end Record

end AblAnalysis
