import AblAnalysis.Proofs.Artifact.RoundTrip
import AblAnalysis.Proofs.Project.Batches

/-!
Batches that are run again. What a batch has built is loaded the next time, in whatever order the units take
their steps: no other unit takes the artifact away, and none changes what is looked at when it is loaded
(`Batch.run_again`). That takes artifacts at different places below the cache directory, and sources and files
that are not looked for there. A source that does not exist is known by its path as it is given, and the batch
itself may make something that the path names; so not all that has been built is loaded
(`Batch.exists_buildsTwice`).
-/

namespace AblAnalysis

open Artifact

namespace Batch

variable {π π' α β : Type} {session : Session} {d d' : Disk} {kept region : Place → Prop} {I : π → Prop}
  {paths names : List String} {path artifact : String} {r : Record} {unit : ParsedUnit} {time : Int}

/-! ### What is looked at again -/

/-- Whether a file is found at a time that does not come after another, and not by way of a directory, nor
is it looked for there before. -/
def FoundOutside (session : Session) (d : Disk) (c : Place) (time : Int) (name : String) : Prop :=
  ∃ front path back changed, session.candidates name = front ++ path :: back ∧
    (∀ p ∈ front ++ [path], d.Avoids (Place.Under c) p) ∧ (∀ p ∈ front, d.modified? p = none) ∧
      d.modified? path = some changed ∧ changed ≤ time

/-- The places in the cache directory. -/
abbrev InCache (session : Session) (d : Disk) : Place → Prop :=
  Place.Under (d.goal session.cache.directory)

/-- Whether an artifact is up to date: it is that of the unit at the path, the source has not been changed
after it and is not in the cache directory, and neither is any file of which the unit was read. -/
structure Current (session : Session) (d : Disk) (path : String) (r : Record) (names : List String)
    (time : Int) : Prop where
  record : recordAt session d path = r
  outside : ∀ p ∈ [path, r.source], d.Avoids (InCache session d) p
  artifact : d.modified? r.artifact = some time
  source : ∀ changed ∈ d.modified? r.source, changed ≤ time
  files : ∀ name ∈ names, name ≠ "" →
    FoundOutside session d (d.goal session.cache.directory) time name

theorem recordAt_of_keeps (hpath : d.Avoids region path) (hkeeps : Disk.Keeps kept region d d') :
    recordAt session d' path = recordAt session d path := by
  rw [recordAt, recordAt, hkeeps.canonical?_eq hpath]

/-- The artifact of a unit that can be stored is read to its end. -/
theorem exists_readRest (hholds : r.Holds unit d) (hunit : Storable unit) : ∃ bytes rest c,
    d.openFile r.artifact = .ok ⟨bytes, none⟩ ∧
      readFiles {} ⟨bytes, none⟩ = ({ fileNames := unit.tree.fileNames }, .ok rest) ∧
      readRest .stringsLoaded { fileNames := unit.tree.fileNames } rest = (c, .ok ()) := by
  obtain ⟨bytes, hencode, hopen⟩ := hholds
  obtain ⟨p, hp⟩ := hunit.exists_parts
  obtain rfl := Except.ok.inj (hp.encode_eq.symm.trans hencode)
  obtain ⟨tree, hdecode, -⟩ := hp.exists_decode hunit
  have hfiles : decodeFiles ⟨p.files ++ p.middle unit.tree (p.strings ++ []), none⟩ =
      (unit.tree.fileNames, .ok ⟨p.middle unit.tree (p.strings ++ []), none⟩) :=
    hp.decodeFiles_append hunit.encodable _
  have hread : readFiles {} ⟨p.bytes unit.tree, none⟩ =
      ({ fileNames := unit.tree.fileNames }, .ok ⟨p.middle unit.tree (p.strings ++ []), none⟩) :=
    Record.readFiles_of_decodeFiles hfiles
  rw [Contents.decode, Contents.read, hread] at hdecode
  exact ⟨_, _, _, hopen, hread, hdecode⟩

/-! ### Looking while others work -/

/-- Whether a task on an artifact only looks and comes to an answer, while others leave the places of the
artifact alone since some time, and everything outside a region. -/
def Finds (s : Disk × π) (artifact : String) (region : Place → Prop) (I : π → Prop) (t : Task (Disk × π) α)
    (a : α) : Prop :=
  Task.Brings (Leaves (s.1.Owns artifact) region I) (Leaves (fun g => ¬ s.1.Owns artifact g) region I)
    (Leaves (s.1.Owns artifact) region I s) t
    fun b s' => b = a ∧ Leaves (s.1.Owns artifact) region I s s'

section Looking

variable {s : Disk × π} {a : α} {b : β}

theorem finds_pure (a : α) : Finds s artifact region I (pure a) a :=
  .pure fun _ hs => ⟨rfl, hs⟩

theorem Finds.bind {t : Task (Disk × π) α} {f : α → Task (Disk × π) β}
    (h : Finds s artifact region I t a) (hnext : Finds s artifact region I (f a) b) :
    Finds s artifact region I (t >>= f) b := by
  refine Task.Brings.bind h fun c => ?_
  rintro s' ⟨rfl, hs'⟩
  exact hnext s' hs'

theorem finds_look {view : Disk → α}
    (h : ∀ e, Disk.Keeps (s.1.Owns artifact) region s.1 e → view e = a) :
    Finds s artifact region I (Task.onFirst (.look view)) a :=
  Task.Brings.look (fun _ _ => Leaves.trans) .refl fun _ hs => ⟨h _ hs.disk, hs⟩

theorem finds_modified? (h : s.1.Avoids region path) :
    Finds s artifact region I (Disk.sharedSteps.modified? path) (s.1.modified? path) :=
  finds_look fun _ hkeeps => hkeeps.modified?_eq h

theorem finds_sourceIsNewer (h : s.1.Avoids region path)
    (hsource : ∀ changed ∈ s.1.modified? path, changed ≤ time) :
    Finds s artifact region I (Record.sourceIsNewer Disk.sharedSteps path time) false := by
  rw [Record.sourceIsNewer]
  refine (finds_modified? h).bind ?_
  cases htime : s.1.modified? path with
  | none => exact finds_pure false
  | some changed =>
    rw [← decide_eq_false (Int.not_lt.2 (hsource changed htime))]
    exact finds_pure _

theorem finds_firstExisting? {front back : List String} {file : String} {changed : Int}
    (havoids : ∀ p ∈ front ++ [file], s.1.Avoids region p)
    (hfront : ∀ p ∈ front, s.1.modified? p = none) (hfile : s.1.modified? file = some changed) :
    Finds s artifact region I (Session.firstExisting? Disk.sharedSteps (front ++ file :: back))
      (some file) := by
  induction front with
  | nil =>
    have hthere : Finds s artifact region I (Files.has Disk.sharedSteps file) true :=
      (hfile ▸ finds_modified? (havoids file (List.mem_singleton_self _))).bind (finds_pure true)
    exact hthere.bind (finds_pure (some file))
  | cons other front ih =>
    have hmissing : Finds s artifact region I (Files.has Disk.sharedSteps other) false :=
      (hfront other (List.mem_cons_self ..) ▸ finds_modified? (havoids other (List.mem_cons_self ..))).bind
        (finds_pure false)
    exact hmissing.bind (ih (fun p hp => havoids p (List.mem_cons_of_mem _ hp))
      fun p hp => hfront p (List.mem_cons_of_mem _ hp))

theorem finds_isFresh {c : Place} {name : String} (h : FoundOutside session s.1 c time name) :
    Finds s artifact (Place.Under c) I (Record.isFresh Disk.sharedSteps session time name) true := by
  obtain ⟨front, file, back, changed, hcandidates, havoids, hfront, hfile, hle⟩ := h
  have hchanged : Finds s artifact (Place.Under c) I (Disk.sharedSteps.modified? file)
      (some changed) :=
    hfile ▸ finds_modified? (havoids file (List.mem_append_right _ (List.mem_singleton_self _)))
  rw [Record.isFresh, Session.findFile?, hcandidates]
  refine (finds_firstExisting? havoids hfront hfile).bind (hchanged.bind ?_)
  rw [← decide_eq_true hle]
  exact finds_pure _

theorem finds_firstChanged? {c : Place}
    (h : ∀ name ∈ names, name ≠ "" → FoundOutside session s.1 c time name) :
    Finds s artifact (Place.Under c) I
      (Record.firstChanged? Disk.sharedSteps session time names) none := by
  induction names with
  | nil => exact finds_pure none
  | cons name names ih =>
    have hrest := ih fun other hother => h other (List.mem_cons_of_mem _ hother)
    rw [Record.firstChanged?]
    split
    · exact hrest
    · rename_i hempty
      have hne : name ≠ "" := fun heq => hempty (String.isEmpty_iff.2 heq)
      exact (finds_isFresh (h name (List.mem_cons_self ..) hne)).bind hrest

variable {parser : UnitParser (Task (Disk × π))}

/-- An artifact that is there and up to date is loaded, whatever the parser is. -/
theorem finds_serve (hcurrent : Current session s.1 path r unit.tree.fileNames time)
    (hholds : r.Holds unit s.1) (hunit : Storable unit) :
    Finds s r.artifact (InCache session s.1) I
      (serve Disk.sharedSteps session parser r) .loaded := by
  obtain ⟨bytes, rest, c, hopen, hfiles, hrest⟩ := exists_readRest hholds hunit
  have hkept := s.1.owns_goal r.artifact
  have hartifact : Finds s r.artifact (InCache session s.1) I
      (Disk.sharedSteps.modified? r.artifact) (some time) :=
    finds_look fun e hkeeps => (hkeeps.openFile_eq hkept hopen).2.trans hcurrent.artifact
  have hstream : Finds s r.artifact (InCache session s.1) I
      (Disk.sharedSteps.openFile r.artifact) (.ok ⟨bytes, none⟩) :=
    finds_look fun e hkeeps => (hkeeps.openFile_eq hkept hopen).1
  have hnewer : Finds s r.artifact (InCache session s.1) I
      (Record.sourceIsNewer Disk.sharedSteps r.source time) false :=
    finds_sourceIsNewer (hcurrent.outside r.source (by simp)) hcurrent.source
  have hread : Finds s r.artifact (InCache session s.1) I
      (Record.readFrom Disk.sharedSteps session r.artifact .stringsLoaded {} ⟨bytes, none⟩)
      (c, .ok ()) := by
    rw [Record.readFrom, hfiles]
    refine hartifact.bind ((finds_firstChanged? hcurrent.files).bind ?_)
    rw [← hrest]
    exact finds_pure _
  have hload : Finds s r.artifact (InCache session s.1) I
      (Record.loadFile Disk.sharedSteps session r.source r.artifact .stringsLoaded {}) (c, .ok ()) :=
    hartifact.bind (hnewer.bind (hstream.bind hread))
  have hloaded : Finds s r.artifact (InCache session s.1) I
      (r.load Disk.sharedSteps session) (.ok (), r.loaded .stringsLoaded c) := by
    have hblob : r.blob = none := by
      rw [← hcurrent.record]
      rfl
    rw [Record.load, Record.loadTo_eq_find, Record.find, hblob, Contents.refresh_eq]
    exact hload.bind (finds_pure _)
  exact hloaded.bind (finds_pure Outcome.loaded)

end Looking

/-! ### Runs -/

/-- A run of a batch: the parser, the order of the steps, what has been counted before, and the state in which
the run begins. -/
structure Launch (π : Type) where
  parser : UnitParser (Task (Disk × π))
  schedule : List Nat
  stats : BatchStats := {}
  start : Disk × π

namespace Launch

variable {l : Launch π}

/-- The report, the statistics that include it, and the state that is left. -/
def run (l : Launch π) (session : Session) (paths : List String) :
    (BatchReport × BatchStats) × (Disk × π) :=
  Batch.run l.schedule Disk.sharedSteps session l.parser l.stats paths l.start

/-- The records of the units, with the outcomes. -/
def answers (l : Launch π) (session : Session) (paths : List String) : List (Record × Outcome) :=
  (dealings l.schedule Disk.sharedSteps session l.parser l.stats paths l.start).1

/-- Whether there is no `..` in what nests under the cache directory. -/
def Nests (l : Launch π) (session : Session) (paths : List String) : Prop :=
  ∀ a ∈ l.answers session paths, ".." ∉ Text.pieces '/' (Path.inside a.1.source)

instance instDecidableNests (l : Launch π) (session : Session) (paths : List String) :
    Decidable (l.Nests session paths) :=
  inferInstanceAs (Decidable (∀ a ∈ l.answers session paths, _))

theorem exists_dealings (l : Launch π) (paths : List String) (henabled : session.cache.enabled = true) :
    ∃ stats, dealings l.schedule Disk.sharedSteps session l.parser l.stats paths l.start =
        (l.answers session paths, (l.run session paths).2, stats) ∧
      (l.run session paths).1.1.outcomes = paths.zip ((l.answers session paths).map Prod.snd) := by
  refine ⟨(dealings l.schedule Disk.sharedSteps session l.parser l.stats paths l.start).2.2, ?_, ?_⟩
  · rw [answers, run, run_eq_dealings henabled]
  · rw [answers, run, run_eq_dealings henabled]

/-- The outcomes in the report are those of the units at the paths. -/
theorem getElem?_outcomes {i : Nat} {outcome : Outcome} (henabled : session.cache.enabled = true) :
    (l.run session paths).1.1.outcomes[i]? = some (path, outcome) ↔
      paths[i]? = some path ∧ ∃ r, (l.answers session paths)[i]? = some (r, outcome) := by
  obtain ⟨stats, -, houtcomes⟩ := l.exists_dealings paths henabled
  rw [houtcomes, List.getElem?_zip_eq_some, List.getElem?_map, Option.map_eq_some_iff]
  constructor
  · rintro ⟨hpath, ⟨r, _⟩, ha, rfl⟩
    exact ⟨hpath, r, ha⟩
  · rintro ⟨hpath, r, ha⟩
    exact ⟨hpath, (r, outcome), ha, rfl⟩

end Launch

/-- Whether a batch is run again, and nothing but the first run has changed the disk: the cache is used, the
parsers only read, and in either run the artifacts belong at different places. -/
structure Reruns (session : Session) (paths : List String) (first : Launch π) (second : Launch π') :
    Prop where
  enabled : session.cache.enabled = true
  reads : ReadsOnly first.parser ∧ ReadsOnly second.parser
  nodes : second.start.1.nodes = (first.run session paths).2.1.nodes
  here : second.start.1.here = (first.run session paths).2.1.here
  distinct : Distinct first.start.1 (first.answers session paths) ∧
    Distinct second.start.1 (second.answers session paths)

/-- Whether the calls of a parser for all sources but one keep a property of what the parser has for itself.
Calls for the one source need not keep it: that there have been none is such a property. -/
def KeptByOthers (parser : UnitParser (Task (Disk × π))) (source : String) (I : π → Prop) : Prop :=
  ∀ context, context.path ≠ source → (parser context).Always fun s s' => I s.2 → I s'.2

variable {first : Launch π'} {second : Launch π} {i : Nat}

/-- What the first run has built is there when the second one begins. -/
theorem Reruns.exists_holds (h : Reruns session paths first second) (hpath : paths[i]? = some path)
    (ha : (first.answers session paths)[i]? = some (r, .built)) :
    ∃ unit, Task.CanGive (.ok unit) (first.parser (UnitContext.start session r.source)) ∧
      r.Holds unit second.start.1 := by
  obtain ⟨stats, hrun, -⟩ := first.exists_dealings paths h.enabled
  obtain ⟨-, hbuilt⟩ := dealt_apart (fun _ => True) h.reads.1 hrun h.distinct.1
    (fun _ _ => Disk.confined_anywhere _ _) hpath ha
  obtain ⟨unit, hgives, hholds⟩ := hbuilt rfl
  have hkeeps : Disk.Keeps (fun _ => True) (fun _ => True) (first.run session paths).2.1
      second.start.1 := Disk.keeps_of_nodes h.nodes h.here
  exact ⟨unit, hgives, holds_of_keeps hholds trivial hkeeps⟩

/-- If an artifact is there when the second run begins, all artifacts of it are written in the cache
directory. -/
theorem Reruns.confined (h : Reruns session paths first second) (hnests : second.Nests session paths)
    (hcurrent : Current session second.start.1 path r names time) (hholds : r.Holds unit second.start.1) :
    ∀ a ∈ second.answers session paths,
      second.start.1.Confined (InCache session second.start.1) a.1.artifact := by
  intro a ha
  obtain ⟨stats, hrun, -⟩ := second.exists_dealings paths h.enabled
  obtain ⟨bytes, -, hopen⟩ := hholds
  obtain ⟨time, hfind⟩ := Disk.exists_find_of_openFile hopen
  have hlocate := Disk.locate_of_find hfind
  rw [← hcurrent.record] at hlocate
  have hconfined := Disk.confined_of_nests hlocate (hnests a ha)
  obtain ⟨j, hj⟩ := List.mem_iff_getElem?.1 ha
  obtain ⟨_, e, _, he⟩ := exists_recordAt hrun hj
  rw [he] at hconfined ⊢
  exact hconfined

/-- Whatever the other units have done before, a unit is opened with the record that it had at the start. -/
theorem Reruns.exists_answer (h : Reruns session paths first second)
    (hconfined : ∀ a ∈ second.answers session paths,
      second.start.1.Confined (InCache session second.start.1) a.1.artifact)
    (hcurrent : Current session second.start.1 path r names time) (hpath : paths[i]? = some path) :
    ∃ outcome, (second.answers session paths)[i]? = some (r, outcome) := by
  obtain ⟨stats, hrun, -⟩ := second.exists_dealings paths h.enabled
  have hi : i < (second.answers session paths).length :=
    length_dealings hrun ▸ (List.getElem?_eq_some_iff.1 hpath).1
  have ha := List.getElem?_eq_getElem hi
  obtain ⟨⟨e, hfollows, he⟩, -⟩ := dealt_apart _ h.reads.2 hrun h.distinct.2 hconfined hpath ha
  rw [recordAt_of_keeps (hcurrent.outside path (by simp)) hfollows, hcurrent.record] at he
  exact ⟨_, by rw [ha, ← he]⟩

/-- Units that are known by other sources work in the cache directory and keep what is kept for these. -/
theorem Reruns.serves_other (h : Reruns session paths first second)
    (hconfined : ∀ a ∈ second.answers session paths,
      second.start.1.Confined (InCache session second.start.1) a.1.artifact)
    (hcurrent : Current session second.start.1 path r names time) {outcome : Outcome}
    (ha : (second.answers session paths)[i]? = some (r, outcome))
    (hothers : KeptByOthers second.parser r.source I)
    {j : Nat} {b : Record × Outcome} (hb : (second.answers session paths)[j]? = some b) (hj : j ≠ i) :
    Task.Brings (Leaves (second.start.1.Owns b.1.artifact) (InCache session second.start.1) I)
      (Leaves (fun g => ¬ second.start.1.Owns b.1.artifact g) (InCache session second.start.1) I)
      (Leaves (second.start.1.Owns b.1.artifact) (InCache session second.start.1) I second.start)
      (serve Disk.sharedSteps session second.parser b.1) fun _ _ => True := by
  obtain ⟨stats, hrun, -⟩ := second.exists_dealings paths h.enabled
  obtain ⟨_, e, _, he⟩ := exists_recordAt hrun hb
  have hsource : b.1.source ≠ r.source := by
    intro heq
    refine h.distinct.2.goal_ne hb ha hj ?_
    rw [← hcurrent.record] at heq ⊢
    rw [he] at heq ⊢
    exact congrArg (fun source => second.start.1.goal (Path.artifact _ source)) heq
  have hserve := serves_record h.reads.2 (hothers (UnitContext.start session b.1.source) hsource)
    (by rw [he]; rfl) (hconfined b (List.mem_of_getElem? hb))
  exact hserve.brings.weaken (fun t ht => Disk.Follows.of_keeps (.refl _) ht.disk) fun _ _ _ => trivial

/-- A unit whose artifact is there and up to date is loaded, and whatever is kept for all other sources is
kept of the parser's own state. -/
theorem Reruns.loads (h : Reruns session paths first second) (hnests : second.Nests session paths)
    (hpath : paths[i]? = some path)
    (hcurrent : Current session second.start.1 path r unit.tree.fileNames time)
    (hholds : r.Holds unit second.start.1) (hunit : Storable unit)
    (hothers : KeptByOthers second.parser r.source I) :
    (second.answers session paths)[i]? = some (r, .loaded) ∧
      (I second.start.2 → I (second.run session paths).2.2) := by
  obtain ⟨stats, hrun, -⟩ := second.exists_dealings paths h.enabled
  have hconfined := h.confined hnests hcurrent hholds
  obtain ⟨outcome, ha⟩ := h.exists_answer hconfined hcurrent hpath
  have hserves : ∀ (j : Nat) (b : Record × Outcome), (second.answers session paths)[j]? = some b →
      Serves second.start.1 (InCache session second.start.1) I session second.parser b.1
        (Leaves (second.start.1.Owns b.1.artifact) (InCache session second.start.1) I second.start)
        fun outcome t => j = i → outcome = .loaded ∧ (I second.start.2 → I t.2) := by
    intro j b hb
    refine ⟨fun _ _ => Leaves.trans, fun outcome t t' hpost hleaves hj => ?_, ?_⟩
    · obtain ⟨hloaded, hI⟩ := hpost hj
      exact ⟨hloaded, fun hs => hleaves.own (hI hs)⟩
    by_cases hj : j = i
    · subst hj
      obtain rfl := Option.some.inj (ha.symm.trans hb)
      exact (finds_serve hcurrent hholds hunit).weaken (fun _ hs => hs)
        fun _ _ hfound _ => ⟨hfound.1, hfound.2.own⟩
    · exact (h.serves_other hconfined hcurrent ha hothers hb hj).weaken (fun _ hs => hs)
        fun _ _ _ hj' => absurd hj' hj
  obtain ⟨-, hpost⟩ := dealt (InCache session second.start.1) I
    (fun r => Leaves (second.start.1.Owns r.artifact) (InCache session second.start.1) I second.start)
    (fun j _ outcome t => j = i → outcome = .loaded ∧ (I second.start.2 → I t.2)) hrun h.distinct.2
    (fun _ => .refl _) hserves hpath ha
  obtain ⟨rfl, hI⟩ := hpost rfl
  exact ⟨ha, hI⟩

/-- What one run of a batch has built, the next one loads, if the artifact is up to date then, in whatever
order the units take their steps; and the parser is not called for it, so that whatever is kept by all other
calls holds of its own state in the end. And all reports list all units in order, and the statistics count what
they list. -/
theorem run_again :
    (∀ {π π' : Type} {session : Session} {paths : List String} {first : Launch π} {second : Launch π'}
        {path : String} {i : Nat},
      Reruns session paths first second → second.Nests session paths →
      (first.run session paths).1.1.outcomes[i]? = some (path, .built) →
      ∃ r unit, (first.answers session paths)[i]? = some (r, .built) ∧
        Task.CanGive (.ok unit) (first.parser (UnitContext.start session r.source)) ∧
        r.Holds unit second.start.1 ∧
        ∀ time, Storable unit → Current session second.start.1 path r unit.tree.fileNames time →
          (second.run session paths).1.1.outcomes[i]? = some (path, .loaded) ∧
          ∀ I, KeptByOthers second.parser r.source I → I second.start.2 →
            I (second.run session paths).2.2) ∧
    ∀ {σ : Type} (files : Files (Task σ)) (session : Session) (parser : UnitParser (Task σ))
      (batches : List (List Nat × List String × σ)),
      let (reports, stats) := runAll files session parser {} batches
      reports.map (fun report => report.outcomes.map Prod.fst) = batches.map (fun batch => batch.2.1) ∧
        Counts {} (reports.flatMap (fun report => report.outcomes.map Prod.snd)) stats := by
  constructor
  · intro π π' session paths first second path i h hnests hbuilt
    obtain ⟨hpath, r, ha⟩ := (Launch.getElem?_outcomes h.enabled).1 hbuilt
    obtain ⟨unit, hgives, hholds⟩ := h.exists_holds hpath ha
    refine ⟨r, unit, ha, hgives, hholds, fun time hunit hcurrent => ⟨?_, fun I hothers => ?_⟩⟩
    · have hall : KeptByOthers second.parser r.source fun _ => True := fun context _ =>
        (h.reads.2 context).mono fun _ _ _ => id
      obtain ⟨hloaded, -⟩ := h.loads (I := fun _ => True) hnests hpath hcurrent hholds hunit hall
      exact (Launch.getElem?_outcomes h.enabled).2 ⟨hpath, r, hloaded⟩
    · exact (h.loads hnests hpath hcurrent hholds hunit hothers).2
  · intro σ files session parser batches
    exact runAll_counts {} batches

/-- A unit that was read of some files. -/
def unitOf (names : List String) : ParsedUnit where
  tree := { Tree.single { kind := 4 } with fileNames := names }

theorem storable_unitOf {names : List String} (hnames : ∀ name ∈ names, Fits name)
    (hlength : names.length < 2 ^ 31) : Storable (unitOf names) where
  grown := (Tree.Grown.single _).named names
  nodes id n h := by
    match id, h with
    | 0, h =>
      obtain rfl := Option.some.inj h
      exact ⟨by simp [unitOf, Tree.single, endMark], by simp [unitOf, Tree.single, SortedMap.keys]⟩
  kinds s hs := absurd hs (by simp [unitOf, ParsedUnit.imports, ParsedUnit.exports,
    ParsedUnit.sharedAs])
  fields s hs := absurd hs (by simp [unitOf])
  texts text htext := by
    have hrest : ∀ text ∈ unitTexts (unitOf []), Fits text := by decide +kernel
    have hsplit : unitTexts (unitOf names) = names ++ unitTexts (unitOf []) := by
      simp only [unitTexts, List.append_assoc]
      rfl
    rw [hsplit] at htext
    exact (List.mem_append.1 htext).elim (hnames text) (hrest text)
  files := hlength
  strings := by
    have hsame : treeTexts (unitOf names).tree = treeTexts (unitOf []).tree := by rfl
    rw [hsame]
    decide +kernel

/-- A disk with a source and a file that it includes. -/
def sourceDisk : Disk where
  nodes := ⟨[({}, .directory 0), (⟨1, ["a"]⟩, .file [] 0), (⟨1, ["i"]⟩, .file [] 0)]⟩

/-- A disk when time has passed. -/
def afterwards (d : Disk) : Disk :=
  { d with now := d.now + 1 }

/-- A parser that notes for which sources it is called. -/
def noting (f : UnitContext → Except Error ParsedUnit) : UnitParser (Task (Disk × List String)) :=
  fun context => do
    Task.once fun s => ((), s.1, context.path :: s.2)
    return f context

/-- The same batch, run again when time has passed; nothing is noted yet. -/
def Launch.again (l : Launch (List String)) (session : Session) (paths : List String)
    (schedule : List Nat) : Launch (List String) :=
  { l with
    schedule
    stats := (l.run session paths).1.2
    start := (afterwards (l.run session paths).2.1, []) }

theorem reruns_again {f : UnitContext → Except Error ParsedUnit} {l : Launch (List String)}
    {schedule : List Nat} (hparser : l.parser = noting f) (henabled : session.cache.enabled = true)
    (h : Distinct l.start.1 (l.answers session paths))
    (h' : Distinct (l.again session paths schedule).start.1
      ((l.again session paths schedule).answers session paths)) :
    Reruns session paths l (l.again session paths schedule) := by
  have hreads : ReadsOnly l.parser := by
    rw [hparser]
    exact fun context s => ⟨⟨rfl, rfl⟩, trivial⟩
  exact ⟨henabled, ⟨hreads, hreads⟩, rfl, rfl, h, h'⟩

theorem eq_of_canGive_noting {f : UnitContext → Except Error ParsedUnit} {context : UnitContext}
    {answer : Except Error ParsedUnit} (h : Task.CanGive answer (noting f context)) :
    answer = f context := by
  rcases h with - | ⟨s, h⟩
  rcases h with - | -
  rfl

theorem recordAt_congr {path' : String}
    (h : (recordAt session d path).source = (recordAt session d' path').source) :
    recordAt session d path = recordAt session d' path' := by
  simp only [recordAt] at h ⊢
  rw [h]

/-- The record of a unit is known from its source. -/
theorem Launch.eq_recordAt {l : Launch π} {a : Record × Outcome} (henabled : session.cache.enabled = true)
    (ha : (l.answers session paths)[i]? = some a)
    (hsource : (l.answers session paths)[i]?.map (fun a => a.1.source) =
      some (recordAt session d path).source) : a.1 = recordAt session d path := by
  obtain ⟨stats, hrun, -⟩ := l.exists_dealings paths henabled
  obtain ⟨_, e, _, he⟩ := exists_recordAt hrun ha
  rw [ha] at hsource
  rw [he]
  exact recordAt_congr (he ▸ Option.some.inj hsource)

/-- Two units that take turns, and some time later take turns the other way round. -/
theorem run_again_sourceDisk :
    let session : Session := { cache := { directory := "/c" } }
    let first : Launch (List String) :=
      { parser := noting fun _ => .ok (unitOf ["/i", ""])
        schedule := [0, 1, 0, 1, 0, 1, 0, 1, 0, 1, 0, 1, 0, 1]
        start := (sourceDisk, []) }
    let second := first.again session ["/b", "/a"] [1, 0, 1, 0, 1, 0, 1, 0]
    (first.run session ["/b", "/a"]).1.1.outcomes[1]? = some ("/a", .built) ∧
      (second.run session ["/b", "/a"]).1.1.outcomes[1]? = some ("/a", .loaded) ∧
      "/a" ∉ (second.run session ["/b", "/a"]).2.2 ∧
      ((runAll Disk.sharedSteps session first.parser {}
          [([0, 1, 1], ["/b", "/a"], (sourceDisk, []))]).1.map
        fun report => report.outcomes.map Prod.fst) = [["/b", "/a"]] := by
  intro session first second
  have hreruns : Reruns session ["/b", "/a"] first second :=
    reruns_again rfl rfl (by decide +kernel) (by decide +kernel)
  have hnests : second.Nests session ["/b", "/a"] := by decide +kernel
  have hbuilt : (first.run session ["/b", "/a"]).1.1.outcomes[1]? = some ("/a", .built) := by
    decide +kernel
  obtain ⟨hagain, hcounts⟩ := run_again
  obtain ⟨r, unit, ha, hgives, -, hloads⟩ := hagain hreruns hnests hbuilt
  obtain rfl := Except.ok.inj
    (eq_of_canGive_noting (f := fun _ => .ok (unitOf ["/i", ""])) hgives)
  obtain rfl : r = recordAt session sourceDisk "/a" := Launch.eq_recordAt rfl ha (by decide +kernel)
  have hcurrent : Current session second.start.1 "/a" (recordAt session sourceDisk "/a") ["/i", ""] 0 := by
    refine ⟨recordAt_congr (by decide +kernel), by decide +kernel, by decide +kernel, by decide +kernel,
      fun name hname hne => ?_⟩
    obtain rfl : name = "/i" := by simpa [hne] using hname
    exact ⟨[], "/i", [], 0, by decide +kernel, by decide +kernel, by simp, by decide +kernel, by decide⟩
  obtain ⟨hloaded, hnoted⟩ := hloads 0 (storable_unitOf (by decide +kernel) (by decide)) hcurrent
  refine ⟨hbuilt, hloaded, ?_, (hcounts Disk.sharedSteps session first.parser _).1⟩
  refine hnoted (fun log => "/a" ∉ log) (fun context hne s => ⟨fun hlog => ?_, trivial⟩) List.not_mem_nil
  exact List.not_mem_cons_of_ne_of_not_mem hne.symm hlog

/-- Whether a batch builds a unit, and builds it again when it is run again, although the artifact is not
older than the source and the files, found outside the cache directory, that the unit was read of. -/
def BuildsTwice (session : Session) (paths : List String) (first : Launch π) (second : Launch π') (i : Nat) :
    Prop :=
  Reruns session paths first second ∧ ∃ path r unit time,
    (first.run session paths).1.1.outcomes[i]? = some (path, .built) ∧
      (first.answers session paths)[i]? = some (r, .built) ∧
      (∀ answer, Task.CanGive answer (first.parser (UnitContext.start session r.source)) →
        answer = .ok unit) ∧
      Storable unit ∧ second.start.1.modified? r.artifact = some time ∧
      (∀ changed ∈ second.start.1.modified? r.source, changed ≤ time) ∧
      (∀ name ∈ unit.tree.fileNames, name ≠ "" →
        FoundOutside session second.start.1 (second.start.1.goal session.cache.directory) time name) ∧
      (second.run session paths).1.1.outcomes[i]? = some (path, .built)

/-- The current directory and nothing in it. -/
def emptyDisk : Disk where
  nodes := ⟨[({}, .directory 0), (⟨1, ["r"]⟩, .directory 0)]⟩
  here := ⟨1, ["r"]⟩

/-- A source that is always newer than its artifact. -/
def futureDisk : Disk where
  nodes := ⟨[({}, .directory 0), (⟨1, ["x"]⟩, .file [] 9)]⟩

/-- A batch builds a unit twice if running it shows so. -/
theorem buildsTwice_again {f : UnitContext → Except Error ParsedUnit} {l : Launch (List String)}
    (e : Disk) (path : String) (unit : ParsedUnit) (time : Int) (hparser : l.parser = noting f)
    (henabled : session.cache.enabled = true)
    (hdistinct : Distinct l.start.1 (l.answers session paths) ∧
      Distinct (l.again session paths []).start.1 ((l.again session paths []).answers session paths))
    (hbuilt : (l.run session paths).1.1.outcomes[i]? = some (path, .built))
    (hsource : (l.answers session paths)[i]?.map (fun a => a.1.source) =
      some (recordAt session e path).source)
    (hparsed : f (UnitContext.start session (recordAt session e path).source) = .ok unit)
    (hunit : Storable unit)
    (hartifact : (l.again session paths []).start.1.modified? (recordAt session e path).artifact =
      some time)
    (hchanged : ∀ changed ∈ (l.again session paths []).start.1.modified? (recordAt session e path).source,
      changed ≤ time)
    (hfiles : ∀ name ∈ unit.tree.fileNames, name ≠ "" → FoundOutside session
      (l.again session paths []).start.1
      ((l.again session paths []).start.1.goal session.cache.directory) time name)
    (hagain : ((l.again session paths []).run session paths).1.1.outcomes[i]? = some (path, .built)) :
    BuildsTwice session paths l (l.again session paths []) i := by
  obtain ⟨-, r, ha⟩ := (Launch.getElem?_outcomes henabled).1 hbuilt
  obtain rfl : r = recordAt session e path := Launch.eq_recordAt henabled ha hsource
  refine ⟨reruns_again hparser henabled hdistinct.1 hdistinct.2, path, _, unit, time, hbuilt, ha, ?_,
    hunit, hartifact, hchanged, hfiles, hagain⟩
  intro answer hanswer
  rw [hparser] at hanswer
  exact (eq_of_canGive_noting hanswer).trans hparsed

/-- What has been built is not always loaded. A source that does not exist is known by its path, which may
name something the next time, such as the directory in which the artifact was put. A source or a file may be
an artifact of the same batch, and so may be a file outside the cache directory if there is a `..` in the path
of another source. -/
theorem exists_buildsTwice :
    (let session : Session := { cache := { directory := "/r/o/c" } }
      let first : Launch (List String) :=
        { parser := noting fun _ => .ok (unitOf []), schedule := [], start := (emptyDisk, []) }
      BuildsTwice session ["o"] first (first.again session ["o"] []) 0) ∧
    (let session : Session := { cache := { directory := "/c" } }
      let first : Launch (List String) :=
        { parser := noting fun _ => .ok (unitOf []), schedule := [], start := (futureDisk, []) }
      BuildsTwice session ["/x", "/c/x.pub"] first (first.again session ["/x", "/c/x.pub"] []) 1) ∧
    (let session : Session := { cache := { directory := "/c" } }
      let first : Launch (List String) :=
        { parser := noting fun context => .ok (unitOf [if context.path = "/a" then "/j.pub" else "/no"])
          schedule := []
          start := (sourceDisk, []) }
      BuildsTwice session ["../j", "/a"] first (first.again session ["../j", "/a"] []) 1) := by
  have hplain : Storable (unitOf []) := storable_unitOf (by simp) (by decide)
  refine ⟨?_, ?_, ?_⟩
  · intro session first
    exact buildsTwice_again emptyDisk "o" (unitOf []) 0 rfl rfl
      ⟨by decide +kernel, by decide +kernel⟩ (by decide +kernel) (by decide +kernel) rfl hplain (by decide +kernel) (by decide +kernel)
      (fun name hname => absurd hname (by simp [unitOf])) (by decide +kernel)
  · intro session first
    exact buildsTwice_again futureDisk "/c/x.pub" (unitOf []) 0 rfl rfl
      ⟨by decide +kernel, by decide +kernel⟩ (by decide +kernel) (by decide +kernel) rfl hplain (by decide +kernel) (by decide +kernel)
      (fun name hname => absurd hname (by simp [unitOf])) (by decide +kernel)
  · intro session first
    have hsource : (recordAt session sourceDisk "/a").source = "/a" := by decide +kernel
    refine buildsTwice_again sourceDisk "/a" (unitOf ["/j.pub"]) 0 rfl rfl
      ⟨by decide +kernel, by decide +kernel⟩ (by decide +kernel) (by decide +kernel)
      (congrArg (fun name => Except.ok (unitOf [name])) (if_pos hsource))
      (storable_unitOf (by decide +kernel) (by decide)) (by decide +kernel) (by decide +kernel) ?_
      (by decide +kernel)
    intro name hname _
    obtain rfl := List.mem_singleton.1 hname
    exact ⟨[], "/j.pub", [], 0, by decide +kernel, by decide +kernel, by simp, by decide +kernel, by decide⟩

end Batch

end AblAnalysis
