import AblAnalysis.Proofs.Artifact.Segments
import AblAnalysis.Proofs.Project.Snapshot

/-!
Loading an artifact takes it only if it is current. What can come of a load is one of eight things
(`Record.Loads`): the first check that fails decides, and if none does, what the later segments give.
Which of them it is depends on what the files show and on nothing else.
-/

namespace AblAnalysis

open Artifact

namespace Record

/-! ### What is checked -/

/-- Whether the artifact was last changed at a time, and the source, if there is one, not after it. -/
structure Dated (snap : Snapshot) (r : Record) (time : Int) : Prop where
  artifact : snap.modified? r.artifact = some time
  source : ∀ changed, snap.modified? r.source = some changed → changed ≤ time

/-- Whether the artifact can be opened and begins with a version; the rest of it is `body`. -/
structure Begins (snap : Snapshot) (r : Record) (time : Int) (version : Int32) (body : Stream) :
    Prop where
  dated : r.Dated snap time
  opened : snap.openFile r.artifact = .ok ⟨int32Bytes version ++ body.bytes, body.fault⟩

/-- Whether the artifact has the supported version and names files; what follows them is `rest`. -/
def Indexed (snap : Snapshot) (r : Record) (time : Int) (names : List String) (rest : Stream) :
    Prop :=
  ∃ body, r.Begins snap time layoutVersion body ∧ decodeFiles body = (names, .ok rest)

/-- What can come of a load, each with all that was found before. -/
inductive Loads (snap : Snapshot) (session : Session) (r : Record) (target : Depth) :
    Contents → Except LoadFailure Unit → Prop
  | missing : snap.modified? r.artifact = none → Loads snap session r target {} (.error .missing)
  | sourceNewer {time changed : Int} : snap.modified? r.artifact = some time →
      snap.modified? r.source = some changed → time < changed →
      Loads snap session r target {} (.error .sourceNewer)
  | unopened {time : Int} {failure : IoFailure} : r.Dated snap time →
      snap.openFile r.artifact = .error failure → Loads snap session r target {}
        (.error (.unreadable (failure.classify "Failed to open artifact")))
  | short {time : Int} {stream : Stream} : r.Dated snap time →
      snap.openFile r.artifact = .ok stream → stream.bytes.length < 4 →
      Loads snap session r target {} (.error (.unreadable (stream.shortage .endOfData)))
  | version {time : Int} {version : Int32} {body : Stream} : r.Begins snap time version body →
      version ≠ layoutVersion →
      Loads snap session r target {} (.error (.versionMismatch version))
  | index {time : Int} {body : Stream} {names : List String} {cause : Error} :
      r.Begins snap time layoutVersion body → decodeFiles body = (names, .error cause) →
      Loads snap session r target { fileNames := names } (.error (.unreadable cause))
  | changed {time : Int} {names : List String} {rest : Stream} {name : String} :
      r.Indexed snap time names rest → snap.FirstChanged session time names name →
      Loads snap session r target { fileNames := names } (.error (.fileChanged name))
  | rest {time : Int} {names : List String} {rest : Stream} {c : Contents}
      {result : Except LoadFailure Unit} :
      r.Indexed snap time names rest → snap.AllFresh session time names →
      readRest target { fileNames := names } rest = (c, result) →
      Loads snap session r target c result

variable {σ : Type} {files : Files (StateM σ)} {s : σ} {snap : Snapshot} {session : Session}
  {r : Record} {target : Depth}

/-- Something comes of every load. -/
theorem exists_loads (h : files.Shows s snap) (session : Session) (r : Record) (target : Depth) :
    ∃ c result, r.Loads snap session target c result := by
  cases hartifact : snap.modified? r.artifact with
  | none => exact ⟨_, _, .missing hartifact⟩
  | some time =>
    by_cases hnewer : ∃ changed, snap.modified? r.source = some changed ∧ time < changed
    · obtain ⟨changed, hsource, hlt⟩ := hnewer
      exact ⟨_, _, .sourceNewer hartifact hsource hlt⟩
    have hdated : r.Dated snap time := ⟨hartifact, fun changed hsource =>
      Int.not_lt.1 fun hlt => hnewer ⟨changed, hsource, hlt⟩⟩
    cases hopen : snap.openFile r.artifact with
    | error failure => exact ⟨_, _, .unopened hdated hopen⟩
    | ok stream =>
      rcases stream.int32_cases with ⟨hshort, -⟩ | ⟨version, body, hbytes, -⟩
      · exact ⟨_, _, .short hdated hopen hshort⟩
      have hbegins : r.Begins snap time version ⟨body, stream.fault⟩ :=
        ⟨hdated, by rw [hopen, ← hbytes]⟩
      by_cases hversion : version = layoutVersion
      · subst hversion
        cases hfiles : decodeFiles ⟨body, stream.fault⟩ with
        | mk names result =>
          cases result with
          | error cause => exact ⟨_, _, .index hbegins hfiles⟩
          | ok rest =>
            have hindexed : r.Indexed snap time names rest := ⟨_, hbegins, hfiles⟩
            obtain ⟨changed, -, hstale⟩ := h.firstChanged? session time names
            cases changed with
            | none => exact ⟨_, _, .rest hindexed hstale rfl⟩
            | some name => exact ⟨_, _, .changed hindexed hstale⟩
      · exact ⟨_, _, .version hbegins hversion⟩

/-! ### What the program does -/

theorem sourceIsNewer_run (h : files.Shows s snap) (source : String) (time : Int) :
    (sourceIsNewer files source time).run s =
      pure ((snap.modified? source).any (fun changed => time < changed), s) := by
  rw [sourceIsNewer]
  simp only [StateT.run_bind, h.modified?, pure_bind]
  cases snap.modified? source <;> rfl

theorem Dated.any_source {time : Int} (hd : r.Dated snap time) :
    (snap.modified? r.source).any (fun changed => time < changed) = false := by
  cases hsource : snap.modified? r.source with
  | none => rfl
  | some changed => exact decide_eq_false (Int.not_lt.2 (hd.source changed hsource))

/-- A load of a dated artifact goes on to open it. -/
theorem loadFile_of_dated (h : files.Shows s snap) {time : Int} (hd : r.Dated snap time)
    (ht : Depth.filesLoaded ≤ target) :
    (loadFile files session r.source r.artifact target {}).run s =
      match snap.openFile r.artifact with
      | .error failure =>
        pure (({}, .error (.unreadable (failure.classify "Failed to open artifact"))), s)
      | .ok stream => (readFrom files session r.artifact target {} stream).run s := by
  have htarget : ¬ target ≤ .timestampChecked := fun hle => absurd (Nat.le_trans ht hle) (by decide)
  rw [loadFile]
  simp only [StateT.run_bind, h.modified?, pure_bind, hd.artifact, sourceIsNewer_run h,
    hd.any_source, Bool.false_eq_true, if_false, if_neg htarget, h.openFile]
  cases snap.openFile r.artifact <;> rfl

/-- After the supported version come the files. -/
theorem readFiles_of_decodeFiles {body : Stream} {names : List String} {rest : Stream}
    (hf : decodeFiles body = (names, .ok rest)) :
    readFiles {} ⟨int32Bytes layoutVersion ++ body.bytes, body.fault⟩ =
      ({ fileNames := names }, .ok rest) := by
  rw [readFiles_empty, Stream.int32_append]
  simp only [if_true, hf]
  rfl

/-- Reading goes on to the later segments once the files are known to be fresh. -/
theorem readFrom_of_indexed (h : files.Shows s snap) {time : Int} {body : Stream}
    {names : List String} {rest : Stream} {changed : Option String}
    (hb : r.Begins snap time layoutVersion body) (hf : decodeFiles body = (names, .ok rest))
    (hrun : (firstChanged? files session time names).run s = pure (changed, s)) :
    (readFrom files session r.artifact target {}
      ⟨int32Bytes layoutVersion ++ body.bytes, body.fault⟩).run s =
      match changed with
      | some name => pure (({ fileNames := names }, .error (.fileChanged name)), s)
      | none => pure (readRest target { fileNames := names } rest, s) := by
  rw [readFrom, readFiles_of_decodeFiles hf]
  simp only [StateT.run_bind, h.modified?, pure_bind, hb.dated.artifact, hrun]
  cases changed <;> rfl

/-- Reading stops where no version can be read, or not the supported one, or no files. -/
theorem readFrom_of_error (stream : Stream) {c : Contents} {failure : LoadFailure}
    (hread : readFiles {} stream = (c, .error failure)) :
    (readFrom files session r.artifact target {} stream).run s = pure ((c, .error failure), s) := by
  rw [readFrom, hread]
  rfl

/-- The program gives what comes of a load. -/
theorem Loads.loadFile_run (h : files.Shows s snap) (ht : Depth.filesLoaded ≤ target) {c : Contents}
    {result : Except LoadFailure Unit} (hl : r.Loads snap session target c result) :
    (loadFile files session r.source r.artifact target {}).run s = pure ((c, result), s) := by
  cases hl with
  | missing hartifact =>
    rw [loadFile]
    simp only [StateT.run_bind, h.modified?, pure_bind, hartifact]
    rfl
  | sourceNewer hartifact hsource hlt =>
    rw [loadFile]
    simp only [StateT.run_bind, h.modified?, pure_bind, hartifact, sourceIsNewer_run h, hsource,
      Option.any_some, decide_eq_true hlt, if_true]
    rfl
  | unopened hdated hopen => rw [loadFile_of_dated h hdated ht, hopen]
  | @short _ stream hdated hopen hshort =>
    have hread : readFiles {} stream = ({}, .error (.unreadable (stream.shortage .endOfData))) := by
      rcases stream.int32_cases with ⟨-, hint⟩ | ⟨value, rest, hbytes, -⟩
      · rw [readFiles_empty, hint]
      · rw [hbytes, List.length_append, int32Bytes, length_bigEndian] at hshort
        omega
    rw [loadFile_of_dated h hdated ht, hopen]
    exact readFrom_of_error stream hread
  | @version _ version body hbegins hversion =>
    rw [loadFile_of_dated h hbegins.dated ht, hbegins.opened]
    refine readFrom_of_error _ ?_
    rw [readFiles_empty, Stream.int32_append]
    simp only [if_neg hversion]
  | index hbegins hfiles =>
    rw [loadFile_of_dated h hbegins.dated ht, hbegins.opened]
    refine readFrom_of_error _ ?_
    rw [readFiles_empty, Stream.int32_append]
    simp only [if_true, hfiles]
    rfl
  | changed hindexed hchanged =>
    obtain ⟨body, hbegins, hfiles⟩ := hindexed
    obtain ⟨found, hrun, hstale⟩ := h.firstChanged? session _ _
    obtain rfl : found = some _ := hstale.unique hchanged
    rw [loadFile_of_dated h hbegins.dated ht, hbegins.opened]
    exact readFrom_of_indexed h hbegins hfiles hrun
  | rest hindexed hfresh hrest =>
    obtain ⟨body, hbegins, hfiles⟩ := hindexed
    obtain ⟨found, hrun, hstale⟩ := h.firstChanged? session _ _
    obtain rfl : found = none := hstale.unique hfresh
    rw [loadFile_of_dated h hbegins.dated ht, hbegins.opened]
    rw [← hrest]
    exact readFrom_of_indexed h hbegins hfiles hrun

/-- The record after a load, with what was found. -/
def loaded (r : Record) (target : Depth) (c : Contents) : Record :=
  { r with checked := r.checked || decide (Depth.headerLoaded ≤ target), contents := c }

theorem Loads.loadTo_run (h : files.Shows s snap) (hblob : r.blob = none)
    (ht : Depth.filesLoaded ≤ target) {c : Contents} {result : Except LoadFailure Unit}
    (hl : r.Loads snap session target c result) :
    (r.loadTo files session target).run s = pure ((result, r.loaded target c), s) := by
  rw [loadTo, loaded, hblob, Contents.refresh_eq]
  simp only [StateT.run_bind, hl.loadFile_run h ht, pure_bind]
  rfl

theorem Loads.unique (h : files.Shows s snap) (hblob : r.blob = none)
    (ht : Depth.filesLoaded ≤ target) {c c' : Contents} {result result' : Except LoadFailure Unit}
    (hl : r.Loads snap session target c result) (hl' : r.Loads snap session target c' result') :
    c = c' ∧ result = result' := by
  have heq : ((result, r.loaded target c), s) = ((result', r.loaded target c'), s) :=
    (hl.loadTo_run h hblob ht).symm.trans (hl'.loadTo_run h hblob ht)
  obtain ⟨hresult, hrecord⟩ := Prod.mk.inj (Prod.mk.inj heq).1
  exact ⟨congrArg Record.contents hrecord, hresult⟩

/-! ### The later segments -/

theorem current_readSegments (target : Depth)
    {segments : List (Depth × (Contents → Stream → Contents × Except Error Stream))}
    (h : ∀ segment ∈ segments, ∀ c s, (segment.2 c s).1.current = c.current) (c : Contents)
    (s : Stream) : (readSegments target segments c s).1.current = c.current := by
  induction segments generalizing c s with
  | nil => rfl
  | cons segment segments ih =>
    have hhead := h segment (List.mem_cons_self ..) c s
    rw [readSegments]
    split
    · rfl
    · split
      · rename_i hsegment
        rw [hsegment] at hhead
        exact hhead
      · rename_i hsegment
        rw [hsegment] at hhead
        rw [ih (fun seg hseg => h seg (List.mem_cons_of_mem _ hseg))]
        exact hhead

/-- No later segment has a say in whether the artifact is up to date. -/
theorem current_laterSegments (old : Option Tree) : ∀ segment ∈ laterSegments old, ∀ c s,
    (segment.2 c s).1.current = c.current := by
  intro segment hsegment c s
  simp only [laterSegments, List.mem_cons, List.not_mem_nil, or_false] at hsegment
  rcases hsegment with rfl | rfl | rfl | rfl | rfl | rfl
  · simp only [readHeader]
    split
    · rfl
    · split <;> rfl
  · rfl
  · simp only [readImports]
    split <;> rfl
  · simp only [readExports]
    split <;> rfl
  · simp only [readTree]
    split <;> rfl
  · simp only [readStrings]
    split
    · rfl
    · split
      · rfl
      · split <;> rfl

theorem current_readRest (target : Depth) (c : Contents) (s : Stream) :
    (readRest target c s).1.current = true :=
  current_readSegments target (current_laterSegments c.tree) _ s

theorem readRest_error {c c' : Contents} {s : Stream} {failure : LoadFailure}
    (h : readRest target c s = (c', .error failure)) : ∃ cause, failure = .unreadable cause := by
  replace h := congrArg Prod.snd h
  simp only [readRest] at h
  cases hresult : (readSegments target (laterSegments c.tree)
      { c with current := true, depth := .filesLoaded } s).2 with
  | error e =>
    rw [hresult] at h
    exact ⟨e, (Except.error.inj h).symm⟩
  | ok rest =>
    rw [hresult] at h
    exact absurd h (by simp [Except.mapError, Except.map])

/-! ### Which of them it is -/

/-- When a load succeeds and when it fails in which way. -/
structure Decides (snap : Snapshot) (session : Session) (r : Record) (target : Depth)
    (result : Except LoadFailure Unit) : Prop where
  ok : result = .ok () ↔ ∃ time names rest, r.Indexed snap time names rest ∧
    snap.AllFresh session time names ∧
      ∃ c, readRest target { fileNames := names } rest = (c, .ok ())
  missing : result = .error .missing ↔ snap.modified? r.artifact = none
  sourceNewer : result = .error .sourceNewer ↔ ∃ time changed,
    snap.modified? r.artifact = some time ∧ snap.modified? r.source = some changed ∧ time < changed
  versionMismatch : ∀ version, result = .error (.versionMismatch version) ↔
    ∃ time body, r.Begins snap time version body ∧ version ≠ layoutVersion
  fileChanged : ∀ name, result = .error (.fileChanged name) ↔
    ∃ time names rest, r.Indexed snap time names rest ∧ snap.FirstChanged session time names name
  unreadable : ∀ cause, result = .error (.unreadable cause) ↔
    (∃ time failure, r.Dated snap time ∧ snap.openFile r.artifact = .error failure ∧
        cause = failure.classify "Failed to open artifact") ∨
      (∃ time stream, r.Dated snap time ∧ snap.openFile r.artifact = .ok stream ∧
        stream.bytes.length < 4 ∧ cause = stream.shortage .endOfData) ∨
      (∃ time body names, r.Begins snap time layoutVersion body ∧
        decodeFiles body = (names, .error cause)) ∨
      (∃ time names rest, r.Indexed snap time names rest ∧ snap.AllFresh session time names ∧
        ∃ c, readRest target { fileNames := names } rest = (c, .error (.unreadable cause)))

theorem Loads.decides (h : files.Shows s snap) (hblob : r.blob = none)
    (ht : Depth.filesLoaded ≤ target) {c : Contents} {result : Except LoadFailure Unit}
    (hl : r.Loads snap session target c result) : r.Decides snap session target result := by
  have heq : ∀ {c' result'}, r.Loads snap session target c' result' → result = result' :=
    fun hl' => (hl.unique h hblob ht hl').2
  constructor
  case ok =>
    constructor
    · rintro rfl
      cases hl with
      | rest hindexed hfresh hrest => exact ⟨_, _, _, hindexed, hfresh, _, hrest⟩
    · rintro ⟨time, names, rest, hindexed, hfresh, c', hrest⟩
      exact heq (.rest hindexed hfresh hrest)
  case missing =>
    constructor
    · rintro rfl
      cases hl with
      | missing hartifact => exact hartifact
      | rest _ _ hrest => exact absurd (readRest_error hrest) (by simp)
    · exact fun hartifact => heq (.missing hartifact)
  case sourceNewer =>
    constructor
    · rintro rfl
      cases hl with
      | sourceNewer hartifact hsource hlt => exact ⟨_, _, hartifact, hsource, hlt⟩
      | rest _ _ hrest => exact absurd (readRest_error hrest) (by simp)
    · rintro ⟨time, changed, hartifact, hsource, hlt⟩
      exact heq (.sourceNewer hartifact hsource hlt)
  case versionMismatch =>
    refine fun version => ⟨?_, ?_⟩
    · rintro rfl
      cases hl with
      | version hbegins hversion => exact ⟨_, _, hbegins, hversion⟩
      | rest _ _ hrest => exact absurd (readRest_error hrest) (by simp)
    · rintro ⟨time, body, hbegins, hversion⟩
      exact heq (.version hbegins hversion)
  case fileChanged =>
    refine fun name => ⟨?_, ?_⟩
    · rintro rfl
      cases hl with
      | changed hindexed hchanged => exact ⟨_, _, _, hindexed, hchanged⟩
      | rest _ _ hrest => exact absurd (readRest_error hrest) (by simp)
    · rintro ⟨time, names, rest, hindexed, hchanged⟩
      exact heq (.changed hindexed hchanged)
  case unreadable =>
    refine fun cause => ⟨?_, ?_⟩
    · rintro rfl
      cases hl with
      | unopened hdated hopen => exact .inl ⟨_, _, hdated, hopen, rfl⟩
      | short hdated hopen hshort => exact .inr (.inl ⟨_, _, hdated, hopen, hshort, rfl⟩)
      | index hbegins hfiles => exact .inr (.inr (.inl ⟨_, _, _, hbegins, hfiles⟩))
      | rest hindexed hfresh hrest =>
        exact .inr (.inr (.inr ⟨_, _, _, hindexed, hfresh, _, hrest⟩))
    · rintro (⟨time, failure, hdated, hopen, rfl⟩ | ⟨time, stream, hdated, hopen, hshort, rfl⟩ |
        ⟨time, body, names, hbegins, hfiles⟩ | ⟨time, names, rest, hindexed, hfresh, c', hrest⟩)
      · exact heq (.unopened hdated hopen)
      · exact heq (.short hdated hopen hshort)
      · exact heq (.index hbegins hfiles)
      · exact heq (.rest hindexed hfresh hrest)

/-- What was found is up to date only after every check of files. -/
theorem Loads.current_iff (h : files.Shows s snap) (hblob : r.blob = none)
    (ht : Depth.filesLoaded ≤ target) {c : Contents} {result : Except LoadFailure Unit}
    (hl : r.Loads snap session target c result) : c.current = true ↔
      ∃ time names rest, r.Indexed snap time names rest ∧ snap.AllFresh session time names := by
  constructor
  · intro hcurrent
    cases hl with
    | rest hindexed hfresh => exact ⟨_, _, _, hindexed, hfresh⟩
    | _ => exact absurd hcurrent (by simp)
  · rintro ⟨time, names, rest, hindexed, hfresh⟩
    have hcurrent := current_readRest target { fileNames := names } rest
    generalize hrest : readRest target { fileNames := names } rest = loaded at hcurrent
    obtain ⟨rfl, -⟩ := hl.unique h hblob ht (.rest hindexed hfresh hrest)
    exact hcurrent

/-- Loading an artifact succeeds exactly if the artifact is there, is not older than its source and
the files it names, and can be read as far as it is asked for. Otherwise the first of these that does
not hold is told. Nothing is said to be up to date unless all times have been compared. -/
theorem exists_loadTo_decides (h : files.Shows s snap) (session : Session) (hblob : r.blob = none)
    (ht : Depth.filesLoaded ≤ target) :
    ∃ c result, (r.loadTo files session target).run s = pure ((result, r.loaded target c), s) ∧
      r.Decides snap session target result ∧
      (c.current = true ↔ ∃ time names rest, r.Indexed snap time names rest ∧
        snap.AllFresh session time names) := by
  obtain ⟨c, result, hl⟩ := exists_loads h session r target
  exact ⟨c, result, hl.loadTo_run h hblob ht, hl.decides h hblob ht, hl.current_iff h hblob ht⟩

/-- A disk with an artifact that was made after the one file it names. -/
def sampleDisk : Disk where
  nodes := ⟨[({}, .directory 0), (⟨1, ["src"]⟩, .directory 0),
    (⟨2, ["a.p", "src"]⟩, .file [] 7), (⟨2, ["a.i", "src"]⟩, .file [] 5),
    (⟨1, ["a.bin"]⟩, .file [0, 0, 0, 11, 0, 0, 0, 0, 0, 3, 97, 46, 105, 255, 255, 255, 255, 0, 0] 7)]⟩

/-- The record of the unit that the artifact is for. -/
def sampleRecord : Record where
  source := "src/a.p"
  artifact := "a.bin"

theorem loadTo_sampleDisk :
    ∃ c, (sampleRecord.loadTo Disk.files { settings := { propath := ["src"] } } .filesLoaded).run
        sampleDisk = pure ((.ok (), sampleRecord.loaded .filesLoaded c), sampleDisk) ∧
      c.current = true := by
  have hfiles : encodeFiles 0 ["a.i"] =
      .ok [0, 0, 0, 0, 0, 3, 97, 46, 105, 255, 255, 255, 255, 0, 0] := by rfl
  have hindexed : sampleRecord.Indexed sampleDisk.snapshot 7 ["a.i"] ⟨[], none⟩ := by
    refine ⟨⟨[0, 0, 0, 0, 0, 3, 97, 46, 105, 255, 255, 255, 255, 0, 0] ++ [], none⟩,
      ⟨⟨by rfl, ?_⟩, by rfl⟩, decodeFiles_encodeFiles [] none hfiles (by decide)⟩
    intro changed hchanged
    have htime : sampleDisk.snapshot.modified? sampleRecord.source = some 7 := by rfl
    obtain rfl := Option.some.inj (htime.symm.trans hchanged)
    decide
  have hfresh : sampleDisk.snapshot.AllFresh { settings := { propath := ["src"] } } 7 ["a.i"] := by
    intro name hname _
    obtain rfl := List.mem_singleton.1 hname
    exact ⟨"src/a.i", 5, by rfl, by rfl, by decide⟩
  have hblob : sampleRecord.blob = none := rfl
  have ht : Depth.filesLoaded ≤ Depth.filesLoaded := by decide
  obtain ⟨c, result, hrun, hdecides, hcurrent⟩ :=
    exists_loadTo_decides (Disk.shows_snapshot sampleDisk) _ hblob ht
  obtain rfl := hdecides.ok.2 ⟨7, _, _, hindexed, hfresh, _, rfl⟩
  exact ⟨c, hrun, hcurrent.2 ⟨7, _, _, hindexed, hfresh⟩⟩

end Record

end AblAnalysis
