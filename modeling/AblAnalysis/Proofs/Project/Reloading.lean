import AblAnalysis.Proofs.Artifact.Canonical
import AblAnalysis.Proofs.Artifact.Partial
import AblAnalysis.Proofs.Project.Calls

/-!
Loads compared with each other. What a load gives depends on the source, the artifact and the bytes that
were offered, and on the files; nothing that was asked of the record before has a say in it
(`loadTo_forgets`). So two loads of one artifact can be compared whatever lies between them, and one as
far as an earlier depth gives a part of what one as far as a later depth gives (`exists_loadTo_partOf`).
-/

namespace AblAnalysis

open Artifact

namespace Record

/-! ### What a load depends on -/

/-- Whether two records are for the same source and artifact, and have been offered the same bytes. -/
structure Alike (r r' : Record) : Prop where
  source : r'.source = r.source
  artifact : r'.artifact = r.artifact
  blob : r'.blob = r.blob

theorem alike_loaded (r : Record) (target : Depth) (c : Contents) : r.Alike (r.loaded target c) :=
  ⟨rfl, rfl, rfl⟩

/-- What a load adds to what is left after forgetting, from the bytes that were offered or from the
artifact. -/
def find {m : Type → Type} [Monad m] (files : Files m) (session : Session) (target : Depth)
    (r : Record) : m (Contents × Except LoadFailure Unit) :=
  match r.blob with
  | some bytes => pure (r.contents.refresh.read target ⟨bytes, none⟩)
  | none => loadFile files session r.source r.artifact target r.contents.refresh

section Find

variable {m : Type → Type} [Monad m] {files : Files m} {session : Session} {target : Depth}
  {r r' : Record}

theorem loadTo_eq_find [LawfulMonad m] : r.loadTo files session target = (do
    let (c, result) ← r.find files session target
    pure (result, r.loaded target c)) := by
  obtain ⟨source, artifact, blob, checked, contents⟩ := r
  cases blob with
  | some bytes => simp only [loadTo, find, pure_bind, loaded]
  | none => rfl

/-- What the record knew is not found again, since none of it is left when the load begins. -/
theorem Alike.find_eq (h : r.Alike r') :
    r'.find files session target = r.find files session target := by
  rw [find, find, h.blob, h.source, h.artifact, r'.contents.refresh_eq, r.contents.refresh_eq]

end Find

variable {σ : Type} {files : Files (StateM σ)} {s s' : σ} {session : Session} {r r' : Record}
  {target : Depth} {snap : Snapshot}

theorem loadTo_run_eq : (r.loadTo files session target).run s =
    let found := (r.find files session target).run s
    pure ((found.1.2, r.loaded target found.1.1), found.2) := by
  rw [loadTo_eq_find]
  rfl

/-- Records that are alike are loaded alike. -/
theorem Alike.loadTo_run (h : r.Alike r') {result : Except LoadFailure Unit} {c : Contents}
    (hrun : (r.loadTo files session target).run s = pure ((result, r.loaded target c), s')) :
    (r'.loadTo files session target).run s = pure ((result, r'.loaded target c), s') := by
  rw [loadTo_run_eq] at hrun
  obtain ⟨hanswer, hs⟩ := Prod.mk.inj hrun
  obtain ⟨hresult, hrecord⟩ := Prod.mk.inj hanswer
  obtain rfl := congrArg Record.contents hrecord
  rw [loadTo_run_eq, h.find_eq]
  exact Prod.ext (Prod.ext hresult rfl) hs

/-! ### What was asked before -/

theorem answers_loadTo_alike (target : Depth) :
    Answers (r.loadTo files session target) fun answer => r.Alike answer.2 := by
  rw [loadTo_eq_find]
  exact .after _ fun found => .pure (r.alike_loaded target found.1)

theorem answers_write_alike (unit : ParsedUnit) :
    Answers (r.write files session unit) fun answer => r.Alike answer.2 := by
  rw [write, Contents.note_refresh]
  cases (Contents.describe unit).encode unit.tree with
  | error e => exact .pure ⟨rfl, rfl, rfl⟩
  | ok bytes =>
    refine .after _ fun stored => ?_
    cases stored with
    | error e => exact .pure ⟨rfl, rfl, rfl⟩
    | ok _ => exact .pure ⟨rfl, rfl, rfl⟩

variable {parser : UnitParser (StateM σ)}

theorem answers_rebuild_alike :
    Answers (r.rebuild files session parser) fun answer => r.Alike answer.2 := by
  rw [rebuild]
  refine .after _ fun parsed => ?_
  cases parsed with
  | error e => exact .pure ⟨rfl, rfl, rfl⟩
  | ok unit =>
    refine .bind (answers_write_alike unit) fun answer halike => ?_
    obtain ⟨e | _, written⟩ := answer
    · exact .pure ⟨halike.source, halike.artifact, halike.blob⟩
    · exact .pure ⟨halike.source, halike.artifact, halike.blob⟩

theorem answers_build_alike :
    Answers (r.build files session parser) fun answer => r.Alike answer.2 := by
  rw [build]
  refine .after _ fun removed => ?_
  cases removed with
  | error failure =>
    dsimp only
    split
    · exact answers_rebuild_alike
    · exact .pure ⟨rfl, rfl, rfl⟩
  | ok _ => exact answers_rebuild_alike

/-- No call turns a record into that of another unit. -/
theorem answers_run_alike (call : Call) :
    Answers (call.run files session parser r) fun answer => r.Alike answer.2 := by
  cases call with
  | load target => exact .bind (answers_loadTo_alike target) fun answer halike => .pure halike
  | write unit => exact .bind (answers_write_alike unit) fun answer halike => .pure halike
  | build => exact .bind answers_build_alike fun answer halike => .pure halike

/-- After any calls a record is still that of its source and its artifact. -/
theorem alike_serveAll (requests : List (Request σ)) (blob : Option (List UInt8)) :
    ({ r with blob } : Record).Alike { r.serveAll files session parser requests with blob } := by
  induction requests generalizing r with
  | nil => exact ⟨rfl, rfl, rfl⟩
  | cons q requests ih =>
    have hserve : ({ r with blob := q.offered.or r.blob } : Record).Alike
        (r.serve files session parser q).2 := answers_run_alike q.call q.found
    have hrest := ih (r := (r.serve files session parser q).2)
    exact ⟨hrest.source.trans hserve.source, hrest.artifact.trans hserve.artifact, rfl⟩

/-! ### The same load again -/

/-- Looking for what to load leaves the files alone. -/
theorem exists_find_run (h : files.Shows s snap) (session : Session) (target : Depth) (r : Record) :
    ∃ found, (r.find files session target).run s = pure (found, s) := by
  rw [find]
  cases r.blob with
  | some bytes => exact ⟨_, rfl⟩
  | none =>
    by_cases ht : .filesLoaded ≤ target
    · obtain ⟨c, result, hl⟩ := exists_loads h session r target
      exact ⟨_, hl.loadFile_run h ht⟩
    · -- only times are compared
      have hle : target ≤ .timestampChecked := by
        revert ht
        cases target <;> decide
      simp only [loadFile, StateT.run_bind, h.modified?, pure_bind]
      cases snap.modified? r.artifact with
      | none => exact ⟨_, rfl⟩
      | some time =>
        simp only [StateT.run_bind, sourceIsNewer_run h, pure_bind, if_pos hle]
        split <;> exact ⟨_, rfl⟩

theorem loaded_loaded (r : Record) (target : Depth) (c : Contents) :
    (r.loaded target c).loaded target c = r.loaded target c := by
  simp only [loaded, Bool.or_assoc, Bool.or_self]

/-- Loading again gives what is there. -/
theorem loadTo_again (h : files.Shows s snap) :
    (do
      let (_, once) ← r.loadTo files session target
      once.loadTo files session target).run s = (r.loadTo files session target).run s := by
  obtain ⟨⟨c, result⟩, hfind⟩ := exists_find_run h session target r
  have hrun : (r.loadTo files session target).run s = pure ((result, r.loaded target c), s) := by
    rw [loadTo_run_eq, hfind]
    rfl
  have hagain := (r.alike_loaded target c).loadTo_run hrun
  rw [loaded_loaded] at hagain
  simp only [StateT.run_bind, hrun, pure_bind]
  exact hagain

/-- Whatever was asked of two new records of a source and its artifact before, with the same bytes
offered a load from the same files gives both the same result and the same contents; only what they
remember of having been checked is their own. Loading a second time changes nothing. -/
theorem loadTo_forgets (files : Files (StateM σ)) (session : Session)
    (parser parser' : UnitParser (StateM σ)) (source artifact : String)
    (requests requests' : List (Request σ)) (blob : Option (List UInt8)) (target : Depth) (s : σ) :
    let r : Record := { serveAll files session parser { source, artifact } requests with blob }
    let r' : Record := { serveAll files session parser' { source, artifact } requests' with blob }
    (∃ c result s',
      (r.loadTo files session target).run s = pure ((result, r.loaded target c), s') ∧
      (r'.loadTo files session target).run s = pure ((result, r'.loaded target c), s') ∧
      r'.loaded target c = { r.loaded target c with
        checked := r'.checked || decide (Depth.headerLoaded ≤ target) }) ∧
    ∀ snap, files.Shows s snap →
      (do
        let (_, once) ← r.loadTo files session target
        once.loadTo files session target).run s = (r.loadTo files session target).run s := by
  intro r r'
  let new : Record := { source, artifact }
  have hr : { new with blob }.Alike r := alike_serveAll requests blob
  have hr' : { new with blob }.Alike r' := alike_serveAll requests' blob
  have halike : r.Alike r' :=
    ⟨hr'.source.trans hr.source.symm, hr'.artifact.trans hr.artifact.symm, rfl⟩
  refine ⟨⟨_, _, _, loadTo_run_eq, halike.loadTo_run loadTo_run_eq, ?_⟩, fun snap h =>
    loadTo_again h⟩
  simp only [loaded, halike.source, halike.artifact, halike.blob]

/-- A new record, and one of which a write was asked. -/
theorem loadTo_forgets_write :
    let r : Record := { source := "a.p", artifact := "a.bin" }
    let r' := r.serveAll Disk.files {} (fun _ => pure (.ok sampleUnit)) [⟨.write sampleUnit, none, {}⟩]
    (∃ c result s',
      (r.loadTo Disk.files {} .stringsLoaded).run {} = pure ((result, r.loaded .stringsLoaded c), s') ∧
      ({ r' with blob := none }.loadTo Disk.files {} .stringsLoaded).run {} =
        pure ((result, { r' with blob := none }.loaded .stringsLoaded c), s')) ∧
    (do
      let (_, once) ← r.loadTo Disk.files {} .stringsLoaded
      once.loadTo Disk.files {} .stringsLoaded).run {} =
        (r.loadTo Disk.files {} .stringsLoaded).run {} := by
  intro r r'
  obtain ⟨⟨c, result, s', hrun, hrun', -⟩, htwice⟩ := loadTo_forgets Disk.files {}
    (fun _ => pure (.ok sampleUnit)) (fun _ => pure (.ok sampleUnit)) "a.p" "a.bin" []
    [⟨.write sampleUnit, none, {}⟩] none .stringsLoaded {}
  exact ⟨⟨c, result, s', hrun, hrun'⟩, htwice _ (Disk.shows_snapshot {})⟩

/-! ### Loads as far as different depths -/

/-- The bytes that a load reads: those that were offered, or else those of the artifact. -/
def Offers (snap : Snapshot) (r : Record) (stream : Stream) : Prop :=
  match r.blob with
  | some bytes => stream = ⟨bytes, none⟩
  | none => snap.openFile r.artifact = .ok stream

/-- If a load succeeds, then so does one less far, whatever was asked of the record before, and the
files are as they were. It reaches its own depth, is up to date, and gives the contents of the longer
one as far as that depth and nothing that comes after it. A tree without its texts has the positions
of these in the string table. -/
theorem exists_loadTo_partOf {d d' : Depth} {long : Record} (h : files.Shows s snap)
    (hr : r.Alike r') (hd : .filesLoaded ≤ d) (hle : d ≤ d')
    (hload : (r.loadTo files session d').run s = pure ((.ok (), long), s')) :
    s' = s ∧ ∃ c stream, r.Offers snap stream ∧
      (r'.loadTo files session d).run s' = pure ((.ok (), r'.loaded d c), s') ∧
      PartOf stream d d' long.contents c ∧ c.depth = d ∧ c.current = true := by
  cases hblob : r.blob with
  | some bytes =>
    rcases hdecode : Contents.decode d' ⟨bytes, none⟩ with ⟨c', result⟩
    have hlong := loadTo_eq_of_decode files session hblob hdecode
    rw [hlong] at hload
    obtain ⟨hanswer, rfl⟩ := Prod.mk.inj hload
    obtain ⟨rfl, rfl⟩ := Prod.mk.inj hanswer
    obtain ⟨c, hshort, hpart⟩ := exists_decode_partOf hd hle hdecode
    have hrun : (r.loadTo files session d).run s = pure ((.ok (), r.loaded d c), s) := by
      rw [loadTo_eq_of_decode files session hblob hshort]
      rfl
    refine ⟨rfl, c, ⟨bytes, none⟩, ?_, hr.loadTo_run hrun, hpart, hpart.depth, ?_⟩
    · rw [Offers, hblob]
    · exact current_decode hshort
  | none =>
    obtain ⟨c', result, hl⟩ := exists_loads h session r d'
    have ht : .filesLoaded ≤ d' := Nat.le_trans hd hle
    have hlong := hl.loadTo_run h hblob ht
    rw [hload] at hlong
    obtain ⟨hanswer, rfl⟩ := Prod.mk.inj hlong
    obtain ⟨rfl, rfl⟩ := Prod.mk.inj hanswer
    cases hl with
    | @rest _ names rest _ _ hindexed hfresh hrest =>
      obtain ⟨body, hbegins, hfiles⟩ := hindexed
      obtain ⟨c, hshort, hpart⟩ :=
        exists_readRest_partOf hd hle (readFiles_of_decodeFiles hfiles) hrest
      have hrun := Loads.loadTo_run h hblob hd (.rest ⟨body, hbegins, hfiles⟩ hfresh hshort)
      refine ⟨rfl, c, _, ?_, hr.loadTo_run hrun, hpart, hpart.depth, ?_⟩
      · rw [Offers, hblob]
        exact hbegins.opened
      · have hcurrent := current_readRest d { fileNames := names } rest
        rw [hshort] at hcurrent
        exact hcurrent

/-- A record with bytes to read. -/
def oddRecord : Record where
  source := "a.p"
  artifact := "a.bin"
  blob := some oddBytes

theorem exists_loadTo_oddBytes :
    (oddRecord.loadTo Disk.files {} .stringsLoaded).run {} =
      pure ((.ok (), oddRecord.loaded .stringsLoaded oddContents), {}) ∧
    ∃ c, (oddRecord.loadTo Disk.files {} .treeLoaded).run {} =
        pure ((.ok (), oddRecord.loaded .treeLoaded c), {}) ∧
      PartOf ⟨oddBytes, none⟩ .treeLoaded .stringsLoaded oddContents c ∧
        c.depth = .treeLoaded ∧ c.current = true := by
  have hdecode : Contents.decode .stringsLoaded ⟨oddBytes, none⟩ = (oddContents, .ok ()) := by
    decide +kernel
  have hload : (oddRecord.loadTo Disk.files {} .stringsLoaded).run {} =
      pure ((.ok (), oddRecord.loaded .stringsLoaded oddContents), {}) := by
    rw [loadTo_eq_of_decode Disk.files {} (r := oddRecord) rfl hdecode]
    rfl
  obtain ⟨-, c, stream, hoffers, hrun, hpart, hdepth, hcurrent⟩ :=
    exists_loadTo_partOf (Disk.shows_snapshot {}) (r := oddRecord) ⟨rfl, rfl, rfl⟩ (by decide)
      (by decide : Depth.treeLoaded ≤ .stringsLoaded) hload
  obtain rfl : stream = ⟨oddBytes, none⟩ := hoffers
  exact ⟨hload, c, hrun, hpart, hdepth, hcurrent⟩

end Record

end AblAnalysis
