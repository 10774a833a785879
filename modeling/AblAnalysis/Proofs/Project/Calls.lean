import AblAnalysis.Proofs.Artifact.Reached
import AblAnalysis.Proofs.Project.Snapshot

/-!
What calls leave of a record. Files and the parser may answer anything, and between two calls
anything may happen to the files. After a call that succeeds the depth says what is available. A load
that fails leaves cut contents, and a build or a write that fails leaves the description of the unit
without a depth, or nothing, or what was there before (`Call.Leaves`). So the depth tells the truth
after every success, but not after every failure.
-/

namespace AblAnalysis

open Artifact

/-! ### Programs that may answer anything -/

/-- Whether every answer of a program has a property. -/
def Answers {σ α : Type} (program : StateM σ α) (P : α → Prop) : Prop :=
  ∀ s, P (program.run s).1

namespace Answers

variable {σ α β : Type} {P : α → Prop} {Q : β → Prop}

theorem pure {a : α} (h : P a) : Answers (σ := σ) (pure a) P :=
  fun _ => h

theorem bind {program : StateM σ α} {next : α → StateM σ β} (h : Answers program P)
    (hnext : ∀ a, P a → Answers (next a) Q) : Answers (program >>= next) Q := by
  intro s
  exact hnext _ (h s) _

/-- After a program of which nothing is known. -/
theorem after (program : StateM σ α) {next : α → StateM σ β} (hnext : ∀ a, Answers (next a) Q) :
    Answers (program >>= next) Q := by
  intro s
  exact hnext _ _

end Answers

namespace Record

variable {σ : Type} (files : Files (StateM σ)) (session : Session) (parser : UnitParser (StateM σ))

/-- What can be asked of a record. -/
inductive Call where
  | load (target : Depth)
  | write (unit : ParsedUnit)
  | build

/-- Carries out a call and tells whether it succeeded. -/
def Call.run (r : Record) : Call → StateM σ (Bool × Record)
  | .load target => do
    let (result, r) ← r.loadTo files session target
    return (result.isOk, r)
  | .write unit => do
    let (result, r) ← r.write files session unit
    return (result.isOk, r)
  | .build => do
    let (result, r) ← r.build files session parser
    return (result.isOk, r)

/-- What a call leaves, given what was there before and whether it succeeded. -/
def Call.Leaves (before after : Contents) : Call → Bool → Prop
  | .load _, true => after.Truthful
  | .load _, false => after.Cut
  | .write unit, true => after = (Contents.describe unit).complete unit.tree
  | .write unit, false => after = .describe unit
  | .build, true => ∃ unit, after = (Contents.describe unit).complete unit.tree
  | .build, false => after = before ∨ after = {} ∨ ∃ unit, after = .describe unit

/-! ### Loading -/

variable {files session parser} {r : Record}

theorem answers_readFrom (artifact : String) (target : Depth) (stream : Stream) :
    Answers (readFrom files session artifact target {} stream) fun answer =>
      answer.1.Left answer.2 := by
  rw [readFrom]
  obtain ⟨names, hnames⟩ := readFiles_fst stream
  generalize readFiles {} stream = answer at hnames
  rcases answer with ⟨c, e | rest⟩
  · obtain rfl : c = _ := hnames
    exact .pure (Contents.cut_files names)
  · obtain rfl : c = _ := hnames
    refine .after _ fun time => ?_
    cases time with
    | none => exact .pure (Contents.cut_files names)
    | some time =>
      refine .after _ fun changed => ?_
      cases changed with
      | some name => exact .pure (Contents.cut_files names)
      | none => exact .pure (left_readRest target names rest)

theorem answers_loadFile (source artifact : String) (target : Depth) :
    Answers (loadFile files session source artifact target {}) fun answer =>
      answer.1.Left answer.2 := by
  rw [loadFile]
  refine .after _ fun time => ?_
  cases time with
  | none => exact .pure (Contents.cut_files [])
  | some time =>
    refine .after _ fun newer => ?_
    split
    · exact .pure (Contents.cut_files [])
    · split
      · exact .pure (Contents.truthful_depth (by decide))
      · refine .after _ fun opened => ?_
        cases opened with
        | error failure => exact .pure (Contents.cut_files [])
        | ok stream => exact answers_readFrom artifact target stream

theorem answers_loadTo (target : Depth) :
    Answers (r.loadTo files session target) fun answer => answer.2.contents.Left answer.1 := by
  rw [loadTo, Contents.refresh_eq]
  cases r.blob with
  | some bytes => exact .pure (left_decode target ⟨bytes, none⟩)
  | none =>
    exact .bind (answers_loadFile r.source r.artifact target) fun answer hleft => .pure hleft

/-! ### Writing -/

theorem answers_write (unit : ParsedUnit) :
    Answers (r.write files session unit) fun answer =>
      (Call.write unit).Leaves r.contents answer.2.contents answer.1.isOk := by
  rw [write, Contents.note_refresh]
  cases (Contents.describe unit).encode unit.tree with
  | error e => exact .pure rfl
  | ok bytes =>
    refine .after _ fun stored => ?_
    cases stored with
    | error e => exact .pure rfl
    | ok _ => exact .pure rfl

theorem answers_rebuild :
    Answers (r.rebuild files session parser) fun answer =>
      Call.build.Leaves r.contents answer.2.contents answer.1.isOk := by
  rw [rebuild]
  refine .after _ fun parsed => ?_
  cases parsed with
  | error e => exact .pure (.inr (.inl rfl))
  | ok unit =>
    refine .bind (answers_write unit) fun answer hleaves => ?_
    obtain ⟨e | _, written⟩ := answer
    · exact .pure (.inr (.inr ⟨unit, hleaves⟩))
    · exact .pure ⟨unit, hleaves⟩

theorem answers_build :
    Answers (r.build files session parser) fun answer =>
      Call.build.Leaves r.contents answer.2.contents answer.1.isOk := by
  rw [build]
  refine .after _ fun removed => ?_
  cases removed with
  | error failure =>
    dsimp only
    split
    · exact answers_rebuild
    · exact .pure (.inl rfl)
  | ok _ => exact answers_rebuild

/-- A call leaves what it should. -/
theorem answers_run (call : Call) :
    Answers (call.run files session parser r) fun answer =>
      call.Leaves r.contents answer.2.contents answer.1 := by
  cases call with
  | load target =>
    refine .bind (answers_loadTo target) fun answer hleft => .pure ?_
    obtain ⟨e | _, loaded⟩ := answer
    · exact hleft
    · exact hleft
  | write unit => exact .bind (answers_write unit) fun answer hleaves => .pure hleaves
  | build => exact .bind answers_build fun answer hleaves => .pure hleaves

/-! ### Call after call -/

/-- A call with what it finds: the bytes that were offered to be read instead of the artifact, if any
were since the last call, and the state of the files. -/
structure Request (σ : Type) where
  call : Call
  offered : Option (List UInt8) := none
  found : σ

/-- Contents as some call leaves them. -/
inductive Settled (c : Contents) : Prop
  | truthful : c.Truthful → Settled c
  | cut : c.Cut → Settled c
  | described (unit : ParsedUnit) : c = .describe unit → Settled c

variable (files session parser)

/-- Whether the call of a request succeeds, and the record after it. -/
def serve (r : Record) (q : Request σ) : Bool × Record :=
  ((q.call.run files session parser { r with blob := q.offered.or r.blob }).run q.found).1

/-- The record after the calls of all requests. -/
def serveAll (r : Record) (requests : List (Request σ)) : Record :=
  requests.foldl (fun r q => (r.serve files session parser q).2) r

variable {files session parser} {before after : Contents} {call : Call}

theorem Call.Leaves.truthful (h : call.Leaves before after true) : after.Truthful := by
  cases call with
  | load target => exact h
  | write unit =>
    obtain rfl : after = _ := h
    exact Contents.truthful_of_tree rfl (.inr rfl)
  | build =>
    obtain ⟨unit, rfl⟩ := h
    exact Contents.truthful_of_tree rfl (.inr rfl)

theorem Call.Leaves.settled {succeeded : Bool} (h : call.Leaves before after succeeded)
    (hb : Settled before) : Settled after := by
  cases succeeded with
  | true => exact .truthful h.truthful
  | false =>
    cases call with
    | load target => exact .cut h
    | write unit => exact .described unit h
    | build =>
      rcases h with rfl | rfl | ⟨unit, rfl⟩
      · exact hb
      · exact .truthful (Contents.truthful_depth (by decide))
      · exact .described unit rfl

theorem serve_leaves (r : Record) (q : Request σ) :
    q.call.Leaves r.contents (r.serve files session parser q).2.contents
      (r.serve files session parser q).1 :=
  answers_run q.call q.found

theorem settled_serveAll (requests : List (Request σ)) (hr : Settled r.contents) :
    Settled (r.serveAll files session parser requests).contents := by
  induction requests generalizing r with
  | nil => exact hr
  | cons q requests ih => exact ih ((serve_leaves r q).settled hr)

/-- Whatever was asked of a new record before and whatever its files are and its parser does, a call
leaves what it should; after one that succeeds the depth says what is available. -/
theorem serve_serveAll (files : Files (StateM σ)) (session : Session)
    (parser : UnitParser (StateM σ)) (source artifact : String) (requests : List (Request σ))
    (q : Request σ) :
    let r := serveAll files session parser { source, artifact } requests
    let answer := r.serve files session parser q
    q.call.Leaves r.contents answer.2.contents answer.1 ∧ Settled answer.2.contents ∧
      (answer.1 = true → answer.2.contents.Truthful) := by
  intro r answer
  have hleaves : q.call.Leaves r.contents answer.2.contents answer.1 := serve_leaves r q
  have hnew : Settled {} := .truthful (Contents.truthful_depth (by decide))
  have hr : Settled r.contents := settled_serveAll requests hnew
  refine ⟨hleaves, hleaves.settled hr, fun hok => ?_⟩
  rw [hok] at hleaves
  exact hleaves.truthful

/-! ### Artifacts without their texts -/

/-- Loading the artifact of a unit without its texts says that the tree was read, and gives none. -/
theorem exists_serve_cut {u : ParsedUnit} (h : Storable u) :
    ∃ front strings, (Contents.describe u).encode u.tree = .ok (front ++ strings) ∧
      ∀ (r : Record) (found : σ), ∃ c,
        (r.serve files session parser ⟨.load .stringsLoaded, some front, found⟩).2.contents = c ∧
          c.depth = .treeLoaded ∧ c.tree = none := by
  obtain ⟨p, hp⟩ := h.exists_parts
  obtain ⟨c, cause, hdecode, hdepth, htree⟩ := hp.exists_decode_cut h
  refine ⟨p.front u.tree [], p.strings ++ [], hp.encode_eq.trans ?_, fun r found =>
    ⟨c, ?_, hdepth, htree⟩⟩
  · simp [Parts.bytes, Parts.front]
  · have hload := load_eq_of_decode files session
      (r := { r with blob := some (p.front u.tree []) }) rfl hdecode
    rw [load] at hload
    simp only [serve, Call.run, Option.some_or, hload]
    rfl

/-- The depth does not always say what is available. -/
theorem exists_not_truthful : ∃ bytes,
    ¬ (serve Disk.files {} (fun _ => pure (.ok sampleUnit)) { source := "a.p", artifact := "a.bin" }
      ⟨.load .stringsLoaded, some bytes, {}⟩).2.contents.Truthful := by
  obtain ⟨front, strings, -, hserve⟩ := exists_serve_cut storable_sampleUnit
  refine ⟨front, fun htruthful => ?_⟩
  obtain ⟨c, hc, hdepth, htree⟩ := hserve _ _
  rw [hc] at htruthful
  have hsome := htruthful.tree.2 (.inl hdepth)
  rw [htree] at hsome
  exact absurd hsome (by simp)

end Record

end AblAnalysis
