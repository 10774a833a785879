import AblAnalysis.Proofs.Artifact.RoundTrip

/-!
How much of an artifact is there after reading. A reading that succeeds leaves contents whose depth
says what is available (`Contents.Truthful`). One that fails leaves no tree, and at most a part of the
segment after the depth (`Contents.Cut`), so the depth may say too much of the tree and too little of
that segment. Each segment takes the depth one step further (`Advances`), and a reading takes one
step after the other.
-/

namespace AblAnalysis.Artifact

/-! ### What a depth says -/

/-- The depth at which the segment after a depth has been read. -/
def Depth.next : Depth → Depth
  | .notLoaded | .timestampChecked => .filesLoaded
  | .filesLoaded => .headerLoaded
  | .headerLoaded => .schemaLoaded
  | .schemaLoaded => .importsLoaded
  | .importsLoaded => .exportsLoaded
  | .exportsLoaded => .treeLoaded
  | .treeLoaded | .stringsLoaded => .stringsLoaded

namespace Contents

/-- Whether something is there of the segment that ends at a depth. -/
def Has (c : Contents) : Depth → Prop
  | .notLoaded | .timestampChecked | .stringsLoaded => False
  | .filesLoaded => c.fileNames ≠ []
  | .headerLoaded => c.className ≠ none ∨ c.superName ≠ none
  | .schemaLoaded => c.tables ≠ {}
  | .importsLoaded => c.imports ≠ []
  | .exportsLoaded => c.exports ≠ []
  | .treeLoaded => c.tree ≠ none

/-- Whether nothing is there of the segments after a depth. -/
def EndsAt (c : Contents) (d : Depth) : Prop :=
  ∀ e, d < e → ¬ c.Has e

/-- Whether the depth says what is available. -/
structure Truthful (c : Contents) : Prop where
  ends : c.EndsAt c.depth
  tree : c.tree.isSome = true ↔ c.depth = .treeLoaded ∨ c.depth = .stringsLoaded

/-- What is there when reading failed: no tree, and of the segment after the depth at most a part.
Imports and exports are there as a whole or not at all. -/
structure Cut (c : Contents) : Prop where
  ends : c.EndsAt c.depth.next
  whole : .schemaLoaded ≤ c.depth → c.EndsAt c.depth
  tree : c.tree = none

/-- Whether contents are those that a reading leaves. -/
def Left {ε α : Type} (c : Contents) : Except ε α → Prop
  | .ok _ => c.Truthful
  | .error _ => c.Cut

variable {c : Contents} {d : Depth}

theorem EndsAt.mono (h : c.EndsAt d) {d' : Depth} (hle : d ≤ d') : c.EndsAt d' := by
  intro e he
  exact h e (Nat.lt_of_le_of_lt hle he)

theorem EndsAt.tree_eq_none (h : c.EndsAt d) (hd : d < .treeLoaded) : c.tree = none :=
  not_not.1 (h .treeLoaded hd)

/-- Before the tree comes, the depth is true if nothing comes after it. -/
theorem EndsAt.truthful (h : c.EndsAt c.depth) (hd : c.depth < .treeLoaded) : c.Truthful where
  ends := h
  tree := by
    rw [h.tree_eq_none hd]
    constructor
    · intro hsome
      exact absurd hsome (by simp)
    · rintro (heq | heq) <;>
      · rw [heq] at hd
        exact absurd hd (by decide)

/-- With the tree there, the depth is true. -/
theorem truthful_of_tree {t : Tree} (ht : c.tree = some t)
    (hd : c.depth = .treeLoaded ∨ c.depth = .stringsLoaded) : c.Truthful where
  ends := by
    intro e he
    rcases hd with hd | hd <;> rw [hd] at he <;> cases e <;> simp [Has] <;> exact absurd he (by decide)
  tree := by
    rw [ht]
    exact iff_of_true rfl hd

/-- Where nothing is there, any depth before the tree is true. -/
theorem truthful_depth (hd : d < .treeLoaded) : ({ depth := d } : Contents).Truthful :=
  EndsAt.truthful (fun e _ => by cases e <;> simp [Has]) hd

/-- File names are not there before their depth is reached, unless reading them failed. -/
theorem endsAt_files (names : List String) :
    ({ fileNames := names } : Contents).EndsAt .filesLoaded := by
  intro e he
  cases e <;> simp [Has]
  exact absurd he (by decide)

theorem cut_files (names : List String) : ({ fileNames := names } : Contents).Cut :=
  ⟨endsAt_files names, fun hle => absurd hle (by decide : ¬ Depth.schemaLoaded ≤ .notLoaded), rfl⟩

end Contents

/-! ### Segments -/

/-- A reader of one segment. -/
abbrev Segment := Contents → Stream → Contents × Except Error Stream

/-- Whether a segment takes contents from one true depth to the next, or else leaves them cut. -/
structure Advances (d d' : Depth) (segment : Segment) : Prop where
  ok (c s c' s') : c.Truthful → c.depth = d → segment c s = (c', .ok s') →
    ({ c' with depth := d' } : Contents).Truthful
  error (c s c' e) : c.Truthful → c.depth = d → segment c s = (c', .error e) → c'.Cut

/-- Whether a segment leaves all but its own part of the contents alone. -/
structure Fills (d' : Depth) (segment : Segment) : Prop where
  depth (c s) : (segment c s).1.depth = c.depth
  has (c s e) : e ≠ d' → (segment c s).1.Has e → c.Has e

/-- A segment before the tree, which is taken as a whole if it comes after the tables. -/
theorem Fills.advances {d d' : Depth} {segment : Segment} (h : Fills d' segment)
    (hnext : d.next = d') (hd : d' < .treeLoaded) (hwhole : .schemaLoaded ≤ d → ∀ c s c' e,
      segment c s = (c', .error e) → c' = c) : Advances d d' segment := by
  subst hnext
  have hle : d ≤ d.next := by cases d <;> decide
  have hends : ∀ c s, c.Truthful → c.depth = d → (segment c s).1.EndsAt d.next := by
    intro c s hc hcd e he hhas
    have hne : e ≠ d.next := by
      rintro rfl
      exact Nat.lt_irrefl _ he
    refine hc.ends e ?_ (h.has c s e hne hhas)
    rw [hcd]
    exact Nat.lt_of_le_of_lt hle he
  constructor
  · intro c s c' s' hc hcd hread
    have hend := hends c s hc hcd
    rw [hread] at hend
    exact Contents.EndsAt.truthful (c := { c' with depth := d.next }) (fun e he hhas => hend e he
      (by cases e <;> exact hhas)) hd
  · intro c s c' e hc hcd hread
    have hend := hends c s hc hcd
    have hdepth := h.depth c s
    rw [hread] at hend hdepth
    rw [hcd] at hdepth
    refine ⟨hdepth ▸ hend, fun hle => ?_, hend.tree_eq_none hd⟩
    rw [hdepth] at hle
    rw [hwhole hle c s c' e hread]
    exact hc.ends

theorem fills_readHeader : Fills .headerLoaded readHeader := by
  constructor
  · intro c s
    simp only [readHeader]
    split
    · rfl
    · split <;> rfl
  · intro c s e he hhas
    simp only [readHeader] at hhas
    split at hhas
    · exact hhas
    · split at hhas <;> cases e <;> first | exact hhas | exact absurd rfl he

theorem fills_readTables : Fills .schemaLoaded readTables := by
  constructor
  · intro c s
    rfl
  · intro c s e he hhas
    cases e <;> first | exact hhas | exact absurd rfl he

theorem fills_readImports : Fills .importsLoaded readImports := by
  constructor
  · intro c s
    simp only [readImports]
    split <;> rfl
  · intro c s e he hhas
    simp only [readImports] at hhas
    split at hhas <;> cases e <;> first | exact hhas | exact absurd rfl he

theorem fills_readExports : Fills .exportsLoaded readExports := by
  constructor
  · intro c s
    simp only [readExports]
    split <;> rfl
  · intro c s e he hhas
    simp only [readExports] at hhas
    split at hhas <;> cases e <;> first | exact hhas | exact absurd rfl he

theorem advances_readHeader : Advances .filesLoaded .headerLoaded readHeader :=
  fills_readHeader.advances rfl (by decide) fun hle => absurd hle (by decide)

theorem advances_readTables : Advances .headerLoaded .schemaLoaded readTables :=
  fills_readTables.advances rfl (by decide) fun hle => absurd hle (by decide)

theorem advances_readImports : Advances .schemaLoaded .importsLoaded readImports := by
  refine fills_readImports.advances rfl (by decide) fun _ c s c' e h => ?_
  simp only [readImports] at h
  split at h
  · exact (Prod.mk.inj h).1.symm
  · exact absurd (Prod.mk.inj h).2 (by simp)

theorem advances_readExports : Advances .importsLoaded .exportsLoaded readExports := by
  refine fills_readExports.advances rfl (by decide) fun _ c s c' e h => ?_
  simp only [readExports] at h
  split at h
  · exact (Prod.mk.inj h).1.symm
  · exact absurd (Prod.mk.inj h).2 (by simp)

theorem advances_readTree : Advances .exportsLoaded .treeLoaded readTree := by
  constructor
  · intro c s c' s' hc hd h
    simp only [readTree] at h
    split at h
    · exact absurd (Prod.mk.inj h).2 (by simp)
    · obtain ⟨rfl, -⟩ := Prod.mk.inj h
      exact Contents.truthful_of_tree rfl (.inl rfl)
  · intro c s c' e hc hd h
    simp only [readTree] at h
    split at h
    · obtain ⟨rfl, -⟩ := Prod.mk.inj h
      have hlt : c.depth < .treeLoaded := by
        rw [hd]
        decide
      refine ⟨hc.ends.mono ?_, fun _ => hc.ends, hc.ends.tree_eq_none hlt⟩
      rw [hd]
      decide
    · exact absurd (Prod.mk.inj h).2 (by simp)

/-- A tree whose texts cannot be read is gone while the depth still says that it is there. -/
theorem cut_of_treeLoaded {c : Contents} (hd : c.depth = .treeLoaded) :
    ({ c with tree := none } : Contents).Cut := by
  have hends : ({ c with tree := none } : Contents).EndsAt .treeLoaded := by
    intro e he
    cases e <;> simp [Contents.Has] <;> exact absurd he (by decide)
  have hd' : ({ c with tree := none } : Contents).depth = .treeLoaded := hd
  refine ⟨?_, fun _ => ?_, rfl⟩
  · rw [hd']
    exact hends.mono (by decide)
  · rw [hd']
    exact hends

theorem advances_readStrings : Advances .treeLoaded .stringsLoaded (readStrings none) := by
  constructor
  · intro c s c' s' hc hd h
    obtain ⟨tree, htree⟩ := Option.isSome_iff_exists.1 (hc.tree.2 (.inl hd))
    simp only [readStrings, htree] at h
    split at h
    · exact absurd (Prod.mk.inj h).2 (by simp)
    · split at h
      · exact absurd (Prod.mk.inj h).2 (by simp)
      · obtain ⟨rfl, -⟩ := Prod.mk.inj h
        exact Contents.truthful_of_tree rfl (.inr rfl)
  · intro c s c' e hc hd h
    obtain ⟨tree, htree⟩ := Option.isSome_iff_exists.1 (hc.tree.2 (.inl hd))
    simp only [readStrings, htree] at h
    split at h
    · obtain ⟨rfl, -⟩ := Prod.mk.inj h
      exact cut_of_treeLoaded hd
    · split at h
      · obtain ⟨rfl, -⟩ := Prod.mk.inj h
        exact cut_of_treeLoaded hd
      · exact absurd (Prod.mk.inj h).2 (by simp)

/-! ### Readings -/

/-- Segments that follow each other from a depth on. -/
inductive Chain : Depth → List (Depth × Segment) → Prop
  | nil {d : Depth} : Chain d []
  | cons {d d' : Depth} {segment : Segment} {segments : List (Depth × Segment)} :
    Advances d d' segment → Chain d' segments → Chain d ((d', segment) :: segments)

theorem chain_laterSegments : Chain .filesLoaded (laterSegments none) :=
  .cons advances_readHeader <| .cons advances_readTables <| .cons advances_readImports <|
    .cons advances_readExports <| .cons advances_readTree <| .cons advances_readStrings .nil

/-- Reading segments leaves true contents, or cut ones if it fails. -/
theorem Chain.left_readSegments {d : Depth} {segments : List (Depth × Segment)}
    (h : Chain d segments) (target : Depth) {c : Contents} (hc : c.Truthful) (hd : c.depth = d)
    (s : Stream) :
    (readSegments target segments c s).1.Left (readSegments target segments c s).2 := by
  induction h generalizing c s with
  | nil => exact hc
  | @cons d d' segment segments hstep _ ih =>
    rw [readSegments]
    split
    · exact hc
    · split
      · rename_i hread
        exact hstep.error c s _ _ hc hd hread
      · rename_i hread
        exact ih (hstep.ok c s _ _ hc hd hread) rfl _

theorem left_readRest (target : Depth) (names : List String) (s : Stream) :
    (readRest target { fileNames := names } s).1.Left
      (readRest target { fileNames := names } s).2 := by
  let c : Contents := { fileNames := names, current := true, depth := .filesLoaded }
  have hc : c.Truthful := by
    have hlt : Depth.filesLoaded < .treeLoaded := by decide
    refine Contents.EndsAt.truthful (fun e he hhas => ?_) hlt
    exact Contents.endsAt_files names e he (by cases e <;> exact hhas)
  have hleft := chain_laterSegments.left_readSegments target hc rfl s
  rw [readRest]
  generalize readSegments target (laterSegments none) c s = answer at hleft
  rcases answer with ⟨c', e | rest⟩
  · exact hleft
  · exact hleft

/-- Files are read without anything after them. -/
theorem readFiles_fst (s : Stream) : ∃ names, (readFiles {} s).1 = { fileNames := names } := by
  rw [readFiles_empty]
  split
  · exact ⟨[], rfl⟩
  · split
    · exact ⟨_, rfl⟩
    · exact ⟨[], rfl⟩

/-- Reading bytes leaves true contents, or cut ones if it fails. -/
theorem left_decode (target : Depth) (s : Stream) :
    (Contents.decode target s).1.Left (Contents.decode target s).2 := by
  obtain ⟨names, hnames⟩ := readFiles_fst s
  rw [Contents.decode, Contents.read]
  generalize readFiles {} s = answer at hnames
  rcases answer with ⟨c, e | rest⟩
  · obtain rfl : c = _ := hnames
    exact Contents.cut_files names
  · obtain rfl : c = _ := hnames
    exact left_readRest target names rest

/-! ### Artifacts without their texts -/

/-- Reading the artifact of a unit without its texts ends at the tree, and without the tree. -/
theorem Parts.Encode.exists_decode_cut {p : Parts} {u : ParsedUnit} (h : Storable u)
    (hp : p.Encode (.describe u) u.tree) : ∃ c cause,
      Contents.decode .stringsLoaded ⟨p.front u.tree [], none⟩ = (c, .error (.unreadable cause)) ∧
        c.depth = .treeLoaded ∧ c.tree = none := by
  obtain ⟨raw, -, hdecode⟩ := hp.exists_decode_front h.encodable []
  have hstrings : decodeStrings ⟨[], none⟩ = .error (Stream.shortage ⟨[], none⟩ .endOfData) := by
    rfl
  rw [readStrings, hstrings] at hdecode
  exact ⟨_, _, hdecode, rfl, rfl⟩

end AblAnalysis.Artifact
