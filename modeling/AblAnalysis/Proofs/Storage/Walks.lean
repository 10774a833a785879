import AblAnalysis.Proofs.Storage.Paths
import AblAnalysis.Storage.Disk

/-!
What changes to a disk do to the places that paths lead to. A path that can be followed leads to its
goal, which its pieces and the current directory determine (`Disk.goal`). Operations put something only
at the goals of the paths they are given (`Disk.AddsOnly`). After its last `..` a path leads deeper with
every name, so making the directories around something does not make the thing itself if the path can be
followed that far (`Disk.Leads`).
-/

namespace AblAnalysis

namespace Place

@[simp] theorem parent_child (p : Place) (name : String) : (p.child name).parent = p := rfl

theorem child_ne (p : Place) (name : String) : p.child name ≠ p := by
  intro h
  have hdepth := congrArg Place.depth h
  exact absurd hdepth (Nat.succ_ne_self _)

theorem child_injective (p : Place) {name name' : String} (h : p.child name = p.child name') :
    name = name' :=
  (List.cons.inj (congrArg Place.names h)).1

end Place

namespace Disk

variable {d d' d'' : Disk} {path name : String} {outer : List String}

/-! ### Where paths lead -/

/-- Where following a path starts. -/
def start (d : Disk) (path : String) : Place :=
  if Path.isAbsolute path then {} else d.here

/-- Where a path leads, one step for each of its pieces, if nothing is in the way. -/
def goal (d : Disk) (path : String) : Place :=
  (Text.pieces '/' path).foldl advance (d.start path)

theorem goal_of_here (h : d'.here = d.here) (path : String) : d'.goal path = d.goal path := by
  rw [goal, goal, start, start, h]

theorem walk_ok {place p : Place} {ps : List String} (h : d.walk place ps = .ok p) :
    p = ps.foldl advance place := by
  induction ps generalizing place with
  | nil => exact (Except.ok.inj h).symm
  | cons piece ps ih =>
    rw [walk] at h
    split at h
    · exact absurd h (by simp)
    · exact absurd h (by simp)
    · split at h
      · exact absurd h (by simp)
      · exact ih h

theorem locate_ok {place : Place} (h : d.locate path = .ok place) : place = d.goal path := by
  rw [locate] at h
  split at h
  · exact absurd h (by simp)
  split at h
  · exact absurd h (by simp)
  rw [trace] at h
  split at h
  · exact absurd h (by simp)
  · exact walk_ok h

theorem find_ok {place : Place} {node : DiskNode} (h : d.find path = .ok (place, node)) :
    place = d.goal path ∧ d.node? place = some node := by
  rw [find] at h
  split at h
  · exact absurd h (by simp)
  · rename_i hlocate
    split at h
    · rename_i hnode
      obtain ⟨rfl, rfl⟩ := Prod.mk.inj (Except.ok.inj h)
      exact ⟨locate_ok hlocate, hnode⟩
    · exact absurd h (by simp)

/-- Whether nothing stands where a path leads. -/
def Lacks (d : Disk) (path : String) : Prop :=
  d.node? (d.goal path) = none

theorem Lacks.exists_find (h : d.Lacks path) : ∃ failure, d.find path = .error failure := by
  rcases hfind : d.find path with failure | ⟨place, node⟩
  · exact ⟨failure, rfl⟩
  · obtain ⟨rfl, hnode⟩ := find_ok hfind
    exact absurd (hnode.symm.trans h) (by simp)

theorem Lacks.modified? (h : d.Lacks path) : d.modified? path = none := by
  obtain ⟨failure, hfind⟩ := h.exists_find
  rw [Disk.modified?, hfind]

/-! ### Paths that end with a name -/

theorem advance_name (h : Path.isPart name = true) (hinside : name ≠ "..") (place : Place) :
    advance place name = place.child name := by
  have hplain : ¬ (name.isEmpty || decide (name = ".")) = true := by
    simp only [Path.isPart, Bool.and_eq_true, Bool.not_eq_true', bne_iff_ne] at h
    simp [h.1, h.2]
  rw [advance, if_neg hplain, if_neg hinside]

/-- The directory that a path with a name leads to first. -/
def around (d : Disk) (path : String) (outer : List String) : Place :=
  outer.foldl advance (d.start path)

theorem goal_of_endsIn (h : Path.EndsIn path outer name) (d : Disk) :
    d.goal path = (d.around path outer).child name := by
  rw [goal, h.pieces, List.foldl_append, List.foldl_cons, List.foldl_nil,
    advance_name h.part h.inside, around]

theorem goal_temporary (h : Path.EndsIn path outer name) (d : Disk) :
    d.goal (path ++ ".tmp") = (d.around path outer).child (name ++ ".tmp") := by
  rw [goal_of_endsIn h.temporary, around, around, start, start, h.isAbsolute_temporary]

theorem goal_temporary_ne (h : Path.EndsIn path outer name) (d : Disk) :
    d.goal (path ++ ".tmp") ≠ d.goal path := by
  rw [goal_temporary h, goal_of_endsIn h]
  exact fun heq => Path.name_ne_temporary name (Place.child_injective _ heq)

theorem parent_goal_ne (h : Path.EndsIn path outer name) (d : Disk) :
    (d.goal path).parent ≠ d.goal path := by
  rw [goal_of_endsIn h, Place.parent_child]
  exact (Place.child_ne _ _).symm

/-- Without `..`, following a path does not lead back. -/
theorem depth_le_foldl_advance {ps : List String} (h : ".." ∉ ps) (place : Place) :
    place.depth ≤ (ps.foldl advance place).depth := by
  induction ps generalizing place with
  | nil => exact Nat.le_refl _
  | cons piece ps ih =>
    have hstep : place.depth ≤ (advance place piece).depth := by
      rw [advance]
      split
      · exact Nat.le_refl _
      · rw [if_neg fun heq => h (List.mem_cons.2 (.inl heq.symm))]
        exact Nat.le_succ _
    rw [List.foldl_cons]
    exact Nat.le_trans hstep (ih (fun hmem => h (List.mem_cons_of_mem _ hmem)) _)

/-! ### Paths that can be followed -/

/-- Whether a directory stands at a place. -/
def IsDirectory (d : Disk) (place : Place) : Prop :=
  ∃ time, d.node? place = some (.directory time)

theorem not_isDirectory {place : Place} (h : d.node? place = none) : ¬ d.IsDirectory place := by
  rintro ⟨time, hnode⟩
  exact absurd (hnode.symm.trans h) (by simp)

theorem not_isDirectory_of_file {place : Place} {bytes : List UInt8} {time : Int}
    (h : d.node? place = some (.file bytes time)) : ¬ d.IsDirectory place := by
  rintro ⟨time', hnode⟩
  exact absurd (hnode.symm.trans h) (by simp)

theorem walk_append {place p : Place} {front : List String} (h : d.walk place front = .ok p)
    (back : List String) : d.walk place (front ++ back) = d.walk p back := by
  induction front generalizing place with
  | nil =>
    obtain rfl := Except.ok.inj h
    rfl
  | cons piece front ih =>
    rw [List.cons_append]
    rw [walk] at h ⊢
    split at h
    · exact absurd h (by simp)
    · exact absurd h (by simp)
    · split at h
      · exact absurd h (by simp)
      · rename_i hlong
        rw [if_neg hlong]
        exact ih h

/-- Every step of a path is taken from a directory. -/
theorem isDirectory_of_walk {place p : Place} {before after : List String} {piece : String}
    (h : d.walk place (before ++ piece :: after) = .ok p) :
    d.IsDirectory (before.foldl advance place) := by
  induction before generalizing place with
  | nil =>
    rw [List.nil_append, walk] at h
    split at h
    · exact absurd h (by simp)
    · exact absurd h (by simp)
    · rename_i time hnode
      exact ⟨time, hnode⟩
  | cons first before ih =>
    rw [List.cons_append, walk] at h
    split at h
    · exact absurd h (by simp)
    · exact absurd h (by simp)
    · split at h
      · exact absurd h (by simp)
      · exact ih h

/-- Whether a path can be followed to the last `..` in it. -/
def Leads (d : Disk) (path : String) : Prop :=
  ∃ front back place, Text.pieces '/' path = front ++ back ∧ ".." ∉ back ∧
    d.walk (d.start path) front = .ok place

/-- A path without `..` leads on from where it starts. -/
theorem leads_of_not_mem (h : ".." ∉ Text.pieces '/' path) (d : Disk) : d.Leads path :=
  ⟨[], _, _, rfl, h, rfl⟩

/-- Whether none of the directories around something is at the place of the thing itself. -/
def Apart (d : Disk) (path : String) (outer : List String) : Prop :=
  ∀ piece rest, piece :: rest <:+ outer.reverse → Path.isPart piece = true →
    d.goal path ≠ d.goal (String.intercalate "/" (piece :: rest).reverse)

theorem Apart.of_here (h : d.Apart path outer) (hhere : d'.here = d.here) : d'.Apart path outer := by
  intro piece rest hsuffix hpart
  rw [goal_of_here hhere, goal_of_here hhere]
  exact h piece rest hsuffix hpart

/-- The directories on the way to the last `..` are there, and those after it are less deep than what
is in them. -/
theorem Leads.apart (h : d.Leads path) (hpath : Path.EndsIn path outer name)
    (hplace : ¬ d.IsDirectory (d.goal path)) : d.Apart path outer := by
  intro piece rest hsuffix hpart heq
  obtain ⟨hpieces, habsolute⟩ := hpath.isAbsolute_around hsuffix hpart
  obtain ⟨more, hmore⟩ : (piece :: rest).reverse <+: outer := by
    rw [← List.reverse_reverse outer]
    exact List.reverse_prefix.2 hsuffix
  have hstart : d.start (String.intercalate "/" (piece :: rest).reverse) = d.start path := by
    rw [start, start, habsolute]
  have hgoal : d.goal (String.intercalate "/" (piece :: rest).reverse) =
      (piece :: rest).reverse.foldl advance (d.start path) := by
    rw [goal, hpieces, hstart]
  have hdeep : ".." ∉ more → False := by
    intro hdeeper
    have hdepth := congrArg Place.depth heq
    rw [hgoal, goal_of_endsIn hpath, around, ← hmore, List.foldl_append] at hdepth
    have hle := depth_le_foldl_advance hdeeper ((piece :: rest).reverse.foldl advance (d.start path))
    exact absurd (hdepth.symm ▸ hle) (Nat.not_succ_le_self _)
  obtain ⟨front, back, place, hsplit, hback, hwalk⟩ := h
  rw [hpath.pieces, ← hmore, List.append_assoc] at hsplit
  have hafter : ∀ bs, back = bs ++ (more ++ [name]) → False := by
    rintro bs rfl
    exact hdeep fun hmem => hback (List.mem_append_right _ (List.mem_append_left _ hmem))
  rcases List.append_eq_append_iff.1 hsplit with ⟨before, hfront, hrest⟩ | ⟨bs, -, hrest⟩
  · cases before with
    | nil => exact hafter [] hrest.symm
    | cons next before =>
      rw [hfront] at hwalk
      rw [heq, hgoal] at hplace
      exact hplace (isDirectory_of_walk hwalk)
  · exact hafter bs hrest

/-! ### What changes -/

@[simp] theorem node?_put (d : Disk) (place q : Place) (node : DiskNode) :
    (d.put place node).node? q = if q = place then some node else d.node? q :=
  Dict.get?_insert d.nodes place q node

@[simp] theorem node?_stamp (d : Disk) (place q : Place) :
    (d.stamp place).node? q = if q = place.parent then some (.directory d.now) else d.node? q :=
  node?_put d place.parent q _

@[simp] theorem node?_take (d : Disk) (place q : Place) : (d.take place).node? q =
    if q = place.parent then some (.directory d.now) else if q = place then none else d.node? q := by
  rw [take, node?_stamp]
  congr 1
  exact Dict.get?_erase d.nodes place q

@[simp] theorem here_take (d : Disk) (place : Place) : (d.take place).here = d.here := rfl

/-- Whether one disk holds what another does, apart from what befalls it. -/
structure Same (d d' : Disk) : Prop where
  nodes : d'.nodes = d.nodes
  here : d'.here = d.here
  now : d'.now = d.now

theorem Same.symm (h : d.Same d') : d'.Same d :=
  ⟨h.nodes.symm, h.here.symm, h.now.symm⟩

theorem same_of_nextFault {fault : Option IoFailure} (h : d.nextFault = (fault, d')) : d.Same d' := by
  rw [nextFault] at h
  split at h <;>
  · obtain ⟨-, rfl⟩ := Prod.mk.inj h
    exact ⟨rfl, rfl, rfl⟩

theorem Same.node? (h : d.Same d') (q : Place) : d'.node? q = d.node? q := by
  rw [Disk.node?, Disk.node?, h.nodes]

/-- Whether on the way from one disk to another nothing has been put anywhere but at some places. -/
structure AddsOnly (places : Place → Prop) (d d' : Disk) : Prop where
  here : d'.here = d.here
  nodes : ∀ q, d.node? q = none → ¬ places q → d'.node? q = none

variable {places places' : Place → Prop}

theorem AddsOnly.refl (d : Disk) : AddsOnly places d d :=
  ⟨rfl, fun _ hq _ => hq⟩

theorem AddsOnly.trans (h : AddsOnly places d d') (h' : AddsOnly places d' d'') :
    AddsOnly places d d'' :=
  ⟨h'.here.trans h.here, fun q hq hplaces => h'.nodes q (h.nodes q hq hplaces) hplaces⟩

theorem AddsOnly.mono (h : AddsOnly places d d') (himp : ∀ q, places q → places' q) :
    AddsOnly places' d d' :=
  ⟨h.here, fun q hq hplaces => h.nodes q hq fun hq => hplaces (himp q hq)⟩

theorem Same.addsOnly (h : d.Same d') : AddsOnly places d d' :=
  ⟨h.here, fun q hq _ => (h.node? q).trans hq⟩

/-- Nothing comes to be where a path leads if nothing is put there. -/
theorem Lacks.of_addsOnly (h : d.Lacks path) (hadds : AddsOnly places d d')
    (hpath : ¬ places (d.goal path)) : d'.Lacks path := by
  rw [Lacks, goal_of_here hadds.here]
  exact hadds.nodes _ h hpath

theorem Lacks.of_same (h : d.Lacks path) (hsame : d.Same d') : d'.Lacks path :=
  h.of_addsOnly (hsame.addsOnly : AddsOnly (fun _ => False) d d') id

theorem addsOnly_put (d : Disk) (place : Place) (node : DiskNode) :
    AddsOnly (· = place) d (d.put place node) :=
  ⟨rfl, fun q hq hplace => by rw [node?_put, if_neg hplace, hq]⟩

/-- Changing the time of a directory puts nothing anywhere. -/
theorem addsOnly_stamp {place : Place} {time : Int}
    (h : d.node? place.parent = some (.directory time)) : AddsOnly places d (d.stamp place) := by
  refine ⟨rfl, fun q hq _ => ?_⟩
  rw [node?_stamp, if_neg, hq]
  rintro rfl
  exact absurd (hq.symm.trans h) (by simp)

/-- A new node in a directory is all that putting it there adds. -/
theorem addsOnly_put_stamp {place : Place} {time : Int} (node : DiskNode)
    (hnode : d.node? place = none) (hparent : d.node? place.parent = some (.directory time)) :
    AddsOnly (· = place) d ((d.put place node).stamp place) := by
  have hne : place.parent ≠ place := by
    intro heq
    rw [heq, hnode] at hparent
    exact absurd hparent (by simp)
  have hstamp : (d.put place node).node? place.parent = some (.directory time) := by
    rw [node?_put, if_neg hne, hparent]
  exact (addsOnly_put d place node).trans (addsOnly_stamp hstamp)

/-- A directory is created only where its path leads. -/
theorem addsOnly_createDirectory {result : Except IoFailure Unit}
    (h : d.createDirectory path = (result, d')) : AddsOnly (· = d.goal path) d d' := by
  rw [createDirectory] at h
  split at h
  · rename_i hfault
    obtain ⟨-, rfl⟩ := Prod.mk.inj h
    exact (same_of_nextFault hfault).addsOnly
  rename_i d₁ hfault
  have hsame := same_of_nextFault hfault
  split at h
  · obtain ⟨-, rfl⟩ := Prod.mk.inj h
    exact hsame.addsOnly
  rename_i place hlocate
  obtain rfl : place = d.goal path := (locate_ok hlocate).trans (goal_of_here hsame.here path)
  split at h
  · obtain ⟨-, rfl⟩ := Prod.mk.inj h
    exact hsame.addsOnly
  rename_i hnode
  split at h
  · rename_i hparent
    obtain ⟨-, rfl⟩ := Prod.mk.inj h
    exact hsame.addsOnly.trans (addsOnly_put_stamp _ hnode hparent)
  · obtain ⟨-, rfl⟩ := Prod.mk.inj h
    exact hsame.addsOnly
  · obtain ⟨-, rfl⟩ := Prod.mk.inj h
    exact hsame.addsOnly

/-- Whether a place is where some of the directories of a path are created, whose pieces are given last
first. -/
def MadeFor (d : Disk) (ps : List String) (q : Place) : Prop :=
  ∃ piece rest, piece :: rest <:+ ps ∧ Path.isPart piece = true ∧
    q = d.goal (String.intercalate "/" (piece :: rest).reverse)

theorem MadeFor.of_here {ps : List String} {q : Place} (h : d'.MadeFor ps q)
    (hhere : d'.here = d.here) : d.MadeFor ps q := by
  obtain ⟨piece, rest, hsuffix, hpart, rfl⟩ := h
  exact ⟨piece, rest, hsuffix, hpart, goal_of_here hhere _⟩

theorem MadeFor.cons {ps : List String} {q : Place} (h : d.MadeFor ps q) (piece : String) :
    d.MadeFor (piece :: ps) q := by
  obtain ⟨piece', rest, hsuffix, hpart, rfl⟩ := h
  exact ⟨piece', rest, hsuffix.trans (List.suffix_cons ..), hpart, rfl⟩

/-- Directories are created only where the parts of the path lead. -/
theorem addsOnly_createPieces {ps : List String} {result : Except IoFailure Unit}
    (h : d.createPieces ps = (result, d')) : AddsOnly (d.MadeFor ps) d d' := by
  induction ps generalizing d d' result with
  | nil =>
    obtain ⟨-, rfl⟩ := Prod.mk.inj h
    exact .refl d
  | cons piece outer ih =>
    rw [createPieces] at h
    split at h
    · exact (ih h).mono fun q hq => hq.cons piece
    rename_i hpart
    replace hpart : Path.isPart piece = true := by simpa using hpart
    have hmade : ∀ {d₁ d₂ : Disk} {answer : Except IoFailure Unit}, d₁.here = d.here →
        d₁.createDirectory (String.intercalate "/" (piece :: outer).reverse) = (answer, d₂) →
          AddsOnly (d.MadeFor (piece :: outer)) d₁ d₂ := by
      intro d₁ d₂ answer hhere hcreate
      refine (addsOnly_createDirectory hcreate).mono ?_
      rintro q rfl
      exact ⟨piece, outer, List.suffix_refl _, hpart, goal_of_here hhere _⟩
    dsimp only at h
    split at h
    · rename_i hcreate
      obtain ⟨-, rfl⟩ := Prod.mk.inj h
      exact hmade rfl hcreate
    rename_i d₁ hcreate
    have hfirst := hmade rfl hcreate
    split at h
    · -- the directories around it are created first
      split at h
      · rename_i houter
        obtain ⟨-, rfl⟩ := Prod.mk.inj h
        exact hfirst.trans ((ih houter).mono fun q hq => (hq.of_here hfirst.here).cons piece)
      rename_i d₂ houter
      have haround : AddsOnly (d.MadeFor (piece :: outer)) d d₂ :=
        hfirst.trans ((ih houter).mono fun q hq => (hq.of_here hfirst.here).cons piece)
      split at h
      · rename_i hagain
        obtain ⟨-, rfl⟩ := Prod.mk.inj h
        exact haround.trans (hmade haround.here hagain)
      rename_i hagain
      split at h <;>
      · obtain ⟨-, rfl⟩ := Prod.mk.inj h
        exact haround.trans (hmade haround.here hagain)
    · split at h <;>
      · obtain ⟨-, rfl⟩ := Prod.mk.inj h
        exact hfirst

/-- Creating the directories around something does not create the thing itself. -/
theorem Lacks.createDirectories (h : d.Lacks path) (hpath : Path.EndsIn path outer name)
    (hapart : d.Apart path outer) {directory : String} (hparent : Path.parent? path = some directory)
    {result : Except IoFailure Unit} (hcreate : d.createDirectories directory = (result, d')) :
    d'.here = d.here ∧ d'.Lacks path := by
  obtain ⟨directory', hparent', haround⟩ := hpath.exists_parent
  obtain rfl := Option.some.inj (hparent.symm.trans hparent')
  have hadds := addsOnly_createPieces hcreate
  refine ⟨hadds.here, h.of_addsOnly hadds ?_⟩
  rintro ⟨piece, rest, hsuffix, hpart, heq⟩
  exact hapart piece rest (haround piece rest hsuffix hpart) hpart heq

/-! ### Files -/

/-- A file is created only where its path leads. -/
theorem addsOnly_createFile {result : Except IoFailure Place} (h : d.createFile path = (result, d')) :
    AddsOnly (· = d.goal path) d d' ∧ ∀ place, result = .ok place → place = d.goal path := by
  rw [createFile] at h
  split at h
  · rename_i hfault
    obtain ⟨rfl, rfl⟩ := Prod.mk.inj h
    exact ⟨(same_of_nextFault hfault).addsOnly, by simp⟩
  rename_i d₁ hfault
  have hsame := same_of_nextFault hfault
  split at h
  · obtain ⟨rfl, rfl⟩ := Prod.mk.inj h
    exact ⟨hsame.addsOnly, by simp⟩
  rename_i place hlocate
  obtain rfl : place = d.goal path := (locate_ok hlocate).trans (goal_of_here hsame.here path)
  split at h
  · obtain ⟨rfl, rfl⟩ := Prod.mk.inj h
    exact ⟨hsame.addsOnly, by simp⟩
  · obtain ⟨rfl, rfl⟩ := Prod.mk.inj h
    exact ⟨hsame.addsOnly.trans (addsOnly_put d₁ _ _), fun _ hplace => (Except.ok.inj hplace).symm⟩
  rename_i hnode
  split at h
  · rename_i hparent
    obtain ⟨rfl, rfl⟩ := Prod.mk.inj h
    exact ⟨hsame.addsOnly.trans (addsOnly_put_stamp _ hnode hparent),
      fun _ hplace => (Except.ok.inj hplace).symm⟩
  · obtain ⟨rfl, rfl⟩ := Prod.mk.inj h
    exact ⟨hsame.addsOnly, by simp⟩
  · obtain ⟨rfl, rfl⟩ := Prod.mk.inj h
    exact ⟨hsame.addsOnly, by simp⟩

/-- A file is filled, or nothing is done. -/
theorem fillFile_cases {place : Place} {bytes : List UInt8} {result : Except IoFailure Unit}
    (h : d.fillFile place bytes = (result, d')) :
    (∃ failure, result = .error failure ∧ d.Same d') ∨
      ∃ d₁, d.Same d₁ ∧ result = .ok () ∧ d' = d₁.put place (.file bytes d₁.now) := by
  rw [fillFile] at h
  split at h
  · rename_i failure d₁ hfault
    obtain ⟨rfl, rfl⟩ := Prod.mk.inj h
    exact .inl ⟨failure, rfl, same_of_nextFault hfault⟩
  · rename_i d₁ hfault
    obtain ⟨rfl, rfl⟩ := Prod.mk.inj h
    exact .inr ⟨d₁, same_of_nextFault hfault, rfl, rfl⟩

theorem same_of_syncFile {result : Except IoFailure Unit} (h : d.syncFile = (result, d')) :
    d.Same d' := by
  rw [syncFile] at h
  split at h <;>
  · rename_i hfault
    obtain ⟨-, rfl⟩ := Prod.mk.inj h
    exact same_of_nextFault hfault

/-- A file is written only where its path leads, and it is there afterwards if nothing failed. -/
theorem addsOnly_writeFile {bytes : List UInt8} {result : Except (WriteStage × IoFailure) Unit}
    (h : d.writeFile path bytes = (result, d')) : AddsOnly (· = d.goal path) d d' ∧
      (result = .ok () → ∃ time, d'.node? (d.goal path) = some (.file bytes time)) := by
  rw [writeFile] at h
  split at h
  · rename_i hcreate
    obtain ⟨rfl, rfl⟩ := Prod.mk.inj h
    exact ⟨(addsOnly_createFile hcreate).1, by simp⟩
  rename_i place d₁ hcreate
  obtain ⟨hadds, hplace⟩ := addsOnly_createFile hcreate
  obtain rfl := hplace place rfl
  split at h
  · rename_i d₂ hfill
    obtain ⟨rfl, rfl⟩ := Prod.mk.inj h
    rcases fillFile_cases hfill with ⟨_, -, hsame⟩ | ⟨_, -, hresult, -⟩
    · exact ⟨hadds.trans hsame.addsOnly, by simp⟩
    · exact absurd hresult (by simp)
  rename_i d₂ hfill
  obtain ⟨d₁', hsame, -, rfl⟩ := (fillFile_cases hfill).resolve_left (by simp)
  have hput := (hadds.trans hsame.addsOnly).trans
    (addsOnly_put d₁' (d.goal path) (.file bytes d₁'.now))
  split at h
  · rename_i hsync
    obtain ⟨rfl, rfl⟩ := Prod.mk.inj h
    exact ⟨hput.trans (same_of_syncFile hsync).addsOnly, by simp⟩
  · rename_i hsync
    obtain ⟨rfl, rfl⟩ := Prod.mk.inj h
    have hsame' := same_of_syncFile hsync
    refine ⟨hput.trans hsame'.addsOnly, fun _ => ⟨d₁'.now, ?_⟩⟩
    rw [hsame'.node?, node?_put, if_pos rfl]

/-! ### Giving a file its name -/

theorem walk_of_directories (h : ∀ place, d.IsDirectory place → d'.IsDirectory place)
    {place p : Place} {ps : List String} (hwalk : d.walk place ps = .ok p) :
    d'.walk place ps = .ok p := by
  induction ps generalizing place with
  | nil => exact hwalk
  | cons piece ps ih =>
    rw [walk] at hwalk
    split at hwalk
    · exact absurd hwalk (by simp)
    · exact absurd hwalk (by simp)
    rename_i time hnode
    obtain ⟨time', hnode'⟩ := h place ⟨time, hnode⟩
    split at hwalk
    · exact absurd hwalk (by simp)
    rename_i hlong
    rw [walk, hnode']
    dsimp only
    rw [if_neg hlong]
    exact ih hwalk

theorem Same.leads (h : d.Same d') (hleads : d.Leads path) : d'.Leads path := by
  obtain ⟨front, back, place, hpieces, hback, hwalk⟩ := hleads
  refine ⟨front, back, place, hpieces, hback, ?_⟩
  rw [start, h.here]
  refine walk_of_directories (fun place hplace => ?_) hwalk
  rw [IsDirectory, h.node?]
  exact hplace

/-- A path can still be followed while directories stay where they are. -/
theorem locate_of_directories (h : ∀ place, d.IsDirectory place → d'.IsDirectory place)
    (hhere : d'.here = d.here) {place : Place} (hlocate : d.locate path = .ok place) :
    d'.locate path = .ok place := by
  rw [locate] at hlocate ⊢
  split at hlocate
  · exact absurd hlocate (by simp)
  split at hlocate
  · exact absurd hlocate (by simp)
  rename_i hnul hlong
  rw [if_neg hnul, if_neg hlong]
  rw [trace] at hlocate ⊢
  split at hlocate
  · exact absurd hlocate (by simp)
  rename_i hempty
  rw [if_neg hempty, hhere]
  exact walk_of_directories h hlocate

theorem openFile_of_node? {place : Place} {bytes : List UInt8} {time : Int}
    (hlocate : d.locate path = .ok place) (hnode : d.node? place = some (.file bytes time)) :
    d.openFile path = .ok ⟨bytes, none⟩ := by
  rw [Disk.openFile, find, hlocate]
  simp only [hnode]

/-- A disk after what stood at one place has been put at another. -/
def moved (d : Disk) (old new : Place) (node : DiskNode) : Disk :=
  ((d.take old).put new node).stamp new

theorem node?_moved {old new : Place} (h : new.parent ≠ new) (node : DiskNode) :
    (d.moved old new node).node? new = some node := by
  rw [moved, node?_stamp, if_neg h.symm, node?_put, if_pos rfl]

/-- Moving a file leaves all directories where they are. -/
theorem isDirectory_moved {old new : Place} {bytes : List UInt8} {time : Int}
    (hold : d.node? old = some (.file bytes time)) (hnew : ¬ d.IsDirectory new) (node : DiskNode)
    {place : Place} (h : d.IsDirectory place) : (d.moved old new node).IsDirectory place := by
  obtain ⟨time', hplace⟩ := h
  have hne : place ≠ old := by
    rintro rfl
    exact absurd (hplace.symm.trans hold) (by simp)
  have hne' : place ≠ new := by
    rintro rfl
    exact hnew ⟨time', hplace⟩
  rw [IsDirectory, moved, node?_stamp, node?_put, if_neg hne', node?_take, if_neg hne]
  split_ifs
  · exact ⟨_, rfl⟩
  · exact ⟨_, rfl⟩
  · exact ⟨time', hplace⟩

/-- Giving something another name changes nothing if it fails. -/
theorem same_of_rename {source target : String} {failure : IoFailure}
    (h : d.rename source target = (.error failure, d')) : d.Same d' := by
  rw [rename] at h
  split at h
  · rename_i hfault
    obtain ⟨-, rfl⟩ := Prod.mk.inj h
    exact same_of_nextFault hfault
  rename_i hfault
  have hsame := same_of_nextFault hfault
  split at h
  · obtain ⟨-, rfl⟩ := Prod.mk.inj h
    exact hsame
  split at h
  · obtain ⟨-, rfl⟩ := Prod.mk.inj h
    exact hsame
  split at h
  · obtain ⟨-, rfl⟩ := Prod.mk.inj h
    exact hsame
  split at h
  · exact absurd (Prod.mk.inj h).1 (by simp)
  · obtain ⟨-, rfl⟩ := Prod.mk.inj h
    exact hsame
  · obtain ⟨-, rfl⟩ := Prod.mk.inj h
    exact hsame

/-- What giving something another name finds and does if it succeeds. -/
theorem rename_ok {source target : String} (h : d.rename source target = (.ok (), d')) :
    ∃ d₁ node, d.Same d₁ ∧ d₁.find source = .ok (d.goal source, node) ∧
      d₁.locate target = .ok (d.goal target) ∧ ¬ d₁.IsDirectory (d.goal target) ∧
      d₁.IsDirectory (d.goal target).parent ∧
      d' = d₁.moved (d.goal source) (d.goal target) node := by
  rw [rename] at h
  split at h
  · exact absurd (Prod.mk.inj h).1 (by simp)
  rename_i d₁ hfault
  have hsame := same_of_nextFault hfault
  split at h
  · exact absurd (Prod.mk.inj h).1 (by simp)
  rename_i old node hfind
  obtain rfl : old = d.goal source := (find_ok hfind).1.trans (goal_of_here hsame.here source)
  split at h
  · exact absurd (Prod.mk.inj h).1 (by simp)
  rename_i new hlocate
  obtain rfl : new = d.goal target := (locate_ok hlocate).trans (goal_of_here hsame.here target)
  split at h
  · exact absurd (Prod.mk.inj h).1 (by simp)
  rename_i hnew
  split at h
  · rename_i time hparent
    obtain ⟨-, rfl⟩ := Prod.mk.inj h
    exact ⟨d₁, node, hsame, hfind, hlocate, fun ⟨time, htime⟩ => hnew time htime,
      ⟨time, hparent⟩, rfl⟩
  · exact absurd (Prod.mk.inj h).1 (by simp)
  · exact absurd (Prod.mk.inj h).1 (by simp)

/-- A file that has been given a name is found under it. -/
theorem openFile_of_rename {source target : String} {bytes : List UInt8} {time : Int}
    (h : d.rename source target = (.ok (), d'))
    (hsource : d.node? (d.goal source) = some (.file bytes time))
    (htarget : (d.goal target).parent ≠ d.goal target) :
    d'.openFile target = .ok ⟨bytes, none⟩ := by
  obtain ⟨d₁, node, hsame, hfind, hlocate, hdirectory, -, rfl⟩ := rename_ok h
  have hold := (find_ok hfind).2
  obtain rfl : node = .file bytes time :=
    Option.some.inj ((hold.symm.trans (hsame.node? _)).trans hsource)
  have hstays : (d₁.moved (d.goal source) (d.goal target) (.file bytes time)).locate target =
      .ok (d.goal target) :=
    locate_of_directories (fun place => isDirectory_moved hold hdirectory _) rfl hlocate
  exact openFile_of_node? hstays (node?_moved htarget _)

/-! ### Removing files -/

/-- Whether everything stands in a directory. -/
def Sound (d : Disk) : Prop :=
  ∀ place node, d.node? place = some node → d.IsDirectory place.parent

theorem sound_empty : Sound {} := by
  intro place node hnode
  have hplace : place = {} := by
    by_contra hne
    have hnone : node? {} place = none := by
      simp [node?, Dict.get?, Ne.symm hne]
    exact absurd (hnone.symm.trans hnode) (by simp)
  rw [hplace]
  exact ⟨0, rfl⟩

/-- Putting something into a directory, but not in place of one, leaves everything in directories. -/
theorem Sound.put {place : Place} (h : d.Sound) (hparent : d.IsDirectory place.parent)
    (hplace : ¬ d.IsDirectory place) (node : DiskNode) : (d.put place node).Sound := by
  have hstays : ∀ q, d.IsDirectory q → (d.put place node).IsDirectory q := by
    rintro q ⟨time, hq⟩
    have hne : q ≠ place := fun heq => hplace (heq ▸ ⟨time, hq⟩)
    exact ⟨time, by rw [node?_put, if_neg hne, hq]⟩
  intro q node' hq
  rw [node?_put] at hq
  split at hq
  · rename_i heq
    rw [heq]
    exact hstays _ hparent
  · exact hstays _ (h q node' hq)

theorem Same.sound (h : d.Same d') (hsound : d.Sound) : d'.Sound := by
  intro place node hnode
  rw [h.node?] at hnode
  obtain ⟨time, htime⟩ := hsound place node hnode
  exact ⟨time, (h.node? _).trans htime⟩

/-- Where nothing is, nothing is further down. -/
theorem Sound.node?_foldl_advance (h : d.Sound) {place : Place} (hplace : d.node? place = none)
    {ps : List String} (hps : ".." ∉ ps) : d.node? (ps.foldl advance place) = none := by
  induction ps generalizing place with
  | nil => exact hplace
  | cons piece ps ih =>
    refine ih ?_ fun hmem => hps (List.mem_cons_of_mem _ hmem)
    rw [advance]
    split
    · exact hplace
    rw [if_neg fun heq => hps (List.mem_cons.2 (.inl heq.symm))]
    cases hchild : d.node? (place.child piece) with
    | none => rfl
    | some node =>
      obtain ⟨time, htime⟩ := h _ _ hchild
      exact absurd (hplace.symm.trans htime) (by simp)

theorem Sound.node?_of_walk (h : d.Sound) {place : Place} {ps : List String} (hps : ".." ∉ ps)
    {failure : IoFailure} (hwalk : d.walk place ps = .error failure)
    (hkind : failure.kind = .notFound) : d.node? (ps.foldl advance place) = none := by
  induction ps generalizing place with
  | nil => exact absurd hwalk (by simp [walk])
  | cons piece ps ih =>
    rw [walk] at hwalk
    split at hwalk
    · rename_i hnone
      exact h.node?_foldl_advance hnone hps
    · obtain rfl := Except.error.inj hwalk
      exact absurd hkind (by decide)
    split at hwalk
    · obtain rfl := Except.error.inj hwalk
      exact absurd hkind (by decide)
    · exact ih (fun hmem => hps (List.mem_cons_of_mem _ hmem)) hwalk

/-- If following a path comes to nothing after the last `..`, there is nothing at its goal. -/
theorem Sound.lacks (h : d.Sound) (hleads : d.Leads path) (hne : path ≠ "")
    {failure : IoFailure} (hfind : d.find path = .error failure)
    (hkind : failure.kind = .notFound) : d.Lacks path := by
  rw [find] at hfind
  split at hfind
  · rename_i hlocate
    obtain rfl := Except.error.inj hfind
    rw [locate] at hlocate
    split at hlocate
    · obtain rfl := Except.error.inj hlocate
      exact absurd hkind (by decide)
    split at hlocate
    · obtain rfl := Except.error.inj hlocate
      exact absurd hkind (by decide)
    obtain ⟨front, back, place, hpieces, hback, hwalk⟩ := hleads
    rw [trace, if_neg fun hempty => hne (String.isEmpty_iff.1 hempty), hpieces,
      ← start, walk_append hwalk] at hlocate
    rw [Lacks, goal, hpieces, List.foldl_append, ← walk_ok hwalk]
    exact h.node?_of_walk hback hlocate hkind
  · rename_i place hlocate
    split at hfind
    · exact absurd hfind (by simp)
    · rename_i hnone
      rw [Lacks, ← locate_ok hlocate]
      exact hnone

/-- Whether it is not the failure in store that says that a file is not there. -/
def Honest (d : Disk) : Prop :=
  ∀ failure, d.nextFault.1 = some failure → failure.kind ≠ .notFound

theorem honest_of_faults (h : d.faults = []) : d.Honest := by
  rintro failure hfault
  rw [nextFault, h] at hfault
  exact absurd hfault (by simp)

theorem lacks_take (h : (d.goal path).parent ≠ d.goal path) : (d.take (d.goal path)).Lacks path := by
  rw [Lacks, goal_of_here (here_take d _), node?_take, if_neg h.symm, if_pos rfl]

/-- Removing a file changes nothing if it fails. -/
theorem same_of_removeFile {failure : IoFailure} (h : d.removeFile path = (.error failure, d')) :
    d.Same d' := by
  rw [removeFile] at h
  split at h
  · rename_i hfault
    obtain ⟨-, rfl⟩ := Prod.mk.inj h
    exact same_of_nextFault hfault
  rename_i hfault
  split at h
  · obtain ⟨-, rfl⟩ := Prod.mk.inj h
    exact same_of_nextFault hfault
  · obtain ⟨-, rfl⟩ := Prod.mk.inj h
    exact same_of_nextFault hfault
  · exact absurd (Prod.mk.inj h).1 (by simp)

/-- What removing a file finds and does if it succeeds. -/
theorem removeFile_ok (h : d.removeFile path = (.ok (), d')) :
    ∃ d₁ bytes time, d.Same d₁ ∧ d₁.find path = .ok (d.goal path, .file bytes time) ∧
      d' = d₁.take (d.goal path) := by
  rw [removeFile] at h
  split at h
  · exact absurd (Prod.mk.inj h).1 (by simp)
  rename_i d₁ hfault
  have hsame := same_of_nextFault hfault
  split at h
  · exact absurd (Prod.mk.inj h).1 (by simp)
  · exact absurd (Prod.mk.inj h).1 (by simp)
  · rename_i place bytes time hfind
    obtain ⟨-, rfl⟩ := Prod.mk.inj h
    obtain rfl : place = d.goal path := (find_ok hfind).1.trans (goal_of_here hsame.here path)
    exact ⟨d₁, bytes, time, hsame, hfind, rfl⟩

/-- After a file has been removed nothing is there. -/
theorem lacks_of_removeFile (hpath : Path.EndsIn path outer name)
    (h : d.removeFile path = (.ok (), d')) :
    ¬ d.IsDirectory (d.goal path) ∧ d'.here = d.here ∧ d'.Lacks path := by
  obtain ⟨d₁, bytes, time, hsame, hfind, rfl⟩ := removeFile_ok h
  have hnode : d.node? (d.goal path) = some (.file bytes time) :=
    (hsame.node? _).symm.trans (find_ok hfind).2
  refine ⟨?_, hsame.here, ?_⟩
  · rintro ⟨time', hdirectory⟩
    exact absurd (hnode.symm.trans hdirectory) (by simp)
  · rw [← goal_of_here hsame.here]
    exact lacks_take (parent_goal_ne hpath d₁)

/-- If a file was not there to be removed, nothing is there. -/
theorem Sound.lacks_of_removeFile (h : d.Sound) (hhonest : d.Honest) (hleads : d.Leads path)
    (hne : path ≠ "") {failure : IoFailure} (hremove : d.removeFile path = (.error failure, d'))
    (hkind : failure.kind = .notFound) : d'.Lacks path := by
  rw [removeFile] at hremove
  split at hremove
  · rename_i fault _ hfault
    obtain ⟨heq, -⟩ := Prod.mk.inj hremove
    obtain rfl := Except.error.inj heq
    exact absurd hkind (hhonest _ (congrArg Prod.fst hfault))
  rename_i d₁ hfault
  have hsame := same_of_nextFault hfault
  split at hremove
  · rename_i hfind
    obtain ⟨heq, rfl⟩ := Prod.mk.inj hremove
    obtain rfl := Except.error.inj heq
    exact (hsame.sound h).lacks (hsame.leads hleads) hne hfind hkind
  · obtain ⟨heq, -⟩ := Prod.mk.inj hremove
    obtain rfl := Except.error.inj heq
    exact absurd hkind (by decide)
  · exact absurd (Prod.mk.inj hremove).1 (by simp)

end Disk

end AblAnalysis
