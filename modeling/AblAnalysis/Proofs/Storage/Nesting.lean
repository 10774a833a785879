import AblAnalysis.Proofs.Storage.Frames

/-!
Artifacts in the cache directory. The path of an artifact goes to the cache directory and on from there by
the pieces that its source gives (`Path.exists_endsIn_nested`). If there is no `..` among these, writing the
artifact changes nothing outside (`Disk.confined_of_nests`).
-/

namespace AblAnalysis

/-! ### Paths of artifacts -/

namespace Path

/-- What of the path of a source nests under a cache directory. -/
def inside (source : String) : String :=
  String.ofList ((plainDrive (dropVerbatim source.toList)).dropWhile (fun c => c = '/' || c = '\\'))

theorem isAbsolute_inside (source : String) : isAbsolute (inside source) = false := by
  simp only [isAbsolute, Text.beginsWith, inside, String.toList_ofList]
  generalize plainDrive (dropVerbatim source.toList) = cs
  induction cs with
  | nil => rfl
  | cons c cs ih =>
    rw [List.dropWhile_cons]
    split
    · exact ih
    · rename_i hc
      have hne : c ≠ '/' := by
        rintro rfl
        exact hc (by simp)
      simp [List.isPrefixOf, Ne.symm hne]

theorem pieces_append_slash (base path : String) :
    Text.pieces '/' (base ++ "/" ++ path) = Text.pieces '/' base ++ Text.pieces '/' path :=
  Text.pieces_append '/' base path

theorem isAbsolute_append {base : String} (h : base.isEmpty = false) (path : String) :
    isAbsolute (base ++ path) = isAbsolute base := by
  have hbase : base.toList ≠ [] := by simpa using h
  obtain ⟨c, cs, hcs⟩ := List.exists_cons_of_ne_nil hbase
  simp [isAbsolute, Text.beginsWith, hcs, List.isPrefixOf]

/-- The pieces of a path that count, `..` among them. -/
def names (path : String) : List String :=
  (Text.pieces '/' path).filter isPart

/-- What is joined to a directory comes by its own pieces after those of the directory that count. -/
theorem exists_pieces_join (directory : String) : ∃ base : List String,
    base.filter isPart = names directory ∧
    ∀ path, isAbsolute path = false →
      Text.pieces '/' (join directory path) = base ++ Text.pieces '/' path ∧
        isAbsolute (join directory path) = isAbsolute directory := by
  by_cases hempty : directory.isEmpty = true
  · obtain rfl := String.isEmpty_iff.1 hempty
    refine ⟨[], by decide, fun path hpath => ?_⟩
    rw [join, hempty, Bool.or_true, if_pos rfl, hpath]
    exact ⟨rfl, rfl⟩
  have hnonempty : directory.isEmpty = false := Bool.eq_false_iff.2 hempty
  have hjoin : ∀ path, isAbsolute path = false → join directory path =
      if directory.toList.getLast? = some '/' then directory ++ path
      else directory ++ "/" ++ path := by
    intro path hpath
    rw [join, hpath, hnonempty, Bool.or_false, if_neg Bool.false_ne_true]
  by_cases hlast : directory.toList.getLast? = some '/'
  · obtain ⟨cs, hcs⟩ := List.getLast?_eq_some_iff.1 hlast
    have hdirectory : directory = String.ofList cs ++ "/" := by
      apply String.toList_injective
      simp [hcs]
    have hpieces : Text.pieces '/' directory = Text.pieces '/' (String.ofList cs) ++ [""] := by
      have hempty : Text.pieces '/' "" = [""] := by decide
      rw [hdirectory, ← hempty, ← pieces_append_slash, String.append_empty]
    refine ⟨Text.pieces '/' (String.ofList cs), ?_, fun path hpath => ?_⟩
    · have hnone : [""].filter isPart = [] := by decide
      rw [names, hpieces, List.filter_append, hnone, List.append_nil]
    · rw [hjoin path hpath, if_pos hlast, isAbsolute_append hnonempty, hdirectory,
        pieces_append_slash]
      exact ⟨rfl, rfl⟩
  · refine ⟨Text.pieces '/' directory, rfl, fun path hpath => ?_⟩
    rw [hjoin path hpath, if_neg hlast, pieces_append_slash, String.append_assoc]
    exact ⟨rfl, isAbsolute_append hnonempty _⟩

/-- An artifact lies where the pieces that its source gives lead to from the cache directory. -/
theorem exists_endsIn_nested (directory : String) : ∃ base : List String,
    base.filter isPart = names directory ∧
    ∀ source, isAbsolute (artifact directory source) = isAbsolute directory ∧
      ∃ inner last, Text.pieces '/' (inside source) = inner ++ [last] ∧
        EndsIn (artifact directory source) (base ++ inner) (last ++ ".pub") := by
  obtain ⟨base, hbase, hjoin⟩ := exists_pieces_join directory
  refine ⟨base, hbase, fun source => ?_⟩
  obtain ⟨hpieces, habsolute⟩ := hjoin (inside source) (isAbsolute_inside source)
  obtain ⟨inner, last, hinside⟩ :=
    (List.eq_nil_or_concat (Text.pieces '/' (inside source))).resolve_left
      (Text.pieces_ne_nil '/' _)
  obtain ⟨outer, last', hnested, hartifact⟩ :=
    Text.exists_pieces_append (nested directory source) (by decide : '/' ∉ ".pub".toList)
  have hsplit : outer ++ [last'] = (base ++ inner) ++ [last] := by
    rw [← hnested, List.append_assoc, ← List.concat_eq_append, ← hinside]
    exact hpieces
  obtain ⟨rfl, hlast⟩ := List.append_inj' hsplit rfl
  obtain ⟨rfl, -⟩ := List.cons.inj hlast
  have hends : EndsIn (artifact directory source) (base ++ inner) (last' ++ ".pub") :=
    .of_ending hartifact (by decide)
  refine ⟨?_, inner, last', by rw [hinside, List.concat_eq_append], hends⟩
  replace habsolute : isAbsolute (nested directory source) = isAbsolute directory := habsolute
  rw [← habsolute, artifact]
  cases hempty : (nested directory source).isEmpty with
  | false => exact isAbsolute_append hempty _
  | true =>
    rw [String.isEmpty_iff.1 hempty]
    decide

end Path

/-! ### Below a directory -/

namespace Place

/-- Whether a place is that of a directory or below it. -/
def Under (c q : Place) : Prop :=
  c.names <:+ q.names

instance instDecidableUnder (c q : Place) : Decidable (Under c q) :=
  inferInstanceAs (Decidable (c.names <:+ q.names))

theorem under_child {c q : Place} (h : Under c q) (name : String) : Under c (q.child name) :=
  h.trans (List.suffix_cons ..)

/-- Without `..`, following a path from below a directory does not leave it. -/
theorem under_foldl_advance {c q : Place} {ps : List String} (h : Under c q) (hps : ".." ∉ ps) :
    Under c (ps.foldl Disk.advance q) := by
  induction ps generalizing q with
  | nil => exact h
  | cons piece ps ih =>
    refine ih ?_ fun hmem => hps (List.mem_cons_of_mem _ hmem)
    rw [Disk.advance]
    split
    · exact h
    · rw [if_neg fun heq => hps (List.mem_cons.2 (.inl heq.symm))]
      exact under_child h piece

end Place

namespace Disk

variable {d d' : Disk} {place : Place} {kept region : Place → Prop}
  {path path' name directory source other : String} {outer : List String}

/-- Only the pieces that count lead on. -/
theorem foldl_advance_filter (ps : List String) (place : Place) :
    (ps.filter Path.isPart).foldl advance place = ps.foldl advance place := by
  induction ps generalizing place with
  | nil => rfl
  | cons piece ps ih =>
    rw [List.filter_cons]
    split
    · exact ih _
    · rename_i hpart
      have hstays : advance place piece = place := by
        rw [advance, if_pos]
        simpa [Path.isPart, or_iff_not_imp_left] using hpart
      rw [ih, List.foldl_cons, hstays]

theorem foldl_advance_congr {ps qs : List String}
    (h : ps.filter Path.isPart = qs.filter Path.isPart) (place : Place) :
    ps.foldl advance place = qs.foldl advance place := by
  rw [← foldl_advance_filter, h, foldl_advance_filter]

/-! ### The places of an artifact -/

/-- Whether writing an artifact changes nothing outside a region. -/
structure Confined (d : Disk) (region : Place → Prop) (path : String) : Prop where
  within : d.Within region path
  aside : d.Within region (path ++ ".tmp")
  made : d.MadeIn region (Text.pieces '/' path).dropLast.reverse

theorem confined_anywhere (d : Disk) (path : String) : d.Confined (fun _ => True) path :=
  ⟨⟨trivial, trivial⟩, ⟨trivial, trivial⟩, fun _ _ => .inr ⟨trivial, trivial⟩⟩

theorem Confined.of_keeps (h : d.Confined region path) (hkeeps : Keeps kept region d d') :
    d'.Confined region path :=
  ⟨h.within.of_here hkeeps.here, h.aside.of_here hkeeps.here, h.made.of_keeps hkeeps⟩

/-- Whether a file at a place is that of an artifact, under its name or under the temporary one. -/
def Owns (d : Disk) (path : String) (place : Place) : Prop :=
  place = d.goal path ∨ place = d.goal (path ++ ".tmp")

theorem owns_goal (d : Disk) (path : String) : d.Owns path (d.goal path) :=
  .inl rfl

theorem owns_temporary (d : Disk) (path : String) : d.Owns path (d.goal (path ++ ".tmp")) :=
  .inr rfl

/-- Under a temporary name no artifact is where another one belongs. -/
theorem goal_temporary_ne_goal (d : Disk) (directory source other : String) :
    d.goal (Path.artifact directory source ++ ".tmp") ≠ d.goal (Path.artifact directory other) := by
  obtain ⟨base, -, hnested⟩ := Path.exists_endsIn_nested directory
  obtain ⟨-, inner, last, -, hpath⟩ := hnested source
  obtain ⟨-, inner', last', -, hpath'⟩ := hnested other
  rw [goal_temporary hpath, goal_of_endsIn hpath']
  intro heq
  have hname : last ++ ".pub" ++ ".tmp" = last' ++ ".pub" := (List.cons.inj (congrArg Place.names heq)).1
  have hletter := congrArg (fun s => s.toList.getLast?) hname
  simp at hletter

/-- Artifacts that have one temporary place belong at one place. -/
theorem goal_eq_of_temporary {name' : String} {outer' : List String} (h : Path.EndsIn path outer name)
    (h' : Path.EndsIn path' outer' name')
    (heq : d.goal (path ++ ".tmp") = d.goal (path' ++ ".tmp")) : d.goal path = d.goal path' := by
  rw [goal_temporary h, goal_temporary h'] at heq
  have haround := congrArg Place.parent heq
  have hname := (List.cons.inj (congrArg Place.names heq)).1
  rw [Place.parent_child, Place.parent_child] at haround
  rw [goal_of_endsIn h, goal_of_endsIn h', haround, (String.append_left_inj ".tmp").1 hname]

/-- Artifacts that belong at different places have no place in common. -/
theorem not_owns_of_goal_ne
    (hne : d.goal (Path.artifact directory source) ≠ d.goal (Path.artifact directory other))
    (h : d.Owns (Path.artifact directory source) place) :
    ¬ d.Owns (Path.artifact directory other) place := by
  obtain ⟨outer, name, hpath⟩ := Path.exists_endsIn_artifact directory source
  obtain ⟨outer', name', hpath'⟩ := Path.exists_endsIn_artifact directory other
  intro hother
  rcases h with h | h <;> rcases hother with hother | hother
  · exact hne (h.symm.trans hother)
  · exact goal_temporary_ne_goal d directory other source (hother.symm.trans h)
  · exact goal_temporary_ne_goal d directory source other (h.symm.trans hother)
  · exact hne (goal_eq_of_temporary hpath hpath' (h.symm.trans hother))

/-- If there is no `..` in what nests under the cache directory, and the way there is known to exist from an
artifact that is there, then an artifact is written without a change outside. -/
theorem confined_of_nests (hlocate : d.locate (Path.artifact directory other) = .ok place)
    (hnests : ".." ∉ Text.pieces '/' (Path.inside source)) :
    d.Confined (Place.Under (d.goal directory)) (Path.artifact directory source) := by
  obtain ⟨base, hbase, hnested⟩ := Path.exists_endsIn_nested directory
  obtain ⟨habsolute, inner, last, hinside, hpath⟩ := hnested source
  obtain ⟨habsolute', inner', last', -, hpath'⟩ := hnested other
  have hstart : d.start (Path.artifact directory source) = d.start directory := by
    rw [start, start, habsolute]
  have hstart' : d.start (Path.artifact directory other) = d.start directory := by
    rw [start, start, habsolute']
  have hinner : ".." ∉ inner := fun hmem => hnests (hinside ▸ List.mem_append_left _ hmem)
  have hway : ∀ front left, base = front ++ left →
      d.IsDirectory (front.foldl advance (d.start directory)) := by
    rintro front left rfl
    rw [← hstart']
    have hpieces : Text.pieces '/' (Path.artifact directory other) =
        front ++ (left ++ (inner' ++ [last' ++ ".pub"])) := by
      rw [hpath'.pieces, List.append_assoc, List.append_assoc]
    exact isDirectory_of_locate hlocate hpieces (by simp)
  -- where a part of the way leads that goes beyond the cache directory
  have hbeyond : ∀ ps, ".." ∉ ps →
      Place.Under (d.goal directory) ((base ++ ps).foldl advance (d.start directory)) := by
    intro ps hps
    rw [List.foldl_append, foldl_advance_congr hbase]
    exact Place.under_foldl_advance (List.suffix_refl _) hps
  have haround : Place.Under (d.goal directory) (d.around (Path.artifact directory source)
      (base ++ inner)) := by
    rw [around, hstart]
    exact hbeyond inner hinner
  refine ⟨?_, ?_, ?_⟩
  · refine ⟨?_, ?_⟩ <;> rw [goal_of_endsIn hpath]
    · exact Place.under_child haround _
    · exact haround
  · refine ⟨?_, ?_⟩ <;> rw [goal_temporary hpath]
    · exact Place.under_child haround _
    · exact haround
  · rintro q ⟨piece, rest, hsuffix, hpart, rfl⟩
    rw [hpath.pieces, List.dropLast_concat] at hsuffix
    obtain ⟨hpieces, habsolute''⟩ := hpath.isAbsolute_around hsuffix hpart
    obtain ⟨more, hmore⟩ : (piece :: rest).reverse <+: base ++ inner := by
      rw [← List.reverse_reverse (base ++ inner)]
      exact List.reverse_prefix.2 hsuffix
    have hgoal : d.goal (String.intercalate "/" (piece :: rest).reverse) =
        (piece :: rest).reverse.foldl advance (d.start directory) := by
      rw [goal, hpieces, start, habsolute'', ← start, hstart]
    rw [hgoal]
    rcases List.append_eq_append_iff.1 hmore with ⟨left, hleft, -⟩ | ⟨ps, hps, hrest⟩
    · exact .inl (hway _ left hleft)
    rcases List.eq_nil_or_concat ps with rfl | ⟨front, part, rfl⟩
    · exact .inl (hway _ [] (by rw [hps, List.append_nil, List.append_nil]))
    · -- a directory inside the cache directory
      rw [List.concat_eq_append] at hps hrest
      have hdots : ∀ p ∈ front ++ [part], p ≠ ".." := fun p hp heq =>
        hinner (hrest ▸ List.mem_append_left _ (heq ▸ hp))
      rw [List.reverse_cons, ← List.append_assoc] at hps
      obtain ⟨-, hpart'⟩ := List.append_inj' hps rfl
      obtain ⟨rfl, -⟩ := List.cons.inj hpart'
      have hfront : Place.Under (d.goal directory) ((base ++ front).foldl advance (d.start directory)) :=
        hbeyond front fun hmem => hdots ".." (List.mem_append_left _ hmem) rfl
      rw [List.reverse_cons, hps, List.foldl_append, List.foldl_cons, List.foldl_nil,
        advance_name hpart (hdots piece (by simp))]
      exact .inr ⟨Place.under_child hfront _, hfront⟩

end Disk

end AblAnalysis
