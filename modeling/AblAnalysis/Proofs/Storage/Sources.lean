import AblAnalysis.Proofs.Storage.Nesting

/-!
Which sources share an artifact. What a source adds to the names of the cache directory does not depend on
that directory (`Path.names_artifact`). A canonical source is cut behind its first separator, so that it adds
names of its own, none of which leads back (`Path.remainder_of_plain`). But a backslash is cut off with the
separator, and then what is left can be that of another source, or begin with `..` (`Path.artifact_cutOff`).
-/

namespace AblAnalysis

namespace Text

/-- The pieces of an ending are those of the whole, but for the first. -/
theorem tail_pieces_suffix {c : Char} {s ending : String} (h : ending.toList <:+ s.toList) :
    (pieces c ending).tail <:+ (pieces c s).tail := by
  obtain ⟨front, hfront⟩ := h
  simp only [pieces, ← List.splitOn_eq_splitOnP, ← List.map_tail, ← hfront]
  refine List.IsSuffix.map _ ?_
  clear hfront
  induction front with
  | nil => exact List.suffix_refl _
  | cons first front ih =>
    obtain ⟨piece, rest, hsplit⟩ :=
      List.exists_cons_of_ne_nil (List.splitOn_ne_nil c (front ++ ending.toList))
    rw [List.cons_append, List.splitOn_cons_eq_if_modifyHead]
    split
    · exact ih.trans (List.tail_suffix _)
    · rw [hsplit] at ih ⊢
      exact ih

end Text

namespace Path

/-! ### Canonical paths -/

/-- What a component of a canonical path is. -/
structure IsComponent (piece : String) : Prop where
  part : isPart piece = true
  forward : piece ≠ ".."
  whole : '/' ∉ piece.toList

instance instDecidableIsComponent (piece : String) : Decidable (IsComponent piece) :=
  decidable_of_iff (isPart piece = true ∧ piece ≠ ".." ∧ '/' ∉ piece.toList)
    ⟨fun ⟨hpart, hforward, hwhole⟩ => ⟨hpart, hforward, hwhole⟩,
      fun h => ⟨h.part, h.forward, h.whole⟩⟩

/-- Whether a path is absolute and has only components without a separator, none of them empty, `.` or `..`. -/
def Canonical (path : String) : Prop :=
  ∃ components, (∀ piece ∈ components, IsComponent piece) ∧ path = ofParts true components

theorem toList_ofParts (components : List String) :
    (ofParts true components).toList = '/' :: (String.intercalate "/" components).toList := by
  simp [ofParts]

/-- Whether the first component of a path begins with a backslash. -/
def Backslashed (path : String) : Prop :=
  Text.beginsWith "/\\" path = true

instance instDecidableBackslashed (path : String) : Decidable (Backslashed path) :=
  inferInstanceAs (Decidable (Text.beginsWith "/\\" path = true))

/-! ### What a source adds -/

/-- The names that a source adds to those of the cache directory. -/
def added (source : String) : List String :=
  names (inside source ++ ".pub")

theorem names_artifact (directory source : String) :
    names (artifact directory source) = names directory ++ added source := by
  obtain ⟨base, hbase, hnested⟩ := exists_endsIn_nested directory
  obtain ⟨-, inner, last, hinside, hpath⟩ := hnested source
  obtain ⟨outer, last', hpieces, hended⟩ :=
    Text.exists_pieces_append (inside source) (by decide : '/' ∉ ".pub".toList)
  obtain ⟨rfl, hlast⟩ := List.append_inj' (hinside.symm.trans hpieces) rfl
  obtain ⟨rfl, -⟩ := List.cons.inj hlast
  have hadded : added source = (inner ++ [last ++ ".pub"]).filter isPart := by rw [added, names, hended]
  rw [hadded, ← hbase, names, hpath.pieces, List.append_assoc, List.filter_append]

/-- What a source adds ends with a name. -/
theorem exists_added (source : String) : ∃ outer last,
    Text.pieces '/' (inside source) = outer ++ [last] ∧
      Text.pieces '/' (inside source ++ ".pub") = outer ++ [last ++ ".pub"] ∧
      added source = outer.filter isPart ++ [last ++ ".pub"] ∧ last ++ ".pub" ≠ ".." := by
  obtain ⟨outer, last, hpieces, hended⟩ :=
    Text.exists_pieces_append (inside source) (by decide : '/' ∉ ".pub".toList)
  have hends : EndsIn (inside source ++ ".pub") outer (last ++ ".pub") := .of_ending hended (by decide)
  refine ⟨outer, last, hpieces, hended, ?_, hends.inside⟩
  rw [added, names, hended, List.filter_append, List.filter_cons_of_pos hends.part, List.filter_nil]

theorem added_ne_nil (source : String) : added source ≠ [] := by
  obtain ⟨outer, last, -, -, hadded, -⟩ := exists_added source
  rw [hadded]
  exact List.append_ne_nil_of_right_ne_nil _ (List.cons_ne_nil _ _)

theorem isAbsolute_intercalate {components : List String}
    (h : ∀ piece ∈ components, IsComponent piece) :
    isAbsolute (String.intercalate "/" components) = false := by
  rcases eq_or_ne components [] with rfl | hne
  · decide
  rw [Bool.eq_false_iff]
  intro habsolute
  obtain ⟨second, more, hpieces⟩ := (isAbsolute_iff _).1 habsolute
  rw [Text.pieces_intercalate hne fun piece hpiece => (h piece hpiece).whole] at hpieces
  exact absurd (h "" (hpieces ▸ List.mem_cons_self ..)).part (by decide)

/-- What begins with a separator has no drive and no mark of a verbatim path. -/
theorem plainDrive_dropVerbatim_slash (cs : List Char) :
    plainDrive (dropVerbatim ('/' :: cs)) = '/' :: cs := by
  rw [dropVerbatim.eq_2 _ (by simp)]
  unfold plainDrive
  split
  · rename_i heq
    obtain ⟨rfl, rfl⟩ := List.cons.inj heq
    rw [if_neg (by decide)]
  · rfl

/-- Without a backslash at its start, a canonical source is cut behind its first separator. -/
theorem inside_ofParts {components : List String} (h : ∀ piece ∈ components, IsComponent piece)
    (hplain : ¬ Backslashed (ofParts true components)) :
    inside (ofParts true components) = String.intercalate "/" components := by
  have habsolute := isAbsolute_intercalate h
  rw [Backslashed, Text.beginsWith, toList_ofParts] at hplain
  rw [isAbsolute, Text.beginsWith] at habsolute
  apply String.toList_injective
  rw [inside, String.toList_ofList, toList_ofParts]
  generalize (String.intercalate "/" components).toList = cs at *
  cases cs with
  | nil => decide
  | cons c cs =>
    have hslash : c ≠ '/' := by
      rintro rfl
      simp at habsolute
    have hback : c ≠ '\\' := by
      rintro rfl
      simp at hplain
    rw [plainDrive_dropVerbatim_slash, List.dropWhile_cons_of_pos (by simp),
      List.dropWhile_cons_of_neg (by simp [hslash, hback])]

/-- What is left of a canonical source begins with what is left of a component, and goes on with components. -/
theorem isComponent_of_mem_tail {source piece : String} (h : Canonical source)
    (hpiece : piece ∈ (Text.pieces '/' (inside source)).tail) : IsComponent piece := by
  obtain ⟨components, hcomponents, rfl⟩ := h
  rcases eq_or_ne components [] with rfl | hne
  · have hroot : (Text.pieces '/' (inside (ofParts true []))).tail = [] := by decide
    exact absurd (hroot ▸ hpiece) (List.not_mem_nil)
  have hending : (inside (ofParts true components)).toList <:+ (ofParts true components).toList := by
    rw [inside, String.toList_ofList, toList_ofParts, plainDrive_dropVerbatim_slash]
    exact List.dropWhile_suffix _
  have hsplit : Text.pieces '/' (ofParts true components) = "" :: components := by
    have hempty : Text.pieces '/' "" = [""] := by decide
    have happend := pieces_append_slash "" (String.intercalate "/" components)
    rw [String.empty_append, hempty,
      Text.pieces_intercalate hne fun piece hpiece => (hcomponents piece hpiece).whole] at happend
    exact happend
  have hmem := (Text.tail_pieces_suffix hending).subset hpiece
  rw [hsplit] at hmem
  exact hcomponents piece hmem

/-! ### Below the cache directory -/

/-- Whether a path goes on from a directory to something below it, and never back. -/
def LiesBelow (directory path : String) : Prop :=
  isAbsolute path = isAbsolute directory ∧
    ∃ inner, inner ≠ [] ∧ ".." ∉ inner ∧ names path = names directory ++ inner

theorem liesBelow_artifact_iff (directory source : String) :
    LiesBelow directory (artifact directory source) ↔ ".." ∉ added source := by
  obtain ⟨base, -, hnested⟩ := exists_endsIn_nested directory
  rw [LiesBelow, names_artifact]
  constructor
  · rintro ⟨-, inner, -, hinner, heq⟩
    rwa [List.append_cancel_left heq]
  · exact fun h => ⟨(hnested source).1, added source, added_ne_nil source, h, rfl⟩

/-- The artifact of a canonical source lies below the cache directory unless `..` is left of the first
component, with something behind it. -/
theorem liesBelow_artifact_of_canonical (directory : String) {source : String} (h : Canonical source) :
    LiesBelow directory (artifact directory source) ↔ Text.beginsWith "../" (inside source) = false := by
  obtain ⟨outer, last, hpieces, -, hadded, hlast⟩ := exists_added source
  have hbegins : Text.beginsWith "../" (inside source) = true ↔
      ∃ second more, Text.pieces '/' (inside source) = ".." :: second :: more :=
    Text.beginsWith_slash_iff (by decide : '/' ∉ "..".toList)
  rw [liesBelow_artifact_iff, hadded, ← Bool.not_eq_true, hbegins, hpieces, not_iff_not, List.mem_append,
    List.mem_singleton, List.mem_filter, or_iff_left (Ne.symm hlast)]
  cases outer with
  | nil => simp
  | cons first outer =>
    have houter : ".." ∉ outer := fun hmem => by
      have hcomponent := isComponent_of_mem_tail h
        (by rw [hpieces]; exact List.mem_append_left _ hmem)
      exact hcomponent.forward rfl
    have hpart : isPart ".." = true := by decide
    constructor
    · rintro ⟨hmem, -⟩
      obtain rfl : ".." = first := (List.mem_cons.1 hmem).resolve_right houter
      obtain ⟨second, more, hmore⟩ := List.exists_cons_of_ne_nil
        (List.append_ne_nil_of_right_ne_nil outer (List.cons_ne_nil last []))
      exact ⟨second, more, congrArg (".." :: ·) hmore⟩
    · rintro ⟨second, more, hmore⟩
      obtain ⟨rfl, -⟩ := List.cons.inj hmore
      exact ⟨List.mem_cons_self .., hpart⟩

/-! ### What is left of a source -/

/-- What is left of a source, without a `.` for its first piece. -/
def remainder (source : String) : String :=
  if Text.beginsWith "./" (inside source) then String.ofList ((inside source).toList.drop 2)
  else inside source

/-- A canonical source adds the pieces of what is left of it. -/
theorem added_of_canonical {source : String} (h : Canonical source) :
    added source = Text.pieces '/' (remainder source ++ ".pub") := by
  obtain ⟨outer, last, hpieces, hended, hadded, -⟩ := exists_added source
  have hdot : Text.beginsWith "./" (inside source) = true ↔
      ∃ second more, Text.pieces '/' (inside source) = "." :: second :: more :=
    Text.beginsWith_slash_iff (by decide : '/' ∉ ".".toList)
  cases outer with
  | nil =>
    rw [remainder, if_neg (by simp [hdot, hpieces]), hended, hadded]
    rfl
  | cons first outer =>
    have hkept : outer.filter isPart = outer := List.filter_eq_self.2 fun piece hpiece =>
      (isComponent_of_mem_tail h (by rw [hpieces]; exact List.mem_append_left _ hpiece)).part
    by_cases hbegins : Text.beginsWith "./" (inside source) = true
    · -- the dot does not count, and its separator comes before the rest
      obtain ⟨second, more, hmore⟩ := hdot.1 hbegins
      obtain ⟨rfl, -⟩ := List.cons.inj (hpieces.symm.trans hmore)
      obtain ⟨cs, hcs⟩ := List.isPrefixOf_iff_prefix.1 hbegins
      have hinside : inside source = "." ++ "/" ++ String.ofList cs := by
        apply String.toList_injective
        rw [← hcs]
        simp
      have hremainder : remainder source = String.ofList cs := by
        rw [remainder, if_pos hbegins, ← hcs]
        rfl
      have hsplit : Text.pieces '/' (inside source ++ ".pub") =
          Text.pieces '/' "." ++ Text.pieces '/' (String.ofList cs ++ ".pub") := by
        rw [hinside, String.append_assoc, pieces_append_slash]
      have hsingle : Text.pieces '/' "." = ["."] := by decide
      rw [hended, hsingle] at hsplit
      rw [hremainder, hadded, List.filter_cons_of_neg (by decide), hkept]
      exact (List.cons.inj hsplit).2
    · have hpart : isPart first = true := by
        obtain ⟨second, more, hmore⟩ := List.exists_cons_of_ne_nil
          (List.append_ne_nil_of_right_ne_nil outer (List.cons_ne_nil last []))
        have hfirst : Text.pieces '/' (inside source) = first :: second :: more := by
          rw [hpieces, List.cons_append, hmore]
        have hempty : first ≠ "" := fun heq => by
          have habsolute := (isAbsolute_iff (inside source)).2 ⟨second, more, heq ▸ hfirst⟩
          rw [isAbsolute_inside] at habsolute
          exact Bool.false_ne_true habsolute
        have hnotDot : first ≠ "." := fun heq => hbegins (hdot.2 ⟨second, more, heq ▸ hfirst⟩)
        simp [isPart, hempty, hnotDot]
      rw [remainder, if_neg hbegins, hended, hadded, List.filter_cons_of_pos hpart, hkept]

/-- Canonical sources share an artifact if and only if the same is left of them. -/
theorem names_artifact_eq_iff (directory : String) {source other : String} (hsource : Canonical source)
    (hother : Canonical other) :
    names (artifact directory source) = names (artifact directory other) ↔
      remainder source = remainder other := by
  rw [names_artifact, names_artifact, List.append_cancel_left_eq, added_of_canonical hsource,
    added_of_canonical hother]
  constructor
  · intro h
    have hended := congrArg (String.intercalate "/") h
    rw [Text.intercalate_pieces, Text.intercalate_pieces] at hended
    exact (String.append_left_inj _).1 hended
  · intro h
    rw [h]

/-- Without a backslash at its start, all of a canonical source but the first separator is left. -/
theorem remainder_of_plain {source : String} (h : Canonical source) (hplain : ¬ Backslashed source) :
    source = "/" ++ remainder source ∧ Text.beginsWith "../" (inside source) = false := by
  obtain ⟨components, hcomponents, rfl⟩ := h
  have hinside := inside_ofParts hcomponents hplain
  rcases eq_or_ne components [] with rfl | hne
  · decide
  have hpieces : Text.pieces '/' (inside (ofParts true components)) = components := by
    rw [hinside, Text.pieces_intercalate hne fun piece hpiece => (hcomponents piece hpiece).whole]
  have hfirst : ∀ {head : String}, '/' ∉ head.toList →
      Text.beginsWith (head ++ "/") (inside (ofParts true components)) = true → IsComponent head := by
    intro head hhead hbegins
    obtain ⟨second, more, hmore⟩ := (Text.beginsWith_slash_iff hhead).1 hbegins
    exact hcomponents head (by rw [← hpieces, hmore]; exact List.mem_cons_self ..)
  constructor
  · have hdot : ¬ Text.beginsWith "./" (inside (ofParts true components)) = true := fun hbegins =>
      absurd (hfirst (by decide : '/' ∉ ".".toList) hbegins).part (by decide)
    rw [remainder, if_neg hdot, hinside]
    rfl
  · rw [← Bool.not_eq_true]
    exact fun hbegins => (hfirst (by decide : '/' ∉ "..".toList) hbegins).forward rfl

/-! ### On the disk -/

/-- Names lead on one by one. -/
theorem names_foldl_advance {ps : List String} (hparts : ∀ piece ∈ ps, isPart piece = true)
    (hforward : ".." ∉ ps) (place : Place) :
    (ps.foldl Disk.advance place).names = ps.reverse ++ place.names := by
  induction ps generalizing place with
  | nil => rfl
  | cons piece ps ih =>
    obtain ⟨hne, hforward⟩ := not_or.1 (mt List.mem_cons.2 hforward)
    rw [List.foldl_cons, ih (fun p hp => hparts p (List.mem_cons_of_mem _ hp)) hforward,
      Disk.advance_name (hparts piece (List.mem_cons_self ..)) (Ne.symm hne), List.reverse_cons,
      List.append_assoc]
    rfl

/-- What lies below a directory does so on every disk, by the names that come behind those of the directory. -/
theorem LiesBelow.goal {directory path : String} (h : LiesBelow directory path) (d : Disk) :
    ∃ inner, inner ≠ [] ∧ names path = names directory ++ inner ∧
      (d.goal path).names = inner.reverse ++ (d.goal directory).names := by
  obtain ⟨habsolute, inner, hne, hforward, hnames⟩ := h
  have hparts : ∀ piece ∈ inner, isPart piece = true := fun piece hpiece =>
    (List.mem_filter.1 (hnames ▸ List.mem_append_right _ hpiece : piece ∈ names path)).2
  have hgoal : d.goal path = inner.foldl Disk.advance (d.goal directory) := by
    have hstart : d.start path = d.start directory := by rw [Disk.start, Disk.start, habsolute]
    rw [Disk.goal, Disk.goal, hstart, ← List.foldl_append]
    refine Disk.foldl_advance_congr ?_ _
    rw [List.filter_append, List.filter_eq_self.2 hparts]
    exact hnames
  exact ⟨inner, hne, hnames, by rw [hgoal, names_foldl_advance hparts hforward]⟩

/-- Whether two artifacts are different files below the cache directory, as paths and on every disk. -/
structure Apart (directory path path' : String) : Prop where
  names_ne : names path ≠ names path'
  below : LiesBelow directory path
  below' : LiesBelow directory path'
  goal_ne : ∀ d : Disk, d.goal path ≠ d.goal path'
  under : ∀ d : Disk, (d.goal directory).Under (d.goal path) ∧ d.goal path ≠ d.goal directory
  under' : ∀ d : Disk, (d.goal directory).Under (d.goal path') ∧ d.goal path' ≠ d.goal directory

theorem LiesBelow.under {directory path : String} (h : LiesBelow directory path) (d : Disk) :
    (d.goal directory).Under (d.goal path) ∧ d.goal path ≠ d.goal directory := by
  obtain ⟨inner, hne, -, hgoal⟩ := h.goal d
  refine ⟨⟨inner.reverse, hgoal.symm⟩, fun heq => hne ?_⟩
  rw [heq] at hgoal
  exact List.reverse_eq_nil_iff.1 (List.append_left_eq_self.1 hgoal.symm)

theorem apart_of_below {directory path path' : String} (h : LiesBelow directory path)
    (h' : LiesBelow directory path') (hne : names path ≠ names path') : Apart directory path path' := by
  refine ⟨hne, h, h', fun d heq => hne ?_, h.under, h'.under⟩
  obtain ⟨inner, -, hnames, hgoal⟩ := h.goal d
  obtain ⟨inner', -, hnames', hgoal'⟩ := h'.goal d
  rw [heq, hgoal'] at hgoal
  rw [hnames, hnames', List.reverse_injective (List.append_cancel_right hgoal)]

/-- The artifacts of different canonical sources are different files below the cache directory if neither
source begins with a backslash behind its separator. In general two sources share an artifact if and only
if the same is left of them, but for a `.` and a separator, behind leading separators and backslashes. And
the artifact of a source lies below the cache directory unless `../` is at the start of what is left. -/
theorem artifacts_apart (directory : String) {source other : String} (hsource : Canonical source)
    (hother : Canonical other) (hne : source ≠ other) :
    (¬ Backslashed source → ¬ Backslashed other →
      Apart directory (artifact directory source) (artifact directory other)) ∧
    (names (artifact directory source) = names (artifact directory other) ↔
      remainder source = remainder other) ∧
    (LiesBelow directory (artifact directory source) ↔
      Text.beginsWith "../" (inside source) = false) := by
  have hshare := names_artifact_eq_iff directory hsource hother
  refine ⟨fun hplain hplain' => ?_, hshare, liesBelow_artifact_of_canonical directory hsource⟩
  obtain ⟨hwhole, hforward⟩ := remainder_of_plain hsource hplain
  obtain ⟨hwhole', hforward'⟩ := remainder_of_plain hother hplain'
  refine apart_of_below ?_ ?_ fun heq => hne ?_
  · exact (liesBelow_artifact_of_canonical directory hsource).2 hforward
  · exact (liesBelow_artifact_of_canonical directory hother).2 hforward'
  · rw [hwhole, hwhole', hshare.1 heq]

/-- A backslash inside a component keeps a source apart from the one with a separator there. -/
theorem artifacts_apart_backslash :
    Apart "pubs" (artifact "pubs" "/src/a\\b.p") (artifact "pubs" "/src/a/b.p") :=
  (artifacts_apart "pubs" ⟨["src", "a\\b.p"], by decide, by decide⟩
    ⟨["src", "a", "b.p"], by decide, by decide⟩ (by decide)).1 (by decide) (by decide)

/-- A backslash at the start is cut off: one source shares the artifact of another, and one has its artifact
outside the cache directory. -/
theorem artifact_cutOff :
    (Canonical "/\\a" ∧ Canonical "/a" ∧ "/\\a" ≠ "/a" ∧
      artifact "pubs" "/\\a" = "pubs/a.pub" ∧ artifact "pubs" "/a" = "pubs/a.pub") ∧
    Canonical "/\\../x" ∧ artifact "pubs" "/\\../x" = "pubs/../x.pub" ∧
      ¬ LiesBelow "pubs" (artifact "pubs" "/\\../x") := by
  have houtside : Canonical "/\\../x" := ⟨["\\..", "x"], by decide, by decide⟩
  refine ⟨⟨⟨["\\a"], by decide, by decide⟩, ⟨["a"], by decide, by decide⟩, by decide, by decide,
    by decide⟩, houtside, by decide, ?_⟩
  rw [liesBelow_artifact_of_canonical _ houtside]
  decide

end Path

end AblAnalysis
