import AblAnalysis.Proofs.Text.Parts
import AblAnalysis.Storage.Path
import Mathlib.Data.List.Infix

/-!
Paths by their pieces. Cutting a path at its separators and joining the pieces are inverse to each
other, so what is done to a path is seen on its pieces: the path of an artifact ends with a name, an
ending is added to that name alone, and the directory around it, and those around that, begin as the
path does.
-/

namespace AblAnalysis

/-! ### Cutting and joining -/

namespace Text

/-- The pieces of a path make up the path. -/
theorem intercalate_pieces (s : String) : String.intercalate "/" (pieces '/' s) = s :=
  join_pieces '/' s

theorem pieces_intercalate {ps : List String} (hne : ps ≠ []) (h : ∀ p ∈ ps, '/' ∉ p.toList) :
    pieces '/' (String.intercalate "/" ps) = ps :=
  pieces_join hne h

/-- An ending is added to the last piece. -/
theorem exists_pieces_append (s : String) {ending : String} (h : '/' ∉ ending.toList) :
    ∃ outer last, pieces '/' s = outer ++ [last] ∧
      pieces '/' (s ++ ending) = outer ++ [last ++ ending] := by
  obtain ⟨outer, last, hpieces⟩ :=
    (List.eq_nil_or_concat (pieces '/' s)).resolve_left (pieces_ne_nil '/' s)
  rw [List.concat_eq_append] at hpieces
  have hmem : ∀ p ∈ outer ++ [last], '/' ∉ p.toList :=
    fun p hp => not_mem_of_mem_pieces (hpieces ▸ hp)
  have hjoin : s ++ ending = String.intercalate "/" (outer ++ [last ++ ending]) := by
    rw [← intercalate_pieces s, hpieces]
    by_cases houter : outer = []
    · simp [houter]
    · rw [String.intercalate_append_of_ne_nil houter (by simp),
        String.intercalate_append_of_ne_nil houter (by simp)]
      simp [String.append_assoc]
  refine ⟨outer, last, hpieces, ?_⟩
  rw [hjoin]
  refine pieces_intercalate (by simp) fun p hp => ?_
  rcases List.mem_append.1 hp with hp | hp
  · exact hmem p (List.mem_append_left _ hp)
  · rw [List.mem_singleton.1 hp, String.toList_append, List.mem_append]
    rintro (hlast | hending)
    · exact hmem last (List.mem_append_right _ (List.mem_singleton_self _)) hlast
    · exact h hending

/-- A path begins with a piece and a separator if that piece is its first and not its last. -/
theorem beginsWith_slash_iff {head s : String} (h : '/' ∉ head.toList) :
    beginsWith (head ++ "/") s = true ↔ ∃ second more, pieces '/' s = head :: second :: more := by
  rw [beginsWith, List.isPrefixOf_iff_prefix]
  constructor
  · rintro ⟨cs, hcs⟩
    have hs : s = head ++ String.singleton '/' ++ String.ofList cs := by
      apply String.toList_injective
      rw [← hcs]
      simp
    obtain ⟨second, more, hrest⟩ := List.exists_cons_of_ne_nil (pieces_ne_nil '/' (String.ofList cs))
    exact ⟨second, more, by rw [hs, pieces_append, pieces_of_not_mem h, hrest]; rfl⟩
  · rintro ⟨second, more, hpieces⟩
    have hs : s = head ++ "/" ++ String.intercalate "/" (second :: more) := by
      have hjoin := String.intercalate_append_of_ne_nil (s := "/") (List.cons_ne_nil head [])
        (List.cons_ne_nil second more)
      rw [← intercalate_pieces s, hpieces, ← String.intercalate_singleton (s := "/") (t := head)]
      exact hjoin
    refine ⟨(String.intercalate "/" (second :: more)).toList, ?_⟩
    rw [← String.toList_append, ← hs]

end Text

namespace Path

/-! ### Where a path starts -/

theorem isAbsolute_iff (path : String) :
    isAbsolute path = true ↔ ∃ second more, Text.pieces '/' path = "" :: second :: more :=
  Text.beginsWith_slash_iff (by decide : '/' ∉ "".toList)

/-! ### Paths that end with a name -/

/-- Whether a path ends with a name, and what comes before that. -/
structure EndsIn (path : String) (outer : List String) (name : String) : Prop where
  pieces : Text.pieces '/' path = outer ++ [name]
  part : isPart name = true
  inside : name ≠ ".."

theorem EndsIn.of_ending {path ending : String} {outer : List String} {last : String}
    (h : Text.pieces '/' path = outer ++ [last ++ ending]) (hlength : 3 ≤ ending.length) :
    EndsIn path outer (last ++ ending) := by
  have hlong : 3 ≤ (last ++ ending).length := by
    rw [String.length_append]
    omega
  have hne : ∀ s : String, s.length < 3 → last ++ ending ≠ s := by
    intro s hs heq
    rw [heq] at hlong
    omega
  refine ⟨h, ?_, hne ".." (by decide)⟩
  simp [isPart, hne "" (by decide), hne "." (by decide)]

theorem EndsIn.ne_empty {path name : String} {outer : List String} (h : EndsIn path outer name) :
    path ≠ "" := by
  rintro rfl
  have hempty : Text.pieces '/' "" = [] ++ [""] := by decide
  obtain ⟨-, hname⟩ := List.append_inj' (hempty.symm.trans h.pieces) rfl
  obtain ⟨rfl, -⟩ := List.cons.inj hname
  exact absurd h.part (by decide)

/-- The path of an artifact ends with a name. -/
theorem exists_endsIn_artifact (directory source : String) :
    ∃ outer name, EndsIn (artifact directory source) outer name := by
  obtain ⟨outer, last, -, hpieces⟩ :=
    Text.exists_pieces_append (nested directory source) (by decide : '/' ∉ ".pub".toList)
  exact ⟨outer, _, .of_ending hpieces (by decide)⟩

variable {path name : String} {outer : List String}

/-- The path under which an artifact is written at first has a different name in the same directory. -/
theorem EndsIn.temporary (h : EndsIn path outer name) :
    EndsIn (path ++ ".tmp") outer (name ++ ".tmp") := by
  obtain ⟨outer', last, hpieces, htemporary⟩ :=
    Text.exists_pieces_append path (by decide : '/' ∉ ".tmp".toList)
  rw [h.pieces] at hpieces
  obtain ⟨rfl, hlast⟩ := List.append_inj' hpieces rfl
  obtain ⟨rfl, -⟩ := List.cons.inj hlast
  exact .of_ending htemporary (by decide)

theorem EndsIn.isAbsolute_temporary (h : EndsIn path outer name) :
    isAbsolute (path ++ ".tmp") = isAbsolute path := by
  rw [Bool.eq_iff_iff, isAbsolute_iff, isAbsolute_iff, h.pieces, h.temporary.pieces]
  cases outer with
  | nil => simp
  | cons first rest => cases rest <;> simp

theorem name_ne_temporary (name : String) : name ++ ".tmp" ≠ name := by
  intro h
  have hlength := congrArg String.length h
  rw [String.length_append] at hlength
  exact absurd hlength (by simp)

/-! ### The directories around something -/

theorem trimmed_cons {piece : String} {rest : List String} (h : isPart piece = true) :
    trimmed (piece :: rest) = piece :: rest := by
  cases rest with
  | nil => rfl
  | cons next rest => rw [trimmed.eq_3 _ _ (by simp), if_pos h]

theorem trimmed_suffix (ps : List String) : trimmed ps <:+ ps := by
  fun_induction trimmed ps with
  | case1 => exact List.suffix_refl _
  | case2 => exact List.suffix_refl _
  | case3 => exact List.suffix_refl _
  | case4 piece rest _ _ ih => exact ih.trans (List.suffix_cons ..)

theorem trimmed_ne_nil {ps : List String} (h : ps ≠ []) : trimmed ps ≠ [] := by
  fun_induction trimmed ps with
  | case1 => exact h
  | case2 => simp
  | case3 => simp
  | case4 piece rest hrest _ ih => exact ih hrest

/-- Nothing that counts is among pieces that do not count. -/
theorem not_suffix_of_isPart {ps rest : List String} {piece : String}
    (h : ∀ p ∈ ps, isPart p = false) (hpart : isPart piece = true) : ¬ piece :: rest <:+ ps := by
  intro hsuffix
  rw [h piece (hsuffix.subset (List.mem_cons_self ..))] at hpart
  exact absurd hpart (by simp)

/-- The pieces of the directory around something, as far as they count, are among those that come before
the name. -/
theorem EndsIn.exists_parent (h : EndsIn path outer name) :
    ∃ directory, parent? path = some directory ∧ ∀ piece rest,
      piece :: rest <:+ (Text.pieces '/' directory).reverse → isPart piece = true →
        piece :: rest <:+ outer.reverse := by
  have hpieces : (Text.pieces '/' path).reverse = name :: outer.reverse := by
    rw [h.pieces, List.reverse_append]
    rfl
  rw [parent?, hpieces, trimmed_cons h.part]
  rcases houter : outer.reverse with - | ⟨last, rest⟩
  · -- nothing stands before the name
    have hname : name.isEmpty = false := by
      have hpart := h.part
      simp only [isPart, Bool.and_eq_true, Bool.not_eq_true'] at hpart
      exact hpart.1
    have hempty : ∀ p ∈ (Text.pieces '/' "").reverse, isPart p = false := by decide
    exact ⟨"", by simp [hname], fun piece rest hsuffix hpart =>
      absurd hsuffix (not_suffix_of_isPart hempty hpart)⟩
  · have hsuffix := trimmed_suffix (last :: rest)
    have hne : trimmed (last :: rest) ≠ [] := trimmed_ne_nil (by simp)
    have hseparators : ∀ p ∈ (trimmed (last :: rest)).reverse, '/' ∉ p.toList := by
      intro p hp
      refine Text.not_mem_of_mem_pieces (s := path) ?_
      rw [h.pieces, ← List.reverse_reverse outer, houter]
      exact List.mem_append_left _ (List.mem_reverse.2 (hsuffix.subset (List.mem_reverse.1 hp)))
    dsimp only
    generalize trimmed (last :: rest) = around at *
    split
    · have hroot : ∀ p ∈ (Text.pieces '/' "/").reverse, isPart p = false := by decide
      exact ⟨"/", rfl, fun piece more hmore hpart =>
        absurd hmore (not_suffix_of_isPart hroot hpart)⟩
    · refine ⟨_, rfl, fun piece more hmore _ => ?_⟩
      rw [Text.pieces_intercalate (by simpa using hne) hseparators, List.reverse_reverse] at hmore
      exact hmore.trans hsuffix

/-- A part of a path before its name, from its start, is absolute if the path is. -/
theorem EndsIn.isAbsolute_around (h : EndsIn path outer name) {piece : String} {rest : List String}
    (hsuffix : piece :: rest <:+ outer.reverse) (hpart : isPart piece = true) :
    Text.pieces '/' (String.intercalate "/" (piece :: rest).reverse) = (piece :: rest).reverse ∧
      isAbsolute (String.intercalate "/" (piece :: rest).reverse) = isAbsolute path := by
  have hfirst : (piece :: rest).reverse <+: outer := by
    rw [← List.reverse_reverse outer]
    exact List.reverse_prefix.2 hsuffix
  have hpieces : Text.pieces '/' (String.intercalate "/" (piece :: rest).reverse) =
      (piece :: rest).reverse := by
    refine Text.pieces_intercalate (by simp) fun p hp => ?_
    refine Text.not_mem_of_mem_pieces (s := path) ?_
    rw [h.pieces]
    exact List.mem_append_left _ (hfirst.subset hp)
  refine ⟨hpieces, Bool.eq_iff_iff.2 ?_⟩
  obtain ⟨more, rfl⟩ := hfirst
  rw [isAbsolute_iff, isAbsolute_iff, hpieces, h.pieces]
  rcases hfront : (piece :: rest).reverse with - | ⟨first, - | ⟨second, others⟩⟩
  · simp at hfront
  · -- a single part is not empty
    have hpiece : first = piece := by
      have hreverse := congrArg List.reverse hfront
      simp only [List.reverse_reverse, List.reverse_singleton] at hreverse
      exact (List.cons.inj hreverse).1.symm
    have hne : first ≠ "" := by
      rintro rfl
      rw [← hpiece] at hpart
      exact absurd hpart (by decide)
    simp [hne]
  · simp

end Path

end AblAnalysis
