import AblAnalysis.Proofs.Artifact.Reached

/-!
Readings of one artifact as far as different depths. The shorter reading is the beginning of the longer
one (`readSegments_split`), and the segments that it leaves out change nothing before them (`Writes`).
So it succeeds if the longer one does, and gives the same contents cut off at its own depth
(`Contents.upTo`). Only the tree is there in two forms: a reading that stops at the tree gives positions
in the string table in place of its texts.
-/

namespace AblAnalysis.Artifact

/-! ### Contents as far as a depth -/

namespace Contents

/-- What of contents belongs to the segments up to a depth. -/
def upTo (c : Contents) (d : Depth) : Contents where
  depth := d
  current := c.current
  fileNames := if .filesLoaded ≤ d then c.fileNames else []
  className := if .headerLoaded ≤ d then c.className else none
  superName := if .headerLoaded ≤ d then c.superName else none
  tables := if .schemaLoaded ≤ d then c.tables else {}
  imports := if .importsLoaded ≤ d then c.imports else []
  exports := if .exportsLoaded ≤ d then c.exports else []
  tree := if .treeLoaded ≤ d then c.tree else none

variable {c : Contents} {d : Depth}

/-- Where nothing comes after a depth, that is all of the contents. -/
theorem EndsAt.upTo_eq (h : c.EndsAt d) (hd : c.depth = d) : c.upTo d = c := by
  have hempty : ∀ e, ¬ e ≤ d → ¬ c.Has e := fun e he => h e (Nat.lt_of_not_le he)
  have hheader := hempty .headerLoaded
  simp only [Has, not_or, not_not] at hheader
  have hif : ∀ {α : Type} (e : Depth) (a b : α), (¬ e ≤ d → a = b) →
      (if e ≤ d then a else b) = a := by
    intro α e a b hab
    by_cases he : e ≤ d
    · rw [if_pos he]
    · rw [if_neg he, hab he]
  rw [upTo, hif .filesLoaded _ _ fun he => not_not.1 (hempty _ he),
    hif .headerLoaded _ _ fun he => (hheader he).1, hif .headerLoaded _ _ fun he => (hheader he).2,
    hif .schemaLoaded _ _ fun he => not_not.1 (hempty _ he),
    hif .importsLoaded _ _ fun he => not_not.1 (hempty _ he),
    hif .exportsLoaded _ _ fun he => not_not.1 (hempty _ he),
    hif .treeLoaded _ _ fun he => not_not.1 (hempty _ he), ← hd]

end Contents

/-! ### What a segment leaves alone -/

/-- Whether a segment changes nothing that comes before a depth. -/
def Writes (d : Depth) (segment : Segment) : Prop :=
  ∀ c s e, e < d → (segment c s).1.upTo e = c.upTo e

theorem writes_readHeader : Writes .headerLoaded readHeader := by
  intro c s e he
  have hheader : ¬ Depth.headerLoaded ≤ e := Nat.not_le_of_lt he
  simp only [readHeader]
  split
  · rfl
  · split <;> simp only [Contents.upTo, if_neg hheader]

theorem writes_readTables : Writes .schemaLoaded readTables := by
  intro c s e he
  have htables : ¬ Depth.schemaLoaded ≤ e := Nat.not_le_of_lt he
  simp only [readTables, Contents.upTo, if_neg htables]

theorem writes_readImports : Writes .importsLoaded readImports := by
  intro c s e he
  have himports : ¬ Depth.importsLoaded ≤ e := Nat.not_le_of_lt he
  simp only [readImports]
  split
  · rfl
  · simp only [Contents.upTo, if_neg himports]

theorem writes_readExports : Writes .exportsLoaded readExports := by
  intro c s e he
  have hexports : ¬ Depth.exportsLoaded ≤ e := Nat.not_le_of_lt he
  simp only [readExports]
  split
  · rfl
  · simp only [Contents.upTo, if_neg hexports]

theorem writes_readTree : Writes .treeLoaded readTree := by
  intro c s e he
  have htree : ¬ Depth.treeLoaded ≤ e := Nat.not_le_of_lt he
  simp only [readTree]
  split
  · rfl
  · simp only [Contents.upTo, if_neg htree]

/-- The texts change the tree, which is there before them. -/
theorem writes_readStrings : Writes .treeLoaded (readStrings none) := by
  intro c s e he
  have htree : ¬ Depth.treeLoaded ≤ e := Nat.not_le_of_lt he
  simp only [readStrings]
  split
  · simp only [Contents.upTo, if_neg htree]
  · split
    · rfl
    · split <;> simp only [Contents.upTo, if_neg htree]

/-- Segments that change nothing before a depth, one after the other. -/
theorem upTo_readSegments {d : Depth} (target : Depth) {segments : List (Depth × Segment)}
    (h : ∀ x ∈ segments, ∃ e, d < e ∧ Writes e x.2) (c : Contents) (s : Stream) :
    (readSegments target segments c s).1.upTo d = c.upTo d := by
  induction segments generalizing c s with
  | nil => rfl
  | cons x segments ih =>
    obtain ⟨e, he, hwrites⟩ := h x (List.mem_cons_self ..)
    have hstep := hwrites c s d he
    rw [readSegments]
    split
    · rfl
    · split
      · rename_i hread
        rw [hread] at hstep
        exact hstep
      · rename_i hread
        rw [hread] at hstep
        rw [ih fun y hy => h y (List.mem_cons_of_mem _ hy)]
        exact hstep

/-- What comes after a depth before the tree changes nothing up to there. -/
theorem writes_after {d : Depth} (hd : d < .treeLoaded) :
    ∀ x ∈ (laterSegments none).filter (fun x => d < x.1), ∃ e, d < e ∧ Writes e x.2 := by
  intro x hx
  obtain ⟨hmem, hlt⟩ := List.mem_filter.1 hx
  replace hlt : d < x.1 := of_decide_eq_true hlt
  simp only [laterSegments, List.mem_cons, List.not_mem_nil, or_false] at hmem
  rcases hmem with rfl | rfl | rfl | rfl | rfl | rfl
  · exact ⟨_, hlt, writes_readHeader⟩
  · exact ⟨_, hlt, writes_readTables⟩
  · exact ⟨_, hlt, writes_readImports⟩
  · exact ⟨_, hlt, writes_readExports⟩
  · exact ⟨_, hlt, writes_readTree⟩
  · exact ⟨_, hd, writes_readStrings⟩

/-! ### The shorter reading within the longer one -/

/-- Reading as far as a depth is reading as far as an earlier one first, and then what is left. -/
theorem readSegments_split {d d' : Depth} (hle : d ≤ d') {segments : List (Depth × Segment)}
    (h : segments.Pairwise (fun x y => x.1 < y.1)) (c : Contents) (s : Stream) :
    readSegments d' segments c s =
      match readSegments d segments c s with
      | (c, .error e) => (c, .error e)
      | (c, .ok s) => readSegments d' (segments.filter (fun x => d < x.1)) c s := by
  induction segments generalizing c s with
  | nil => rfl
  | cons x segments ih =>
    obtain ⟨hlater, h⟩ := List.pairwise_cons.1 h
    by_cases hd : d < x.1
    · -- the earlier reading stops here, and all is left
      have hall : (x :: segments).filter (fun y => d < y.1) = x :: segments := by
        refine List.filter_eq_self.2 fun y hy => decide_eq_true ?_
        rcases List.mem_cons.1 hy with rfl | hy
        · exact hd
        · exact Nat.lt_trans hd (hlater y hy)
      have hstop : readSegments d (x :: segments) c s = (c, .ok s) := by
        rw [readSegments, if_pos hd]
      rw [hstop, hall]
    · have hd' : ¬ d' < x.1 := fun hlt => hd (Nat.lt_of_le_of_lt hle hlt)
      rw [List.filter_cons_of_neg (by simpa using hd), readSegments, if_neg hd', readSegments,
        if_neg hd]
      rcases x.2 c s with ⟨c', e | rest⟩
      · rfl
      · exact ih h _ _

/-- The depth that is reached is that of the last segment read. -/
theorem depth_readSegments {target : Depth} {segments : List (Depth × Segment)} {c c' : Contents}
    {s s' : Stream} (h : readSegments target segments c s = (c', .ok s')) :
    c'.depth = ((segments.map (·.1)).takeWhile (fun e => e ≤ target)).getLastD c.depth := by
  induction segments generalizing c s with
  | nil =>
    obtain ⟨rfl, -⟩ := Prod.mk.inj h
    rfl
  | cons x segments ih =>
    rw [readSegments] at h
    rw [List.map_cons]
    split at h
    · rename_i hlt
      obtain ⟨rfl, -⟩ := Prod.mk.inj h
      have hle : ¬ x.1 ≤ target := Nat.not_le_of_lt hlt
      rw [List.takeWhile_cons_of_neg (by simpa using hle)]
      rfl
    · rename_i hlt
      have hle : x.1 ≤ target := Nat.le_of_not_lt hlt
      rw [List.takeWhile_cons_of_pos (by simpa using hle), List.getLastD_cons]
      split at h
      · exact absurd (Prod.mk.inj h).2 (by simp)
      · exact ih h

/-- The string table of an artifact: what can be read after its tree. -/
def stringTable? (s : Stream) : Option StringTable :=
  match readFiles {} s with
  | (_, .error _) => none
  | (c, .ok rest) =>
    match readSegments .treeLoaded (laterSegments none) { c with current := true, depth := .filesLoaded }
        rest with
    | (_, .error _) => none
    | (_, .ok rest) => (decodeStrings rest).toOption.map (·.1)

/-- What a reading of `s` as far as `d` gives, where one as far as `d'` gives `c'`. -/
inductive PartOf (s : Stream) (d d' : Depth) (c' : Contents) : Contents → Prop
  /-- The same, as far as it goes. -/
  | cut : d < .treeLoaded ∨ d = d' → PartOf s d d' c' (c'.upTo d)
  /-- A tree whose texts are still positions in the string table. -/
  | raw {raw tree : Tree} {table : StringTable} : d = .treeLoaded → d' = .stringsLoaded →
    c'.tree = some tree → stringTable? s = some table → resolveTree table raw = .ok tree →
    PartOf s d d' c' { c'.upTo d with tree := some raw }

theorem PartOf.depth {s : Stream} {d d' : Depth} {c c' : Contents} (h : PartOf s d d' c' c) :
    c.depth = d := by
  cases h <;> rfl

section Readings

variable {d d' : Depth} {c c' : Contents} {s rest rest' : Stream} {names : List String}

theorem pairwise_laterSegments : (laterSegments none).Pairwise (fun x y => x.1 < y.1) := by
  have hdepths : ((laterSegments none).map (·.1)).Pairwise (· < ·) := by decide
  exact List.pairwise_map.1 hdepths

/-- The contents before any segment after the files. -/
abbrev filesOnly (names : List String) : Contents :=
  { fileNames := names, current := true, depth := .filesLoaded }

/-- A reading reaches its depth, and what is there is true to it. -/
theorem reached_of_readSegments (hd : .filesLoaded ≤ d)
    (h : readSegments d (laterSegments none) (filesOnly names) s = (c, .ok rest)) :
    c.depth = d ∧ c.Truthful := by
  constructor
  · rw [depth_readSegments h]
    cases d with
    | notLoaded => exact absurd hd (by decide)
    | timestampChecked => exact absurd hd (by decide)
    | _ => rfl
  · have htrue : (filesOnly names).Truthful := by
      have hlt : Depth.filesLoaded < .treeLoaded := by decide
      refine Contents.EndsAt.truthful (fun e he hhas => ?_) hlt
      exact Contents.endsAt_files names e he (by cases e <;> exact hhas)
    have hleft := chain_laterSegments.left_readSegments d htrue rfl s
    rw [h] at hleft
    exact hleft

/-- Where a longer reading succeeds, a shorter one does, and what it leaves is read after it. -/
theorem exists_shorter (hle : d ≤ d')
    (h : readSegments d' (laterSegments none) (filesOnly names) s = (c', .ok rest)) :
    ∃ c mid, readSegments d (laterSegments none) (filesOnly names) s = (c, .ok mid) ∧
      readSegments d' ((laterSegments none).filter (fun x => d < x.1)) c mid = (c', .ok rest) := by
  rw [readSegments_split hle pairwise_laterSegments] at h
  rcases hshort : readSegments d (laterSegments none) (filesOnly names) s with ⟨c, e | mid⟩
  · rw [hshort] at h
    exact absurd (Prod.mk.inj h).2 (by simp)
  · rw [hshort] at h
    exact ⟨c, mid, rfl, h⟩

/-- After the tree come only its texts. -/
theorem readSegments_texts {raw : Tree} (hc : c.tree = some raw)
    (h : readSegments .stringsLoaded ((laterSegments none).filter (fun x => Depth.treeLoaded < x.1)) c s =
      (c', .ok rest)) :
    ∃ table tree, decodeStrings s = .ok (table, rest) ∧ resolveTree table raw = .ok tree ∧
      c' = { c with tree := some tree, depth := .stringsLoaded } := by
  have hlast : (laterSegments none).filter (fun x => Depth.treeLoaded < x.1) =
      [(.stringsLoaded, readStrings none)] := rfl
  rw [hlast, readSegments_last, readStrings] at h
  rcases hstrings : decodeStrings s with e | ⟨table, left⟩
  · rw [hstrings] at h
    exact absurd (Prod.mk.inj h).2 (by simp)
  · simp only [hstrings, hc] at h
    rcases htree : resolveTree table raw with e | tree
    · rw [htree] at h
      exact absurd (Prod.mk.inj h).2 (by simp)
    · rw [htree] at h
      obtain ⟨rfl, hrest⟩ := Prod.mk.inj h
      obtain rfl := Except.ok.inj hrest
      exact ⟨table, tree, rfl, htree, rfl⟩

theorem readRest_ok_iff : readRest d { fileNames := names } s = (c, .ok ()) ↔
    ∃ rest, readSegments d (laterSegments none) (filesOnly names) s = (c, .ok rest) := by
  rw [readRest]
  rcases readSegments d (laterSegments none) (filesOnly names) s with ⟨c'', e | rest⟩
  · simp [Except.mapError, Except.map]
  · simp [Except.mapError, Except.map]

theorem stringTable?_eq {mid : Stream} (hfiles : readFiles {} s = ({ fileNames := names }, .ok rest))
    (h : readSegments .treeLoaded (laterSegments none) (filesOnly names) rest = (c, .ok mid)) :
    stringTable? s = (decodeStrings mid).toOption.map (·.1) := by
  simp only [stringTable?, hfiles, h]

/-- A shorter reading succeeds if a longer one does, and gives a part of the same. -/
theorem exists_readRest_partOf (hd : .filesLoaded ≤ d) (hle : d ≤ d')
    (hfiles : readFiles {} s = ({ fileNames := names }, .ok rest))
    (h : readRest d' { fileNames := names } rest = (c', .ok ())) :
    ∃ c, readRest d { fileNames := names } rest = (c, .ok ()) ∧ PartOf s d d' c' c := by
  obtain ⟨last, hlong⟩ := readRest_ok_iff.1 h
  obtain ⟨c, mid, hshort, hleft⟩ := exists_shorter hle hlong
  obtain ⟨hdepth, htrue⟩ := reached_of_readSegments hd hshort
  have hc : c.upTo d = c := (hdepth ▸ htrue.ends : c.EndsAt d).upTo_eq hdepth
  refine ⟨c, readRest_ok_iff.2 ⟨mid, hshort⟩, ?_⟩
  by_cases heq : d = d'
  · subst heq
    obtain rfl : c = c' := (Prod.mk.inj (hshort.symm.trans hlong)).1
    have hcut : PartOf s d d c (c.upTo d) := .cut (.inr rfl)
    rwa [hc] at hcut
  by_cases htree : d < .treeLoaded
  · have hsame := upTo_readSegments d' (writes_after htree) c mid
    rw [hleft, hc] at hsame
    have hcut : PartOf s d d' c' (c'.upTo d) := .cut (.inl htree)
    rwa [hsame] at hcut
  · -- what is left are the texts of the tree
    obtain ⟨rfl, rfl⟩ : d = .treeLoaded ∧ d' = .stringsLoaded := by
      revert hle heq htree
      cases d <;> cases d' <;> decide
    obtain ⟨raw, hraw⟩ := Option.isSome_iff_exists.1 (htrue.tree.2 (.inl hdepth))
    obtain ⟨table, tree, hstrings, hresolve, rfl⟩ := readSegments_texts hraw hleft
    have htable : stringTable? s = some table := by
      rw [stringTable?_eq hfiles hshort, hstrings]
      rfl
    let texts : Contents := { c with tree := some tree, depth := .stringsLoaded }
    have hpart : PartOf s .treeLoaded .stringsLoaded texts
        { c.upTo .treeLoaded with tree := some raw } := .raw rfl rfl rfl htable hresolve
    rwa [hc, ← hraw] at hpart

/-- Bytes that are accepted when read as far as a depth are accepted when read less far, and give a part
of the same. -/
theorem exists_decode_partOf (hd : .filesLoaded ≤ d) (hle : d ≤ d')
    (h : Contents.decode d' s = (c', .ok ())) :
    ∃ c, Contents.decode d s = (c, .ok ()) ∧ PartOf s d d' c' c := by
  obtain ⟨names, hnames⟩ := readFiles_fst s
  rw [Contents.decode, Contents.read] at h ⊢
  rcases hfiles : readFiles {} s with ⟨c₀, e | rest⟩
  · rw [hfiles] at h
    exact absurd (Prod.mk.inj h).2 (by simp)
  · rw [hfiles] at h hnames
    obtain rfl : c₀ = _ := hnames
    exact exists_readRest_partOf hd hle hfiles h

end Readings

end AblAnalysis.Artifact
