import AblAnalysis.Proofs.Artifact.Legible
import AblAnalysis.Proofs.Project.Loading

/-!
Reading makes artifacts canonical. Bytes that are accepted need not be ones that were ever written:
tables may be spelled twice, attributes repeated and nodes given what a writer leaves out. But what is
read of them can be written, and reading that gives the same contents again, apart from what is never
written of a node (`canonicalNode`).
-/

namespace AblAnalysis.Artifact

open AblAnalysis.Tree (textKey commentsKey directiveKey classKey)

/-- A node without a text that its kind has anyway, and with a class only for a type name. -/
def canonicalNode (n : Tree.Node) : Tree.Node :=
  { n with
    ownText := n.ownText.filter (fun s => some s ≠ Tree.defaultText? n.kind)
    qualifiedClass := if n.kind = Tree.typeNameKind then n.qualifiedClass else none }

theorem Resolved.keptNode_eq {table : StringTable} {n : Tree.Node}
    (h : Resolved table textKeys n) : keptNode n = canonicalNode n := by
  have hclass : n.qualifiedClass.filter (fun s => s ≠ "") = n.qualifiedClass := by
    have hnamed := h.named
    cases hn : n.qualifiedClass with
    | none => rfl
    | some s =>
      rw [hn] at hnamed
      have hs : s ≠ "" := fun hs => hnamed (congrArg some hs)
      simp [Option.filter_some, hs]
  rw [keptNode, canonicalNode, hclass, h.plainAttrs_eq]

section Legible

variable {limit : Nat} {c : Contents} {t : Tree}

theorem LegibleTree.exists_table {names : List String} (h : LegibleTree limit names t) :
    ∃ table : StringTable, table.size < limit ∧ (∀ s ∈ table.strings.toList, Fits s) ∧
      ∀ s ∈ treeTexts t, s ∈ "" :: table.strings.toList := by
  obtain ⟨table, hsize, hfits, hnodes⟩ := h.texts
  refine ⟨table, hsize, hfits, fun s hs => ?_⟩
  obtain ⟨id, n, hn, hs⟩ := (mem_treeTexts t s).1 hs
  exact (hnodes id n hn).mem_nodeTexts hs

/-- No more texts are written than were read, but for the empty one. -/
theorem LegibleTree.length_texts_le {names : List String} (h : LegibleTree limit names t) :
    ("" :: treeTexts t).dedup.length ≤ limit := by
  obtain ⟨table, hsize, -, hmem⟩ := h.exists_table
  have hsub : ("" :: treeTexts t).dedup ⊆ "" :: table.strings.toList := by
    intro s hs
    rcases List.mem_cons.1 (List.mem_dedup.1 hs) with rfl | hs
    · exact List.mem_cons_self ..
    · exact hmem s hs
  have hle := (List.subperm_of_subset (List.nodup_dedup _) hsub).length_le
  rw [List.length_cons, Array.length_toList] at hle
  exact Nat.le_trans hle hsize

/-- What has been read can be written. -/
theorem Contents.Legible.encodable (h : c.Legible limit) (hlimit : limit < 2 ^ 31)
    (ht : LegibleTree limit c.fileNames t) : Encodable c t where
  linked := ht.proper.linked
  nodes id n hn := by
    obtain ⟨table, -, -, hnodes⟩ := ht.texts
    exact (hnodes id n hn).readable
  fileNames := ht.fileNames
  files := Nat.lt_of_le_of_lt h.files hlimit
  names := by
    have hfits : ∀ name : Option String, (name = c.className ∨ name = c.superName) →
        Fits (name.getD "") := by
      intro name hname
      cases name with
      | none => exact fits_empty
      | some name => exact (h.header name (hname.imp Eq.symm Eq.symm)).2
    intro name hname
    rcases List.mem_append.1 hname with hname | hname
    · exact h.names name hname
    · rcases List.mem_pair.1 hname with rfl | rfl
      · exact hfits _ (.inl rfl)
      · exact hfits _ (.inr rfl)
  tables := h.tables
  kinds s hs := by
    rcases List.mem_append.1 hs with hs | hs
    · exact (h.imports s hs).kind
    · exact (h.exports s hs).kind
  symbols s hs := by
    rcases List.mem_append.1 hs with hs | hs
    · exact (h.imports s hs).texts
    · exact (h.exports s hs).texts
  texts s hs := by
    obtain ⟨table, -, hfits, hmem⟩ := ht.exists_table
    rcases List.mem_cons.1 (hmem s hs) with rfl | hs
    · exact fits_empty
    · exact hfits s hs
  strings := Nat.lt_of_le_of_lt ht.length_texts_le hlimit

/-- What has been read is kept as it is. -/
theorem Contents.Legible.kept_eq (h : c.Legible limit) (hd : c.depth = .stringsLoaded)
    (hcurrent : c.current = true) (tree : Tree) : c.kept tree = { c with tree := some tree } := by
  have hname : ∀ name : Option String, (name = c.className ∨ name = c.superName) →
      name.filter (· ≠ "") = name := by
    intro name hname
    cases name with
    | none => rfl
    | some name =>
      have hne := (h.header name (hname.imp Eq.symm Eq.symm)).1
      simp [Option.filter_some, hne]
  have hsymbols : ∀ symbols : List Symbol, (∀ s ∈ symbols, LegibleSymbol s) →
      symbols.map keptSymbol = symbols := by
    intro symbols hs
    exact (List.map_congr_left fun s hmem => (hs s hmem).kept).trans (List.map_id _)
  rw [Contents.kept, hname _ (.inl rfl), hname _ (.inr rfl), hsymbols _ h.imports,
    hsymbols _ h.exports, ← hd, ← hcurrent]

/-- What has been read is written, and read again with canonical nodes. -/
theorem Contents.Legible.exists_encode (h : c.Legible limit) (hlimit : limit < 2 ^ 31)
    (hd : c.depth = .stringsLoaded) (hcurrent : c.current = true)
    (ht : LegibleTree limit c.fileNames t) :
    ∃ bytes, c.encode t = .ok bytes ∧ Contents.decode .stringsLoaded ⟨bytes, none⟩ =
      ({ c with tree := some (t.mapNodes canonicalNode) }, .ok ()) := by
  have henc := h.encodable hlimit ht
  obtain ⟨p, hp⟩ := henc.exists_parts
  obtain ⟨tree, hdecode, hren⟩ := hp.exists_decode_kept henc
  obtain ⟨table, -, -, hnodes⟩ := ht.texts
  have htree : tree = t.mapNodes canonicalNode := by
    rw [hren.eq_mapNodes ht.proper]
    exact Tree.mapNodes_congr fun id n hn => (hnodes id n hn).keptNode_eq
  refine ⟨p.bytes t, hp.encode_eq, ?_⟩
  rw [hdecode, h.kept_eq hd hcurrent, htree]

end Legible

theorem current_decode {target : Depth} {bytes : List UInt8} {c : Contents}
    (h : Contents.decode target ⟨bytes, none⟩ = (c, .ok ())) : c.current = true := by
  rw [Contents.decode, Contents.read] at h
  rcases hfiles : readFiles {} ⟨bytes, none⟩ with ⟨c', e | rest⟩
  · rw [hfiles] at h
    exact absurd (Prod.mk.inj h).2 (by simp)
  · rw [hfiles] at h
    simp only at h
    have hcurrent := Record.current_readRest target c' rest
    rw [h] at hcurrent
    exact hcurrent

/-- Whatever bytes are accepted, the tree that is read of them is numbered in the order of its own walk
and its links agree. The contents and the tree can be written again, and what is written is accepted
and gives the same contents and the same tree, with its nodes made canonical. -/
theorem exists_encode_of_gives {bytes : List UInt8} {c : Contents} (hlength : bytes.length < 2 ^ 31)
    (h : Gives bytes .stringsLoaded (.ok ()) c) :
    ∃ tree, c.tree = some tree ∧ tree.Proper ∧
      ∃ again, c.encode tree = .ok again ∧
        Gives again .stringsLoaded (.ok ())
          { c with tree := some (tree.mapNodes canonicalNode) } := by
  have hdecode := gives_iff.1 h
  obtain ⟨more, rest, hbytes, hbody⟩ := exists_body_of_decode hdecode
  obtain ⟨used, left, -, -, -, hlegible, hdepth⟩ := reads_body _ _ more c rest rfl hbody
  have hlimit : more.length < 2 ^ 31 := by
    rw [hbytes, List.length_append] at hlength
    omega
  obtain ⟨tree, htree, hlt⟩ := hlegible.tree (hdepth rfl)
  obtain ⟨again, hagain, hread⟩ :=
    hlegible.exists_encode hlimit (hdepth rfl) (current_decode hdecode) hlt
  exact ⟨tree, htree, hlt.proper, again, hagain, gives_iff.2 hread⟩

/-- An artifact that no unit has: a table stands in it in two spellings, and a period has its usual text
and a class. -/
def oddBytes : List UInt8 := [
  0, 0, 0, 11, 255, 255, 255, 255, 0, 0, 0, 0, 0, 0,
  0, 3, 83, 46, 65, 0, 1, 88, 0, 1, 120, 0, 0, 0, 3, 115, 46, 97, 0, 0, 0, 0,
  255, 255, 255, 255, 0, 0, 255, 255, 255, 255, 0, 0,
  0, 0, 0, 0, 0, 0, 0, 15, 0, 0, 0, 0, 0, 0, 0, 0, 0, 0, 0, 0,
  0, 0, 191, 105, 0, 0, 0, 0, 0, 0, 9, 96, 0, 0, 0, 0, 255, 255, 255, 255, 255, 255, 255, 255,
  255, 255, 255, 255, 255, 255, 255, 255, 0, 0, 0, 1, 0, 1, 46]

/-- What is read of `oddBytes`. -/
def oddContents : Contents where
  depth := .stringsLoaded
  current := true
  tables := SortedMap.insert {} "s.a" { name := "s.a" }
  tree := some (.single { kind := 15, ownText := some ".", qualifiedClass := some "." })

theorem exists_encode_oddBytes : oddBytes.length < 2 ^ 31 ∧
    Gives oddBytes .stringsLoaded (.ok ()) oddContents ∧
      ∃ tree, oddContents.tree = some tree ∧ tree.Proper ∧
        ∃ again, oddContents.encode tree = .ok again ∧
          Gives again .stringsLoaded (.ok ())
            { oddContents with tree := some (.single { kind := 15 }) } := by
  have hlength : oddBytes.length < 2 ^ 31 := by decide
  have hgives : Gives oddBytes .stringsLoaded (.ok ()) oddContents :=
    gives_iff.2 (by decide +kernel)
  obtain ⟨tree, htree, hproper, again, hagain, hread⟩ := exists_encode_of_gives hlength hgives
  have hcanonical : tree.mapNodes canonicalNode = .single { kind := 15 } := by
    obtain rfl := Option.some.inj htree
    decide +kernel
  rw [hcanonical] at hread
  exact ⟨hlength, hgives, tree, htree, hproper, again, hagain, hread⟩

end AblAnalysis.Artifact
