import AblAnalysis.Proofs.Artifact.Reading
import AblAnalysis.Proofs.Tree.WalkOrder

/-!
The readers of an artifact as programs, and what they can give. Whatever the bytes are, what is read of
them could have been written: texts are short enough, nothing is taken for the end of its list, fields
and tables stand under the lower-case forms of their names, and the nodes of a tree are numbered in the
order of the walk.
-/

namespace AblAnalysis.Artifact

open Reader

/-! ### Files -/

theorem part_decodeFiles : part decodeFiles = (do
    let index ← item Stream.int32
    let name ← item Stream.text
    if index = endMark then pure []
    else
      let names ← part decodeFiles
      pure (name :: names)) := by
  ext1
  funext s
  rw [run_part, decodeFiles_eq]
  simp only [run_bind, run_item]
  rcases s.int32 with ⟨e | index, s₁⟩
  · rfl
  simp only [Except.map]
  rcases s₁.text with ⟨e | name, s₂⟩
  · rfl
  by_cases hend : index = endMark
  · simp only [if_pos hend]
    rfl
  · simp only [if_neg hend, run_bind, run_part]
    rcases decodeFiles s₂ with ⟨names, e | rest⟩ <;> rfl

theorem reads_decodeFiles (n : Nat) : Reads n (part decodeFiles) fun m names =>
    m + names.length ≤ n ∧ ∀ name ∈ names, Fits name := by
  induction n using Nat.strong_induction_on with
  | _ n ih =>
    rw [part_decodeFiles]
    refine (reads_int32 n).bind fun m index _ hm => ?_
    refine (reads_text m).bind fun k name _ ⟨hk, hname⟩ => ?_
    by_cases hend : index = endMark
    · rw [if_pos hend]
      exact reads_pure ⟨by simp; omega, by simp⟩
    · rw [if_neg hend]
      refine (ih k (by omega)).bind fun j names _ ⟨hj, hnames⟩ => ?_
      refine reads_pure ⟨?_, ?_⟩
      · rw [List.length_cons]
        omega
      · exact List.forall_mem_cons.2 ⟨hname, hnames⟩

/-! ### Tables -/

theorem TableUse.legible_fresh {name : String} (hne : name ≠ "") (hfits : Fits name) :
    ({ name } : TableUse).Legible where
  keyed e he := absurd he List.not_mem_nil
  named := ⟨hne, fun field hfield => absurd hfield List.not_mem_nil⟩
  texts := by
    intro text htext
    obtain rfl := List.mem_singleton.1 htext
    exact hfits

theorem TableUse.Legible.insert {name : String} {fields : SortedMap String String}
    (h : ({ name, fields } : TableUse).Legible) {field : String} (hne : field ≠ "")
    (hfits : Fits field) :
    ({ name, fields := fields.insert (Text.lowercase field) field } : TableUse).Legible := by
  have hmem : ∀ e ∈ (fields.insert (Text.lowercase field) field).entries,
      e = (Text.lowercase field, field) ∨ e ∈ fields.entries :=
    fun e he => SortedMap.eq_or_mem_of_mem_insertEntry he
  have hvalue : ∀ f ∈ (fields.insert (Text.lowercase field) field).values,
      f = field ∨ f ∈ fields.values := by
    intro f hf
    obtain ⟨e, he, rfl⟩ := List.mem_map.1 hf
    rcases hmem e he with rfl | he
    · exact .inl rfl
    · exact .inr (List.mem_map.2 ⟨e, he, rfl⟩)
  refine ⟨?_, ⟨h.named.1, ?_⟩, ?_⟩
  · intro e he
    rcases hmem e he with rfl | he
    · rfl
    · exact h.keyed e he
  · intro f hf
    rcases hvalue f hf with rfl | hf
    · exact hne
    · exact h.named.2 f hf
  · intro text htext
    rcases List.mem_cons.1 htext with rfl | htext
    · exact h.texts _ (List.mem_cons_self ..)
    rcases hvalue text htext with rfl | htext
    · exact hfits
    · exact h.texts text (List.mem_cons_of_mem _ htext)

theorem reader_decodeFields (fields : SortedMap String String) :
    whole (decodeFields · fields) = (do
      let name ← item Stream.text
      if name = "" then pure fields
      else whole (decodeFields · (fields.insert (Text.lowercase name) name))) := by
  ext1
  funext s
  rw [run_whole, decodeFields_eq]
  simp only [run_bind, run_item]
  rcases s.text with ⟨e | name, rest⟩
  · rfl
  · simp only [Except.map]
    by_cases hname : name = ""
    · simp only [if_pos hname]
      rfl
    · simp only [if_neg hname]

theorem reads_decodeFields {name : String} {fields : SortedMap String String}
    (h : ({ name, fields } : TableUse).Legible) (n : Nat) :
    Reads n (whole (decodeFields · fields)) fun _ fields => ({ name, fields } : TableUse).Legible := by
  induction n using Nat.strong_induction_on generalizing fields with
  | _ n ih =>
    rw [reader_decodeFields]
    refine (reads_text n).bind fun m field _ ⟨hm, hfield⟩ => ?_
    by_cases hempty : field = ""
    · rw [if_pos hempty]
      exact reads_pure h
    · rw [if_neg hempty]
      exact ih m (by omega) (h.insert hempty hfield)

theorem Footprint.Legible.insert {f : Footprint} (h : f.Legible) {t : TableUse} (ht : t.Legible) :
    Footprint.Legible (SortedMap.insert f (Text.lowercase t.name) t) := by
  intro e he
  rcases SortedMap.eq_or_mem_of_mem_insertEntry he with rfl | he
  · exact ⟨rfl, ht⟩
  · exact h e he

theorem part_decodeTables (tables : Footprint) : part (decodeTables · tables) = (do
    let name ← item Stream.text
    if name = "" then pure tables
    else
      let fields ← whole (decodeFields · {})
      part (decodeTables · (tables.insert (Text.lowercase name) { name, fields }))) := by
  ext1
  funext s
  rw [run_part, decodeTables_eq]
  simp only [run_bind, run_item]
  rcases s.text with ⟨e | name, rest⟩
  · rfl
  simp only [Except.map]
  by_cases hname : name = ""
  · simp only [if_pos hname]
    rfl
  · simp only [if_neg hname, run_bind]
    rcases decodeFields rest {} with e | ⟨fields, rest'⟩ <;> rfl

theorem reads_decodeTables {tables : Footprint} (h : tables.Legible) (n : Nat) :
    Reads n (part (decodeTables · tables)) fun _ tables => tables.Legible := by
  induction n using Nat.strong_induction_on generalizing tables with
  | _ n ih =>
    rw [part_decodeTables]
    refine (reads_text n).bind fun m name _ ⟨hm, hname⟩ => ?_
    by_cases hempty : name = ""
    · rw [if_pos hempty]
      exact reads_pure h
    · rw [if_neg hempty]
      refine (reads_decodeFields (TableUse.legible_fresh hempty hname) m).bind ?_
      intro k fields hk hfields
      have hinsert := Footprint.Legible.insert h hfields
      exact ih k (by omega) hinsert

/-! ### Symbols -/

/-- Whether a symbol can be written and read back. -/
structure LegibleSymbol (s : Symbol) : Prop where
  kind : s.kind ≠ endMark
  kept : keptSymbol s = s
  texts : ∀ text ∈ symbolTexts s, Fits text

theorem reader_decodeClassName (dataType : Option DataType) :
    whole (decodeClassName · dataType) =
      if dataType = some .class_ then do
        let name ← item Stream.text
        pure (some name)
      else pure none := by
  ext1
  funext s
  rw [run_whole, decodeClassName]
  by_cases hclass : dataType = some .class_
  · simp only [if_pos hclass, run_bind, run_item]
    rcases s.text with ⟨e | name, rest⟩ <;> rfl
  · simp only [if_neg hclass]
    rfl

theorem reader_decodeSymbols : whole decodeSymbols = (do
    let kind ← item Stream.int32
    let name ← item Stream.text
    if kind = endMark then pure []
    else
      let code ← item Stream.int32
      let dataType ← check (decodeDataType code)
      let className ← whole (decodeClassName · dataType)
      let symbols ← whole decodeSymbols
      pure (⟨kind, name, dataType, className⟩ :: symbols)) := by
  ext1
  funext s
  rw [run_whole, decodeSymbols_eq]
  simp only [run_bind, run_item]
  rcases s.int32 with ⟨e | kind, s₁⟩
  · rfl
  simp only [Except.map]
  rcases s₁.text with ⟨e | name, s₂⟩
  · rfl
  by_cases hend : kind = endMark
  · simp only [if_pos hend]
    rfl
  simp only [if_neg hend, run_bind, run_item, run_check]
  rcases s₂.int32 with ⟨e | code, s₃⟩
  · rfl
  simp only [Except.map]
  rcases decodeDataType code with e | dataType
  · rfl
  simp only
  rcases decodeClassName s₃ dataType with e | ⟨className, s₄⟩
  · rfl
  simp only
  rcases decodeSymbols s₄ with e | ⟨symbols, rest⟩ <;> rfl

theorem reads_decodeClassName {kind : Int32} {name : String} (hkind : kind ≠ endMark)
    (hname : Fits name) (dataType : Option DataType) (n : Nat) :
    Reads n (whole (decodeClassName · dataType)) fun _ className =>
      LegibleSymbol ⟨kind, name, dataType, className⟩ := by
  rw [reader_decodeClassName]
  by_cases hclass : dataType = some .class_
  · rw [if_pos hclass]
    refine (reads_text n).bind fun m className _ ⟨_, hfits⟩ => reads_pure ⟨hkind, ?_, ?_⟩
    · simp [keptSymbol, hclass]
    · simp [symbolTexts, hclass, hname, hfits]
  · rw [if_neg hclass]
    refine reads_pure ⟨hkind, ?_, ?_⟩
    · simp [keptSymbol, hclass]
    · simp [symbolTexts, hclass, hname]

theorem reads_decodeSymbols (n : Nat) :
    Reads n (whole decodeSymbols) fun _ symbols => ∀ s ∈ symbols, LegibleSymbol s := by
  induction n using Nat.strong_induction_on with
  | _ n ih =>
    rw [reader_decodeSymbols]
    refine (reads_int32 n).bind fun m kind _ hm => ?_
    refine (reads_text m).bind fun k name _ ⟨hk, hname⟩ => ?_
    by_cases hend : kind = endMark
    · rw [if_pos hend]
      exact reads_pure (by simp)
    · rw [if_neg hend]
      refine (reads_int32 k).bind fun j code _ hj => ?_
      refine (reads_check fun dataType _ => ?_ : Reads j _ fun i _ => i = j).bind ?_
      · rfl
      rintro i dataType - rfl
      refine (reads_decodeClassName hend hname dataType i).bind fun l className hl hs => ?_
      refine (ih l (by omega)).bind fun _ symbols _ hsymbols => reads_pure ?_
      exact List.forall_mem_cons.2 ⟨hs, hsymbols⟩

/-! ### The tree -/

/-- Whether a node is one as it is first read: it has no text, and can be told from an end mark. -/
structure Bare (n : Tree.Node) : Prop where
  texts : n.ownText = none ∧ n.comments = none ∧ n.directive = none ∧ n.qualifiedClass = none
  readable : Readable n

theorem Bare.setAttr {n : Tree.Node} (h : Bare n) {key : Int32} (hkey : key ≠ endMark)
    (value : Int32) : Bare (n.setAttr key value) where
  texts := h.texts
  readable := by
    refine ⟨h.readable.subtype, fun hmem => ?_⟩
    obtain ⟨e, he, hend⟩ := List.mem_map.1 hmem
    rcases SortedMap.eq_or_mem_of_mem_insertEntry he with rfl | he
    · exact hkey hend
    · exact h.readable.keys (List.mem_map.2 ⟨e, he, hend⟩)

theorem reader_decodeAttrs (node : Tree.Node) : whole (decodeAttrs · node) = (do
    let key ← item Stream.int32
    let value ← item Stream.int32
    if key = endMark then pure node else whole (decodeAttrs · (node.setAttr key value))) := by
  ext1
  funext s
  rw [run_whole, decodeAttrs_eq]
  simp only [run_bind, run_item]
  rcases s.int32 with ⟨e | key, s₁⟩
  · rfl
  simp only [Except.map]
  rcases s₁.int32 with ⟨e | value, s₂⟩
  · rfl
  by_cases hend : key = endMark
  · simp only [if_pos hend]
    rfl
  · simp only [if_neg hend]

theorem reads_decodeAttrs {node : Tree.Node} (h : Bare node) (n : Nat) :
    Reads n (whole (decodeAttrs · node)) fun _ node => Bare node := by
  induction n using Nat.strong_induction_on generalizing node with
  | _ n ih =>
    rw [reader_decodeAttrs]
    refine (reads_int32 n).bind fun m key _ hm => ?_
    refine (reads_int32 m).bind fun k value _ hk => ?_
    by_cases hend : key = endMark
    · rw [if_pos hend]
      exact reads_pure h
    · rw [if_neg hend]
      exact ih k (by omega) (h.setAttr hend value)

theorem reader_decodeNode (subtype : Int32) : whole (decodeNode · subtype) = (do
    let kind ← item Stream.int32
    let fileIndex ← item Stream.int16
    let line ← item Stream.int32
    let column ← item Stream.int16
    let sourceIndex ← item Stream.int32
    whole (decodeAttrs · { kind, subtype, fileIndex, line, column, sourceIndex })) := by
  ext1
  funext s
  simp only [decodeNode, run_bind, run_item]
  rcases s.int32 with ⟨e | kind, s₁⟩
  · rfl
  simp only [Except.map]
  rcases s₁.int16 with ⟨e | fileIndex, s₂⟩
  · rfl
  simp only
  rcases s₂.int32 with ⟨e | line, s₃⟩
  · rfl
  simp only
  rcases s₃.int16 with ⟨e | column, s₄⟩
  · rfl
  simp only
  rcases s₄.int32 with ⟨e | sourceIndex, s₅⟩ <;> rfl

theorem reads_decodeNode {subtype : Int32} (h : subtype ≠ endMark) (n : Nat) :
    Reads n (whole (decodeNode · subtype)) fun _ node => Bare node := by
  rw [reader_decodeNode]
  refine (reads_int32 n).bind fun m kind _ _ => ?_
  refine (reads_int16 m).bind fun m fileIndex _ _ => ?_
  refine (reads_int32 m).bind fun m line _ _ => ?_
  refine (reads_int16 m).bind fun m column _ _ => ?_
  refine (reads_int32 m).bind fun m sourceIndex _ _ => ?_
  exact reads_decodeAttrs ⟨⟨rfl, rfl, rfl, rfl⟩, h, List.not_mem_nil⟩ m

theorem reader_decodeNodes (t : Tree) (place : Option Nat) (outer : List (Option Nat)) :
    whole (decodeNodes · t (place :: outer)) = (do
      let subtype ← item Stream.int32
      if subtype = endMark then whole (decodeNodes · t outer)
      else
        match place with
        | none => check (.error (.corruptArtifact .rootSibling))
        | some parent =>
          let node ← whole (decodeNode · subtype)
          whole (decodeNodes · (t.addChild parent node) (some t.size :: some parent :: outer))) := by
  ext1
  funext s
  rw [run_whole, decodeNodes_eq]
  simp only [run_bind, run_item]
  rcases s.int32 with ⟨e | subtype, s₁⟩
  · rfl
  simp only [Except.map]
  by_cases hend : subtype = endMark
  · simp only [if_pos hend]
  simp only [if_neg hend]
  cases place with
  | none => rfl
  | some parent =>
    simp only [run_bind]
    rcases decodeNode s₁ subtype with e | ⟨node, s₂⟩ <;> rfl

/-- Nodes are read in the order of the walk. -/
theorem reads_decodeNodes {t : Tree} {places : List (Option Nat)} (h : t.Growing places)
    (hall : t.AllNodes Bare) (n : Nat) :
    Reads n (whole (decodeNodes · t places)) fun _ t => t.Proper ∧ t.AllNodes Bare := by
  induction n using Nat.strong_induction_on generalizing t places with
  | _ n ih =>
    cases places with
    | nil =>
      have hnil : whole (decodeNodes · t []) = pure t := by
        ext1
        funext s
        rw [run_whole, decodeNodes, run_pure]
      rw [hnil]
      exact reads_pure ⟨h.proper, hall⟩
    | cons place outer =>
      rw [reader_decodeNodes]
      refine (reads_int32 n).bind fun m subtype _ hm => ?_
      by_cases hend : subtype = endMark
      · rw [if_pos hend]
        exact ih m (by omega) h.close hall
      · rw [if_neg hend]
        cases place with
        | none => exact reads_check fun a ha => absurd ha (by simp)
        | some parent =>
          refine (reads_decodeNode hend m).bind fun k node hk hnode => ?_
          exact ih k (by omega) (h.addChild node) (hall.addChild parent hnode)

theorem reader_decodeTree : whole decodeTree = (do
    let subtype ← item Stream.int32
    if subtype = endMark then check (.error (.corruptArtifact .emptyTree))
    else
      let root ← whole (decodeNode · subtype)
      whole (decodeNodes · (Tree.single root) [some 0, none])) := by
  ext1
  funext s
  simp only [decodeTree, run_bind, run_item]
  rcases s.int32 with ⟨e | subtype, s₁⟩
  · rfl
  simp only [Except.map]
  by_cases hend : subtype = endMark
  · simp only [if_pos hend]
    rfl
  · simp only [if_neg hend, run_bind]
    rcases decodeNode s₁ subtype with e | ⟨root, s₂⟩ <;> rfl

theorem reads_decodeTree (n : Nat) :
    Reads n (whole decodeTree) fun _ t => t.Proper ∧ t.AllNodes Bare := by
  rw [reader_decodeTree]
  refine (reads_int32 n).bind fun m subtype _ _ => ?_
  by_cases hend : subtype = endMark
  · rw [if_pos hend]
    exact reads_check fun a ha => absurd ha (by simp)
  · rw [if_neg hend]
    refine (reads_decodeNode hend m).bind fun k root _ hroot => ?_
    exact reads_decodeNodes (Tree.growing_single root) (Tree.allNodes_single hroot) k

/-! ### Texts -/

theorem reader_decodeTexts (count : Nat) : whole (decodeTexts (count + 1)) = (do
    let value ← item Stream.text
    let values ← whole (decodeTexts count)
    pure (value :: values)) := by
  ext1
  funext s
  simp only [decodeTexts, run_bind, run_item]
  rcases s.text with ⟨e | value, s₁⟩
  · rfl
  simp only [Except.map]
  rcases decodeTexts count s₁ with e | ⟨values, rest⟩ <;> rfl

theorem reads_decodeTexts (count n : Nat) : Reads n (whole (decodeTexts count)) fun m values =>
    m + values.length ≤ n ∧ ∀ value ∈ values, Fits value := by
  induction count generalizing n with
  | zero => exact reads_pure ⟨Nat.le_refl _, by simp⟩
  | succ count ih =>
    rw [reader_decodeTexts]
    refine (reads_text n).bind fun m value _ ⟨hm, hvalue⟩ => ?_
    refine (ih m).bind fun k values _ ⟨hk, hvalues⟩ => reads_pure ⟨?_, ?_⟩
    · rw [List.length_cons]
      omega
    · exact List.forall_mem_cons.2 ⟨hvalue, hvalues⟩

theorem reader_decodeStrings : whole decodeStrings = (do
    let count ← item Stream.int32
    if count < 0 then check (.error (.corruptArtifact (.stringCount count)))
    else
      let values ← whole (decodeTexts count.toInt.toNat)
      pure (StringTable.ofStrings values)) := by
  ext1
  funext s
  simp only [decodeStrings, run_bind, run_item]
  rcases s.int32 with ⟨e | count, s₁⟩
  · rfl
  simp only [Except.map]
  by_cases hneg : count < 0
  · simp only [if_pos hneg]
    rfl
  · simp only [if_neg hneg, run_bind]
    rcases decodeTexts count.toInt.toNat s₁ with e | ⟨values, rest⟩ <;> rfl

theorem reads_decodeStrings (n : Nat) : Reads n (whole decodeStrings) fun m table =>
    m + table.size < n ∧ ∀ s ∈ table.strings.toList, Fits s := by
  rw [reader_decodeStrings]
  refine (reads_int32 n).bind fun m count _ hm => ?_
  by_cases hneg : count < 0
  · rw [if_pos hneg]
    exact reads_check fun a ha => absurd ha (by simp)
  · rw [if_neg hneg]
    refine (reads_decodeTexts _ m).bind fun k values _ ⟨hk, hvalues⟩ => reads_pure ⟨?_, ?_⟩
    · simp only [StringTable.size, StringTable.ofStrings, List.size_toArray]
      omega
    · simpa [StringTable.ofStrings] using hvalues

end AblAnalysis.Artifact
