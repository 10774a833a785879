import AblAnalysis.Proofs.Artifact.Segments
import AblAnalysis.Proofs.Artifact.Texts

/-!
Single nodes in an artifact. The texts of a node are written as positions in the table, among its
attributes; reading first takes these for plain attributes (`rawNode`) and resolves them when the
table is known. What comes back is the node as an artifact can keep it (`keptNode`).
-/

namespace AblAnalysis.Artifact

open AblAnalysis.Tree (textKey commentsKey directiveKey classKey)

variable (rest : List UInt8) (fault : Option IoFailure)

/-! ### Attributes -/

theorem decodeAttrs_eq (s : Stream) (n : Tree.Node) : decodeAttrs s n =
    match s.int32 with
    | (.error e, _) => .error e
    | (.ok key, s₁) =>
      match s₁.int32 with
      | (.error e, _) => .error e
      | (.ok value, s₂) =>
        if key = endMark then .ok (n, s₂) else decodeAttrs s₂ (n.setAttr key value) := by
  rw [decodeAttrs]
  split
  · rename_i h
    simp only [h]
  · rename_i h
    simp only [h]
    split <;> rename_i h <;> simp only [h]

theorem decodeAttrs_encodeAttrs {attrs : List (Int32 × Int32)} (h : ∀ e ∈ attrs, e.1 ≠ endMark)
    (n : Tree.Node) : decodeAttrs ⟨encodeAttrs attrs ++ rest, fault⟩ n =
      .ok ({ n with attrs := n.attrs.insertAll attrs }, ⟨rest, fault⟩) := by
  induction attrs generalizing n with
  | nil =>
    rw [decodeAttrs_eq]
    simp [encodeAttrs, Stream.int32_append, SortedMap.insertAll]
  | cons e attrs ih =>
    have hbytes : encodeAttrs (e :: attrs) ++ rest =
        int32Bytes e.1 ++ (int32Bytes e.2 ++ (encodeAttrs attrs ++ rest)) := by
      simp [encodeAttrs]
    rw [decodeAttrs_eq, hbytes]
    simp only [Stream.int32_append, if_neg (h e (List.mem_cons_self ..))]
    exact ih (fun f hf => h f (List.mem_cons_of_mem _ hf)) _

/-! ### Writing a node -/

/-- The texts that are stored for a node. -/
def nodeTexts (n : Tree.Node) : List String :=
  (storedText? n).toList ++ n.comments.toList ++ n.directive.toList ++ (storedClass? n).toList

theorem interns_referTo (key : Int32) (text : Option String) :
    Interns text.toList (referTo key text) := by
  cases text with
  | none => exact .pure []
  | some s => exact (Interns.indexOf s).map (fun i => [(key, i)])

theorem interns_storedAttrs (n : Tree.Node) : Interns (nodeTexts n) (storedAttrs n) := by
  have h := (interns_referTo textKey (storedText? n)).bind fun text =>
    (interns_referTo commentsKey n.comments).bind fun comments =>
      (interns_referTo directiveKey n.directive).bind fun directive =>
        (interns_referTo classKey (storedClass? n)).map fun classes =>
          text ++ comments ++ n.attrs.entries.filter (fun e => !Tree.isTextKey e.1) ++ directive ++
            classes
  rw [← List.append_assoc, ← List.append_assoc] at h
  exact h

/-- What is written of a node after its subtype. -/
def nodeTail (n : Tree.Node) (attrs : List (Int32 × Int32)) : List UInt8 :=
  int32Bytes n.kind ++ (int16Bytes n.fileIndex ++ (int32Bytes n.line ++ (int16Bytes n.column ++
    (int32Bytes n.sourceIndex ++ encodeAttrs attrs))))

theorem encodeNode_eq (n : Tree.Node) (table : StringTable) : encodeNode n table =
    (int32Bytes n.subtype ++ nodeTail n (storedAttrs n table).1, (storedAttrs n table).2) := by
  simp only [encodeNode, nodeTail, List.append_assoc]

theorem interns_encodeNode (n : Tree.Node) : Interns (nodeTexts n) (encodeNode n) := by
  have h := (interns_storedAttrs n).map fun attrs => int32Bytes n.subtype ++ nodeTail n attrs
  rwa [← funext (encodeNode_eq n)] at h

/-- How a text is referred to in a table that holds it. -/
def reference (table : StringTable) (key : Int32) (text : Option String) : Option (Int32 × Int32) :=
  text.map (fun s => (key, (table.indexOf s).1))

theorem referTo_of_mem {table : StringTable} (ht : table.Distinct) (key : Int32)
    {text : Option String} (h : ∀ s ∈ text.toList, s ∈ table.strings.toList) :
    referTo key text table = ((reference table key text).toList, table) := by
  cases text with
  | none => rfl
  | some s =>
    obtain ⟨i, hi⟩ := StringTable.mem_iff_getElem?.1 (h s (by simp))
    simp only [referTo, reference, ht.indexOf_eq hi, Option.map_some, Option.toList_some]

/-- The attributes of a node that are no references to texts. -/
def plainEntries (n : Tree.Node) : List (Int32 × Int32) :=
  n.attrs.entries.filter (fun e => !Tree.isTextKey e.1)

/-- The attributes that are written for a node when the table holds all of its texts. -/
def writtenAttrs (table : StringTable) (n : Tree.Node) : List (Int32 × Int32) :=
  (reference table textKey (storedText? n)).toList ++
    (reference table commentsKey n.comments).toList ++ plainEntries n ++
    (reference table directiveKey n.directive).toList ++
    (reference table classKey (storedClass? n)).toList

theorem storedAttrs_of_mem {table : StringTable} (ht : table.Distinct) {n : Tree.Node}
    (h : ∀ s ∈ nodeTexts n, s ∈ table.strings.toList) :
    storedAttrs n table = (writtenAttrs table n, table) := by
  simp only [nodeTexts, List.mem_append] at h
  simp only [storedAttrs, referTo_of_mem ht textKey fun s hs => h s (.inl (.inl (.inl hs))),
    referTo_of_mem ht commentsKey fun s hs => h s (.inl (.inl (.inr hs))),
    referTo_of_mem ht directiveKey fun s hs => h s (.inl (.inr hs)),
    referTo_of_mem ht classKey fun s hs => h s (.inr hs)]
  rfl

theorem encodeNode_of_mem {table : StringTable} (ht : table.Distinct) {n : Tree.Node}
    (h : ∀ s ∈ nodeTexts n, s ∈ table.strings.toList) :
    encodeNode n table = (int32Bytes n.subtype ++ nodeTail n (writtenAttrs table n), table) := by
  rw [encodeNode_eq, storedAttrs_of_mem ht h]

/-! ### Reading a node -/

/-- A node whose texts are still positions in the table. -/
def rawNode (table : StringTable) (n : Tree.Node) : Tree.Node where
  kind := n.kind
  subtype := n.subtype
  fileIndex := n.fileIndex
  line := n.line
  column := n.column
  sourceIndex := n.sourceIndex
  attrs := ({} : SortedMap Int32 Int32).insertAll (writtenAttrs table n)

theorem ne_endMark_of_mem_writtenAttrs {table : StringTable} {n : Tree.Node}
    (h : endMark ∉ n.attrs.keys) : ∀ e ∈ writtenAttrs table n, e.1 ≠ endMark := by
  have href : ∀ {key : Int32} {text : Option String} {e : Int32 × Int32},
      e ∈ (reference table key text).toList → e.1 = key := by
    intro key text e he
    obtain ⟨s, -, rfl⟩ := Option.map_eq_some_iff.1 (Option.mem_toList.1 he)
    rfl
  intro e he
  simp only [writtenAttrs, List.mem_append] at he
  rcases he with (((he | he) | he) | he) | he
  · rw [href he]; decide
  · rw [href he]; decide
  · intro heq
    exact h (List.mem_map.2 ⟨e, (List.mem_filter.1 he).1, heq⟩)
  · rw [href he]; decide
  · rw [href he]; decide

theorem decodeNode_nodeTail {table : StringTable} {n : Tree.Node} (h : endMark ∉ n.attrs.keys) :
    decodeNode ⟨nodeTail n (writtenAttrs table n) ++ rest, fault⟩ n.subtype =
      .ok (rawNode table n, ⟨rest, fault⟩) := by
  simp only [decodeNode, nodeTail, List.append_assoc, Stream.int32_append, Stream.int16_append,
    decodeAttrs_encodeAttrs rest fault (ne_endMark_of_mem_writtenAttrs h)]
  rfl

theorem find?_reference (table : StringTable) (key k : Int32) (text : Option String) :
    ((reference table key text).toList.find? (fun e => e.1 = k)).map (·.2) =
      if k = key then text.map (fun s => (table.indexOf s).1) else none := by
  cases text with
  | none => simp [reference]
  | some s => by_cases hk : k = key <;> simp [reference, hk, eq_comm]

theorem find?_plainEntries (n : Tree.Node) (k : Int32) :
    ((plainEntries n).find? (fun e => e.1 = k)).map (·.2) =
      if Tree.isTextKey k then none else n.attrs.get? k := by
  rw [plainEntries, List.find?_filter, SortedMap.get?]
  by_cases hk : Tree.isTextKey k
  · rw [if_pos hk, List.find?_eq_none.2, Option.map_none]
    rintro e - he
    simp only [decide_eq_true_eq, Bool.not_eq_true'] at he
    rw [he.2, hk] at he
    exact absurd he.1 (by simp)
  · rw [if_neg hk]
    congr 2
    funext e
    by_cases he : e.1 = k
    · simp [he, hk]
    · simp [he]

/-- The attributes of a node without those that stand for texts. -/
def plainAttrs (n : Tree.Node) : SortedMap Int32 Int32 :=
  (((n.attrs.erase textKey).erase commentsKey).erase directiveKey).erase classKey

/-- What the attributes of a node that is read first are. -/
theorem get?_rawNode (table : StringTable) (n : Tree.Node) (k : Int32) :
    (rawNode table n).attrs.get? k =
      if k = textKey then (storedText? n).map (fun s => (table.indexOf s).1)
      else if k = commentsKey then n.comments.map (fun s => (table.indexOf s).1)
      else if k = directiveKey then n.directive.map (fun s => (table.indexOf s).1)
      else if k = classKey then (storedClass? n).map (fun s => (table.indexOf s).1)
      else n.attrs.get? k := by
  have hone : ∀ key text, ((reference table key text).toList.map (·.1)).Nodup := by
    intro key text
    cases text <;> simp [reference]
  have hplain : ((plainEntries n).map (·.1)).Nodup :=
    n.attrs.keys_nodup.sublist (List.filter_sublist.map _)
  have happend : ∀ (m : SortedMap Int32 Int32) (xs ys : List (Int32 × Int32)),
      m.insertAll (xs ++ ys) = (m.insertAll xs).insertAll ys := fun m xs ys => List.foldl_append
  simp only [rawNode, writtenAttrs, happend, SortedMap.get?_insertAll _ (hone _ _),
    SortedMap.get?_insertAll _ hplain, find?_reference, find?_plainEntries, SortedMap.get?_empty]
  by_cases htext : k = textKey
  · subst htext
    exact Option.or_none
  by_cases hcomments : k = commentsKey
  · subst hcomments
    exact Option.or_none
  by_cases hdirective : k = directiveKey
  · subst hdirective
    exact Option.or_none
  by_cases hclass : k = classKey
  · subst hclass
    exact Option.or_none
  · have hkey : Tree.isTextKey k = false := by
      simp [Tree.isTextKey, htext, hcomments, hdirective, hclass]
    simp [htext, hcomments, hdirective, hclass, hkey]

/-- A node as an artifact keeps it: with a text of its own only where that differs from the text of
its kind, a class only for a type name, and no attributes under the keys that stand for texts. -/
def keptNode (n : Tree.Node) : Tree.Node :=
  { n with
    ownText := n.ownText.filter (fun s => some s ≠ Tree.defaultText? n.kind)
    qualifiedClass :=
      if n.kind = Tree.typeNameKind then n.qualifiedClass.filter (fun s => s ≠ "") else none
    attrs := plainAttrs n }

theorem text_keptNode (n : Tree.Node) : (keptNode n).text = n.text := by
  simp only [Tree.Node.text, keptNode]
  cases n.ownText with
  | none => rfl
  | some s =>
    by_cases h : some s = Tree.defaultText? n.kind
    · simp [Option.filter_some, h.symm]
    · simp [Option.filter_some, h]

/-- An attribute that refers to a text gives way to the text. -/
theorem resolveText_eq {table : StringTable} {key : Int32} {set : Tree.Node → String → Tree.Node}
    {m m' : Tree.Node} {text : Option String}
    (hget : m.attrs.get? key = text.map (fun s => (table.indexOf s).1))
    (htext : ∀ s ∈ text.toList, table.get? (table.indexOf s).1 = some s)
    (hset : text.elim { m with attrs := m.attrs.erase key }
      (set { m with attrs := m.attrs.erase key }) = m') :
    resolveText table key set m = .ok m' := by
  cases text with
  | none =>
    have herase : m.attrs.erase key = m.attrs := SortedMap.ext_get? fun k => by
      rw [SortedMap.get?_erase]
      split
      · rename_i hk
        rw [hk, hget, Option.map_none]
      · rfl
    rw [Option.elim_none, herase] at hset
    simp only [resolveText, hget, Option.map_none]
    exact congrArg _ hset
  | some s =>
    rw [Option.elim_some] at hset
    simp only [resolveText, hget, Option.map_some, htext s (by simp), hset]

/-- What the stored class of a node is resolved to. -/
theorem elim_storedClass? {β : Type} (n : Tree.Node) (f : Option String → β) :
    (storedClass? n).elim (f none) (fun s => f (if s = "" then none else some s)) =
      f (keptNode n).qualifiedClass := by
  simp only [storedClass?, keptNode]
  by_cases hk : n.kind = Tree.typeNameKind
  · rw [if_pos hk, if_pos hk, Option.elim_some]
    cases n.qualifiedClass with
    | none => rfl
    | some s => by_cases hs : s = "" <;> simp [Option.filter_some, hs]
  · rw [if_neg hk, if_neg hk, Option.elim_none]

theorem resolveNode_rawNode {table : StringTable} (hlt : table.size < 2 ^ 31) {n : Tree.Node}
    (h : ∀ s ∈ nodeTexts n, s ∈ table.strings.toList) :
    resolveNode table (rawNode table n) = .ok (keptNode n) := by
  have hget : ∀ s ∈ nodeTexts n, table.get? (table.indexOf s).1 = some s :=
    fun s hs => StringTable.get?_indexOf_of_mem hlt (h s hs)
  simp only [nodeTexts, List.mem_append] at hget
  let raw := rawNode table n
  have htext : resolveText table textKey (fun n s => { n with ownText := some s }) raw =
      .ok { raw with attrs := raw.attrs.erase textKey, ownText := storedText? n } :=
    resolveText_eq (get?_rawNode table n textKey) (fun s hs => hget s (.inl (.inl (.inl hs))))
      (by cases storedText? n <;> rfl)
  have hcomments : resolveText table commentsKey (fun n s => { n with comments := some s })
      { raw with attrs := raw.attrs.erase textKey, ownText := storedText? n } =
      .ok { raw with
        attrs := (raw.attrs.erase textKey).erase commentsKey
        ownText := storedText? n
        comments := n.comments } :=
    resolveText_eq (by rw [SortedMap.get?_erase]; exact get?_rawNode table n commentsKey)
      (fun s hs => hget s (.inl (.inl (.inr hs)))) (by cases n.comments <;> rfl)
  have hdirective : resolveText table directiveKey (fun n s => { n with directive := some s })
      { raw with
        attrs := (raw.attrs.erase textKey).erase commentsKey
        ownText := storedText? n
        comments := n.comments } =
      .ok { raw with
        attrs := ((raw.attrs.erase textKey).erase commentsKey).erase directiveKey
        ownText := storedText? n
        comments := n.comments
        directive := n.directive } :=
    resolveText_eq (by
        rw [SortedMap.get?_erase, SortedMap.get?_erase]
        exact get?_rawNode table n directiveKey)
      (fun s hs => hget s (.inl (.inr hs))) (by cases n.directive <;> rfl)
  have hclass : resolveText table classKey
      (fun n s => { n with qualifiedClass := if s = "" then none else some s })
      { raw with
        attrs := ((raw.attrs.erase textKey).erase commentsKey).erase directiveKey
        ownText := storedText? n
        comments := n.comments
        directive := n.directive } =
      .ok { raw with
        attrs := plainAttrs raw
        ownText := storedText? n
        comments := n.comments
        directive := n.directive
        qualifiedClass := (keptNode n).qualifiedClass } :=
    resolveText_eq (by
        rw [SortedMap.get?_erase, SortedMap.get?_erase, SortedMap.get?_erase]
        exact get?_rawNode table n classKey)
      (fun s hs => hget s (.inr hs)) (elim_storedClass? n fun c => { raw with
        attrs := plainAttrs raw
        ownText := storedText? n
        comments := n.comments
        directive := n.directive
        qualifiedClass := c })
  have hattrs : plainAttrs raw = plainAttrs n := SortedMap.ext_get? fun k => by
    simp only [raw, plainAttrs, SortedMap.get?_erase, get?_rawNode]
    split_ifs <;> rfl
  rw [hattrs] at hclass
  exact bind_eq_ok_iff.2 ⟨_, htext, bind_eq_ok_iff.2 ⟨_, hcomments,
    bind_eq_ok_iff.2 ⟨_, hdirective, hclass⟩⟩⟩

end AblAnalysis.Artifact
