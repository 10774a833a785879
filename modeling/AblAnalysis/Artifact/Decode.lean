import AblAnalysis.Artifact.Encode

/-!
Reading artifacts. Each segment is read from where the one before it ended, into contents that may know
something already, and reading stops after the segment that was asked for. When a segment cannot be read, what
was read before it stays; of the files, the header and the tables also those that come before the fault.
-/

namespace AblAnalysis.Artifact

/-! ### Files, tables and symbols -/

/-- File names up to the end mark, and what follows them. The indexes carry no information. -/
def decodeFiles (s : Stream) : List String × Except Error Stream :=
  match _hi : s.int32 with
  | (.error e, _) => ([], .error e)
  | (.ok index, s₁) =>
    match _hn : s₁.text with
    | (.error e, _) => ([], .error e)
    | (.ok name, s₂) =>
      if index = endMark then ([], .ok s₂)
      else
        let (names, result) := decodeFiles s₂
        (name :: names, result)
termination_by s.bytes.length
decreasing_by
  have := Stream.length_of_int32_ok _hi
  have := Stream.length_of_text_ok _hn
  omega

/-- Field names up to an empty one, added to `fields`. -/
def decodeFields (s : Stream) (fields : SortedMap String String) :
    Except Error (SortedMap String String × Stream) :=
  match _hn : s.text with
  | (.error e, _) => .error e
  | (.ok name, rest) =>
    if name = "" then .ok (fields, rest)
    else decodeFields rest (fields.insert (Text.lowercase name) name)
termination_by s.bytes.length
decreasing_by
  have := Stream.length_of_text_ok _hn
  omega

theorem length_of_decodeFields_ok {s rest : Stream} {fields result : SortedMap String String}
    (h : decodeFields s fields = .ok (result, rest)) : rest.bytes.length < s.bytes.length := by
  fun_induction decodeFields s fields with
  | case1 => simp at h
  | case2 s fields rest' ht =>
    obtain ⟨-, rfl⟩ := Prod.mk.inj (Except.ok.inj h)
    have := Stream.length_of_text_ok ht
    omega
  | case3 s fields name rest' ht hn ih =>
    have := Stream.length_of_text_ok ht
    have := ih h
    omega

/-- Tables up to an empty name, added to `tables`, and what follows them. -/
def decodeTables (s : Stream) (tables : Footprint) : Footprint × Except Error Stream :=
  match _hn : s.text with
  | (.error e, _) => (tables, .error e)
  | (.ok name, rest) =>
    if name = "" then (tables, .ok rest)
    else
      match _hf : decodeFields rest {} with
      | .error e => (tables, .error e)
      | .ok (fields, rest') =>
        decodeTables rest' (tables.insert (Text.lowercase name) { name, fields })
termination_by s.bytes.length
decreasing_by
  have := Stream.length_of_text_ok _hn
  have := length_of_decodeFields_ok _hf
  omega

/-- The data type with a stored code, where 0 stands for none. -/
def decodeDataType (code : Int32) : Except Error (Option DataType) :=
  if code = 0 then .ok none
  else
    match DataType.ofCode? code with
    | some dataType => .ok (some dataType)
    | none => .error (.corruptArtifact (.unknownDataType code))

/-- The class name that follows a symbol of a class type. -/
def decodeClassName (s : Stream) (dataType : Option DataType) :
    Except Error (Option String × Stream) :=
  if dataType = some .class_ then
    match s.text with
    | (.error e, _) => .error e
    | (.ok name, rest) => .ok (some name, rest)
  else .ok (none, s)

theorem length_of_decodeClassName_ok {s rest : Stream} {dataType : Option DataType}
    {name : Option String} (h : decodeClassName s dataType = .ok (name, rest)) :
    rest.bytes.length ≤ s.bytes.length := by
  unfold decodeClassName at h
  split at h
  · split at h
    · simp at h
    · rename_i ht
      obtain ⟨-, rfl⟩ := Prod.mk.inj (Except.ok.inj h)
      have := Stream.length_of_text_ok ht
      omega
  · obtain ⟨-, rfl⟩ := Prod.mk.inj (Except.ok.inj h)
    exact Nat.le_refl _

/-- Symbols up to the end mark. -/
def decodeSymbols (s : Stream) : Except Error (List Symbol × Stream) :=
  match _hk : s.int32 with
  | (.error e, _) => .error e
  | (.ok kind, s₁) =>
    match _hn : s₁.text with
    | (.error e, _) => .error e
    | (.ok name, s₂) =>
      if kind = endMark then .ok ([], s₂)
      else
        match _hc : s₂.int32 with
        | (.error e, _) => .error e
        | (.ok code, s₃) =>
          match decodeDataType code with
          | .error e => .error e
          | .ok dataType =>
            match _hm : decodeClassName s₃ dataType with
            | .error e => .error e
            | .ok (className, s₄) =>
              match decodeSymbols s₄ with
              | .error e => .error e
              | .ok (symbols, rest) => .ok (⟨kind, name, dataType, className⟩ :: symbols, rest)
termination_by s.bytes.length
decreasing_by
  have := Stream.length_of_int32_ok _hk
  have := Stream.length_of_text_ok _hn
  have := Stream.length_of_int32_ok _hc
  have := length_of_decodeClassName_ok _hm
  omega

/-! ### The tree -/

/-- Attributes up to the end mark, set on `n` in order. -/
def decodeAttrs (s : Stream) (n : Tree.Node) : Except Error (Tree.Node × Stream) :=
  match _hk : s.int32 with
  | (.error e, _) => .error e
  | (.ok key, s₁) =>
    match _hv : s₁.int32 with
    | (.error e, _) => .error e
    | (.ok value, s₂) =>
      if key = endMark then .ok (n, s₂) else decodeAttrs s₂ (n.setAttr key value)
termination_by s.bytes.length
decreasing_by
  have := Stream.length_of_int32_ok _hk
  have := Stream.length_of_int32_ok _hv
  omega

theorem length_of_decodeAttrs_ok {s rest : Stream} {n result : Tree.Node}
    (h : decodeAttrs s n = .ok (result, rest)) : rest.bytes.length < s.bytes.length := by
  fun_induction decodeAttrs s n with
  | case1 => simp at h
  | case2 => simp at h
  | case3 s n s₁ value s₂ hv hk =>
    obtain ⟨-, rfl⟩ := Prod.mk.inj (Except.ok.inj h)
    have := Stream.length_of_int32_ok hk
    have := Stream.length_of_int32_ok hv
    omega
  | case4 s n key s₁ hk value s₂ hv he ih =>
    have := Stream.length_of_int32_ok hk
    have := Stream.length_of_int32_ok hv
    have := ih h
    omega

/-- A node whose subtype has been read already. -/
def decodeNode (s : Stream) (subtype : Int32) : Except Error (Tree.Node × Stream) :=
  match s.int32 with
  | (.error e, _) => .error e
  | (.ok kind, s₁) =>
    match s₁.int16 with
    | (.error e, _) => .error e
    | (.ok fileIndex, s₂) =>
      match s₂.int32 with
      | (.error e, _) => .error e
      | (.ok line, s₃) =>
        match s₃.int16 with
        | (.error e, _) => .error e
        | (.ok column, s₄) =>
          match s₄.int32 with
          | (.error e, _) => .error e
          | (.ok sourceIndex, s₅) =>
            decodeAttrs s₅ { kind, subtype, fileIndex, line, column, sourceIndex }

theorem length_of_decodeNode_ok {s rest : Stream} {subtype : Int32} {n : Tree.Node}
    (h : decodeNode s subtype = .ok (n, rest)) : rest.bytes.length < s.bytes.length := by
  unfold decodeNode at h
  split at h
  · simp at h
  rename_i h₁
  split at h
  · simp at h
  rename_i h₂
  split at h
  · simp at h
  rename_i h₃
  split at h
  · simp at h
  rename_i h₄
  split at h
  · simp at h
  rename_i h₅
  have := Stream.length_of_int32_ok h₁
  have := Stream.length_of_int16_ok h₂
  have := Stream.length_of_int32_ok h₃
  have := Stream.length_of_int16_ok h₄
  have := Stream.length_of_int32_ok h₅
  have := length_of_decodeAttrs_ok h
  omega

/-- The rest of a tree. The list holds the nodes that may still get children, the innermost first, and
`none` for the place beside the root. -/
def decodeNodes (s : Stream) (t : Tree) : List (Option Nat) → Except Error (Tree × Stream)
  | [] => .ok (t, s)
  | place :: outer =>
    match _hs : s.int32 with
    | (.error e, _) => .error e
    | (.ok subtype, s₁) =>
      if subtype = endMark then decodeNodes s₁ t outer
      else
        match place with
        | none => .error (.corruptArtifact .rootSibling)
        | some parent =>
          match _hn : decodeNode s₁ subtype with
          | .error e => .error e
          | .ok (node, s₂) =>
            let id := t.size
            decodeNodes s₂ (t.addChild parent node) (some id :: some parent :: outer)
termination_by s.bytes.length
decreasing_by
  · have := Stream.length_of_int32_ok _hs
    omega
  · have := Stream.length_of_int32_ok _hs
    have := length_of_decodeNode_ok _hn
    omega

/-- A tree whose texts are still positions in the string table. -/
def decodeTree (s : Stream) : Except Error (Tree × Stream) :=
  match s.int32 with
  | (.error e, _) => .error e
  | (.ok subtype, s₁) =>
    if subtype = endMark then .error (.corruptArtifact .emptyTree)
    else
      match decodeNode s₁ subtype with
      | .error e => .error e
      | .ok (root, s₂) => decodeNodes s₂ (Tree.single root) [some 0, none]

/-! ### Texts -/

/-- A number of texts. -/
def decodeTexts : Nat → Stream → Except Error (List String × Stream)
  | 0, s => .ok ([], s)
  | n + 1, s =>
    match s.text with
    | (.error e, _) => .error e
    | (.ok value, s₁) =>
      match decodeTexts n s₁ with
      | .error e => .error e
      | .ok (values, rest) => .ok (value :: values, rest)

/-- The string table. -/
def decodeStrings (s : Stream) : Except Error (StringTable × Stream) :=
  match s.int32 with
  | (.error e, _) => .error e
  | (.ok count, s₁) =>
    if count < 0 then .error (.corruptArtifact (.stringCount count))
    else (decodeTexts count.toInt.toNat s₁).map (fun r => (StringTable.ofStrings r.1, r.2))

/-- Replaces an attribute that is a position by the text there. -/
def resolveText (table : StringTable) (key : Int32) (set : Tree.Node → String → Tree.Node)
    (n : Tree.Node) : Except Error Tree.Node :=
  match n.attrs.get? key with
  | none => .ok n
  | some index =>
    match table.get? index with
    | some text => .ok (set { n with attrs := n.attrs.erase key } text)
    | none => .error (.corruptArtifact (.stringIndex index))

/-- Replaces the positions of a node by their texts. An empty class stands for none. -/
def resolveNode (table : StringTable) (n : Tree.Node) : Except Error Tree.Node := do
  let n ← resolveText table Tree.textKey (fun n s => { n with ownText := some s }) n
  let n ← resolveText table Tree.commentsKey (fun n s => { n with comments := some s }) n
  let n ← resolveText table Tree.directiveKey (fun n s => { n with directive := some s }) n
  resolveText table Tree.classKey
    (fun n s => { n with qualifiedClass := if s = "" then none else some s }) n

/-- Replaces the positions in a list of nodes, in order. -/
def resolveSlots (table : StringTable) : List Tree.Slot → Except Error (List Tree.Slot)
  | [] => .ok []
  | slot :: rest => do
    let node ← resolveNode table slot.node
    return { slot with node } :: (← resolveSlots table rest)

/-- Replaces the positions in a tree by their texts. -/
def resolveTree (table : StringTable) (t : Tree) : Except Error Tree := do
  return { t with slots := (← resolveSlots table t.slots.toList).toArray }

/-! ### Segments -/

/-- A text that stands for nothing when it is empty. -/
def nonEmpty? (s : String) : Option String :=
  if s = "" then none else some s

/-- Reads the class and its superclass. -/
def readHeader (c : Contents) (s : Stream) : Contents × Except Error Stream :=
  match s.text with
  | (.error e, _) => (c, .error e)
  | (.ok className, s₁) =>
    let c := { c with className := nonEmpty? className }
    match s₁.text with
    | (.error e, _) => (c, .error e)
    | (.ok superName, s₂) => ({ c with superName := nonEmpty? superName }, .ok s₂)

/-- Reads the tables. -/
def readTables (c : Contents) (s : Stream) : Contents × Except Error Stream :=
  let (tables, result) := decodeTables s c.tables
  ({ c with tables }, result)

/-- Reads the imported symbols. -/
def readImports (c : Contents) (s : Stream) : Contents × Except Error Stream :=
  match decodeSymbols s with
  | .error e => (c, .error e)
  | .ok (imports, rest) => ({ c with imports }, .ok rest)

/-- Reads the exported symbols. -/
def readExports (c : Contents) (s : Stream) : Contents × Except Error Stream :=
  match decodeSymbols s with
  | .error e => (c, .error e)
  | .ok (exports, rest) => ({ c with exports }, .ok rest)

/-- Reads the tree without its texts. -/
def readTree (c : Contents) (s : Stream) : Contents × Except Error Stream :=
  match decodeTree s with
  | .error e => (c, .error e)
  | .ok (tree, rest) => ({ c with tree := some { tree with fileNames := c.fileNames } }, .ok rest)

/-- Reads the texts into the tree. A tree whose texts cannot be read is given up, and `old` stays in its
place. -/
def readStrings (old : Option Tree) (c : Contents) (s : Stream) : Contents × Except Error Stream :=
  match decodeStrings s with
  | .error e => ({ c with tree := old }, .error e)
  | .ok (table, rest) =>
    match c.tree with
    | none => (c, .ok rest)
    | some tree =>
      match resolveTree table tree with
      | .error e => ({ c with tree := old }, .error e)
      | .ok tree => ({ c with tree := some tree }, .ok rest)

/-- The segments after the files, each with the depth reached when it has been read. Before them `old` is the
tree. -/
def laterSegments (old : Option Tree) :
    List (Depth × (Contents → Stream → Contents × Except Error Stream)) :=
  [(.headerLoaded, readHeader), (.schemaLoaded, readTables), (.importsLoaded, readImports),
    (.exportsLoaded, readExports), (.treeLoaded, readTree), (.stringsLoaded, readStrings old)]

/-- Reads segments as far as `target`. -/
def readSegments (target : Depth) :
    List (Depth × (Contents → Stream → Contents × Except Error Stream)) →
      Contents → Stream → Contents × Except Error Stream
  | [], c, s => (c, .ok s)
  | (depth, segment) :: rest, c, s =>
    if target < depth then (c, .ok s)
    else
      match segment c s with
      | (c, .error e) => (c, .error e)
      | (c, .ok s) => readSegments target rest { c with depth } s

/-- Reads the version and the files, which follow those that are known; the depth stays as it is. -/
def readFiles (c : Contents) (s : Stream) : Contents × Except LoadFailure Stream :=
  match s.int32 with
  | (.error e, _) => (c, .error (.unreadable e))
  | (.ok version, s₁) =>
    if version = layoutVersion then
      let (fileNames, result) := decodeFiles s₁
      ({ c with fileNames := c.fileNames ++ fileNames }, result.mapError .unreadable)
    else (c, .error (.versionMismatch version))

/-- Reads the segments after the files as far as `target`, once the files are known to be current. -/
def readRest (target : Depth) (c : Contents) (s : Stream) : Contents × Except LoadFailure Unit :=
  let (c, result) :=
    readSegments target (laterSegments c.tree) { c with current := true, depth := .filesLoaded } s
  (c, (result.mapError .unreadable).map (fun _ => ()))

/-- Reads an artifact as far as `target` without regard to files. -/
def Contents.read (c : Contents) (target : Depth) (s : Stream) : Contents × Except LoadFailure Unit :=
  match readFiles c s with
  | (c, .error e) => (c, .error e)
  | (c, .ok rest) => readRest target c rest

/-- What an artifact says as far as `target`, without regard to files. -/
def Contents.decode (target : Depth) (s : Stream) : Contents × Except LoadFailure Unit :=
  ({} : Contents).read target s

end AblAnalysis.Artifact
