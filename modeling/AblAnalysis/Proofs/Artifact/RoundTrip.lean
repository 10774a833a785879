import AblAnalysis.Project.Record
import AblAnalysis.Proofs.Artifact.Footprint
import AblAnalysis.Proofs.Artifact.Trees

/-!
Artifacts read back. What `write` stores of a unit, `load` reads: the same files, classes, tables and
symbols, and the tree with its nodes numbered in the order in which they were stored.
-/

namespace AblAnalysis.Artifact

open AblAnalysis.Tree (IsRenumbering)

/-- The texts that are stored for a unit. -/
def unitTexts (u : ParsedUnit) : List String :=
  u.tree.fileNames ++ [u.className.getD "", u.superName.getD ""] ++
    (Footprint.ofSymbols u.symbols).values.flatMap (fun t => t.name :: t.fields.values) ++
    (u.imports ++ u.exports).flatMap symbolTexts ++ treeTexts u.tree

/-- Whether a unit can be stored: nothing in it is taken for a mark that ends a list, and nothing is
too long or too many to be counted. -/
structure Storable (u : ParsedUnit) : Prop where
  grown : u.tree.Grown
  nodes : ∀ id n, u.tree.node? id = some n → Readable n
  kinds : ∀ s ∈ u.imports ++ u.exports, s.kind ≠ endMark
  fields : ∀ s ∈ u.symbols, ∀ use, s.databaseUse? = some use → use.field ≠ some ""
  texts : ∀ text ∈ unitTexts u, Fits text
  files : u.tree.fileNames.length < 2 ^ 31
  strings : ("" :: treeTexts u.tree).dedup.length < 2 ^ 31

/-- What is read of a unit whose tree is read as `tree`. -/
def keptContents (u : ParsedUnit) (tree : Tree) : Contents where
  depth := .stringsLoaded
  current := true
  fileNames := u.tree.fileNames
  className := u.className.filter (· ≠ "")
  superName := u.superName.filter (· ≠ "")
  tables := Footprint.ofSymbols u.symbols
  imports := u.imports.map keptSymbol
  exports := u.exports.map keptSymbol
  tree := some tree

/-- Whether contents can be stored together with a tree, and then read back. -/
structure Encodable (c : Contents) (t : Tree) : Prop where
  linked : t.Linked
  nodes : ∀ id n, t.node? id = some n → Readable n
  fileNames : t.fileNames = c.fileNames
  files : c.fileNames.length < 2 ^ 31
  names : ∀ name ∈ c.fileNames ++ [c.className.getD "", c.superName.getD ""], Fits name
  tables : c.tables.Legible
  kinds : ∀ s ∈ c.imports ++ c.exports, s.kind ≠ endMark
  symbols : ∀ s ∈ c.imports ++ c.exports, ∀ text ∈ symbolTexts s, Fits text
  texts : ∀ text ∈ treeTexts t, Fits text
  strings : ("" :: treeTexts t).dedup.length < 2 ^ 31

theorem Storable.encodable {u : ParsedUnit} (h : Storable u) :
    Encodable (.describe u) u.tree := by
  have hfit : ∀ text, text ∈ unitTexts u → Fits text := h.texts
  simp only [unitTexts, List.mem_append, List.mem_flatMap] at hfit
  have huses : ∀ use ∈ u.symbols.filterMap (·.databaseUse?), use.field ≠ some "" := by
    intro use huse
    obtain ⟨s, hs, hsu⟩ := List.mem_filterMap.1 huse
    exact h.fields s hs use hsu
  refine ⟨h.grown.linked, h.nodes, rfl, h.files, ?_, ?_, h.kinds, ?_, ?_, h.strings⟩
  · intro name hname
    exact hfit name (.inl (.inl (.inl (List.mem_append.1 hname))))
  · exact (Footprint.lists_ofSymbols u.symbols).legible huses fun t ht text htext =>
      hfit text (.inl (.inl (.inr ⟨t, ht, htext⟩)))
  · intro s hs text htext
    exact hfit text (.inl (.inr ⟨s, List.mem_append.1 hs, htext⟩))
  · intro text htext
    exact hfit text (.inr htext)

/-- What is read of stored contents when their tree is read as `tree`. -/
def Contents.kept (c : Contents) (tree : Tree) : Contents where
  depth := .stringsLoaded
  current := true
  fileNames := c.fileNames
  className := c.className.filter (· ≠ "")
  superName := c.superName.filter (· ≠ "")
  tables := c.tables
  imports := c.imports.map keptSymbol
  exports := c.exports.map keptSymbol
  tree := some tree

theorem nonEmpty?_getD (name : Option String) :
    nonEmpty? (name.getD "") = name.filter (· ≠ "") := by
  cases name with
  | none => rfl
  | some s => by_cases hs : s = "" <;> simp [nonEmpty?, Option.filter_some, hs]

/-! ### Segment by segment -/

section Segments

variable (rest : List UInt8) (fault : Option IoFailure) (c : Contents)

theorem readHeader_append {className superName : String} {a b : List UInt8}
    (ha : textBytes className = .ok a) (hb : textBytes superName = .ok b) :
    readHeader c ⟨a ++ (b ++ rest), fault⟩ =
      ({ c with className := nonEmpty? className, superName := nonEmpty? superName },
        .ok ⟨rest, fault⟩) := by
  rw [readHeader]
  simp only [Stream.text_append _ fault ha, Stream.text_append _ fault hb]

theorem readTables_append {f : Footprint} {bytes : List UInt8}
    (h : encodeTables f.values = .ok bytes) (hf : f.Legible) (hc : c.tables = {}) :
    readTables c ⟨bytes ++ rest, fault⟩ = ({ c with tables := f }, .ok ⟨rest, fault⟩) := by
  rw [readTables, decodeTables_encodeTables rest fault h (fun t ht => (hf.of_mem_values ht).keyed)
    (fun t ht => (hf.of_mem_values ht).named), hc, hf.insertAll_values]

theorem readImports_append {symbols : List Symbol} {bytes : List UInt8}
    (h : encodeSymbols symbols = .ok bytes) (hk : ∀ s ∈ symbols, s.kind ≠ endMark) :
    readImports c ⟨bytes ++ rest, fault⟩ =
      ({ c with imports := symbols.map keptSymbol }, .ok ⟨rest, fault⟩) := by
  rw [readImports, decodeSymbols_encodeSymbols rest fault h hk]

theorem readExports_append {symbols : List Symbol} {bytes : List UInt8}
    (h : encodeSymbols symbols = .ok bytes) (hk : ∀ s ∈ symbols, s.kind ≠ endMark) :
    readExports c ⟨bytes ++ rest, fault⟩ =
      ({ c with exports := symbols.map keptSymbol }, .ok ⟨rest, fault⟩) := by
  rw [readExports, decodeSymbols_encodeSymbols rest fault h hk]

theorem exists_readTree_append {t : Tree} (ht : t.Linked)
    (hr : ∀ id n, t.node? id = some n → Readable n) :
    ∃ raw, (∀ c, c.fileNames = t.fileNames → readTree c ⟨(encodeTree t).1 ++ rest, fault⟩ =
        ({ c with tree := some raw }, .ok ⟨rest, fault⟩)) ∧
      IsRenumbering (rawNode (encodeTree t).2) t raw := by
  obtain ⟨raw, hraw, hren⟩ := decodeTree_encodeTree rest fault ht hr
  refine ⟨{ raw with fileNames := t.fileNames }, fun c hc => ?_, hren⟩
  rw [readTree, hraw, hc]

theorem exists_readStrings_append {t raw : Tree} {bytes : List UInt8} (ht : t.Linked)
    (h : encodeStrings (encodeTree t).2 = .ok bytes)
    (hlt : ("" :: treeTexts t).dedup.length < 2 ^ 31)
    (hraw : IsRenumbering (rawNode (encodeTree t).2) t raw) :
    ∃ u, (∀ c, c.tree = some raw → readStrings none c ⟨bytes ++ rest, fault⟩ =
        ({ c with tree := some u }, .ok ⟨rest, fault⟩)) ∧
      IsRenumbering keptNode t u := by
  rw [← size_encodeTree ht] at hlt
  obtain ⟨u, hu, hren⟩ := exists_resolveTree hlt hraw fun id n hn s hs =>
    (mem_strings_encodeTree ht s).2 (List.mem_cons_of_mem _ ((mem_treeTexts t s).2 ⟨id, n, hn, hs⟩))
  refine ⟨u, fun c hc => ?_, hren⟩
  rw [readStrings, decodeStrings_encodeStrings rest fault h hlt]
  simp only [hc, hu]

end Segments

/-- The segment that is read next; the depth is then that of the segment. -/
theorem readSegments_cons {target depth : Depth}
    {segment : Contents → Stream → Contents × Except Error Stream}
    {segments : List (Depth × (Contents → Stream → Contents × Except Error Stream))}
    {c c' : Contents} {s s' : Stream} (hdepth : ¬ target < depth)
    (h : segment c s = (c', .ok s')) :
    readSegments target ((depth, segment) :: segments) c s =
      readSegments target segments { c' with depth } s' := by
  rw [readSegments, if_neg hdepth, h]

/-- The segment that is read last. -/
theorem readSegments_last (depth : Depth)
    (segment : Contents → Stream → Contents × Except Error Stream) (c : Contents) (s : Stream) :
    readSegments depth [(depth, segment)] c s =
      match segment c s with
      | (c, .error e) => (c, .error e)
      | (c, .ok s) => ({ c with depth }, .ok s) := by
  have hdepth : ¬ depth < depth := Nat.lt_irrefl _
  rw [readSegments, if_neg hdepth]
  rcases segment c s with ⟨c', e | rest⟩ <;> rfl

/-! ### The whole artifact -/

/-- The bytes of the segments of an artifact; the version and the tree are always stored. -/
structure Parts where
  files : List UInt8
  className : List UInt8
  superName : List UInt8
  tables : List UInt8
  imports : List UInt8
  exports : List UInt8
  strings : List UInt8

/-- Whether every segment is that of the contents. -/
structure Parts.Encode (p : Parts) (c : Contents) (t : Tree) : Prop where
  files : encodeFiles 0 c.fileNames = .ok p.files
  className : textBytes (c.className.getD "") = .ok p.className
  superName : textBytes (c.superName.getD "") = .ok p.superName
  tables : encodeTables c.tables.values = .ok p.tables
  imports : encodeSymbols c.imports = .ok p.imports
  exports : encodeSymbols c.exports = .ok p.exports
  strings : encodeStrings (encodeTree t).2 = .ok p.strings

/-- The segments in order. -/
def Parts.bytes (p : Parts) (t : Tree) : List UInt8 :=
  int32Bytes layoutVersion ++ (p.files ++ (p.className ++ (p.superName ++ (p.tables ++ (p.imports ++
    (p.exports ++ ((encodeTree t).1 ++ (p.strings ++ []))))))))

theorem Parts.Encode.encode_eq {p : Parts} {c : Contents} {t : Tree} (h : p.Encode c t) :
    c.encode t = .ok (p.bytes t) := by
  rw [Contents.encode, h.files, h.className, h.superName, h.tables, h.imports, h.exports, h.strings,
    Parts.bytes, List.append_nil]
  simp only [← List.append_assoc]
  rfl

theorem Encodable.exists_parts {c : Contents} {t : Tree} (h : Encodable c t) :
    ∃ p : Parts, p.Encode c t := by
  have hnames := h.names
  simp only [List.mem_append] at hnames
  obtain ⟨files, hfiles⟩ : ∃ bytes, encodeFiles 0 c.fileNames = .ok bytes :=
    exists_encodeFiles (fun name hn => hnames name (.inl hn)) 0
  obtain ⟨className, hclass⟩ := exists_textBytes (hnames (c.className.getD "") (.inr (by simp)))
  obtain ⟨superName, hsuper⟩ := exists_textBytes (hnames (c.superName.getD "") (.inr (by simp)))
  obtain ⟨tables, htables⟩ : ∃ bytes, encodeTables c.tables.values = .ok bytes :=
    exists_encodeTables fun u hu => (h.tables.of_mem_values hu).texts
  obtain ⟨imports, himports⟩ : ∃ bytes, encodeSymbols c.imports = .ok bytes :=
    exists_encodeSymbols fun s hs => h.symbols s (List.mem_append_left _ hs)
  obtain ⟨exports, hexports⟩ : ∃ bytes, encodeSymbols c.exports = .ok bytes :=
    exists_encodeSymbols fun s hs => h.symbols s (List.mem_append_right _ hs)
  have hstrings : ∀ text ∈ (encodeTree t).2.strings.toList, Fits text := by
    intro text htext
    rcases List.mem_cons.1 ((mem_strings_encodeTree h.linked text).1 htext) with rfl | htext
    · exact fits_empty
    · exact h.texts text htext
  obtain ⟨texts, htexts⟩ := exists_encodeTexts hstrings
  exact ⟨⟨files, className, superName, tables, imports, exports, _⟩, hfiles, hclass, hsuper,
    htables, himports, hexports, bind_eq_ok_iff.2 ⟨texts, htexts, rfl⟩⟩

theorem Storable.exists_parts {u : ParsedUnit} (h : Storable u) :
    ∃ p : Parts, p.Encode (.describe u) u.tree :=
  h.encodable.exists_parts

/-- The segments before the texts, in order, and what follows them. -/
def Parts.front (p : Parts) (t : Tree) (rest : List UInt8) : List UInt8 :=
  int32Bytes layoutVersion ++ (p.files ++ (p.className ++ (p.superName ++ (p.tables ++ (p.imports ++
    (p.exports ++ ((encodeTree t).1 ++ rest)))))))

/-- The segments between the files and the texts, in order, and what follows them. -/
def Parts.middle (p : Parts) (t : Tree) (rest : List UInt8) : List UInt8 :=
  p.className ++ (p.superName ++ (p.tables ++ (p.imports ++ (p.exports ++
    ((encodeTree t).1 ++ rest)))))

/-- Before its texts, an artifact gives all but them. -/
theorem Parts.Encode.exists_readSegments {p : Parts} {c : Contents} {t : Tree} (h : Encodable c t)
    (hp : p.Encode c t) (rest : List UInt8) :
    ∃ raw, IsRenumbering (rawNode (encodeTree t).2) t raw ∧
      readSegments .stringsLoaded (laterSegments none)
          { fileNames := c.fileNames, current := true, depth := .filesLoaded }
          ⟨p.middle t rest, none⟩ =
        match readStrings none { c.kept raw with depth := .treeLoaded } ⟨rest, none⟩ with
        | (c, .error e) => (c, .error e)
        | (c, .ok s) => ({ c with depth := .stringsLoaded }, .ok s) := by
  have hkinds : ∀ s ∈ c.imports, s.kind ≠ endMark :=
    fun s hs => h.kinds s (List.mem_append_left _ hs)
  have hkinds' : ∀ s ∈ c.exports, s.kind ≠ endMark :=
    fun s hs => h.kinds s (List.mem_append_right _ hs)
  obtain ⟨raw, hraw, hren⟩ := exists_readTree_append rest none h.linked h.nodes
  refine ⟨raw, hren, ?_⟩
  rw [laterSegments, Parts.middle,
    readSegments_cons (by decide) (readHeader_append _ none _ hp.className hp.superName),
    readSegments_cons (by decide) (readTables_append _ none _ hp.tables h.tables (by rfl)),
    readSegments_cons (by decide) (readImports_append _ none _ hp.imports hkinds),
    readSegments_cons (by decide) (readExports_append _ none _ hp.exports hkinds'),
    readSegments_cons (by decide) (hraw _ (by exact h.fileNames.symm))]
  simp only [nonEmpty?_getD, readSegments_last, Contents.kept]

theorem Parts.Encode.decodeFiles_append {p : Parts} {c : Contents} {t : Tree} (h : Encodable c t)
    (hp : p.Encode c t) (rest : List UInt8) :
    decodeFiles ⟨p.files ++ rest, none⟩ = (c.fileNames, .ok ⟨rest, none⟩) := by
  have hfiles : 0 + c.fileNames.length ≤ 2 ^ 31 := by
    have := h.files
    omega
  exact decodeFiles_encodeFiles rest none hp.files hfiles

theorem Parts.Encode.exists_decode_front {p : Parts} {c : Contents} {t : Tree} (h : Encodable c t)
    (hp : p.Encode c t) (rest : List UInt8) :
    ∃ raw, IsRenumbering (rawNode (encodeTree t).2) t raw ∧
      Contents.decode .stringsLoaded ⟨p.front t rest, none⟩ =
        match readStrings none { c.kept raw with depth := .treeLoaded } ⟨rest, none⟩ with
        | (c, .error e) => (c, .error (.unreadable e))
        | (c, .ok _) => ({ c with depth := .stringsLoaded }, .ok ()) := by
  obtain ⟨raw, hren, hread⟩ := hp.exists_readSegments h rest
  have hfront : p.front t rest = int32Bytes layoutVersion ++ (p.files ++ p.middle t rest) := rfl
  refine ⟨raw, hren, ?_⟩
  rw [Contents.decode, Contents.read, hfront, readFiles_empty]
  simp only [Stream.int32_append, if_true, hp.decodeFiles_append h, Except.mapError, readRest, hread]
  generalize readStrings none _ _ = answer
  rcases answer with ⟨c, e | rest⟩ <;> rfl

/-- What is stored is read back. -/
theorem Parts.Encode.exists_decode_kept {p : Parts} {c : Contents} {t : Tree} (h : Encodable c t)
    (hp : p.Encode c t) :
    ∃ tree, Contents.decode .stringsLoaded ⟨p.bytes t, none⟩ = (c.kept tree, .ok ()) ∧
      IsRenumbering keptNode t tree := by
  obtain ⟨raw, hren, hdecode⟩ := hp.exists_decode_front h (p.strings ++ [])
  obtain ⟨tree, htree, hren⟩ := exists_readStrings_append [] none h.linked hp.strings h.strings hren
  refine ⟨tree, hdecode.trans ?_, hren⟩
  rw [htree _ (by rfl)]
  rfl

/-- What is stored of a unit is read back. -/
theorem Parts.Encode.exists_decode {p : Parts} {u : ParsedUnit} (h : Storable u)
    (hp : p.Encode (.describe u) u.tree) :
    ∃ tree, Contents.decode .stringsLoaded ⟨p.bytes u.tree, none⟩ = (keptContents u tree, .ok ()) ∧
      IsRenumbering keptNode u.tree tree :=
  hp.exists_decode_kept h.encodable

theorem loadTo_eq_of_decode {m : Type → Type} [Monad m] [LawfulMonad m] (files : Files m)
    (session : Session) {r : Record} {bytes : List UInt8} {target : Depth} {c : Contents}
    {result : Except LoadFailure Unit} (hr : r.blob = some bytes)
    (h : Contents.decode target ⟨bytes, none⟩ = (c, result)) :
    r.loadTo files session target = pure (result,
      { r with checked := r.checked || decide (Depth.headerLoaded ≤ target), contents := c }) := by
  have hread : r.contents.refresh.read target ⟨bytes, none⟩ = (c, result) := h
  rw [Record.loadTo, hr]
  simp only [pure_bind, hread]

theorem load_eq_of_decode {m : Type → Type} [Monad m] [LawfulMonad m] (files : Files m)
    (session : Session) {r : Record} {bytes : List UInt8} {c : Contents}
    {result : Except LoadFailure Unit} (hr : r.blob = some bytes)
    (h : Contents.decode .stringsLoaded ⟨bytes, none⟩ = (c, result)) :
    r.load files session = pure (result, { r with checked := true, contents := c }) := by
  have hchecked : decide (Depth.headerLoaded ≤ Depth.stringsLoaded) = true := by decide
  rw [Record.load, loadTo_eq_of_decode files session hr h, hchecked, Bool.or_true]

/-- A unit that can be stored is read back from its artifact: its files and classes, an empty name
standing for none, its footprint, which lists the database tables and fields of its symbols, its
symbols, and its tree, renumbered in the order of the walk, each node with its text. -/
theorem exists_encode_load {u : ParsedUnit} (h : Storable u) :
    ∃ bytes tree, (Contents.describe u).encode u.tree = .ok bytes ∧
      (∀ {m : Type → Type} [Monad m] [LawfulMonad m] (files : Files m) (session : Session)
        (r : Record), r.blob = some bytes → r.load files session =
          pure (.ok (), { r with checked := true, contents := keptContents u tree })) ∧
      (Footprint.ofSymbols u.symbols).Lists (u.symbols.filterMap (·.databaseUse?)) ∧
      IsRenumbering keptNode u.tree tree ∧
      ∀ k id, (u.tree.descendants 0)[k]? = some id →
        (tree.node? k).map (·.text) = (u.tree.node? id).map (·.text) := by
  obtain ⟨p, hp⟩ := h.exists_parts
  obtain ⟨tree, hdecode, hren⟩ := hp.exists_decode h
  refine ⟨p.bytes u.tree, tree, hp.encode_eq, fun files session r hr => ?_,
    Footprint.lists_ofSymbols u.symbols, hren, fun k id hid => ?_⟩
  · exact load_eq_of_decode files session hr hdecode
  · rw [(hren.nodes k id hid).node, Option.map_map]
    exact congrArg (fun f => Option.map f _) (funext text_keptNode)

/-- A unit of a class with a database buffer, a work table and shared symbols. -/
def sampleUnit : ParsedUnit where
  tree :=
    { ((((Tree.single { kind := 4, comments := some "/* " }).addChild 0
        { kind := 10, ownText := some "Item", qualifiedClass := some "app.Item" }).addChild 0
        { kind := 15, ownText := some ".", attrs := SortedMap.insert {} 1400 1 }).addChild 1
        { kind := 12, ownText := some "x", directive := some "x" }) with
      fileNames := ["src/Item.cls", ""] }
  className := some "app.Item"
  superName := some ""
  symbols := [
    { symbol := { kind := 100, name := "cust" }
      schemaUse := some { table := { name := "Customer", database := "Sports" }
                          field := some "Name" } },
    { symbol := { kind := 100, name := "work" }
      schemaUse := some { table := { name := "Work", store := .work } } },
    { symbol := { kind := 101, name := "item", dataType := some .class_ }, sharing := .imported },
    { symbol := { kind := 101, name := "count", dataType := some .integer, className := some "Int" }
      sharing := .exported }]

theorem storable_sampleUnit : Storable sampleUnit where
  grown := ((Tree.Grown.single _).addChild 0 _ (by decide) |>.addChild 0 _ (by decide)
    |>.addChild 1 _ (by decide)).named _
  nodes id n h := by
    match id, h with
    | 0, h | 1, h | 2, h | 3, h =>
      obtain rfl := Option.some.inj h
      exact ⟨by decide, by decide⟩
  kinds := by decide
  fields := by decide
  texts := by decide +kernel
  files := by decide
  strings := by decide +kernel

theorem exists_encode_load_sampleUnit : Storable sampleUnit ∧
    ∃ bytes tree, (Contents.describe sampleUnit).encode sampleUnit.tree = .ok bytes ∧
      (∀ {m : Type → Type} [Monad m] [LawfulMonad m] (files : Files m) (session : Session)
        (r : Record), r.blob = some bytes → r.load files session =
          pure (.ok (), { r with checked := true, contents := keptContents sampleUnit tree })) ∧
      (Footprint.ofSymbols sampleUnit.symbols).keys = ["sports.customer"] ∧
      IsRenumbering keptNode sampleUnit.tree tree ∧ sampleUnit.tree.descendants 0 = [0, 1, 3, 2] := by
  obtain ⟨bytes, tree, hbytes, hload, -, hren, -⟩ := exists_encode_load storable_sampleUnit
  exact ⟨storable_sampleUnit, bytes, tree, hbytes, hload, by decide +kernel, hren, by decide +kernel⟩

end AblAnalysis.Artifact
