import AblAnalysis.Proofs.Artifact.Readers
import AblAnalysis.Proofs.Artifact.Reached
import AblAnalysis.Storage.Disk

/-!
What can be read of an artifact. Whatever bytes are accepted, the contents are legible: they hold
nothing that could not be stored again, and the tree is a proper one (`Contents.Legible`). Each segment
keeps that, so a reading as far as any depth does (`reads_body`).
-/

namespace AblAnalysis.Artifact

open Reader
open AblAnalysis.Tree (textKey commentsKey directiveKey classKey)

/-! ### Nodes with their texts -/

/-- Whether a text is one of a node. -/
def Mentions (n : Tree.Node) (s : String) : Prop :=
  n.ownText = some s ∨ n.comments = some s ∨ n.directive = some s ∨ n.qualifiedClass = some s

/-- What is known of a node while its texts are filled in: they come from the table, and the attributes
under `keys` are gone. -/
structure Resolved (table : StringTable) (keys : List Int32) (n : Tree.Node) : Prop where
  subtype : n.subtype ≠ endMark
  unmarked : endMark ∉ n.attrs.keys
  erased : ∀ key ∈ keys, n.attrs.get? key = none
  texts : ∀ s, Mentions n s → s ∈ table.strings.toList
  named : n.qualifiedClass ≠ some ""

variable {table : StringTable} {keys : List Int32} {n m : Tree.Node}

theorem Bare.resolved (h : Bare n) (table : StringTable) : Resolved table [] n where
  subtype := h.readable.subtype
  unmarked := h.readable.keys
  erased key hkey := absurd hkey List.not_mem_nil
  texts s hs := by
    obtain ⟨htext, hcomments, hdirective, hclass⟩ := h.texts
    simp [Mentions, htext, hcomments, hdirective, hclass] at hs
  named := by
    obtain ⟨-, -, -, hclass⟩ := h.texts
    simp [hclass]

theorem Resolved.readable (h : Resolved table keys n) : Readable n :=
  ⟨h.subtype, h.unmarked⟩

theorem Resolved.erase (h : Resolved table keys n) (key : Int32) :
    Resolved table (key :: keys) { n with attrs := n.attrs.erase key } where
  subtype := h.subtype
  unmarked := by
    intro hmem
    obtain ⟨e, he, hend⟩ := List.mem_map.1 hmem
    exact h.unmarked (List.mem_map.2 ⟨e, (List.mem_filter.1 he).1, hend⟩)
  erased k hk := by
    rw [SortedMap.get?_erase]
    by_cases heq : k = key
    · rw [if_pos heq]
    · rw [if_neg heq]
      exact h.erased k ((List.mem_cons.1 hk).resolve_left heq)
  texts := h.texts
  named := h.named

/-- A text is filled in. -/
theorem Resolved.fill (h : Resolved table keys n) {s : String} (hs : s ∈ table.strings.toList)
    (hsubtype : m.subtype = n.subtype) (hattrs : m.attrs = n.attrs)
    (htexts : ∀ t, Mentions m t → t = s ∨ Mentions n t) (hnamed : m.qualifiedClass ≠ some "") :
    Resolved table keys m where
  subtype := hsubtype ▸ h.subtype
  unmarked := hattrs ▸ h.unmarked
  erased := hattrs ▸ h.erased
  texts t ht := by
    rcases htexts t ht with rfl | ht
    · exact hs
    · exact h.texts t ht
  named := hnamed

/-- Filling in one text erases its attribute and adds nothing but a text of the table. -/
theorem Resolved.resolveText (h : Resolved table keys n) {key : Int32}
    {set : Tree.Node → String → Tree.Node}
    (hset : ∀ keys n s, Resolved table keys n → s ∈ table.strings.toList →
      Resolved table keys (set n s))
    (hm : resolveText table key set n = .ok m) : Resolved table (key :: keys) m := by
  simp only [Artifact.resolveText] at hm
  cases hget : n.attrs.get? key with
  | none =>
    simp only [hget] at hm
    obtain rfl := Except.ok.inj hm
    refine ⟨h.subtype, h.unmarked, fun k hk => ?_, h.texts, h.named⟩
    rcases List.mem_cons.1 hk with rfl | hk
    · exact hget
    · exact h.erased k hk
  | some index =>
    simp only [hget] at hm
    cases htext : table.get? index with
    | none =>
      rw [htext] at hm
      exact absurd hm (by simp)
    | some text =>
      rw [htext] at hm
      obtain rfl := Except.ok.inj hm
      have hmem : text ∈ table.strings.toList := by
        rw [StringTable.get?] at htext
        split at htext
        · exact absurd htext (by simp)
        · exact StringTable.mem_iff_getElem?.2 ⟨_, htext⟩
      exact hset _ _ text (h.erase key) hmem

/-- The keys of the attributes that refer to texts, the last one to be filled in first. -/
def textKeys : List Int32 :=
  [classKey, directiveKey, commentsKey, textKey]

theorem Bare.resolveNode (h : Bare n) (hm : resolveNode table n = .ok m) :
    Resolved table textKeys m := by
  obtain ⟨n₁, h₁, hm⟩ := bind_eq_ok_iff.1 hm
  obtain ⟨n₂, h₂, hm⟩ := bind_eq_ok_iff.1 hm
  obtain ⟨n₃, h₃, h₄⟩ := bind_eq_ok_iff.1 hm
  have htext : Resolved table [textKey] n₁ := by
    refine (h.resolved table).resolveText (fun keys n s hn hs => ?_) h₁
    exact hn.fill hs rfl rfl (by rintro t (ht | ht | ht | ht) <;> simp_all [Mentions]) hn.named
  have hcomments : Resolved table [commentsKey, textKey] n₂ := by
    refine htext.resolveText (fun keys n s hn hs => ?_) h₂
    exact hn.fill hs rfl rfl (by rintro t (ht | ht | ht | ht) <;> simp_all [Mentions]) hn.named
  have hdirective : Resolved table [directiveKey, commentsKey, textKey] n₃ := by
    refine hcomments.resolveText (fun keys n s hn hs => ?_) h₃
    exact hn.fill hs rfl rfl (by rintro t (ht | ht | ht | ht) <;> simp_all [Mentions]) hn.named
  refine hdirective.resolveText (fun keys n s hn hs => ?_) h₄
  -- an empty class stands for none
  by_cases hempty : s = ""
  · refine hn.fill hs rfl rfl ?_ (by simp [hempty])
    rintro t (ht | ht | ht | ht) <;> simp_all [Mentions]
  · refine hn.fill hs rfl rfl ?_ (by simp [hempty])
    rintro t (ht | ht | ht | ht) <;> simp_all [Mentions]

theorem Resolved.plainAttrs_eq (h : Resolved table textKeys n) : plainAttrs n = n.attrs := by
  refine SortedMap.ext_get? fun k => ?_
  simp only [plainAttrs, SortedMap.get?_erase]
  split_ifs with hclass hdirective hcomments htext
  · rw [hclass, h.erased _ (by simp [textKeys])]
  · rw [hdirective, h.erased _ (by simp [textKeys])]
  · rw [hcomments, h.erased _ (by simp [textKeys])]
  · rw [htext, h.erased _ (by simp [textKeys])]
  · rfl

theorem Resolved.mem_nodeTexts (h : Resolved table keys n) {s : String} (hs : s ∈ nodeTexts n) :
    s ∈ "" :: table.strings.toList := by
  simp only [nodeTexts, List.mem_append, Option.mem_toList] at hs
  rcases hs with ((hs | hs) | hs) | hs
  · have htext : n.ownText = some s := (Option.filter_eq_some_iff.1 hs).1
    exact List.mem_cons_of_mem _ (h.texts s (.inl htext))
  · exact List.mem_cons_of_mem _ (h.texts s (.inr (.inl hs)))
  · exact List.mem_cons_of_mem _ (h.texts s (.inr (.inr (.inl hs))))
  · rw [storedClass?] at hs
    split at hs
    · obtain rfl := Option.some.inj hs
      cases hclass : n.qualifiedClass with
      | none => exact List.mem_cons_self ..
      | some s => exact List.mem_cons_of_mem _ (h.texts s (.inr (.inr (.inr hclass))))
    · exact absurd hs (by simp)

/-! ### The tree with its texts -/

/-- A node with its texts, if these can be filled in. -/
def resolvedNode (table : StringTable) (n : Tree.Node) : Tree.Node :=
  match resolveNode table n with
  | .ok m => m
  | .error _ => n

theorem resolveSlots_ok {slots resolved : List Tree.Slot}
    (h : resolveSlots table slots = .ok resolved) :
    resolved = slots.map (fun s => { s with node := resolvedNode table s.node }) ∧
      ∀ s ∈ slots, resolveNode table s.node = .ok (resolvedNode table s.node) := by
  induction slots generalizing resolved with
  | nil =>
    obtain rfl := Except.ok.inj h
    exact ⟨rfl, fun s hs => absurd hs List.not_mem_nil⟩
  | cons slot slots ih =>
    obtain ⟨node, hnode, h⟩ := bind_eq_ok_iff.1 h
    obtain ⟨more, hmore, h⟩ := bind_eq_ok_iff.1 h
    obtain rfl := Except.ok.inj h
    obtain ⟨rfl, hall⟩ := ih hmore
    have hres : resolvedNode table slot.node = node := by rw [resolvedNode, hnode]
    refine ⟨by rw [List.map_cons, hres], fun s hs => ?_⟩
    rcases List.mem_cons.1 hs with rfl | hs
    · rw [hres, hnode]
    · exact hall s hs

/-- Filling in the texts of a tree changes nodes in their places. -/
theorem resolveTree_ok {t u : Tree} (h : resolveTree table t = .ok u) :
    u = t.mapNodes (resolvedNode table) ∧
      t.AllNodes fun n => resolveNode table n = .ok (resolvedNode table n) := by
  obtain ⟨resolved, hslots, h⟩ := bind_eq_ok_iff.1 h
  obtain rfl := Except.ok.inj h
  obtain ⟨rfl, hall⟩ := resolveSlots_ok hslots
  refine ⟨?_, fun id n hn => ?_⟩
  · rw [Tree.mapNodes, ← List.map_toArray]
  · obtain ⟨slot, hslot, rfl⟩ := Option.map_eq_some_iff.1 hn
    rw [← Array.getElem?_toList] at hslot
    exact hall slot (List.mem_of_getElem? hslot)

/-- Whether a tree can be the one that is read last, after not more than `limit` bytes. -/
structure LegibleTree (limit : Nat) (names : List String) (t : Tree) : Prop where
  fileNames : t.fileNames = names
  proper : t.Proper
  texts : ∃ table : StringTable, table.size < limit ∧ (∀ s ∈ table.strings.toList, Fits s) ∧
    t.AllNodes (Resolved table textKeys)

theorem legibleTree_of_resolveTree {limit : Nat} {names : List String} {t u : Tree}
    (hnames : t.fileNames = names) (hproper : t.Proper) (hbare : t.AllNodes Bare)
    (hsize : table.size < limit) (hfits : ∀ s ∈ table.strings.toList, Fits s)
    (h : resolveTree table t = .ok u) : LegibleTree limit names u := by
  obtain ⟨rfl, hall⟩ := resolveTree_ok h
  refine ⟨hnames, hproper.mapNodes _, table, hsize, hfits, fun id n hn => ?_⟩
  rw [Tree.node?_mapNodes] at hn
  obtain ⟨raw, hraw, rfl⟩ := Option.map_eq_some_iff.1 hn
  exact (hbare id raw hraw).resolveNode (hall id raw hraw)

/-! ### Segments -/

/-- Whether contents can be those that are read of not more than `limit` bytes. -/
structure Contents.Legible (limit : Nat) (c : Contents) : Prop where
  files : c.fileNames.length ≤ limit
  names : ∀ name ∈ c.fileNames, Fits name
  header : ∀ name, c.className = some name ∨ c.superName = some name → name ≠ "" ∧ Fits name
  tables : c.tables.Legible
  imports : ∀ s ∈ c.imports, LegibleSymbol s
  exports : ∀ s ∈ c.exports, LegibleSymbol s
  raw : c.depth = .treeLoaded → ∃ t, c.tree = some t ∧ t.fileNames = c.fileNames ∧ t.Proper ∧
    t.AllNodes Bare
  tree : c.depth = .stringsLoaded → ∃ t, c.tree = some t ∧ LegibleTree limit c.fileNames t

/-- Whether a segment takes legible contents from one depth to the next. -/
def ReadsOn (d d' : Depth) (segment : Segment) : Prop :=
  ∀ limit n c, n ≤ limit → c.depth = d → c.Legible limit →
    Reads n (part (segment c)) fun _ c' => ({ c' with depth := d' } : Contents).Legible limit

theorem part_readHeader (c : Contents) : part (readHeader c) = (do
    let className ← item Stream.text
    let superName ← item Stream.text
    pure { c with className := nonEmpty? className, superName := nonEmpty? superName }) := by
  ext1
  funext s
  rw [run_part]
  simp only [readHeader, run_bind, run_item]
  rcases s.text with ⟨e | className, s₁⟩
  · rfl
  simp only [Except.map]
  rcases s₁.text with ⟨e | superName, s₂⟩ <;> rfl

theorem nonEmpty?_eq_some {s name : String} (h : nonEmpty? s = some name) : name ≠ "" ∧ s = name := by
  rw [nonEmpty?] at h
  by_cases hs : s = ""
  · rw [if_pos hs] at h
    exact absurd h (by simp)
  · rw [if_neg hs] at h
    obtain rfl := Option.some.inj h
    exact ⟨hs, rfl⟩

theorem readsOn_readHeader : ReadsOn .filesLoaded .headerLoaded readHeader := by
  intro limit n c _ _ hc
  rw [part_readHeader]
  refine (reads_text n).bind fun m className _ ⟨_, hclass⟩ => ?_
  refine (reads_text m).bind fun k superName _ ⟨_, hsuper⟩ => reads_pure ?_
  refine ⟨hc.files, hc.names, fun name hname => ?_, hc.tables, hc.imports, hc.exports, by simp,
    by simp⟩
  rcases hname with hname | hname
  · obtain ⟨hne, rfl⟩ := nonEmpty?_eq_some hname
    exact ⟨hne, hclass⟩
  · obtain ⟨hne, rfl⟩ := nonEmpty?_eq_some hname
    exact ⟨hne, hsuper⟩

theorem part_readTables (c : Contents) : part (readTables c) = (do
    let tables ← part (decodeTables · c.tables)
    pure { c with tables }) := by
  ext1
  funext s
  rw [run_part, run_bind, run_part]
  simp only [readTables]
  rcases decodeTables s c.tables with ⟨tables, e | rest⟩ <;> rfl

theorem readsOn_readTables : ReadsOn .headerLoaded .schemaLoaded readTables := by
  intro limit n c _ _ hc
  rw [part_readTables]
  refine (reads_decodeTables hc.tables n).bind fun m tables _ htables => reads_pure ?_
  exact ⟨hc.files, hc.names, hc.header, htables, hc.imports, hc.exports, by simp, by simp⟩

theorem part_readImports (c : Contents) : part (readImports c) = (do
    let imports ← whole decodeSymbols
    pure { c with imports }) := by
  ext1
  funext s
  rw [run_part, run_bind, run_whole, readImports]
  rcases decodeSymbols s with e | ⟨imports, rest⟩ <;> rfl

theorem readsOn_readImports : ReadsOn .schemaLoaded .importsLoaded readImports := by
  intro limit n c _ _ hc
  rw [part_readImports]
  refine (reads_decodeSymbols n).bind fun m imports _ himports => reads_pure ?_
  exact ⟨hc.files, hc.names, hc.header, hc.tables, himports, hc.exports, by simp, by simp⟩

theorem part_readExports (c : Contents) : part (readExports c) = (do
    let exports ← whole decodeSymbols
    pure { c with exports }) := by
  ext1
  funext s
  rw [run_part, run_bind, run_whole, readExports]
  rcases decodeSymbols s with e | ⟨exports, rest⟩ <;> rfl

theorem readsOn_readExports : ReadsOn .importsLoaded .exportsLoaded readExports := by
  intro limit n c _ _ hc
  rw [part_readExports]
  refine (reads_decodeSymbols n).bind fun m exports _ hexports => reads_pure ?_
  exact ⟨hc.files, hc.names, hc.header, hc.tables, hc.imports, hexports, by simp, by simp⟩

theorem part_readTree (c : Contents) : part (readTree c) = (do
    let tree ← whole decodeTree
    pure { c with tree := some { tree with fileNames := c.fileNames } }) := by
  ext1
  funext s
  rw [run_part, run_bind, run_whole, readTree]
  rcases decodeTree s with e | ⟨tree, rest⟩ <;> rfl

theorem readsOn_readTree : ReadsOn .exportsLoaded .treeLoaded readTree := by
  intro limit n c _ _ hc
  rw [part_readTree]
  refine (reads_decodeTree n).bind fun m tree _ ⟨hproper, hbare⟩ => reads_pure ?_
  refine ⟨hc.files, hc.names, hc.header, hc.tables, hc.imports, hc.exports, fun _ => ?_, by simp⟩
  exact ⟨_, rfl, rfl, hproper.named c.fileNames, hbare⟩

theorem part_readStrings {c : Contents} {tree : Tree} (h : c.tree = some tree) :
    part (readStrings none c) = (do
      let table ← whole decodeStrings
      let tree ← check (resolveTree table tree)
      pure { c with tree := some tree }) := by
  ext1
  funext s
  simp only [run_part, run_bind, run_check, readStrings]
  rcases decodeStrings s with e | ⟨table, rest⟩
  · rfl
  simp only [h]
  rcases resolveTree table tree with e | tree <;> rfl

theorem readsOn_readStrings : ReadsOn .treeLoaded .stringsLoaded (readStrings none) := by
  intro limit n c hn hd hc
  obtain ⟨raw, hraw, hnames, hproper, hbare⟩ := hc.raw hd
  rw [part_readStrings hraw]
  refine (reads_decodeStrings n).bind fun m table _ ⟨hsize, hfits⟩ => ?_
  have hcheck : Reads m (check (resolveTree table raw)) fun _ tree =>
      resolveTree table raw = .ok tree := reads_check fun tree htree => htree
  refine hcheck.bind fun k tree _ htree => ?_
  refine reads_pure ⟨hc.files, hc.names, hc.header, hc.tables, hc.imports, hc.exports, by simp,
    fun _ => ⟨tree, rfl, ?_⟩⟩
  exact legibleTree_of_resolveTree hnames hproper hbare (by omega) hfits htree

/-! ### Readings -/

/-- Whether segments take legible contents from a depth on as far as a target, and to the last of the
segments if all of the artifact is to be read. -/
def ReadsAll (target d : Depth) (segments : List (Depth × Segment)) : Prop :=
  ∀ limit n c, n ≤ limit → c.depth = d → c.Legible limit →
    Reads n (part (readSegments target segments c)) fun _ c' => c'.Legible limit ∧
      (target = .stringsLoaded → c'.depth = (segments.map (·.1)).getLastD d)

theorem part_readSegments_nil (target : Depth) (c : Contents) :
    part (readSegments target [] c) = pure c := rfl

theorem part_readSegments_cons (target d : Depth) (segment : Segment)
    (segments : List (Depth × Segment)) (c : Contents) :
    part (readSegments target ((d, segment) :: segments) c) =
      if target < d then pure c
      else (do
        let c ← part (segment c)
        part (readSegments target segments { c with depth := d })) := by
  ext1
  funext s
  rw [run_part, readSegments]
  by_cases hd : target < d
  · simp only [if_pos hd]
    rfl
  · simp only [if_neg hd, run_bind, run_part]
    rcases segment c s with ⟨c', e | rest⟩ <;> rfl

theorem ReadsAll.nil (target d : Depth) : ReadsAll target d [] := by
  intro limit n c _ hd hc
  rw [part_readSegments_nil]
  exact reads_pure ⟨hc, fun _ => hd⟩

theorem ReadsOn.cons {target d d' : Depth} {segment : Segment} {segments : List (Depth × Segment)}
    (h : ReadsOn d d' segment) (hrest : ReadsAll target d' segments) :
    ReadsAll target d ((d', segment) :: segments) := by
  intro limit n c hn hd hc
  rw [part_readSegments_cons]
  by_cases htarget : target < d'
  · rw [if_pos htarget]
    refine reads_pure ⟨hc, fun hall => ?_⟩
    subst hall
    exact absurd htarget (by cases d' <;> decide)
  · rw [if_neg htarget]
    refine (h limit n c hn hd hc).bind fun m c' hm hc' => ?_
    refine (hrest limit m _ (Nat.le_trans hm hn) rfl hc').imp fun k c'' _ ⟨hlegible, hlast⟩ => ?_
    refine ⟨hlegible, fun hall => ?_⟩
    rw [hlast hall, List.map_cons, List.getLastD_cons]

theorem readsAll_laterSegments (target : Depth) : ReadsAll target .filesLoaded (laterSegments none) :=
  readsOn_readHeader.cons <| readsOn_readTables.cons <| readsOn_readImports.cons <|
    readsOn_readExports.cons <| readsOn_readTree.cons <| readsOn_readStrings.cons <| .nil target _

/-- Reads what follows the version as far as a target. -/
def body (target : Depth) : Reader Contents := do
  let fileNames ← part decodeFiles
  part (readSegments target (laterSegments none) { fileNames, current := true, depth := .filesLoaded })

theorem reads_body (target : Depth) (n : Nat) : Reads n (body target) fun _ c =>
    c.Legible n ∧ (target = .stringsLoaded → c.depth = .stringsLoaded) := by
  refine (reads_decodeFiles n).bind fun m names hm ⟨hlength, hnames⟩ => ?_
  refine readsAll_laterSegments target n m _ hm rfl ⟨?_, hnames, ?_, ?_, ?_, ?_, ?_, ?_⟩
  · simp only
    omega
  · simp
  · exact fun e he => absurd he List.not_mem_nil
  all_goals simp

/-! ### The whole artifact -/

/-- What is read of the version and what follows it. -/
theorem decode_body (target : Depth) (bytes : List UInt8) :
    match (body target).run ⟨bytes, none⟩ with
    | .ok (c, _) =>
      Contents.decode target ⟨int32Bytes layoutVersion ++ bytes, none⟩ = (c, .ok ())
    | .error e => ∃ c,
      Contents.decode target ⟨int32Bytes layoutVersion ++ bytes, none⟩ =
        (c, .error (.unreadable e)) := by
  rw [body, run_bind, run_part]
  simp only [Contents.decode, Contents.read, readFiles_empty, Stream.int32_append, if_true]
  rcases decodeFiles ⟨bytes, none⟩ with ⟨fileNames, e | s⟩
  · exact ⟨_, rfl⟩
  simp only [Except.map, Except.mapError, run_part, readRest]
  rcases readSegments target (laterSegments none) { fileNames, current := true, depth := .filesLoaded } s
    with ⟨c, e | rest⟩
  · exact ⟨c, rfl⟩
  · rfl

theorem decode_of_body_ok {target : Depth} {bytes : List UInt8} {c : Contents} {rest : Stream}
    (h : (body target).run ⟨bytes, none⟩ = .ok (c, rest)) :
    Contents.decode target ⟨int32Bytes layoutVersion ++ bytes, none⟩ = (c, .ok ()) := by
  have hdecode := decode_body target bytes
  rwa [h] at hdecode

theorem decode_of_body_error {target : Depth} {bytes : List UInt8} {e : Error}
    (h : (body target).run ⟨bytes, none⟩ = .error e) :
    ∃ c, Contents.decode target ⟨int32Bytes layoutVersion ++ bytes, none⟩ =
      (c, .error (.unreadable e)) := by
  have hdecode := decode_body target bytes
  rwa [h] at hdecode

/-- Bytes that are accepted begin with the version, and the rest of them is read by `body`. -/
theorem exists_body_of_decode {target : Depth} {bytes : List UInt8} {c : Contents}
    (h : Contents.decode target ⟨bytes, none⟩ = (c, .ok ())) :
    ∃ more rest, bytes = int32Bytes layoutVersion ++ more ∧
      (body target).run ⟨more, none⟩ = .ok (c, rest) := by
  rcases Stream.int32_cases ⟨bytes, none⟩ with ⟨-, hread⟩ | ⟨version, more, hbytes, hread⟩
  · rw [Contents.decode, Contents.read, readFiles_empty, hread] at h
    exact absurd (Prod.mk.inj h).2 (by simp)
  · by_cases hversion : version = layoutVersion
    · subst hversion
      refine ⟨more, ?_⟩
      have hdecode := decode_body target more
      rw [← hbytes, h] at hdecode
      rcases hrun : (body target).run ⟨more, none⟩ with e | ⟨c', rest⟩
      · rw [hrun] at hdecode
        obtain ⟨c', hc'⟩ := hdecode
        exact absurd (Prod.mk.inj hc').2 (by simp)
      · rw [hrun] at hdecode
        obtain ⟨rfl, -⟩ := Prod.mk.inj hdecode
        exact ⟨rest, hbytes, rfl⟩
    · simp only [Contents.decode, Contents.read, readFiles_empty, hread, if_neg hversion] at h
      exact absurd (Prod.mk.inj h).2 (by simp)

/-- Whether a record that reads the given bytes comes to a result and to contents when it is loaded as
far as a target, whatever the files and the record are. -/
def Gives (bytes : List UInt8) (target : Depth) (result : Except LoadFailure Unit) (c : Contents) :
    Prop :=
  ∀ (m : Type → Type) [Monad m] [LawfulMonad m] (files : Files m) (session : Session) (r : Record),
    r.blob = some bytes → r.loadTo files session target = pure (result,
      { r with checked := r.checked || decide (Depth.headerLoaded ≤ target), contents := c })

theorem gives_iff {bytes : List UInt8} {target : Depth} {result : Except LoadFailure Unit}
    {c : Contents} :
    Gives bytes target result c ↔ Contents.decode target ⟨bytes, none⟩ = (c, result) := by
  constructor
  · intro h
    let r : Record := { source := "", artifact := "", blob := some bytes }
    have hr : r.blob = some bytes := rfl
    rcases hdecode : Contents.decode target ⟨bytes, none⟩ with ⟨c', result'⟩
    have hrun := (loadTo_eq_of_decode Disk.files {} hr hdecode).symm.trans (h _ Disk.files {} r hr)
    have hanswer := congrArg (fun program => (program.run ({} : Disk)).1) hrun
    obtain ⟨rfl, hr⟩ := Prod.mk.inj hanswer
    obtain rfl := congrArg Record.contents hr
    rfl
  · intro h m _ _ files session r hr
    exact loadTo_eq_of_decode files session hr h

end AblAnalysis.Artifact
