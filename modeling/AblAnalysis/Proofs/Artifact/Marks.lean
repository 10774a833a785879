import AblAnalysis.Proofs.Artifact.Legible
import AblAnalysis.Proofs.Artifact.Partial
import Mathlib.Data.List.TakeWhile

/-!
Units whose data looks like the end of a list. Fields end with an empty name, symbols with kind -1,
attributes with key -1 and nodes with subtype -1, and a writer takes all of these as data, too. Whatever
can be written at all is read back exactly if nothing in it is one of these marks
(`exists_recalls_iff`). Otherwise what comes after the mark is read as something else, often without
any error.
-/

namespace AblAnalysis

/-! ### Lower-case forms -/

theorem Text.length_le_lowerFrom (done before cs : List Char) :
    done.length + cs.length ≤ (Text.lowerFrom done before cs).length := by
  induction cs generalizing done before with
  | nil => simp [Text.lowerFrom]
  | cons c rest ih =>
    have hone : 1 ≤ (Text.lowerAt before c rest).length := by
      rw [Text.lowerAt]
      split_ifs <;> simp
    have hrest := ih ((Text.lowerAt before c rest).reverse ++ done) (c :: before)
    rw [List.length_append, List.length_reverse] at hrest
    rw [Text.lowerFrom, List.length_cons]
    omega

theorem Text.lowercase_ne_empty {s : String} (h : s ≠ "") : Text.lowercase s ≠ "" := by
  intro hlower
  have hlength := Text.length_le_lowerFrom [] [] s.toList
  have hnil : Text.lowerFrom [] [] s.toList = [] := by
    simpa [Text.lowercase] using hlower
  rw [hnil] at hlength
  have hs : s.toList = [] := List.eq_nil_of_length_eq_zero (by simpa using hlength)
  exact h (String.toList_eq_nil_iff.1 hs)

namespace Artifact

open AblAnalysis.Tree (IsRenumbering)

/-! ### What has been written fits -/

theorem fits_of_encodeFiles {names : List String} {index : Nat} {bytes : List UInt8}
    (h : encodeFiles index names = .ok bytes) : ∀ name ∈ names, Fits name := by
  induction names generalizing index bytes with
  | nil => simp
  | cons name names ih =>
    obtain ⟨text, ht, h⟩ := bind_eq_ok_iff.1 h
    obtain ⟨more, hm, -⟩ := bind_eq_ok_iff.1 h
    exact List.forall_mem_cons.2 ⟨fits_of_textBytes ht, ih hm⟩

theorem fits_of_encodeNames {names : List String} {bytes : List UInt8}
    (h : encodeNames names = .ok bytes) : ∀ name ∈ names, Fits name := by
  induction names generalizing bytes with
  | nil => simp
  | cons name names ih =>
    obtain ⟨text, ht, h⟩ := bind_eq_ok_iff.1 h
    obtain ⟨more, hm, -⟩ := bind_eq_ok_iff.1 h
    exact List.forall_mem_cons.2 ⟨fits_of_textBytes ht, ih hm⟩

theorem fits_of_encodeTables {uses : List TableUse} {bytes : List UInt8}
    (h : encodeTables uses = .ok bytes) :
    ∀ t ∈ uses, ∀ text ∈ t.name :: t.fields.values, Fits text := by
  induction uses generalizing bytes with
  | nil => simp
  | cons t uses ih =>
    obtain ⟨names, hn, h⟩ := bind_eq_ok_iff.1 h
    obtain ⟨more, hm, -⟩ := bind_eq_ok_iff.1 h
    exact List.forall_mem_cons.2 ⟨fits_of_encodeNames hn, ih hm⟩

theorem fits_of_encodeSymbol {s : Symbol} {bytes : List UInt8} (h : encodeSymbol s = .ok bytes) :
    ∀ text ∈ symbolTexts s, Fits text := by
  obtain ⟨name, hn, h⟩ := bind_eq_ok_iff.1 h
  obtain ⟨suffix, hs, -⟩ := bind_eq_ok_iff.1 h
  refine List.forall_mem_cons.2 ⟨fits_of_textBytes hn, ?_⟩
  rw [encodeClassName] at hs
  split at hs
  · rename_i hclass
    rw [if_pos hclass]
    exact List.forall_mem_singleton.2 (fits_of_textBytes hs)
  · rename_i hclass
    simp [hclass]

theorem fits_of_encodeSymbols {symbols : List Symbol} {bytes : List UInt8}
    (h : encodeSymbols symbols = .ok bytes) : ∀ s ∈ symbols, ∀ text ∈ symbolTexts s, Fits text := by
  induction symbols generalizing bytes with
  | nil => simp
  | cons s symbols ih =>
    obtain ⟨first, hf, h⟩ := bind_eq_ok_iff.1 h
    obtain ⟨more, hm, -⟩ := bind_eq_ok_iff.1 h
    exact List.forall_mem_cons.2 ⟨fits_of_encodeSymbol hf, ih hm⟩

theorem fits_of_encodeTexts {texts : List String} {bytes : List UInt8}
    (h : encodeTexts texts = .ok bytes) : ∀ text ∈ texts, Fits text := by
  induction texts generalizing bytes with
  | nil => simp
  | cons text texts ih =>
    obtain ⟨first, hf, h⟩ := bind_eq_ok_iff.1 h
    obtain ⟨more, hm, -⟩ := bind_eq_ok_iff.1 h
    exact List.forall_mem_cons.2 ⟨fits_of_textBytes hf, ih hm⟩

/-- What has been written has been written segment by segment. -/
theorem exists_parts_of_encode {c : Contents} {t : Tree} {bytes : List UInt8}
    (h : c.encode t = .ok bytes) : ∃ p : Parts, p.Encode c t ∧ bytes = p.bytes t := by
  have hbytes := h
  obtain ⟨files, hfiles, h⟩ := bind_eq_ok_iff.1 h
  obtain ⟨className, hclass, h⟩ := bind_eq_ok_iff.1 h
  obtain ⟨superName, hsuper, h⟩ := bind_eq_ok_iff.1 h
  obtain ⟨tables, htables, h⟩ := bind_eq_ok_iff.1 h
  obtain ⟨imports, himports, h⟩ := bind_eq_ok_iff.1 h
  obtain ⟨exports, hexports, h⟩ := bind_eq_ok_iff.1 h
  obtain ⟨strings, hstrings, -⟩ := bind_eq_ok_iff.1 h
  have hp : Parts.Encode ⟨files, className, superName, tables, imports, exports, strings⟩ c t :=
    ⟨hfiles, hclass, hsuper, htables, himports, hexports, hstrings⟩
  exact ⟨_, hp, Except.ok.inj (hbytes.symm.trans hp.encode_eq)⟩

theorem Parts.Encode.fits {p : Parts} {u : ParsedUnit} (hp : p.Encode (.describe u) u.tree)
    (ht : u.tree.Linked) : ∀ text ∈ unitTexts u, Fits text := by
  obtain ⟨texts, htexts, -⟩ := bind_eq_ok_iff.1 hp.strings
  intro text htext
  simp only [unitTexts, List.mem_append, List.mem_flatMap] at htext
  rcases htext with (((hname | hname) | ⟨t, hmem, hname⟩) | ⟨s, hs, hname⟩) | hname
  · exact fits_of_encodeFiles hp.files text hname
  · rcases List.mem_pair.1 hname with rfl | rfl
    · exact fits_of_textBytes hp.className
    · exact fits_of_textBytes hp.superName
  · exact fits_of_encodeTables hp.tables t hmem text hname
  · rcases hs with hs | hs
    · exact fits_of_encodeSymbols hp.imports s hs text hname
    · exact fits_of_encodeSymbols hp.exports s hs text hname
  · exact fits_of_encodeTexts htexts text
      ((mem_strings_encodeTree ht text).2 (List.mem_cons_of_mem _ hname))

/-! ### Marks -/

/-- Whether nothing in a unit is taken for the end of a list. -/
structure Unmarked (u : ParsedUnit) : Prop where
  nodes : ∀ id n, u.tree.node? id = some n → Readable n
  kinds : ∀ s ∈ u.imports ++ u.exports, s.kind ≠ endMark
  fields : ∀ s ∈ u.symbols, ∀ use, s.databaseUse? = some use → use.field ≠ some ""

/-- Whether contents are true to the unit that was written: they have the same tables and fields, as
many imports and exports, and the same tree node for node. -/
structure Contents.Recalls (c : Contents) (u : ParsedUnit) : Prop where
  tables : c.tables.keys = (Footprint.ofSymbols u.symbols).keys
  fields : ∀ table, c.tables.fieldKeys table = (Footprint.ofSymbols u.symbols).fieldKeys table
  imports : c.imports.length = u.imports.length
  exports : c.exports.length = u.exports.length
  tree : ∃ tree, c.tree = some tree ∧ IsRenumbering keptNode u.tree tree

theorem recalls_keptContents {u : ParsedUnit} {tree : Tree} (h : IsRenumbering keptNode u.tree tree) :
    (keptContents u tree).Recalls u where
  tables := rfl
  fields _ := rfl
  imports := List.length_map _
  exports := List.length_map _
  tree := ⟨tree, rfl, h⟩

/-! ### Fields -/

theorem Footprint.mem_fieldKeys (f : Footprint) (table k : String) : k ∈ f.fieldKeys table ↔
    ∃ t, f.get? (Text.lowercase table) = some t ∧ k ∈ t.fields.keys := by
  rw [fieldKeys]
  cases f.get? (Text.lowercase table) <;> simp

/-- No field that has been read stands under an empty name. -/
theorem Footprint.Legible.ne_of_mem_fieldKeys {f : Footprint} (h : f.Legible) {table k : String}
    (hk : k ∈ f.fieldKeys table) : k ≠ "" := by
  obtain ⟨t, ht, hk⟩ := (f.mem_fieldKeys table k).1 hk
  have hlegible := (h _ ((SortedMap.get?_eq_some_iff _ _ _).1 ht)).2
  obtain ⟨e, he, rfl⟩ := List.mem_map.1 hk
  rw [hlegible.keyed e he]
  exact Text.lowercase_ne_empty (hlegible.named.2 e.2 (List.mem_map.2 ⟨e, he, rfl⟩))

variable {c : Contents} {u : ParsedUnit} {p : Parts}

theorem Contents.Recalls.unmarked_fields (h : c.Recalls u) (hc : c.tables.Legible) :
    ∀ s ∈ u.symbols, ∀ use, s.databaseUse? = some use → use.field ≠ some "" := by
  intro s hs use huse hempty
  have hlists := Footprint.lists_ofSymbols u.symbols
  have hused : use ∈ u.symbols.filterMap (·.databaseUse?) := List.mem_filterMap.2 ⟨s, hs, huse⟩
  have htable : use.OfTable (Text.lowercase use.tableName) := rfl
  obtain ⟨t, ht⟩ := (SortedMap.mem_keys_iff _ _).1 ((hlists.tables _).2 ⟨use, hused, htable⟩)
  have hfield : use.OfField (Text.lowercase "") := ⟨"", hempty, rfl⟩
  have hkey : Text.lowercase "" ∈ (Footprint.ofSymbols u.symbols).fieldKeys use.tableName :=
    (Footprint.mem_fieldKeys _ _ _).2
      ⟨t, ht, ((hlists.fields _ t ht).fields _).2 ⟨use, hused, htable, hfield⟩⟩
  rw [← h.fields] at hkey
  exact hc.ne_of_mem_fieldKeys hkey rfl

/-! ### Symbols -/

/-- The symbols in front of the first one that is taken for the end. -/
def beforeMark (symbols : List Symbol) : List Symbol :=
  symbols.takeWhile (fun s => s.kind ≠ endMark)

/-- Symbols are read as far as the first one that is taken for the end. -/
theorem exists_decodeSymbols_beforeMark {symbols : List Symbol} {bytes : List UInt8}
    (h : encodeSymbols symbols = .ok bytes) (rest : List UInt8) (fault : Option IoFailure) :
    ∃ left, decodeSymbols ⟨bytes ++ rest, fault⟩ = .ok ((beforeMark symbols).map keptSymbol, left) := by
  induction symbols generalizing bytes with
  | nil => exact ⟨_, decodeSymbols_encodeSymbols rest fault h fun s hs => absurd hs List.not_mem_nil⟩
  | cons s symbols ih =>
    obtain ⟨text, ht, h⟩ := bind_eq_ok_iff.1 h
    obtain ⟨more, hm, h⟩ := bind_eq_ok_iff.1 h
    obtain rfl := Except.ok.inj h
    rw [List.append_assoc]
    by_cases hk : s.kind = endMark
    · obtain ⟨name, hn, ht⟩ := bind_eq_ok_iff.1 ht
      obtain ⟨suffix, -, ht⟩ := bind_eq_ok_iff.1 ht
      obtain rfl := Except.ok.inj ht
      rw [beforeMark, List.takeWhile_cons_of_neg (by simpa using hk), decodeSymbols_eq]
      simp only [List.append_assoc, Stream.int32_append, Stream.text_append _ fault hn, if_pos hk]
      exact ⟨_, rfl⟩
    · obtain ⟨left, hleft⟩ := ih hm
      rw [beforeMark, List.takeWhile_cons_of_pos (by simpa using hk)]
      exact ⟨left, decodeSymbols_cons _ fault ht hk hleft⟩

theorem unmarked_of_length {symbols : List Symbol}
    (h : ((beforeMark symbols).map keptSymbol).length = symbols.length) :
    ∀ s ∈ symbols, s.kind ≠ endMark := by
  rw [List.length_map] at h
  have hbegins : beforeMark symbols <+: symbols := List.takeWhile_prefix _
  have hall := hbegins.eq_of_length h
  intro s hs
  exact of_decide_eq_true (List.takeWhile_eq_self_iff.1 hall s hs)

theorem readImports_of_ok {symbols : List Symbol} {s left : Stream}
    (h : decodeSymbols s = .ok (symbols, left)) (c : Contents) :
    readImports c s = ({ c with imports := symbols }, .ok left) := by
  rw [readImports, h]

theorem readExports_of_ok {symbols : List Symbol} {s left : Stream}
    (h : decodeSymbols s = .ok (symbols, left)) (c : Contents) :
    readExports c s = ({ c with exports := symbols }, .ok left) := by
  rw [readExports, h]

/-- After its files, an artifact goes on with the other segments. -/
theorem Parts.Encode.decode_eq {t : Tree} (hp : p.Encode c t) (hfiles : c.fileNames.length < 2 ^ 31)
    (target : Depth) : Contents.decode target ⟨p.bytes t, none⟩ =
      readRest target { fileNames := c.fileNames } ⟨p.middle t (p.strings ++ []), none⟩ := by
  have hbytes : p.bytes t =
      int32Bytes layoutVersion ++ (p.files ++ p.middle t (p.strings ++ [])) := rfl
  have hlength : 0 + c.fileNames.length ≤ 2 ^ 31 := by omega
  rw [Contents.decode, Contents.read, hbytes, readFiles_empty]
  simp only [Stream.int32_append, if_true, decodeFiles_encodeFiles _ none hp.files hlength,
    Except.mapError]

/-- A segment after the one that was asked for is not read. -/
theorem readSegments_stop {target depth : Depth} (h : target < depth) (segment : Segment)
    (segments : List (Depth × Segment)) (s : Stream) :
    readSegments target ((depth, segment) :: segments) c s = (c, .ok s) := by
  rw [readSegments, if_pos h]

/-- The imports are read as far as the first that is taken for the end. -/
theorem Parts.Encode.exists_decode_imports {t : Tree} (hp : p.Encode c t)
    (hfiles : c.fileNames.length < 2 ^ 31) (htables : c.tables.Legible) :
    ∃ c', Contents.decode .importsLoaded ⟨p.bytes t, none⟩ = (c', .ok ()) ∧
      c'.imports = (beforeMark c.imports).map keptSymbol := by
  obtain ⟨left, hleft⟩ := exists_decodeSymbols_beforeMark hp.imports
    (p.exports ++ ((encodeTree t).1 ++ (p.strings ++ []))) none
  rw [hp.decode_eq hfiles, readRest, laterSegments, Parts.middle,
    readSegments_cons (by decide) (readHeader_append _ none _ hp.className hp.superName),
    readSegments_cons (by decide) (readTables_append _ none _ hp.tables htables (by rfl)),
    readSegments_cons (by decide) (readImports_of_ok hleft _),
    readSegments_stop (by decide)]
  exact ⟨_, rfl, rfl⟩

/-- The exports are read as far as the first that is taken for the end. -/
theorem Parts.Encode.exists_decode_exports {t : Tree} (hp : p.Encode c t)
    (hfiles : c.fileNames.length < 2 ^ 31) (htables : c.tables.Legible)
    (himports : ∀ s ∈ c.imports, s.kind ≠ endMark) :
    ∃ c', Contents.decode .exportsLoaded ⟨p.bytes t, none⟩ = (c', .ok ()) ∧
      c'.exports = (beforeMark c.exports).map keptSymbol := by
  obtain ⟨left, hleft⟩ := exists_decodeSymbols_beforeMark hp.exports
    ((encodeTree t).1 ++ (p.strings ++ [])) none
  rw [hp.decode_eq hfiles, readRest, laterSegments, Parts.middle,
    readSegments_cons (by decide) (readHeader_append _ none _ hp.className hp.superName),
    readSegments_cons (by decide) (readTables_append _ none _ hp.tables htables (by rfl)),
    readSegments_cons (by decide) (readImports_append _ none _ hp.imports himports),
    readSegments_cons (by decide) (readExports_of_ok hleft _),
    readSegments_stop (by decide)]
  exact ⟨_, rfl, rfl⟩

/-- Before the tree, less far a reading gives the same. -/
theorem exists_upTo_of_decode {d : Depth} {bytes : List UInt8} (hd : .filesLoaded ≤ d)
    (hlt : d < .treeLoaded) (h : Contents.decode .stringsLoaded ⟨bytes, none⟩ = (c, .ok ())) :
    Contents.decode d ⟨bytes, none⟩ = (c.upTo d, .ok ()) := by
  have hle : d ≤ .stringsLoaded := by cases d <;> decide
  obtain ⟨c', hread, hpart⟩ := exists_decode_partOf hd hle h
  cases hpart with
  | cut => exact hread
  | raw heq =>
    subst heq
    exact absurd hlt (by decide)

theorem Contents.Recalls.unmarked_kinds (h : c.Recalls u) (hp : p.Encode (.describe u) u.tree)
    (hfiles : u.tree.fileNames.length < 2 ^ 31) (htables : (Footprint.ofSymbols u.symbols).Legible)
    (hdecode : Contents.decode .stringsLoaded ⟨p.bytes u.tree, none⟩ = (c, .ok ())) :
    ∀ s ∈ u.imports ++ u.exports, s.kind ≠ endMark := by
  have himports : ∀ s ∈ u.imports, s.kind ≠ endMark := by
    obtain ⟨c', hread, himports⟩ := hp.exists_decode_imports hfiles htables
    rw [exists_upTo_of_decode (by decide) (by decide) hdecode] at hread
    obtain ⟨rfl, -⟩ := Prod.mk.inj hread
    have hlength := congrArg List.length himports
    exact unmarked_of_length (hlength.symm.trans h.imports)
  have hexports : ∀ s ∈ u.exports, s.kind ≠ endMark := by
    obtain ⟨c', hread, hexports⟩ := hp.exists_decode_exports hfiles htables himports
    rw [exists_upTo_of_decode (by decide) (by decide) hdecode] at hread
    obtain ⟨rfl, -⟩ := Prod.mk.inj hread
    have hlength := congrArg List.length hexports
    exact unmarked_of_length (hlength.symm.trans h.exports)
  intro s hs
  exact (List.mem_append.1 hs).elim (himports s) (hexports s)

/-! ### Nodes -/

/-- The mark that ends attributes refers to no text. -/
theorem get?_plainAttrs_endMark (n : Tree.Node) :
    (plainAttrs n).get? endMark = n.attrs.get? endMark := by
  simp only [plainAttrs, SortedMap.get?_erase]
  split_ifs with hclass hdirective hcomments htext
  · exact absurd hclass (by decide)
  · exact absurd hdirective (by decide)
  · exact absurd hcomments (by decide)
  · exact absurd htext (by decide)
  · rfl

theorem readable_of_keptNode {n : Tree.Node} (h : Readable (keptNode n)) : Readable n where
  subtype := h.subtype
  keys := by
    rw [SortedMap.mem_keys_iff, ← get?_plainAttrs_endMark, ← SortedMap.mem_keys_iff]
    exact h.keys

theorem Contents.Recalls.unmarked_nodes {limit : Nat} (h : c.Recalls u) (hc : c.Legible limit)
    (hdepth : c.depth = .stringsLoaded) : ∀ id n, u.tree.node? id = some n → Readable n := by
  obtain ⟨tree, htree, hren⟩ := h.tree
  obtain ⟨t, ht, hlegible⟩ := hc.tree hdepth
  obtain rfl := Option.some.inj (htree.symm.trans ht)
  obtain ⟨table, -, -, hnodes⟩ := hlegible.texts
  intro id n hn
  -- the node has a place in the walk, where it was read
  have hid : id ∈ u.tree.descendants 0 := by
    obtain ⟨slot, hslot, -⟩ := Option.map_eq_some_iff.1 hn
    exact hren.walk.mem_iff.2 (List.mem_range.2 (Array.getElem?_eq_some_iff.1 hslot).1)
  obtain ⟨k, hk⟩ := List.mem_iff_getElem?.1 hid
  have hnode := (hren.nodes k id hk).node
  rw [hn, Option.map_some] at hnode
  exact readable_of_keptNode (hnodes k _ hnode).readable

/-! ### What is read back -/

theorem Unmarked.storable (h : Unmarked u) (hgrown : u.tree.Grown)
    (hfits : ∀ text ∈ unitTexts u, Fits text) (hfiles : u.tree.fileNames.length < 2 ^ 31)
    (hstrings : ("" :: treeTexts u.tree).dedup.length < 2 ^ 31) : Storable u :=
  ⟨hgrown, h.nodes, h.kinds, h.fields, hfits, hfiles, hstrings⟩

/-- What could be written of a unit is accepted and true to the unit exactly if nothing in the unit is
taken for the end of a list. -/
theorem exists_recalls_iff {u : ParsedUnit} {bytes : List UInt8} (hgrown : u.tree.Grown)
    (hfiles : u.tree.fileNames.length < 2 ^ 31)
    (hstrings : ("" :: treeTexts u.tree).dedup.length < 2 ^ 31)
    (h : (Contents.describe u).encode u.tree = .ok bytes) :
    (∃ c, Gives bytes .stringsLoaded (.ok ()) c ∧ c.Recalls u) ↔ Unmarked u := by
  obtain ⟨p, hp, rfl⟩ := exists_parts_of_encode h
  have hfits := hp.fits hgrown.linked
  constructor
  · rintro ⟨c, hgives, hrecalls⟩
    have hdecode := gives_iff.1 hgives
    obtain ⟨more, rest, -, hbody⟩ := exists_body_of_decode hdecode
    obtain ⟨-, -, -, -, -, hlegible, hdepth⟩ := reads_body _ _ more c rest rfl hbody
    have hfields := hrecalls.unmarked_fields hlegible.tables
    have htables : (Footprint.ofSymbols u.symbols).Legible := by
      refine (Footprint.lists_ofSymbols u.symbols).legible (fun use huse => ?_)
        (fits_of_encodeTables hp.tables)
      obtain ⟨s, hs, hsu⟩ := List.mem_filterMap.1 huse
      exact hfields s hs use hsu
    exact ⟨hrecalls.unmarked_nodes hlegible (hdepth rfl),
      hrecalls.unmarked_kinds hp hfiles htables hdecode, hfields⟩
  · intro hunmarked
    have hstorable := hunmarked.storable hgrown hfits hfiles hstrings
    obtain ⟨tree, hdecode, hren⟩ := hp.exists_decode hstorable
    exact ⟨keptContents u tree, gives_iff.2 hdecode, recalls_keptContents hren⟩

theorem exists_recalls_sampleUnit : ∃ bytes,
    (Contents.describe sampleUnit).encode sampleUnit.tree = .ok bytes ∧
      ∃ c, Gives bytes .stringsLoaded (.ok ()) c ∧ c.Recalls sampleUnit := by
  have hstorable := storable_sampleUnit
  obtain ⟨p, hp⟩ := hstorable.exists_parts
  have hunmarked : Unmarked sampleUnit := ⟨hstorable.nodes, hstorable.kinds, hstorable.fields⟩
  exact ⟨_, hp.encode_eq, (exists_recalls_iff hstorable.grown hstorable.files hstorable.strings
    hp.encode_eq).2 hunmarked⟩

/-- A unit that uses a field without a name and another field. -/
def namelessUnit : ParsedUnit where
  tree := .single { kind := 4 }
  symbols := [
    { symbol := { kind := 100, name := "b" }
      schemaUse := some { table := { name := "t", database := "s" }, field := some "" } },
    { symbol := { kind := 100, name := "c" }
      schemaUse := some { table := { name := "t", database := "s" }, field := some "x" } }]

/-- The artifact of `namelessUnit`. -/
def namelessBytes : List UInt8 := [
  0, 0, 0, 11, 255, 255, 255, 255, 0, 0, 0, 0, 0, 0,
  0, 3, 115, 46, 116, 0, 0, 0, 1, 120, 0, 0, 0, 0,
  255, 255, 255, 255, 0, 0, 255, 255, 255, 255, 0, 0,
  0, 0, 0, 0, 0, 0, 0, 4, 0, 0, 0, 0, 0, 0, 0, 0, 0, 0, 0, 0,
  255, 255, 255, 255, 255, 255, 255, 255, 255, 255, 255, 255, 255, 255, 255, 255,
  0, 0, 0, 1, 0, 0]

/-- What is read of `namelessBytes`: the second field is taken for a table. -/
def misread : Contents where
  depth := .stringsLoaded
  current := true
  tables := SortedMap.insert (SortedMap.insert {} "s.t" { name := "s.t" }) "x" { name := "x" }
  tree := some (.single { kind := 4 })

/-- A unit can be written and what is written accepted, and yet another footprint be read. -/
theorem gives_misread :
    (Contents.describe namelessUnit).encode namelessUnit.tree = .ok namelessBytes ∧
      Gives namelessBytes .stringsLoaded (.ok ()) misread ∧
      (Footprint.ofSymbols namelessUnit.symbols).keys = ["s.t"] ∧
      misread.tables.keys = ["s.t", "x"] ∧ ¬ misread.Recalls namelessUnit := by
  have hencode : (Contents.describe namelessUnit).encode namelessUnit.tree = .ok namelessBytes := by
    decide +kernel
  have hdecode : Contents.decode .stringsLoaded ⟨namelessBytes, none⟩ = (misread, .ok ()) := by
    decide +kernel
  have hkeys : (Footprint.ofSymbols namelessUnit.symbols).keys = ["s.t"] := by decide +kernel
  have hmisread : misread.tables.keys = ["s.t", "x"] := by decide +kernel
  refine ⟨hencode, gives_iff.2 hdecode, hkeys, hmisread, fun hrecalls => ?_⟩
  have htables := hrecalls.tables
  rw [hkeys, hmisread] at htables
  exact absurd htables (by decide)

end Artifact

end AblAnalysis
