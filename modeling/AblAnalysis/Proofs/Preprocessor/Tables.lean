import AblAnalysis.Proofs.Preprocessor.History

/-!
The tables of the tracker as one: a place has at most one definition (`lookup?`), wherever the tracker
keeps it. Defining changes one place, and removing empties one.
-/

namespace AblAnalysis.Preprocessor

/-- The definition of a name in the first scope with a number. -/
def scoped? (scopes : List Scope) (s : Nat) (name : String) : Option Nat :=
  (scopes.find? (·.inclusion = s)).bind (·.defs.get? name)

theorem scoped?_cons (scope : Scope) (scopes : List Scope) (s : Nat) (name : String) :
    scoped? (scope :: scopes) s name =
      if scope.inclusion = s then scope.defs.get? name else scoped? scopes s name := by
  rw [scoped?, List.find?_cons]
  by_cases h : scope.inclusion = s
  · simp [h]
  · simp [h, scoped?]

theorem scoped?_of_not_mem {scopes : List Scope} {s : Nat} (h : s ∉ scopes.map (·.inclusion))
    (name : String) : scoped? scopes s name = none := by
  induction scopes with
  | nil => rfl
  | cons scope scopes ih =>
    simp only [List.map_cons, List.mem_cons, not_or] at h
    rw [scoped?_cons, if_neg (Ne.symm h.1), ih h.2]

/-- The nearest scope with a name loses it, and no other place does. -/
theorem eraseNearest?_eq_some {name : String} {scopes scopes' : List Scope} {id : Nat}
    (h : eraseNearest? name scopes = some (id, scopes'))
    (hnodup : (scopes.map (·.inclusion)).Nodup) :
    scopes'.map (·.inclusion) = scopes.map (·.inclusion) ∧
      ∃ s ∈ scopes.map (·.inclusion), scoped? scopes s name = some id ∧ ∀ r n,
        scoped? scopes' r n = if r = s ∧ n = name then none else scoped? scopes r n := by
  induction scopes generalizing scopes' with
  | nil => simp [eraseNearest?] at h
  | cons scope scopes ih =>
    obtain ⟨hnot, hnodup⟩ := List.nodup_cons.1 hnodup
    rw [eraseNearest?] at h
    cases hget : scope.defs.get? name with
    | some i =>
      simp only [hget, Option.some.injEq, Prod.mk.injEq] at h
      obtain ⟨rfl, rfl⟩ := h
      refine ⟨rfl, scope.inclusion, List.mem_cons_self .., ?_, fun r n => ?_⟩
      · rw [scoped?_cons, if_pos rfl, hget]
      · rw [scoped?_cons, scoped?_cons]
        by_cases hr : scope.inclusion = r
        · simp only [hr, if_true, Dict.get?_erase, true_and]
        · rw [if_neg hr, if_neg hr, if_neg fun hrs => hr hrs.1.symm]
    | none =>
      simp only [hget, Option.map_eq_some_iff, Prod.mk.injEq] at h
      obtain ⟨⟨i, rest⟩, hrest, rfl, rfl⟩ := h
      obtain ⟨hmap, s, hs, hid, herase⟩ := ih hrest hnodup
      have hne : scope.inclusion ≠ s := by
        rintro rfl
        exact hnot hs
      refine ⟨?_, s, List.mem_cons_of_mem _ hs, ?_, fun r n => ?_⟩
      · rw [List.map_cons, List.map_cons, hmap]
      · rw [scoped?_cons, if_neg hne, hid]
      · rw [scoped?_cons, scoped?_cons, herase]
        by_cases hr : scope.inclusion = r
        · rw [if_pos hr, if_neg fun hrs => hne (hr.trans hrs.1)]
          simp [hr]
        · rw [if_neg hr, if_neg hr]

theorem scoped?_of_mem {scopes : List Scope} (hnodup : (scopes.map (·.inclusion)).Nodup)
    {scope : Scope} (hs : scope ∈ scopes) (name : String) :
    scoped? scopes scope.inclusion name = scope.defs.get? name := by
  induction scopes with
  | nil => exact absurd hs (by simp)
  | cons first scopes ih =>
    obtain ⟨hnot, hnodup⟩ := List.nodup_cons.1 hnodup
    rw [scoped?_cons]
    rcases List.mem_cons.1 hs with rfl | hs
    · rw [if_pos rfl]
    · have hne : first.inclusion ≠ scope.inclusion := fun heq =>
        hnot (List.mem_map.2 ⟨scope, hs, heq.symm⟩)
      rw [if_neg hne, ih hnodup hs]

theorem findSome?_inclusions {scopes : List Scope} {f : Nat → Option Nat} {name : String}
    (hf : ∀ scope ∈ scopes, f scope.inclusion = scope.defs.get? name) :
    (scopes.map (·.inclusion)).findSome? f = scopes.findSome? (·.defs.get? name) := by
  induction scopes with
  | nil => rfl
  | cons scope scopes ih =>
    rw [List.map_cons, List.findSome?_cons, List.findSome?_cons, hf scope (List.mem_cons_self ..),
      ih fun s hs => hf s (List.mem_cons_of_mem _ hs)]

theorem eraseNearest?_fst (name : String) (scopes : List Scope) :
    (eraseNearest? name scopes).map (·.1) = scopes.findSome? (·.defs.get? name) := by
  induction scopes with
  | nil => rfl
  | cons scope scopes ih =>
    rw [eraseNearest?, List.findSome?_cons]
    cases scope.defs.get? name with
    | some id => rfl
    | none =>
      rw [← ih, Option.map_map]
      rfl

namespace Tracker

/-- The scopes of all open files, innermost first. -/
def scopes (t : Tracker) : List Scope :=
  t.innermost :: t.outer

/-- The definition at a place. -/
def lookup? (t : Tracker) : Place → Option Nat
  | .inFile s name => scoped? t.scopes s name
  | .argument i key => (t.graph.passed? i).bind (·.named.get? key)
  | .global key => t.globals.get? key

/-- A named argument is found at its place. -/
theorem namedArg?_eq (t : Tracker) {owner : Nat} (hnamed : ∀ p, t.graph.passed? owner = some p →
      p.usesNamedArgs = false → ∀ key, p.named.get? key = none) (name : String) :
    (t.graph.inclusion? owner).bind (·.namedArg? name) =
      t.lookup? (.argument owner (Text.lowercase name)) := by
  rw [Graph.passed?_eq] at hnamed
  rw [lookup?, Graph.passed?_eq]
  cases hi : t.graph.inclusion? owner with
  | none => rfl
  | some i =>
    rw [hi] at hnamed
    rw [Option.bind_some, Option.map_some, Option.bind_some, Inclusion.namedArg?]
    cases hu : i.usesNamedArgs with
    | true => rfl
    | false => exact (hnamed _ rfl hu _).symm

/-- A name is looked for at its places in order. -/
theorem resolve?_eq (t : Tracker) (hnodup : (t.scopes.map (·.inclusion)).Nodup)
    (hnamed : ∀ p, t.graph.passed? t.innermost.inclusion = some p → p.usesNamedArgs = false →
      ∀ key, p.named.get? key = none) (name : String) :
    t.resolve? name = (places t.innermost.inclusion (t.outer.map (·.inclusion)) name).findSome?
      t.lookup? := by
  have hscope : ∀ scope ∈ t.scopes,
      t.lookup? (.inFile scope.inclusion name) = scope.defs.get? name :=
    fun scope hs => scoped?_of_mem hnodup hs name
  have hinner : t.lookup? (.inFile t.innermost.inclusion name) = t.innermost.defs.get? name :=
    hscope _ (List.mem_cons_self ..)
  have houter : ((t.outer.map (·.inclusion)).map (fun s => Place.inFile s name)).findSome? t.lookup? =
      t.outer.findSome? (·.defs.get? name) := by
    rw [List.findSome?_map]
    exact findSome?_inclusions fun scope hs => hscope scope (List.mem_cons_of_mem _ hs)
  rw [resolve?, namedArg?_eq t hnamed, places, List.findSome?_cons, hinner, List.findSome?_cons,
    List.findSome?_append, houter, List.findSome?_cons, List.findSome?_nil]
  cases t.innermost.defs.get? name with
  | some id => rfl
  | none =>
    cases t.lookup? (.argument t.innermost.inclusion (Text.lowercase name)) with
    | some id => rfl
    | none =>
      cases t.outer.findSome? (·.defs.get? name) with
      | some id => rfl
      | none =>
        rw [lookup?]
        cases t.globals.get? (Text.lowercase name) <;> rfl

/-- What is removed under a name is what the name stands for. -/
theorem remove_fst (t : Tracker) (hnamed : ∀ p, t.graph.passed? t.innermost.inclusion = some p →
      p.usesNamedArgs = false → ∀ key, p.named.get? key = none) (name : String) :
    (t.remove name).1 = t.resolve? name := by
  have harg : (t.graph.inclusion? t.innermost.inclusion).bind
      (·.named.get? (Text.lowercase name)) =
      (t.graph.inclusion? t.innermost.inclusion).bind (·.namedArg? name) := by
    rw [namedArg?_eq t hnamed, lookup?, Graph.passed?_eq, Option.bind_map]
    rfl
  simp only [remove, resolve?, harg]
  cases t.innermost.defs.get? name with
  | some id => rfl
  | none =>
    cases (t.graph.inclusion? t.innermost.inclusion).bind (·.namedArg? name) with
    | some id => rfl
    | none =>
      simp only [← eraseNearest?_fst]
      cases eraseNearest? name t.outer <;> rfl

/-! ### Changes -/

variable {t : Tracker}

theorem lookup?_congr (t t' : Tracker) (hs : t'.scopes = t.scopes) (hg : t'.globals = t.globals)
    (hp : ∀ i, t'.graph.passed? i = t.graph.passed? i) (p : Place) : t'.lookup? p = t.lookup? p := by
  cases p <;> simp only [lookup?, hs, hg, hp]

theorem lookup?_record (t : Tracker) (line column : Int32) (d : Definition) (p : Place) :
    (t.record line column d).lookup? p = t.lookup? p := by
  have hpassed := t.graph.passed?_addInside_of_none (b := .definition d) t.current line column rfl
  exact lookup?_congr t (t.record line column d) rfl rfl hpassed p

/-- A definition changes the place where it is kept, if there is one. -/
theorem lookup?_define (t : Tracker) (line column : Int32) (name value : String)
    (kind : DefinitionKind) (p : Place) : (t.define line column name value kind).lookup? p =
      if definedAt t.innermost.inclusion name kind = some p then some t.graph.size
      else t.lookup? p := by
  have hrecord := fun d => lookup?_record t line column d p
  match kind with
  | .namedArgument | .numberedArgument | .undefine =>
    rw [if_neg (by simp [definedAt])]
    exact hrecord _
  | .global =>
    rw [← hrecord { kind := .global, name, value }]
    cases p with
    | global key =>
      simp [define, definedAt, lookup?, Dict.get?_insert, eq_comm]
    | _ => simp [define, definedAt, lookup?, scopes]
  | .scoped =>
    rw [← hrecord { kind := .scoped, name, value }]
    cases p with
    | inFile s n =>
      by_cases hs : t.innermost.inclusion = s
      · simp [define, definedAt, lookup?, scopes, scoped?_cons, record, hs, Dict.get?_insert, eq_comm]
      · simp [define, definedAt, lookup?, scopes, scoped?_cons, record, hs]
    | _ => simp [define, definedAt, lookup?]

/-- Whether `t'` is `t` after the place where a name was found, if it was, has been emptied. -/
structure Removed (t t' : Tracker) (target : Option Nat) : Prop where
  innermost : t'.innermost.inclusion = t.innermost.inclusion
  outer : t'.outer.map (·.inclusion) = t.outer.map (·.inclusion)
  size : t'.graph.size = t.graph.size
  definitions : ∀ e, t'.graph.definition? e = t.graph.definition? e
  passed : ∀ i, t'.graph.passed? i = t.graph.passed? i ∨
    ∃ key, t'.graph.passed? i = (t.graph.passed? i).map (·.without key)
  emptied : ∃ p, t.lookup? p = target ∧
    ∀ q, t'.lookup? q = if q = p then none else t.lookup? q

theorem removed_innermost {name : String} {id : Nat} (h : t.innermost.defs.get? name = some id) :
    Removed t { t with innermost := { t.innermost with defs := t.innermost.defs.erase name } }
      (some id) where
  innermost := rfl
  outer := rfl
  size := rfl
  definitions _ := rfl
  passed _ := .inl rfl
  emptied := by
    refine ⟨.inFile t.innermost.inclusion name, ?_, fun q => ?_⟩
    · rw [lookup?, scopes, scoped?_cons, if_pos rfl, h]
    · cases q with
      | inFile r n =>
        simp only [lookup?, scopes, scoped?_cons]
        by_cases hr : t.innermost.inclusion = r
        · simp [hr, Dict.get?_erase]
        · rw [if_neg hr, if_neg hr, if_neg fun h => hr (Place.inFile.inj h).1.symm]
      | argument | global =>
        rw [if_neg (by simp)]
        rfl

theorem removed_argument {key : String} {id : Nat}
    (h : t.lookup? (.argument t.innermost.inclusion key) = some id) :
    Removed t { t with
      graph := t.graph.modifyInclusion t.innermost.inclusion
        (fun i => { i with named := i.named.erase key }) } (some id) := by
  have hpassed := t.graph.passed?_modifyInclusion t.innermost.inclusion
    (f := fun i => { i with named := i.named.erase key }) (k := (·.without key)) fun i => rfl
  refine ⟨rfl, rfl, Graph.size_modifyInclusion .., fun _ => Graph.definition?_modifyInclusion ..,
    fun i => ?_, .argument t.innermost.inclusion key, h, fun q => ?_⟩
  · rw [hpassed]
    by_cases hi : t.innermost.inclusion = i
    · exact .inr ⟨key, if_pos hi⟩
    · exact .inl (if_neg hi)
  · cases q with
    | argument i k =>
      simp only [lookup?, hpassed]
      by_cases hi : t.innermost.inclusion = i
      · cases hp : t.graph.passed? i with
        | none => simp
        | some p => simp [hi, Passed.without, Dict.get?_erase]
      · rw [if_neg hi, if_neg fun h => hi (Place.argument.inj h).1.symm]
    | inFile | global =>
      rw [if_neg (by simp)]
      rfl

theorem removed_outer {name : String} {id : Nat} {outer : List Scope}
    (hnodup : (t.scopes.map (·.inclusion)).Nodup)
    (h : eraseNearest? name t.outer = some (id, outer)) :
    Removed t { t with outer := outer } (some id) := by
  obtain ⟨hnot, hnodup⟩ := List.nodup_cons.1 hnodup
  obtain ⟨hmap, s, hs, hid, herase⟩ := eraseNearest?_eq_some h hnodup
  have hne : t.innermost.inclusion ≠ s := by
    rintro rfl
    exact hnot hs
  refine ⟨rfl, hmap, rfl, fun _ => rfl, fun _ => .inl rfl, .inFile s name, ?_, fun q => ?_⟩
  · rw [lookup?, scopes, scoped?_cons, if_neg hne, hid]
  · cases q with
    | inFile r n =>
      simp only [lookup?, scopes, scoped?_cons, herase, Place.inFile.injEq]
      by_cases hr : t.innermost.inclusion = r
      · rw [if_pos hr, if_pos hr, if_neg fun h => hne (hr.trans h.1)]
      · rw [if_neg hr, if_neg hr]
    | argument | global =>
      rw [if_neg (by simp)]
      rfl

theorem removed_global (t : Tracker) (key : String) :
    Removed t { t with globals := t.globals.erase key } (t.globals.get? key) where
  innermost := rfl
  outer := rfl
  size := rfl
  definitions _ := rfl
  passed _ := .inl rfl
  emptied := by
    refine ⟨.global key, rfl, fun q => ?_⟩
    cases q with
    | global k => simp [lookup?, Dict.get?_erase]
    | inFile | argument =>
      rw [if_neg (by simp)]
      rfl

/-- Removing a name empties one place and keeps everything else. -/
theorem removed_remove (t : Tracker) (hnodup : (t.scopes.map (·.inclusion)).Nodup) (name : String) :
    Removed t (t.remove name).2 (t.remove name).1 := by
  have hnamed : (t.graph.inclusion? t.innermost.inclusion).bind
      (·.named.get? (Text.lowercase name)) =
      t.lookup? (.argument t.innermost.inclusion (Text.lowercase name)) := by
    rw [lookup?, Graph.passed?_eq, Option.bind_map]
    rfl
  simp only [remove, hnamed]
  cases hinner : t.innermost.defs.get? name with
  | some id => exact removed_innermost hinner
  | none =>
    cases harg : t.lookup? (.argument t.innermost.inclusion (Text.lowercase name)) with
    | some id => exact removed_argument harg
    | none =>
      cases hout : eraseNearest? name t.outer with
      | some r => exact removed_outer hnodup hout
      | none => exact removed_global t _

/-- A file that is read next has nothing of its own yet. -/
theorem lookup?_openFile (t : Tracker) (hlt : ∀ s ∈ t.scopes.map (·.inclusion), s < t.graph.size)
    (line column fileIndex : Int32) (name : String) (p : Place) :
    (t.openFile line column fileIndex name).lookup? p = t.lookup? p := by
  cases p with
  | inFile s n =>
    have hscopes : (t.openFile line column fileIndex name).scopes =
        { inclusion := t.graph.size } :: t.scopes := rfl
    rw [lookup?, hscopes, scoped?_cons, lookup?]
    by_cases hs : t.graph.size = s
    · have hnot : s ∉ t.scopes.map (·.inclusion) := fun h => Nat.ne_of_gt (hlt s h) hs
      rw [if_pos hs, scoped?_of_not_mem hnot]
      rfl
    · rw [if_neg hs]
  | argument i key =>
    rw [lookup?, openFile, Graph.passed?_addInside, lookup?]
    by_cases hi : i = t.graph.size
    · rw [if_pos hi, t.graph.passed?_of_size_le (Nat.le_of_eq hi.symm)]
      rfl
    · rw [if_neg hi]
  | global key => rfl

/-- The end of a file takes its definitions away. -/
theorem lookup?_closeFile (hnodup : (t.scopes.map (·.inclusion)).Nodup) {scope : Scope}
    {rest : List Scope} (h : t.outer = scope :: rest) (line column : Int32) (p : Place) :
    (t.closeFile line column).lookup? p =
      if p.isIn t.innermost.inclusion then none else t.lookup? p := by
  have hpassed := t.graph.passed?_modifyInclusion t.current
    (f := fun i => { i with endLine := line, endColumn := column }) (k := id) fun i => rfl
  simp only [Option.map_id_fun, id_eq, ite_self] at hpassed
  rw [closeFile, h]
  cases p with
  | inFile s n =>
    have hscopes : t.scopes = t.innermost :: scope :: rest := by rw [scopes, h]
    rw [hscopes] at hnodup
    simp only [lookup?, Place.isIn, beq_iff_eq, hscopes, scoped?_cons t.innermost]
    by_cases hs : s = t.innermost.inclusion
    · rw [if_pos hs, hs]
      exact scoped?_of_not_mem (List.nodup_cons.1 hnodup).1 n
    · rw [if_neg hs, if_neg (Ne.symm hs)]
      rfl
  | argument i key => simp [lookup?, hpassed, Place.isIn]
  | global key => rfl

/-- Whether `t'` is `t` after an argument of the file being read, which had been passed `p`. -/
structure Took (t t' : Tracker) (p : Passed) (name : String) : Prop where
  innermost : t'.innermost = t.innermost
  outer : t'.outer = t.outer
  globals : t'.globals = t.globals
  size : t'.graph.size = t.graph.size + 1
  undefined : ∀ id, t'.graph.Undefined id ↔ t.graph.Undefined id
  passed : ∀ i, t'.graph.passed? i = if i = t.innermost.inclusion then
    some (p.take (Text.count? name == some (p.args.size + 1)) name t.graph.size)
    else t.graph.passed? i

theorem took_argument {p : Passed} (h : t.graph.passed? t.innermost.inclusion = some p)
    (name value : String) (undefined : Bool) : Took t (t.argument name value undefined) p name := by
  have hlt := t.graph.lt_size_of_passed? h
  have hevent : t.graph.event? t.innermost.inclusion = some t.graph.events[t.innermost.inclusion] :=
    Array.getElem?_eq_getElem hlt
  rw [Graph.passed?_eq] at h
  obtain ⟨i, hi, rfl⟩ := Option.map_eq_some_iff.1 h
  generalize hn : (Text.count? name == some (i.args.size + 1)) = numbered
  have htake : ∀ j : Inclusion, (EventBody.inclusion (if numbered then j.addNumbered t.graph.size
      else j.addNamed name t.graph.size)).passed? =
      (EventBody.inclusion j).passed?.map (·.take numbered name t.graph.size) := by
    intro j
    cases numbered <;> rfl
  simp only [argument, hevent, hi, hn]
  refine ⟨rfl, rfl, rfl, ?_, fun id => ?_, fun j => ?_⟩
  · rw [Graph.size_modifyInclusion, Graph.size_add]
  · rw [Graph.undefined_congr (Graph.definition?_modifyInclusion _ _ _),
      Graph.undefined_of_definition? (t.graph.definition?_add _)]
    refine or_iff_left ?_
    rintro ⟨d, hd, hkind, -⟩
    obtain rfl := Option.some.inj hd
    cases numbered <;> simp at hkind
  · rw [Graph.passed?_modifyInclusion _ _ htake, Graph.passed?, Graph.body?_add]
    by_cases hj : j = t.innermost.inclusion
    · rw [if_pos hj.symm, if_pos hj, hj, if_neg (Nat.ne_of_lt hlt), ← Graph.passed?, Graph.passed?_eq,
        hi, ← hn]
      rfl
    · rw [if_neg (Ne.symm hj), if_neg hj]
      by_cases hs : j = t.graph.size
      · rw [if_pos hs, t.graph.passed?_of_size_le (Nat.le_of_eq hs.symm)]
        rfl
      · rw [if_neg hs]
        rfl

/-- An argument passed by name changes the place where it is kept. -/
theorem Took.lookup? {t' : Tracker} {p : Passed} {name : String} (h : Took t t' p name)
    (hp : t.graph.passed? t.innermost.inclusion = some p) (q : Place) : t'.lookup? q =
      if argumentAt t.innermost.inclusion p.args.size name = some q then some t.graph.size
      else t.lookup? q := by
  cases q with
  | argument i key =>
    rw [Tracker.lookup?, h.passed, Tracker.lookup?, argumentAt]
    by_cases hi : i = t.innermost.inclusion
    · subst hi
      rw [if_pos rfl, hp]
      by_cases hn : Text.count? name = some (p.args.size + 1)
      · simp [Passed.take, hn]
      · by_cases hk : key = Text.lowercase name
        · simp [Passed.take, hn, Dict.get?_insert, hk]
        · simp [Passed.take, hn, Dict.get?_insert, hk, Ne.symm hk]
    · have hne : ∀ k, some (Place.argument t.innermost.inclusion k) ≠ some (.argument i key) :=
        fun k h => hi (Place.argument.inj (Option.some.inj h)).1.symm
      rw [if_neg hi, if_neg]
      split
      · simp
      · exact hne _
  | inFile s n =>
    rw [if_neg argumentAt_ne_scoped, Tracker.lookup?, Tracker.lookup?, scopes, h.innermost, h.outer]
    rfl
  | global key =>
    have hne : argumentAt t.innermost.inclusion p.args.size name ≠ some (.global key) := by
      unfold argumentAt
      split <;> simp
    rw [if_neg hne, Tracker.lookup?, h.globals]
    rfl

end Tracker

end AblAnalysis.Preprocessor
