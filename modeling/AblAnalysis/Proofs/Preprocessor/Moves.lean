import AblAnalysis.Proofs.Preprocessor.Growth
import AblAnalysis.Proofs.Preprocessor.Resolution

/-!
What callbacks do to the events. Every callback makes one of seven moves (`Follows.move`): it changes
no link, adds an event inside the current reference or an argument of the file being read, or goes
back to the reference around the current one.
-/

namespace AblAnalysis.Preprocessor

/-- The kind of the definitions that are kept at a place. -/
def Place.kind : Place → DefinitionKind
  | .inFile _ _ => .scoped
  | .argument _ _ => .namedArgument
  | .global _ => .global

theorem kind_of_definedAt {innermost : Nat} {name : String} {kind : DefinitionKind} {p : Place}
    (hp : definedAt innermost name kind = some p) : kind = p.kind := by
  match kind, hp with
  | .global, hp | .scoped, hp =>
    obtain rfl := Option.some.inj hp
    rfl

/-- The event of an argument that comes after some number of others. -/
def argumentEvent (owner passed : Nat) (name value : String) (undefined : Bool) : Definition :=
  let numbered := Text.count? name == some (passed + 1)
  { kind := if numbered then .numberedArgument else .namedArgument
    name := if numbered then "" else name
    value := value
    inclusion := some owner
    undefined := undefined }

/-- What a callback can do to the events, to the place where new events happen and to the history. -/
inductive Move (h : History) (t : Tracker) (c : Callback) (h' : History) (t' : Tracker) : Prop
  /-- Nothing happens. -/
  | still : t.graph.Alike t'.graph → t'.current = t.current → h' = h → Move h t c h' t'
  /-- A definition, or the end of one. -/
  | record {d : Definition} {place : Option Place} : d.inclusion = none →
      (∀ id, d.undefines = some id → ∃ p, (id, p) ∈ h.made) →
      (∀ p, place = some p → d.kind = p.kind) →
      t.graph.Inside t'.graph t.current (.definition d) → t'.current = t.current →
      h' = h.event place → Move h t c h' t'
  /-- A file begins. -/
  | enter {fileIndex : Int32} : t.graph.Inside t'.graph t.current (.inclusion fileIndex) →
      t'.current = t.graph.size → h' = h.enter → Move h t c h' t'
  /-- The expansion of a name begins. -/
  | expand {definition : Option Nat} : (∀ id, definition = some id → ∃ p, (id, p) ∈ h.made) →
      t.graph.Inside t'.graph t.current (.expansion definition) → t'.current = t.graph.size →
      h' = h.event none → Move h t c h' t'
  /-- The file being read is passed an argument. -/
  | pass (name value : String) (undefined : Bool) :
      t.graph.Beside t'.graph h.innermost
        (argumentEvent h.innermost (t.graph.args h.innermost).length name value undefined) →
      t'.current = t.current → h' = h.pass name → Move h t c h' t'
  /-- An included file ends. -/
  | leave (line column : Int32) : c = .closeFile line column → t.graph.Alike t'.graph →
      t'.current = t.around → h.outer ≠ [] → h' = h.leave → Move h t c h' t'
  /-- The expansion of a name ends. -/
  | finish {definition : Option Nat} : t.graph.nature? t.current = some (.expansion definition) →
      t.graph.Alike t'.graph → t'.current = t.around → h' = h → Move h t c h' t'

theorem Tracker.alike_remove (t : Tracker) (name : String) :
    t.graph.Alike (t.remove name).2.graph ∧ (t.remove name).2.current = t.current := by
  simp only [remove]
  split
  · exact ⟨.refl _, rfl⟩
  · split
    · exact ⟨t.graph.alike_modifyInclusion _ fun i => ⟨rfl, rfl, rfl⟩, rfl⟩
    · split <;> exact ⟨.refl _, rfl⟩

namespace Follows

variable {h : History} {t : Tracker}

theorem move_define (hc : t.graph.isRef t.current = true) (line column : Int32)
    (name value : String) (kind : DefinitionKind) :
    Move h t (.define line column name value kind) (h.event (definedAt h.innermost name kind))
      (t.define line column name value kind) := by
  let d : Definition := { kind := kind, name := name, value := value }
  have hundefines : ∀ id, d.undefines = some id → ∃ p, (id, p) ∈ h.made := by simp [d]
  have hinside := t.graph.inside_addInside hc line column (b := .definition d) rfl rfl
  cases kind <;> exact .record (d := d) rfl hundefines (fun p => kind_of_definedAt) hinside rfl rfl

theorem move_undefine (hf : Follows h t) (hc : t.graph.isRef t.current = true) (line column : Int32)
    (name : String) :
    Move h t (.undefine line column name) (h.event none) (t.undefine line column name) := by
  obtain ⟨halike, hcurrent⟩ := t.alike_remove name
  let d : Definition := { kind := .undefine, name := name, undefines := (t.remove name).1 }
  have hgraph : (t.undefine line column name).graph =
      (t.remove name).2.graph.addInside t.current line column (.definition d) := by
    rw [← hcurrent]
    rfl
  have hinside := (t.remove name).2.graph.inside_addInside ((halike.isRef _).trans hc) line column
    (b := .definition d) rfl rfl
  rw [← hgraph] at hinside
  refine .record (d := d) rfl (fun id hid => ?_) (by simp) (halike.inside hinside) hcurrent rfl
  obtain ⟨p, hp, -⟩ := (t.removed_remove hf.nodup name).emptied
  exact ⟨p, ((hf.kept id p).1 (hp.trans hid)).made⟩

theorem move_openName (hf : Follows h t) (hc : t.graph.isRef t.current = true) (line column : Int32)
    (name : String) :
    Move h t (.openName line column name) (h.event none) (t.openName line column name) := by
  refine .expand (fun id hid => ?_) (t.graph.inside_addInside hc line column rfl rfl) rfl rfl
  have hresolves := hf.resolves name
  have hname : t.resolve? name = some id := hid
  rw [hname] at hresolves
  obtain ⟨before, p, after, -, hlive, -⟩ := hresolves
  exact ⟨p, hlive.made⟩

theorem inclusion?_innermost (hf : Follows h t) : ∃ i, t.graph.inclusion? h.innermost = some i := by
  obtain ⟨p, hp⟩ := hf.records.inclusion h.innermost (List.mem_cons_self ..)
  rw [Graph.passed?_eq] at hp
  obtain ⟨i, hi, -⟩ := Option.map_eq_some_iff.1 hp
  exact ⟨i, hi⟩

/-- The inclusion whose file is being read gets one more argument. -/
theorem beside_argument (hf : Follows h t) (name value : String) (undefined : Bool) :
    t.graph.Beside (t.argument name value undefined).graph h.innermost
      (argumentEvent h.innermost (t.graph.args h.innermost).length name value undefined) := by
  obtain ⟨i, hi⟩ := hf.inclusion?_innermost
  have hbody := t.graph.body?_of_inclusion? hi
  obtain ⟨e, he, -⟩ := Option.map_eq_some_iff.1 hbody
  have hparent : t.graph.parent? h.innermost = e.parent := by rw [Graph.parent?, he, Option.bind_some]
  have hargs : (t.graph.args h.innermost).length = i.args.size := by
    rw [Graph.args, hbody]
    rfl
  let numbered := Text.count? name == some (i.args.size + 1)
  let d := argumentEvent h.innermost i.args.size name value undefined
  have hbeside := t.graph.beside_add hi e.line e.column d
    (f := fun i => if numbered then i.addNumbered t.graph.size else i.addNamed name t.graph.size)
    fun i => by cases numbered <;> exact ⟨rfl, rfl, rfl⟩
  have hstep : (t.argument name value undefined).graph =
      (t.graph.add ⟨t.graph.parent? h.innermost, e.line, e.column, .definition d⟩).modifyInclusion
        h.innermost (fun i =>
          if numbered then i.addNumbered t.graph.size else i.addNamed name t.graph.size) := by
    rw [Tracker.argument, hf.innermost, he, hi, hparent]
    rfl
  rw [hstep, hargs]
  exact hbeside

theorem move_argument (hf : Follows h t) (name value : String) (undefined : Bool) :
    Move h t (.argument name value undefined) (h.pass name)
      (t.argument name value undefined) := by
  have hcurrent : (t.argument name value undefined).current = t.current := by
    rw [Tracker.argument]
    split <;> rfl
  exact .pass name value undefined (hf.beside_argument name value undefined) hcurrent rfl

theorem move_closeFile (hf : Follows h t) (line column : Int32) :
    Move h t (.closeFile line column) h.leave (t.closeFile line column) := by
  have houter := hf.outer
  rw [Tracker.closeFile]
  cases hscopes : t.outer with
  | nil =>
    rw [hscopes] at houter
    refine .still (.refl _) rfl ?_
    rw [History.leave, ← houter]
    rfl
  | cons scope rest =>
    rw [hscopes] at houter
    refine .leave line column rfl (t.graph.alike_modifyInclusion _ fun i => ⟨rfl, rfl, rfl⟩) rfl ?_ rfl
    simp [← houter]

theorem move_closeName (h : History) (t : Tracker) (line column : Int32) :
    Move h t (.closeName line column) h (t.closeName line column) := by
  rw [Tracker.closeName]
  cases he : t.graph.expansion? t.current with
  | none => exact .still (.refl _) rfl rfl
  | some e =>
    have halike := t.graph.alike_modifyBody t.current (f := (·.close line column)) fun b =>
      ⟨b.nature_close line column, b.children_close line column, b.args_close line column⟩
    exact .finish (t.graph.exists_expansion?_iff.1 ⟨e, he, rfl⟩) halike rfl rfl

/-- Every callback does one of the moves. -/
theorem move (hf : Follows h t) (hc : t.graph.isRef t.current = true) (c : Callback) :
    Move h t c (h.step c) (t.step c) := by
  cases c with
  | define line column name value kind => exact move_define hc line column name value kind
  | undefine line column name => exact hf.move_undefine hc line column name
  | openFile line column fileIndex name =>
    exact .enter (t.graph.inside_addInside hc line column rfl rfl) rfl rfl
  | argument name value undefined => exact hf.move_argument name value undefined
  | closeFile line column => exact hf.move_closeFile line column
  | openName line column name => exact hf.move_openName hc line column name
  | closeName line column => exact move_closeName h t line column
  | condition => exact .still (.refl _) rfl rfl
  | suspend text line =>
    simp only [Tracker.step, Tracker.suspend]
    split <;> exact .still (.refl _) rfl rfl
  | resume line =>
    simp only [Tracker.step, Tracker.resume]
    split
    · exact .still (.refl _) rfl rfl
    · split <;> exact .still (.refl _) rfl rfl

end Follows

end AblAnalysis.Preprocessor
