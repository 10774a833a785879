import AblAnalysis.Proofs.Preprocessor.Nesting

/-!
Where the text of definitions comes from. A definition counts where it stands, an argument where the
inclusion stands that it was passed to. If that place is in an expansion, the text comes from the
definition that was expanded, and so on (`Graph.Trail`). Expansions are of earlier definitions, so a
trail goes backwards and its turns are fewer than the events.

What stands nowhere is what the main file was passed: it is reported at the place of the main file.
-/

namespace AblAnalysis.Preprocessor

namespace Graph

variable {id : Nat}

/-! ### Places -/

/-- Line and column of an event. -/
def place? (g : Graph) (id : Nat) : Option (Int32 × Int32) :=
  (g.event? id).map fun e => (e.line, e.column)

@[simp] theorem place?_modifyBody (g : Graph) (j : Nat) (f : EventBody → EventBody) (id : Nat) :
    (g.modifyBody j f).place? id = g.place? id := by
  rw [place?, event?, modifyBody, Array.getElem?_modify, place?, event?]
  split
  · rw [Option.map_map]
    rfl
  · rfl

@[simp] theorem place?_modifyInclusion (g : Graph) (j : Nat) (f : Inclusion → Inclusion) (id : Nat) :
    (g.modifyInclusion j f).place? id = g.place? id :=
  g.place?_modifyBody ..

theorem place?_add (g : Graph) (e : Event) (id : Nat) :
    (g.add e).place? id = if id = g.size then some (e.line, e.column) else g.place? id := by
  rw [place?, event?, add, Array.getElem?_push, ← size]
  split <;> rfl

theorem place?_addInside (g : Graph) (p : Nat) (line column : Int32) (b : EventBody)
    (hid : id < g.size) : (g.addInside p line column b).place? id = g.place? id := by
  rw [addInside, place?_modifyBody, place?_add, if_neg (Nat.ne_of_lt hid)]

end Graph

namespace Tracker

theorem place?_remove (t : Tracker) (name : String) (id : Nat) :
    (t.remove name).2.graph.place? id = t.graph.place? id := by
  simp only [remove]
  split
  · rfl
  · split
    · exact Graph.place?_modifyInclusion ..
    · split <;> rfl

/-- No callback moves an event. -/
theorem place?_step (t : Tracker) (c : Callback) {id : Nat} (hid : id < t.graph.size) :
    (t.step c).graph.place? id = t.graph.place? id := by
  cases c with
  | define line column name value kind => cases kind <;> exact t.graph.place?_addInside _ _ _ _ hid
  | undefine line column name =>
    have hsize : (t.remove name).2.graph.size = t.graph.size := (t.alike_remove name).1.size
    have hkept := (t.remove name).2.graph.place?_addInside (t.remove name).2.current line column
      (.definition { kind := .undefine, name := name, undefines := (t.remove name).1 })
      (hsize ▸ hid)
    exact hkept.trans (t.place?_remove name id)
  | openFile | openName => exact t.graph.place?_addInside _ _ _ _ hid
  | argument name value undefined =>
    simp only [step, argument]
    split
    · rw [Graph.place?_modifyInclusion, Graph.place?_add, if_neg (Nat.ne_of_lt hid)]
    · rfl
  | closeFile line column =>
    simp only [step, closeFile]
    split
    · rfl
    · exact Graph.place?_modifyInclusion ..
  | closeName line column =>
    simp only [step, closeName]
    split
    · exact Graph.place?_modifyBody ..
    · rfl
  | condition => rfl
  | suspend text line =>
    simp only [step, suspend]
    split <;> rfl
  | resume line =>
    simp only [step, resume]
    split
    · rfl
    · split <;> rfl

/-- An argument stands where the inclusion stands that it was passed to. -/
theorem place?_argument {t : Tracker} {i : Inclusion}
    (hi : t.graph.inclusion? t.innermost.inclusion = some i) (name value : String)
    (undefined : Bool) : (t.argument name value undefined).graph.place? t.graph.size =
      t.graph.place? t.innermost.inclusion := by
  obtain ⟨e, he, -⟩ := Option.map_eq_some_iff.1 (t.graph.body?_of_inclusion? hi)
  simp only [argument, he, hi]
  rw [Graph.place?_modifyInclusion, Graph.place?_add, if_pos rfl, Graph.place?, he, Option.map_some]

end Tracker

/-! ### Arguments -/

/-- Whether a callback passes an argument. -/
def Callback.IsArgument (c : Callback) : Prop :=
  ∃ name value undefined, c = .argument name value undefined

theorem History.passed_leave (h : History) : h.leave.passed = h.passed := by
  rw [leave]
  split <;> rfl

/-- Nothing but an argument adds to the arguments of a history. -/
theorem History.passed_step_eq_iff (h : History) (c : Callback) :
    (h.step c).passed = h.passed ↔ ¬ c.IsArgument := by
  cases c with
  | argument name value undefined =>
    exact iff_of_false (List.cons_ne_self _ _) fun hnot => hnot ⟨name, value, undefined, rfl⟩
  | closeFile => exact iff_of_true h.passed_leave (by simp [Callback.IsArgument])
  | _ => exact iff_of_true rfl (by simp [Callback.IsArgument])

/-- An event that is no argument is passed to nothing. -/
theorem Graph.Inside.owner?_eq {g g' : Graph} {p : Nat} {nature : Nature}
    (h : g.Inside g' p nature) (howner : nature.owner? = none) (id : Nat) :
    g'.owner? id = g.owner? id := by
  rw [h.toAdds.owner?, howner]
  split
  · rename_i hid
    rw [hid, owner?_of_size_le (Nat.le_refl _)]
  · rfl

/-- The arguments after a callback are those before, and the one that the file being read is
passed. -/
theorem Grounded.owner?_step {h : History} {t : Tracker} (hg : Grounded h t) (c : Callback)
    (id i : Nat) : (t.step c).graph.owner? id = some i ↔
      t.graph.owner? id = some i ∨
        c.IsArgument ∧ id = t.graph.size ∧ i = t.innermost.inclusion := by
  have hpassed := h.passed_step_eq_iff c
  suffices hcases : ¬ c.IsArgument ∧ (t.step c).graph.owner? id = t.graph.owner? id ∨
      c.IsArgument ∧ (t.step c).graph.owner? id =
        if id = t.graph.size then some t.innermost.inclusion else t.graph.owner? id by
    rcases hcases with ⟨hc, heq⟩ | ⟨hc, heq⟩ <;> rw [heq]
    · simp [hc]
    · split
      · rename_i hid
        rw [hid, Graph.owner?_of_size_le (Nat.le_refl _)]
        simp [hc, eq_comm]
      · simp [*]
  cases hg.follows.move hg.current c with
  | still halike _ hh => exact .inl ⟨hpassed.1 (by rw [hh]), halike.owner? id⟩
  | record howner _ _ hinside _ hh =>
    exact .inl ⟨hpassed.1 (by rw [hh]; rfl), hinside.owner?_eq howner id⟩
  | enter hinside _ hh => exact .inl ⟨hpassed.1 (by rw [hh]; rfl), hinside.owner?_eq rfl id⟩
  | expand _ hinside _ hh => exact .inl ⟨hpassed.1 (by rw [hh]; rfl), hinside.owner?_eq rfl id⟩
  | pass name value undefined hbeside _ hh =>
    refine .inr ⟨Classical.not_not.1 fun hc => ?_, ?_⟩
    · rw [← hpassed, hh] at hc
      exact List.cons_ne_self _ _ hc
    · rw [hbeside.toAdds.owner?, hg.follows.innermost]
      rfl
  | leave _ _ _ halike _ _ hh =>
    exact .inl ⟨hpassed.1 (by rw [hh, h.passed_leave]), halike.owner? id⟩
  | finish _ halike _ hh => exact .inl ⟨hpassed.1 (by rw [hh]), halike.owner? id⟩

/-! ### Trails -/

namespace Graph

variable {g : Graph} {id next last : Nat}

/-- Whether the main file stands at the beginning, and arguments stand where the inclusion stands that
they were passed to. -/
structure Anchored (g : Graph) : Prop where
  root : g.place? 0 = some (0, 0)
  argument : ∀ id i, g.owner? id = some i → g.place? id = g.place? i

/-- The event whose place counts for a definition. -/
def anchor (g : Graph) (id : Nat) : Nat :=
  (g.owner? id).getD id

/-- Whether the place of a definition is in an expansion of another one. -/
def ComesFrom (g : Graph) (id next : Nat) : Prop :=
  ∃ p, g.parent? (g.anchor id) = some p ∧ g.nature? p = some (.expansion (some next))

/-- The definitions that a definition comes from, beginning with itself, up to one that comes from no
other. -/
inductive Trail (g : Graph) : Nat → List Nat → Nat → Prop
  | ends {id : Nat} : (∀ next, ¬ g.ComesFrom id next) → Trail g id [id] id
  | onward {id next last : Nat} {rest : List Nat} : g.ComesFrom id next →
    Trail g next rest last → Trail g id (id :: rest) last

/-- Where the last definition of a trail comes from. -/
inductive Origin (g : Graph) (last : Nat) : Position → Prop
  /-- Its place in the file around it. -/
  | inclusion {p : Nat} {i : Inclusion} {e : Event} : g.parent? (g.anchor last) = some p →
    g.inclusion? p = some i → g.event? (g.anchor last) = some e →
    Origin g last ⟨i.fileIndex, e.line, e.column⟩
  /-- Its own line and column, in the file of the nearest inclusion around an expansion of a name that
  stands for nothing. -/
  | unresolved {p a : Nat} {i : Inclusion} {e : Event} : g.parent? (g.anchor last) = some p →
    g.nature? p = some (.expansion none) → g.Nearest p a → g.inclusion? a = some i →
    g.event? last = some e → Origin g last ⟨i.fileIndex, e.line, e.column⟩
  /-- The beginning of the main file, which was passed it. -/
  | passedToMain : g.owner? last = some 0 → Origin g last ⟨0, 0, 0⟩

/-- Definitions come from earlier definitions. -/
theorem Linked.lt_of_comesFrom (hl : g.Linked) (h : g.ComesFrom id next) :
    next < id ∧ ∃ d, g.definition? next = some d := by
  obtain ⟨p, hp, hn⟩ := h
  have htarget : g.target? p = some next := by
    rw [Graph.target?, hn]
    rfl
  obtain ⟨hlt, d, hd, -⟩ := hl.target p next htarget
  have hparent := (hl.parent _ p hp).1
  have hanchor : g.anchor id ≤ id := by
    rw [anchor]
    cases ho : g.owner? id with
    | none => exact Nat.le_refl id
    | some i => exact Nat.le_of_lt (hl.owner id i ho).1
  exact ⟨by omega, d, hd⟩

/-- Every definition has a trail. -/
theorem Linked.exists_trail (hl : g.Linked) (id : Nat) : ∃ trail last, g.Trail id trail last := by
  induction id using Nat.strong_induction_on with
  | _ id ih =>
    by_cases h : ∃ next, g.ComesFrom id next
    · obtain ⟨next, hnext⟩ := h
      obtain ⟨trail, last, htrail⟩ := ih next (hl.lt_of_comesFrom hnext).1
      exact ⟨_, last, .onward hnext htrail⟩
    · exact ⟨_, id, .ends fun next hnext => h ⟨next, hnext⟩⟩

/-- A trail goes backwards. -/
theorem Trail.decreases {trail : List Nat} (h : g.Trail id trail last) (hl : g.Linked) :
    trail.Pairwise (· > ·) ∧ ∀ a ∈ trail, a ≤ id := by
  induction h with
  | ends => exact ⟨List.pairwise_singleton .., fun a ha => Nat.le_of_eq (List.mem_singleton.1 ha)⟩
  | onward hnext _ ih =>
    have hlt := (hl.lt_of_comesFrom hnext).1
    refine ⟨List.pairwise_cons.2 ⟨fun a ha => ?_, ih.1⟩, fun a ha => ?_⟩
    · have := ih.2 a ha
      omega
    · rcases List.mem_cons.1 ha with rfl | ha
      · exact Nat.le_refl _
      · have := ih.2 a ha
        omega

/-- A trail has no more definitions than there are events up to the first of it. -/
theorem Trail.length_le {trail : List Nat} (h : g.Trail id trail last) (hl : g.Linked) :
    trail.length ≤ id + 1 := by
  induction h with
  | ends => simp
  | onward hnext _ ih =>
    have hlt := (hl.lt_of_comesFrom hnext).1
    rw [List.length_cons]
    omega

/-! ### Turns -/

theorem anchor_of_definition? {d : Definition} (hd : g.definition? id = some d) :
    g.anchor id = d.inclusion.getD id := by
  rw [anchor, owner?, (g.definition?_eq_some_iff).1 hd]
  rfl

theorem exists_event?_of_lt (hid : id < g.size) : ∃ e, g.event? id = some e :=
  ⟨_, Array.getElem?_eq_getElem hid⟩

theorem parent?_of_event? {e : Event} (he : g.event? id = some e) : g.parent? id = e.parent := by
  rw [parent?, he, Option.bind_some]

theorem lt_size_of_definition? {d : Definition} (hd : g.definition? id = some d) : id < g.size := by
  rw [definition?_eq] at hd
  obtain ⟨b, hb, -⟩ := Option.bind_eq_some_iff.1 hd
  exact g.exists_body?_iff.1 ⟨b, hb⟩

theorem fileIndexOf_of_inclusion? {i : Inclusion} (hi : g.inclusion? id = some i) :
    g.fileIndexOf id = i.fileIndex := by
  obtain ⟨e, he, hbody⟩ := Option.map_eq_some_iff.1 (g.body?_of_inclusion? hi)
  rw [fileIndexOf, he]
  simp only [hbody]

theorem Linked.fileIndexOf_eq_parent (hl : g.Linked) {p : Nat} (hnot : ¬ g.IsInclusion id)
    (hp : g.parent? id = some p) : g.fileIndexOf id = g.fileIndexOf p := by
  obtain ⟨e, he, hparent⟩ := Option.bind_eq_some_iff.1 hp
  rw [fileIndexOf, he]
  cases hbody : e.body with
  | inclusion i =>
    have hi : g.inclusion? id = some i := by rw [inclusion?, body?, he, Option.map_some, hbody]
    exact absurd ⟨i, hi⟩ hnot
  | definition | expansion => simp only [hbody, hparent, if_pos (hl.parent id p hp).1]

/-- What is inside a reference comes from the file of the nearest inclusion around it. -/
theorem Nearest.fileIndexOf_eq {a : Nat} (h : g.Nearest id a) (hl : g.Linked) {i : Inclusion}
    (hi : g.inclusion? a = some i) : g.fileIndexOf id = i.fileIndex := by
  induction h with
  | here => exact fileIndexOf_of_inclusion? hi
  | outward hnot hp _ ih => exact (hl.fileIndexOf_eq_parent hnot hp).trans (ih hi)

/-- A definition has a place, and so has what counts for it. -/
theorem Linked.exists_anchor (hl : g.Linked) {d : Definition} (hd : g.definition? id = some d) :
    ∃ e a, g.event? id = some e ∧ g.event? (g.anchor id) = some a := by
  have hid := lt_size_of_definition? hd
  obtain ⟨e, he⟩ := exists_event?_of_lt hid
  have hanchor : g.anchor id < g.size := by
    rw [anchor]
    cases ho : g.owner? id with
    | none => exact hid
    | some i => exact Nat.lt_trans (hl.owner id i ho).1 hid
  obtain ⟨a, ha⟩ := exists_event?_of_lt hanchor
  exact ⟨e, a, he, ha⟩

/-- What stands in no reference was passed to the main file. -/
theorem Linked.owner?_eq_zero (hl : g.Linked) {d : Definition} (hd : g.definition? id = some d)
    (hparent : g.parent? (g.anchor id) = none) : g.owner? id = some 0 := by
  obtain ⟨-, a, -, ha⟩ := hl.exists_anchor hd
  have hlt : g.anchor id < g.size := (Array.getElem?_eq_some_iff.1 ha).1
  have horphan := hl.orphan _ hlt hparent
  rw [anchor] at horphan
  cases ho : g.owner? id with
  | some i =>
    rw [ho, Option.getD_some, owner?_of_isRef (hl.owner id i ho).2.1.isRef] at horphan
    rw [horphan.resolve_right (by simp)]
  | none =>
    rw [ho, Option.getD_none, ho] at horphan
    obtain rfl := horphan.resolve_right (by simp)
    obtain ⟨f, hf⟩ := isInclusion_iff.1 hl.root.1
    rw [(g.definition?_eq_some_iff).1 hd] at hf
    exact absurd hf (by simp)

/-- What was passed to the main file stands at its beginning. -/
theorem Linked.position_eq_zero (hl : g.Linked) (hplaces : g.Anchored)
    (howner : g.owner? id = some 0) : g.position id = ⟨0, 0, 0⟩ := by
  obtain ⟨e, he⟩ := exists_event?_of_lt (lt_size_of_owner? howner)
  have hparent : e.parent = none := by
    rw [← parent?_of_event? he, (hl.owner id 0 howner).2.2, hl.root.2]
  have hplace := (hplaces.argument id 0 howner).trans hplaces.root
  rw [place?, he, Option.map_some, Option.some.injEq, Prod.mk.injEq] at hplace
  simp only [position, he, hparent, hplace.1, hplace.2]

/-- A turn at a definition that comes from another one goes on to that. -/
theorem Linked.turn_of_comesFrom (hl : g.Linked) {d : Definition} (hd : g.definition? id = some d)
    (h : g.ComesFrom id next) : g.turn id = .onward next := by
  obtain ⟨p, hp, hn⟩ := h
  obtain ⟨e, a, he, ha⟩ := hl.exists_anchor hd
  obtain ⟨b, hb, hnature⟩ := Option.map_eq_some_iff.1 hn
  rw [parent?_of_event? ha] at hp
  cases b with
  | expansion x =>
    have hx : x.definition = some next := Nature.expansion.inj hnature
    simp only [turn, he, hd, ← anchor_of_definition? hd, ha, hp, hb, hx]
  | inclusion | definition => exact absurd hnature (by simp [EventBody.nature])

/-- A turn at a definition that comes from no other one reports where it comes from. -/
theorem Linked.turn_of_ends (hl : g.Linked) (hplaces : g.Anchored) {d : Definition}
    (hd : g.definition? id = some d) (h : ∀ next, ¬ g.ComesFrom id next) :
    ∃ position, g.turn id = .arrived position ∧ g.Origin id position := by
  obtain ⟨e, a, he, ha⟩ := hl.exists_anchor hd
  have hanchor := anchor_of_definition? hd
  cases hp : a.parent with
  | none =>
    have hparent : g.parent? (g.anchor id) = none := (parent?_of_event? ha).trans hp
    have howner := hl.owner?_eq_zero hd hparent
    have hposition := hl.position_eq_zero hplaces howner
    exact ⟨g.position id, by simp only [turn, he, hd, ← hanchor, ha, hp],
      hposition ▸ .passedToMain howner⟩
  | some p =>
    have hparent : g.parent? (g.anchor id) = some p := (parent?_of_event? ha).trans hp
    obtain ⟨b, hb⟩ := g.exists_body?_iff.2 (g.lt_size_of_isRef (hl.parent _ p hparent).2)
    have hn : g.nature? p = some b.nature := by rw [nature?, hb, Option.map_some]
    cases b with
    | inclusion i =>
      have hi : g.inclusion? p = some i := by rw [inclusion?, hb]
      exact ⟨⟨i.fileIndex, a.line, a.column⟩, by simp only [turn, he, hd, ← hanchor, ha, hp, hb],
        .inclusion hparent hi ha⟩
    | expansion x =>
      cases hx : x.definition with
      | some next =>
        rw [EventBody.nature, hx] at hn
        exact absurd ⟨p, hparent, hn⟩ (h next)
      | none =>
        rw [EventBody.nature, hx] at hn
        obtain ⟨around, hnear⟩ := hl.exists_nearest (hl.parent _ p hparent).2
        obtain ⟨i, hi⟩ := hnear.isInclusion
        refine ⟨⟨g.fileIndexOf p, e.line, e.column⟩,
          by simp only [turn, he, hd, ← hanchor, ha, hp, hb, hx], ?_⟩
        rw [hnear.fileIndexOf_eq hl hi]
        exact .unresolved hparent hn hnear hi he
    | definition d =>
      have href := (hl.parent _ p hparent).2
      rw [isRef_eq, hn] at href
      exact absurd href (by simp [EventBody.nature, Nature.isRef])

/-- A trace with as many turns as its trail has definitions arrives where the last of them comes
from. -/
theorem Trail.trace_eq {trail : List Nat} (h : g.Trail id trail last) (hl : g.Linked)
    (hplaces : g.Anchored) {d : Definition} (hd : g.definition? id = some d) :
    ∃ position, g.Origin last position ∧
      ∀ turns, trail.length ≤ turns → g.trace turns id = .ok position := by
  induction h generalizing d with
  | ends hends =>
    obtain ⟨position, hturn, horigin⟩ := hl.turn_of_ends hplaces hd hends
    refine ⟨position, horigin, fun turns hturns => ?_⟩
    obtain ⟨n, rfl⟩ := Nat.exists_eq_add_of_le' hturns
    simp only [List.length_singleton, trace, hturn]
  | onward hnext _ ih =>
    obtain ⟨-, d', hd'⟩ := hl.lt_of_comesFrom hnext
    obtain ⟨position, horigin, htrace⟩ := ih hd'
    refine ⟨position, horigin, fun turns hturns => ?_⟩
    rw [List.length_cons] at hturns
    obtain ⟨n, rfl⟩ := Nat.exists_eq_add_of_le' (Nat.le_trans (Nat.le_add_left ..) hturns)
    simp only [trace, hl.turn_of_comesFrom hd hnext]
    exact htrace n (by omega)

end Graph

/-! ### Trails under callbacks -/

theorem Grounded.anchored_step {h : History} {t : Tracker} (hg : Grounded h t)
    (ha : t.graph.Anchored) (c : Callback) : (t.step c).graph.Anchored where
  root := (t.place?_step c hg.linked.root.1.lt_size).trans ha.root
  argument id i hi := by
    rcases (hg.owner?_step c id i).1 hi with hold | ⟨⟨name, value, undefined, rfl⟩, rfl, rfl⟩
    · have hlt := Graph.lt_size_of_owner? hold
      rw [t.place?_step c hlt, t.place?_step c (Nat.lt_trans (hg.linked.owner id i hold).1 hlt)]
      exact ha.argument id i hold
    · obtain ⟨i, hincl⟩ := hg.follows.inclusion?_innermost
      rw [← hg.follows.innermost] at hincl
      exact (Tracker.place?_argument hincl name value undefined).trans
        (t.place?_step _ (Graph.IsInclusion.lt_size ⟨i, hincl⟩)).symm

theorem owner?_start (id : Nat) : Graph.start.owner? id = none := by
  cases id <;> rfl

theorem anchored_start : Graph.start.Anchored where
  root := rfl
  argument id i hi := absurd hi (by simp [owner?_start])

theorem anchored_run (callbacks : List Callback) :
    (Tracker.run {} callbacks).graph.Anchored := by
  have hrun := run_induction (P := fun h t => Grounded h t ∧ t.graph.Anchored)
    ⟨grounded_start, anchored_start⟩ (fun h t c => ?_) callbacks
  · exact hrun.2
  · rintro ⟨hg, ha⟩
    exact ⟨hg.step c, hg.anchored_step ha c⟩

/-- Arguments are those that callbacks passed, each to the inclusion whose file was being read. -/
theorem owner?_run (callbacks : List Callback) (id i : Nat) :
    (Tracker.run {} callbacks).graph.owner? id = some i ↔
      ∃ before name value undefined,
        before ++ [.argument name value undefined] <+: callbacks ∧
          (Tracker.run {} before).graph.size = id ∧
          (Tracker.run {} before).innermost.inclusion = i := by
  induction callbacks using List.reverseRecOn with
  | nil =>
    have hnone : (Tracker.run {} []).graph.owner? id = none := owner?_start id
    rw [hnone]
    refine iff_of_false (by simp) ?_
    rintro ⟨before, name, value, undefined, hbefore, -⟩
    exact absurd (List.prefix_nil.1 hbefore) (by simp)
  | append_singleton callbacks c ih =>
    rw [run_concat, (grounded_run callbacks).owner?_step, ih]
    constructor
    · rintro (⟨before, name, value, undefined, hbefore, hat⟩ | ⟨⟨name, value, undefined, rfl⟩, hat⟩)
      · exact ⟨before, name, value, undefined, hbefore.trans (List.prefix_append ..), hat⟩
      · exact ⟨callbacks, name, value, undefined, List.prefix_rfl, hat.1.symm, hat.2.symm⟩
    · rintro ⟨before, name, value, undefined, hbefore, hsize, hinner⟩
      rcases List.prefix_concat_iff.1 hbefore with heq | hbefore
      · obtain ⟨rfl, hc⟩ := List.append_inj' heq rfl
        exact .inr ⟨⟨name, value, undefined, (List.cons.inj hc).1.symm⟩, hsize.symm, hinner.symm⟩
      · exact .inl ⟨before, name, value, undefined, hbefore, hsize, hinner⟩

/-- After any callbacks definitions come from earlier definitions, and every definition has a trail
that goes backwards and is no longer than there are events. Tracing the definition does not run out
of turns and reports where the last definition of the trail comes from, which is the beginning of the
main file for what was passed while that was being read. -/
theorem definitionPosition_run (callbacks : List Callback) :
    let g := (Tracker.run {} callbacks).graph
    (∀ id next, g.ComesFrom id next → next < id ∧ ∃ d, g.definition? next = some d) ∧
      (∀ id, g.owner? id = some 0 ↔ ∃ before name value undefined,
        before ++ [.argument name value undefined] <+: callbacks ∧
          (Tracker.run {} before).graph.size = id ∧
          (Tracker.run {} before).innermost.inclusion = 0) ∧
      ∀ id d, g.definition? id = some d → ∃ trail last, g.Trail id trail last ∧
        trail.Pairwise (· > ·) ∧ trail.length ≤ g.size ∧
        g.trace g.size id = .ok (g.definitionPosition id) ∧
        g.Origin last (g.definitionPosition id) := by
  have hl := (grounded_run callbacks).linked
  refine ⟨fun id next => hl.lt_of_comesFrom, fun id => owner?_run callbacks id 0,
    fun id d hd => ?_⟩
  obtain ⟨trail, last, htrail⟩ := hl.exists_trail id
  obtain ⟨position, horigin, htrace⟩ := htrail.trace_eq hl (anchored_run callbacks) hd
  have hlength : trail.length ≤ (Tracker.run {} callbacks).graph.size :=
    Nat.le_trans (htrail.length_le hl) (Graph.lt_size_of_definition? hd)
  have hposition := htrace _ hlength
  refine ⟨trail, last, htrail, (htrail.decreases hl).1, hlength, ?_⟩
  rw [Graph.definitionPosition, hposition]
  exact ⟨rfl, horigin⟩

end AblAnalysis.Preprocessor
