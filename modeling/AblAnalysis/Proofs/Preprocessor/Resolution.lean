import AblAnalysis.Proofs.Preprocessor.Tables

/-!
Names stand for what the history says. The tables of the tracker hold at each place exactly the live
definition of the history (`Follows.kept`). Every callback keeps that true, so it is true after any
callbacks in any order, and a name that is then expanded gets the definition that it stands for.
-/

namespace AblAnalysis.Preprocessor

/-! ### How callbacks change what is live -/

namespace History

variable {h : History} {g g' : Graph} {id : Nat} {p : Place}

theorem live_event_none (hu : ∀ i, g'.Undefined i ↔ g.Undefined i) :
    (h.event none).Live g' id p ↔ h.Live g id p := by
  have hmade : ∀ i q, (i, q) ∈ (h.event none).made ↔ (i, q) ∈ h.made := by simp [mem_made_event]
  constructor
  · rintro ⟨hm, hl, hk, ho⟩
    exact ⟨(hmade _ _).1 hm, fun j hj => hl j ((hmade _ _).2 hj), fun hid => hk ((hu id).2 hid), ho⟩
  · rintro ⟨hm, hl, hk, ho⟩
    exact ⟨(hmade _ _).2 hm, fun j hj => hl j ((hmade _ _).1 hj), fun hid => hk ((hu id).1 hid), ho⟩

/-- A definition replaces the one at its place. -/
theorem live_event_some (hv : h.Valid) (hfresh : ¬ g.Undefined h.size) {q : Place}
    (hopen : ∀ s name, q = .inFile s name → s ∈ h.scopes)
    (hu : ∀ i, g'.Undefined i ↔ g.Undefined i) :
    (h.event (some q)).Live g' id p ↔ if q = p then h.size = id else h.Live g id p := by
  have hmade := fun i => h.mem_made_event (some q) i p
  by_cases hq : q = p
  · subst hq
    rw [if_pos rfl]
    constructor
    · rintro ⟨hm, hl, -, -⟩
      rcases (hmade id).1 hm with hm | ⟨rfl, -⟩
      · have hlast := hl h.size ((hmade h.size).2 (.inr ⟨rfl, rfl⟩))
        exact absurd (hv.made_lt id q hm) (Nat.not_lt.2 hlast)
      · rfl
    · rintro rfl
      refine ⟨(hmade h.size).2 (.inr ⟨rfl, rfl⟩), fun j hj => ?_, ?_, hopen⟩
      · rcases (hmade j).1 hj with hj | ⟨rfl, -⟩
        · exact Nat.le_of_lt (hv.made_lt j q hj)
        · exact Nat.le_refl _
      · rwa [hu]
  · have hold : ∀ i, (i, p) ∈ (h.event (some q)).made ↔ (i, p) ∈ h.made := by
      intro i
      rw [hmade]
      simp [hq]
    rw [if_neg hq]
    constructor
    · rintro ⟨hm, hl, hk, ho⟩
      exact ⟨(hold _).1 hm, fun j hj => hl j ((hold _).2 hj), fun hid => hk ((hu id).2 hid), ho⟩
    · rintro ⟨hm, hl, hk, ho⟩
      exact ⟨(hold _).2 hm, fun j hj => hl j ((hold _).1 hj), fun hid => hk ((hu id).1 hid), ho⟩

/-- An undefine ends the definition that it removes. -/
theorem live_undefine {target : Option Nat}
    (hu : ∀ i, g'.Undefined i ↔ g.Undefined i ∨ target = some i) :
    (h.event none).Live g' id p ↔ h.Live g id p ∧ target ≠ some id := by
  rw [live_event_none (g := g') fun _ => Iff.rfl]
  constructor
  · rintro ⟨hm, hl, hk, ho⟩
    rw [hu, not_or] at hk
    exact ⟨⟨hm, hl, hk.1, ho⟩, hk.2⟩
  · rintro ⟨⟨hm, hl, hk, ho⟩, ht⟩
    refine ⟨hm, hl, ?_, ho⟩
    rw [hu, not_or]
    exact ⟨hk, ht⟩

/-- The next file has no definitions yet. -/
theorem live_enter (hv : h.Valid) (hu : ∀ i, g'.Undefined i ↔ g.Undefined i) :
    h.enter.Live g' id p ↔ h.Live g id p := by
  rw [← live_event_none hu]
  constructor
  · rintro ⟨hm, hl, hk, ho⟩
    refine ⟨hm, hl, hk, fun s name hp => ?_⟩
    rcases List.mem_cons.1 (ho s name hp) with rfl | hs
    · rw [hp] at hm
      rcases (h.mem_made_event none id _).1 hm with hm | ⟨-, hm⟩
      · exact absurd (hv.scoped_lt id _ name hm) (Nat.lt_irrefl _)
      · exact absurd hm (by simp)
    · exact hs
  · rintro ⟨hm, hl, hk, ho⟩
    exact ⟨hm, hl, hk, fun s name hp => List.mem_cons_of_mem _ (ho s name hp)⟩

/-- The definitions of a file end with it. -/
theorem live_leave (hv : h.Valid) {scope : Nat} {rest : List Nat} (houter : h.outer = scope :: rest)
    (hu : ∀ i, g'.Undefined i ↔ g.Undefined i) :
    h.leave.Live g' id p ↔ h.Live g id p ∧ p.isIn h.innermost = false := by
  have hscopes : h.scopes = h.innermost :: h.leave.scopes := by
    simp [scopes, leave, houter]
  have hmade : h.leave.made = h.made := by simp [leave, houter]
  have hnodup := hv.scopes_nodup
  rw [hscopes] at hnodup
  constructor
  · rintro ⟨hm, hl, hk, ho⟩
    rw [hmade] at hm hl
    refine ⟨⟨hm, hl, fun hid => hk ((hu id).2 hid), fun s name hp => ?_⟩, ?_⟩
    · rw [hscopes]
      exact List.mem_cons_of_mem _ (ho s name hp)
    · cases p with
      | inFile s name =>
        have hne : s ≠ h.innermost := by
          rintro rfl
          exact (List.nodup_cons.1 hnodup).1 (ho _ name rfl)
        simpa [Place.isIn] using hne
      | argument | global => rfl
  · rintro ⟨⟨hm, hl, hk, ho⟩, hin⟩
    refine ⟨hmade ▸ hm, hmade ▸ hl, fun hid => hk ((hu id).1 hid), fun s name hp => ?_⟩
    have hs := ho s name hp
    rw [hscopes] at hs
    rcases List.mem_cons.1 hs with rfl | hs
    · rw [hp] at hin
      simp [Place.isIn] at hin
    · exact hs

end History

/-! ### The tracker follows the history -/

/-- Whether the events are those of a history: the open files are inclusions, and each inclusion has
as many arguments as were passed to it. -/
structure Records (h : History) (g : Graph) : Prop where
  size : g.size = h.size
  inclusion : ∀ s ∈ h.scopes, ∃ p, g.passed? s = some p
  args : ∀ i p, g.passed? i = some p → p.args.size = h.passed.count i
  named : ∀ i p, g.passed? i = some p → p.usesNamedArgs = false → ∀ key, p.named.get? key = none
  undefined_lt : ∀ id, g.Undefined id → id < h.size

/-- Whether the tables hold what the history says: at each place the live definition. -/
structure Follows (h : History) (t : Tracker) : Prop where
  valid : h.Valid
  records : Records h t.graph
  innermost : t.innermost.inclusion = h.innermost
  outer : t.outer.map (·.inclusion) = h.outer
  kept : ∀ id p, t.lookup? p = some id ↔ h.Live t.graph id p

variable {h : History} {t t' : Tracker} {g g' : Graph}

theorem Follows.scopes (hf : Follows h t) : t.scopes.map (·.inclusion) = h.scopes := by
  rw [Tracker.scopes, List.map_cons, hf.innermost, hf.outer, History.scopes]

theorem Follows.nodup (hf : Follows h t) : (t.scopes.map (·.inclusion)).Nodup := by
  rw [hf.scopes]
  exact hf.valid.scopes_nodup

theorem Follows.fresh (hf : Follows h t) : ¬ t.graph.Undefined h.size := fun hu =>
  Nat.lt_irrefl _ (hf.records.undefined_lt _ hu)

/-- An event that passes nothing to an inclusion. -/
theorem Records.event (hr : Records h g) (place : Option Place) (hsize : g'.size = g.size + 1)
    (hpassed : ∀ i, g'.passed? i = g.passed? i)
    (hu : ∀ id, g'.Undefined id → g.Undefined id ∨ id < h.size) : Records (h.event place) g' where
  size := by rw [hsize, hr.size]; rfl
  inclusion s hs := by
    rw [hpassed]
    exact hr.inclusion s hs
  args i p hp := hr.args i p (hpassed i ▸ hp)
  named i p hp := hr.named i p (hpassed i ▸ hp)
  undefined_lt id hid := by
    rcases hu id hid with hid | hid
    · exact Nat.lt_succ_of_lt (hr.undefined_lt id hid)
    · exact Nat.lt_succ_of_lt hid

/-- Changes that lookup cannot see. -/
theorem Follows.of_same (hf : Follows h t) (hinner : t'.innermost = t.innermost)
    (houter : t'.outer = t.outer) (hglobals : t'.globals = t.globals)
    (hsize : t'.graph.size = t.graph.size) (hpassed : ∀ i, t'.graph.passed? i = t.graph.passed? i)
    (hdefs : ∀ e, t'.graph.definition? e = t.graph.definition? e) : Follows h t' where
  valid := hf.valid
  records :=
    { size := hsize.trans hf.records.size
      inclusion := fun s hs => by
        rw [hpassed]
        exact hf.records.inclusion s hs
      args := fun i p hp => hf.records.args i p (hpassed i ▸ hp)
      named := fun i p hp => hf.records.named i p (hpassed i ▸ hp)
      undefined_lt := fun id hid =>
        hf.records.undefined_lt id ((Graph.undefined_congr hdefs id).1 hid) }
  innermost := by rw [hinner, hf.innermost]
  outer := by rw [houter, hf.outer]
  kept id p := by
    have hscopes : t'.scopes = t.scopes := by rw [Tracker.scopes, hinner, houter, Tracker.scopes]
    rw [Tracker.lookup?_congr _ _ hscopes hglobals hpassed, hf.kept,
      ← History.live_event_none (Graph.undefined_congr hdefs),
      History.live_event_none fun _ => Iff.rfl]

/-- A definition, an undefine or an expansion in the current reference. -/
theorem Records.addInside (hr : Records h g) (place : Option Place) (parent : Nat)
    (line column : Int32) {b : EventBody} (hb : b.passed? = none)
    (hu : ∀ d id, b.definition? = some d → d.undefines = some id → id < h.size) :
    Records (h.event place) (g.addInside parent line column b) := by
  refine hr.event place (Graph.size_addInside ..) (g.passed?_addInside_of_none _ _ _ hb)
    fun id hid => ?_
  rcases (Graph.undefined_of_definition? (g.definition?_addInside parent line column b) id).1 hid with
    hid | ⟨d, hd, -, hid⟩
  · exact .inl hid
  · exact .inr (hu d id hd hid)

/-- An event that undefines nothing. -/
theorem undefined_addInside (g : Graph) (parent : Nat) (line column : Int32) {b : EventBody}
    (hb : ∀ d, b.definition? = some d → d.undefines = none) (id : Nat) :
    (g.addInside parent line column b).Undefined id ↔ g.Undefined id := by
  rw [Graph.undefined_of_definition? (g.definition?_addInside parent line column b)]
  refine or_iff_left ?_
  rintro ⟨d, hd, -, hid⟩
  rw [hb d hd] at hid
  exact absurd hid (by simp)

/-- A new definition is the live one at its place, and nothing else changes. -/
theorem Follows.kept_event (hf : Follows h t) {place : Option Place}
    (hopen : ∀ s name, place = some (.inFile s name) → s ∈ h.scopes)
    (hu : ∀ i, g.Undefined i ↔ t.graph.Undefined i) (id : Nat) (p : Place) :
    (if place = some p then some h.size else t.lookup? p) = some id ↔
      (h.event place).Live g id p := by
  cases place with
  | none => rw [if_neg (by simp), hf.kept, History.live_event_none hu]
  | some q =>
    rw [History.live_event_some hf.valid hf.fresh (fun s name hq => hopen s name (congrArg some hq))
      hu]
    by_cases hq : q = p
    · rw [if_pos (congrArg some hq), if_pos hq, Option.some.injEq]
    · rw [if_neg fun heq => hq (Option.some.inj heq), if_neg hq, hf.kept]

theorem Follows.define (hf : Follows h t) (line column : Int32) (name value : String)
    (kind : DefinitionKind) : Follows (h.event (definedAt h.innermost name kind))
      (t.define line column name value kind) := by
  let d : Definition := { kind := kind, name := name, value := value }
  have hgraph : (t.define line column name value kind).graph =
      t.graph.addInside t.current line column (.definition d) := by cases kind <;> rfl
  have hundef : ∀ e, EventBody.definition? (.definition d) = some e → e.undefines = none := by
    intro e he
    obtain rfl := Option.some.inj he
    rfl
  have hu := undefined_addInside t.graph t.current line column hundef
  refine ⟨hf.valid.event fun s n hp => History.definedAt_mem_scopes hp, ?_, ?_, ?_, fun id p => ?_⟩
  · rw [hgraph]
    refine hf.records.addInside _ _ _ _ rfl fun e id he hid => ?_
    rw [hundef e he] at hid
    exact absurd hid (by simp)
  · refine Eq.trans ?_ hf.innermost
    cases kind <;> rfl
  · refine Eq.trans ?_ hf.outer
    cases kind <;> rfl
  · rw [Tracker.lookup?_define, hgraph, hf.innermost, hf.records.size]
    exact hf.kept_event (fun s n hp => History.definedAt_mem_scopes hp) hu id p

/-- Where a place has been emptied, the definition there is no longer live. -/
theorem Follows.kept_removed (hf : Follows h t) {target : Option Nat}
    (hr : Tracker.Removed t t' target) (id : Nat) (p : Place) :
    t'.lookup? p = some id ↔ h.Live t.graph id p ∧ target ≠ some id := by
  obtain ⟨q, hq, hempty⟩ := hr.emptied
  rw [hempty, ← hf.kept]
  by_cases hp : p = q
  · rw [if_pos hp, hp, hq]
    constructor
    · intro hid
      exact absurd hid (by simp)
    · rintro ⟨hid, hne⟩
      exact absurd hid hne
  · rw [if_neg hp]
    refine ⟨fun hid => ⟨hid, fun htarget => hp ?_⟩, And.left⟩
    have hlive := (hf.kept id q).1 (hq.trans htarget)
    exact hf.valid.made_inj id p q ((hf.kept id p).1 hid).made hlive.made

theorem Records.removed (hr : Records h t.graph) {target : Option Nat}
    (hrem : Tracker.Removed t t' target) : Records h t'.graph := by
  have hpassed : ∀ i p', t'.graph.passed? i = some p' → ∃ p, t.graph.passed? i = some p ∧
      p'.args = p.args ∧ p'.usesNamedArgs = p.usesNamedArgs ∧
        ∀ key, p.named.get? key = none → p'.named.get? key = none := by
    intro i p' hp'
    rcases hrem.passed i with hsame | ⟨key, herase⟩
    · exact ⟨p', hsame ▸ hp', rfl, rfl, fun _ hnone => hnone⟩
    · rw [herase] at hp'
      obtain ⟨p, hp, rfl⟩ := Option.map_eq_some_iff.1 hp'
      refine ⟨p, hp, rfl, rfl, fun k hnone => ?_⟩
      rw [Passed.without, Dict.get?_erase, hnone, ite_self]
  refine ⟨hrem.size.trans hr.size, fun s hs => ?_, fun i p' hp' => ?_, fun i p' hp' hu key => ?_,
    fun id hid => hr.undefined_lt id ((Graph.undefined_congr hrem.definitions id).1 hid)⟩
  · obtain ⟨p, hp⟩ := hr.inclusion s hs
    rcases hrem.passed s with hsame | ⟨key, herase⟩
    · exact ⟨p, hsame.trans hp⟩
    · exact ⟨_, by rw [herase, hp, Option.map_some]⟩
  · obtain ⟨p, hp, hargs, -, -⟩ := hpassed i p' hp'
    rw [hargs, hr.args i p hp]
  · obtain ⟨p, hp, -, huses, hnames⟩ := hpassed i p' hp'
    exact hnames key (hr.named i p hp (huses ▸ hu) key)

theorem Follows.undefine (hf : Follows h t) (line column : Int32) (name : String) :
    Follows (h.event none) (t.undefine line column name) := by
  have hrem := t.removed_remove hf.nodup name
  generalize htarget : (t.remove name).1 = target at hrem
  generalize hremoved : (t.remove name).2 = t' at hrem
  have hstep : t.undefine line column name =
      t'.record line column { kind := .undefine, name := name, undefines := target } := by
    rw [Tracker.undefine, ← htarget, ← hremoved]
  have htarget_lt : ∀ id, target = some id → id < h.size := by
    intro id hid
    obtain ⟨q, hq, -⟩ := hrem.emptied
    exact hf.valid.made_lt id q ((hf.kept id q).1 (hq.trans hid)).made
  rw [hstep]
  refine ⟨hf.valid.event (by simp), ?_, hrem.innermost.trans hf.innermost,
    hrem.outer.trans hf.outer, fun id p => ?_⟩
  · refine (hf.records.removed hrem).addInside none _ _ _ rfl fun d id hd hid => ?_
    obtain rfl := Option.some.inj hd
    exact htarget_lt id hid
  · rw [Tracker.lookup?_record, hf.kept_removed hrem, Tracker.record]
    refine (History.live_undefine fun i => ?_).symm
    rw [Graph.undefined_of_definition? (t'.graph.definition?_addInside _ _ _ _),
      Graph.undefined_congr hrem.definitions]
    refine or_congr_right ⟨?_, fun hi => ⟨_, rfl, rfl, hi⟩⟩
    rintro ⟨d, hd, -, hi⟩
    obtain rfl := Option.some.inj hd
    exact hi

theorem Follows.openFile (hf : Follows h t) (line column fileIndex : Int32) (name : String) :
    Follows h.enter (t.openFile line column fileIndex name) := by
  let b : EventBody := .inclusion { fileIndex := fileIndex, name := name }
  have hpassed := t.graph.passed?_addInside t.current line column b
  have hu := undefined_addInside t.graph t.current line column (b := b)
    (by simp [b, EventBody.definition?])
  have hnew : ∀ i p, (t.graph.addInside t.current line column b).passed? i = some p →
      i = h.size ∧ p = {} ∨ t.graph.passed? i = some p := by
    intro i p hp
    rw [hpassed] at hp
    by_cases hi : i = t.graph.size
    · rw [if_pos hi] at hp
      exact .inl ⟨hi.trans hf.records.size, (Option.some.inj hp).symm⟩
    · rw [if_neg hi] at hp
      exact .inr hp
  refine ⟨hf.valid.enter, ⟨?_, fun s hs => ?_, fun i p hp => ?_, fun i p hp huse key => ?_,
    fun id hid => ?_⟩, hf.records.size, ?_, fun id p => ?_⟩
  · exact (Graph.size_addInside ..).trans (congrArg (· + 1) hf.records.size)
  · by_cases hsize : s = t.graph.size
    · exact ⟨{}, by rw [Tracker.openFile, hpassed, if_pos hsize]; rfl⟩
    · rcases List.mem_cons.1 hs with rfl | hs
      · exact absurd hf.records.size.symm hsize
      · obtain ⟨p, hp⟩ := hf.records.inclusion s hs
        exact ⟨p, by rw [Tracker.openFile, hpassed, if_neg hsize, hp]⟩
  · rcases hnew i p hp with ⟨rfl, rfl⟩ | hp
    · have hnot : h.size ∉ h.passed := fun hm => Nat.lt_irrefl _ (hf.valid.passed_lt _ hm)
      exact (List.count_eq_zero_of_not_mem hnot).symm
    · exact hf.records.args i p hp
  · rcases hnew i p hp with ⟨rfl, rfl⟩ | hp
    · rfl
    · exact hf.records.named i p hp huse key
  · exact Nat.lt_succ_of_lt (hf.records.undefined_lt id ((hu id).1 hid))
  · rw [Tracker.openFile, List.map_cons, hf.innermost, hf.outer]
    rfl
  · have hlt : ∀ s ∈ t.scopes.map (·.inclusion), s < t.graph.size := by
      rw [hf.scopes, hf.records.size]
      exact hf.valid.scopes_lt
    rw [t.lookup?_openFile hlt, hf.kept]
    exact (History.live_enter hf.valid hu).symm

/-- An argument counts for the inclusion that it is passed to and for no other. -/
theorem Records.take (hr : Records h t.graph) {p : Passed} {name : String}
    (hinner : t.innermost.inclusion = h.innermost)
    (hp : t.graph.passed? t.innermost.inclusion = some p) (ht : Tracker.Took t t' p name) :
    Records (h.pass name) t'.graph := by
  have htake : ∀ (numbered : Bool) (id : Nat),
      (p.take numbered name id).args.size = p.args.size + 1 := by
    intro numbered id
    cases numbered <;> simp [Passed.take]
  have hcases : ∀ i q, t'.graph.passed? i = some q →
      i = h.innermost ∧ (∃ numbered id, q = p.take numbered name id) ∨
        i ≠ h.innermost ∧ t.graph.passed? i = some q := by
    intro i q hq
    rw [ht.passed, hinner] at hq
    by_cases hi : i = h.innermost
    · rw [if_pos hi] at hq
      exact .inl ⟨hi, _, _, (Option.some.inj hq).symm⟩
    · rw [if_neg hi] at hq
      exact .inr ⟨hi, hq⟩
  rw [hinner] at hp
  refine ⟨ht.size.trans (congrArg (· + 1) hr.size), fun s hs => ?_, fun i q hq => ?_,
    fun i q hq huse key => ?_, fun id hid => ?_⟩
  · rw [ht.passed, hinner]
    by_cases hi : s = h.innermost
    · exact ⟨_, if_pos hi⟩
    · rw [if_neg hi]
      exact hr.inclusion s hs
  · rcases hcases i q hq with ⟨rfl, numbered, id, rfl⟩ | ⟨hi, hq⟩
    · rw [htake, hr.args _ p hp, History.pass, List.count_cons_self]
    · rw [hr.args i q hq, History.pass, List.count_cons_of_ne (Ne.symm hi)]
  · rcases hcases i q hq with ⟨rfl, numbered, id, rfl⟩ | ⟨hi, hq⟩
    · cases numbered with
      | true => exact hr.named _ p hp huse key
      | false => exact absurd huse (by simp [Passed.take])
    · exact hr.named i q hq huse key
  · exact Nat.lt_succ_of_lt (hr.undefined_lt id ((ht.undefined id).1 hid))

theorem Follows.argument (hf : Follows h t) (name value : String) (undefined : Bool) :
    Follows (h.pass name) (t.argument name value undefined) := by
  obtain ⟨p, hp⟩ := hf.records.inclusion h.innermost (List.mem_cons_self ..)
  have hargs := hf.records.args _ p hp
  rw [← hf.innermost] at hp
  have ht := Tracker.took_argument hp name value undefined
  refine ⟨hf.valid.pass name, hf.records.take hf.innermost hp ht, ?_, ?_, fun id q => ?_⟩
  · exact (congrArg _ ht.innermost).trans hf.innermost
  · exact (congrArg _ ht.outer).trans hf.outer
  · have hlive : (h.pass name).Live (t.argument name value undefined).graph id q ↔
        (h.event (argumentAt h.innermost (h.passed.count h.innermost) name)).Live
          (t.argument name value undefined).graph id q := by
      constructor <;> exact fun ⟨hm, hl, hk, ho⟩ => ⟨hm, hl, hk, ho⟩
    rw [hlive, ht.lookup? hp, hf.innermost, hargs, hf.records.size]
    exact hf.kept_event (fun s n hr => absurd hr argumentAt_ne_scoped) ht.undefined id q

theorem Follows.closeFile (hf : Follows h t) (line column : Int32) :
    Follows h.leave (t.closeFile line column) := by
  cases hscopes : t.outer with
  | nil =>
    have houter := hf.outer
    rw [hscopes] at houter
    rw [Tracker.closeFile, hscopes, History.leave, ← houter]
    exact hf
  | cons scope rest =>
    have houter : h.outer = scope.inclusion :: rest.map (·.inclusion) := by
      rw [← hf.outer, hscopes, List.map_cons]
    have hpassed := t.graph.passed?_modifyInclusion t.current
      (f := fun i => { i with endLine := line, endColumn := column }) (k := id) fun i => rfl
    simp only [Option.map_id_fun, id_eq, ite_self] at hpassed
    have hu := Graph.undefined_congr (t.graph.definition?_modifyInclusion t.current
      fun i => { i with endLine := line, endColumn := column })
    have hgraph : (t.closeFile line column).graph = t.graph.modifyInclusion t.current
        (fun i => { i with endLine := line, endColumn := column }) := by
      rw [Tracker.closeFile, hscopes]
    have hleave : h.leave =
        { h with innermost := scope.inclusion, outer := rest.map (·.inclusion) } := by
      rw [History.leave, houter]
    refine ⟨hf.valid.leave, ?_, ?_, ?_, fun id p => ?_⟩
    · rw [hgraph, hleave]
      refine ⟨(Graph.size_modifyInclusion ..).trans hf.records.size, fun s hs => ?_,
        fun i p hp => hf.records.args i p (hpassed i ▸ hp),
        fun i p hp => hf.records.named i p (hpassed i ▸ hp),
        fun id hid => hf.records.undefined_lt id ((hu id).1 hid)⟩
      rw [hpassed]
      refine hf.records.inclusion s ?_
      rw [History.scopes, houter]
      exact List.mem_cons_of_mem _ hs
    · rw [Tracker.closeFile, hscopes, hleave]
    · rw [Tracker.closeFile, hscopes, hleave]
    · rw [Tracker.lookup?_closeFile hf.nodup hscopes, hgraph, History.live_leave hf.valid houter hu,
        ← hf.kept, hf.innermost]
      cases p.isIn h.innermost <;> simp

theorem Follows.openName (hf : Follows h t) (line column : Int32) (name : String) :
    Follows (h.event none) (t.openName line column name) := by
  let b : EventBody := .expansion { definition := t.resolve? name }
  have hpassed := t.graph.passed?_addInside_of_none (b := b) t.current line column rfl
  have hu := undefined_addInside t.graph t.current line column (b := b)
    (by simp [b, EventBody.definition?])
  refine ⟨hf.valid.event (by simp), ?_, hf.innermost, hf.outer, fun id p => ?_⟩
  · exact hf.records.addInside none _ _ _ rfl fun d id hd =>
      absurd hd (by simp [EventBody.definition?])
  · have hkept : (t.openName line column name).lookup? p = t.lookup? p :=
      Tracker.lookup?_congr t (t.openName line column name) rfl rfl hpassed p
    rw [hkept, hf.kept]
    exact (History.live_event_none hu).symm

theorem Follows.closeName (hf : Follows h t) (line column : Int32) :
    Follows h (t.closeName line column) := by
  rw [Tracker.closeName]
  cases t.graph.expansion? t.current with
  | none => exact hf
  | some e =>
    exact hf.of_same rfl rfl rfl (Graph.size_modifyBody ..)
      (Graph.passed?_modifyBody _ fun b => b.passed?_close line column)
      (Graph.definition?_modifyBody _ fun b => b.definition?_close line column)

theorem Follows.suspend (hf : Follows h t) (text : String) (line : Int32) :
    Follows h (t.suspend text line) := by
  refine hf.of_same ?_ ?_ ?_ ?_ ?_ ?_ <;> unfold Tracker.suspend <;> split <;> simp

theorem Follows.resume (hf : Follows h t) (line : Int32) : Follows h (t.resume line) := by
  unfold Tracker.resume
  split
  · exact hf
  · split <;> exact hf.of_same rfl rfl rfl rfl (fun _ => rfl) (fun _ => rfl)

theorem Follows.step (hf : Follows h t) (c : Callback) : Follows (h.step c) (t.step c) := by
  cases c with
  | define line column name value kind => exact hf.define line column name value kind
  | undefine line column name => exact hf.undefine line column name
  | openFile line column fileIndex name => exact hf.openFile line column fileIndex name
  | argument name value undefined => exact hf.argument name value undefined
  | closeFile line column => exact hf.closeFile line column
  | openName line column name => exact hf.openName line column name
  | closeName line column => exact hf.closeName line column
  | condition => exact hf
  | suspend text line => exact hf.suspend text line
  | resume line => exact hf.resume line

theorem follows_start : Follows {} {} := by
  have hbody : ∀ i, Graph.start.body? i = if i = 0 then some (.inclusion {}) else none := by
    intro i
    cases i <;> rfl
  have hpassed : ∀ i p, Graph.start.passed? i = some p → p = {} := by
    intro i p hp
    rw [Graph.passed?, hbody] at hp
    by_cases hi : i = 0
    · rw [if_pos hi] at hp
      exact (Option.some.inj hp).symm
    · rw [if_neg hi] at hp
      exact absurd hp (by simp)
  have hdefs : ∀ i, Graph.start.definition? i = none := by
    intro i
    rw [Graph.definition?_eq, hbody]
    split <;> rfl
  refine ⟨History.valid_start, ⟨rfl, fun s hs => ?_, fun i p hp => ?_, fun i p hp _ key => ?_,
    fun id hid => ?_⟩, rfl, rfl, fun id p => ⟨fun hid => ?_, fun hlive => ?_⟩⟩
  · rw [List.mem_singleton.1 hs]
    exact ⟨{}, rfl⟩
  · rw [hpassed i p hp]
    rfl
  · rw [hpassed i p hp]
    rfl
  · obtain ⟨e, d, he, -⟩ := hid
    rw [hdefs] at he
    exact absurd he (by simp)
  · have hnone : Tracker.lookup? {} p = none := by
      cases p with
      | inFile s name =>
        rw [Tracker.lookup?, Tracker.scopes, scoped?_cons]
        split <;> rfl
      | argument i key =>
        rw [Tracker.lookup?]
        cases hp : Graph.start.passed? i with
        | none => rfl
        | some q =>
          rw [hpassed i q hp]
          rfl
      | global key => rfl
    rw [hnone] at hid
    exact absurd hid (by simp)
  · exact absurd hlive.made (by simp)

/-- What holds at the start and is kept by every callback holds after any callbacks. -/
theorem run_induction {P : History → Tracker → Prop} (hstart : P {} {})
    (hstep : ∀ h t c, P h t → P (h.step c) (t.step c)) (callbacks : List Callback) :
    P (History.after callbacks) (Tracker.run {} callbacks) := by
  suffices hrun : ∀ (cs : List Callback) (h : History) (t : Tracker), P h t →
      P (cs.foldl History.step h) (t.run cs) from hrun callbacks {} {} hstart
  intro cs
  induction cs with
  | nil =>
    intro h t hp
    exact hp
  | cons c cs ih =>
    intro h t hp
    exact ih (h.step c) (t.step c) (hstep h t c hp)

/-- The tracker follows the history of any callbacks. -/
theorem follows_run (callbacks : List Callback) :
    Follows (History.after callbacks) (Tracker.run {} callbacks) :=
  run_induction follows_start (fun _ _ c hf => hf.step c) callbacks

/-! ### What a name stands for -/

theorem Follows.resolve?_eq (hf : Follows h t) (name : String) :
    t.resolve? name = (h.order name).findSome? t.lookup? := by
  rw [t.resolve?_eq hf.nodup (hf.records.named _), hf.innermost, hf.outer, History.order]

/-- What the tracker finds under a name is what the name stands for. -/
theorem Follows.resolves (hf : Follows h t) (name : String) :
    h.Resolves t.graph name (t.resolve? name) := by
  have hnone : ∀ q, t.lookup? q = none → ∀ j, ¬ h.Live t.graph j q := by
    intro q hq j hlive
    rw [← hf.kept, hq] at hlive
    exact absurd hlive (by simp)
  rw [hf.resolve?_eq]
  cases hfind : (h.order name).findSome? t.lookup? with
  | none =>
    intro q hq
    exact hnone q (List.findSome?_eq_none_iff.1 hfind q hq)
  | some id =>
    obtain ⟨before, p, after, horder, hp, hbefore⟩ := List.findSome?_eq_some_iff.1 hfind
    exact ⟨before, p, after, horder, (hf.kept id p).1 hp, fun q hq => hnone q (hbefore q hq)⟩

/-- The expansion of a name after any callbacks has the definition that the name stands for. -/
theorem openName_resolves (callbacks : List Callback) (line column : Int32) (name : String) :
    ∃ definition, ((Tracker.run {} (callbacks ++ [.openName line column name])).graph.expansion?
        (History.after callbacks).size).map (·.definition) = some definition ∧
      (History.after callbacks).Resolves (Tracker.run {} callbacks).graph name definition := by
  have hf := follows_run callbacks
  refine ⟨(Tracker.run {} callbacks).resolve? name, ?_, hf.resolves name⟩
  rw [Tracker.run, List.foldl_append]
  exact (congrArg _ (congrArg _ hf.records.size.symm)).trans
    (Graph.definition_expansion?_addInside ..)

/-- An undefine after any callbacks removes the definition that the name stands for. -/
theorem undefine_resolves (callbacks : List Callback) (line column : Int32) (name : String) :
    ∃ d, (Tracker.run {} (callbacks ++ [.undefine line column name])).graph.definition?
        (History.after callbacks).size = some d ∧ d.kind = .undefine ∧
      (History.after callbacks).Resolves (Tracker.run {} callbacks).graph name d.undefines := by
  have hf := follows_run callbacks
  have hrem := Tracker.removed_remove (Tracker.run {} callbacks) hf.nodup name
  refine ⟨{ kind := .undefine, name := name,
            undefines := ((Tracker.run {} callbacks).remove name).1 }, ?_, rfl, ?_⟩
  · rw [Tracker.run, List.foldl_append, ← hf.records.size, ← hrem.size]
    exact (Graph.definition?_addInside ..).trans (if_pos rfl)
  · rw [Tracker.remove_fst _ (hf.records.named _)]
    exact hf.resolves name

end AblAnalysis.Preprocessor
