import AblAnalysis.Proofs.Preprocessor.Origins
import AblAnalysis.Proofs.Text.Parts

/-!
The arguments of an inclusion. They are those that came while its file was the one being read, whatever came
between them (`History.arrivals`): each keeps its position, and its name unless that is the number of the
position. A named argument is found by its name until a later one of that name comes or an undefine removes it.
-/

namespace AblAnalysis.Preprocessor

/-! ### Arrivals -/

/-- An argument as it is passed, with the number of its event. -/
structure Arrival where
  id : Nat
  name : String
  value : String
  undefined : Bool
  deriving Repr, DecidableEq

/-- Whether an argument is passed by position: its name is the number of its position, counted from 1. -/
def Arrival.Numbered (a : Arrival) (position : Nat) : Prop :=
  Text.IsUnsigned a.name position ∧ position < UInt64.size

theorem Arrival.numbered_iff (a : Arrival) (position : Nat) :
    a.Numbered position ↔ Text.count? a.name = some position :=
  Text.count?_eq_some_iff.symm

instance Arrival.instDecidableNumbered (a : Arrival) (position : Nat) : Decidable (a.Numbered position) :=
  decidable_of_iff _ (a.numbered_iff position).symm

namespace History

variable {h : History} {c : Callback} {owner : Nat}

/-- What a callback passes to an inclusion: an argument, if the file of the inclusion is being read. -/
def arrival (h : History) (owner : Nat) : Callback → List Arrival
  | .argument name value undefined =>
    if h.innermost = owner then [⟨h.size, name, value, undefined⟩] else []
  | _ => []

/-- What callbacks pass to an inclusion, in order. -/
def arrivals (h : History) (owner : Nat) : List Callback → List Arrival
  | [] => []
  | c :: callbacks => h.arrival owner c ++ (h.step c).arrivals owner callbacks

theorem arrivals_append (h : History) (owner : Nat) (before after : List Callback) :
    h.arrivals owner (before ++ after) =
      h.arrivals owner before ++ (before.foldl step h).arrivals owner after := by
  induction before generalizing h with
  | nil => rfl
  | cons c before ih => rw [List.cons_append, arrivals, ih, arrivals, List.append_assoc]; rfl

theorem arrival_of_not_argument (hc : ¬ c.IsArgument) : h.arrival owner c = [] := by
  cases c with
  | argument name value undefined => exact absurd ⟨name, value, undefined, rfl⟩ hc
  | _ => rfl

/-- Nothing is passed to an inclusion while other files are being read. -/
theorem arrivals_eq_nil {callbacks : List Callback} (hother : ∀ before c after,
      callbacks = before ++ c :: after → c.IsArgument → (before.foldl step h).innermost ≠ owner) :
    h.arrivals owner callbacks = [] := by
  induction callbacks generalizing h with
  | nil => rfl
  | cons c callbacks ih =>
    have hfirst : h.arrival owner c = [] := by
      by_cases hc : c.IsArgument
      · have hne := hother [] c callbacks rfl hc
        obtain ⟨name, value, undefined, rfl⟩ := hc
        exact if_neg hne
      · exact arrival_of_not_argument hc
    rw [arrivals, hfirst, List.nil_append]
    exact ih fun before c' after hsplit => hother (c :: before) c' after (congrArg (c :: ·) hsplit)

/-- Nothing but an argument is kept with the arguments of an inclusion. -/
theorem mem_made_step_argument (hc : ¬ c.IsArgument) (id i : Nat) (key : String) :
    (id, .argument i key) ∈ (h.step c).made ↔ (id, .argument i key) ∈ h.made := by
  have hevent : ∀ place, place ≠ some (.argument i key) →
      ((id, .argument i key) ∈ (h.event place).made ↔ (id, .argument i key) ∈ h.made) := by
    intro place hplace
    simp [mem_made_event, hplace]
  cases c with
  | define line column name value kind => exact hevent _ (by cases kind <;> simp [definedAt])
  | argument name value undefined => exact absurd ⟨name, value, undefined, rfl⟩ hc
  | undefine | openFile | openName => exact hevent none (by simp)
  | closeFile =>
    rw [step, leave]
    split <;> rfl
  | _ => rfl

end History

/-! ### What callbacks leave alone -/

section Step

variable {h : History} {t : Tracker} {c : Callback}

/-- An event stays what it is. -/
theorem Grounded.nature?_step (hg : Grounded h t) (c : Callback) {id : Nat} {n : Nature}
    (hn : t.graph.nature? id = some n) : (t.step c).graph.nature? id = some n := by
  cases hg.follows.move hg.current c with
  | still halike | leave _ _ _ halike | finish _ halike => rw [halike.nature?, hn]
  | record _ _ _ hinside | enter hinside | expand _ hinside => exact hinside.nature?_of_some hn
  | pass _ _ _ hbeside => exact hbeside.nature?_of_some hn

theorem Grounded.args_step (hg : Grounded h t) (hc : ¬ c.IsArgument) (i : Nat) :
    (t.step c).graph.args i = t.graph.args i := by
  cases hg.follows.move hg.current c with
  | still halike | leave _ _ _ halike | finish _ halike => exact halike.args i
  | record _ _ _ hinside | enter hinside | expand _ hinside => exact hinside.args i
  | pass name _ _ _ _ hh =>
    have hpassed := (h.passed_step_eq_iff c).2 hc
    rw [hh] at hpassed
    exact absurd hpassed (List.cons_ne_self _ _)

/-- Whether an inclusion was passed an argument by name. -/
def Graph.usesNamed (g : Graph) (i : Nat) : Bool :=
  (g.passed? i).any (·.usesNamedArgs)

theorem Graph.usesNamed_congr {g g' : Graph} {i : Nat} (h : g'.passed? i = g.passed? i) :
    g'.usesNamed i = g.usesNamed i := by
  rw [usesNamed, h, usesNamed]

theorem Follows.usesNamed_step (hf : Follows h t) (hc : ¬ c.IsArgument) (i : Nat) :
    (t.step c).graph.usesNamed i = t.graph.usesNamed i := by
  cases c with
  | define line column name value kind =>
    cases kind <;> exact Graph.usesNamed_congr (t.graph.passed?_addInside_of_none _ _ _ rfl i)
  | undefine line column name =>
    have hadded : (t.undefine line column name).graph.usesNamed i = (t.remove name).2.graph.usesNamed i :=
      Graph.usesNamed_congr ((t.remove name).2.graph.passed?_addInside_of_none _ _ _ rfl i)
    refine hadded.trans ?_
    rcases (t.removed_remove hf.nodup name).passed i with hsame | ⟨key, herase⟩
    · exact Graph.usesNamed_congr hsame
    · rw [Graph.usesNamed, herase, Graph.usesNamed]
      cases t.graph.passed? i <;> rfl
  | openFile line column fileIndex name =>
    have hpassed : (t.openFile line column fileIndex name).graph.passed? i =
        if i = t.graph.size then some {} else t.graph.passed? i := t.graph.passed?_addInside ..
    rcases eq_or_ne i t.graph.size with rfl | hne
    · rw [if_pos rfl] at hpassed
      rw [Tracker.step, Graph.usesNamed, hpassed, Graph.usesNamed,
        t.graph.passed?_of_size_le (Nat.le_refl _)]
      rfl
    · rw [if_neg hne] at hpassed
      exact Graph.usesNamed_congr hpassed
  | argument name value undefined => exact absurd ⟨name, value, undefined, rfl⟩ hc
  | closeFile line column =>
    have hpassed := t.graph.passed?_modifyInclusion t.current
      (f := fun i => { i with endLine := line, endColumn := column }) (k := id) fun i => rfl
    simp only [Option.map_id_fun, id_eq, ite_self] at hpassed
    rw [Tracker.step, Tracker.closeFile]
    split
    · rfl
    · exact Graph.usesNamed_congr (hpassed i)
  | openName => exact Graph.usesNamed_congr (t.graph.passed?_addInside_of_none _ _ _ rfl i)
  | closeName line column =>
    rw [Tracker.step, Tracker.closeName]
    split
    · exact Graph.usesNamed_congr
        (t.graph.passed?_modifyBody (fun b => b.passed?_close line column) i)
    · rfl
  | condition => rfl
  | suspend text line =>
    rw [Tracker.step, Tracker.suspend]
    split <;> rfl
  | resume line =>
    rw [Tracker.step, Tracker.resume]
    split
    · rfl
    · split <;> rfl

end Step

/-! ### The arguments of an inclusion -/

/-- Whether the events and the history have the arguments of an inclusion. -/
structure Collects (owner : Nat) (arrivals : List Arrival) (h : History) (t : Tracker) : Prop where
  args : t.graph.args owner = arrivals.map (·.id)
  events : ∀ k a, arrivals[k]? = some a →
    t.graph.definition? a.id = some (argumentEvent owner k a.name a.value a.undefined)
  made : ∀ id key, (id, .argument owner key) ∈ h.made ↔ ∃ (k : Nat) (a : Arrival),
    arrivals[k]? = some a ∧ a.id = id ∧ ¬ a.Numbered (k + 1) ∧ Text.lowercase a.name = key
  uses : t.graph.usesNamed owner = true ↔
    ∃ (k : Nat) (a : Arrival), arrivals[k]? = some a ∧ ¬ a.Numbered (k + 1)

theorem getElem?_concat_eq_some {arrivals : List Arrival} {last a : Arrival} {k : Nat} :
    (arrivals ++ [last])[k]? = some a ↔ arrivals[k]? = some a ∨ k = arrivals.length ∧ last = a := by
  rcases Nat.lt_trichotomy k arrivals.length with hlt | rfl | hgt
  · rw [List.getElem?_append_left hlt]
    exact (or_iff_left fun hk => Nat.ne_of_lt hlt hk.1).symm
  · simp
  · have hnone : ∀ more : List Arrival, more.length ≤ 1 → (arrivals ++ more)[k]? = none :=
      fun more hmore => List.getElem?_eq_none (by rw [List.length_append]; omega)
    have hnone' := hnone [] (by simp)
    rw [List.append_nil] at hnone'
    rw [hnone [last] (by simp), hnone']
    simp [Nat.ne_of_gt hgt]

section Collects

variable {owner : Nat} {arrivals : List Arrival} {h : History} {t : Tracker} {c : Callback}

theorem Collects.of_not_argument (hcol : Collects owner arrivals h t) (hg : Grounded h t)
    (hc : ¬ c.IsArgument) : Collects owner arrivals (h.step c) (t.step c) where
  args := by rw [hg.args_step hc, hcol.args]
  events k a hk := by
    have hd := hcol.events k a hk
    rw [Graph.definition?_eq_some_iff] at hd ⊢
    exact hg.nature?_step c hd
  made id key := by rw [History.mem_made_step_argument hc, hcol.made]
  uses := by rw [hg.follows.usesNamed_step hc, hcol.uses]

/-- An argument of another inclusion. -/
theorem Collects.of_other (hcol : Collects owner arrivals h t) (hg : Grounded h t)
    (hne : owner ≠ h.innermost) (name value : String) (undefined : Bool) :
    Collects owner arrivals (h.pass name) (t.argument name value undefined) := by
  have hbeside := hg.follows.beside_argument name value undefined
  obtain ⟨p, hp⟩ := hg.follows.records.inclusion h.innermost (List.mem_cons_self ..)
  rw [← hg.follows.innermost] at hp
  have htook := Tracker.took_argument hp name value undefined
  refine ⟨?_, fun k a hk => ?_, fun id key => ?_, ?_⟩
  · rw [hbeside.args, if_neg hne, hcol.args]
  · have hd := hcol.events k a hk
    rw [Graph.definition?_eq_some_iff] at hd ⊢
    exact hbeside.nature?_of_some hd
  · rw [← hcol.made]
    refine (History.mem_made_event _ id _).trans (or_iff_left ?_)
    rintro ⟨-, hplace⟩
    rw [argumentAt] at hplace
    split at hplace
    · exact absurd hplace (by simp)
    · exact hne (Place.argument.inj (Option.some.inj hplace)).1.symm
  · rw [Graph.usesNamed_congr, hcol.uses]
    rw [htook.passed, if_neg (by rw [hg.follows.innermost]; exact hne)]

/-- One more argument of the inclusion. -/
theorem Collects.of_own (hcol : Collects h.innermost arrivals h t) (hg : Grounded h t)
    (name value : String) (undefined : Bool) :
    Collects h.innermost (arrivals ++ [⟨h.size, name, value, undefined⟩]) (h.pass name)
      (t.argument name value undefined) := by
  have hbeside := hg.follows.beside_argument name value undefined
  obtain ⟨p, hp⟩ := hg.follows.records.inclusion h.innermost (List.mem_cons_self ..)
  have hargs := hg.follows.records.args _ p hp
  rw [← hg.follows.innermost] at hp
  have htook := Tracker.took_argument hp name value undefined
  have hsize := hg.follows.records.size
  have hlength : (t.graph.args h.innermost).length = arrivals.length := by
    rw [hcol.args, List.length_map]
  have hcount : h.passed.count h.innermost = arrivals.length := by
    rw [← hlength, hg.length_args]
  have hnumbered := Arrival.numbered_iff ⟨h.size, name, value, undefined⟩ (arrivals.length + 1)
  rw [hlength] at hbeside
  refine ⟨?_, fun k a hk => ?_, fun id key => ?_, ?_⟩
  · rw [hbeside.args, if_pos rfl, hcol.args, List.map_append, hsize]
    rfl
  · rcases getElem?_concat_eq_some.1 hk with hk | ⟨rfl, rfl⟩
    · have hd := hcol.events k a hk
      rw [Graph.definition?_eq_some_iff] at hd ⊢
      exact hbeside.nature?_of_some hd
    · rw [Graph.definition?_eq_some_iff, hbeside.nature?, if_pos hsize.symm]
  · simp only [getElem?_concat_eq_some, or_and_right, exists_or, ← hcol.made]
    refine (History.mem_made_event _ id _).trans (or_congr_right ?_)
    rw [hcount, argumentAt]
    constructor
    · rintro ⟨rfl, hplace⟩
      split at hplace
      · exact absurd hplace (by simp)
      · rename_i hnamed
        exact ⟨_, _, ⟨rfl, rfl⟩, rfl, mt hnumbered.1 hnamed,
          (Place.argument.inj (Option.some.inj hplace)).2⟩
    · rintro ⟨_, _, ⟨rfl, rfl⟩, rfl, hnamed, rfl⟩
      exact ⟨rfl, if_neg (mt hnumbered.2 hnamed)⟩
  · have hpassed := htook.passed h.innermost
    have huses : t.graph.usesNamed h.innermost = p.usesNamedArgs := by
      rw [Graph.usesNamed, ← hg.follows.innermost, hp, Option.any_some]
    rw [if_pos hg.follows.innermost.symm, hargs, hcount] at hpassed
    simp only [getElem?_concat_eq_some, or_and_right, exists_or, ← hcol.uses, huses]
    rw [Graph.usesNamed, hpassed, Option.any_some]
    by_cases hcount? : Text.count? name = some (arrivals.length + 1)
    · simp [Passed.take, hcount?, hnumbered]
    · simp [Passed.take, hcount?, hnumbered]

theorem Collects.step (hcol : Collects owner arrivals h t) (hg : Grounded h t) (c : Callback) :
    Collects owner (arrivals ++ h.arrival owner c) (h.step c) (t.step c) := by
  by_cases hc : c.IsArgument
  · obtain ⟨name, value, undefined, rfl⟩ := hc
    rw [History.arrival]
    split
    · rename_i howner
      subst howner
      exact hcol.of_own hg name value undefined
    · rename_i hne
      rw [List.append_nil]
      exact hcol.of_other hg (Ne.symm hne) name value undefined
  · rw [History.arrival_of_not_argument hc, List.append_nil]
    exact hcol.of_not_argument hg hc

theorem collects_start (owner : Nat) : Collects owner [] {} {} where
  args := by cases owner <;> rfl
  events k a hk := absurd hk (by simp)
  made id key := by simp
  uses := by
    have hnone : Graph.start.usesNamed owner = false := by cases owner <;> rfl
    simp [hnone]

end Collects

/-- The arguments of an inclusion are what callbacks pass to it. -/
theorem collects_run (owner : Nat) (callbacks : List Callback) :
    Collects owner (({} : History).arrivals owner callbacks) (History.after callbacks)
      (Tracker.run {} callbacks) := by
  induction callbacks using List.reverseRecOn with
  | nil => exact collects_start owner
  | append_singleton callbacks c ih =>
    have hafter : History.after (callbacks ++ [c]) = (History.after callbacks).step c :=
      List.foldl_concat ..
    have hlast : (History.after callbacks).arrivals owner [c] = (History.after callbacks).arrival owner c :=
      List.append_nil _
    rw [run_concat, hafter, History.arrivals_append]
    exact hlast ▸ ih.step (grounded_run callbacks) c

theorem nature?_run {callbacks : List Callback} (later : List Callback) {id : Nat} {n : Nature}
    (hn : (Tracker.run {} callbacks).graph.nature? id = some n) :
    (Tracker.run {} (callbacks ++ later)).graph.nature? id = some n := by
  induction later using List.reverseRecOn with
  | nil => rwa [List.append_nil]
  | append_singleton later c ih =>
    rw [← List.append_assoc, run_concat]
    exact (grounded_run (callbacks ++ later)).nature?_step c ih

/-! ### Finding arguments -/

theorem Graph.args_of_inclusion? {g : Graph} {id : Nat} {i : Inclusion} (h : g.inclusion? id = some i) :
    g.args id = i.args.toList := by
  rw [args, g.body?_of_inclusion? h]
  rfl

/-- Whether an argument is the last one passed by a name in any spelling. -/
def LastNamed (arrivals : List Arrival) (name : String) (a : Arrival) : Prop :=
  ∃ k, arrivals[k]? = some a ∧ ¬ a.Numbered (k + 1) ∧ Text.lowercase a.name = Text.lowercase name ∧
    ∀ k' b, k < k' → arrivals[k']? = some b → ¬ b.Numbered (k' + 1) →
      Text.lowercase b.name ≠ Text.lowercase name

/-- What an event says of the argument at a position counted from 1. -/
structure Tells (owner position : Nat) (a : Arrival) (d : Definition) : Prop where
  value : d.value = a.value
  inclusion : d.inclusion = some owner
  undefined : d.undefined = a.undefined
  undefines : d.undefines = none
  numbered : a.Numbered position → d.kind = .numberedArgument ∧ d.name = ""
  named : ¬ a.Numbered position → d.kind = .namedArgument ∧ d.name = a.name

theorem tells_argumentEvent (owner k : Nat) (a : Arrival) :
    Tells owner (k + 1) a (argumentEvent owner k a.name a.value a.undefined) := by
  have hnumbered := a.numbered_iff (k + 1)
  refine ⟨rfl, rfl, rfl, rfl, fun h => ?_, fun h => ?_⟩
  · simp [argumentEvent, hnumbered.1 h]
  · simp [argumentEvent, mt hnumbered.2 h]

/-- What an inclusion tells about the arguments that it was passed. -/
structure Arguments (g : Graph) (owner : Nat) (i : Inclusion) (arrivals : List Arrival) : Prop where
  args : i.args.toList = arrivals.map (·.id)
  position : ∀ k a, arrivals[k]? = some a → i.arg? (k + 1) = some a.id ∧
    ∃ d, g.definition? a.id = some d ∧ Tells owner (k + 1) a d
  usesNamed : i.usesNamedArgs = true ↔
    ∃ (k : Nat) (a : Arrival), arrivals[k]? = some a ∧ ¬ a.Numbered (k + 1)
  named : ∀ name id, i.namedArg? name = some id ↔
    ¬ g.Undefined id ∧ ∃ a, LastNamed arrivals name a ∧ a.id = id

/-- Arguments are found by their positions and by their names. -/
theorem Collects.arguments {owner : Nat} {arrivals : List Arrival} {h : History} {t : Tracker}
    (hcol : Collects owner arrivals h t) (hg : Grounded h t) {i : Inclusion}
    (hi : t.graph.inclusion? owner = some i) : Arguments t.graph owner i arrivals := by
  have hargs : i.args.toList = arrivals.map (·.id) := by rw [← Graph.args_of_inclusion? hi, hcol.args]
  have hpassed : t.graph.passed? owner = some ⟨i.args, i.named, i.usesNamedArgs⟩ := by
    rw [Graph.passed?_eq, hi, Option.map_some]
  have huses : t.graph.usesNamed owner = i.usesNamedArgs := by
    rw [Graph.usesNamed, hpassed, Option.any_some]
  have hincrease : ∀ {k k' : Nat} {a b : Arrival}, arrivals[k]? = some a → arrivals[k']? = some b →
      k < k' → a.id < b.id := by
    intro k k' a b hk hk' hlt
    have hpairwise := hg.linked.args_increase owner
    rw [hcol.args, List.pairwise_map] at hpairwise
    obtain ⟨hlength, rfl⟩ := List.getElem?_eq_some_iff.1 hk
    obtain ⟨hlength', rfl⟩ := List.getElem?_eq_some_iff.1 hk'
    exact List.pairwise_iff_getElem.1 hpairwise k k' hlength hlength' hlt
  refine ⟨hargs, fun k a hk => ⟨?_, _, hcol.events k a hk, tells_argumentEvent owner k a⟩, ?_,
    fun name id => ?_⟩
  · rw [Inclusion.arg?, if_neg (Nat.succ_ne_zero k), Nat.add_sub_cancel, ← Array.getElem?_toList, hargs,
      List.getElem?_map, hk, Option.map_some]
  · rw [← huses, hcol.uses]
  · have hlookup := t.namedArg?_eq (hg.follows.records.named owner) name
    rw [hi, Option.bind_some] at hlookup
    rw [hlookup, hg.follows.kept]
    constructor
    · rintro ⟨hmade, hlast, hkept, -⟩
      obtain ⟨k, a, hk, rfl, hnamed, hname⟩ := (hcol.made id _).1 hmade
      refine ⟨hkept, a, ⟨k, hk, hnamed, hname, fun k' b hlt hk' hnamed' hname' => ?_⟩, rfl⟩
      have hle := hlast b.id ((hcol.made b.id _).2 ⟨k', b, hk', rfl, hnamed', hname'⟩)
      exact absurd (hincrease hk hk' hlt) (Nat.not_lt.2 hle)
    · rintro ⟨hkept, a, ⟨k, hk, hnamed, hname, hlast⟩, rfl⟩
      refine ⟨(hcol.made a.id _).2 ⟨k, a, hk, rfl, hnamed, hname⟩, fun j hj => ?_, hkept, by simp⟩
      obtain ⟨k', b, hk', rfl, hnamed', hname'⟩ := (hcol.made j _).1 hj
      rcases Nat.lt_trichotomy k k' with hlt | rfl | hgt
      · exact absurd hname' (hlast k' b hlt hk' hnamed')
      · exact Nat.le_of_eq (congrArg Arrival.id (Option.some.inj (hk'.symm.trans hk)))
      · exact Nat.le_of_lt (hincrease hk' hk hgt)

/-- After any callbacks the arguments of an inclusion are those that came while its file was the one being read,
in the order in which they came. An argument is passed by position if and only if its name is the number of
that position; otherwise it keeps its name, and it is found by the name, in any spelling, unless a later one
has it or an undefine removed it. Callbacks that come later add what they pass to the inclusion at the end,
and change nothing if they pass it nothing. -/
theorem arguments_run (callbacks : List Callback) (owner : Nat) {i : Inclusion}
    (hi : (Tracker.run {} callbacks).graph.inclusion? owner = some i) :
    Arguments (Tracker.run {} callbacks).graph owner i (({} : History).arrivals owner callbacks) ∧
    ∀ later, ∃ i', (Tracker.run {} (callbacks ++ later)).graph.inclusion? owner = some i' ∧
      i'.args.toList = i.args.toList ++ ((History.after callbacks).arrivals owner later).map (·.id) ∧
      ((∀ before c after, later = before ++ c :: after → c.IsArgument →
        (History.after (callbacks ++ before)).innermost ≠ owner) → i'.args = i.args) := by
  have hcol := collects_run owner callbacks
  refine ⟨hcol.arguments (grounded_run callbacks) hi, fun later => ?_⟩
  have hnature := nature?_run later ((Graph.exists_inclusion?_iff _).1 ⟨i, hi, rfl⟩)
  obtain ⟨i', hi', -⟩ := (Graph.exists_inclusion?_iff _).2 hnature
  have hlater := (collects_run owner (callbacks ++ later)).args
  rw [Graph.args_of_inclusion? hi', History.arrivals_append, List.map_append, ← hcol.args,
    Graph.args_of_inclusion? hi] at hlater
  refine ⟨i', hi', hlater, fun hother => Array.toList_inj.1 ?_⟩
  have hnone : (callbacks.foldl History.step {}).arrivals owner later = [] := by
    refine History.arrivals_eq_nil fun before c after hsplit hc => ?_
    rw [← List.foldl_append]
    exact hother before c after hsplit hc
  rw [hlater, hnone]
  exact List.append_nil _

/-- Two inclusions, the second inside the first, with arguments in between and an undefine. -/
def passing : List Callback :=
  [.openFile 1 1 1 "a.i", .argument "1" "x" false, .argument "name" "y" false, .openFile 2 1 2 "b.i",
    .argument "1" "z" false, .closeFile 3 1, .argument "3" "v" false, .argument "2" "w" false,
    .argument "name" "u" false, .undefine 4 1 "name"]

theorem arguments_passing : ∃ i, (Tracker.run {} passing).graph.inclusion? 1 = some i ∧
    i.args.toList = [2, 3, 6, 7, 8] ∧ i.usesNamedArgs = true ∧
    (∃ d, (Tracker.run {} passing).graph.definition? 6 = some d ∧
      d.kind = .numberedArgument ∧ d.name = "") ∧
    ∃ d, (Tracker.run {} passing).graph.definition? 7 = some d ∧
      d.kind = .namedArgument ∧ d.name = "2" := by
  obtain ⟨i, hi⟩ := (follows_run passing).inclusion?_innermost
  have hinnermost : (History.after passing).innermost = 1 := by decide
  have harrivals : ({} : History).arrivals 1 passing = [⟨2, "1", "x", false⟩, ⟨3, "name", "y", false⟩,
      ⟨6, "3", "v", false⟩, ⟨7, "2", "w", false⟩, ⟨8, "name", "u", false⟩] := by decide
  rw [hinnermost] at hi
  have harguments := (arguments_run passing 1 hi).1
  rw [harrivals] at harguments
  obtain ⟨-, d, hd, htells⟩ := harguments.position 2 _ rfl
  obtain ⟨-, d', hd', htells'⟩ := harguments.position 3 _ rfl
  exact ⟨i, hi, harguments.args, harguments.usesNamed.2 ⟨1, _, rfl, by decide⟩,
    ⟨d, hd, htells.numbered (by decide)⟩, d', hd', htells'.named (by decide)⟩

/-- An undefine removes the last argument of a name, and the one before does not come back. -/
example : ((Tracker.run {} passing).graph.inclusion? 1).map (·.namedArg? "NAME") = some none := by
  decide +kernel

end AblAnalysis.Preprocessor
