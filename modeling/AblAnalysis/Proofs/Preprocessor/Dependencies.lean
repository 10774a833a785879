import AblAnalysis.Proofs.Preprocessor.SourceOrder
import Mathlib.Logic.Relation

/-!
Dependencies that leave a reference. A reference depends on what is outside it through the inclusions
in it, the expansions of what was not defined in it, and the undefines of what was not defined in it or
was passed to it by name. Expansions of what was defined in it are searched in turn (`Graph.Reached`).

The search lists what it finds in the order in which it happened. The reason is stronger than that for
references alone (`Graph.Ordered`): between a reference and anything that happens in it, nothing at all
happens but in that reference (`Graph.Sequenced`).
-/

namespace AblAnalysis.Preprocessor

/-- Whether an event stands between two optional places of its file, both included. -/
def Event.StandsBetween (e : Event) (first last : Option (Int32 × Int32)) : Prop :=
  (∀ line column, first = some (line, column) →
      line < e.line ∨ line = e.line ∧ column ≤ e.column) ∧
    ∀ line column, last = some (line, column) →
      e.line < line ∨ e.line = line ∧ e.column ≤ column

theorem inBounds_iff (e : Event) (first last : Option (Int32 × Int32)) :
    inBounds e.line e.column first last = true ↔ e.StandsBetween first last := by
  rcases first with _ | ⟨l, c⟩ <;> rcases last with _ | ⟨l', c'⟩ <;>
    simp [inBounds, Event.StandsBetween]

namespace Graph

variable {g g' : Graph} {current owner a b c d id : Nat}

/-! ### Events in sequence -/

/-- Whether an event is listed where it happens, as all but arguments are. -/
def Listed (g : Graph) (id : Nat) : Prop :=
  id < g.size ∧ g.owner? id = none

theorem listed_of_isRef (h : g.isRef id = true) : g.Listed id :=
  ⟨g.lt_size_of_isRef h, owner?_of_isRef h⟩

theorem Linked.listed_of_mem_children (hl : g.Linked) {p : Nat} (h : id ∈ g.children p) :
    g.Listed id :=
  ⟨hl.lt_size_of_mem_children h, ((hl.mem_children p id).1 h).2⟩

theorem Alike.listed_iff (h : g.Alike g') : g'.Listed id ↔ g.Listed id := by
  rw [Listed, h.size, h.owner?, Listed]

/-- What is listed is inside the main file. -/
theorem Linked.within_root_of_listed (hl : g.Linked) (hid : g.Listed id) : g.Within 0 id := by
  cases hp : g.parent? id with
  | some p => exact .inside hp (hl.within_root (hl.parent id p hp).2)
  | none =>
    rcases hl.orphan id hid.1 hp with rfl | hpassed
    · exact .refl
    · rw [hid.2] at hpassed
      exact absurd hpassed (by simp)

/-- Whether everything listed after some reference is inside it, and so is everything listed between
a reference and an event that happens in it. -/
structure Sequenced (g : Graph) (current : Nat) : Prop where
  spine : ∀ b, g.Listed b → current ≤ b → g.Within current b
  between : ∀ p c, g.parent? c = some p → g.Listed c →
    ∀ b, g.Listed b → p ≤ b → b < c → g.Within p b

namespace Sequenced

theorem alike (h : g.Sequenced current) (halike : g.Alike g') : g'.Sequenced current where
  spine b hb hle := halike.within_iff.2 (h.spine b (halike.listed_iff.1 hb) hle)
  between p c hp hc b hb hpb hbc := by
    rw [halike.parent?] at hp
    exact halike.within_iff.2
      (h.between p c hp (halike.listed_iff.1 hc) b (halike.listed_iff.1 hb) hpb hbc)

/-- The reference around the current one has everything after it inside as well. -/
theorem around (h : g.Sequenced current) (hl : g.Linked) (hcurrent : g.isRef current = true) :
    g.Sequenced ((g.parent? current).getD 0) := by
  refine ⟨fun b hb hle => ?_, h.between⟩
  cases hp : g.parent? current with
  | none => exact hl.within_root_of_listed hb
  | some p =>
    rw [hp] at hle
    rcases Nat.lt_or_ge b current with hlt | hge
    · exact h.between p current hp (listed_of_isRef hcurrent) b hb hle hlt
    · exact (Within.inside hp .refl).trans (h.spine b hb hge)

/-- An event in the current reference. -/
theorem inside (h : g.Sequenced current) (hl : g.Linked) {nature : Nature}
    (hinside : g.Inside g' current nature) (howner : nature.owner? = none) :
    g'.Sequenced current := by
  have hnew : g'.parent? g.size = some current := by rw [hinside.parent?, if_pos rfl]
  have hlisted : ∀ {b}, g'.Listed b ↔ b = g.size ∨ g.Listed b := by
    intro b
    rw [Listed, hinside.size, hinside.toAdds.owner?, howner, Listed]
    by_cases hb : b = g.size
    · simp [hb]
    · have : b < g.size + 1 ↔ b < g.size := by omega
      simp [hb, this]
  have hold : ∀ {a b}, b < g.size → g.Within a b → g'.Within a b := fun hb =>
    (hl.within_iff (fun _ => hinside.parent?_of_lt) hb).2
  constructor
  · intro b hb hle
    rcases hlisted.1 hb with rfl | hb
    · exact .inside hnew .refl
    · exact hold hb.1 (h.spine b hb hle)
  · intro p c hp hc b hb hpb hbc
    have hb : g.Listed b := by
      rcases hlisted.1 hb with rfl | hb
      · have := hc.1
        have := hinside.size
        omega
      · exact hb
    rcases hlisted.1 hc with rfl | hc
    · obtain rfl := Option.some.inj (hnew.symm.trans hp)
      exact hold hb.1 (h.spine b hb hpb)
    · rw [hinside.parent?_of_lt hc.1] at hp
      exact hold hb.1 (h.between p c hp hc b hb hpb hbc)

/-- Nothing comes after the last event. -/
theorem last (h : g.Sequenced current) {n : Nat} (hn : g.size = n + 1) : g.Sequenced n where
  spine b hb hle := by
    obtain rfl : b = n := by
      have := hb.1
      omega
    exact .refl
  between := h.between

/-- An argument is listed nowhere. -/
theorem beside (h : g.Sequenced current) (hl : g.Linked) {d : Definition}
    (hbeside : g.Beside g' owner d) (hd : d.inclusion = some owner) : g'.Sequenced current := by
  have hlisted : ∀ {b}, g'.Listed b → g.Listed b := by
    rintro b ⟨hlt, hnone⟩
    rw [hbeside.toAdds.owner?] at hnone
    by_cases hb : b = g.size
    · rw [if_pos hb] at hnone
      exact absurd (hd.symm.trans hnone) (by simp)
    · rw [if_neg hb] at hnone
      rw [hbeside.size] at hlt
      exact ⟨by omega, hnone⟩
  have hold : ∀ {a b}, b < g.size → g.Within a b → g'.Within a b := fun hb =>
    (hl.within_iff (fun _ => hbeside.parent?_of_lt) hb).2
  constructor
  · intro b hb hle
    exact hold (hlisted hb).1 (h.spine b (hlisted hb) hle)
  · intro p c hp hc b hb hpb hbc
    rw [hbeside.parent?_of_lt (hlisted hc).1] at hp
    exact hold (hlisted hb).1 (h.between p c hp (hlisted hc) b (hlisted hb) hpb hbc)

/-- An event has all its contents before anything else happens. -/
theorem nested (h : g.Sequenced current) (hl : g.Linked) (hb : g.Listed b) (hc : g.Listed c)
    (hab : a ≤ b) (hbc : b ≤ c) (hw : g.Within a c) : g.Within a b := by
  induction hw with
  | refl =>
    obtain rfl := Nat.le_antisymm hab hbc
    exact .refl
  | @inside c p hp hw ih =>
    rcases Nat.lt_or_eq_of_le hbc with hlt | rfl
    · rcases Nat.lt_or_ge b p with hbp | hpb
      · exact ih (listed_of_isRef (hl.parent c p hp).2) (Nat.le_of_lt hbp)
      · exact hw.trans (h.between p c hp hc b hb hpb hlt)
    · exact .inside hp hw

/-- What is inside an event happens before the next event in the same reference. -/
theorem lt_of_within (h : g.Sequenced current) (hl : g.Linked) {p : Nat}
    (hc : c ∈ g.children p) (hd : d ∈ g.children p) (hcd : c < d) (hid : g.Listed id)
    (hw : g.Within c id) : id < d := by
  refine Nat.lt_of_not_le fun hle => ?_
  have hpc := ((hl.mem_children p c).1 hc).1
  have hpd := ((hl.mem_children p d).1 hd).1
  -- otherwise `d` would be inside `c`, and `c` around the reference that it happens in
  rcases (h.nested hl (hl.listed_of_mem_children hd) hid (Nat.le_of_lt hcd) hle hw).cases_parent
    with rfl | ⟨q, hq, hw⟩
  · exact Nat.lt_irrefl _ hcd
  · obtain rfl := Option.some.inj (hq.symm.trans hpd)
    exact Nat.not_le_of_lt (hl.parent c q hpc).1 (hw.le hl)

/-- A search of what happened in a reference, one event after the other, keeps the order. -/
theorem pairwise_flatMap (h : g.Sequenced current) (hl : g.Linked) {p : Nat} {found : Nat → List Nat}
    (hfound : ∀ c ∈ g.children p, (found c).Pairwise (· < ·) ∧
      ∀ id ∈ found c, g.Listed id ∧ g.Within c id) :
    ((g.children p).flatMap found).Pairwise (· < ·) := by
  rw [List.pairwise_flatMap]
  refine ⟨fun c hc => (hfound c hc).1, (hl.children_increase p).imp_of_mem ?_⟩
  intro c d hc hd hcd x hx y hy
  obtain ⟨hlisted, hw⟩ := (hfound c hc).2 x hx
  exact Nat.lt_of_lt_of_le (h.lt_of_within hl hc hd hcd hlisted hw) (((hfound d hd).2 y hy).2.le hl)

end Sequenced

/-! ### What depends on the outside -/

/-- Whether a definition was made inside `owner`. -/
def MadeInside (g : Graph) (owner definition : Nat) : Prop :=
  ∃ p, g.parent? definition = some p ∧ g.Within owner p

/-- Whether an event expands a definition that was made inside `owner`. -/
def ExpandsInside (g : Graph) (owner id : Nat) : Prop :=
  ∃ definition, g.nature? id = some (.expansion (some definition)) ∧ g.MadeInside owner definition

/-- Whether an event depends on something outside `owner`. -/
inductive DependsOutside (g : Graph) (owner id : Nat) : Prop
  | inclusion {fileIndex : Int32} :
    g.nature? id = some (.inclusion fileIndex) → DependsOutside g owner id
  | unresolved : g.nature? id = some (.expansion none) → DependsOutside g owner id
  | expansion {definition : Nat} : g.nature? id = some (.expansion (some definition)) →
    ¬ g.MadeInside owner definition → DependsOutside g owner id
  /-- The undefine of a named argument, wherever the argument was passed. -/
  | argument {u d : Definition} {target : Nat} : g.nature? id = some (.definition u) →
    u.kind = .undefine → u.undefines = some target →
    g.nature? target = some (.definition d) → d.kind = .namedArgument → DependsOutside g owner id
  | undefine {u : Definition} {target : Nat} : g.nature? id = some (.definition u) →
    u.kind = .undefine → u.undefines = some target →
    ¬ g.MadeInside owner target → DependsOutside g owner id

/-- What a search of `owner` reaches: the events directly in it that stand in the bounds, and those in
an expansion that it reaches of a definition made inside. -/
inductive Reached (g : Graph) (owner : Nat) (first last : Option (Int32 × Int32)) : Nat → Prop
  | direct {id : Nat} {e : Event} : id ∈ g.children owner → g.event? id = some e →
    e.StandsBetween first last → Reached g owner first last id
  | onward {id c : Nat} : Reached g owner first last id → g.ExpandsInside owner id →
    c ∈ g.children id → Reached g owner first last c

/-- One step of the search. -/
def Opens (g : Graph) (owner id c : Nat) : Prop :=
  g.ExpandsInside owner id ∧ c ∈ g.children id

theorem reached_iff {first last : Option (Int32 × Int32)} :
    g.Reached owner first last id ↔ ∃ c ∈ g.children owner,
      (∃ e, g.event? c = some e ∧ e.StandsBetween first last) ∧
        Relation.ReflTransGen (g.Opens owner) c id := by
  constructor
  · intro h
    induction h with
    | direct hc he hbetween => exact ⟨_, hc, ⟨_, he, hbetween⟩, .refl⟩
    | onward _ hopen hc ih =>
      obtain ⟨top, htop, hbetween, hpath⟩ := ih
      exact ⟨top, htop, hbetween, hpath.tail ⟨hopen, hc⟩⟩
  · rintro ⟨top, htop, ⟨e, he, hbetween⟩, hpath⟩
    induction hpath with
    | refl => exact .direct htop he hbetween
    | tail _ hstep ih => exact .onward ih hstep.1 hstep.2

/-- What is opened is searched for its contents and is not found itself. -/
theorem ExpandsInside.not_dependsOutside (h : g.ExpandsInside owner id) :
    ¬ g.DependsOutside owner id := by
  obtain ⟨definition, hn, hinside⟩ := h
  rintro (hn' | hn' | ⟨hn', hnot⟩ | hn' | hn') <;> rw [hn] at hn'
  case expansion =>
    obtain rfl := Option.some.inj (Nature.expansion.inj (Option.some.inj hn'))
    exact hnot hinside
  all_goals exact absurd hn' (by simp)

/-- A definition depends on something outside if it removed such a thing. -/
theorem dependsOutside_definition_iff {u : Definition}
    (hn : g.nature? id = some (.definition u)) :
    g.DependsOutside owner id ↔ u.kind = .undefine ∧ ∃ target, u.undefines = some target ∧
      ((g.definition? target).map (·.kind) = some .namedArgument ∨ ¬ g.MadeInside owner target) := by
  have heq : ∀ {u'}, g.nature? id = some (.definition u') → u' = u := fun hn' =>
    Nature.definition.inj (Option.some.inj (hn'.symm.trans hn))
  constructor
  · rintro (hn' | hn' | hn' | ⟨hn', hkind, htarget, hd, hnamed⟩ | ⟨hn', hkind, htarget, hnot⟩)
    case argument =>
      obtain rfl := heq hn'
      refine ⟨hkind, _, htarget, .inl ?_⟩
      rw [(g.definition?_eq_some_iff).2 hd, Option.map_some, hnamed]
    case undefine =>
      obtain rfl := heq hn'
      exact ⟨hkind, _, htarget, .inr hnot⟩
    all_goals exact absurd (hn'.symm.trans hn) (by simp)
  · rintro ⟨hkind, target, htarget, hnamed | hnot⟩
    · obtain ⟨d, hd, hdkind⟩ := Option.map_eq_some_iff.1 hnamed
      exact .argument hn hkind htarget ((g.definition?_eq_some_iff).1 hd) hdkind
    · exact .undefine hn hkind htarget hnot

/-! ### The search -/

theorem Linked.isWithin_iff (hl : g.Linked) : g.isWithin owner id = true ↔ g.Within owner id := by
  induction id using Nat.strong_induction_on with
  | _ id ih =>
    rw [isWithin]
    by_cases hid : id = owner
    · rw [if_pos hid, hid]
      exact iff_of_true rfl .refl
    · rw [if_neg hid]
      cases hp : g.parent? id with
      | none =>
        refine iff_of_false Bool.false_ne_true fun hw => ?_
        rcases hw.cases_parent with rfl | ⟨p, hp', -⟩
        · exact hid rfl
        · exact absurd (hp.symm.trans hp') (by simp)
      | some p =>
        have hlt := (hl.parent id p hp).1
        simp only [if_pos hlt, ih p hlt]
        constructor
        · exact .inside hp
        · intro hw
          rcases hw.cases_parent with rfl | ⟨q, hq, hw⟩
          · exact absurd rfl hid
          · obtain rfl := Option.some.inj (hq.symm.trans hp)
            exact hw

theorem Linked.definedInside_iff (hl : g.Linked) :
    g.definedInside owner d = true ↔ g.MadeInside owner d := by
  rw [definedInside, MadeInside]
  cases g.parent? d with
  | none => simp
  | some p => simp [hl.isWithin_iff]

/-- Events happen before those in them. -/
theorem Linked.lt_of_mem_children (hl : g.Linked) (h : c ∈ g.children id) :
    id < c ∧ c < g.size :=
  ⟨(hl.parent c id ((hl.mem_children id c).1 h).1).1, hl.lt_size_of_mem_children h⟩

/-- Walks from events to those in them end. -/
theorem Linked.wellFounded_children (hl : g.Linked) :
    WellFounded (fun c id => c ∈ g.children id) := by
  refine Subrelation.wf (fun {c id} hc => ?_) (measure fun id => g.size - id).wf
  have := hl.lt_of_mem_children hc
  show g.size - c < g.size - id
  omega

theorem exists_body?_of_nature? {n : Nature} (h : g.nature? id = some n) :
    ∃ b, g.body? id = some b ∧ b.nature = n :=
  Option.map_eq_some_iff.1 h

/-- An expansion of what was defined inside is searched: what is found at it is what is found at the
events in it. -/
theorem Linked.externalsAt_of_expandsInside (hl : g.Linked) (h : g.ExpandsInside owner id) :
    g.externalsAt owner id = (g.children id).flatMap (g.externalsAt owner) := by
  obtain ⟨definition, hn, hinside⟩ := h
  obtain ⟨b, hbody, hnature⟩ := exists_body?_of_nature? hn
  cases b with
  | expansion e =>
    have hdef : e.definition = some definition := Nature.expansion.inj hnature
    have hchildren : g.children id = e.children.toList := by
      rw [children_eq, hbody]
      rfl
    rw [externalsAt, hbody]
    simp only [hdef]
    rw [if_pos (hl.definedInside_iff.2 hinside), ← hchildren]
    exact List.flatMap_congr fun c hc => dif_pos (hl.lt_of_mem_children hc)
  | inclusion | definition => exact absurd hnature (by simp [EventBody.nature])

/-- At any other event the event itself is found if it depends on something outside, else nothing. -/
theorem Linked.externalsAt_of_not_expandsInside (hl : g.Linked) (h : ¬ g.ExpandsInside owner id) :
    g.DependsOutside owner id ∧ g.externalsAt owner id = [id] ∨
      ¬ g.DependsOutside owner id ∧ g.externalsAt owner id = [] := by
  rw [externalsAt]
  cases hbody : g.body? id with
  | none =>
    have hn : g.nature? id = none := by rw [nature?, hbody, Option.map_none]
    refine .inr ⟨?_, rfl⟩
    rintro (hn' | hn' | hn' | hn' | hn') <;> rw [hn] at hn' <;> exact absurd hn' (by simp)
  | some b =>
    have hn : g.nature? id = some b.nature := by rw [nature?, hbody, Option.map_some]
    cases b with
    | inclusion i => exact .inl ⟨.inclusion hn, rfl⟩
    | expansion e =>
      rw [EventBody.nature] at hn
      cases hdef : e.definition with
      | none =>
        rw [hdef] at hn
        exact .inl ⟨.unresolved hn, by simp only [hdef]⟩
      | some definition =>
        rw [hdef] at hn
        have hnot : ¬ g.MadeInside owner definition := fun hinside => h ⟨definition, hn, hinside⟩
        refine .inl ⟨.expansion hn hnot, ?_⟩
        simp only [hdef]
        exact if_neg fun htrue => hnot (hl.definedInside_iff.1 htrue)
    | definition u =>
      rw [EventBody.nature] at hn
      have hiff : ∀ target, g.definedInside owner target = true ↔ g.MadeInside owner target :=
        fun _ => hl.definedInside_iff
      rw [dependsOutside_definition_iff hn]
      simp only []
      split
      · rename_i target hkind htarget
        simp only [hkind, htarget, true_and, Option.some.injEq, exists_eq_left', ← hiff]
        split
        · simp [*]
        · split <;> simp [*]
      · rename_i hother
        refine .inr ⟨?_, rfl⟩
        rintro ⟨hkind, target, htarget, -⟩
        exact hother target hkind htarget

/-- What is found at an event is what is reached from it and depends on something outside. -/
theorem Linked.mem_externalsAt (hl : g.Linked) : a ∈ g.externalsAt owner id ↔
    Relation.ReflTransGen (g.Opens owner) id a ∧ g.DependsOutside owner a := by
  induction id using hl.wellFounded_children.induction with
  | _ id ih =>
    by_cases hopen : g.ExpandsInside owner id
    · rw [hl.externalsAt_of_expandsInside hopen, List.mem_flatMap]
      constructor
      · rintro ⟨c, hc, ha⟩
        obtain ⟨hpath, hdepends⟩ := (ih c hc).1 ha
        exact ⟨hpath.head ⟨hopen, hc⟩, hdepends⟩
      · rintro ⟨hpath, hdepends⟩
        rcases hpath.cases_head with rfl | ⟨c, hstep, hpath⟩
        · exact absurd hdepends hopen.not_dependsOutside
        · exact ⟨c, hstep.2, (ih c hstep.2).2 ⟨hpath, hdepends⟩⟩
    · have hpath : Relation.ReflTransGen (g.Opens owner) id a ↔ a = id := by
        refine ⟨fun hpath => ?_, fun heq => heq ▸ .refl⟩
        rcases hpath.cases_head with rfl | ⟨c, hstep, -⟩
        · rfl
        · exact absurd hstep.1 hopen
      rw [hpath]
      rcases hl.externalsAt_of_not_expandsInside hopen with ⟨hdepends, heq⟩ | ⟨hnot, heq⟩ <;>
        rw [heq]
      · rw [List.mem_singleton]
        exact ⟨fun ha => ⟨ha, ha ▸ hdepends⟩, And.left⟩
      · refine iff_of_false List.not_mem_nil ?_
        rintro ⟨rfl, hdepends⟩
        exact hnot hdepends

theorem mem_externals {first last : Option (Int32 × Int32)} : a ∈ g.externals owner first last ↔
    ∃ c ∈ g.children owner, (∃ e, g.event? c = some e ∧ e.StandsBetween first last) ∧
      a ∈ g.externalsAt owner c := by
  rw [externals, List.mem_flatMap]
  refine exists_congr fun c => and_congr_right fun _ => ?_
  cases g.event? c with
  | none => simp
  | some e =>
    simp only [Option.some.injEq, exists_eq_left', ← inBounds_iff]
    split <;> simp [*]

/-- The search of `owner` finds what it reaches and depends on something outside. -/
theorem Linked.mem_externals (hl : g.Linked) {first last : Option (Int32 × Int32)} :
    a ∈ g.externals owner first last ↔
      g.Reached owner first last a ∧ g.DependsOutside owner a := by
  rw [Graph.mem_externals, reached_iff]
  simp only [hl.mem_externalsAt]
  constructor
  · rintro ⟨c, hc, hbetween, hpath, hdepends⟩
    exact ⟨⟨c, hc, hbetween, hpath⟩, hdepends⟩
  · rintro ⟨⟨c, hc, hbetween, hpath⟩, hdepends⟩
    exact ⟨c, hc, hbetween, hpath, hdepends⟩

/-! ### The order of what is found -/

/-- What is reached from an event is inside it and listed. -/
theorem Linked.within_of_opens (hl : g.Linked) (hid : g.Listed id)
    (hpath : Relation.ReflTransGen (g.Opens owner) id a) : g.Listed a ∧ g.Within id a := by
  induction hpath with
  | refl => exact ⟨hid, .refl⟩
  | tail _ hstep ih =>
    exact ⟨hl.listed_of_mem_children hstep.2, .inside ((hl.mem_children _ _).1 hstep.2).1 ih.2⟩

theorem Linked.within_of_mem_externalsAt (hl : g.Linked) (hid : g.Listed id)
    (ha : a ∈ g.externalsAt owner id) : g.Listed a ∧ g.Within id a :=
  hl.within_of_opens hid (hl.mem_externalsAt.1 ha).1

theorem Sequenced.pairwise_externalsAt (h : g.Sequenced current) (hl : g.Linked) (id : Nat) :
    (g.externalsAt owner id).Pairwise (· < ·) := by
  induction id using hl.wellFounded_children.induction with
  | _ id ih =>
    by_cases hopen : g.ExpandsInside owner id
    · rw [hl.externalsAt_of_expandsInside hopen]
      exact h.pairwise_flatMap hl fun c hc =>
        ⟨ih c hc, fun a => hl.within_of_mem_externalsAt (hl.listed_of_mem_children hc)⟩
    · rcases hl.externalsAt_of_not_expandsInside hopen with ⟨-, heq⟩ | ⟨-, heq⟩ <;> rw [heq]
      · exact List.pairwise_singleton ..
      · exact .nil

theorem Sequenced.pairwise_externals (h : g.Sequenced current) (hl : g.Linked) (owner : Nat)
    (first last : Option (Int32 × Int32)) :
    (g.externals owner first last).Pairwise (· < ·) := by
  rw [externals]
  refine h.pairwise_flatMap hl fun c hc => ?_
  have hlisted := hl.listed_of_mem_children hc
  split
  · split
    · exact ⟨h.pairwise_externalsAt hl c, fun a => hl.within_of_mem_externalsAt hlisted⟩
    · exact ⟨.nil, fun a ha => absurd ha List.not_mem_nil⟩
  · exact ⟨.nil, fun a ha => absurd ha List.not_mem_nil⟩

/-- A search that reaches less finds less, in the same order. -/
theorem Sequenced.externals_sublist (h : g.Sequenced current) (hl : g.Linked)
    {first last first' last' : Option (Int32 × Int32)}
    (hmono : ∀ e : Event, e.StandsBetween first last → e.StandsBetween first' last') :
    (g.externals owner first last).Sublist (g.externals owner first' last') := by
  have hsorted := h.pairwise_externals hl owner
  refine List.sublist_of_subperm_of_pairwise
    (List.subperm_of_subset ((hsorted first last).imp Nat.ne_of_lt) fun a ha => ?_)
    (hsorted first last) (hsorted first' last')
  obtain ⟨c, hc, ⟨e, he, hbetween⟩, ha⟩ := Graph.mem_externals.1 ha
  exact Graph.mem_externals.2 ⟨c, hc, ⟨e, he, hmono e hbetween⟩, ha⟩

end Graph

/-! ### Sequence under callbacks -/

/-- Every move keeps the sequence. -/
theorem Grounded.sequenced_move {h h' : History} {t t' : Tracker} {c : Callback} (hg : Grounded h t)
    (hs : t.graph.Sequenced t.current) (hm : Move h t c h' t') :
    t'.graph.Sequenced t'.current := by
  have hl := hg.linked
  cases hm with
  | still halike hcurrent =>
    rw [hcurrent]
    exact hs.alike halike
  | record howner _ _ hinside hcurrent =>
    rw [hcurrent]
    exact hs.inside hl hinside howner
  | enter hinside hcurrent =>
    rw [hcurrent]
    exact (hs.inside hl hinside rfl).last hinside.size
  | expand _ hinside hcurrent =>
    rw [hcurrent]
    exact (hs.inside hl hinside rfl).last hinside.size
  | pass name value undefined hbeside hcurrent =>
    rw [hcurrent]
    exact hs.beside hl hbeside rfl
  | leave line column _ halike hcurrent =>
    rw [hcurrent]
    exact (hs.around hl hg.current).alike halike
  | finish _ halike hcurrent =>
    rw [hcurrent]
    exact (hs.around hl hg.current).alike halike

theorem sequenced_start : Graph.start.Sequenced 0 where
  spine b hb _ := linked_start.within_root_of_listed hb
  between p c hp := absurd hp (by cases c <;> simp [Graph.start, Graph.parent?, Graph.event?])

theorem sequenced_run (callbacks : List Callback) :
    (Tracker.run {} callbacks).graph.Sequenced (Tracker.run {} callbacks).current := by
  have hrun := run_induction (P := fun h t => Grounded h t ∧ t.graph.Sequenced t.current)
    ⟨grounded_start, sequenced_start⟩ (fun h t c => ?_) callbacks
  · exact hrun.2
  · rintro ⟨hg, hs⟩
    exact ⟨hg.step c, hg.sequenced_move hs (hg.follows.move hg.current c)⟩

/-- After any callbacks the walks of a search end, inward to what happened in an event and outward to
the references around it, and a search of any event finds what it reaches and depends on something
outside, in order, each once. Bounds on the place only take away from what is found. -/
theorem externals_run (callbacks : List Callback) :
    let g := (Tracker.run {} callbacks).graph
    WellFounded (fun c id => c ∈ g.children id) ∧ WellFounded (fun p id => g.parent? id = some p) ∧
      ∀ owner first last,
        (g.externals owner first last).Pairwise (· < ·) ∧
        (∀ id, id ∈ g.externals owner first last ↔
          g.Reached owner first last id ∧ g.DependsOutside owner id) ∧
        (g.externals owner first last).Sublist (g.externals owner none last) ∧
        (g.externals owner first last).Sublist (g.externals owner first none) := by
  have hl := (grounded_run callbacks).linked
  have hs := sequenced_run callbacks
  refine ⟨hl.wellFounded_children, hl.wellFounded, fun owner first last =>
    ⟨hs.pairwise_externals hl owner first last, fun id => hl.mem_externals, ?_, ?_⟩⟩
  · exact hs.externals_sublist hl fun e hbetween => ⟨by simp, hbetween.2⟩
  · exact hs.externals_sublist hl fun e hbetween => ⟨hbetween.1, by simp⟩

end AblAnalysis.Preprocessor
