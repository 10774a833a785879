import Mathlib.Data.List.Induction
import AblAnalysis.Proofs.Preprocessor.SourceOrder

/-!
Open files and the place where new events happen. Both are kept apart and should agree: the file
being read is that of the nearest inclusion around the place (`Tracker.Aligned`). The inclusions of
all open files are always around the place. They agree as long as no file ends before an expansion
that began in it (`Tracker.Crosses`), and where one does they no longer do.
-/

namespace AblAnalysis.Preprocessor

namespace Graph

variable {g g' : Graph} {a b id : Nat}

/-- Whether an inclusion is the nearest one around an event. An inclusion is around itself. -/
inductive Nearest (g : Graph) : Nat → Nat → Prop
  | here {id : Nat} : g.IsInclusion id → Nearest g id id
  | outward {id p i : Nat} :
    ¬ g.IsInclusion id → g.parent? id = some p → Nearest g p i → Nearest g id i

theorem Nearest.unique (ha : g.Nearest id a) (hb : g.Nearest id b) : a = b := by
  induction ha with
  | here hincl =>
    cases hb with
    | here => rfl
    | outward hnot => exact absurd hincl hnot
  | outward hnot hp _ ih =>
    cases hb with
    | here hincl => exact absurd hincl hnot
    | outward _ hq hnear =>
      obtain rfl := Option.some.inj (hp.symm.trans hq)
      exact ih hnear

theorem Nearest.isInclusion (h : g.Nearest id a) : g.IsInclusion a := by
  induction h with
  | here hincl => exact hincl
  | outward _ _ _ ih => exact ih

theorem Nearest.within (h : g.Nearest id a) : g.Within a id := by
  induction h with
  | here => exact .refl
  | outward _ hp _ ih => exact .inside hp ih

/-- Every inclusion around an event is around the nearest one. -/
theorem Nearest.within_of_within (h : g.Nearest id a) (hb : g.IsInclusion b) (hw : g.Within b id) :
    g.Within b a := by
  induction h with
  | here => exact hw
  | outward hnot hp _ ih =>
    rcases hw.cases_parent with rfl | ⟨q, hq, hw⟩
    · exact absurd hb hnot
    · obtain rfl := Option.some.inj (hp.symm.trans hq)
      exact ih hw

theorem Nearest.around (h : g.Nearest id a) (hnot : ¬ g.IsInclusion id) :
    g.Nearest ((g.parent? id).getD 0) a := by
  cases h with
  | here hincl => exact absurd hincl hnot
  | outward _ hp hnear =>
    rw [hp]
    exact hnear

theorem Linked.exists_nearest (hl : g.Linked) (hid : g.isRef id = true) : ∃ a, g.Nearest id a := by
  induction hl.within_root hid with
  | refl => exact ⟨0, .here hl.root.1⟩
  | @inside id p hp _ ih =>
    by_cases hincl : g.IsInclusion id
    · exact ⟨id, .here hincl⟩
    · obtain ⟨a, ha⟩ := ih (hl.parent id p hp).2
      exact ⟨a, .outward hincl hp ha⟩

theorem Alike.nearest (h : g.Alike g') (hn : g.Nearest id a) : g'.Nearest id a := by
  induction hn with
  | here hincl => exact .here (h.isInclusion_iff.2 hincl)
  | outward hnot hp _ ih =>
    exact .outward (fun hincl => hnot (h.isInclusion_iff.1 hincl)) ((h.parent? _).trans hp) ih

theorem isInclusion_or_expansion (h : g.isRef id = true) :
    g.IsInclusion id ∨ ∃ e, g.expansion? id = some e := by
  rw [isRef_eq] at h
  cases hn : g.nature? id with
  | none =>
    rw [hn] at h
    exact absurd h (by simp)
  | some n =>
    cases n with
    | inclusion f => exact .inl (isInclusion_iff.2 ⟨f, hn⟩)
    | expansion d =>
      obtain ⟨e, he, -⟩ := g.exists_expansion?_iff.2 hn
      exact .inr ⟨e, he⟩
    | definition d =>
      rw [hn] at h
      exact absurd h (by simp [Nature.isRef])

/-- An expansion is no inclusion. -/
theorem not_isInclusion {e : Expansion} (h : g.expansion? id = some e) : ¬ g.IsInclusion id := by
  rw [isInclusion_iff, g.exists_expansion?_iff.1 ⟨e, h, rfl⟩]
  simp

theorem Adds.isInclusion_of_lt {parent : Option Nat} {nature : Nature}
    (h : g.Adds g' parent nature) (hlt : id < g.size)
    (hid : g'.IsInclusion id) : g.IsInclusion id := by
  rw [isInclusion_iff, h.nature?, if_neg (Nat.ne_of_lt hlt)] at hid
  exact isInclusion_iff.2 hid

/-- What is around a new event is the event or around the reference that it happened in. -/
theorem Inside.within_iff (h : g.Inside g' b nature) (hl : g.Linked) (hb : g.isRef b = true) :
    g'.Within a g.size ↔ a = g.size ∨ g.Within a b := by
  have hparent : ∀ id < g.size, g'.parent? id = g.parent? id := fun _ => h.parent?_of_lt
  have hnew : g'.parent? g.size = some b := by rw [h.parent?, if_pos rfl]
  have hold := hl.within_iff (a := a) hparent (g.lt_size_of_isRef hb)
  constructor
  · intro hw
    rcases hw.cases_parent with rfl | ⟨p, hp, hw⟩
    · exact .inl rfl
    · obtain rfl := Option.some.inj (hp.symm.trans hnew)
      exact .inr (hold.1 hw)
  · rintro (rfl | hw)
    · exact .refl
    · exact .inside hnew (hold.2 hw)

theorem Within.around (h : g.Within a b) (hne : a ≠ b) : g.Within a ((g.parent? b).getD 0) := by
  rcases h.cases_parent with rfl | ⟨p, hp, hw⟩
  · exact absurd rfl hne
  · rw [hp]
    exact hw

theorem Linked.within_of_around (hl : g.Linked) (hb : g.isRef b = true)
    (h : g.Within a ((g.parent? b).getD 0)) : g.Within a b := by
  cases hp : g.parent? b with
  | none =>
    rw [hp] at h
    exact h.trans (hl.within_root hb)
  | some p =>
    rw [hp] at h
    exact .inside hp h

end Graph

namespace Tracker

/-- Whether the file being read is that of the nearest inclusion around the place where new events
happen. -/
def Aligned (t : Tracker) : Prop :=
  t.graph.Nearest t.current t.innermost.inclusion

/-- Whether a file that was included is being read and an expansion has not ended, so that the end of
the file would come first. -/
def Crosses (t : Tracker) : Prop :=
  t.outer ≠ [] ∧ ∃ e, t.graph.expansion? t.current = some e

end Tracker

/-! ### The inclusions of open files -/

/-- Whether the inclusions of the open files are around the place where new events happen. -/
structure Enclosed (h : History) (t : Tracker) : Prop where
  grounded : Grounded h t
  decrease : h.scopes.Pairwise (· > ·)
  around : ∀ s ∈ h.scopes, t.graph.Within s t.current

/-- Whether all inclusions around that place are those of open files. -/
def Enclosed.Full (h : History) (t : Tracker) : Prop :=
  ∀ i, t.graph.IsInclusion i → t.graph.Within i t.current → i ∈ h.scopes

namespace Enclosed

variable {h h' : History} {t t' : Tracker} {c : Callback}

theorem isInclusion (he : Enclosed h t) {s : Nat} (hs : s ∈ h.scopes) : t.graph.IsInclusion s := by
  obtain ⟨p, hp⟩ := he.grounded.follows.records.inclusion s hs
  rw [Graph.passed?_eq] at hp
  obtain ⟨i, hi, -⟩ := Option.map_eq_some_iff.1 hp
  exact ⟨i, hi⟩

theorem innermost_le_current (he : Enclosed h t) : h.innermost ≤ t.current :=
  (he.around _ (List.mem_cons_self ..)).le he.grounded.linked

theorem lt_innermost (he : Enclosed h t) {s : Nat} (hs : s ∈ h.outer) : s < h.innermost :=
  (List.pairwise_cons.1 he.decrease).1 s hs

theorem scopes_leave (houter : h.outer ≠ []) : h.leave.scopes = h.outer := by
  rw [History.leave, History.scopes]
  cases ho : h.outer with
  | nil => exact absurd ho houter
  | cons s rest => rfl

/-- What is around the place stays around it as long as no reference begins or ends. -/
theorem within_current_iff (he : Enclosed h t)
    (hparent : ∀ id < t.graph.size, t'.graph.parent? id = t.graph.parent? id)
    (hcurrent : t'.current = t.current) {a : Nat} :
    t'.graph.Within a t'.current ↔ t.graph.Within a t.current := by
  rw [hcurrent]
  exact he.grounded.linked.within_iff hparent (t.graph.lt_size_of_isRef he.grounded.current)

theorem move (he : Enclosed h t) (hg : Grounded h' t') (hm : Move h t c h' t') :
    Enclosed h' t' := by
  have hl := he.grounded.linked
  have hcur := he.grounded.current
  cases hm with
  | still halike hcurrent hh =>
    subst hh
    refine ⟨hg, he.decrease, fun s hs => ?_⟩
    exact (he.within_current_iff (fun id _ => halike.parent? id) hcurrent).2 (he.around s hs)
  | record _ _ _ hinside hcurrent hh =>
    subst hh
    exact ⟨hg, he.decrease, fun s hs =>
      (he.within_current_iff (fun _ => hinside.parent?_of_lt) hcurrent).2 (he.around s hs)⟩
  | enter hinside hcurrent hh =>
    subst hh
    have hsize := he.grounded.follows.records.size
    refine ⟨hg, List.pairwise_cons.2 ⟨he.grounded.follows.valid.scopes_lt, he.decrease⟩,
      fun s hs => ?_⟩
    rw [hcurrent, hinside.within_iff hl hcur, hsize]
    rcases List.mem_cons.1 hs with rfl | hs
    · exact .inl rfl
    · exact .inr (he.around s hs)
  | expand _ hinside hcurrent hh =>
    subst hh
    refine ⟨hg, he.decrease, fun s hs => ?_⟩
    rw [hcurrent, hinside.within_iff hl hcur]
    exact .inr (he.around s hs)
  | pass name value undefined hbeside hcurrent hh =>
    subst hh
    exact ⟨hg, he.decrease, fun s hs =>
      (he.within_current_iff (fun _ => hbeside.parent?_of_lt) hcurrent).2 (he.around s hs)⟩
  | leave line column _ halike hcurrent houter hh =>
    subst hh
    refine ⟨hg, ?_, fun s hs => ?_⟩
    · rw [scopes_leave houter]
      exact he.decrease.of_cons
    · -- the place is at or after the innermost inclusion, and the one that stays open is before it
      rw [scopes_leave houter] at hs
      have hlt := he.lt_innermost hs
      have hle := he.innermost_le_current
      rw [hcurrent]
      exact halike.within_iff.2 ((he.around s (List.mem_cons_of_mem _ hs)).around (by omega))
  | finish hname halike hcurrent hh =>
    subst hh
    refine ⟨hg, he.decrease, fun s hs => ?_⟩
    have hne : s ≠ t.current := by
      rintro rfl
      obtain ⟨f, hf⟩ := Graph.isInclusion_iff.1 (he.isInclusion hs)
      rw [hf] at hname
      exact absurd hname (by simp)
    rw [hcurrent]
    exact halike.within_iff.2 ((he.around s hs).around hne)

theorem outer_ne_nil_iff (he : Enclosed h t) : t.outer ≠ [] ↔ h.outer ≠ [] := by
  rw [← he.grounded.follows.outer]
  simp

/-- A file that ends with no expansion open is the one whose inclusion is the current reference. -/
theorem current_eq_innermost (he : Enclosed h t) (hfull : Full h t) (houter : h.outer ≠ [])
    (hc : ¬ t.Crosses) : t.current = h.innermost := by
  rcases t.graph.isInclusion_or_expansion he.grounded.current with hincl | hexp
  · have hle := he.innermost_le_current
    rcases List.mem_cons.1 (hfull t.current hincl .refl) with heq | hmem
    · exact heq
    · have := he.lt_innermost hmem
      omega
  · exact absurd ⟨he.outer_ne_nil_iff.2 houter, hexp⟩ hc

/-- An included file is inside something. -/
theorem around_lt_current (he : Enclosed h t) (houter : h.outer ≠ [])
    (hcurrent : t.current = h.innermost) : t.around < h.innermost := by
  obtain ⟨s, hs⟩ := List.exists_mem_of_ne_nil _ houter
  have hlt := he.lt_innermost hs
  rw [Tracker.around, ← hcurrent]
  cases hp : t.graph.parent? t.current with
  | none =>
    rw [Option.getD_none]
    omega
  | some p => exact (he.grounded.linked.parent t.current p hp).1

/-- Unless the move is the end of a file before that of an expansion, the inclusions of open files
stay the only ones around the place where new events happen. -/
theorem full_move (he : Enclosed h t) (hfull : Full h t) (hm : Move h t c h' t')
    (hc : ∀ line column, c = .closeFile line column → ¬ t.Crosses) : Full h' t' := by
  have hl := he.grounded.linked
  have hcur := he.grounded.current
  have hlt : ∀ i, t.graph.Within i t.current → i < t.graph.size := by
    intro i hw
    have := hw.le hl
    have := t.graph.lt_size_of_isRef hcur
    omega
  have hsame : ∀ {parent : Option Nat} {nature : Nature}, t.graph.Adds t'.graph parent nature →
      t'.current = t.current → ∀ i, t'.graph.IsInclusion i → t'.graph.Within i t'.current →
        i ∈ h.scopes := by
    intro parent nature hadds hcurrent i hi hw
    rw [he.within_current_iff (fun _ => hadds.parent?_of_lt) hcurrent] at hw
    exact hfull i (hadds.isInclusion_of_lt (hlt i hw) hi) hw
  cases hm with
  | still halike hcurrent hh =>
    subst hh
    intro i hi hw
    rw [hcurrent, halike.within_iff] at hw
    rw [halike.isInclusion_iff] at hi
    exact hfull i hi hw
  | record _ _ _ hinside hcurrent hh =>
    subst hh
    exact hsame hinside.toAdds hcurrent
  | enter hinside hcurrent hh =>
    subst hh
    intro i hi hw
    rw [hcurrent, hinside.within_iff hl hcur] at hw
    rcases hw with rfl | hw
    · rw [he.grounded.follows.records.size]
      exact List.mem_cons_self ..
    · exact List.mem_cons_of_mem _ (hfull i (hinside.isInclusion_of_lt (hlt i hw) hi) hw)
  | expand _ hinside hcurrent hh =>
    subst hh
    intro i hi hw
    rw [hcurrent, hinside.within_iff hl hcur] at hw
    rcases hw with rfl | hw
    · rw [Graph.isInclusion_iff, hinside.nature?, if_pos rfl] at hi
      exact absurd hi (by simp)
    · exact hfull i (hinside.isInclusion_of_lt (hlt i hw) hi) hw
  | pass name value undefined hbeside hcurrent hh =>
    subst hh
    exact hsame hbeside.toAdds hcurrent
  | leave line column hclose halike hcurrent houter hh =>
    subst hh
    intro i hi hw
    rw [hcurrent, halike.within_iff] at hw
    rw [halike.isInclusion_iff] at hi
    have hcurrent := he.current_eq_innermost hfull houter (hc line column hclose)
    rw [scopes_leave houter]
    have hlt : i < h.innermost := by
      have := he.around_lt_current houter hcurrent
      have := hw.le hl
      omega
    rcases List.mem_cons.1 (hfull i hi (hl.within_of_around hcur hw)) with rfl | hmem
    · exact absurd hlt (Nat.lt_irrefl _)
    · exact hmem
  | finish hname halike hcurrent hh =>
    subst hh
    intro i hi hw
    rw [hcurrent, halike.within_iff] at hw
    rw [halike.isInclusion_iff] at hi
    exact hfull i hi (hl.within_of_around hcur hw)

/-- Where there are no other inclusions around, the file being read is that of the nearest one. -/
theorem aligned (he : Enclosed h t) (hfull : Full h t) : t.Aligned := by
  have hl := he.grounded.linked
  have hinner := List.mem_cons_self (a := h.innermost) (l := h.outer)
  obtain ⟨a, ha⟩ := hl.exists_nearest he.grounded.current
  have hle := (ha.within_of_within (he.isInclusion hinner) (he.around _ hinner)).le hl
  rw [Tracker.Aligned, he.grounded.follows.innermost]
  rcases List.mem_cons.1 (hfull a ha.isInclusion ha.within) with rfl | hmem
  · exact ha
  · have := he.lt_innermost hmem
    omega

/-- The end of a file before that of an expansion leaves the place inside the file that ended. -/
theorem not_aligned_closeFile (he : Enclosed h t) (ha : t.Aligned) (hc : t.Crosses)
    (line column : Int32) : ¬ (t.closeFile line column).Aligned := by
  obtain ⟨houter, e, hexp⟩ := hc
  have hnodup := he.grounded.follows.nodup
  rw [Tracker.scopes] at hnodup
  rw [Tracker.closeFile]
  cases hscopes : t.outer with
  | nil => exact absurd hscopes houter
  | cons scope rest =>
    intro ha'
    rw [hscopes] at hnodup
    have halike := t.graph.alike_modifyInclusion t.current
      (f := fun i => { i with endLine := line, endColumn := column }) fun i => ⟨rfl, rfl, rfl⟩
    have hnear : t.graph.Nearest t.around t.innermost.inclusion :=
      Graph.Nearest.around ha (Graph.not_isInclusion hexp)
    have heq : t.innermost.inclusion = scope.inclusion := (halike.nearest hnear).unique ha'
    exact (List.nodup_cons.1 hnodup).1 (by simp [heq])

end Enclosed

/-! ### The inclusions of open files under callbacks -/

theorem enclosed_run (callbacks : List Callback) :
    Enclosed (History.after callbacks) (Tracker.run {} callbacks) := by
  refine run_induction (P := Enclosed) ⟨grounded_start, List.pairwise_singleton .., fun s hs => ?_⟩
    (fun h t c he => ?_) callbacks
  · rw [List.mem_singleton.1 hs]
    exact .refl
  · have hg := he.grounded
    exact he.move (hg.step c) (hg.follows.move hg.current c)

theorem run_concat (callbacks : List Callback) (c : Callback) :
    Tracker.run {} (callbacks ++ [c]) = (Tracker.run {} callbacks).step c :=
  List.foldl_concat ..

/-- If no file ends before an expansion that began in it, the inclusions of open files are the only
ones around the place where new events happen. -/
theorem full_run {callbacks : List Callback} (hc : ∀ before line column,
      before ++ [.closeFile line column] <+: callbacks → ¬ (Tracker.run {} before).Crosses)
    {before : List Callback} (hbefore : before <+: callbacks) :
    Enclosed.Full (History.after before) (Tracker.run {} before) := by
  induction before using List.reverseRecOn with
  | nil =>
    intro i hi _
    have hlt : i < 1 := hi.lt_size
    obtain rfl : i = 0 := by omega
    exact List.mem_singleton_self 0
  | append_singleton before c ih =>
    have he := enclosed_run before
    have hmove := he.grounded.follows.move he.grounded.current c
    have hfull := ih ((List.prefix_append ..).trans hbefore)
    rw [run_concat, History.after, List.foldl_concat]
    refine he.full_move hfull hmove fun line column hclose => ?_
    subst hclose
    exact hc before line column hbefore

/-- After any callbacks the inclusions of all open files are around the place where new events
happen. The nearest inclusion there is, all along, that of the file being read if and only if no file ends
before an expansion that began in it. -/
theorem aligned_iff (callbacks : List Callback) :
    (∀ scope ∈ (Tracker.run {} callbacks).scopes, (Tracker.run {} callbacks).graph.Within
        scope.inclusion (Tracker.run {} callbacks).current) ∧
      ((∀ before, before <+: callbacks → (Tracker.run {} before).Aligned) ↔
        ∀ before line column, before ++ [.closeFile line column] <+: callbacks →
          ¬ (Tracker.run {} before).Crosses) := by
  constructor
  · intro scope hs
    have he := enclosed_run callbacks
    refine he.around _ ?_
    rw [← he.grounded.follows.scopes]
    exact List.mem_map_of_mem hs
  · constructor
    · intro ha before line column hbefore hc
      have hstep := ha _ hbefore
      rw [run_concat] at hstep
      exact (enclosed_run before).not_aligned_closeFile
        (ha before ((List.prefix_append ..).trans hbefore)) hc line column hstep
    · intro hc before hbefore
      exact (enclosed_run before).aligned (full_run hc hbefore)

/-- A file that ends while a name is being expanded in it. -/
def crossing : List Callback :=
  [.openFile 1 1 1 "inc.i", .openName 1 1 "x", .closeFile 2 1]

/-- What happens next happens inside the file that ended, but definitions are kept with the main
file. -/
theorem not_aligned_crossing : ¬ (Tracker.run {} crossing).Aligned := by
  have hcurrent : (Tracker.run {} crossing).current = 1 := rfl
  have hinner : (Tracker.run {} crossing).innermost.inclusion = 0 := rfl
  rw [Tracker.Aligned, hcurrent, hinner]
  intro hnear
  have hincl : (Tracker.run {} crossing).graph.IsInclusion 1 := ⟨_, rfl⟩
  exact absurd (hnear.unique (.here hincl)) (by simp)

end AblAnalysis.Preprocessor
