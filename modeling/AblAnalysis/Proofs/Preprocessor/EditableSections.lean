import AblAnalysis.Preprocessor.Tracker
import Mathlib.Data.List.Infix

/-!
Sections that may be edited. They are opened and closed by directives of the main file, but the
directives of included files are seen too: an included file opens no section, and a resume directive
of it takes away the section that is open. So the sections with the directives of included files are
among those without them, and they are the same if and only if no section of the main file is cut off
like that.
-/

namespace AblAnalysis.Preprocessor

/-- Whether a callback is a suspend or a resume directive. -/
def Callback.isDirective : Callback → Bool
  | .suspend .. | .resume .. => true
  | _ => false

/-- Whether a callback is a suspend directive. -/
def Callback.isSuspend : Callback → Bool
  | .suspend .. => true
  | _ => false

/-- What a directive means for the sections of the main file. -/
inductive Mark where
  | opens (line : Int32)
  | closes (line : Int32)
  /-- A resume directive of an included file. -/
  | interrupts
  deriving DecidableEq

/-- Whether a section is cut off: of the directives of the main file a closing one comes next after an
opening one, but resume directives of included files come between. -/
def CutsOff (marks : List Mark) : Prop :=
  ∃ before first n last after, marks =
    before ++ .opens first :: (List.replicate (n + 1) .interrupts ++ .closes last :: after)

namespace Tracker

/-- What a callback means for the sections, from the file that is being read. -/
def mark? (t : Tracker) : Callback → Option Mark
  | .suspend text line =>
    if t.fileIndex = 0 && opensEditable text then some (.opens line) else none
  | .resume line => some (if t.fileIndex = 0 then .closes line else .interrupts)
  | _ => none

/-- What callbacks mean for the sections, in order. -/
def marks (t : Tracker) : List Callback → List Mark
  | [] => []
  | c :: cs => (t.mark? c).toList ++ marks (t.step c) cs

/-- The callbacks without those of some kind that come while an included file is being read. -/
def withoutIncluded (kind : Callback → Bool) (t : Tracker) : List Callback → List Callback
  | [] => []
  | c :: cs =>
    if kind c ∧ t.fileIndex ≠ 0 then withoutIncluded kind (t.step c) cs
    else c :: withoutIncluded kind (t.step c) cs

/-- The tracker apart from the sections. -/
def events (t : Tracker) : Tracker :=
  { t with designed := false, sections := [], openSection := none }

variable {t u : Tracker}

theorem fileIndex_congr (h : t.events = u.events) : t.fileIndex = u.fileIndex := by
  have hevents : ∀ t : Tracker, t.fileIndex = t.events.fileIndex := fun _ => rfl
  rw [hevents, h, ← hevents]

theorem events_step_directive (t : Tracker) {c : Callback} (hc : c.isDirective = true) :
    (t.step c).events = t.events := by
  cases c with
  | suspend text line =>
    simp only [step, suspend]
    split <;> rfl
  | resume line =>
    simp only [step, resume]
    split
    · rfl
    · split <;> rfl
  | _ => exact absurd hc (by simp [Callback.isDirective])

theorem events_step (t : Tracker) (c : Callback) : (t.events.step c).events = (t.step c).events := by
  cases c with
  | define line column name value kind => cases kind <;> rfl
  | undefine line column name =>
    simp only [step, undefine, remove, events]
    split
    · rfl
    · split
      · rfl
      · split <;> rfl
  | argument name value undefined =>
    simp only [step, argument, events]
    split <;> rfl
  | closeFile line column =>
    simp only [step, closeFile, events]
    split <;> rfl
  | closeName line column =>
    simp only [step, closeName, events]
    split <;> rfl
  | suspend text line => rw [events_step_directive _ rfl, events_step_directive _ rfl]; rfl
  | resume line => rw [events_step_directive _ rfl, events_step_directive _ rfl]; rfl
  | _ => rfl

/-! ### Sections from marks -/

/-- Nothing but directives changes the sections. -/
theorem sections_step (t : Tracker) {c : Callback} (hc : c.isDirective = false) :
    (t.step c).sections = t.sections ∧ (t.step c).openSection = t.openSection ∧
      t.mark? c = none := by
  cases c with
  | define line column name value kind => cases kind <;> exact ⟨rfl, rfl, rfl⟩
  | undefine line column name =>
    simp only [step, undefine, remove]
    split
    · exact ⟨rfl, rfl, rfl⟩
    · split
      · exact ⟨rfl, rfl, rfl⟩
      · split <;> exact ⟨rfl, rfl, rfl⟩
  | argument name value undefined =>
    simp only [step, argument]
    split <;> exact ⟨rfl, rfl, rfl⟩
  | closeFile line column =>
    simp only [step, closeFile]
    split <;> exact ⟨rfl, rfl, rfl⟩
  | closeName line column =>
    simp only [step, closeName]
    split <;> exact ⟨rfl, rfl, rfl⟩
  | openFile | openName | condition => exact ⟨rfl, rfl, rfl⟩
  | suspend | resume => exact absurd hc (by simp [Callback.isDirective])

/-- The sections that marks make, from the one that is open. -/
def sectionsFrom : Option EditableSection → List Mark → List EditableSection
  | _, [] => []
  | _, .opens line :: rest => sectionsFrom (some ⟨0, line, line⟩) rest
  | some s, .closes line :: rest => { s with lastLine := line } :: sectionsFrom none rest
  | none, .closes _ :: rest => sectionsFrom none rest
  | _, .interrupts :: rest => sectionsFrom none rest

/-- A run makes the sections that its marks make. -/
theorem sections_run (hopen : ∀ s, t.openSection = some s → s.fileIndex = 0)
    (callbacks : List Callback) : (t.run callbacks).sections =
      t.sections ++ sectionsFrom t.openSection (t.marks callbacks) := by
  induction callbacks generalizing t with
  | nil => simp [run, marks, sectionsFrom]
  | cons c cs ih =>
    rw [run, List.foldl_cons, ← run, marks]
    cases hc : c.isDirective with
    | false =>
      obtain ⟨hsections, hsame, hmark⟩ := t.sections_step hc
      rw [ih (hsame ▸ hopen), hsections, hsame, hmark]
      rfl
    | true =>
      cases c with
      | suspend text line =>
        simp only [step, suspend, mark?]
        split
        · rw [ih (by simp)]
          rfl
        · exact ih hopen
      | resume line =>
        simp only [step, resume, mark?]
        cases hslot : t.openSection with
        | none =>
          simp only []
          rw [ih (by simp [hslot]), hslot]
          split <;> rfl
        | some s =>
          have hfile : (s.fileIndex = t.fileIndex) ↔ t.fileIndex = 0 := by
            rw [hopen s hslot, eq_comm]
          simp only [hfile]
          split
          · rw [ih (by simp), List.append_assoc]
            rfl
          · rw [ih (by simp)]
            rfl
      | _ => exact absurd hc (by simp [Callback.isDirective])

/-! ### Sections that are cut off -/

/-- Whether of the directives of the main file a closing one comes next. -/
def ClosesNext (marks : List Mark) : Prop :=
  ∃ n last after, marks = List.replicate n .interrupts ++ .closes last :: after

theorem not_closesNext_nil : ¬ ClosesNext [] := by
  rintro ⟨n, last, after, h⟩
  exact absurd h (by simp)

theorem closesNext_closes (line : Int32) (marks : List Mark) : ClosesNext (.closes line :: marks) :=
  ⟨0, line, marks, rfl⟩

theorem not_closesNext_opens (line : Int32) (marks : List Mark) :
    ¬ ClosesNext (.opens line :: marks) := by
  rintro ⟨n, last, after, h⟩
  cases n <;> exact absurd h (by simp [List.replicate_succ])

theorem closesNext_interrupts {marks : List Mark} :
    ClosesNext (.interrupts :: marks) ↔ ClosesNext marks := by
  constructor
  · rintro ⟨n, last, after, h⟩
    cases n with
    | zero => exact absurd h (by simp)
    | succ n => exact ⟨n, last, after, (List.cons.inj h).2⟩
  · rintro ⟨n, last, after, rfl⟩
    exact ⟨n + 1, last, after, rfl⟩

theorem not_cutsOff_nil : ¬ CutsOff [] := by
  rintro ⟨before, first, n, last, after, h⟩
  exact absurd h (by simp)

theorem cutsOff_cons {m : Mark} {marks : List Mark} : CutsOff (m :: marks) ↔
    (∃ line rest, m = .opens line ∧ marks = .interrupts :: rest ∧ ClosesNext rest) ∨
      CutsOff marks := by
  constructor
  · rintro ⟨before, first, n, last, after, h⟩
    cases before with
    | nil =>
      obtain ⟨rfl, rfl⟩ := List.cons.inj h
      exact .inl ⟨first, _, rfl, rfl, n, last, after, rfl⟩
    | cons _ before => exact .inr ⟨before, first, n, last, after, (List.cons.inj h).2⟩
  · rintro (⟨line, rest, rfl, rfl, n, last, after, rfl⟩ | ⟨before, first, n, last, after, rfl⟩)
    · exact ⟨[], line, n, last, after, rfl⟩
    · exact ⟨m :: before, first, n, last, after, rfl⟩

/-- Interruptions only take sections away. -/
theorem sectionsFrom_sublist (marks : List Mark) (slot slot' : Option EditableSection)
    (hslot : slot = none ∨ slot = slot') :
    (sectionsFrom slot marks).Sublist (sectionsFrom slot' (marks.filter (· ≠ .interrupts))) := by
  induction marks generalizing slot slot' with
  | nil => exact List.nil_sublist _
  | cons m marks ih =>
    cases m with
    | opens line => exact ih _ _ (.inr rfl)
    | closes line =>
      cases slot' with
      | none =>
        obtain rfl := hslot.elim id id
        exact ih _ _ (.inl rfl)
      | some s' =>
        rcases hslot with rfl | rfl
        · exact (ih _ _ (.inl rfl)).cons _
        · exact (ih _ _ (.inl rfl)).cons_cons _
    | interrupts =>
      have hnone : sectionsFrom slot (.interrupts :: marks) = sectionsFrom none marks := by
        cases slot <;> rfl
      rw [hnone]
      exact ih _ _ (.inl rfl)

/-- Interruptions take a section away only if they cut it off. The three parts are about marks that
begin where no section is open, where one is open, and where one was open that was interrupted. -/
theorem sectionsFrom_filter_iff (marks : List Mark) :
    (sectionsFrom none marks = sectionsFrom none (marks.filter (· ≠ .interrupts)) ↔
        ¬ CutsOff marks) ∧
      (∀ s line, sectionsFrom (some s) marks =
        sectionsFrom (some s) (marks.filter (· ≠ .interrupts)) ↔ ¬ CutsOff (.opens line :: marks)) ∧
      ∀ s, sectionsFrom none marks = sectionsFrom (some s) (marks.filter (· ≠ .interrupts)) ↔
        ¬ ClosesNext marks ∧ ¬ CutsOff marks := by
  induction marks with
  | nil =>
    refine ⟨iff_of_true rfl not_cutsOff_nil, fun s line => iff_of_true rfl ?_,
      fun s => iff_of_true rfl ⟨not_closesNext_nil, not_cutsOff_nil⟩⟩
    simp [cutsOff_cons, not_cutsOff_nil]
  | cons m marks ih =>
    obtain ⟨hnone, hsome, hlost⟩ := ih
    cases m with
    | opens line =>
      have hopens : ∀ {slot slot'}, sectionsFrom slot (.opens line :: marks) =
          sectionsFrom slot' ((.opens line :: marks : List Mark).filter (· ≠ .interrupts)) ↔
            ¬ CutsOff (.opens line :: marks) := hsome _ line
      refine ⟨hopens, fun s line' => hopens.trans ?_, fun s => hopens.trans ?_⟩
      · rw [@cutsOff_cons (.opens line')]
        simp
      · simp [not_closesNext_opens]
    | closes line =>
      have hcuts : CutsOff (.closes line :: marks) ↔ CutsOff marks := by simp [cutsOff_cons]
      refine ⟨hnone.trans (not_congr hcuts.symm), fun s line' => ?_, fun s => ?_⟩
      · rw [cutsOff_cons, hcuts]
        simpa [sectionsFrom] using hnone
      · refine iff_of_false (fun heq => ?_) fun h => h.1 (closesNext_closes line marks)
        -- the section that was interrupted is missing
        have hlength := (sectionsFrom_sublist marks none none (.inl rfl)).length_le
        have hmissing := congrArg List.length heq
        change (sectionsFrom none marks).length =
          (sectionsFrom none (marks.filter (· ≠ .interrupts))).length + 1 at hmissing
        omega
    | interrupts =>
      have hcuts : CutsOff (.interrupts :: marks) ↔ CutsOff marks := by simp [cutsOff_cons]
      refine ⟨hnone.trans (not_congr hcuts.symm), fun s line' => ?_, fun s => ?_⟩
      · have hsame : CutsOff (.opens line' :: .interrupts :: marks) ↔
            ClosesNext marks ∨ CutsOff marks := by simp [cutsOff_cons]
        rw [hsame, not_or]
        exact hlost s
      · rw [hcuts, closesNext_interrupts]
        exact hlost s

/-! ### Callbacks without those of included files -/

/-- What is left of the marks when directives of some kind in included files are left out. -/
theorem marks_withoutIncluded {kind : Callback → Bool} (hkind : ∀ c, kind c → c.isDirective)
    (keeps : Mark → Bool)
    (hout : ∀ (t : Tracker) c, kind c → t.fileIndex ≠ 0 → ∀ m ∈ t.mark? c, keeps m = false)
    (hin : ∀ (t : Tracker) c, ¬ (kind c ∧ t.fileIndex ≠ 0) → ∀ m ∈ t.mark? c, keeps m = true)
    (hevents : t.events = u.events) (callbacks : List Callback) :
    u.marks (t.withoutIncluded kind callbacks) = (t.marks callbacks).filter keeps := by
  induction callbacks generalizing t u with
  | nil => rfl
  | cons c cs ih =>
    rw [withoutIncluded, marks, List.filter_append]
    split
    · rename_i hdrop
      rw [ih ((t.events_step_directive (hkind c hdrop.1)).trans hevents)]
      have hnil : (t.mark? c).toList.filter keeps = [] :=
        List.filter_eq_nil_iff.2 fun m hm => by simp [hout t c hdrop.1 hdrop.2 m (by simpa using hm)]
      rw [hnil, List.nil_append]
    · rename_i hkeep
      have hmark : u.mark? c = t.mark? c := by
        cases c <;> simp only [mark?, fileIndex_congr hevents]
      have hall : (t.mark? c).toList.filter keeps = (t.mark? c).toList :=
        List.filter_eq_self.2 fun m hm => hin t c hkeep m (by simpa using hm)
      have hnext : (t.step c).events = (u.step c).events := by
        rw [← events_step, hevents, events_step]
      rw [marks, hmark, hall, ih hnext]

/-- Without the directives of included files nothing interrupts a section. -/
theorem marks_withoutDirectives (t : Tracker) (callbacks : List Callback) :
    t.marks (t.withoutIncluded Callback.isDirective callbacks) =
      (t.marks callbacks).filter (· ≠ .interrupts) := by
  refine marks_withoutIncluded (fun _ => id) _ (fun t c hc hfile m hm => ?_)
    (fun t c hc m hm => decide_eq_true ?_) rfl callbacks
  · cases c <;> simp_all [mark?]
  · rintro rfl
    cases c <;> simp_all [mark?, Callback.isDirective]

/-- The suspend directives of included files mean nothing. -/
theorem marks_withoutSuspends (t : Tracker) (callbacks : List Callback) :
    t.marks (t.withoutIncluded Callback.isSuspend callbacks) = t.marks callbacks := by
  have hdirective : ∀ c : Callback, c.isSuspend → c.isDirective := by
    intro c hc
    cases c <;> first | rfl | exact hc
  have hmarks := marks_withoutIncluded hdirective (fun _ => true) (fun t c hc hfile m hm => ?_)
    (fun _ _ _ _ _ => rfl) (rfl : t.events = t.events) callbacks
  · rw [hmarks, List.filter_true]
  · cases c <;> simp_all [mark?, Callback.isSuspend]

end Tracker

/-! ### Sections of a unit -/

/-- The sections of any callbacks are among those without the directives of included files, and are
the same if and only if no section is cut off. A line that may be edited may be edited without those
directives too. Suspend directives of included files change nothing. -/
theorem sections_withoutIncluded (callbacks : List Callback) :
    let all := Tracker.run {} callbacks
    let ofMain := Tracker.run {} (Tracker.withoutIncluded Callback.isDirective {} callbacks)
    (all.sections = ofMain.sections ↔ ¬ CutsOff (Tracker.marks {} callbacks)) ∧
      all.sections.Sublist ofMain.sections ∧
      (∀ fileIndex line, all.isEditable fileIndex line = true →
        ofMain.isEditable fileIndex line = true) ∧
      (Tracker.run {} (Tracker.withoutIncluded Callback.isSuspend {} callbacks)).sections =
        all.sections := by
  have hsections : ∀ cs, (Tracker.run {} cs).sections =
      Tracker.sectionsFrom none (Tracker.marks {} cs) := Tracker.sections_run (by simp)
  have hsublist := Tracker.sectionsFrom_sublist (Tracker.marks {} callbacks) none none (.inl rfl)
  have hmain := (hsections _).trans
    (congrArg _ (Tracker.marks_withoutDirectives {} callbacks))
  simp only []
  rw [hsections callbacks, hmain]
  refine ⟨(Tracker.sectionsFrom_filter_iff _).1, hsublist, fun fileIndex line => ?_, ?_⟩
  · simp only [Tracker.isEditable, hsections callbacks, hmain, List.any_eq_true]
    rintro ⟨s, hs, hline⟩
    exact ⟨s, hsublist.subset hs, hline⟩
  · rw [hsections, Tracker.marks_withoutSuspends]

/-- A section of the main file in which a file is included that has a section of its own. -/
def interruptedSection : List Callback :=
  [.suspend "_UIB-CODE-BLOCK _CUSTOM _DEFINITIONS" 10, .openFile 12 1 1 "inc.i",
    .suspend "_UIB-CODE-BLOCK _CUSTOM _MAIN-BLOCK" 1, .resume 5, .closeFile 6 1, .resume 20]

/-- The end of the section in the included file takes the section of the main file away, which is
there without the directives of the included file. -/
theorem sections_interruptedSection :
    let all := Tracker.run {} interruptedSection
    let ofMain := Tracker.run {} (Tracker.withoutIncluded Callback.isDirective {} interruptedSection)
    all.sections = [] ∧ ofMain.sections = [⟨0, 10, 20⟩] ∧
      all.isEditable 0 15 = false ∧ ofMain.isEditable 0 15 = true := by
  decide +kernel

end AblAnalysis.Preprocessor
