import AblAnalysis.Project.Record
import AblAnalysis.Storage.Disk

/-!
Files at one time. Loading only looks at files, so all that matters to it is what they show: what
opening a path gives, and when what the path names was changed (`Snapshot`). A disk shows itself.
-/

namespace AblAnalysis

/-- What files show to a reader. -/
structure Snapshot where
  openFile : String → Except IoFailure Artifact.Stream
  modified? : String → Option Int

/-- Whether files in a state show a snapshot, and looking at them leaves the state alone. -/
structure Files.Shows {σ : Type} (files : Files (StateM σ)) (s : σ) (snap : Snapshot) : Prop where
  openFile : ∀ path, (files.openFile path).run s = pure (snap.openFile path, s)
  modified? : ∀ path, (files.modified? path).run s = pure (snap.modified? path, s)

/-- What a disk shows. -/
def Disk.snapshot (d : Disk) : Snapshot where
  openFile := d.openFile
  modified? := d.modified?

theorem Disk.shows_snapshot (d : Disk) : Disk.files.Shows d d.snapshot where
  openFile _ := rfl
  modified? _ := rfl

namespace Snapshot

/-- Where a file is found: at the first of its paths that names anything. -/
def findFile? (snap : Snapshot) (session : Session) (name : String) : Option String :=
  (session.candidates name).find? (fun path => (snap.modified? path).isSome)

/-- Whether a file is found and has not been changed after a time. -/
def Fresh (snap : Snapshot) (session : Session) (time : Int) (name : String) : Prop :=
  ∃ path changed, snap.findFile? session name = some path ∧ snap.modified? path = some changed ∧
    changed ≤ time

/-- Whether all files are fresh. Empty names stand for no file. -/
def AllFresh (snap : Snapshot) (session : Session) (time : Int) (names : List String) : Prop :=
  ∀ name ∈ names, name ≠ "" → snap.Fresh session time name

/-- Whether a file is the first that is not fresh. -/
def FirstChanged (snap : Snapshot) (session : Session) (time : Int) (names : List String)
    (name : String) : Prop :=
  ∃ before after, names = before ++ name :: after ∧ name ≠ "" ∧ ¬ snap.Fresh session time name ∧
    snap.AllFresh session time before

/-- Whether a file, if there is one, is the first that is not fresh. -/
def Stale (snap : Snapshot) (session : Session) (time : Int) (names : List String) :
    Option String → Prop
  | none => snap.AllFresh session time names
  | some name => snap.FirstChanged session time names name

variable {snap : Snapshot} {session : Session} {time : Int} {name : String} {names : List String}

theorem stale_cons_iff {changed : Option String} : snap.Stale session time (name :: names) changed ↔
    (name ≠ "" ∧ ¬ snap.Fresh session time name) ∧ changed = some name ∨
      (name ≠ "" → snap.Fresh session time name) ∧ snap.Stale session time names changed := by
  cases changed with
  | none =>
    refine List.forall_mem_cons.trans ⟨.inr, ?_⟩
    rintro (⟨-, h⟩ | h)
    · exact absurd h (by simp)
    · exact h
  | some n =>
    constructor
    · rintro ⟨before, after, hnames, hne, hstale, hbefore⟩
      cases before with
      | nil =>
        obtain ⟨rfl, -⟩ := List.cons.inj hnames
        exact .inl ⟨⟨hne, hstale⟩, rfl⟩
      | cons first before =>
        obtain ⟨rfl, hrest⟩ := List.cons.inj hnames
        obtain ⟨hfirst, hbefore⟩ := List.forall_mem_cons.1 hbefore
        exact .inr ⟨hfirst, before, after, hrest, hne, hstale, hbefore⟩
    · rintro (⟨⟨hne, hstale⟩, hn⟩ | ⟨hfirst, before, after, hrest, hne, hstale, hbefore⟩)
      · obtain rfl := Option.some.inj hn
        exact ⟨[], names, rfl, hne, hstale, fun m hm => absurd hm (by simp)⟩
      · exact ⟨name :: before, after, by rw [hrest, List.cons_append], hne, hstale,
          List.forall_mem_cons.2 ⟨hfirst, hbefore⟩⟩

theorem Stale.unique {changed changed' : Option String} (h : snap.Stale session time names changed)
    (h' : snap.Stale session time names changed') : changed = changed' := by
  induction names with
  | nil =>
    have hnone : ∀ {c : Option String}, snap.Stale session time [] c → c = none := by
      intro c hc
      cases c with
      | none => rfl
      | some n =>
        obtain ⟨before, after, hnames, -⟩ := hc
        exact absurd hnames (by simp)
    rw [hnone h, hnone h']
  | cons name names ih =>
    rcases stale_cons_iff.1 h with ⟨hbad, hc⟩ | ⟨hgood, hc⟩ <;>
      rcases stale_cons_iff.1 h' with ⟨hbad', hc'⟩ | ⟨hgood', hc'⟩
    · rw [hc, hc']
    · exact absurd (hgood' hbad.1) hbad.2
    · exact absurd (hgood hbad'.1) hbad'.2
    · exact ih hc hc'

end Snapshot

/-! ### Looking at files -/

namespace Files.Shows

variable {σ : Type} {files : Files (StateM σ)} {s : σ} {snap : Snapshot}

theorem firstExisting? (h : files.Shows s snap) (paths : List String) :
    (Session.firstExisting? files paths).run s =
      pure (paths.find? (fun path => (snap.modified? path).isSome), s) := by
  induction paths with
  | nil => rfl
  | cons path paths ih =>
    rw [Session.firstExisting?, Files.has]
    simp only [StateT.run_bind, h.modified?, pure_bind, StateT.run_pure, List.find?_cons]
    cases (snap.modified? path).isSome with
    | true => rfl
    | false => exact ih

theorem findFile? (h : files.Shows s snap) (session : Session) (name : String) :
    (session.findFile? files name).run s = pure (snap.findFile? session name, s) :=
  h.firstExisting? _

theorem isFresh (h : files.Shows s snap) (session : Session) (time : Int) (name : String) :
    ∃ fresh, (Record.isFresh files session time name).run s = pure (fresh, s) ∧
      (fresh = true ↔ snap.Fresh session time name) := by
  rw [Record.isFresh]
  simp only [StateT.run_bind, h.findFile?, pure_bind, Snapshot.Fresh]
  cases hpath : snap.findFile? session name with
  | none => exact ⟨false, rfl, by simp⟩
  | some path =>
    simp only [StateT.run_bind, h.modified?, pure_bind]
    cases hchanged : snap.modified? path with
    | none => exact ⟨false, rfl, by simp [hchanged]⟩
    | some changed => exact ⟨decide (changed ≤ time), rfl, by simp [hchanged]⟩

theorem firstChanged? (h : files.Shows s snap) (session : Session) (time : Int)
    (names : List String) :
    ∃ changed, (Record.firstChanged? files session time names).run s = pure (changed, s) ∧
      snap.Stale session time names changed := by
  induction names with
  | nil => exact ⟨none, rfl, fun name hname => absurd hname (by simp)⟩
  | cons name names ih =>
    obtain ⟨changed, hrun, hstale⟩ := ih
    have hfirst : (name ≠ "" → snap.Fresh session time name) →
        snap.Stale session time (name :: names) changed := fun hname =>
      Snapshot.stale_cons_iff.2 (.inr ⟨hname, hstale⟩)
    rw [Record.firstChanged?]
    by_cases hempty : name.isEmpty
    · rw [if_pos hempty]
      exact ⟨changed, hrun, hfirst fun hne => absurd (String.isEmpty_iff.1 hempty) hne⟩
    · rw [if_neg hempty]
      obtain ⟨fresh, hfresh, hiff⟩ := h.isFresh session time name
      simp only [StateT.run_bind, hfresh, pure_bind]
      cases fresh with
      | true => exact ⟨changed, hrun, hfirst fun _ => hiff.1 rfl⟩
      | false =>
        have hbad : ¬ snap.Fresh session time name := fun hf => absurd (hiff.2 hf) (by simp)
        exact ⟨some name, rfl, Snapshot.stale_cons_iff.2
          (.inl ⟨⟨fun heq => hempty (String.isEmpty_iff.2 heq), hbad⟩, rfl⟩)⟩

end Files.Shows

end AblAnalysis
