import AblAnalysis.Preprocessor.Tracker
import AblAnalysis.Proofs.Preprocessor.Events
import Mathlib.Data.List.Nodup

/-!
What callbacks say of names. A history is read off the callbacks alone: which files are open, which
definitions were made and where each of them is kept. Nothing is ever taken out of it; which of the
definitions still count is said of it afterwards (`Live`), and so is which of those a name stands for
(`Resolves`).
-/

namespace AblAnalysis.Preprocessor

/-- Where a definition is kept: with a file in its exact spelling, with the arguments of an inclusion
in lower case, or for all files in lower case. -/
inductive Place where
  | inFile (scope : Nat) (name : String)
  | argument (inclusion : Nat) (key : String)
  | global (key : String)
  deriving DecidableEq

/-- Whether a place is one of a file. -/
def Place.isIn (s : Nat) : Place → Bool
  | .inFile r _ => r == s
  | _ => false

/-- The places where a name is looked for, in order: with the innermost file, with the arguments that
were passed to it, with the files around it and with the definitions for all files. -/
def places (innermost : Nat) (outer : List Nat) (name : String) : List Place :=
  .inFile innermost name :: .argument innermost (Text.lowercase name) ::
    (outer.map (fun scope => .inFile scope name) ++ [.global (Text.lowercase name)])

/-- Where a definition of a kind is kept. -/
def definedAt (innermost : Nat) (name : String) : DefinitionKind → Option Place
  | .global => some (.global (Text.lowercase name))
  | .scoped => some (.inFile innermost name)
  | _ => none

/-- Where an argument is kept: nowhere if its name is the number of the next argument. -/
def argumentAt (innermost passed : Nat) (name : String) : Option Place :=
  if Text.count? name = some (passed + 1) then none
  else some (.argument innermost (Text.lowercase name))

theorem argumentAt_ne_scoped {innermost passed : Nat} {name : String} {s : Nat} {n : String} :
    argumentAt innermost passed name ≠ some (.inFile s n) := by
  unfold argumentAt
  split <;> simp

/-- What callbacks say of names. -/
structure History where
  /-- Number of events. -/
  size : Nat := 1
  /-- The inclusion whose file is being read. -/
  innermost : Nat := 0
  /-- The inclusions around it that are still open, nearest first. -/
  outer : List Nat := []
  /-- For every argument the inclusion that it was passed to. -/
  passed : List Nat := []
  /-- Definitions by number with their places, in order. -/
  made : List (Nat × Place) := []

namespace History

/-- The inclusions whose files are open, innermost first. -/
def scopes (h : History) : List Nat :=
  h.innermost :: h.outer

/-- One more event, which may be a definition that is kept somewhere. -/
def event (h : History) (place : Option Place) : History :=
  { h with
    size := h.size + 1
    made := h.made ++ (place.map fun p => (h.size, p)).toList }

/-- The file that is read next. -/
def enter (h : History) : History :=
  { h.event none with
    innermost := h.size
    outer := h.innermost :: h.outer }

/-- One more argument of the file being read. -/
def pass (h : History) (name : String) : History :=
  { h.event (argumentAt h.innermost (h.passed.count h.innermost) name) with
    passed := h.innermost :: h.passed }

/-- The file being read ends. The main file stays open. -/
def leave (h : History) : History :=
  match h.outer with
  | [] => h
  | scope :: rest =>
    { h with
      innermost := scope
      outer := rest }

/-- Takes note of one callback. -/
def step (h : History) : Callback → History
  | .define _ _ name _ kind => h.event (definedAt h.innermost name kind)
  | .undefine .. => h.event none
  | .openFile .. => h.enter
  | .argument name _ _ => h.pass name
  | .closeFile .. => h.leave
  | .openName .. => h.event none
  | .closeName .. => h
  | .condition .. => h
  | .suspend .. => h
  | .resume .. => h

/-- What callbacks say when they come in order. -/
def after (callbacks : List Callback) : History :=
  callbacks.foldl step {}

/-! ### Which definition a name stands for -/

/-- Whether a definition counts: it is the last one made at its place, no undefine removed it, and if
it is kept with a file, that file is open. -/
structure Live (h : History) (g : Graph) (id : Nat) (p : Place) : Prop where
  made : (id, p) ∈ h.made
  last : ∀ j, (j, p) ∈ h.made → j ≤ id
  kept : ¬ g.Undefined id
  opened : ∀ scope name, p = .inFile scope name → scope ∈ h.scopes

/-- The places where a name is looked for, in order. -/
def order (h : History) (name : String) : List Place :=
  places h.innermost h.outer name

/-- Whether a name stands for a definition: the live one at the first place that has one. -/
def Resolves (h : History) (g : Graph) (name : String) : Option Nat → Prop
  | some id => ∃ before p after, h.order name = before ++ p :: after ∧ h.Live g id p ∧
      ∀ q ∈ before, ∀ j, ¬ h.Live g j q
  | none => ∀ q ∈ h.order name, ∀ j, ¬ h.Live g j q

/-! ### Histories are well formed -/

/-- Whether numbers in a history are those of earlier events, and no two definitions share one. -/
structure Valid (h : History) : Prop where
  scopes_nodup : h.scopes.Nodup
  scopes_lt : ∀ s ∈ h.scopes, s < h.size
  passed_lt : ∀ i ∈ h.passed, i < h.size
  made_lt : ∀ id p, (id, p) ∈ h.made → id < h.size
  scoped_lt : ∀ id s name, (id, .inFile s name) ∈ h.made → s < h.size
  made_inj : ∀ id p q, (id, p) ∈ h.made → (id, q) ∈ h.made → p = q

variable {h : History}

theorem mem_made_event (place : Option Place) (id : Nat) (p : Place) :
    (id, p) ∈ (h.event place).made ↔ (id, p) ∈ h.made ∨ id = h.size ∧ place = some p := by
  cases place <;> simp [event, eq_comm]

/-- An event may be a definition kept with an open file. -/
theorem Valid.event (hv : h.Valid) {place : Option Place}
    (hplace : ∀ s name, place = some (.inFile s name) → s ∈ h.scopes) : (h.event place).Valid where
  scopes_nodup := hv.scopes_nodup
  scopes_lt s hs := Nat.lt_succ_of_lt (hv.scopes_lt s hs)
  passed_lt i hi := Nat.lt_succ_of_lt (hv.passed_lt i hi)
  made_lt id p hp := by
    rcases (mem_made_event place id p).1 hp with hp | ⟨rfl, -⟩
    · exact Nat.lt_succ_of_lt (hv.made_lt id p hp)
    · exact Nat.lt_succ_self _
  scoped_lt id s name hp := by
    rcases (mem_made_event place id _).1 hp with hp | ⟨-, hp⟩
    · exact Nat.lt_succ_of_lt (hv.scoped_lt id s name hp)
    · exact Nat.lt_succ_of_lt (hv.scopes_lt s (hplace s name hp))
  made_inj id p q hp hq := by
    rcases (mem_made_event place id p).1 hp with hp | ⟨hid, hp⟩ <;>
      rcases (mem_made_event place id q).1 hq with hq | ⟨hid', hq⟩
    · exact hv.made_inj id p q hp hq
    · exact absurd hid' (Nat.ne_of_lt (hv.made_lt id p hp))
    · exact absurd hid (Nat.ne_of_lt (hv.made_lt id q hq))
    · exact Option.some.inj (hp.symm.trans hq)

theorem definedAt_mem_scopes {name : String} {kind : DefinitionKind} {s : Nat} {n : String}
    (hp : definedAt h.innermost name kind = some (.inFile s n)) : s ∈ h.scopes := by
  match kind, hp with
  | .scoped, hp =>
    obtain ⟨rfl, -⟩ := Place.inFile.inj (Option.some.inj hp)
    exact List.mem_cons_self ..
  | .global, hp => exact absurd (Option.some.inj hp) (by simp)

theorem Valid.enter (hv : h.Valid) : h.enter.Valid := by
  have hev : (h.event none).Valid := hv.event (by simp)
  refine ⟨?_, ?_, hev.passed_lt, hev.made_lt, hev.scoped_lt, hev.made_inj⟩
  · exact List.nodup_cons.2 ⟨fun hs => Nat.lt_irrefl _ (hv.scopes_lt _ hs), hv.scopes_nodup⟩
  · intro s hs
    rcases List.mem_cons.1 hs with rfl | hs
    · exact Nat.lt_succ_self _
    · exact hev.scopes_lt s hs

theorem Valid.pass (hv : h.Valid) (name : String) : (h.pass name).Valid := by
  have hev : (h.event (argumentAt h.innermost (h.passed.count h.innermost) name)).Valid :=
    hv.event fun s n hp => absurd hp argumentAt_ne_scoped
  refine ⟨hev.scopes_nodup, hev.scopes_lt, ?_, hev.made_lt, hev.scoped_lt, hev.made_inj⟩
  intro i hi
  rcases List.mem_cons.1 hi with rfl | hi
  · exact hev.scopes_lt _ (List.mem_cons_self ..)
  · exact hev.passed_lt i hi

theorem Valid.leave (hv : h.Valid) : h.leave.Valid := by
  unfold History.leave
  cases ho : h.outer with
  | nil => exact hv
  | cons scope rest =>
    have hscopes : h.scopes = h.innermost :: scope :: rest := by rw [scopes, ho]
    have hnodup := hv.scopes_nodup
    rw [hscopes] at hnodup
    refine ⟨hnodup.of_cons, fun s hs => hv.scopes_lt s ?_, hv.passed_lt, hv.made_lt, hv.scoped_lt,
      hv.made_inj⟩
    rw [hscopes]
    exact List.mem_cons_of_mem _ hs

theorem valid_start : ({} : History).Valid where
  scopes_nodup := List.nodup_singleton 0
  scopes_lt s hs := by simp_all [scopes]
  passed_lt i hi := by simp at hi
  made_lt id p hp := by simp at hp
  scoped_lt id s name hp := by simp at hp
  made_inj id p q hp := by simp at hp

end History

end AblAnalysis.Preprocessor
