import AblAnalysis.Preprocessor.Listing
import AblAnalysis.Proofs.SortedMap
import AblAnalysis.Proofs.Text.Parts
import Mathlib.Data.List.Induction

/-!
Which listings are accepted. A listing is replayed to its end if every line that is not blank is
legible: its parts between single blanks are as the format has them. Otherwise the first illegible line
is named, and what was replayed are the lines before it (`replay_decides`). A line is read as a whole
before it does anything, so blank lines and illegible ones leave no trace.
-/

namespace AblAnalysis.Preprocessor.Listing

open Text

/-! ### The format of a line -/

/-- The tokens of a listing. -/
def tokens : List String :=
  ["globdef", "scopdef", "undef", "macroref", "macrorefend", "include", "incarg", "incend", "ampif",
    "ampelseif", "ampelse", "ampendif", "fileindex"]

/-- The parts of a line between single blanks. -/
def parts (line : String) : List String :=
  (line.toList.splitOnP isBlank).map String.ofList

/-- Whether a part is the literal of a signed 32-bit word. -/
def IsWord (part : String) : Prop :=
  ∃ n : Int32, IsSigned part n.toInt

/-- Whether a line follows the format. -/
def Legible (line : String) : Prop :=
  ∃ file row column token more, parts line = file :: row :: column :: token :: more ∧
    IsWord row ∧ IsWord column ∧ token ∈ tokens ∧
    (token = "include" ∨ token = "fileindex" → ∃ arg, more.head? = some arg ∧ IsWord arg)

/-- Whether a line gives a file index a name, which is all that is behind the fifth blank. -/
def NamesFile (line : String) (index : Int32) (name : String) : Prop :=
  ∃ file row column arg more, parts line = file :: row :: column :: "fileindex" :: arg :: more ∧
    IsSigned arg index.toInt ∧ name = String.ofList (behind isBlank 5 line.toList)

example : Legible "0 1 2 fileindex 3  a b " :=
  ⟨"0", "1", "2", "fileindex", ["3", "", "a", "b", ""], by decide +kernel,
    ⟨1, int32?_eq_some_iff.1 (by decide +kernel)⟩, ⟨2, int32?_eq_some_iff.1 (by decide +kernel)⟩,
    by decide, fun _ => ⟨"3", rfl, 3, int32?_eq_some_iff.1 (by decide +kernel)⟩⟩

theorem isWord_iff {part : String} : IsWord part ↔ (int32? part).isSome = true := by
  simp only [IsWord, ← int32?_eq_some_iff, Option.isSome_iff_exists]

/-! ### Lines are read by their parts -/

/-- The limited pieces of a line are its first five parts, and what is behind the fifth blank. -/
theorem piecesLimited_eq_parts (line : String) : piecesLimited isBlank 6 line = (parts line).take 5 ++
    if 5 < (parts line).length then [String.ofList (behind isBlank 5 line.toList)] else [] := by
  rw [piecesLimited, cutLimited_eq, List.map_append, List.map_take, parts, List.length_map]
  split <;> rfl

/-- The argument and the rest of a line of four parts or more, empty where there is no such part. -/
theorem exists_optional {line file row column word : String} {more : List String}
    (h : parts line = file :: row :: column :: word :: more) : ∃ optional,
    piecesLimited isBlank 6 line = file :: row :: column :: word :: optional ∧
      optional.head?.getD "" = more.head?.getD "" ∧
      (optional.drop 1).head?.getD "" = String.ofList (behind isBlank 5 line.toList) := by
  -- with fewer than five blanks there is nothing behind the fifth
  have hempty (hmore : more.length < 2) : String.ofList (behind isBlank 5 line.toList) = "" := by
    have hlength : (parts line).length ≤ 5 := by
      rw [h]
      simp only [List.length_cons]
      omega
    rw [parts, List.length_map] at hlength
    rw [behind_eq_nil hlength]
  rw [piecesLimited_eq_parts, h]
  rcases more with _ | ⟨arg, _ | ⟨next, more⟩⟩
  · exact ⟨[], by simp [hempty]⟩
  · exact ⟨[arg], by simp [hempty]⟩
  · exact ⟨[arg, String.ofList (behind isBlank 5 line.toList)], by simp⟩

/-- A line is read as its parts from the second to the fifth, and what is behind the fifth blank. -/
theorem readParts?_eq_some_iff {line : String} {e : Entry} : readParts? line = some e ↔
    ∃ file row column more, parts line = file :: row :: column :: e.token :: more ∧
      int32? row = some e.line ∧ int32? column = some e.column ∧
      more.head?.getD "" = e.arg ∧ String.ofList (behind isBlank 5 line.toList) = e.rest := by
  obtain ⟨l, c, token, arg, rest⟩ := e
  rw [readParts?]
  rcases hparts : parts line with _ | ⟨file, _ | ⟨row, _ | ⟨column, _ | ⟨word, more⟩⟩⟩⟩
  case cons.cons.cons.cons =>
    obtain ⟨optional, hpieces, harg, hrest⟩ := exists_optional hparts
    rw [hpieces]
    dsimp only
    rw [harg, hrest]
    constructor
    · intro h
      split at h
      next hl hc =>
        obtain ⟨rfl, rfl, rfl, rfl, rfl⟩ := Entry.mk.inj (Option.some.inj h)
        exact ⟨file, row, column, more, rfl, hl, hc, rfl, rfl⟩
      next => cases h
    · rintro ⟨_, _, _, _, heq, hl, hc, rfl, rfl⟩
      simp only [List.cons.injEq] at heq
      obtain ⟨rfl, rfl, rfl, rfl, rfl⟩ := heq
      simp only [hl, hc]
  all_goals simp [piecesLimited_eq_parts, hparts]

theorem Entry.isSome_action? (e : Entry) : e.action?.isSome = true ↔ e.token ∈ tokens ∧
    (e.token = "include" ∨ e.token = "fileindex" → IsWord e.arg) := by
  rw [isWord_iff]
  by_cases htoken : e.token ∈ tokens
  · simp only [tokens, List.mem_cons, List.not_mem_nil, or_false] at htoken
    rcases htoken with h | h | h | h | h | h | h | h | h | h | h | h | h
    all_goals simp [Entry.action?, tokens, h]
  · simp only [tokens, List.mem_cons, List.not_mem_nil, or_false, not_or] at htoken
    simp [Entry.action?, tokens, htoken]

/-- A line asks for something if it follows the format. -/
theorem isSome_readLine? {line : String} : (readLine? line).isSome = true ↔ Legible line := by
  rw [Option.isSome_iff_exists]
  constructor
  · rintro ⟨action, h⟩
    obtain ⟨e, he, haction⟩ := Option.bind_eq_some_iff.1 h
    obtain ⟨file, row, column, more, hparts, hrow, hcolumn, harg, -⟩ := readParts?_eq_some_iff.1 he
    obtain ⟨htoken, hword⟩ := e.isSome_action?.1 (by rw [haction]; rfl)
    refine ⟨file, row, column, e.token, more, hparts, ⟨_, int32?_eq_some_iff.1 hrow⟩,
      ⟨_, int32?_eq_some_iff.1 hcolumn⟩, htoken, fun hneeds => ?_⟩
    have harg' := hword hneeds
    rw [← harg] at harg'
    cases more with
    | nil => exact absurd (isWord_iff.1 harg') (by decide)
    | cons arg more => exact ⟨arg, rfl, harg'⟩
  · rintro ⟨file, row, column, token, more, hparts, ⟨l, hl⟩, ⟨c, hc⟩, htoken, hword⟩
    let e : Entry := ⟨l, c, token, more.head?.getD "", String.ofList (behind isBlank 5 line.toList)⟩
    have he : readParts? line = some e := readParts?_eq_some_iff.2
      ⟨file, row, column, more, hparts, int32?_eq_some_iff.2 hl, int32?_eq_some_iff.2 hc, rfl, rfl⟩
    rw [readLine?, he, Option.bind_some, ← Option.isSome_iff_exists, Entry.isSome_action?]
    refine ⟨htoken, fun hneeds => ?_⟩
    obtain ⟨arg, harg, hliteral⟩ := hword hneeds
    rwa [show e.arg = arg from congrArg (·.getD "") harg]

theorem Entry.action?_eq_nameFile_iff {e : Entry} {index : Int32} {name : String} :
    e.action? = some (.nameFile index name) ↔
      e.token = "fileindex" ∧ int32? e.arg = some index ∧ e.rest = name := by
  by_cases htoken : e.token = "fileindex"
  · simp [Entry.action?, htoken]
  · unfold Entry.action?
    repeat' split
    all_goals simp [htoken]

/-- A legible line gives a name to a file index if it is a line for that. -/
theorem readLine?_eq_nameFile_iff {line : String} (h : Legible line) {index : Int32} {name : String} :
    readLine? line = some (.nameFile index name) ↔ NamesFile line index name := by
  obtain ⟨action, haction⟩ := Option.isSome_iff_exists.1 (isSome_readLine?.2 h)
  obtain ⟨e, he, -⟩ := Option.bind_eq_some_iff.1 haction
  obtain ⟨file, row, column, more, hparts, -, -, harg, hrest⟩ := readParts?_eq_some_iff.1 he
  rw [readLine?, he, Option.bind_some, Entry.action?_eq_nameFile_iff, ← harg, ← hrest]
  constructor
  · rintro ⟨htoken, hindex, rfl⟩
    cases more with
    | nil => exact absurd hindex (by simp [int32?, signed?, digits?])
    | cons arg more =>
      exact ⟨file, row, column, arg, more, htoken ▸ hparts, int32?_eq_some_iff.1 hindex, rfl⟩
  · rintro ⟨file', row', column', arg, more', hparts', hindex, rfl⟩
    simp only [hparts, List.cons.injEq] at hparts'
    obtain ⟨-, -, -, htoken, rfl⟩ := hparts'
    exact ⟨htoken, int32?_eq_some_iff.2 hindex, rfl⟩

theorem NamesFile.not_isSkipped {line : String} {index : Int32} {name : String}
    (h : NamesFile line index name) : isSkipped line = false := by
  obtain ⟨file, row, column, arg, more, hparts, -⟩ := h
  have hmem : "fileindex" ∈ parts line := by simp [hparts]
  obtain ⟨part, hpart, htoken⟩ := List.mem_map.1 hmem
  have hf : 'f' ∈ part := by
    rw [← String.toList_ofList (l := part), htoken]
    decide
  rw [isSkipped, ← Bool.not_eq_true, List.all_eq_true]
  intro hall
  exact absurd (hall 'f' (mem_of_mem_splitOnP hpart hf).1) (by decide)

/-! ### Lines are replayed -/

/-- What lines ask for, blank ones and illegible ones left out. -/
def actions (lines : List String) : List Action :=
  (lines.filter (fun line => !isSkipped line)).filterMap readLine?

/-- Whether replaying goes on after a line. -/
def Passes (line : String) : Prop :=
  isSkipped line = true ∨ Legible line

theorem actions_concat_of_isSkipped {line : String} (h : isSkipped line = true)
    (lines : List String) : actions (lines ++ [line]) = actions lines := by
  simp [actions, h]

theorem actions_concat {line : String} {action : Action} (hskip : isSkipped line = false)
    (h : readLine? line = some action) (lines : List String) :
    actions (lines ++ [line]) = actions lines ++ [action] := by
  simp [actions, hskip, h]

/-- Lines that pass are replayed as what they ask for. -/
theorem Replay.lines_append (name : String) (r : Replay) (number : Nat) {before : List String}
    (h : ∀ line ∈ before, Passes line) (rest : List String) :
    r.lines name number (before ++ rest) =
      ((actions before).foldl Replay.perform r).lines name (number + before.length) rest := by
  induction before generalizing r number with
  | nil => rfl
  | cons line before ih =>
    obtain ⟨hline, hbefore⟩ := List.forall_mem_cons.1 h
    rw [List.cons_append, Replay.lines, List.length_cons, Nat.add_comm before.length,
      ← Nat.add_assoc]
    cases hskip : isSkipped line with
    | true =>
      rw [if_pos rfl, ih r _ hbefore]
      simp [actions, hskip]
    | false =>
      have hlegible : Legible line := hline.resolve_left (by simp [hskip])
      obtain ⟨action, haction⟩ := Option.isSome_iff_exists.1 (isSome_readLine?.2 hlegible)
      rw [if_neg Bool.false_ne_true, haction]
      dsimp only
      rw [ih _ _ hbefore]
      simp [actions, hskip, haction]

theorem Replay.lines_of_passes (name : String) (r : Replay) (number : Nat) {lines : List String}
    (h : ∀ line ∈ lines, Passes line) :
    r.lines name number lines = (.ok (), (actions lines).foldl Replay.perform r) := by
  rw [← List.append_nil lines, Replay.lines_append name r number h]
  simp [Replay.lines]

/-- A line that does not pass ends the replay and is named. -/
theorem Replay.lines_of_not_passes (name : String) (r : Replay) (number : Nat)
    {before : List String} (h : ∀ line ∈ before, Passes line) {line : String} (hline : ¬ Passes line)
    (after : List String) : r.lines name number (before ++ line :: after) =
      (.error (.unit name (.listingLine (number + before.length) line)),
        (actions before).foldl Replay.perform r) := by
  obtain ⟨hskip, hlegible⟩ := not_or.1 hline
  rw [Replay.lines_append name r number h, Replay.lines, if_neg hskip,
    Option.not_isSome_iff_eq_none.1 (mt isSome_readLine?.1 hlegible)]

/-- Either all lines pass or there is a first one that does not. -/
theorem passes_or_exists (lines : List String) : (∀ line ∈ lines, Passes line) ∨
    ∃ before line after, lines = before ++ line :: after ∧ (∀ line ∈ before, Passes line) ∧
      ¬ Passes line := by
  induction lines with
  | nil => exact .inl fun line h => absurd h List.not_mem_nil
  | cons first lines ih =>
    by_cases hfirst : Passes first
    · rcases ih with hall | ⟨before, line, after, rfl, hbefore, hline⟩
      · exact .inl (List.forall_mem_cons.2 ⟨hfirst, hall⟩)
      · exact .inr ⟨first :: before, line, after, rfl, List.forall_mem_cons.2 ⟨hfirst, hbefore⟩, hline⟩
    · exact .inr ⟨[], first, lines, rfl, fun line h => absurd h List.not_mem_nil, hfirst⟩

/-- Blank lines count, and do nothing else. -/
theorem Replay.lines_filter (name : String) (r : Replay) (number other : Nat) (lines : List String) :
    ((r.lines name number lines).1 = .ok () ↔
      (r.lines name other (lines.filter (fun line => !isSkipped line))).1 = .ok ()) ∧
    (r.lines name number lines).2 =
      (r.lines name other (lines.filter (fun line => !isSkipped line))).2 := by
  induction lines generalizing r number other with
  | nil => exact ⟨.rfl, rfl⟩
  | cons line lines ih =>
    rw [Replay.lines]
    cases hskip : isSkipped line with
    | true => simpa [hskip] using ih r (number + 1) other
    | false =>
      rw [if_neg Bool.false_ne_true, List.filter_cons_of_pos (by simp [hskip]), Replay.lines, hskip,
        if_neg Bool.false_ne_true]
      cases readLine? line with
      | none => exact ⟨by simp, rfl⟩
      | some action => exact ih (r.perform action) (number + 1) (other + 1)

/-! ### File indexes -/

/-- Whether the last line that names a file index gives it a name. -/
def LastNames (lines : List String) (index : Int32) (name : String) : Prop :=
  ∃ before line after, lines = before ++ line :: after ∧ NamesFile line index name ∧
    ∀ l ∈ after, ∀ other, ¬ NamesFile l index other

theorem lastNames_concat {lines : List String} {line : String} {index : Int32} {name : String} :
    LastNames (lines ++ [line]) index name ↔ NamesFile line index name ∨
      (∀ other, ¬ NamesFile line index other) ∧ LastNames lines index name := by
  constructor
  · rintro ⟨before, l, after, heq, hnames, hafter⟩
    rcases List.eq_nil_or_concat after with rfl | ⟨middle, last, rfl⟩
    · obtain ⟨-, hlast⟩ := List.append_inj' heq rfl
      exact .inl (List.singleton_inj.1 hlast ▸ hnames)
    · rw [List.concat_eq_append, ← List.cons_append, ← List.append_assoc] at heq
      obtain ⟨rfl, hlast⟩ := List.append_inj' heq rfl
      obtain rfl := List.singleton_inj.1 hlast
      exact .inr ⟨hafter line (by simp), before, l, middle, rfl, hnames,
        fun k hk => hafter k (by simp [hk])⟩
  · rintro (hnames | ⟨hline, before, l, after, rfl, hnames, hafter⟩)
    · exact ⟨lines, line, [], rfl, hnames, fun l hl => absurd hl List.not_mem_nil⟩
    · refine ⟨before, l, after ++ [line], by simp, hnames, fun k hk => ?_⟩
      rcases List.mem_append.1 hk with hk | hk
      · exact hafter k hk
      · rwa [List.mem_singleton.1 hk]

/-- The table has, for every file index, the name on the last line that names it. -/
theorem get?_files_perform {lines : List String} (h : ∀ line ∈ lines, Passes line) (t : Tracker)
    (index : Int32) (name : String) :
    ((actions lines).foldl Replay.perform { tracker := t }).files.get? index = some name ↔
      LastNames lines index name := by
  induction lines using List.reverseRecOn with
  | nil =>
    refine iff_of_false (by simp [actions]) ?_
    rintro ⟨before, line, after, heq, -⟩
    simp at heq
  | append_singleton lines line ih =>
    have hline := h line (by simp)
    replace ih := ih fun l hl => h l (List.mem_append_left _ hl)
    rw [lastNames_concat, ← ih]
    cases hskip : isSkipped line with
    | true =>
      have hnone (other : String) : ¬ NamesFile line index other := fun hnames =>
        absurd hnames.not_isSkipped (by simp [hskip])
      rw [actions_concat_of_isSkipped hskip]
      simp [hnone]
    | false =>
      have hlegible : Legible line := hline.resolve_left (by simp [hskip])
      obtain ⟨action, haction⟩ := Option.isSome_iff_exists.1 (isSome_readLine?.2 hlegible)
      rw [actions_concat hskip haction, List.foldl_append, List.foldl_cons, List.foldl_nil]
      simp only [← readLine?_eq_nameFile_iff hlegible, haction]
      cases action with
      | call c => simp [Replay.perform]
      | nameFile i n =>
        rw [Replay.perform, SortedMap.get?_insert]
        by_cases hindex : index = i
        · simp [hindex]
        · simp [hindex, Ne.symm hindex]

/-! ### A listing is replayed -/

/-- A listing is replayed to its end if every line of it is blank or legible. If not, the first line that
is neither is named, and what was replayed is the text before it. Texts that differ in blank lines alone
are replayed to the same end, and the table then has the last name of every file index. -/
theorem replay_decides (name text : String) (t : Tracker) :
    ((replay name text t).1 = .ok () ↔
      ∀ line ∈ lines text, isSkipped line = true ∨ Legible line) ∧
    (∀ e, (replay name text t).1 = .error e → ∃ before line after,
      lines text = before ++ line :: after ∧
      (∀ l ∈ before, isSkipped l = true ∨ Legible l) ∧ isSkipped line = false ∧ ¬ Legible line ∧
      e = .unit name (.listingLine (before.length + 1) line) ∧
      ∃ start rest, text = start ++ rest ∧ lines start = before ∧
        replay name start t = (.ok (), (replay name text t).2)) ∧
    (∀ other, (lines other).filter (fun line => !isSkipped line) =
        (lines text).filter (fun line => !isSkipped line) →
      (replay name other t).2 = (replay name text t).2 ∧
      ((replay name other t).1 = .ok () ↔ (replay name text t).1 = .ok ())) ∧
    ((replay name text t).1 = .ok () → ∀ index file,
      (replay name text t).2.files.get? index = some file ↔ ∃ before line after,
        lines text = before ++ line :: after ∧ NamesFile line index file ∧
        ∀ l ∈ after, ∀ another, ¬ NamesFile l index another) := by
  have hother (other : String) (heq : (lines other).filter (fun line => !isSkipped line) =
      (lines text).filter (fun line => !isSkipped line)) :
      (replay name other t).2 = (replay name text t).2 ∧
      ((replay name other t).1 = .ok () ↔ (replay name text t).1 = .ok ()) := by
    obtain ⟨hok, hstate⟩ := Replay.lines_filter name { tracker := t } 1 1 (lines other)
    obtain ⟨hok', hstate'⟩ := Replay.lines_filter name { tracker := t } 1 1 (lines text)
    rw [heq] at hok hstate
    exact ⟨hstate.trans hstate'.symm, hok.trans hok'.symm⟩
  rcases passes_or_exists (lines text) with hall | ⟨before, line, after, heq, hbefore, hline⟩
  · have hreplay := Replay.lines_of_passes name { tracker := t } 1 hall
    rw [← replay] at hreplay
    refine ⟨iff_of_true (by rw [hreplay]) hall, fun e he => ?_, hother, fun _ index file => ?_⟩
    · rw [hreplay] at he
      cases he
    · rw [hreplay]
      exact get?_files_perform hall t index file
  · have hreplay := Replay.lines_of_not_passes name { tracker := t } 1 hbefore hline after
    rw [← heq, ← replay] at hreplay
    have hfails : (replay name text t).1 ≠ .ok () := by simp [hreplay]
    refine ⟨iff_of_false hfails fun hall => hline (hall line (by simp [heq])), fun e he => ?_, hother,
      fun hok => absurd hok hfails⟩
    obtain ⟨start, rest, htext, hstart⟩ := exists_lines_eq heq
    obtain ⟨hskip, hlegible⟩ := not_or.1 hline
    refine ⟨before, line, after, heq, hbefore, Bool.not_eq_true _ ▸ hskip, hlegible, ?_, start, rest,
      htext, hstart, ?_⟩
    · rw [hreplay, Nat.add_comm] at he
      exact (Except.error.inj he).symm
    · rw [replay, hstart, Replay.lines_of_passes name _ 1 hbefore, hreplay]

/-- Lines that name the same file index twice. -/
def sampleFiles : String :=
  "0 1 1 fileindex 0 a.p\n \n0 1 1 fileindex 0 b.p\n"

/-- The second name stays; a word in the place of a file index is refused where it stands, and the names
before it are those of the text before it. -/
theorem replay_sampleFiles :
    (replay "unit" sampleFiles {}).2.files.get? 0 = some "b.p" ∧
    (replay "unit" (sampleFiles ++ "0 2 1 include x inc.i\n") {}).1 =
      .error (.unit "unit" (.listingLine 4 "0 2 1 include x inc.i")) ∧
    ∃ start rest, sampleFiles ++ "0 2 1 include x inc.i\n" = start ++ rest ∧
      replay "unit" start {} =
        (.ok (), (replay "unit" (sampleFiles ++ "0 2 1 include x inc.i\n") {}).2) := by
  have hok : (replay "unit" sampleFiles {}).1 = .ok () := by decide +kernel
  have herror : (replay "unit" (sampleFiles ++ "0 2 1 include x inc.i\n") {}).1 =
      .error (.unit "unit" (.listingLine 4 "0 2 1 include x inc.i")) := by decide +kernel
  refine ⟨?_, herror, ?_⟩
  · refine ((replay_decides "unit" sampleFiles {}).2.2.2 hok 0 "b.p").2
      ⟨["0 1 1 fileindex 0 a.p", " "], "0 1 1 fileindex 0 b.p", [], by decide +kernel,
        ⟨"0", "1", "1", "0", ["b.p"], by decide +kernel, ?_, by decide +kernel⟩, by simp⟩
    exact int32?_eq_some_iff.1 (by decide +kernel)
  · obtain ⟨-, -, -, -, -, -, -, -, start, rest, htext, -, hstart⟩ :=
      (replay_decides "unit" (sampleFiles ++ "0 2 1 include x inc.i\n") {}).2.1 _ herror
    exact ⟨start, rest, htext, hstart⟩

end AblAnalysis.Preprocessor.Listing
