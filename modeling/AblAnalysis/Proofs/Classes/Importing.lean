import AblAnalysis.Classes.Imports
import AblAnalysis.Proofs.Classes.Indexes
import AblAnalysis.Proofs.Text.Lowering
import AblAnalysis.Proofs.Text.Parts

/-!
What class names stand for under imports. The texts of imports bring in qualified names, a package those of its
classes that are known at that moment; a short name stands for the first name brought in that ends in it, in any
case, and only if there is none for a class known by exactly this name (`Imports.lookup_after`). What has been
settled by an import stays so, whatever is imported or becomes known later.
-/

namespace AblAnalysis.Imports

variable {i : Imports} {infos : List ClassInfo}

/-! ### What is brought in -/

/-- A call on the imports, or on the catalog that they are looked up in. -/
inductive Call where
  | add (text : String)
  | inject (info : ClassInfo)

/-- The imports and the catalog after a call. -/
def Call.run (s : Imports × Catalog) : Call → Imports × Catalog
  | .add text => (s.1.add s.2 text, s.2)
  | .inject info => (s.1, s.2.inject info)

/-- The imports and the catalog after calls. -/
def after (calls : List Call) : Imports × Catalog :=
  calls.foldl Call.run ({}, {})

/-- What a class name stands for after calls. -/
def lookupAfter (calls : List Call) (text : String) : String :=
  (after calls).1.lookup (after calls).2 text

/-- The class that a call makes known. -/
def Call.injected? : Call → Option ClassInfo
  | .add _ => none
  | .inject info => some info

/-- The qualified names that a path brings in when classes are known: those of a package in the order in which
its classes came, if the path is the package and `.*`. Nothing is the package of another path that ends in a
star, and the empty path brings in nothing. -/
def brought (infos : List ClassInfo) (path : String) : List String :=
  if path.toList.getLast? = some '*' then
    (Catalog.distinctNames infos).filter (fun name => packageOf name ++ ".*" = path)
  else if path = "" then []
  else [path]

/-- The qualified names that calls bring in, in order, when classes are known before them. -/
def importedFrom (infos : List ClassInfo) : List Call → List String
  | [] => []
  | .add text :: rest => brought infos (dequote text) ++ importedFrom infos rest
  | .inject info :: rest => importedFrom (infos ++ [info]) rest

/-- The qualified names that calls bring in, in order. -/
def imported (calls : List Call) : List String :=
  importedFrom [] calls

/-- Whether the last part of a qualified name is a short name, in any case. -/
def EndsIn (qualified name : String) : Prop :=
  (Text.pieces '.' qualified).getLast?.map Text.lowercase = some (Text.lowercase name)

instance (qualified name : String) : Decidable (EndsIn qualified name) :=
  inferInstanceAs (Decidable (_ = _))

/-- Whether a qualified name is the first of those brought in that end in a short name. -/
def FirstImported (calls : List Call) (name qualified : String) : Prop :=
  ∃ before after, imported calls = before ++ qualified :: after ∧ EndsIn qualified name ∧
    ∀ other ∈ before, ¬ EndsIn other name

/-- Whether a result is what the text of a class name stands for after calls. -/
structure Resolves (calls : List Call) (text result : String) : Prop where
  qualified : '.' ∈ (dequote text).toList → result = dequote text
  first : '.' ∉ (dequote text).toList →
    ∀ qualified, FirstImported calls (dequote text) qualified → result = qualified
  known : '.' ∉ (dequote text).toList → (∀ other ∈ imported calls, ¬ EndsIn other (dequote text)) →
    (∃ info ∈ calls.filterMap Call.injected?, info.name = dequote text) → result = dequote text
  unknown : '.' ∉ (dequote text).toList → (∀ other ∈ imported calls, ¬ EndsIn other (dequote text)) →
    (∀ info ∈ calls.filterMap Call.injected?, info.name ≠ dequote text) → result = ""

theorem endsIn_iff {qualified name : String} : EndsIn qualified name ↔
    Text.lowercase (Text.afterLast '.' qualified) = Text.lowercase name := by
  rw [EndsIn, Text.getLast?_pieces, Option.map_some, Option.some_inj]

/-! ### One import -/

theorem getLast?_of_reverse {path : String} {rest : List Char} {c : Char}
    (h : path.toList.reverse = c :: rest) : path.toList.getLast? = some c := by
  rw [List.getLast?_eq_head?_reverse, h, List.head?_cons]

/-- A path that ends in `.*` brings in the classes of the package before it. -/
theorem brought_package {path : String} {rest : List Char} (h : path.toList.reverse = '*' :: '.' :: rest) :
    brought infos path = (({} : Catalog).injectAll infos).inPackage (String.ofList rest.reverse) := by
  have hpath : path = String.ofList rest.reverse ++ ".*" := by
    apply String.toList_injective
    rw [← List.reverse_reverse path.toList, h]
    simp
  rw [brought, if_pos (getLast?_of_reverse h), Catalog.inPackage_injectAll]
  refine List.filter_congr fun name _ => ?_
  simp only [hpath, String.append_left_inj]

/-- No other path that ends in a star brings in anything. -/
theorem brought_malformed {path : String} (hstar : path.toList.getLast? = some '*')
    (h : ∀ rest, path.toList.reverse ≠ '*' :: '.' :: rest) : brought infos path = [] := by
  rw [brought, if_pos hstar, List.filter_eq_nil_iff]
  intro name _ hname
  refine h (packageOf name).toList.reverse ?_
  rw [← of_decide_eq_true hname]
  simp

theorem add_eq (i : Imports) (infos : List ClassInfo) (text : String) :
    i.add (({} : Catalog).injectAll infos) text = (brought infos (dequote text)).foldl addName i := by
  unfold add
  generalize dequote text = path
  dsimp only
  split
  next hnil =>
    obtain rfl : path = "" := by simpa using hnil
    rfl
  next package hpackage => rw [brought_package hpackage]
  next rest hother hstar =>
    rw [brought_malformed (getLast?_of_reverse hstar) fun package heq => ?_]
    · rfl
    · exact hother package (List.cons.inj (hstar.symm.trans heq)).2
  next hnil _ hnostar =>
    have hne : path ≠ "" := by
      rintro rfl
      exact hnil rfl
    rw [brought, if_neg, if_neg hne]
    · rfl
    · rw [List.getLast?_eq_head?_reverse]
      intro hstar
      obtain ⟨rest, hrest⟩ := List.head?_eq_some_iff.1 hstar
      exact hnostar rest hrest

theorem get?_addName (i : Imports) (qualified name : String) :
    (i.addName qualified).names.get? (Text.lowercase name) =
      (i.names.get? (Text.lowercase name)).or
        (if EndsIn qualified name then some qualified else none) := by
  rw [addName, Dict.insertNew, Dict.contains_eq_isSome]
  by_cases hends : EndsIn qualified name
  · have hkey := endsIn_iff.1 hends
    rw [hkey, if_pos hends]
    cases hfound : i.names.get? (Text.lowercase name) with
    | some other => simp [hfound]
    | none => simp [Dict.get?_insert]
  · rw [if_neg hends, Option.or_none]
    split
    · rfl
    · rw [Dict.get?_insert, if_neg fun heq => hends (endsIn_iff.2 heq.symm)]

theorem get?_addNames (i : Imports) (names : List String) (name : String) :
    (names.foldl addName i).names.get? (Text.lowercase name) =
      (i.names.get? (Text.lowercase name)).or (names.find? (fun other => EndsIn other name)) := by
  induction names generalizing i with
  | nil => simp
  | cons qualified names ih =>
    rw [List.foldl_cons, ih, get?_addName, Option.or_assoc, List.find?_cons]
    by_cases h : EndsIn qualified name <;> simp [h]

/-! ### All calls -/

theorem importedFrom_append (infos : List ClassInfo) (calls more : List Call) :
    importedFrom infos (calls ++ more) = importedFrom infos calls ++
      importedFrom (infos ++ calls.filterMap Call.injected?) more := by
  induction calls generalizing infos with
  | nil => simp [importedFrom]
  | cons call calls ih =>
    cases call with
    | add text =>
      rw [List.cons_append, importedFrom, importedFrom, ih, List.append_assoc]
      rfl
    | inject info =>
      rw [List.cons_append, importedFrom, importedFrom, ih, List.append_assoc]
      rfl

/-- What calls do to imports, when classes are known before them. -/
theorem foldl_run (i : Imports) (infos : List ClassInfo) (calls : List Call) :
    calls.foldl Call.run (i, ({} : Catalog).injectAll infos) =
      ((importedFrom infos calls).foldl addName i,
        ({} : Catalog).injectAll (infos ++ calls.filterMap Call.injected?)) := by
  induction calls generalizing i infos with
  | nil => simp [importedFrom]
  | cons call calls ih =>
    cases call with
    | add text =>
      rw [List.foldl_cons, Call.run, add_eq, ih, importedFrom, List.foldl_append]
      rfl
    | inject info =>
      have hinject : (({} : Catalog).injectAll infos).inject info =
          ({} : Catalog).injectAll (infos ++ [info]) :=
        (Catalog.injectAll_append {} infos [info]).symm
      rw [List.foldl_cons, Call.run, hinject, ih, importedFrom, List.append_assoc]
      rfl

theorem after_eq (calls : List Call) : after calls =
    ((imported calls).foldl addName {}, ({} : Catalog).injectAll (calls.filterMap Call.injected?)) := by
  rw [after, imported]
  exact foldl_run {} [] calls

theorem get?_after (calls : List Call) (name : String) :
    (after calls).1.names.get? (Text.lowercase name) =
      (imported calls).find? (fun other => EndsIn other name) := by
  rw [after_eq, get?_addNames]
  rfl

theorem isSome_find?_after (calls : List Call) (name : String) :
    ((after calls).2.find? name).isSome = true ↔
      ∃ info ∈ calls.filterMap Call.injected?, info.name = name := by
  rw [after_eq, Catalog.isSome_find?_injectAll, Catalog.mem_distinctNames]

theorem find?_endsIn_eq_some_iff {calls : List Call} {name qualified : String} :
    (imported calls).find? (fun other => EndsIn other name) = some qualified ↔
      FirstImported calls name qualified := by
  rw [List.find?_eq_some_iff_append, FirstImported]
  simp only [decide_eq_true_eq, Bool.not_eq_true', decide_eq_false_iff_not]
  constructor
  · rintro ⟨hends, before, after, hsplit, hbefore⟩
    exact ⟨before, after, hsplit, hends, hbefore⟩
  · rintro ⟨before, after, hsplit, hends, hbefore⟩
    exact ⟨hends, before, after, hsplit, hbefore⟩

theorem resolves_lookupAfter (calls : List Call) (text : String) :
    Resolves calls text (lookupAfter calls text) := by
  rw [lookupAfter, lookup, get?_after]
  refine ⟨fun hdot => if_pos (Text.hasChar_iff.2 hdot), fun hdot qualified hfirst => ?_,
    fun hdot hnone hknown => ?_, fun hdot hnone hunknown => ?_⟩
  · rw [if_neg (mt Text.hasChar_iff.1 hdot), find?_endsIn_eq_some_iff.2 hfirst]
  all_goals
    have hfind : (imported calls).find? (fun other => EndsIn other (dequote text)) = none :=
      List.find?_eq_none.2 fun other hother => by simpa using hnone other hother
    rw [if_neg (mt Text.hasChar_iff.1 hdot), hfind]
  · exact if_pos ((isSome_find?_after calls _).2 hknown)
  · refine if_neg fun hfound => ?_
    obtain ⟨info, hinfo, hname⟩ := (isSome_find?_after calls _).1 hfound
    exact hunknown info hinfo hname

/-- What was first brought in stays first. -/
theorem FirstImported.append {calls : List Call} {name qualified : String}
    (h : FirstImported calls name qualified) (more : List Call) :
    FirstImported (calls ++ more) name qualified := by
  obtain ⟨before, after, hsplit, hends, hbefore⟩ := h
  refine ⟨before, after ++ importedFrom (calls.filterMap Call.injected?) more, ?_, hends, hbefore⟩
  have happend := importedFrom_append [] calls more
  rw [List.nil_append, ← imported, ← imported, hsplit] at happend
  rw [happend, List.append_assoc, List.cons_append]

/-- The case of a short name does not matter. -/
theorem FirstImported.of_lowercase_eq {calls : List Call} {name other qualified : String}
    (h : FirstImported calls name qualified) (hsame : Text.lowercase other = Text.lowercase name) :
    FirstImported calls other qualified := by
  simpa only [FirstImported, EndsIn, hsame] using h

theorem exists_firstImported {calls : List Call} {name : String}
    (h : ∃ qualified ∈ imported calls, EndsIn qualified name) :
    ∃ qualified, FirstImported calls name qualified := by
  obtain ⟨qualified, hmem, hends⟩ := h
  have hsome : ((imported calls).find? (fun other => EndsIn other name)).isSome = true :=
    List.find?_isSome.2 ⟨qualified, hmem, decide_eq_true hends⟩
  obtain ⟨first, hfirst⟩ := Option.isSome_iff_exists.1 hsome
  exact ⟨first, find?_endsIn_eq_some_iff.1 hfirst⟩

/-- Whatever has been imported and become known, in any order, the text of a class name stands for itself if
it has a dot, else for the first name brought in that ends in it, in any case, else for the class known by
exactly this name, else for nothing. So a short name that an import has settled stands for the same name
after any more calls, and for the same as any other spelling of it. -/
theorem lookup_after (calls : List Call) (text : String) :
    Resolves calls text (lookupAfter calls text) ∧
    (∀ qualified, '.' ∉ (dequote text).toList → FirstImported calls (dequote text) qualified →
      ∀ more, lookupAfter (calls ++ more) text = qualified) ∧
    ∀ other, '.' ∉ (dequote text).toList →
      Text.lowercase (dequote other) = Text.lowercase (dequote text) →
      (∃ qualified ∈ imported calls, EndsIn qualified (dequote text)) →
      lookupAfter calls other = lookupAfter calls text := by
  refine ⟨resolves_lookupAfter calls text, fun qualified hdot hfirst more => ?_,
    fun other hdot hsame himported => ?_⟩
  · exact (resolves_lookupAfter (calls ++ more) text).first hdot qualified (hfirst.append more)
  · obtain ⟨qualified, hfirst⟩ := exists_firstImported himported
    have hdot' : '.' ∉ (dequote other).toList := by
      rwa [← Text.dot_mem_lowercase_iff, hsame, Text.dot_mem_lowercase_iff]
    rw [(resolves_lookupAfter calls text).first hdot qualified hfirst]
    exact (resolves_lookupAfter calls other).first hdot' qualified (hfirst.of_lowercase_eq hsame)

/-- A package imported while it has two classes, and then a class that bears the name of one of them; a third
class of the package comes later. -/
def sampleCalls : List Call :=
  [.inject { name := "acme.util.Logger" }, .inject { name := "acme.util.Queue" }, .inject { name := "Top" },
    .add "'acme.util.*'", .add "other.Logger", .add "acme*", .inject { name := "acme.util.Late" }]

/-- The imported class is found in any case and stays what it is, the late one is not found, and a class
without a package only as it is spelled. -/
theorem lookup_after_sampleCalls :
    lookupAfter sampleCalls "LOGGER" = "acme.util.Logger" ∧
    (∀ more, lookupAfter (sampleCalls ++ more) "LOGGER" = "acme.util.Logger") ∧
    lookupAfter sampleCalls "logger" = lookupAfter sampleCalls "LOGGER" ∧
    lookupAfter sampleCalls "Late" = "" ∧ lookupAfter sampleCalls "Top" = "Top" ∧
    lookupAfter sampleCalls "top" = "" ∧ lookupAfter sampleCalls "x.Y" = "x.Y" := by
  have himported : imported sampleCalls = ["acme.util.Logger", "acme.util.Queue", "other.Logger"] := by
    decide +kernel
  have hfirst : FirstImported sampleCalls (dequote "LOGGER") "acme.util.Logger" :=
    ⟨[], _, himported, by decide +kernel, by simp⟩
  obtain ⟨hlogger, hstays, hspelling⟩ := lookup_after sampleCalls "LOGGER"
  refine ⟨hlogger.first (by decide +kernel) _ hfirst, hstays _ (by decide +kernel) hfirst,
    hspelling "logger" (by decide +kernel) (by decide +kernel) ?_, ?_, ?_, ?_, ?_⟩
  · rw [himported]
    exact ⟨"acme.util.Logger", List.mem_cons_self .., by decide +kernel⟩
  · refine (lookup_after sampleCalls "Late").1.unknown (by decide +kernel) ?_ (by decide +kernel)
    rw [himported]
    decide +kernel
  · refine (lookup_after sampleCalls "Top").1.known (by decide +kernel) ?_ (by decide +kernel)
    rw [himported]
    decide +kernel
  · refine (lookup_after sampleCalls "top").1.unknown (by decide +kernel) ?_ (by decide +kernel)
    rw [himported]
    decide +kernel
  · exact (lookup_after sampleCalls "x.Y").1.qualified (by decide +kernel)

end AblAnalysis.Imports
