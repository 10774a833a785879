import AblAnalysis.Classes.Reader
import AblAnalysis.Proofs.Classes.Ancestors
import Mathlib.Data.List.Induction
import Mathlib.Data.List.Perm.Basic

/-!
The three indexes of a catalog. What each of them answers is read off the classes that were injected, in
their order: the two by name know the last class of a name, the one by package lists every name where it
came first. A catalog file adds its classes in order, or nothing (`Catalog.indexed_injectAll`).
-/

namespace AblAnalysis

theorem Dict.mem_keys_iff {κ α : Type} [DecidableEq κ] {d : Dict κ α} {k : κ} :
    k ∈ d.entries.map (·.1) ↔ (d.get? k).isSome := by
  rw [get?, Option.isSome_map, List.isSome_find?, List.any_eq_true, List.mem_map]
  simp

namespace ClassInfo

theorem mapM_ofJson?_eq_some {items : List Json} {infos : List ClassInfo} :
    items.mapM ofJson? = some infos ↔ items.map ofJson? = infos.map some := by
  induction items generalizing infos with
  | nil => cases infos <;> simp
  | cons item items ih =>
    cases infos with
    | nil => simp [List.mapM_cons, Option.bind_eq_some_iff]
    | cons info infos => simp [List.mapM_cons, Option.bind_eq_some_iff, ih]

theorem listOfBytes?_eq_some {bytes : List UInt8} {infos : List ClassInfo} :
    listOfBytes? bytes = some infos ↔
      ∃ items, Json.read? bytes = some (.array items) ∧ items.map ofJson? = infos.map some := by
  unfold listOfBytes?
  split
  · rename_i items hitems
    simp [hitems, mapM_ofJson?_eq_some]
  · rename_i hother
    simp only [reduceCtorEq, false_iff]
    rintro ⟨items, hitems, -⟩
    exact hother items hitems

end ClassInfo

namespace Catalog

variable {c : Catalog} {infos : List ClassInfo}

/-- The names of classes, each where it comes first. -/
def distinctNames (infos : List ClassInfo) : List String :=
  (infos.map (·.name)).eraseDups

/-- Whether a catalog answers for these classes, injected in this order. -/
structure Indexed (c : Catalog) (infos : List ClassInfo) : Prop where
  find : ∀ name, c.find? name = infos.reverse.find? (fun info => info.name = name)
  findIgnoringCase : ∀ name, c.findIgnoringCase? name =
    infos.reverse.find? (fun info => Text.lowercase info.name = Text.lowercase name)
  inPackage : ∀ package,
    c.inPackage package = (distinctNames infos).filter (fun name => packageOf name = package)
  size : c.size = (distinctNames infos).length

/-! ### Names -/

theorem mem_distinctNames {name : String} :
    name ∈ distinctNames infos ↔ ∃ info ∈ infos, info.name = name := by
  rw [distinctNames, List.mem_eraseDups, List.mem_map]

theorem distinctNames_concat (infos : List ClassInfo) (info : ClassInfo) :
    distinctNames (infos ++ [info]) =
      distinctNames infos ++ if info.name ∈ distinctNames infos then [] else [info.name] := by
  rw [distinctNames, List.map_append, List.eraseDups_append, ← distinctNames]
  congr 1
  have hmem : info.name ∈ distinctNames infos ↔ info.name ∈ infos.map (·.name) := List.mem_eraseDups
  split
  · rename_i hold
    rw [hmem] at hold
    simp [List.removeAll, -List.mem_map, hold]
  · rename_i hnew
    rw [hmem] at hnew
    simp [List.removeAll, -List.mem_map, hnew, List.eraseDups_cons]

theorem nodup_distinctNames (infos : List ClassInfo) : (distinctNames infos).Nodup := by
  induction infos using List.reverseRecOn with
  | nil => exact List.nodup_nil
  | append_singleton infos info ih =>
    rw [distinctNames_concat]
    split
    · rwa [List.append_nil]
    · rename_i hnew
      exact ih.append (List.nodup_singleton _) (by simpa using hnew)

/-! ### One class -/

theorem find?_inject (info : ClassInfo) (name : String) :
    (c.inject info).find? name = if info.name = name then some info else c.find? name := by
  simp only [eq_comm (a := info.name)]
  exact Dict.get?_insert ..

theorem findIgnoringCase?_inject (info : ClassInfo) (name : String) :
    (c.inject info).findIgnoringCase? name =
      if Text.lowercase info.name = Text.lowercase name then some info
      else c.findIgnoringCase? name := by
  simp only [eq_comm (a := Text.lowercase info.name)]
  exact Dict.get?_insert ..

theorem inPackage_inject (info : ClassInfo) (package : String) :
    (c.inject info).inPackage package = c.inPackage package ++
      if (c.find? info.name).isNone ∧ packageOf info.name = package then [info.name] else [] := by
  have hcontains : c.byName.contains info.name = (c.find? info.name).isSome :=
    Dict.contains_eq_isSome ..
  cases hfound : c.find? info.name with
  | some other => simp [inPackage, inject, hcontains, hfound]
  | none =>
    by_cases hpackage : packageOf info.name = package
    · subst hpackage
      simp [inPackage, inject, hcontains, hfound, Dict.get?_insert]
    · simp [inPackage, inject, hcontains, hfound, Dict.get?_insert, hpackage, Ne.symm hpackage]

theorem injectAll_append (c : Catalog) (infos more : List ClassInfo) :
    c.injectAll (infos ++ more) = (c.injectAll infos).injectAll more :=
  List.foldl_append

/-! ### All classes -/

/-- A lookup that each class answers whose key it asks for is answered by the last of them. -/
theorem lookup_injectAll {key : ClassInfo → String} {wanted : String}
    {f : Catalog → Option ClassInfo} (hempty : f {} = none)
    (hinject : ∀ c info, f (inject c info) = if key info = wanted then some info else f c)
    (infos : List ClassInfo) : f (({} : Catalog).injectAll infos) =
      infos.reverse.find? (fun info => key info = wanted) := by
  induction infos using List.reverseRecOn with
  | nil => exact hempty
  | append_singleton infos info ih =>
    rw [injectAll_append, List.reverse_concat, List.find?_cons, ← ih]
    refine (hinject _ info).trans ?_
    by_cases heq : key info = wanted <;> simp [heq]

theorem find?_injectAll (infos : List ClassInfo) (name : String) :
    (({} : Catalog).injectAll infos).find? name =
      infos.reverse.find? (fun info => info.name = name) :=
  lookup_injectAll (f := fun c => c.find? name) rfl (fun _ info => find?_inject info name) infos

theorem findIgnoringCase?_injectAll (infos : List ClassInfo) (name : String) :
    (({} : Catalog).injectAll infos).findIgnoringCase? name =
      infos.reverse.find? (fun info => Text.lowercase info.name = Text.lowercase name) :=
  lookup_injectAll (f := fun c => c.findIgnoringCase? name) rfl
    (fun _ info => findIgnoringCase?_inject info name) infos

theorem isSome_find?_injectAll (infos : List ClassInfo) (name : String) :
    ((({} : Catalog).injectAll infos).find? name).isSome ↔ name ∈ distinctNames infos := by
  rw [find?_injectAll, List.isSome_find?, mem_distinctNames]
  simp

theorem inPackage_injectAll (infos : List ClassInfo) (package : String) :
    (({} : Catalog).injectAll infos).inPackage package =
      (distinctNames infos).filter (fun name => packageOf name = package) := by
  induction infos using List.reverseRecOn with
  | nil => rfl
  | append_singleton infos info ih =>
    have hknown := isSome_find?_injectAll infos info.name
    rw [injectAll_append, distinctNames_concat, List.filter_append, ← ih]
    refine (inPackage_inject info package).trans ?_
    congr 1
    by_cases hold : info.name ∈ distinctNames infos
    · obtain ⟨known, hfound⟩ := Option.isSome_iff_exists.1 (hknown.2 hold)
      simp [hold, hfound]
    · have hnone : (({} : Catalog).injectAll infos).find? info.name = none := by
        simpa using mt hknown.1 hold
      by_cases hpackage : packageOf info.name = package <;> simp [hold, hnone, hpackage]

theorem size_injectAll (infos : List ClassInfo) :
    (({} : Catalog).injectAll infos).size = (distinctNames infos).length := by
  have hperm : (({} : Catalog).injectAll infos).names.Perm (distinctNames infos) := by
    rw [List.perm_ext_iff_of_nodup (nodup_names_injectAll infos) (nodup_distinctNames infos)]
    intro name
    exact Dict.mem_keys_iff.trans (isSome_find?_injectAll infos name)
  rw [← hperm.length_eq, names, List.length_map]
  rfl

/-- However files are decoded, one adds all the classes that it is decoded to, after those that were injected
before, or fails and adds nothing. -/
theorem injectDecoded_injectAll (decode : List UInt8 → Option (List ClassInfo)) (infos : List ClassInfo)
    (bytes : List UInt8) :
    let c := ({} : Catalog).injectAll infos
    (∃ more, decode bytes = some more ∧
        c.injectDecoded decode bytes = (.ok more.length, ({} : Catalog).injectAll (infos ++ more))) ∨
      decode bytes = none ∧ c.injectDecoded decode bytes = (.error (.config .invalidCatalog), c) := by
  cases hdecode : decode bytes with
  | some more => exact .inl ⟨more, rfl, by rw [injectDecoded, hdecode, injectAll_append]⟩
  | none => exact .inr ⟨rfl, by rw [injectDecoded, hdecode]⟩

/-- Whatever classes were injected, the three indexes agree: each answers by the order of the classes, a
name is found exactly when its package lists it, and then in any case as well. However files are decoded, one
adds all the classes that it is decoded to, or fails and adds nothing; a catalog file is decoded to the classes
of its array. -/
theorem indexed_injectAll (infos : List ClassInfo) (bytes : List UInt8) :
    let c := ({} : Catalog).injectAll infos
    c.Indexed infos ∧
    (∀ package, (c.inPackage package).Nodup) ∧
    (∀ name, (c.find? name).isSome ↔ name ∈ c.inPackage (packageOf name)) ∧
    (∀ name, (c.find? name).isSome → (c.findIgnoringCase? name).isSome) ∧
    (∀ decode : List UInt8 → Option (List ClassInfo),
      (∃ more, decode bytes = some more ∧
        c.injectDecoded decode bytes = (.ok more.length, ({} : Catalog).injectAll (infos ++ more))) ∨
      decode bytes = none ∧ c.injectDecoded decode bytes = (.error (.config .invalidCatalog), c)) ∧
    ((∃ items more, Json.read? bytes = some (.array items) ∧
        items.map ClassInfo.ofJson? = more.map some ∧
        c.injectBytes bytes = (.ok more.length, ({} : Catalog).injectAll (infos ++ more))) ∨
      (∀ items (more : List ClassInfo), Json.read? bytes = some (.array items) →
        items.map ClassInfo.ofJson? ≠ more.map some) ∧
        c.injectBytes bytes = (.error (.config .invalidCatalog), c)) := by
  intro c
  have hindexed : c.Indexed infos :=
    ⟨find?_injectAll infos, findIgnoringCase?_injectAll infos, inPackage_injectAll infos,
      size_injectAll infos⟩
  refine ⟨hindexed, ?_, ?_, ?_, fun decode => injectDecoded_injectAll decode infos bytes, ?_⟩
  · intro package
    rw [hindexed.inPackage]
    exact (nodup_distinctNames infos).filter _
  · intro name
    rw [hindexed.inPackage, List.mem_filter]
    simpa using isSome_find?_injectAll infos name
  · intro name hfound
    rw [hindexed.find, List.isSome_find?, List.any_eq_true] at hfound
    obtain ⟨info, hmem, hname⟩ := hfound
    rw [hindexed.findIgnoringCase, List.isSome_find?, List.any_eq_true]
    exact ⟨info, hmem, decide_eq_true (congrArg Text.lowercase (of_decide_eq_true hname))⟩
  · rcases injectDecoded_injectAll ClassInfo.listOfBytes? infos bytes with ⟨more, hread, hinject⟩ | ⟨hread, hinject⟩
    · obtain ⟨items, hitems, hmore⟩ := ClassInfo.listOfBytes?_eq_some.1 hread
      exact .inl ⟨items, more, hitems, hmore, hinject⟩
    · refine .inr ⟨fun items more hitems hmore => ?_, hinject⟩
      have hsome := ClassInfo.listOfBytes?_eq_some.2 ⟨items, hitems, hmore⟩
      exact absurd (hread.symm.trans hsome) (by simp)

end Catalog

end AblAnalysis
