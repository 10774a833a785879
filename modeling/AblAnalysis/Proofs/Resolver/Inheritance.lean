import AblAnalysis.Proofs.Classes.Ascents
import AblAnalysis.Proofs.Resolver.Shadowing

/-!
Buffers that a unit inherits from its class. The class is the one that was known by its name when it was
begun, and what it inherits is found by climbing from parent to parent (`inherits_iff_reaches`). A buffer
is looked for by the lower-case form of its name but compared in ASCII only, so that one whose name has
capitals beyond ASCII is not found by the name itself (`tableKind?_inherited`).
-/

namespace AblAnalysis

namespace Resolver

variable {r : Resolver}

/-! ### The class of the unit -/

/-- A unit whose class was known when it was begun, and is the same now, inherits what it reaches. -/
theorem inherits_iff_reaches {schema : Schema} {infos : List ClassInfo} {before after : List Change}
    {change : Change} {className b : String} {info : ClassInfo}
    (hbegun : change.begunClass? = some className)
    (hknown : ((start schema infos).run before).catalog.find? (dequote className) = some info)
    (hlast : ∀ later ∈ after, later.begunClass? = none)
    (hsame : ((start schema infos).run (before ++ change :: after)).catalog.find? (dequote className) =
      some info) :
    let r := (start schema infos).run (before ++ change :: after)
    r.Inherits b ↔ ∃ a, r.catalog.Reaches info a ∧
      ∃ buffer ∈ a.buffers, Text.equalIgnoringAsciiCase buffer (Text.lowercase b) = true := by
  intro r
  have hclass : r.root.classInfo = some info := by
    simp only [r, run_append]
    exact (classInfo_run hlast).trans ((step_of_begunClass? hbegun).1.trans hknown)
  have hnamed : r.catalog.Named := named_run (Catalog.named_injectAll infos) _
  have hname : info.name = dequote className := hnamed _ _ hsame
  have hself : r.catalog.find? info.name = some info := hname ▸ hsame
  simp only [Inherits, hclass, Option.some.injEq, exists_and_left, exists_eq_left',
    Catalog.reaches_iff hnamed hself]

/-! ### Inherited buffers -/

/-- A buffer that the class of the unit lists, or one that it reaches, is found by its name if lower-casing
the name changes nothing but ASCII letters. Any name that no scope has is found just when one of these
classes has a buffer that equals its lower-case form up to the case of ASCII letters, or the name stands
for something without being declared. -/
theorem tableKind?_inherited (schema : Schema) (infos : List ClassInfo) (before after : List Change)
    (change : Change) (className b : String) (info : ClassInfo)
    (hbegun : change.begunClass? = some className)
    (hknown : ((start schema infos).run before).catalog.find? (dequote className) = some info)
    (hlast : ∀ later ∈ after, later.begunClass? = none)
    (hsame : ((start schema infos).run (before ++ change :: after)).catalog.find? (dequote className) =
      some info)
    (hdot : '.' ∉ b.toList)
    (hundeclared : ∀ s ∈ ((start schema infos).run (before ++ change :: after)).chain,
      s.table? b = none) :
    let r := (start schema infos).run (before ++ change :: after)
    (∀ a, r.catalog.Reaches info a → b ∈ a.buffers →
      (∀ c ∈ b.toList, c.toNat < 0x80 ∨ Text.Settled c) →
        r.tableKind? b .scopeFirst = some .temporary) ∧
    ((r.tableKind? b .scopeFirst).isSome = true ↔
      (∃ a, r.catalog.Reaches info a ∧
        ∃ buffer ∈ a.buffers, Text.equalIgnoringAsciiCase buffer (Text.lowercase b) = true) ∨
      (undeclared? schema b).isSome = true) := by
  intro r
  have hinherits : r.Inherits b ↔ ∃ a, r.catalog.Reaches info a ∧
      ∃ buffer ∈ a.buffers, Text.equalIgnoringAsciiCase buffer (Text.lowercase b) = true :=
    inherits_iff_reaches hbegun hknown hlast hsame
  have hnamed : r.catalog.Named := named_run (Catalog.named_injectAll infos) _
  obtain ⟨hsome, hnone⟩ := tableKind?_of_absent hnamed hdot hundeclared
  have hschema : undeclared? r.schema b = undeclared? schema b :=
    undeclared?_congr (allTables_run _ _) hdot
  refine ⟨fun a hreach hmem hplain => hsome (hinherits.2 ⟨a, hreach, b, hmem, ?_⟩), ?_⟩
  · exact (Text.equalIgnoringAsciiCase_lowercase_iff b).2 hplain
  · rw [← hinherits, ← hschema]
    by_cases h : r.Inherits b
    · simp [hsome h, h]
    · simp [hnone h, h]

/-- Classes of which one inherits the buffers of the other. -/
def sampleClasses : List ClassInfo :=
  [{ name := "Base", buffers := ["ttItem", "\u00C4b"] }, { name := "Sub", parent := some "Base" }]

/-- A unit of the class that inherits them. -/
def sampleSub : Resolver :=
  (start {} sampleClasses).run ([] ++ .defineClass "Sub" :: [.openScope none])

theorem reaches_sampleSub : sampleSub.catalog.Reaches { name := "Sub", parent := some "Base" }
    { name := "Base", buffers := ["ttItem", "\u00C4b"] } :=
  .single ⟨"Base", rfl, by decide, by decide +kernel⟩

/-- The inherited buffer is found. -/
theorem tableKind?_ttItem :
    Change.begunClass? (.defineClass "Sub") = some "Sub" ∧
    sampleSub.catalog.find? "Sub" = some { name := "Sub", parent := some "Base" } ∧
    (∀ s ∈ sampleSub.chain, s.table? "ttItem" = none) ∧
    sampleSub.tableKind? "ttItem" .scopeFirst = some .temporary := by
  have hfound : sampleSub.catalog.find? "Sub" = some { name := "Sub", parent := some "Base" } := by
    decide +kernel
  have habsent : ∀ s ∈ sampleSub.chain, s.table? "ttItem" = none := by decide +kernel
  have hascii : "ttItem".toList.all (fun c => decide (c.toNat < 0x80)) = true := by decide
  refine ⟨rfl, hfound, habsent, ?_⟩
  exact (tableKind?_inherited {} sampleClasses [] [.openScope none] (.defineClass "Sub") "Sub" "ttItem"
    { name := "Sub", parent := some "Base" } rfl (by decide +kernel) (by simp [Change.begunClass?])
    hfound (by decide) habsent).1 _ reaches_sampleSub (by decide)
    fun c hc => .inl (of_decide_eq_true (List.all_eq_true.1 hascii c hc))

/-- A buffer with a capital beyond ASCII is listed and stands for nothing. -/
theorem tableKind?_capital :
    sampleSub.root.classInfo = some { name := "Sub", parent := some "Base" } ∧
    (∃ a, sampleSub.catalog.Reaches { name := "Sub", parent := some "Base" } a ∧
      "\u00C4b" ∈ a.buffers) ∧
    (∀ s ∈ sampleSub.chain, s.table? "\u00C4b" = none) ∧
    sampleSub.tableKind? "\u00C4b" .scopeFirst = none := by
  have hundeclared : undeclared? sampleSub.schema "\u00C4b" = none := by
    rw [sampleSub, undeclared?_congr (allTables_run (start {} sampleClasses) _) (by decide), start]
    exact undeclared?_empty (by decide) (by decide +kernel)
  refine ⟨by decide +kernel, ⟨_, reaches_sampleSub, by decide⟩, by decide +kernel, ?_⟩
  rw [tableKind?_scopeFirst (by decide), hundeclared]
  decide +kernel

end Resolver

end AblAnalysis
