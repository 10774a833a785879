import AblAnalysis.Schema.Abbreviation
import Mathlib.Data.Char

/-!
Unique abbreviations. Texts that begin alike stand together in the order of texts, so in a sorted list
the first candidate that is not below the abbreviation and the one after it tell all there is to know:
whether a candidate is named in full, and if none is, whether a single one is abbreviated. Candidates
that do not begin with the abbreviation change nothing (`uniqueMatch?_eq_of_filter_eq`).
-/

namespace AblAnalysis.Abbreviation

/-! ### Texts that begin alike -/

theorem not_lt_of_prefix {p c : List Char} (h : p <+: c) : ¬ c < p := by
  induction p generalizing c with
  | nil => exact List.not_lt_nil c
  | cons x p ih =>
    obtain ⟨rest, rfl⟩ := h
    rw [List.cons_append, List.cons_lt_cons_iff]
    rintro (hlt | ⟨-, hlt⟩)
    · exact lt_irrefl x hlt
    · exact ih (List.prefix_append p rest) hlt

/-- What stands between a text and one that begins with it begins with it. -/
theorem prefix_of_between {p b c : List Char} (h : p <+: c) (hb : ¬ b < p) (hc : ¬ c < b) :
    p <+: b := by
  induction p generalizing b c with
  | nil => exact List.nil_prefix
  | cons x p ih =>
    obtain ⟨rest, rfl⟩ := h
    cases b with
    | nil => exact absurd (List.nil_lt_cons x p) hb
    | cons y b =>
      rw [List.cons_lt_cons_iff, not_or, not_and] at hb
      rw [List.cons_append, List.cons_lt_cons_iff, not_or, not_and] at hc
      obtain rfl : x = y := le_antisymm (not_lt.1 hb.1) (not_lt.1 hc.1)
      exact List.cons_prefix_cons.2
        ⟨rfl, ih (List.prefix_append p rest) (hb.2 rfl) (hc.2 rfl)⟩

theorem beginsWith_iff {target s : String} : Text.beginsWith target s = true ↔
    target.toList <+: s.toList := by
  rw [Text.beginsWith, List.isPrefixOf_iff_prefix]

theorem beginsWith_self (s : String) : Text.beginsWith s s = true :=
  beginsWith_iff.2 List.prefix_rfl

theorem not_lt_of_beginsWith {target s : String} (h : Text.beginsWith target s = true) :
    ¬ s < target :=
  not_lt_of_prefix (beginsWith_iff.1 h)

theorem beginsWith_of_between {target s u : String} (h : Text.beginsWith target u = true)
    (hs : ¬ s < target) (hu : ¬ u < s) : Text.beginsWith target s = true :=
  beginsWith_iff.2 (prefix_of_between (beginsWith_iff.1 h) hs hu)

/-! ### What a name stands for among candidates -/

variable {α : Type} {key : α → String}

/-- Whether a result is the first candidate with a key, or if there is none, the only one whose key
begins with it. -/
structure Picks (key : α → String) (target : String) (candidates : List α) (result : Option α) :
    Prop where
  full : ∀ t, candidates.find? (fun c => key c == target) = some t → result = some t
  only : (∀ c ∈ candidates, key c ≠ target) →
    ∀ t, candidates.filter (fun c => Text.beginsWith target (key c)) = [t] → result = some t
  absent : (∀ c ∈ candidates, key c ≠ target) →
    (∀ t, candidates.filter (fun c => Text.beginsWith target (key c)) ≠ [t]) → result = none

theorem Picks.nil (target : String) : Picks key target ([] : List α) none where
  full t h := by simp at h
  only _ t h := by simp at h
  absent _ _ := rfl

/-- A candidate below the name does not matter. -/
theorem Picks.cons_of_lt {target : String} {c : α} {rest : List α} {result : Option α}
    (hc : key c < target) (h : Picks key target rest result) :
    Picks key target (c :: rest) result := by
  have hne : key c ≠ target := fun heq => String.lt_irrefl _ (heq ▸ hc)
  have hbegin : Text.beginsWith target (key c) = false := by
    rw [← Bool.not_eq_true]
    exact fun hb => not_lt_of_beginsWith hb hc
  have hfilter : (c :: rest).filter (fun c => Text.beginsWith target (key c)) =
      rest.filter (fun c => Text.beginsWith target (key c)) := by
    rw [List.filter_cons_of_neg (by simp [hbegin])]
  refine ⟨fun t ht => h.full t ?_, fun hall t ht => h.only ?_ t (hfilter ▸ ht),
    fun hall hnone => h.absent ?_ fun t => hfilter ▸ hnone t⟩
  · rwa [List.find?_cons_of_neg (by simpa using hne)] at ht
  · exact fun u hu => hall u (List.mem_cons_of_mem _ hu)
  · exact fun u hu => hall u (List.mem_cons_of_mem _ hu)

/-- Where a candidate that is not below the name does not begin with it, none after it does. -/
theorem filter_eq_nil {target : String} {c : α} {rest : List α}
    (hsorted : (c :: rest).Pairwise (fun a b => ¬ key b < key a)) (hc : ¬ key c < target)
    (hbegin : ¬ Text.beginsWith target (key c) = true) :
    (c :: rest).filter (fun c => Text.beginsWith target (key c)) = [] := by
  rw [List.filter_eq_nil_iff]
  intro u hu
  rcases List.mem_cons.1 hu with rfl | hu
  · exact hbegin
  · exact fun hb => hbegin (beginsWith_of_between hb hc (List.rel_of_pairwise_cons hsorted hu))

theorem Picks.append_of_lt {target : String} {front rest : List α} {result : Option α}
    (hfront : ∀ c ∈ front, key c < target) (h : Picks key target rest result) :
    Picks key target (front ++ rest) result := by
  induction front with
  | nil => exact h
  | cons c front ih =>
    exact .cons_of_lt (hfront c (List.mem_cons_self ..))
      (ih fun d hd => hfront d (List.mem_cons_of_mem _ hd))

theorem Picks.of_head {target : String} {c : α} {rest : List α} (hc : key c = target) :
    Picks key target (c :: rest) (some c) where
  full t ht := by rwa [List.find?_cons_of_pos (by simpa using hc)] at ht
  only hall := absurd hc (hall c (List.mem_cons_self ..))
  absent hall := absurd hc (hall c (List.mem_cons_self ..))

/-- The element of a list that has no other. -/
def single? : List α → Option α
  | [t] => some t
  | _ => none

/-- Where no candidate is named in full, the number of those that begin with the name decides. -/
theorem Picks.of_filter {target : String} {candidates found : List α}
    (hall : ∀ c ∈ candidates, key c ≠ target)
    (h : candidates.filter (fun c => Text.beginsWith target (key c)) = found) :
    Picks key target candidates (single? found) := by
  have hfind : candidates.find? (fun c => key c == target) = none :=
    List.find?_eq_none.2 fun c hc => by simpa using hall c hc
  refine ⟨fun t ht => ?_, fun _ t ht => ?_, fun _ hnone => ?_⟩
  · rw [hfind] at ht
    exact absurd ht (by simp)
  · rw [← h, ht]
    rfl
  · rw [h] at hnone
    match found with
    | [] => rfl
    | [t] => exact absurd rfl (hnone t)
    | _ :: _ :: _ => rfl

/-- The head of candidates that are not below the name decides, together with the one after it. -/
theorem picks_headMatch? {target : String} {candidates : List α}
    (hsorted : candidates.Pairwise (fun a b => ¬ key b < key a))
    (hge : ∀ c ∈ candidates, ¬ key c < target) :
    Picks key target candidates (headMatch? key target candidates) := by
  cases candidates with
  | nil => exact .nil target
  | cons c rest =>
  have hc : ¬ key c < target := hge c (List.mem_cons_self ..)
  rw [headMatch?.eq_def]
  dsimp only
  by_cases heq : key c = target
  · rw [heq, beginsWith_self, Bool.not_true, if_neg (by simp), if_pos rfl]
    exact .of_head heq
  have hfull : ∀ u ∈ c :: rest, key u ≠ target := by
    intro u hu hkey
    rcases List.mem_cons.1 hu with rfl | hu
    · exact heq hkey
    · have hle := List.rel_of_pairwise_cons hsorted hu
      rw [hkey] at hle
      exact heq (Std.le_antisymm (Std.not_lt.1 hle) (Std.not_lt.1 hc))
  by_cases hbegin : Text.beginsWith target (key c) = true
  · have hcons : (c :: rest).filter (fun c => Text.beginsWith target (key c)) =
        c :: rest.filter (fun c => Text.beginsWith target (key c)) :=
      List.filter_cons_of_pos hbegin
    rw [hbegin, Bool.not_true, if_neg (by simp), if_neg heq]
    cases rest with
    | nil => exact .of_filter hfull hcons
    | cons next rest =>
      by_cases hnext : Text.beginsWith target (key next) = true
      · have htwo : (next :: rest).filter (fun c => Text.beginsWith target (key c)) =
            next :: rest.filter (fun c => Text.beginsWith target (key c)) :=
          List.filter_cons_of_pos hnext
        rw [htwo] at hcons
        simp only [hnext, if_true]
        exact .of_filter hfull hcons
      · have hle : ¬ key next < target :=
          hge next (List.mem_cons_of_mem _ (List.mem_cons_self ..))
        rw [filter_eq_nil hsorted.of_cons hle hnext] at hcons
        simp only [if_neg hnext]
        exact .of_filter hfull hcons
  · have hnil := filter_eq_nil hsorted hc hbegin
    rw [Bool.not_eq_true] at hbegin
    rw [hbegin, Bool.not_false, if_pos rfl]
    exact .of_filter hfull hnil

/-- In a sorted list the search by halving finds what the name stands for. -/
theorem picks_uniqueMatch? {candidates : List α} (name : String)
    (hsorted : candidates.Pairwise (fun a b => ¬ key b < key a)) :
    Picks key (Text.lowercase name) candidates (uniqueMatch? key name candidates) := by
  obtain ⟨hfront, hrest⟩ := Bisection.ceiling_spec hsorted (Text.lowercase name)
  have hpicks := (picks_headMatch? (hsorted.sublist (List.drop_sublist _ _)) hrest).append_of_lt hfront
  rwa [List.take_append_drop] at hpicks

/-! ### Candidates that do not count -/

theorem find?_key_filter (target : String) (candidates : List α) :
    (candidates.filter (fun c => Text.beginsWith target (key c))).find? (fun c => key c == target) =
      candidates.find? (fun c => key c == target) := by
  rw [List.find?_filter]
  congr 1
  funext c
  by_cases hc : key c = target
  · simp [hc, beginsWith_self]
  · simp [hc]

/-- What a name stands for hangs on the candidates alone that begin with it. -/
theorem Picks.eq_of_filter_eq {target : String} {candidates others : List α} {result other : Option α}
    (h : Picks key target candidates result) (h' : Picks key target others other)
    (hfilter : candidates.filter (fun c => Text.beginsWith target (key c)) =
      others.filter (fun c => Text.beginsWith target (key c))) : result = other := by
  have hfind := congrArg (List.find? (fun c => key c == target)) hfilter
  rw [find?_key_filter, find?_key_filter] at hfind
  cases hfull : candidates.find? (fun c => key c == target) with
  | some t => rw [h.full t hfull, h'.full t (hfind ▸ hfull)]
  | none =>
    have hall : ∀ c ∈ candidates, key c ≠ target := by simpa using List.find?_eq_none.1 hfull
    have hfull' : others.find? (fun c => key c == target) = none := hfind.symm.trans hfull
    have hall' : ∀ c ∈ others, key c ≠ target := by simpa using List.find?_eq_none.1 hfull'
    by_cases hone : ∃ t, candidates.filter (fun c => Text.beginsWith target (key c)) = [t]
    · obtain ⟨t, ht⟩ := hone
      rw [h.only hall t ht, h'.only hall' t (hfilter ▸ ht)]
    · have hnone : ∀ t, candidates.filter (fun c => Text.beginsWith target (key c)) ≠ [t] :=
        fun t ht => hone ⟨t, ht⟩
      rw [h.absent hall hnone, h'.absent hall' (hfilter ▸ hnone)]

theorem uniqueMatch?_eq_of_filter_eq {candidates others : List α} (name : String)
    (hsorted : candidates.Pairwise (fun a b => ¬ key b < key a))
    (hsorted' : others.Pairwise (fun a b => ¬ key b < key a))
    (hfilter : candidates.filter (fun c => Text.beginsWith (Text.lowercase name) (key c)) =
      others.filter (fun c => Text.beginsWith (Text.lowercase name) (key c))) :
    uniqueMatch? key name candidates = uniqueMatch? key name others :=
  (picks_uniqueMatch? name hsorted).eq_of_filter_eq (picks_uniqueMatch? name hsorted') hfilter

end AblAnalysis.Abbreviation
