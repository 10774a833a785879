/-!
Lists in the order of a key, searched by halving what is left. The elements whose keys are below a target
stand in front of the others, and the search ends between the two parts (`ceiling_spec`), which is where
an element with a new key is put.
-/

namespace AblAnalysis.Bisection

/-- The first number from `lo` to `hi` that is not below, when those that are come first. -/
def boundary (below : Nat → Bool) (lo hi : Nat) : Nat :=
  if lo < hi then
    let mid := lo + (hi - lo) / 2
    if below mid then boundary below (mid + 1) hi else boundary below lo mid
  else lo
termination_by hi - lo

theorem boundary_spec {below : Nat → Bool} {lo hi : Nat} (hle : lo ≤ hi)
    (hfront : ∀ i j, i ≤ j → j < hi → below j = true → below i = true) :
    boundary below lo hi ≤ hi ∧ (∀ i, lo ≤ i → i < boundary below lo hi → below i = true) ∧
      ∀ i, boundary below lo hi ≤ i → i < hi → below i = false := by
  fun_induction boundary below lo hi with
  | case1 lo hi hlt mid hmid ih =>
    obtain ⟨hend, hbelow, hrest⟩ := ih (by omega) hfront
    refine ⟨hend, fun i hi hi' => ?_, hrest⟩
    by_cases hi'' : i ≤ mid
    · exact hfront i mid hi'' (by omega) hmid
    · exact hbelow i (by omega) hi'
  | case2 lo hi hlt mid hmid ih =>
    obtain ⟨hend, hbelow, hrest⟩ := ih (by omega) fun i j hij hj => hfront i j hij (by omega)
    refine ⟨by omega, hbelow, fun i hi hi' => ?_⟩
    by_cases hi'' : i < mid
    · exact hrest i hi hi''
    · exact Bool.eq_false_iff.2 fun hbelow' => hmid (hfront mid i (by omega) hi' hbelow')
  | case3 lo hi hge => exact ⟨by omega, fun i hi hi' => by omega, fun i hi hi' => by omega⟩

variable {α : Type}

/-- The first place in a list where the key is not below `target`. -/
def ceiling (key : α → String) (target : String) (xs : List α) : Nat :=
  boundary (fun i => xs[i]?.any (fun x => key x < target)) 0 xs.length

/-- Where a key is in a list, or where it belongs. -/
inductive Slot where
  | taken (place : Nat)
  | free (place : Nat)
  deriving Repr, DecidableEq

/-- The place of an element with the key `target`, or else the place for one. -/
def locate (key : α → String) (target : String) (xs : List α) : Slot :=
  let place := ceiling key target xs
  match xs[place]? with
  | some x => if key x = target then .taken place else .free place
  | none => .free place

/-- The element with the key `target`. -/
def find? (key : α → String) (target : String) (xs : List α) : Option α :=
  match locate key target xs with
  | .taken place => xs[place]?
  | .free _ => none

/-- Puts an element at a place, in front of what is there. -/
def insertAt (place : Nat) (x : α) (xs : List α) : List α :=
  xs.take place ++ x :: xs.drop place

/-! ### Lists in order -/

variable {key : α → String} {target : String} {xs : List α}

/-- In a list in order, all keys in front of the ceiling are below the target and none after it is. -/
theorem ceiling_spec (h : xs.Pairwise (fun a b => ¬ key b < key a)) (target : String) :
    (∀ x ∈ xs.take (ceiling key target xs), key x < target) ∧
      ∀ x ∈ xs.drop (ceiling key target xs), ¬ key x < target := by
  have hfront : ∀ i j, i ≤ j → j < xs.length →
      xs[j]?.any (fun x => key x < target) = true → xs[i]?.any (fun x => key x < target) = true := by
    intro i j hij hj hbelow
    rcases Nat.lt_or_eq_of_le hij with hij | rfl
    · have hle : ¬ key xs[j] < key xs[i] := List.pairwise_iff_getElem.1 h i j (by omega) hj hij
      simp only [List.getElem?_eq_getElem hj, Option.any_some, decide_eq_true_eq] at hbelow
      simp only [List.getElem?_eq_getElem (show i < xs.length by omega), Option.any_some,
        decide_eq_true_eq]
      exact Std.lt_of_le_of_lt (Std.not_lt.1 hle) hbelow
    · exact hbelow
  obtain ⟨-, hbelow, hrest⟩ := boundary_spec (Nat.zero_le _) hfront
  constructor
  · intro x hx
    obtain ⟨i, hi, rfl⟩ := List.mem_iff_getElem.1 hx
    rw [List.length_take] at hi
    have hlt := hbelow i (Nat.zero_le i) (by unfold ceiling at hi; omega)
    rw [List.getElem?_eq_getElem (by omega)] at hlt
    rw [List.getElem_take]
    simpa using hlt
  · intro x hx
    obtain ⟨i, hi, rfl⟩ := List.mem_iff_getElem.1 hx
    rw [List.length_drop] at hi
    have hnot := hrest (ceiling key target xs + i) (Nat.le_add_right ..) (by omega)
    rw [List.getElem?_eq_getElem (by omega)] at hnot
    rw [List.getElem_drop]
    simpa using hnot

theorem getElem?_of_locate_taken {place : Nat} (h : locate key target xs = .taken place) :
    ∃ x, xs[place]? = some x ∧ key x = target := by
  rw [locate] at h
  split at h
  · rename_i x hx
    split at h
    · rename_i hkey
      cases h
      exact ⟨x, hx, hkey⟩
    · cases h
  · cases h

theorem eq_ceiling_of_locate_free {place : Nat} (h : locate key target xs = .free place) :
    place = ceiling key target xs ∧ ∀ x, xs[place]? = some x → key x ≠ target := by
  rw [locate] at h
  split at h
  · rename_i x hx
    split at h
    · cases h
    · rename_i hkey
      cases h
      refine ⟨rfl, fun y hy => ?_⟩
      rwa [← Option.some.inj (hx.symm.trans hy)]
  · rename_i hnone
    cases h
    exact ⟨rfl, fun y hy => absurd (hnone.symm.trans hy) (by simp)⟩

/-- Where a key belongs in a list in strict order, it stands between those in front and those behind. -/
theorem locate_free_spec (h : xs.Pairwise (fun a b => key a < key b)) {place : Nat}
    (hfree : locate key target xs = .free place) :
    (∀ x ∈ xs.take place, key x < target) ∧ ∀ x ∈ xs.drop place, target < key x := by
  obtain ⟨rfl, hne⟩ := eq_ceiling_of_locate_free hfree
  obtain ⟨hfront, hrest⟩ := ceiling_spec (h.imp fun hlt => Std.not_lt.2 (Std.le_of_lt hlt)) target
  refine ⟨hfront, fun x hx => ?_⟩
  cases hdrop : xs.drop (ceiling key target xs) with
  | nil => exact absurd (hdrop ▸ hx) List.not_mem_nil
  | cons first rest =>
    have hhead : xs[ceiling key target xs]? = some first := by
      rw [← List.head?_drop, hdrop, List.head?_cons]
    have hfirst : target < key first :=
      Std.lt_of_le_of_ne (Std.not_lt.1 (hrest first (hdrop ▸ List.mem_cons_self ..)))
        (hne first hhead).symm
    have hdropped := h.drop (i := ceiling key target xs)
    rw [hdrop] at hx hdropped
    rcases List.mem_cons.1 hx with rfl | hx
    · exact hfirst
    · exact Std.lt_trans hfirst (List.rel_of_pairwise_cons hdropped hx)

/-- A key that belongs somewhere is that of no element. -/
theorem ne_of_locate_free (h : xs.Pairwise (fun a b => key a < key b)) {place : Nat}
    (hfree : locate key target xs = .free place) : ∀ x ∈ xs, key x ≠ target := by
  obtain ⟨hfront, hrest⟩ := locate_free_spec h hfree
  intro x hx
  rw [← List.take_append_drop place xs] at hx
  rcases List.mem_append.1 hx with hx | hx
  · exact Std.ne_of_lt (hfront x hx)
  · exact (Std.ne_of_lt (hrest x hx)).symm

theorem pairwise_insertAt {R : α → α → Prop} (h : xs.Pairwise R) {place : Nat} {x : α}
    (hfront : ∀ y ∈ xs.take place, R y x) (hrest : ∀ y ∈ xs.drop place, R x y) :
    (insertAt place x xs).Pairwise R := by
  rw [← List.take_append_drop place xs, List.pairwise_append] at h
  refine List.pairwise_append.2 ⟨h.1, List.pairwise_cons.2 ⟨hrest, h.2.1⟩, fun y hy z hz => ?_⟩
  rcases List.mem_cons.1 hz with rfl | hz
  · exact hfront y hy
  · exact h.2.2 y hy z hz

theorem perm_insertAt (place : Nat) (x : α) (xs : List α) : (insertAt place x xs).Perm (x :: xs) := by
  refine List.perm_middle.trans ?_
  rw [List.take_append_drop]

end AblAnalysis.Bisection
