import AblAnalysis.Text.Lowercase
import AblAnalysis.Text.Pieces
import Mathlib

/-!
What lower-casing gives. Every character of a lower-case form is settled: it is its own lower-case form
wherever it stands, so lower-casing a text a second time changes nothing (`lowercase_lowercase`). No
other character becomes a dot, so a name has as many parts as before. The parts are lower-cased as if
each stood alone, except that a capital sigma looks past the dots around it.
-/

namespace AblAnalysis.Text

/-- Whether a character is its own lower-case form wherever it stands. -/
structure Settled (c : Char) : Prop where
  notDotted : c ≠ '\u0130'
  notSigma : c ≠ '\u03A3'
  own : lowerChar c = c

/-! ### The table of lower-case forms -/

/-- Whether a code point lies behind the ASCII capitals and what follows them up to the small letters, and
has no lower-case form but itself. -/
structure IsLowered (n : Nat) : Prop where
  valid : n.isValidChar
  above : 0x60 < n
  notDotted : n ≠ 0x130
  notSigma : n ≠ 0x3A3
  uncovered : ∀ r ∈ lowerRanges, r.covers n = false

/-- Whether a range has none of the code points from `low` to `high`: it lies apart from them, or they
are all as even as `low` (`everySecond`) and those of the range are not. -/
def CaseRange.misses (low high : Nat) (everySecond : Bool) (r : CaseRange) : Bool :=
  Nat.ble (high + 1) r.first || Nat.ble (r.last + 1) low ||
    (Nat.beq r.stride 2 && everySecond && Nat.beq ((low + r.first) % 2) 1)

/-- No range has a code point that is the lower-case form of another. -/
theorem lowerRanges_misses : lowerRanges.all (fun r => lowerRanges.all (CaseRange.misses
    (r.first + r.shift).toNat (r.last + r.shift).toNat
    (r.stride == 2 || r.first == r.last))) = true := by
  decide +kernel

theorem lowerRanges_bounds : ∀ r ∈ lowerRanges, 0x60 < r.first + r.shift ∧
    (r.last + r.shift < 0x130 ∨ 0x130 < r.first + r.shift) ∧
    (r.last + r.shift < 0x3A3 ∨ 0x3A3 < r.first + r.shift) ∧
    (r.last + r.shift < 0xD800 ∨ 0xDFFF < r.first + r.shift) ∧ r.last + r.shift < 0x110000 := by
  decide +kernel

theorem CaseRange.covers_iff {r : CaseRange} {n : Nat} :
    r.covers n = true ↔ r.first ≤ n ∧ n ≤ r.last ∧ (n - r.first) % r.stride = 0 := by
  simp [covers, and_assoc]

theorem isLowered_shift {r : CaseRange} (hr : r ∈ lowerRanges) {n : Nat} (hn : r.covers n = true) :
    IsLowered ((n : Int) + r.shift).toNat := by
  obtain ⟨habove, hdotted, hsigma, hsurrogate, hlast⟩ := lowerRanges_bounds r hr
  obtain ⟨hfirst, hle, hstride⟩ := CaseRange.covers_iff.1 hn
  refine ⟨?_, by omega, by omega, by omega, fun s hs => ?_⟩
  · rw [Nat.isValidChar]
    omega
  · have hmiss := List.all_eq_true.1 (List.all_eq_true.1 lowerRanges_misses r hr) s hs
    rw [← Bool.not_eq_true, CaseRange.covers_iff]
    rintro ⟨hfirst', hle', hstride'⟩
    simp only [CaseRange.misses, Bool.or_eq_true, Bool.and_eq_true, Nat.ble_eq, Nat.beq_eq,
      beq_iff_eq] at hmiss
    rcases hmiss with (hmiss | hmiss) | ⟨⟨htwo, hsecond⟩, hodd⟩
    · omega
    · omega
    · rw [htwo] at hstride'
      rcases hsecond with hsecond | hsecond
      · rw [hsecond] at hstride
        omega
      · omega

/-! ### Characters -/

theorem isUpper_iff {c : Char} : c.isUpper = true ↔ 0x41 ≤ c.toNat ∧ c.toNat ≤ 0x5A := by
  simp [Char.isUpper, UInt32.le_iff_toNat_le]

theorem toNat_toLower (c : Char) :
    c.toLower.toNat = if 0x41 ≤ c.toNat ∧ c.toNat ≤ 0x5A then c.toNat + 0x20 else c.toNat := by
  by_cases h : c.isUpper
  · have hrange := isUpper_iff.1 h
    have hvalid : (c.toNat + 32).isValidChar := by
      rw [Nat.isValidChar]
      omega
    rw [Char.toLower_eq_of_isUpper h, Char.toNat_ofNat, if_pos hvalid, if_pos hrange]
  · rw [Char.toLower_eq_of_not_isUpper h, if_neg (mt isUpper_iff.2 h)]

theorem toLower_of_gt {c : Char} (h : 0x5A < c.toNat) : c.toLower = c :=
  Char.toLower_eq_of_not_isUpper fun hupper => by
    have hrange := isUpper_iff.1 hupper
    omega

theorem IsLowered.toNat_ofNat {n : Nat} (h : IsLowered n) : (Char.ofNat n).toNat = n := by
  rw [Char.toNat_ofNat, if_pos h.valid]

theorem settled_of_isLowered {n : Nat} (h : IsLowered n) : Settled (Char.ofNat n) := by
  have hn := h.toNat_ofNat
  refine ⟨?_, ?_, ?_⟩
  · intro heq
    exact h.notDotted (hn ▸ congrArg Char.toNat heq)
  · intro heq
    exact h.notSigma (hn ▸ congrArg Char.toNat heq)
  · rw [lowerChar]
    split
    · have habove := h.above
      exact toLower_of_gt (by omega)
    · rw [List.find?_eq_none.2 fun r hr => by rw [hn, h.uncovered r hr]; simp]

/-- The lower-case form of a character is that of an ASCII letter, one from the table or the character
itself. -/
theorem lowerChar_cases (c : Char) : c.toNat < 0x80 ∧ lowerChar c = c.toLower ∨
    (∃ n, IsLowered n ∧ lowerChar c = Char.ofNat n) ∨ lowerChar c = c := by
  rw [lowerChar]
  split
  · exact .inl ⟨‹_›, rfl⟩
  · split
    · rename_i r hr
      have hcovers : r.covers c.toNat = true := by simpa using List.find?_some hr
      exact .inr (.inl ⟨_, isLowered_shift (List.mem_of_find?_eq_some hr) hcovers, rfl⟩)
    · exact .inr (.inr rfl)

theorem settled_lowerChar {c : Char} (hdotted : c ≠ '\u0130') (hsigma : c ≠ '\u03A3') :
    Settled (lowerChar c) := by
  rcases lowerChar_cases c with ⟨hascii, heq⟩ | ⟨n, hn, heq⟩ | heq
  · have hnat := toNat_toLower c
    have hlt : c.toLower.toNat < 0x80 := by
      split at hnat <;> omega
    rw [heq]
    refine ⟨?_, ?_, ?_⟩
    · intro h
      rw [h] at hlt
      exact absurd hlt (by decide)
    · intro h
      rw [h] at hlt
      exact absurd hlt (by decide)
    · rw [lowerChar, if_pos hlt, Char.toLower_toLower_eq_toLower]
  · rw [heq]
    exact settled_of_isLowered hn
  · rw [heq]
    exact ⟨hdotted, hsigma, heq⟩

/-- No other character becomes an ASCII character that is not a letter. -/
theorem lowerChar_eq_iff {d : Char} (hd : d.toNat < 0x41 ∨ 0x5A < d.toNat ∧ d.toNat < 0x61)
    (c : Char) : lowerChar c = d ↔ c = d := by
  constructor
  · intro heq
    rcases lowerChar_cases c with ⟨-, hlower⟩ | ⟨n, hn, hlower⟩ | hlower
    · have hnat := toNat_toLower c
      rw [← hlower, heq] at hnat
      rw [← Char.toNat_inj]
      split at hnat <;> omega
    · have hval : n = d.toNat := by rw [← hn.toNat_ofNat, ← hlower, heq]
      have habove := hn.above
      omega
    · exact hlower.symm.trans heq
  · rintro rfl
    have hascii : c.toNat < 0x80 := by omega
    rw [lowerChar, if_pos hascii, Char.toLower_eq_of_not_isUpper]
    rw [isUpper_iff]
    omega

theorem lowerChar_eq_dot_iff (c : Char) : lowerChar c = '.' ↔ c = '.' :=
  lowerChar_eq_iff (.inl (by decide)) c

theorem Settled.lowerAt_eq {c : Char} (h : Settled c) (before after : List Char) :
    lowerAt before c after = [c] := by
  rw [lowerAt, if_neg h.notDotted, if_neg h.notSigma, h.own]

theorem settled_of_mem_lowerAt {before after : List Char} {c d : Char}
    (hd : d ∈ lowerAt before c after) : Settled d := by
  have hall : ['i', '\u0307', '\u03C2', '\u03C3'].all (fun e =>
      decide (e ≠ '\u0130' ∧ e ≠ '\u03A3' ∧ lowerChar e = e)) = true := by decide +kernel
  have hsmall : ∀ e ∈ ['i', '\u0307', '\u03C2', '\u03C3'], Settled e := by
    intro e he
    obtain ⟨hdotted, hsigma, hown⟩ := of_decide_eq_true (List.all_eq_true.1 hall e he)
    exact ⟨hdotted, hsigma, hown⟩
  rw [lowerAt] at hd
  split at hd
  · have hparts : d = 'i' ∨ d = '\u0307' := by simpa using hd
    rcases hparts with rfl | rfl <;> exact hsmall _ (by simp)
  · split at hd
    · split at hd <;> exact hsmall d (by simp_all)
    · rw [List.mem_singleton.1 hd]
      exact settled_lowerChar ‹_› ‹_›

theorem dot_mem_lowerAt_iff {before after : List Char} {c : Char} :
    '.' ∈ lowerAt before c after ↔ c = '.' := by
  rw [lowerAt]
  split
  · rename_i h
    simp [h]
  · split
    · rename_i h
      split <;> simp [h]
    · rw [List.mem_singleton, eq_comm, lowerChar_eq_dot_iff]

/-! ### Texts -/

theorem lowerFrom_eq (done before cs : List Char) :
    lowerFrom done before cs = done.reverse ++ lowerFrom [] before cs := by
  induction cs generalizing done before with
  | nil => simp [lowerFrom]
  | cons c rest ih =>
    rw [lowerFrom, ih, lowerFrom, ih ((lowerAt before c rest).reverse ++ [])]
    simp

theorem lowerFrom_cons (before rest : List Char) (c : Char) :
    lowerFrom [] before (c :: rest) = lowerAt before c rest ++ lowerFrom [] (c :: before) rest := by
  rw [lowerFrom, lowerFrom_eq]
  simp

theorem toList_lowercase (s : String) : (lowercase s).toList = lowerFrom [] [] s.toList :=
  String.toList_ofList

theorem settled_of_mem_lowerFrom {before cs : List Char} {d : Char}
    (hd : d ∈ lowerFrom [] before cs) : Settled d := by
  induction cs generalizing before with
  | nil => exact absurd hd List.not_mem_nil
  | cons c rest ih =>
    rw [lowerFrom_cons] at hd
    rcases List.mem_append.1 hd with hd | hd
    · exact settled_of_mem_lowerAt hd
    · exact ih hd

theorem lowerFrom_of_settled {cs : List Char} (h : ∀ c ∈ cs, Settled c) (before : List Char) :
    lowerFrom [] before cs = cs := by
  induction cs generalizing before with
  | nil => rfl
  | cons c rest ih =>
    rw [lowerFrom_cons, (h c (List.mem_cons_self ..)).lowerAt_eq,
      ih fun d hd => h d (List.mem_cons_of_mem _ hd)]
    rfl

/-- A lower-case form is its own lower-case form. -/
@[simp] theorem lowercase_lowercase (s : String) : lowercase (lowercase s) = lowercase s := by
  rw [lowercase, toList_lowercase, lowerFrom_of_settled fun _ hd => settled_of_mem_lowerFrom hd]
  rfl

/-! ### ASCII letters -/

/-- An ASCII character or settled one changes no more than the case of an ASCII letter. -/
theorem exists_lowerAt_of_ascii (before after : List Char) {c : Char}
    (h : c.toNat < 0x80 ∨ Settled c) : ∃ d, lowerAt before c after = [d] ∧ d.toLower = c.toLower := by
  rcases h with hascii | hsettled
  · refine ⟨c.toLower, ?_, Char.toLower_toLower_eq_toLower c⟩
    rw [lowerAt, if_neg, if_neg, lowerChar, if_pos hascii]
    · rintro rfl
      exact absurd hascii (by decide)
    · rintro rfl
      exact absurd hascii (by decide)
  · exact ⟨c, hsettled.lowerAt_eq before after, rfl⟩

/-- Every other character becomes one that is not even equal up to the case of ASCII letters. -/
theorem exists_lowerAt_of_not_ascii (before after : List Char) {c : Char}
    (h : ¬ (c.toNat < 0x80 ∨ Settled c)) :
    ∃ d rest, lowerAt before c after = d :: rest ∧ d.toLower ≠ c.toLower := by
  obtain ⟨hascii, hsettled⟩ := not_or.1 h
  by_cases hdotted : c = '\u0130'
  · subst hdotted
    exact ⟨_, _, by rw [lowerAt, if_pos rfl], by decide⟩
  by_cases hsigma : c = '\u03A3'
  · subst hsigma
    rw [lowerAt, if_neg hdotted, if_pos rfl]
    split <;> exact ⟨_, _, rfl, by decide⟩
  have hne : lowerChar c ≠ c := fun hown => hsettled ⟨hdotted, hsigma, hown⟩
  refine ⟨lowerChar c, [], by rw [lowerAt, if_neg hdotted, if_neg hsigma], ?_⟩
  rw [toLower_of_gt (c := c) (by omega)]
  rcases lowerChar_cases c with ⟨hlt, -⟩ | ⟨n, hn, heq⟩ | heq
  · exact absurd hlt hascii
  · rwa [toLower_of_gt]
    have habove := hn.above
    rw [heq, hn.toNat_ofNat]
    omega
  · exact absurd heq hne

theorem map_toLower_lowerFrom_iff (before cs : List Char) :
    cs.map Char.toLower = (lowerFrom [] before cs).map Char.toLower ↔
      ∀ c ∈ cs, c.toNat < 0x80 ∨ Settled c := by
  induction cs generalizing before with
  | nil => simp [lowerFrom]
  | cons c rest ih =>
    rw [lowerFrom_cons, List.forall_mem_cons]
    by_cases hc : c.toNat < 0x80 ∨ Settled c
    · obtain ⟨d, heq, hlower⟩ := exists_lowerAt_of_ascii before rest hc
      rw [heq, ← ih (c :: before)]
      simp [hc, hlower]
    · obtain ⟨d, tail, heq, hlower⟩ := exists_lowerAt_of_not_ascii before rest hc
      rw [heq]
      simp [hc, Ne.symm hlower]

/-- A text and its lower-case form are equal up to the case of ASCII letters if all other characters of
the text are settled, and only then. -/
theorem equalIgnoringAsciiCase_lowercase_iff (s : String) :
    equalIgnoringAsciiCase s (lowercase s) = true ↔ ∀ c ∈ s.toList, c.toNat < 0x80 ∨ Settled c := by
  rw [equalIgnoringAsciiCase, beq_iff_eq, toList_lowercase, map_toLower_lowerFrom_iff]

/-! ### First characters -/

/-- What a character becomes is not empty, and begins with an ASCII character that is not a letter only if
the character is that one. -/
theorem exists_lowerAt_iff {d : Char} (hd : d.toNat < 0x41 ∨ 0x5A < d.toNat ∧ d.toNat < 0x61)
    (before after : List Char) (c : Char) :
    ∃ e rest, lowerAt before c after = e :: rest ∧ (e = d ↔ c = d) := by
  have hne {e : Char} (he : 0x60 < e.toNat) : e ≠ d := by
    rintro rfl
    omega
  rw [lowerAt]
  split
  next hdotted =>
    subst hdotted
    exact ⟨_, _, rfl, iff_of_false (hne (by decide)) (hne (by decide))⟩
  split
  next hsigma =>
    subst hsigma
    split
    · exact ⟨_, _, rfl, iff_of_false (hne (by decide)) (hne (by decide))⟩
    · exact ⟨_, _, rfl, iff_of_false (hne (by decide)) (hne (by decide))⟩
  · exact ⟨_, _, rfl, lowerChar_eq_iff hd c⟩

/-- A lower-case form begins with an ASCII character that is not a letter where the text does. -/
theorem head?_lowercase_eq_iff {d : Char}
    (hd : d.toNat < 0x41 ∨ 0x5A < d.toNat ∧ d.toNat < 0x61) (s : String) :
    (lowercase s).toList.head? = some d ↔ s.toList.head? = some d := by
  rw [toList_lowercase]
  cases s.toList with
  | nil => rfl
  | cons c cs =>
    obtain ⟨e, rest, heq, hiff⟩ := exists_lowerAt_iff hd [] cs c
    rw [lowerFrom_cons, heq, List.cons_append, List.head?_cons, List.head?_cons, Option.some_inj,
      Option.some_inj, hiff]

theorem lowercase_eq_empty_iff (s : String) : lowercase s = "" ↔ s = "" := by
  rw [← String.toList_eq_nil_iff, toList_lowercase, ← String.toList_eq_nil_iff]
  cases s.toList with
  | nil => exact iff_of_true rfl rfl
  | cons c cs =>
    obtain ⟨e, rest, heq, -⟩ := exists_lowerAt_iff (d := '_') (by decide) [] cs c
    rw [lowerFrom_cons, heq]
    simp

/-! ### Dots -/

theorem dot_mem_lowerFrom_iff {before cs : List Char} : '.' ∈ lowerFrom [] before cs ↔ '.' ∈ cs := by
  induction cs generalizing before with
  | nil => rfl
  | cons c rest ih =>
    rw [lowerFrom_cons, List.mem_append, dot_mem_lowerAt_iff, ih, List.mem_cons, eq_comm]

/-- A lower-case form has dots where the text has some. -/
@[simp] theorem dot_mem_lowercase_iff (s : String) :
    '.' ∈ (lowercase s).toList ↔ '.' ∈ s.toList := by
  rw [toList_lowercase, dot_mem_lowerFrom_iff]

/-- Only a capital sigma depends on what stands around it. -/
theorem lowerFrom_eq_flatMap {cs : List Char} (h : '\u03A3' ∉ cs) (before : List Char) :
    lowerFrom [] before cs = cs.flatMap (fun c => lowerAt [] c []) := by
  induction cs generalizing before with
  | nil => rfl
  | cons c rest ih =>
    simp only [List.mem_cons, not_or] at h
    rw [lowerFrom_cons, ih h.2, List.flatMap_cons, lowerAt, lowerAt]
    simp only [if_neg (Ne.symm h.1)]

/-- What comes before the first dot becomes what comes before it, and the same for the rest. -/
theorem span_dot_flatMap (cs : List Char) :
    (cs.flatMap (fun c => lowerAt [] c [])).takeWhile (· != '.') =
        (cs.takeWhile (· != '.')).flatMap (fun c => lowerAt [] c []) ∧
      (cs.flatMap (fun c => lowerAt [] c [])).dropWhile (· != '.') =
        (cs.dropWhile (· != '.')).flatMap (fun c => lowerAt [] c []) := by
  induction cs with
  | nil => exact ⟨rfl, rfl⟩
  | cons c rest ih =>
    rw [List.flatMap_cons]
    by_cases hc : c = '.'
    · subst hc
      exact ⟨rfl, rfl⟩
    · have hnone : ∀ d ∈ lowerAt [] c [], (d != '.') = true := by
        rintro d hd
        rw [bne_iff_ne]
        rintro rfl
        exact hc (dot_mem_lowerAt_iff.1 hd)
      rw [List.takeWhile_append_of_pos hnone, List.dropWhile_append_of_pos hnone, ih.1, ih.2,
        List.takeWhile_cons_of_pos (by simpa using hc), List.dropWhile_cons_of_pos (by simpa using hc),
        List.flatMap_cons]
      exact ⟨rfl, rfl⟩

theorem beforeFirst_lowercase {s : String} (h : '\u03A3' ∉ s.toList) :
    beforeFirst '.' (lowercase s) = lowercase (beforeFirst '.' s) := by
  have hbefore : '\u03A3' ∉ s.toList.takeWhile (· != '.') := fun hmem =>
    h ((List.takeWhile_sublist _).subset hmem)
  rw [beforeFirst, beforeFirst, toList_lowercase, lowerFrom_eq_flatMap h, (span_dot_flatMap _).1,
    lowercase, String.toList_ofList, lowerFrom_eq_flatMap hbefore]

/-- A text without capital sigmas is lower-cased part by part. -/
theorem cutFirst_lowercase {s : String} (h : '\u03A3' ∉ s.toList) : cutFirst '.' (lowercase s) =
    (cutFirst '.' s).map (fun parts => (lowercase parts.1, lowercase parts.2)) := by
  have hbefore : '\u03A3' ∉ s.toList.takeWhile (· != '.') := fun hmem =>
    h ((List.takeWhile_sublist _).subset hmem)
  have hafter : '\u03A3' ∉ s.toList.dropWhile (· != '.') := fun hmem =>
    h ((List.dropWhile_sublist _).subset hmem)
  have hhead : ∀ c rest, s.toList.dropWhile (· != '.') = c :: rest → c = '.' := by
    intro c rest heq
    have hstop := List.head?_dropWhile_not (· != '.') s.toList
    rw [heq] at hstop
    simpa using hstop
  rw [cutFirst, cutFirst, toList_lowercase, lowerFrom_eq_flatMap h, (span_dot_flatMap _).1,
    (span_dot_flatMap _).2]
  cases hdrop : s.toList.dropWhile (· != '.') with
  | nil => rfl
  | cons c rest =>
    obtain rfl := hhead c rest hdrop
    rw [hdrop] at hafter
    simp only [lowercase, String.toList_ofList, Option.map_some, lowerFrom_eq_flatMap hbefore,
      lowerFrom_eq_flatMap (List.not_mem_of_not_mem_cons hafter)]
    rfl

end AblAnalysis.Text
