import AblAnalysis.Proofs.Text.Layout
import Mathlib.Data.List.DropRight

/-!
What the readers of text accept, said without them. A number literal is an optional sign and decimal
digits (`int32?_eq_some_iff`, `uint32?_eq_some_iff`); a bounded number of pieces are the first of all
pieces, and what is behind the last cut (`cutLimited_eq`); all pieces are those that make up the text and
hold no separator (`pieces_eq_iff`), so those of both sides of a separator (`pieces_append`); a cut is at the
first or last separator (`cutFirst_eq_some_iff`, `cutLast_eq_some_iff`); trimming drops blanks alone, and
nothing from a text without blanks at its ends (`mem_trim_iff`, `Unpadded.trim_eq`); and the lines before a
line are the lines of what stands before it in the text (`exists_lines_eq`).
-/

namespace AblAnalysis.Text

/-! ### Number literals -/

/-- Whether `cs` are decimal digits of the value `n`. -/
def IsDecimal (cs : List Char) (n : Nat) : Prop :=
  cs ≠ [] ∧ (∀ c ∈ cs, c.isDigit = true) ∧ Nat.ofDigitChars 10 cs 0 = n

/-- Whether `s` is an unsigned literal of the value `n`. -/
def IsUnsigned (s : String) (n : Nat) : Prop :=
  ∃ digits, IsDecimal digits n ∧ (s.toList = digits ∨ s.toList = '+' :: digits)

/-- Whether `s` is a signed literal of the value `z`. -/
def IsSigned (s : String) (z : Int) : Prop :=
  (∃ n : Nat, z = n ∧ IsUnsigned s n) ∨
    ∃ digits, ∃ n : Nat, z = -(n : Int) ∧ IsDecimal digits n ∧ s.toList = '-' :: digits

theorem digits?_eq_some_iff {cs : List Char} {n : Nat} : digits? cs = some n ↔ IsDecimal cs n := by
  rw [digits?, IsDecimal, ← Nat.ofDigitChars_eq_foldl]
  by_cases hnil : cs = []
  · simp [hnil]
  · by_cases hall : ∀ c ∈ cs, c.isDigit = true
    · simpa [hnil, List.all_eq_true.2 hall] using fun _ => hall
    · have hfalse : cs.all Char.isDigit = false := by
        rw [← Bool.not_eq_true, List.all_eq_true]
        exact hall
      simp [hnil, hfalse, hall]

theorem IsDecimal.isDigit_head {c : Char} {cs : List Char} {n : Nat} (h : IsDecimal (c :: cs) n) :
    c.isDigit = true :=
  h.2.1 c (List.mem_cons_self ..)

theorem unsigned?_eq_some_iff {s : String} {n : Nat} : unsigned? s = some n ↔ IsUnsigned s n := by
  rw [unsigned?, IsUnsigned]
  split
  next cs hs =>
    rw [digits?_eq_some_iff]
    refine ⟨fun h => ⟨cs, h, .inr hs⟩, ?_⟩
    rintro ⟨digits, h, heq | heq⟩
    · rw [hs] at heq
      exact absurd (heq ▸ h).isDigit_head (by decide)
    · obtain rfl := (List.cons.inj (hs.symm.trans heq)).2
      exact h
  next hplus =>
    rw [digits?_eq_some_iff]
    refine ⟨fun h => ⟨_, h, .inl rfl⟩, ?_⟩
    rintro ⟨digits, h, rfl | heq⟩
    · exact h
    · exact absurd heq (hplus digits)

/-- But for a minus sign, a signed literal is an unsigned one. -/
theorem signed?_eq (s : String) : signed? s =
    match s.toList with
    | '-' :: cs => (digits? cs).map (fun n : Nat => -(n : Int))
    | _ => (unsigned? s).map Int.ofNat := by
  rw [signed?, unsigned?]
  split
  next cs hs =>
    simp only [hs]
    cases digits? cs <;> rfl
  next cs hs => simp [hs]
  next hminus hplus => simp

theorem signed?_eq_some_iff {s : String} {z : Int} : signed? s = some z ↔ IsSigned s z := by
  rw [signed?_eq, IsSigned]
  split
  next cs hs =>
    simp only [Option.map_eq_some_iff, digits?_eq_some_iff]
    constructor
    · rintro ⟨n, h, rfl⟩
      exact .inr ⟨cs, n, rfl, h, hs⟩
    · rintro (⟨n, rfl, digits, h, heq | heq⟩ | ⟨digits, n, rfl, h, heq⟩)
      · rw [hs] at heq
        exact absurd (heq ▸ h).isDigit_head (by decide)
      · exact absurd (List.cons.inj (hs.symm.trans heq)).1 (by decide)
      · obtain rfl := (List.cons.inj (hs.symm.trans heq)).2
        exact ⟨n, h, rfl⟩
  next hminus =>
    simp only [Option.map_eq_some_iff, unsigned?_eq_some_iff]
    constructor
    · rintro ⟨n, h, rfl⟩
      exact .inl ⟨n, rfl, h⟩
    · rintro (⟨n, rfl, h⟩ | ⟨digits, n, -, -, heq⟩)
      · exact ⟨n, h, rfl⟩
      · exact absurd heq (hminus digits)

/-- A literal of a signed 32-bit word is a signed literal of its value. -/
theorem int32?_eq_some_iff {s : String} {n : Int32} : int32? s = some n ↔ IsSigned s n.toInt := by
  have hlow := n.le_toInt
  have hhigh := n.toInt_lt
  rw [← signed?_eq_some_iff, int32?]
  cases hs : signed? s with
  | none => simp
  | some z =>
    dsimp only
    split_ifs with hz
    · rw [Option.some_inj, Option.some_inj]
      constructor
      · rintro rfl
        exact (Int32.toInt_ofInt_of_le (by omega) (by omega)).symm
      · rintro rfl
        exact Int32.ofInt_toInt n
    · rw [Option.some_inj]
      exact iff_of_false (by simp) (by omega)

/-- A literal of an unsigned 32-bit word is an unsigned literal of its value. -/
theorem uint32?_eq_some_iff {s : String} {n : UInt32} :
    uint32? s = some n ↔ IsUnsigned s n.toNat := by
  have hlt := n.toNat_lt
  rw [← unsigned?_eq_some_iff, uint32?]
  cases hs : unsigned? s with
  | none => simp
  | some m =>
    dsimp only
    split_ifs with hm
    · rw [Option.some_inj, Option.some_inj]
      constructor
      · rintro rfl
        exact (UInt32.toNat_ofNat_of_lt hm).symm
      · rintro rfl
        exact UInt32.ofNat_toNat
    · rw [Option.some_inj]
      refine iff_of_false (by simp) ?_
      rintro rfl
      exact hm hlt

/-- A literal of an unsigned 64-bit word is an unsigned literal of its value. -/
theorem count?_eq_some_iff {s : String} {n : Nat} :
    count? s = some n ↔ IsUnsigned s n ∧ n < UInt64.size := by
  rw [← unsigned?_eq_some_iff, count?]
  cases hs : unsigned? s with
  | none => simp
  | some m =>
    dsimp only
    split_ifs with hm
    · rw [Option.some_inj]
      refine ⟨fun heq => ⟨heq, heq ▸ hm⟩, And.left⟩
    · rw [Option.some_inj]
      refine iff_of_false (by simp) ?_
      rintro ⟨rfl, hlt⟩
      exact hm hlt

/-! ### A bounded number of pieces -/

/-- What is behind the first `n` cuts. -/
def behind (p : Char → Bool) : Nat → List Char → List Char
  | 0, cs => cs
  | n + 1, cs => behind p n ((cs.dropWhile (fun c => !p c)).drop 1)

/-- The pieces hold what stands between the cuts. -/
theorem mem_of_mem_splitOnP {p : Char → Bool} {cs part : List Char} (h : part ∈ cs.splitOnP p)
    {c : Char} (hc : c ∈ part) : c ∈ cs ∧ p c = false := by
  induction cs generalizing part with
  | nil =>
    rw [List.splitOnP_nil, List.mem_singleton] at h
    exact absurd (h ▸ hc) List.not_mem_nil
  | cons d cs ih =>
    obtain ⟨first, rest, hsplit⟩ := List.exists_cons_of_ne_nil (List.splitOnP_ne_nil p cs)
    rw [List.splitOnP_cons_eq_if_modifyHead] at h
    rw [hsplit] at h ih
    split at h
    · rcases List.mem_cons.1 h with rfl | h
      · exact absurd hc List.not_mem_nil
      · exact (ih h hc).imp_left (List.mem_cons_of_mem d)
    next hd =>
      rcases List.mem_cons.1 h with rfl | h
      · rcases List.mem_cons.1 hc with rfl | hc
        · exact ⟨List.mem_cons_self .., Bool.not_eq_true _ ▸ hd⟩
        · exact (ih (List.mem_cons_self ..) hc).imp_left (List.mem_cons_of_mem d)
      · exact (ih (List.mem_cons_of_mem first h) hc).imp_left (List.mem_cons_of_mem d)

theorem splitOnP_eq (p : Char → Bool) (cs : List Char) : cs.splitOnP p =
    cs.takeWhile (fun c => !p c) ::
      match cs.dropWhile (fun c => !p c) with
      | [] => []
      | _ :: rest => rest.splitOnP p := by
  induction cs with
  | nil => rfl
  | cons c cs ih =>
    rw [List.splitOnP_cons_eq_if_modifyHead]
    cases hc : p c with
    | true => simp [hc]
    | false =>
      rw [ih]
      simp [hc]

/-- At most `n + 1` pieces are the first `n`, and what is behind `n` cuts if there are so many. -/
theorem cutLimited_eq (p : Char → Bool) (n : Nat) (cs : List Char) :
    cutLimited p (n + 1) cs = (cs.splitOnP p).take n ++
      if n < (cs.splitOnP p).length then [behind p n cs] else [] := by
  induction n generalizing cs with
  | zero =>
    rw [if_pos (List.length_pos_iff.2 (List.splitOnP_ne_nil p cs))]
    rfl
  | succ n ih =>
    rw [cutLimited, splitOnP_eq p cs, behind]
    cases cs.dropWhile (fun c => !p c) with
    | nil => simp
    | cons c rest => simp [ih]

theorem behind_nil (p : Char → Bool) (n : Nat) : behind p n [] = [] := by
  induction n with
  | zero => rfl
  | succ n ih => exact ih

theorem behind_eq_nil {p : Char → Bool} {n : Nat} {cs : List Char}
    (h : (cs.splitOnP p).length ≤ n) : behind p n cs = [] := by
  induction n generalizing cs with
  | zero => exact absurd (List.length_eq_zero_iff.1 (Nat.le_zero.1 h)) (List.splitOnP_ne_nil p cs)
  | succ n ih =>
    rw [splitOnP_eq, List.length_cons, Nat.add_le_add_iff_right] at h
    rw [behind]
    cases hcut : cs.dropWhile (fun c => !p c) with
    | nil => exact behind_nil p n
    | cons c rest =>
      rw [hcut] at h
      exact ih h

/-! ### All pieces -/

theorem not_mem_of_mem_pieces {c : Char} {s piece : String} (h : piece ∈ pieces c s) :
    c ∉ piece.toList := by
  obtain ⟨part, hpart, rfl⟩ := List.mem_map.1 h
  rw [String.toList_ofList]
  intro hc
  exact absurd (mem_of_mem_splitOnP hpart hc).2 (by simp)

theorem pieces_ne_nil (c : Char) (s : String) : pieces c s ≠ [] := by
  simp [pieces]

/-- The pieces of a text make up the text. -/
theorem join_pieces (c : Char) (s : String) :
    String.intercalate (String.singleton c) (pieces c s) = s := by
  have hmap : (pieces c s).map String.toList = s.toList.splitOn c := by
    simp [pieces, Function.comp_def, List.splitOn_eq_splitOnP]
  apply String.toList_injective
  rw [String.toList_intercalate, hmap, String.toList_singleton]
  exact List.intercalate_splitOn c

/-- Pieces that hold no separator are those of what they make up. -/
theorem pieces_join {c : Char} {ps : List String} (hne : ps ≠ []) (h : ∀ p ∈ ps, c ∉ p.toList) :
    pieces c (String.intercalate (String.singleton c) ps) = ps := by
  have hsplit : (([c] : List Char).intercalate (ps.map String.toList)).splitOn c =
      ps.map String.toList := by
    refine List.splitOn_intercalate c (fun part hpart => ?_) (by simpa using hne)
    obtain ⟨p, hp, rfl⟩ := List.mem_map.1 hpart
    exact h p hp
  rw [pieces, String.toList_intercalate, String.toList_singleton, ← List.splitOn_eq_splitOnP, hsplit]
  simp

/-- A text has the pieces that make it up and hold no separator. -/
theorem pieces_eq_iff {c : Char} {s : String} {ps : List String} : pieces c s = ps ↔
    ps ≠ [] ∧ s = String.intercalate (String.singleton c) ps ∧ ∀ p ∈ ps, c ∉ p.toList := by
  constructor
  · rintro rfl
    exact ⟨pieces_ne_nil c s, (join_pieces c s).symm, fun _ => not_mem_of_mem_pieces⟩
  · rintro ⟨hne, rfl, hps⟩
    exact pieces_join hne hps

theorem pieces_of_not_mem {c : Char} {s : String} (h : c ∉ s.toList) : pieces c s = [s] :=
  pieces_eq_iff.2 ⟨List.cons_ne_nil _ _, by simp, by simpa using h⟩

/-- The pieces on both sides of a separator are all there are. -/
theorem pieces_append (c : Char) (s t : String) :
    pieces c (s ++ String.singleton c ++ t) = pieces c s ++ pieces c t := by
  have hjoin : s ++ String.singleton c ++ t =
      String.intercalate (String.singleton c) (pieces c s ++ pieces c t) := by
    rw [String.intercalate_append_of_ne_nil (pieces_ne_nil c s) (pieces_ne_nil c t), join_pieces,
      join_pieces]
  rw [hjoin]
  refine pieces_join (by simp [pieces_ne_nil]) fun p hp => ?_
  rcases List.mem_append.1 hp with hp | hp <;> exact not_mem_of_mem_pieces hp

/-! ### Cuts -/

theorem span_eq {c : Char} {head : List Char} (h : c ∉ head) (tail : List Char) :
    (head ++ c :: tail).takeWhile (· != c) = head ∧
      (head ++ c :: tail).dropWhile (· != c) = c :: tail := by
  have hhead : ∀ d ∈ head, (d != c) = true := fun d hd => bne_iff_ne.2 fun heq => h (heq ▸ hd)
  rw [List.takeWhile_append_of_pos hhead, List.dropWhile_append_of_pos hhead,
    List.takeWhile_cons_of_neg (by simp), List.dropWhile_cons_of_neg (by simp), List.append_nil]
  exact ⟨rfl, rfl⟩

theorem cutFirst_ofList {c : Char} {head : List Char} (h : c ∉ head) (tail : List Char) :
    cutFirst c (String.ofList (head ++ c :: tail)) =
      some (String.ofList head, String.ofList tail) := by
  rw [cutFirst, String.toList_ofList, (span_eq h tail).1, (span_eq h tail).2]

theorem cutFirst_eq_none {c : Char} {s : String} (h : c ∉ s.toList) : cutFirst c s = none := by
  have hnil : s.toList.dropWhile (· != c) = [] :=
    List.dropWhile_eq_nil_iff.2 fun d hd => bne_iff_ne.2 fun hdc => h (hdc ▸ hd)
  rw [cutFirst, hnil]

theorem not_mem_of_cutFirst {c : Char} {s : String} (h : cutFirst c s = none) : c ∉ s.toList := by
  intro hc
  rw [cutFirst] at h
  split at h
  next hnil => simpa using List.dropWhile_eq_nil_iff.1 hnil c hc
  next => cases h

/-- The first cut leaves no separator in front of it. -/
theorem cutFirst_eq_some_iff {c : Char} {s head tail : String} : cutFirst c s = some (head, tail) ↔
    s.toList = head.toList ++ c :: tail.toList ∧ c ∉ head.toList := by
  constructor
  · intro h
    by_cases hc : c ∈ s.toList
    · obtain ⟨front, back, hs, hfront⟩ := List.eq_append_cons_of_mem hc
      rw [← String.ofList_toList (s := s), hs, cutFirst_ofList hfront] at h
      cases h
      simpa using ⟨hs, hfront⟩
    · rw [cutFirst_eq_none hc] at h
      cases h
  · rintro ⟨hs, hhead⟩
    rw [← String.ofList_toList (s := s), hs, cutFirst_ofList hhead, String.ofList_toList,
      String.ofList_toList]

theorem cutLast_ofList {c : Char} (head : List Char) {tail : List Char} (h : c ∉ tail) :
    cutLast c (String.ofList (head ++ c :: tail)) =
      some (String.ofList head, String.ofList tail) := by
  have hreverse : (head ++ c :: tail).reverse = tail.reverse ++ c :: head.reverse := by simp
  have hspan := span_eq (mt List.mem_reverse.1 h) head.reverse
  rw [cutLast, String.toList_ofList, hreverse, hspan.1, hspan.2]
  simp

theorem cutLast_eq_none {c : Char} {s : String} (h : c ∉ s.toList) : cutLast c s = none := by
  have hnil : s.toList.reverse.dropWhile (· != c) = [] :=
    List.dropWhile_eq_nil_iff.2 fun d hd =>
      bne_iff_ne.2 fun hdc => h (hdc ▸ List.mem_reverse.1 hd)
  rw [cutLast, hnil]

theorem not_mem_of_cutLast {c : Char} {s : String} (h : cutLast c s = none) : c ∉ s.toList := by
  intro hc
  rw [cutLast] at h
  split at h
  next hnil => simpa using List.dropWhile_eq_nil_iff.1 hnil c (List.mem_reverse.2 hc)
  next => cases h

/-- The last cut leaves no separator behind it. -/
theorem cutLast_eq_some_iff {c : Char} {s head tail : String} : cutLast c s = some (head, tail) ↔
    s.toList = head.toList ++ c :: tail.toList ∧ c ∉ tail.toList := by
  constructor
  · intro h
    by_cases hc : c ∈ s.toList
    · obtain ⟨back, front, hs, hback⟩ := List.eq_append_cons_of_mem (List.mem_reverse.2 hc)
      have hs' : s.toList = front.reverse ++ c :: back.reverse := by
        rw [← List.reverse_reverse s.toList, hs]
        simp
      have hback' : c ∉ back.reverse := mt List.mem_reverse.1 hback
      rw [← String.ofList_toList (s := s), hs', cutLast_ofList _ hback'] at h
      cases h
      simpa using ⟨hs', hback⟩
    · rw [cutLast_eq_none hc] at h
      cases h
  · rintro ⟨hs, htail⟩
    rw [← String.ofList_toList (s := s), hs, cutLast_ofList _ htail, String.ofList_toList,
      String.ofList_toList]

theorem pieces_of_cutFirst {c : Char} {s head tail : String} (h : cutFirst c s = some (head, tail)) :
    pieces c s = head :: pieces c tail := by
  obtain ⟨hs, hhead⟩ := cutFirst_eq_some_iff.1 h
  have hjoin : s = head ++ String.singleton c ++ tail := String.toList_injective (by simp [hs])
  rw [hjoin, pieces_append, pieces_of_not_mem hhead, List.singleton_append]

theorem head?_pieces (c : Char) (s : String) : (pieces c s).head? = some (beforeFirst c s) := by
  rw [pieces, splitOnP_eq]
  rfl

theorem getLast?_pieces (c : Char) (s : String) : (pieces c s).getLast? = some (afterLast c s) := by
  rw [afterLast]
  cases hcut : cutLast c s with
  | some parts =>
    obtain ⟨hs, htail⟩ := cutLast_eq_some_iff.1 hcut
    have hjoin : s = parts.1 ++ String.singleton c ++ parts.2 := String.toList_injective (by simp [hs])
    rw [hjoin, pieces_append, pieces_of_not_mem htail, List.getLast?_concat]
  | none => rw [pieces_of_not_mem (not_mem_of_cutLast hcut), List.getLast?_singleton]

/-! ### Blanks at the ends -/

/-- Whether a text has no blanks at its ends. -/
def Unpadded (s : String) : Prop :=
  (∀ c ∈ s.toList.head?, isBlank c = false) ∧ ∀ c ∈ s.toList.getLast?, isBlank c = false

theorem all_not_isBlank_iff (o : Option Char) :
    (o.all fun c => !isBlank c) = true ↔ ∀ c ∈ o, isBlank c = false := by
  simp [Option.all_eq_true]

-- the ends are tested themselves: as a quantifier over characters, this can run through every character
instance (s : String) : Decidable (Unpadded s) :=
  decidable_of_iff _
    (and_congr (all_not_isBlank_iff s.toList.head?) (all_not_isBlank_iff s.toList.getLast?))

theorem dropBlanksAtEnd_eq_self {cs : List Char} (h : ∀ c ∈ cs.getLast?, isBlank c = false) :
    dropBlanksAtEnd cs = cs := by
  refine List.rdropWhile_eq_self_iff.2 fun hne => ?_
  rw [h _ (List.getLast?_eq_some_getLast hne)]
  exact Bool.false_ne_true

theorem trimEnd_eq_self {s : String} (h : ∀ c ∈ s.toList.getLast?, isBlank c = false) :
    trimEnd s = s := by
  rw [trimEnd, dropBlanksAtEnd_eq_self h, String.ofList_toList]

theorem Unpadded.trim_eq {s : String} (h : Unpadded s) : trim s = s := by
  have hstart : s.toList.dropWhile isBlank = s.toList := by
    cases hs : s.toList with
    | nil => rfl
    | cons c cs => rw [List.dropWhile_cons_of_neg (by simp [h.1 c (by simp [hs])])]
  rw [trim, hstart, dropBlanksAtEnd_eq_self h.2, String.ofList_toList]

/-- Trimming drops blanks alone. -/
theorem mem_trim_iff {s : String} {c : Char} (h : isBlank c = false) :
    c ∈ (trim s).toList ↔ c ∈ s.toList := by
  have hdrop (cs : List Char) : c ∈ cs.dropWhile isBlank ↔ c ∈ cs := by
    refine ⟨fun hc => (List.dropWhile_sublist _).subset hc, fun hc => ?_⟩
    rw [← List.takeWhile_append_dropWhile (p := isBlank) (l := cs), List.mem_append] at hc
    refine hc.resolve_left fun htake => ?_
    rw [List.mem_takeWhile_imp htake] at h
    cases h
  rw [trim, String.toList_ofList, dropBlanksAtEnd, List.mem_reverse, hdrop, List.mem_reverse, hdrop]

theorem hasChar_iff {c : Char} {s : String} : hasChar c s = true ↔ c ∈ s.toList :=
  List.contains_iff_mem

theorem hasChar_trim {c : Char} (hc : isBlank c = false) (s : String) :
    hasChar c (trim s) = hasChar c s :=
  Bool.eq_iff_iff.2 (hasChar_iff.trans ((mem_trim_iff hc).trans hasChar_iff.symm))

/-! ### Whole lines -/

/-- Whether a text can stand on a line and ends without a blank. -/
def LineText (s : String) : Prop :=
  '\n' ∉ s.toList ∧ ∀ c ∈ s.toList.getLast?, isBlank c = false

instance (s : String) : Decidable (LineText s) :=
  decidable_of_iff _ (and_congr_right' (a := '\n' ∉ s.toList) (all_not_isBlank_iff s.toList.getLast?))

theorem LineText.isLine {s : String} (h : LineText s) : IsLine s :=
  ⟨h.1, fun hlast => absurd (h.2 _ hlast) (by decide)⟩

theorem LineText.trimEnd_eq {s : String} (h : LineText s) : trimEnd s = s :=
  trimEnd_eq_self h.2

theorem LineText.append {s t : String} (hs : LineText s) (ht : LineText t) : LineText (s ++ t) := by
  constructor
  · rw [String.toList_append, List.mem_append]
    exact fun h => h.elim hs.1 ht.1
  · rw [String.toList_append, List.getLast?_append]
    intro c hc
    cases hlast : t.toList.getLast? with
    | none => exact hs.2 c (by simpa [hlast] using hc)
    | some d => exact ht.2 c (by simpa [hlast] using hc)

theorem LineText.intercalate {sep : String} {parts : List String} (hsep : LineText sep)
    (h : ∀ p ∈ parts, LineText p) : LineText (sep.intercalate parts) := by
  induction parts with
  | nil => simp [LineText]
  | cons part rest ih =>
    obtain ⟨hpart, hrest⟩ := List.forall_mem_cons.1 h
    cases rest with
    | nil => rwa [String.intercalate_singleton]
    | cons next more =>
      rw [String.intercalate_cons_cons]
      exact (hpart.append hsep).append (ih hrest)

theorem Unpadded.lineText {s : String} (h : Unpadded s) (hfeed : '\n' ∉ s.toList) : LineText s :=
  ⟨hfeed, h.2⟩

/-! ### Decimal texts -/

theorem toList_toString_nat (n : Nat) : (toString n).toList = Nat.toDigits 10 n := by
  simp

theorem unpadded_toString (n : Nat) : Unpadded (toString n) := by
  have hblank : ∀ c ∈ (toString n).toList, isBlank c = false := fun c hc =>
    isBlank_of_isDigit (isDigit_of_mem_toDigits (toList_toString_nat n ▸ hc))
  exact ⟨fun c hc => hblank c (List.mem_of_head? hc), fun c hc => hblank c (List.mem_of_getLast? hc)⟩

theorem isUnsigned_toString (n : Nat) : IsUnsigned (toString n) n :=
  ⟨Nat.toDigits 10 n, digits?_eq_some_iff.1 (digits?_toDigits n), .inl (toList_toString_nat n)⟩

theorem not_mem_toString {c : Char} (hc : c.isDigit = false) (n : Nat) : c ∉ (toString n).toList := by
  rw [toList_toString_nat]
  intro h
  rw [isDigit_of_mem_toDigits h] at hc
  cases hc

/-! ### The lines before a line -/

/-- The lines before a line are the lines of the text before it. -/
theorem exists_lines_eq {text line : String} {before after : List String}
    (h : lines text = before ++ line :: after) :
    ∃ start rest, text = start ++ rest ∧ lines start = before := by
  induction before generalizing text with
  | nil => exact ⟨"", text, by simp, lines_empty⟩
  | cons first before ih =>
    by_cases hfeed : '\n' ∈ text.toList
    · obtain ⟨piece, more, htext, hpiece⟩ := List.eq_append_cons_of_mem hfeed
      rw [← String.ofList_toList (s := text), htext, lines_cons hpiece] at h
      obtain ⟨hfirst, hmore⟩ := List.cons.inj h
      obtain ⟨start, rest, heq, hstart⟩ := ih hmore
      refine ⟨String.ofList (piece ++ '\n' :: start.toList), rest, ?_, ?_⟩
      · apply String.toList_injective
        rw [htext, String.toList_append, String.toList_ofList, List.append_assoc, List.cons_append,
          ← String.toList_append, ← heq, String.toList_ofList]
      · rw [lines_cons hpiece, String.ofList_toList, hstart, hfirst]
    · rw [← String.ofList_toList (s := text), lines_of_no_feed hfeed] at h
      split at h <;> simp at h

end AblAnalysis.Text
