import AblAnalysis.Text.Blank
import AblAnalysis.Text.Integer
import AblAnalysis.Text.Pieces
import Mathlib.Algebra.Order.Group.Unbundled.Int
import Mathlib.Data.List.TakeWhile
import Mathlib.Tactic.SplitIfs

/-!
Text that was put together is taken apart again: a number is read back from its decimal text
(`int32?_ofInt32`), parts joined by single blanks are the pieces between blanks
(`piecesLimited_intercalate`), and lines with their line feeds are the lines of the whole. Of the
parts only the last one that is asked for may have blanks itself.
-/

namespace AblAnalysis.Text

/-- Whether a text has no blanks. -/
def Blankless (s : String) : Prop :=
  ∀ c ∈ s.toList, isBlank c = false

/-- Whether a text has neither a line feed nor a carriage return. -/
def OneLine (s : String) : Prop :=
  '\n' ∉ s.toList ∧ '\r' ∉ s.toList

/-- Whether a text can stand on a line: it has no line feed, and no carriage return at its end. -/
def IsLine (s : String) : Prop :=
  '\n' ∉ s.toList ∧ s.toList.getLast? ≠ some '\r'

theorem OneLine.isLine {s : String} (h : OneLine s) : IsLine s :=
  ⟨h.1, fun hlast => h.2 (List.mem_of_getLast? hlast)⟩

theorem Blankless.oneLine {s : String} (h : Blankless s) : OneLine s :=
  ⟨fun hc => absurd (h _ hc) (by decide), fun hc => absurd (h _ hc) (by decide)⟩

theorem blankless_empty : Blankless "" := by
  simp [Blankless]

theorem OneLine.append {s t : String} (hs : OneLine s) (ht : OneLine t) : OneLine (s ++ t) := by
  simp only [OneLine, String.toList_append, List.mem_append, not_or]
  exact ⟨⟨hs.1, ht.1⟩, ⟨hs.2, ht.2⟩⟩

/-! ### Numbers -/

theorem isDigit_of_mem_toDigits {n : Nat} {c : Char} (h : c ∈ Nat.toDigits 10 n) :
    c.isDigit = true :=
  Nat.isDigit_of_mem_toDigits (by decide) (by decide) h

theorem isBlank_of_isDigit {c : Char} (h : c.isDigit = true) : isBlank c = false := by
  rw [Char.isDigit, Bool.and_eq_true, decide_eq_true_eq, decide_eq_true_eq] at h
  have hlow : 0x30 ≤ c.toNat := UInt32.le_iff_toNat_le.1 h.1
  have hhigh : c.toNat ≤ 0x39 := UInt32.le_iff_toNat_le.1 h.2
  simp [isBlank]
  omega

theorem digits?_toDigits (n : Nat) : digits? (Nat.toDigits 10 n) = some n := by
  have hall : (Nat.toDigits 10 n).all Char.isDigit = true :=
    List.all_eq_true.2 (fun c hc => isDigit_of_mem_toDigits hc)
  have hne : (Nat.toDigits 10 n).isEmpty = false :=
    List.isEmpty_eq_false_iff.2 Nat.toDigits_ne_nil
  rw [digits?, hall, hne, if_neg (by decide), ← Nat.ofDigitChars_eq_foldl,
    Nat.ofDigitChars_ten_toDigits]

theorem toList_toString_int (n : Int) : (toString n).toList =
    if 0 ≤ n then Nat.toDigits 10 n.natAbs else '-' :: Nat.toDigits 10 n.natAbs := by
  have hdigits : n.natAbs.repr.toList = Nat.toDigits 10 n.natAbs := by
    rw [Nat.repr_eq_ofList_toDigits, String.toList_ofList]
  rw [Int.toString_eq_repr, Int.repr_eq_if]
  split
  · rw [show n.toNat = n.natAbs by omega, hdigits]
  · rw [show (-n).toNat = n.natAbs by omega, String.toList_append, hdigits]
    rfl

/-- A number is read back from its decimal text. -/
theorem signed?_toString (n : Int) : signed? (toString n) = some n := by
  rw [signed?, toList_toString_int]
  split_ifs with hn
  · obtain ⟨d, ds, hdigits⟩ :=
      List.exists_cons_of_ne_nil (Nat.toDigits_ne_nil (n := n.natAbs) (b := 10))
    have hd : d.isDigit = true := isDigit_of_mem_toDigits (hdigits ▸ List.mem_cons_self ..)
    have hread := digits?_toDigits n.natAbs
    rw [hdigits] at hread ⊢
    -- A digit is not a sign, so all of the text is read as digits.
    split
    · rename_i heq
      exact absurd ((List.cons.inj heq).1 ▸ hd) (by decide)
    · rename_i heq
      exact absurd ((List.cons.inj heq).1 ▸ hd) (by decide)
    · rw [hread, Option.map_some, Int.ofNat_eq_natCast, Int.natAbs_of_nonneg hn]
  · simp only [digits?_toDigits, Option.bind_eq_bind, Option.bind_some, Option.pure_def,
      Option.map_some, Int.ofNat_natAbs_of_nonpos (le_of_not_ge hn), neg_neg]

theorem int32?_ofInt32 (n : Int32) : int32? (ofInt32 n) = some n := by
  have hlow := n.le_toInt
  have hhigh := n.toInt_lt
  rw [int32?, ofInt32, signed?_toString]
  dsimp only
  rw [if_pos (by omega), Int32.ofInt_toInt]

theorem blankless_ofInt32 (n : Int32) : Blankless (ofInt32 n) := by
  intro c hc
  rw [ofInt32, toList_toString_int] at hc
  split at hc
  · exact isBlank_of_isDigit (isDigit_of_mem_toDigits hc)
  · rcases List.mem_cons.1 hc with rfl | hc
    · decide
    · exact isBlank_of_isDigit (isDigit_of_mem_toDigits hc)

theorem ofInt32_ne_empty (n : Int32) : ofInt32 n ≠ "" := by
  intro h
  have hempty : (ofInt32 n).toList = [] := by rw [h]; rfl
  rw [ofInt32, toList_toString_int] at hempty
  split at hempty
  · exact Nat.toDigits_ne_nil hempty
  · exact List.cons_ne_nil _ _ hempty

/-! ### Parts -/

section Parts

variable {p : Char → Bool} {part : List Char}

theorem cutLimited_of_forall (h : ∀ c ∈ part, p c = false) (n : Nat) :
    cutLimited p (n + 1) part = [part] := by
  cases n with
  | zero => rfl
  | succ n =>
    have hdrop : part.dropWhile (fun c => !p c) = [] :=
      List.dropWhile_eq_nil_iff.2 (fun c hc => by simp [h c hc])
    have htake : part.takeWhile (fun c => !p c) = part :=
      List.takeWhile_eq_self_iff.2 (fun c hc => by simp [h c hc])
    rw [cutLimited, hdrop, htake]

theorem cutLimited_append (h : ∀ c ∈ part, p c = false) {sep : Char} (hsep : p sep = true)
    (rest : List Char) (n : Nat) :
    cutLimited p (n + 2) (part ++ sep :: rest) = part :: cutLimited p (n + 1) rest := by
  have hdrop : (part ++ sep :: rest).dropWhile (fun c => !p c) = sep :: rest := by
    rw [List.dropWhile_append_of_pos (fun c hc => by simp [h c hc]),
      List.dropWhile_cons_of_neg (by simp [hsep])]
  have htake : (part ++ sep :: rest).takeWhile (fun c => !p c) = part := by
    rw [List.takeWhile_append_of_pos (fun c hc => by simp [h c hc]),
      List.takeWhile_cons_of_neg (by simp [hsep]), List.append_nil]
  rw [cutLimited, hdrop, htake]

end Parts

/-- Parts joined by single blanks are the pieces between blanks: as many as are asked for when all
but the last of them have no blanks, fewer when none has. -/
theorem piecesLimited_intercalate {parts : List String} {n : Nat} (hne : parts ≠ [])
    (hlen : parts.length ≤ n + 1) (hparts : ∀ p ∈ parts.take n, Blankless p) :
    piecesLimited isBlank (n + 1) (" ".intercalate parts) = parts := by
  induction parts generalizing n with
  | nil => exact absurd rfl hne
  | cons part rest ih =>
    cases n with
    | zero =>
      obtain rfl : rest = [] := List.length_eq_zero_iff.1 (by simpa using hlen)
      simp [piecesLimited, cutLimited]
    | succ n =>
      have hpart : Blankless part := hparts part (by simp)
      cases rest with
      | nil =>
        rw [String.intercalate_singleton, piecesLimited, cutLimited_of_forall hpart]
        simp
      | cons next more =>
        have htail := ih (List.cons_ne_nil _ _) (by simpa using hlen)
          (fun p hp => hparts p (by simp [hp]))
        have hjoin : (" ".intercalate (part :: next :: more)).toList =
            part.toList ++ ' ' :: (" ".intercalate (next :: more)).toList := by
          rw [String.intercalate_cons_cons, String.toList_append, String.toList_append,
            List.append_assoc]
          rfl
        rw [piecesLimited, hjoin, cutLimited_append hpart (by decide), List.map_cons,
          String.ofList_toList, ← piecesLimited, htail]

theorem OneLine.intercalate {parts : List String} (h : ∀ p ∈ parts, OneLine p) :
    OneLine (" ".intercalate parts) := by
  induction parts with
  | nil => simp [OneLine]
  | cons part rest ih =>
    have hpart := h part (List.mem_cons_self ..)
    have hrest := ih (fun p hp => h p (List.mem_cons_of_mem _ hp))
    cases rest with
    | nil => rwa [String.intercalate_singleton]
    | cons next more =>
      rw [String.intercalate_cons_cons]
      exact (hpart.append (by simp [OneLine])).append hrest

/-! ### Lines -/

@[simp] theorem lines_empty : lines "" = [] := by
  simp [lines, linesOfPieces]

theorem lines_of_no_feed {cs : List Char} (h : '\n' ∉ cs) :
    lines (String.ofList cs) = if cs.isEmpty then [] else [String.ofList cs] := by
  have hfeed : ∀ c ∈ cs, (c == '\n') = false := fun c hc =>
    beq_eq_false_iff_ne.2 fun heq => h (heq ▸ hc)
  rw [lines, String.toList_ofList, List.splitOnP_eq_singleton hfeed, linesOfPieces]
  split <;> rfl

/-- What stands before the first line feed is the first line. -/
theorem lines_cons {piece : List Char} (h : '\n' ∉ piece) (rest : List Char) :
    lines (String.ofList (piece ++ '\n' :: rest)) =
      String.ofList (dropReturn piece) :: lines (String.ofList rest) := by
  have hfeed : ∀ c ∈ piece, (c == '\n') = false := fun c hc =>
    beq_eq_false_iff_ne.2 fun heq => h (heq ▸ hc)
  obtain ⟨first, more, hsplit⟩ := List.exists_cons_of_ne_nil (List.splitOnP_ne_nil (· == '\n') rest)
  rw [lines, lines, String.toList_ofList, String.toList_ofList,
    List.splitOnP_append_cons_of_forall_mem hfeed _ (by decide), hsplit, linesOfPieces]
  · rfl
  · simp

theorem lines_of_oneLine {line : String} (h : OneLine line) (hne : line ≠ "") :
    lines line = [line] := by
  have hsome : line.toList.isEmpty = false :=
    List.isEmpty_eq_false_iff.2 (fun hnil => hne (String.toList_eq_nil_iff.1 hnil))
  rw [← String.ofList_toList (s := line), lines_of_no_feed h.1, hsome, if_neg Bool.false_ne_true]

/-- A line with its line feed is the first line of a text that begins with it. -/
theorem lines_append {line : String} (h : IsLine line) (rest : String) :
    lines (line ++ "\n" ++ rest) = line :: lines rest := by
  have htext : line ++ "\n" ++ rest = String.ofList (line.toList ++ '\n' :: rest.toList) := by
    apply String.toList_injective
    simp
  rw [htext, lines_cons h.1, dropReturn, if_neg h.2, String.ofList_toList, String.ofList_toList]

/-- Lines with their line feeds, and what follows them, are the lines of the whole. -/
theorem lines_join {ls : List String} (h : ∀ l ∈ ls, IsLine l) (rest : String) :
    lines (String.join (ls.map (· ++ "\n")) ++ rest) = ls ++ lines rest := by
  induction ls with
  | nil => simp
  | cons l ls ih =>
    rw [List.map_cons, String.join_cons, String.append_assoc,
      lines_append (h l (List.mem_cons_self ..)),
      ih (fun l hl => h l (List.mem_cons_of_mem _ hl)), List.cons_append]

end AblAnalysis.Text
