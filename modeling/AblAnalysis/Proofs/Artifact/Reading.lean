import AblAnalysis.Proofs.Artifact.Trees

/-!
Readers of an artifact as programs. What a reader that succeeds has taken are the first bytes it was
given, and these are known to be enough: with anything after them it reads the same, and with less of
them it runs out of data (`Takes`). That passes from the parts of a program to the whole, together with
what is known of the values (`Reads`), so it holds of every reader that is put together from words and
texts.
-/

namespace AblAnalysis.Artifact

/-- A program that reads a value from a stream and leaves what follows it. -/
@[ext]
structure Reader (α : Type) where
  whole ::
  run : Stream → Except Error (α × Stream)

namespace Reader

variable {α β : Type}

instance : Monad Reader where
  pure a := ⟨fun s => .ok (a, s)⟩
  bind read next := ⟨fun s =>
    match read.run s with
    | .ok (a, rest) => (next a).run rest
    | .error e => .error e⟩

/-- Reads an item. -/
def item (read : Stream → Except Error α × Stream) : Reader α :=
  ⟨fun s => (read s).1.map fun a => (a, (read s).2)⟩

/-- Reads a part of an artifact of which something is left where reading fails. -/
def part (read : Stream → α × Except Error Stream) : Reader α :=
  ⟨fun s => (read s).2.map fun rest => ((read s).1, rest)⟩

/-- Takes what has been read, or refuses it. -/
def check (result : Except Error α) : Reader α :=
  ⟨fun s => result.map fun a => (a, s)⟩

theorem run_whole (read : Stream → Except Error (α × Stream)) (s : Stream) :
    (whole read).run s = read s := rfl

theorem run_item (read : Stream → Except Error α × Stream) (s : Stream) :
    (item read).run s = (read s).1.map fun a => (a, (read s).2) := rfl

theorem run_part (read : Stream → α × Except Error Stream) (s : Stream) :
    (part read).run s = (read s).2.map fun rest => ((read s).1, rest) := rfl

theorem run_check (result : Except Error α) (s : Stream) :
    (check result).run s = result.map fun a => (a, s) := rfl

theorem run_pure (a : α) (s : Stream) : (pure a : Reader α).run s = .ok (a, s) := rfl

theorem run_bind (read : Reader α) (next : α → Reader β) (s : Stream) : (read >>= next).run s =
    match read.run s with
    | .ok (a, rest) => (next a).run rest
    | .error e => .error e := rfl

theorem run_bind_ok {read : Reader α} {next : α → Reader β} {s rest : Stream} {a : α}
    (h : read.run s = .ok (a, rest)) : (read >>= next).run s = (next a).run rest := by
  rw [run_bind, h]

theorem run_bind_error {read : Reader α} {next : α → Reader β} {s : Stream} {e : Error}
    (h : read.run s = .error e) : (read >>= next).run s = .error e := by
  rw [run_bind, h]

theorem exists_of_run_bind {read : Reader α} {next : α → Reader β} {s rest : Stream} {b : β}
    (h : (read >>= next).run s = .ok (b, rest)) :
    ∃ a s', read.run s = .ok (a, s') ∧ (next a).run s' = .ok (b, rest) := by
  rw [run_bind] at h
  rcases hread : read.run s with e | ⟨a, s'⟩
  · rw [hread] at h
    exact absurd h (by simp)
  · rw [hread] at h
    exact ⟨a, s', rfl, h⟩

/-! ### What is taken -/

/-- The errors of a reader for which there was not enough data. -/
def RunsShort (e : Error) : Prop :=
  e = .corruptArtifact .endOfData ∨ e = .corruptArtifact .truncatedString

/-- Whether a reader takes exactly the bytes `used` for a value: whatever follows them, and nothing
less will do. -/
structure Takes (read : Reader α) (used : List UInt8) (a : α) : Prop where
  whole : ∀ more, read.run ⟨used ++ more, none⟩ = .ok (a, ⟨more, none⟩)
  short : ∀ front rest, front ++ rest = used → rest ≠ [] →
    ∃ e, RunsShort e ∧ read.run ⟨front, none⟩ = .error e

theorem takes_pure (a : α) : Takes (pure a) [] a where
  whole more := rfl
  short front rest h hrest := by
    obtain ⟨-, rfl⟩ := List.append_eq_nil_iff.1 h
    exact absurd rfl hrest

theorem Takes.bind {read : Reader α} {next : α → Reader β} {used used' : List UInt8} {a : α} {b : β}
    (h : Takes read used a) (h' : Takes (next a) used' b) :
    Takes (read >>= next) (used ++ used') b where
  whole more := by
    rw [List.append_assoc, run_bind_ok (h.whole _)]
    exact h'.whole more
  short front rest hsplit hrest := by
    -- the cut is in what the first reader takes or in what the second one takes
    have hnext : ∀ front', front = used ++ front' → front' ++ rest = used' →
        ∃ e, RunsShort e ∧ (read >>= next).run ⟨front, none⟩ = .error e := by
      rintro front' rfl hused'
      obtain ⟨e, he, hnext⟩ := h'.short front' rest hused' hrest
      exact ⟨e, he, by rw [run_bind_ok (h.whole _), hnext]⟩
    rcases List.append_eq_append_iff.1 hsplit with ⟨missing, hused, hrest'⟩ | ⟨front', hfront, hused'⟩
    · cases missing with
      | nil => exact hnext [] (by simpa using hused.symm) (by simpa using hrest')
      | cons byte missing =>
        obtain ⟨e, he, hread⟩ := h.short front (byte :: missing) hused.symm (by simp)
        exact ⟨e, he, run_bind_error hread⟩
    · exact hnext front' hfront hused'.symm

/-- Whether a reader that succeeds with `n` bytes takes the first of them, and of the number of those
that it leaves and of the value `P` is true. -/
def Reads (n : Nat) (read : Reader α) (P : Nat → α → Prop) : Prop :=
  ∀ bytes a rest, bytes.length = n → read.run ⟨bytes, none⟩ = .ok (a, rest) →
    ∃ used more, bytes = used ++ more ∧ rest = ⟨more, none⟩ ∧ Takes read used a ∧ P more.length a

section

variable {n : Nat} {read : Reader α} {next : α → Reader β} {P : Nat → α → Prop} {Q : Nat → β → Prop}

theorem reads_pure {a : α} (h : P n a) : Reads n (pure a) P := by
  intro bytes a' rest hn hread
  obtain ⟨rfl, rfl⟩ := Prod.mk.inj (Except.ok.inj hread)
  exact ⟨[], bytes, rfl, rfl, takes_pure a, hn ▸ h⟩

theorem reads_check {x : Except Error α} (h : ∀ a, x = .ok a → P n a) : Reads n (check x) P := by
  cases x with
  | error e =>
    intro bytes a rest _ hread
    exact absurd hread (by simp [check, Except.map])
  | ok a => exact reads_pure (h a rfl)

theorem Reads.bind (h : Reads n read P) (hnext : ∀ m a, m ≤ n → P m a → Reads m (next a) Q) :
    Reads n (read >>= next) Q := by
  intro bytes b rest hn hread
  obtain ⟨a, s, ha, hb⟩ := exists_of_run_bind hread
  obtain ⟨used, more, hbytes, rfl, htakes, hP⟩ := h bytes a s hn ha
  have hle : more.length ≤ n := by
    rw [← hn, hbytes, List.length_append]
    omega
  obtain ⟨used', more', hmore, hrest, htakes', hQ⟩ :=
    hnext more.length a hle hP more b rest rfl hb
  refine ⟨used ++ used', more', ?_, hrest, htakes.bind htakes', hQ⟩
  rw [hbytes, hmore, List.append_assoc]

theorem Reads.imp {P' : Nat → α → Prop} (h : Reads n read P)
    (himp : ∀ m a, m ≤ n → P m a → P' m a) : Reads n read P' := by
  intro bytes a rest hn hread
  obtain ⟨used, more, hbytes, hrest, htakes, hP⟩ := h bytes a rest hn hread
  refine ⟨used, more, hbytes, hrest, htakes, himp _ _ ?_ hP⟩
  rw [← hn, hbytes, List.length_append]
  omega

end

/-! ### Words and texts -/

/-- A number of bytes is taken as it is. -/
theorem reads_take {cause : Corruption} (hcause : RunsShort (.corruptArtifact cause)) (n k : Nat) :
    Reads n (item (·.take k cause)) fun m front => m + k = n ∧ front.length = k := by
  intro bytes front rest hn hread
  have hlen : (bytes.take k).length = k := by
    by_contra hshort
    simp only [item, Stream.take, if_neg hshort, Except.map] at hread
    exact absurd hread (by simp)
  have hsplit := List.take_append_drop k bytes
  generalize bytes.take k = taken at hlen hsplit
  generalize bytes.drop k = more at hsplit
  subst hsplit
  have hwhole : ∀ more, (item (·.take k cause)).run ⟨taken ++ more, none⟩ = .ok (taken, ⟨more, none⟩) := by
    intro more
    simp only [item, Stream.take_append more none taken cause hlen, Except.map]
  rw [hwhole] at hread
  obtain ⟨rfl, rfl⟩ := Prod.mk.inj (Except.ok.inj hread)
  refine ⟨taken, more, rfl, rfl, ⟨hwhole, fun front rest hfront hrest => ?_⟩, ?_, hlen⟩
  · have hpos := List.length_pos_iff.2 hrest
    have hshort : (front.take k).length ≠ k := by
      rw [List.length_take]
      rw [← hfront, List.length_append] at hlen
      omega
    refine ⟨_, hcause, ?_⟩
    simp only [item, Stream.take, if_neg hshort]
    rfl
  · rw [← hn, List.length_append, hlen, Nat.add_comm]

theorem runsShort_endOfData : RunsShort (.corruptArtifact .endOfData) := .inl rfl

theorem runsShort_truncatedString : RunsShort (.corruptArtifact .truncatedString) := .inr rfl

theorem item_int32 : item Stream.int32 = (do
    let front ← item (·.take 4 .endOfData)
    pure (UInt32.ofNat (ofBigEndian front)).toInt32) := by
  ext1
  funext s
  simp only [run_bind, run_pure, run_item, Stream.int32]
  rcases s.take 4 .endOfData with ⟨e | front, rest⟩ <;> rfl

theorem item_int16 : item Stream.int16 = (do
    let front ← item (·.take 2 .endOfData)
    pure (UInt16.ofNat (ofBigEndian front)).toInt16) := by
  ext1
  funext s
  simp only [run_bind, run_pure, run_item, Stream.int16]
  rcases s.take 2 .endOfData with ⟨e | front, rest⟩ <;> rfl

/-- The text that bytes encode, if they do. -/
def decodeUtf8 (bytes : List UInt8) : Except Error String :=
  match Text.ofUtf8? bytes with
  | some value => .ok value
  | none => .error (.corruptArtifact .notUtf8)

theorem item_text : item Stream.text = (do
    let length ← item (·.take 2 .endOfData)
    let bytes ← item (·.take (ofBigEndian length) .truncatedString)
    check (decodeUtf8 bytes)) := by
  ext1
  funext s
  simp only [run_bind, run_item, Stream.text]
  rcases s.take 2 .endOfData with ⟨e | length, rest⟩
  · rfl
  simp only [Except.map]
  rcases rest.take (ofBigEndian length) .truncatedString with ⟨e | bytes, rest'⟩
  · rfl
  simp only [run_check, decodeUtf8]
  cases Text.ofUtf8? bytes <;> rfl

theorem reads_int32 (n : Nat) : Reads n (item Stream.int32) fun m _ => m + 4 = n := by
  rw [item_int32]
  refine (reads_take runsShort_endOfData n 4).bind ?_
  rintro m front - ⟨hm, -⟩
  exact reads_pure hm

theorem reads_int16 (n : Nat) : Reads n (item Stream.int16) fun m _ => m + 2 = n := by
  rw [item_int16]
  refine (reads_take runsShort_endOfData n 2).bind ?_
  rintro m front - ⟨hm, -⟩
  exact reads_pure hm

theorem utf8_of_decodeUtf8 {bytes : List UInt8} {value : String}
    (h : decodeUtf8 bytes = .ok value) : Text.utf8 value = bytes := by
  simp only [decodeUtf8, Text.ofUtf8?, String.fromUTF8?] at h
  split at h
  · rename_i hsome
    split at hsome
    · obtain rfl := Option.some.inj hsome
      obtain rfl := Except.ok.inj h
      rfl
    · exact absurd hsome (by simp)
  · exact absurd h (by simp)

/-- A text that has been read is short enough to be stored. -/
theorem reads_text (n : Nat) : Reads n (item Stream.text) fun m value => m + 2 ≤ n ∧ Fits value := by
  rw [item_text]
  refine (reads_take runsShort_endOfData n 2).bind ?_
  rintro m length - ⟨hm, hlength⟩
  refine (reads_take runsShort_truncatedString m _).bind ?_
  rintro k bytes hk ⟨-, hbytes⟩
  refine reads_check fun value hvalue => ⟨by omega, ?_⟩
  have hlt := ofBigEndian_lt length
  rw [hlength] at hlt
  rw [Fits, utf8_of_decodeUtf8 hvalue, hbytes]
  exact Nat.le_of_lt_succ hlt

end Reader

end AblAnalysis.Artifact
