import AblAnalysis.Proofs.Artifact.Items

/-!
Items written and read in order. A sink that never fails takes an item as a whole or, if it is a text
that is too long, nothing of it (`Sink.write_cases`). What has been written after any number of calls is
therefore read back item by item, and reading stops right after it, whatever follows
(`Sink.readAll_writeAll`).
-/

namespace AblAnalysis.Artifact

/-- Whether an item is a text of more bytes than its length can tell. -/
def Item.TooLong : Item → Prop
  | .text value => 65535 < value.utf8ByteSize
  | _ => False

/-- The items of the calls that did not fail, in order. -/
def accepted (items : List Item) (results : List (Except Error Unit)) : List Item :=
  ((items.zip results).filter (·.2.isOk)).map (·.1)

theorem Stream.readAll_cons (s : Stream) (kind : ItemKind) (kinds : List ItemKind) :
    s.readAll (kind :: kinds) =
      ((s.read kind).1 :: ((s.read kind).2.readAll kinds).1,
        ((s.read kind).2.readAll kinds).2) := rfl

namespace Sink

/-! ### One call -/

theorem put_of_unfailing (written bytes : List UInt8) :
    (⟨written, none⟩ : Sink).put bytes = (.ok (), ⟨written ++ bytes, none⟩) := rfl

/-- A sink that never fails refuses what is too long and stays as it was; of anything else it takes bytes
from which the item can be read. -/
theorem write_cases (written : List UInt8) (item : Item) :
    (item.TooLong ∧ ∃ e, (⟨written, none⟩ : Sink).write item = (.error e, ⟨written, none⟩)) ∨
      (¬ item.TooLong ∧ ∃ bytes,
        (⟨written, none⟩ : Sink).write item = (.ok (), ⟨written ++ bytes, none⟩) ∧
        ∀ rest fault,
          (⟨bytes ++ rest, fault⟩ : Stream).read item.kind = (.ok item, ⟨rest, fault⟩)) := by
  cases item with
  | int32 value =>
    refine .inr ⟨id, int32Bytes value, rfl, fun rest fault => ?_⟩
    rw [Item.kind, Stream.read, Stream.int32_append]
    rfl
  | int16 value =>
    refine .inr ⟨id, int16Bytes value, rfl, fun rest fault => ?_⟩
    rw [Item.kind, Stream.read, Stream.int16_append]
    rfl
  | text value =>
    have hlength : (Text.utf8 value).length = value.utf8ByteSize := Text.length_utf8 value
    by_cases hfits : Fits value
    · have hshort : ¬ (Item.text value).TooLong := Nat.not_lt.2 (hlength ▸ hfits)
      refine .inr ⟨hshort, bigEndian 2 (Text.utf8 value).length ++ Text.utf8 value, ?_,
        fun rest fault => ?_⟩
      · rw [Fits] at hfits
        simp only [write, textParts, if_pos hfits, put_of_unfailing, List.append_assoc]
      · rw [Item.kind, Stream.read, Stream.text_append rest fault (textBytes_eq_ok hfits)]
        rfl
    · have hlong : (Item.text value).TooLong := by
        rw [Item.TooLong, ← hlength]
        exact Nat.lt_of_not_le hfits
      refine .inl ⟨hlong, .stringTooLong (Text.utf8 value).length, ?_⟩
      rw [Fits] at hfits
      simp only [write, textParts, if_neg hfits]

/-! ### Calls in order -/

theorem writeAll_cons (s : Sink) (item : Item) (items : List Item) :
    s.writeAll (item :: items) =
      ((s.write item).1 :: ((s.write item).2.writeAll items).1,
        ((s.write item).2.writeAll items).2) := rfl

theorem writeAll_append (s : Sink) (before after : List Item) :
    s.writeAll (before ++ after) =
      ((s.writeAll before).1 ++ ((s.writeAll before).2.writeAll after).1,
        ((s.writeAll before).2.writeAll after).2) := by
  induction before generalizing s with
  | nil => rfl
  | cons item before ih =>
    rw [List.cons_append, writeAll_cons, writeAll_cons, ih]
    rfl

theorem length_writeAll (s : Sink) (items : List Item) :
    (s.writeAll items).1.length = items.length := by
  induction items generalizing s with
  | nil => rfl
  | cons item items ih => exact congrArg (· + 1) (ih _)

/-- Whatever is written can be read back. -/
theorem exists_writeAll (written : List UInt8) (items : List Item) :
    let results := ((⟨written, none⟩ : Sink).writeAll items).1
    ∃ bytes, ((⟨written, none⟩ : Sink).writeAll items).2 = ⟨written ++ bytes, none⟩ ∧
      ∀ rest fault, (⟨bytes ++ rest, fault⟩ : Stream).readAll
        ((accepted items results).map Item.kind) =
          ((accepted items results).map .ok, ⟨rest, fault⟩) := by
  induction items generalizing written with
  | nil => exact ⟨[], by rw [List.append_nil]; rfl, fun rest fault => rfl⟩
  | cons item items ih =>
    rcases write_cases written item with ⟨-, e, hwrite⟩ | ⟨-, bytes, hwrite, hread⟩
    · -- nothing of the item is there, and its kind is not asked for
      obtain ⟨bytes, hlast, hreads⟩ := ih written
      simp only [writeAll_cons, hwrite]
      exact ⟨bytes, hlast, hreads⟩
    · obtain ⟨more, hlast, hreads⟩ := ih (written ++ bytes)
      simp only [writeAll_cons, hwrite]
      refine ⟨bytes ++ more, by rw [hlast, List.append_assoc], fun rest fault => ?_⟩
      have haccepted : ∀ results, accepted (item :: items) (.ok () :: results) =
          item :: accepted items results := fun results => rfl
      rw [haccepted, List.map_cons, List.map_cons, Stream.readAll_cons, List.append_assoc, hread,
        hreads]

/-- A sink that never fails, after some calls. -/
def reached (written : List UInt8) (items : List Item) : Sink :=
  ((⟨written, none⟩ : Sink).writeAll items).2

/-- What a call does after other calls: it fails if and only if it is for a text of more than 65535 bytes,
and then the sink stays as it was. -/
structure Call (written : List UInt8) (before : List Item) (item : Item) : Prop where
  fails_iff : (∃ e, ((reached written before).write item).1 = .error e) ↔ item.TooLong
  keeps : item.TooLong → ((reached written before).write item).2 = reached written before

theorem call (written : List UInt8) (before : List Item) (item : Item) :
    Call written before item := by
  obtain ⟨bytes, hlast, -⟩ := exists_writeAll written before
  have hreached : reached written before = ⟨written ++ bytes, none⟩ := hlast
  rcases write_cases (written ++ bytes) item with ⟨hlong, e, hwrite⟩ | ⟨hshort, more, hwrite, -⟩
  · exact ⟨by simp [hreached, hwrite, hlong], fun _ => by rw [hreached, hwrite]⟩
  · exact ⟨by simp [hreached, hwrite, hshort], fun hlong => absurd hlong hshort⟩

/-- Calls in any order, on a sink that never fails, whatever it has taken before. Every call answers once;
it fails if and only if it is for a text of more than 65535 bytes, and then it leaves nothing behind.
Reading the items of the calls that did not fail, by their kinds and in order, from the bytes of all calls
with anything after them gives exactly those items and stops exactly there. -/
theorem readAll_writeAll (written : List UInt8) (items : List Item) :
    let results := ((⟨written, none⟩ : Sink).writeAll items).1
    results.length = items.length ∧
    (∀ before item after, items = before ++ item :: after →
      results[before.length]? = some ((reached written before).write item).1 ∧
      Call written before item) ∧
    ∃ bytes, reached written items = ⟨written ++ bytes, none⟩ ∧
      ∀ rest fault, (⟨bytes ++ rest, fault⟩ : Stream).readAll
        ((accepted items results).map Item.kind) =
          ((accepted items results).map .ok, ⟨rest, fault⟩) := by
  refine ⟨length_writeAll _ items, fun before item after hitems => ⟨?_, call written before item⟩,
    exists_writeAll written items⟩
  have hbefore := length_writeAll ⟨written, none⟩ before
  rw [hitems, writeAll_append, ← hbefore, List.getElem?_append_right (Nat.le_refl _), Nat.sub_self]
  rfl

end Sink

end AblAnalysis.Artifact
