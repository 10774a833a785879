import AblAnalysis.Artifact.Codec
import Mathlib.Tactic.Ring

/-!
Items read back. A stream that begins with the bytes of an item gives the item and goes on right after
them, whatever follows.
-/

namespace AblAnalysis.Artifact

@[simp] theorem length_bigEndian (width n : Nat) : (bigEndian width n).length = width := by
  induction width with
  | zero => rfl
  | succ width ih => rw [bigEndian, List.length_cons, ih]

theorem bigEndian_succ (width n : Nat) :
    bigEndian (width + 1) n = UInt8.ofNat (n / 256 ^ width) :: bigEndian width n := rfl

theorem foldl_bigEndian (width n start : Nat) :
    (bigEndian width n).foldl (fun n b => 256 * n + b.toNat) start =
      start * 256 ^ width + n % 256 ^ width := by
  induction width generalizing start with
  | zero => simp [bigEndian, Nat.mod_one]
  | succ width ih =>
    have hdigit : (UInt8.ofNat (n / 256 ^ width)).toNat = n / 256 ^ width % 256 := rfl
    rw [bigEndian_succ, List.foldl_cons, ih, hdigit, Nat.pow_succ, Nat.mod_mul]
    ring

theorem ofBigEndian_bigEndian {width n : Nat} (h : n < 256 ^ width) :
    ofBigEndian (bigEndian width n) = n := by
  rw [ofBigEndian, foldl_bigEndian, Nat.mod_eq_of_lt h, Nat.zero_mul, Nat.zero_add]

theorem ofBigEndian_cons (b : UInt8) (bytes : List UInt8) :
    ofBigEndian (b :: bytes) = b.toNat * 256 ^ bytes.length + ofBigEndian bytes := by
  suffices h : ∀ (bytes : List UInt8) (start : Nat),
      bytes.foldl (fun n b => 256 * n + b.toNat) start =
        start * 256 ^ bytes.length + ofBigEndian bytes by
    rw [ofBigEndian, List.foldl_cons, h]
    simp
  intro bytes
  induction bytes with
  | nil => simp [ofBigEndian]
  | cons c bytes ih =>
    intro start
    rw [ofBigEndian, List.foldl_cons, List.foldl_cons, ih, ih, List.length_cons, Nat.pow_succ]
    ring

theorem ofBigEndian_lt (bytes : List UInt8) : ofBigEndian bytes < 256 ^ bytes.length := by
  induction bytes with
  | nil => exact Nat.one_pos
  | cons b bytes ih =>
    have hb := b.toNat_lt
    rw [ofBigEndian_cons, List.length_cons, Nat.pow_succ]
    calc b.toNat * 256 ^ bytes.length + ofBigEndian bytes
        < (b.toNat + 1) * 256 ^ bytes.length := by
          rw [Nat.add_mul, Nat.one_mul]
          exact Nat.add_lt_add_left ih _
      _ ≤ 256 ^ bytes.length * 256 := by
          rw [Nat.mul_comm]
          exact Nat.mul_le_mul_left _ hb

theorem bigEndian_add_mul (width n k : Nat) :
    bigEndian width (k * 256 ^ width + n) = bigEndian width n := by
  induction width generalizing k n with
  | zero => rfl
  | succ width ih =>
    have hsplit : k * 256 ^ (width + 1) + n = (k * 256) * 256 ^ width + n := by ring
    have hpos : 0 < 256 ^ width := Nat.pos_of_ne_zero (by simp)
    rw [bigEndian_succ, bigEndian_succ, hsplit, ih, Nat.add_comm, Nat.add_mul_div_right _ _ hpos]
    congr 1
    apply UInt8.toNat_inj.1
    simp

/-- Bytes are the number that they stand for. -/
theorem bigEndian_ofBigEndian (bytes : List UInt8) :
    bigEndian bytes.length (ofBigEndian bytes) = bytes := by
  induction bytes with
  | nil => rfl
  | cons b bytes ih =>
    have hpos : 0 < 256 ^ bytes.length := Nat.pos_of_ne_zero (by simp)
    have hdigit :
        (b.toNat * 256 ^ bytes.length + ofBigEndian bytes) / 256 ^ bytes.length = b.toNat := by
      rw [Nat.add_comm, Nat.add_mul_div_right _ _ hpos, Nat.div_eq_of_lt (ofBigEndian_lt bytes),
        Nat.zero_add]
    rw [List.length_cons, ofBigEndian_cons, bigEndian_succ, hdigit, bigEndian_add_mul, ih,
      UInt8.ofNat_toNat]

/-- Whether a text is short enough to be stored. -/
def Fits (value : String) : Prop :=
  (Text.utf8 value).length ≤ textLimit

instance (value : String) : Decidable (Fits value) :=
  inferInstanceAs (Decidable ((Text.utf8 value).length ≤ textLimit))

theorem fits_empty : Fits "" := Nat.zero_le _

theorem textBytes_eq_ok {value : String} (h : Fits value) :
    textBytes value = .ok (bigEndian 2 (Text.utf8 value).length ++ Text.utf8 value) := by
  rw [Fits] at h
  simp only [textBytes, textParts, if_pos h]
  rfl

theorem fits_of_textBytes {value : String} {bytes : List UInt8}
    (h : textBytes value = .ok bytes) : Fits value := by
  by_contra hlong
  rw [Fits] at hlong
  simp only [textBytes, textParts, if_neg hlong] at h
  exact absurd h (by simp [Except.map])

theorem exists_textBytes {value : String} (h : Fits value) : ∃ bytes, textBytes value = .ok bytes :=
  ⟨_, textBytes_eq_ok h⟩

/-- A sequence of two steps succeeds when both do. -/
theorem bind_eq_ok_iff {α β : Type} {x : Except Error α} {f : α → Except Error β} {b : β} :
    (x >>= f) = .ok b ↔ ∃ a, x = .ok a ∧ f a = .ok b := by
  cases x with
  | error e => simp [bind, Except.bind]
  | ok a => simp [bind, Except.bind]

namespace Stream

variable (rest : List UInt8) (fault : Option IoFailure)

theorem take_append {n : Nat} (front : List UInt8) (cause : Corruption) (h : front.length = n) :
    (⟨front ++ rest, fault⟩ : Stream).take n cause = (.ok front, ⟨rest, fault⟩) := by
  simp only [take, List.take_left' h, List.drop_left' h, if_pos h]

theorem int32_append (value : Int32) :
    (⟨int32Bytes value ++ rest, fault⟩ : Stream).int32 = (.ok value, ⟨rest, fault⟩) := by
  have hlt : value.toUInt32.toNat < 256 ^ 4 := value.toUInt32.toNat_lt
  simp only [int32, int32Bytes, take_append rest fault _ _ (length_bigEndian 4 _),
    ofBigEndian_bigEndian hlt, UInt32.ofNat_toNat, Int32.toInt32_toUInt32]

/-- A stream is too short for a word or begins with one. -/
theorem int32_cases (s : Stream) :
    (s.bytes.length < 4 ∧ s.int32 = (.error (s.shortage .endOfData), ⟨[], s.fault⟩)) ∨
      ∃ value rest, s.bytes = int32Bytes value ++ rest ∧ s.int32 = (.ok value, ⟨rest, s.fault⟩) := by
  rcases Nat.lt_or_ge s.bytes.length 4 with hshort | hlong
  · have htake : (s.bytes.take 4).length ≠ 4 := by
      rw [List.length_take]
      omega
    exact .inl ⟨hshort, by simp only [int32, take, if_neg htake]⟩
  · have htake : (s.bytes.take 4).length = 4 := List.length_take_of_le hlong
    have hbytes := bigEndian_ofBigEndian (s.bytes.take 4)
    have hlt : ofBigEndian (s.bytes.take 4) < UInt32.size := by
      have := ofBigEndian_lt (s.bytes.take 4)
      rwa [htake] at this
    refine .inr ⟨(UInt32.ofNat (ofBigEndian (s.bytes.take 4))).toInt32, s.bytes.drop 4, ?_, ?_⟩
    · rw [int32Bytes, UInt32.toUInt32_toInt32, UInt32.toNat_ofNat_of_lt' hlt]
      rw [htake] at hbytes
      rw [hbytes, List.take_append_drop]
    · simp only [int32, take, if_pos htake]

theorem int16_append (value : Int16) :
    (⟨int16Bytes value ++ rest, fault⟩ : Stream).int16 = (.ok value, ⟨rest, fault⟩) := by
  have hlt : value.toUInt16.toNat < 256 ^ 2 := value.toUInt16.toNat_lt
  simp only [int16, int16Bytes, take_append rest fault _ _ (length_bigEndian 2 _),
    ofBigEndian_bigEndian hlt, UInt16.ofNat_toNat, Int16.toInt16_toUInt16]

theorem text_append {value : String} {bytes : List UInt8} (h : textBytes value = .ok bytes) :
    (⟨bytes ++ rest, fault⟩ : Stream).text = (.ok value, ⟨rest, fault⟩) := by
  have hlen := fits_of_textBytes h
  have hlt : (Text.utf8 value).length < 256 ^ 2 := Nat.lt_succ_of_le hlen
  rw [textBytes_eq_ok hlen] at h
  obtain rfl := Except.ok.inj h
  simp only [text, List.append_assoc, take_append _ fault _ _ (length_bigEndian 2 _),
    ofBigEndian_bigEndian hlt, take_append rest fault _ _ rfl, Text.ofUtf8?_utf8]

end Stream

end AblAnalysis.Artifact
