import AblAnalysis.Proofs.Artifact.Legible

/-!
Artifacts end by themselves. How far bytes are read depends on the bytes that are read: there is a
number of them that decides, whatever comes after them, and with fewer of them reading fails for want
of data (`Extent`). For the artifact of a unit, read to its end, that is all of it, so one that was cut
is never taken for a whole one.
-/

namespace AblAnalysis.Artifact

open Reader

variable {bytes : List UInt8} {target : Depth} {c : Contents} {n : Nat}

/-- Whether the first `n` bytes decide what a load as far as a target gives: with the same bytes and
anything after them it gives the same, and with fewer of them it fails for want of data. -/
structure Extent (bytes : List UInt8) (target : Depth) (c : Contents) (n : Nat) : Prop where
  le : n ≤ bytes.length
  enough : ∀ other : List UInt8, other.take n = bytes.take n → Gives other target (.ok ()) c
  needed : ∀ k < n, ∃ cut e, RunsShort e ∧
    Gives (bytes.take k) target (.error (.unreadable e)) cut

theorem Gives.unique {result result' : Except LoadFailure Unit} {c' : Contents}
    (h : Gives bytes target result c) (h' : Gives bytes target result' c') : result = result' := by
  have heq := (gives_iff.1 h).symm.trans (gives_iff.1 h')
  exact (Prod.mk.inj heq).2

theorem Extent.unique {n' : Nat} (h : Extent bytes target c n) (h' : Extent bytes target c n') :
    n = n' := by
  have hle : ∀ {n n'}, Extent bytes target c n → Extent bytes target c n' → n' ≤ n := by
    intro n n' h h'
    by_contra hlt
    obtain ⟨cut, e, -, hcut⟩ := h'.needed n (Nat.not_le.1 hlt)
    have hwhole := h.enough (bytes.take n) (by rw [List.take_take, Nat.min_self])
    exact absurd (hwhole.unique hcut) (by simp)
  exact Nat.le_antisymm (hle h' h) (hle h h')

theorem length_int32Bytes (value : Int32) : (int32Bytes value).length = 4 :=
  length_bigEndian 4 _

/-- Bytes that end inside the version. -/
theorem gives_of_short_version (h : bytes.length < 4) (target : Depth) :
    ∃ cut e, RunsShort e ∧ Gives bytes target (.error (.unreadable e)) cut := by
  refine ⟨{}, _, runsShort_endOfData, gives_iff.2 ?_⟩
  rcases Stream.int32_cases ⟨bytes, none⟩ with ⟨-, hread⟩ | ⟨value, rest, hbytes, -⟩
  · rw [Contents.decode, Contents.read, readFiles_empty, hread]
    rfl
  · simp only at hbytes
    rw [hbytes, List.length_append, length_int32Bytes] at h
    omega

/-- Bytes that end inside what is taken after the version. -/
theorem gives_of_short_body {used : List UInt8} (h : Takes (body target) used c) {j : Nat}
    (hj : j < used.length) :
    ∃ cut e, RunsShort e ∧
      Gives (int32Bytes layoutVersion ++ used.take j) target (.error (.unreadable e)) cut := by
  have hleft : used.drop j ≠ [] := by
    intro hnil
    have := congrArg List.length hnil
    rw [List.length_drop, List.length_nil] at this
    omega
  obtain ⟨e, he, hread⟩ :=
    h.short (used.take j) (used.drop j) (List.take_append_drop j used) hleft
  obtain ⟨cut, hcut⟩ := decode_of_body_error hread
  exact ⟨cut, e, he, gives_iff.2 hcut⟩

/-- What is taken after the version decides. -/
theorem extent_of_takes {used : List UInt8} (h : Takes (body target) used c) (more : List UInt8) :
    Extent (int32Bytes layoutVersion ++ (used ++ more)) target c (4 + used.length) where
  le := by
    simp only [List.length_append, length_int32Bytes]
    omega
  enough := by
    intro other hother
    have hfront : other.take (4 + used.length) = int32Bytes layoutVersion ++ used := by
      rw [hother, ← List.append_assoc]
      exact List.take_left' (by rw [List.length_append, length_int32Bytes])
    have hsplit := List.take_append_drop (4 + used.length) other
    rw [hfront, List.append_assoc] at hsplit
    rw [← hsplit]
    exact gives_iff.2 (decode_of_body_ok (h.whole _))
  needed := by
    intro k hk
    rcases Nat.lt_or_ge k 4 with hshort | hlong
    · refine gives_of_short_version ?_ target
      rw [List.length_take]
      omega
    · obtain ⟨j, rfl⟩ := Nat.exists_eq_add_of_le hlong
      have hfront : (int32Bytes layoutVersion ++ (used ++ more)).take (4 + j) =
          int32Bytes layoutVersion ++ used.take j := by
        rw [← length_int32Bytes layoutVersion, List.take_length_add_append,
          List.take_append_of_le_length (by omega)]
      rw [hfront]
      exact gives_of_short_body h (by omega)

/-- The artifact of a unit is read to its end. -/
theorem Parts.Encode.exists_body {p : Parts} {u : ParsedUnit} (h : Storable u)
    (hp : p.Encode (.describe u) u.tree) :
    ∃ tree, (body .stringsLoaded).run ⟨p.files ++ p.middle u.tree (p.strings ++ []), none⟩ =
      .ok (keptContents u tree, ⟨[], none⟩) := by
  have henc := h.encodable
  obtain ⟨raw, hren, hread⟩ := hp.exists_readSegments henc (p.strings ++ [])
  obtain ⟨tree, htree, -⟩ :=
    exists_readStrings_append [] none henc.linked hp.strings henc.strings hren
  rw [htree _ (by rfl)] at hread
  refine ⟨tree, ?_⟩
  rw [body, run_bind, run_part, hp.decodeFiles_append henc]
  simp only [Except.map, run_part, hread]
  rfl

/-- Bytes that are accepted decide by a number of the first of them what is read as far as the target,
and for the artifact of a unit, if all of it is read, that number is all of them. -/
theorem exists_extent :
    (∀ (bytes : List UInt8) (target : Depth) (c : Contents), Gives bytes target (.ok ()) c →
      ∃ n, Extent bytes target c n ∧ ∀ n', Extent bytes target c n' → n' = n) ∧
    ∀ (u : ParsedUnit) (bytes : List UInt8), Storable u →
      (Contents.describe u).encode u.tree = .ok bytes →
        ∃ tree, Extent bytes .stringsLoaded (keptContents u tree) bytes.length := by
  constructor
  · intro bytes target c h
    obtain ⟨more, rest, rfl, hbody⟩ := exists_body_of_decode (gives_iff.1 h)
    obtain ⟨used, left, rfl, -, htakes, -⟩ := reads_body target _ more c rest rfl hbody
    have hextent := extent_of_takes htakes left
    exact ⟨_, hextent, fun n' h' => h'.unique hextent⟩
  · intro u bytes hu hbytes
    obtain ⟨p, hp⟩ := hu.exists_parts
    obtain rfl := Except.ok.inj (hp.encode_eq.symm.trans hbytes)
    obtain ⟨tree, hbody⟩ := hp.exists_body hu
    obtain ⟨used, left, hused, hleft, htakes, -⟩ := reads_body _ _ _ _ _ rfl hbody
    obtain rfl : left = [] := (congrArg Stream.bytes hleft).symm
    have hextent := extent_of_takes htakes []
    have hparts : p.bytes u.tree = int32Bytes layoutVersion ++ (used ++ []) := by
      rw [← hused]
      rfl
    refine ⟨tree, ?_⟩
    rw [hparts]
    refine Eq.mp (congrArg _ ?_) hextent
    rw [List.length_append, length_int32Bytes, List.append_nil]

/-- An artifact without files, and one byte more. -/
def trailingBytes : List UInt8 :=
  [0, 0, 0, 11, 255, 255, 255, 255, 0, 0, 7]

theorem exists_extent_trailingBytes :
    (Gives trailingBytes .filesLoaded (.ok ()) { depth := .filesLoaded, current := true } ∧
      Extent trailingBytes .filesLoaded { depth := .filesLoaded, current := true } 10) ∧
    Storable sampleUnit ∧ ∃ bytes, (Contents.describe sampleUnit).encode sampleUnit.tree = .ok bytes ∧
      ∃ tree, Extent bytes .stringsLoaded (keptContents sampleUnit tree) bytes.length := by
  have hgives : ∀ k ∈ [10, 11], Gives (trailingBytes.take k) .filesLoaded (.ok ())
      { depth := .filesLoaded, current := true } := by
    intro k hk
    refine gives_iff.2 ?_
    revert k
    decide +kernel
  have hcut : (Contents.decode .filesLoaded ⟨trailingBytes.take 9, none⟩).2 ≠ .ok () := by
    decide +kernel
  constructor
  · have hall : Gives trailingBytes .filesLoaded (.ok ())
        { depth := .filesLoaded, current := true } := hgives 11 (by decide)
    obtain ⟨n, hn, -⟩ := exists_extent.1 trailingBytes .filesLoaded _ hall
    have hge : 10 ≤ n := by
      by_contra hlt
      have htake : (trailingBytes.take 9).take n = trailingBytes.take n := by
        rw [List.take_take, Nat.min_eq_left (by omega)]
      exact hcut (congrArg Prod.snd (gives_iff.1 (hn.enough _ htake)))
    have hle : n ≤ 10 := by
      by_contra hlt
      obtain ⟨cut, e, -, hshort⟩ := hn.needed 10 (by omega)
      exact absurd ((hgives 10 (by decide)).unique hshort) (by simp)
    obtain rfl := Nat.le_antisymm hle hge
    exact ⟨hall, hn⟩
  · obtain ⟨p, hp⟩ := storable_sampleUnit.exists_parts
    exact ⟨storable_sampleUnit, _, hp.encode_eq,
      exists_extent.2 sampleUnit _ storable_sampleUnit hp.encode_eq⟩

end AblAnalysis.Artifact
