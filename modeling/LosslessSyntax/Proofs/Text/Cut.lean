import LosslessSyntax.Text.Span
import Mathlib.Data.List.Basic

/-!
# Texts cut between characters

A cut after a number of bytes is possible exactly where the text is two texts, the first of which has
that many bytes. Between two such cuts lies a text again, and it is what a slice of the bytes gives.

* `Text.bytes_toList`: the bytes of a text are those of its characters;
* `Text.isBoundary_iff`, **`Text.isBoundary_toList_iff`**: where a text can be cut;
* `Text.exists_parts`: the three parts between two cuts;
* `Text.slice?`: the stretch of a text between two offsets, which must fall between characters;
* **`Text.slice?_append`**: such a stretch.
-/

namespace LosslessSyntax.Text

section

variable {cs left right : List Char} {n m : Nat}

/-! ## Bytes -/

@[simp] theorem bytes_append (left right : List Char) :
    bytes (left ++ right) = bytes left + bytes right := by
  induction left with
  | nil => rw [List.nil_append, bytes, Nat.zero_add]
  | cons c left ih => rw [List.cons_append, bytes, bytes, ih, Nat.add_assoc]

theorem eq_nil_of_bytes (h : bytes cs = 0) : cs = [] := by
  cases cs with
  | nil => rfl
  | cons c cs =>
    have hpos := c.utf8Size_pos
    rw [bytes] at h
    omega

theorem utf8ByteSize_ofList (cs : List Char) : (String.ofList cs).utf8ByteSize = bytes cs := by
  induction cs with
  | nil => simp [bytes]
  | cons c cs ih =>
    rw [← List.singleton_append, String.ofList_append, String.utf8ByteSize_append, ih]
    simp [bytes]

theorem bytes_toList (text : String) : bytes text.toList = text.utf8ByteSize := by
  rw [← utf8ByteSize_ofList, String.ofList_toList]

/-! ## Cuts -/

/-- **A cut is possible where a row of characters is two rows**, the first of that many bytes. -/
theorem isBoundary_iff :
    isBoundary cs n = true ↔ ∃ left right, cs = left ++ right ∧ bytes left = n := by
  induction cs generalizing n with
  | nil =>
    cases n with
    | zero => exact iff_of_true rfl ⟨[], [], rfl, rfl⟩
    | succ n =>
      refine iff_of_false nofun ?_
      rintro ⟨left, right, hcut, hbytes⟩
      rw [(List.append_eq_nil_iff.1 hcut.symm).1] at hbytes
      cases hbytes
  | cons c cs ih =>
    cases n with
    | zero => exact iff_of_true rfl ⟨[], c :: cs, rfl, rfl⟩
    | succ n =>
      rw [isBoundary, Bool.and_eq_true, decide_eq_true_iff, ih]
      constructor
      · rintro ⟨hsize, left, right, rfl, hbytes⟩
        exact ⟨c :: left, right, rfl, by rw [bytes, hbytes]; omega⟩
      · rintro ⟨left, right, hcut, hbytes⟩
        cases left with
        | nil => cases hbytes
        | cons d left =>
          obtain ⟨rfl, rfl⟩ := List.cons.inj hcut
          rw [bytes] at hbytes
          exact ⟨by omega, left, right, rfl, by omega⟩

/-- **A text can be cut where its bytes before the cut are a text.** -/
theorem isBoundary_toList_iff {text : String} :
    isBoundary text.toList n = true ↔ (⟨n⟩ : String.Pos.Raw).IsValid text := by
  rw [isBoundary_iff, String.Pos.Raw.isValid_iff_exists_append]
  constructor
  · rintro ⟨left, right, hcut, rfl⟩
    refine ⟨String.ofList left, String.ofList right, ?_, ?_⟩
    · rw [← String.ofList_append, ← hcut, String.ofList_toList]
    · rw [String.rawEndPos, utf8ByteSize_ofList]
  · rintro ⟨left, right, rfl, hend⟩
    refine ⟨left.toList, right.toList, String.toList_append, ?_⟩
    rw [bytes_toList]
    exact (congrArg String.Pos.Raw.byteIdx hend).symm

@[simp] theorem takeBytes_append (left right : List Char) :
    takeBytes (left ++ right) (bytes left) = left := by
  induction left with
  | nil =>
    cases right with
    | nil => rfl
    | cons c right => exact if_neg (Nat.not_le.2 c.utf8Size_pos)
  | cons c left ih =>
    rw [List.cons_append, takeBytes, bytes, if_pos (Nat.le_add_right _ _), Nat.add_sub_cancel_left, ih]

@[simp] theorem dropBytes_append (left right : List Char) :
    dropBytes (left ++ right) (bytes left) = right := by
  induction left with
  | nil =>
    cases right with
    | nil => rfl
    | cons c right => exact if_neg (Nat.not_le.2 c.utf8Size_pos)
  | cons c left ih =>
    rw [List.cons_append, dropBytes, bytes, if_pos (Nat.le_add_right _ _), Nat.add_sub_cancel_left, ih]

/-- **Two cuts leave three parts.** -/
theorem exists_parts (hn : isBoundary cs n = true) (hm : isBoundary cs m = true) (hle : n ≤ m) :
    ∃ before middle after, cs = before ++ (middle ++ after) ∧ bytes before = n ∧
      bytes middle = m - n := by
  obtain ⟨before, rest, hcut, rfl⟩ := isBoundary_iff.1 hn
  obtain ⟨front, after, hcut', rfl⟩ := isBoundary_iff.1 hm
  rcases List.append_eq_append_iff.1 (hcut.symm.trans hcut') with
    ⟨middle, rfl, rfl⟩ | ⟨middle, rfl, rfl⟩
  · refine ⟨before, middle, after, hcut, rfl, ?_⟩
    rw [bytes_append, Nat.add_sub_cancel_left]
  · -- the later cut is no later than the earlier one, so nothing is between them
    rw [bytes_append] at hle
    obtain rfl := eq_nil_of_bytes (show bytes middle = 0 by omega)
    refine ⟨front, [], rest, ?_, by rw [List.append_nil], ?_⟩
    · rw [hcut, List.append_nil]
      rfl
    · rw [List.append_nil, Nat.sub_self]
      rfl

end

/-! ## Slices -/

/-- The middle one of three runs of bytes. -/
theorem extract_middle (left middle right : ByteArray) :
    (left ++ middle ++ right).extract left.size (left.size + middle.size) = middle := by
  have h := ByteArray.extract_append_size_add (a := left) (b := middle ++ right) (i := 0)
    (j := middle.size)
  rw [Nat.add_zero] at h
  rw [ByteArray.append_assoc, h]
  exact ByteArray.extract_append_eq_left rfl

/-- The stretch of a text with the given ends, both of which have to fall between characters. -/
def slice? (text : String) (span : Span) : Option String :=
  if isBoundary text.toList span.start && isBoundary text.toList span.stop then
    String.fromUTF8? (text.toByteArray.extract span.start span.stop)
  else none

/-- **The stretch between two cuts is what stands there.** -/
theorem slice?_append {before middle after : String} {span : Span}
    (start : span.start = before.utf8ByteSize)
    (stop : span.stop = before.utf8ByteSize + middle.utf8ByteSize) :
    slice? (before ++ middle ++ after) span = some middle := by
  have hstart : isBoundary (before ++ middle ++ after).toList span.start = true :=
    isBoundary_iff.2 ⟨before.toList, (middle ++ after).toList,
      by rw [String.append_assoc, String.toList_append], by rw [bytes_toList, start]⟩
  have hstop : isBoundary (before ++ middle ++ after).toList span.stop = true :=
    isBoundary_iff.2 ⟨(before ++ middle).toList, after.toList, String.toList_append,
      by rw [bytes_toList, String.utf8ByteSize_append, stop]⟩
  have hbytes : (before ++ middle ++ after).toByteArray.extract span.start span.stop =
      middle.toByteArray := by
    rw [String.toByteArray_append, String.toByteArray_append, start, stop]
    exact extract_middle _ _ _
  rw [slice?, hstart, hstop, hbytes]
  exact dif_pos middle.isValidUTF8

end LosslessSyntax.Text
