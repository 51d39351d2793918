import FetchStage.Wave

/-! # Bytes of a wave line

A line is made of names, braces and decimal numbers, so each of its characters is stored as a single byte. What is cut off a
line after a number of characters is therefore cut off after as many bytes.
-/
namespace FetchStage

namespace Text
variable {s t : String}

/-- The bytes that a text is stored as. -/
def bytes (s : String) : List UInt8 := s.toUTF8.data.toList

theorem bytes_append (s t : String) : bytes (s ++ t) = bytes s ++ bytes t := by
  rw [bytes, String.toUTF8_eq_toByteArray, String.toByteArray_append, ByteArray.toList_data_append]
  rfl

theorem length_bytes (s : String) : (bytes s).length = s.utf8ByteSize := rfl

/-- Every character is stored as a single byte. -/
def isAscii (s : String) : Bool := s.toList.all fun c => decide (c.val ≤ 127)

theorem bytes_of_isAscii (h : isAscii s) : bytes s = s.toList.map fun c => c.val.toUInt8 := by
  have hencode : s.toList.map String.utf8EncodeChar = s.toList.map fun c => [c.val.toUInt8] := by
    apply List.map_congr_left
    intro c hc
    have hsmall : c.val ≤ 127 := of_decide_eq_true (List.all_eq_true.mp h c hc)
    exact String.utf8EncodeChar_eq_singleton (Char.utf8Size_eq_one_iff.mpr hsmall)
  rw [bytes, String.toUTF8_eq_toByteArray, ← String.ofList_toList (s := s), String.toByteArray_ofList, List.utf8Encode,
    List.data_toByteArray, String.toList_ofList, List.flatMap_def, hencode, ← List.flatMap_def, ← List.map_eq_flatMap]

theorem utf8ByteSize_of_isAscii (h : isAscii s) : s.utf8ByteSize = s.length := by
  rw [← length_bytes, bytes_of_isAscii h, List.length_map, String.length_toList]

theorem bytes_take (h : isAscii s) (n : Nat) : bytes (String.ofList (s.toList.take n)) = (bytes s).take n := by
  have hfront : isAscii (String.ofList (s.toList.take n)) := by
    rw [isAscii, String.toList_ofList, List.all_eq_true]
    intro c hc
    exact List.all_eq_true.mp h c (List.mem_of_mem_take hc)
  rw [bytes_of_isAscii hfront, bytes_of_isAscii h, String.toList_ofList, List.map_take]

@[simp] theorem isAscii_append : isAscii (s ++ t) = (isAscii s && isAscii t) := by
  rw [isAscii, String.toList_append, List.all_append]
  rfl

theorem isAscii_intercalate (h : isAscii s) (ts : List String) : isAscii (s.intercalate ts) = ts.all isAscii := by
  unfold isAscii at h
  rw [isAscii, String.toList_intercalate]
  induction ts with
  | nil => rfl
  | cons t ts ih =>
    cases ts with
    | nil => simp [isAscii]
    | cons u us =>
      rw [List.map_cons, List.map_cons, List.intercalate_cons_cons, ← List.map_cons, List.all_append, List.all_append, h,
        ih, Bool.and_true, List.all_cons (a := t)]
      rfl

@[simp] theorem isAscii_repr (n : Nat) : isAscii n.repr := by
  rw [isAscii, Nat.toList_repr, List.all_eq_true]
  intro c hc
  have hdigit := Char.isDigit_iff_toNat.mp (Nat.isDigit_of_mem_toDigits (by decide) (by decide) hc)
  have hlast : c.toNat ≤ 57 := hdigit.2
  have hsmall : c.val ≤ 127 := UInt32.le_iff_toNat_le.mpr (Nat.le_trans hlast (by decide))
  exact decide_eq_true hsmall

end Text

open Text

@[simp] theorem isAscii_flagText (b : Bool) : isAscii (flagText b) := by
  cases b <;> decide

@[simp] theorem isAscii_wordNumber (w : BitVec 32) : isAscii (wordNumber w) := isAscii_repr _

@[simp] theorem isAscii_member (name value : String) : isAscii (member name value) = (isAscii name && isAscii value) := by
  have hquote : isAscii "\"" = true := by decide
  have hcolon : isAscii "\":" = true := by decide
  simp [member, hquote, hcolon]

@[simp] theorem isAscii_object (members : List String) : isAscii (object members) = members.all isAscii := by
  have hopen : isAscii "\x7b" = true := by decide
  have hclose : isAscii "\x7d" = true := by decide
  have hcomma : isAscii "," = true := by decide
  simp [object, hopen, hclose, isAscii_intercalate hcomma]

namespace CycleRecord
variable (r : CycleRecord)

theorem isAscii_waveLine : isAscii r.waveLine := by
  simp +decide [waveLine, Inputs.json, Outputs.json, Request.json, Response.json, Resolution.json, Prediction.json,
    FetchState.json]

/-- A line has at least its end. -/
theorem waveLine_pos : 0 < r.waveLine.utf8ByteSize := by
  rw [waveLine, String.utf8ByteSize_append]
  exact Nat.lt_add_left _ (by decide)

end CycleRecord

end FetchStage
