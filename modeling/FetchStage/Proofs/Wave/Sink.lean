import FetchStage.Proofs.Wave.Line

/-! # A sink of limited room

The sink has the front of everything it was given. How that was divided into writes makes no difference, and once something
did not fit no room is left, so nothing is lost by giving it nothing more.
-/
namespace FetchStage
open Text

theorem join_concat (lines : List String) (line : String) : String.join (lines ++ [line]) = String.join lines ++ line := by
  rw [String.join_append, String.join_cons, String.join_nil, String.append_empty]

namespace Sink
variable {s t u : Sink} {room : Nat} {given more : String}

theorem text_cons (piece : String) (stored : List String) (left : Option Nat) :
    text ⟨piece :: stored, left⟩ = text ⟨stored, left⟩ ++ piece := by
  rw [text, List.reverse_cons, join_concat]
  rfl

theorem text_write (s : Sink) (more : String) :
    (s.write more).text = s.text ++ s.room.elim more fun n => String.ofList (more.toList.take n) := by
  cases h : s.room <;> simp only [write, h, text_cons] <;> rfl

theorem room_write (s : Sink) (more : String) : (s.write more).room = s.room.map (· - more.length) := by
  cases h : s.room <;> simp only [write, h] <;> rfl

section Took

/-- A sink that had `room` bytes was given a text. -/
structure Took (room : Nat) (given : String) (s : Sink) : Prop where
  stored : bytes s.text = (bytes given).take room
  left : s.room = some (room - given.utf8ByteSize)

theorem Took.write (h : s.Took room given) (hmore : isAscii more) : (s.write more).Took room (given ++ more) := by
  constructor
  · calc bytes (s.write more).text
        = bytes s.text ++ bytes (String.ofList (more.toList.take (room - given.utf8ByteSize))) := by
          rw [text_write, h.left, Option.elim_some, bytes_append]
      _ = (bytes given).take room ++ (bytes more).take (room - (bytes given).length) := by
          rw [h.stored, bytes_take hmore, length_bytes]
      _ = (bytes (given ++ more)).take room := by rw [bytes_append, List.take_append]
  · rw [room_write, h.left, Option.map_some, String.utf8ByteSize_append, utf8ByteSize_of_isAscii hmore, Nat.sub_add_eq]

/-- A full sink loses nothing by being given nothing more. -/
theorem Took.skip (h : s.Took room given) (hfull : room ≤ given.utf8ByteSize) (more : String) :
    s.Took room (given ++ more) := by
  constructor
  · rw [h.stored, bytes_append, List.take_append_of_le_length (by rwa [length_bytes])]
  · have hnone : room - (given ++ more).utf8ByteSize = room - given.utf8ByteSize := by
      rw [String.utf8ByteSize_append]
      omega
    rw [h.left, hnone]

theorem Took.fits_iff (h : s.Took room given) (hmore : isAscii more) (hpos : 0 < more.utf8ByteSize) :
    s.fits more.length ↔ (given ++ more).utf8ByteSize ≤ room := by
  simp only [fits, h.left, ← utf8ByteSize_of_isAscii hmore, decide_eq_true_eq, String.utf8ByteSize_append]
  omega

end Took

section Writes

/-- One text after another, up to the first that does not fit; whether all did. -/
def writeEach (s : Sink) : List String → Bool × Sink
  | [] => (true, s)
  | piece :: rest => if s.fits piece.length then (s.write piece).writeEach rest else (false, s.write piece)

/-- The same text, and the same room for more. -/
structure Same (s t : Sink) : Prop where
  text : s.text = t.text
  room : s.room = t.room

theorem Same.trans (h : s.Same t) (h' : t.Same u) : s.Same u := ⟨h.text.trans h'.text, h.room.trans h'.room⟩

theorem Same.fits (h : s.Same t) (size : Nat) : s.fits size = t.fits size := by
  rw [Sink.fits, Sink.fits, h.room]

theorem Same.write (h : s.Same t) (more : String) : (s.write more).Same (t.write more) :=
  ⟨by rw [text_write, text_write, h.text, h.room], by rw [room_write, room_write, h.room]⟩

theorem write_append (s : Sink) (piece rest : String) : ((s.write piece).write rest).Same (s.write (piece ++ rest)) := by
  constructor
  · rw [text_write, text_write, text_write, room_write, String.append_assoc]
    cases s.room with
    | none => rfl
    | some n =>
      simp only [Option.map_some, Option.elim_some, String.toList_append, List.take_append, String.length_toList,
        String.ofList_append]
  · rw [room_write, room_write, room_write, Option.map_map, String.length_append]
    cases s.room with
    | none => rfl
    | some n => exact congrArg some (Nat.sub_add_eq n _ _).symm

theorem fits_append (s : Sink) (piece rest : String) :
    s.fits (piece ++ rest).length = (s.fits piece.length && (s.write piece).fits rest.length) := by
  rw [fits, fits, fits, room_write, String.length_append]
  cases s.room with
  | none => rfl
  | some n =>
    simp only [Option.map_some, ← Bool.decide_and, decide_eq_decide]
    omega

theorem write_of_not_fits {piece : String} (h : s.fits piece.length = false) (rest : String) :
    (s.write piece).Same (s.write (piece ++ rest)) := by
  have hfull : (s.write piece).room = some 0 := by
    rw [room_write]
    cases hroom : s.room with
    | none => simp [fits, hroom] at h
    | some n =>
      simp only [fits, hroom, decide_eq_false_iff_not] at h
      simp only [Option.map_some]
      congr 1
      omega
  refine Same.trans ⟨?_, ?_⟩ (write_append s piece rest)
  · rw [text_write (s.write piece), hfull]
    simp
  · rw [room_write (s.write piece), hfull]
    simp

/-- It makes no difference how a text is divided into writes. -/
theorem writeEach_eq (s : Sink) (pieces : List String) :
    (s.writeEach pieces).1 = s.fits (String.join pieces).length ∧
      (s.writeEach pieces).2.Same (s.write (String.join pieces)) := by
  induction pieces generalizing s with
  | nil =>
    refine ⟨?_, ?_, ?_⟩
    · cases h : s.room <;> simp [writeEach, fits, h]
    · cases h : s.room <;> simp [writeEach, text_write, h]
    · cases h : s.room <;> simp [writeEach, room_write, h]
  | cons piece rest ih =>
    rw [String.join_cons, fits_append, writeEach]
    cases h : s.fits piece.length with
    | false => exact ⟨rfl, write_of_not_fits h _⟩
    | true =>
      obtain ⟨hwhole, hsame⟩ := ih (s.write piece)
      exact ⟨hwhole, hsame.trans (write_append s piece _)⟩

end Writes

end Sink

end FetchStage
