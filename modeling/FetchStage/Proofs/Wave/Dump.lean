import FetchStage.Proofs.Wave.Sink
import Mathlib.Data.List.DropRight
import Mathlib.Data.List.Induction
import Mathlib.Order.Bounds.Basic

/-! # What a dump leaves in its sink

Once a line has been cut no room is left. So it makes no difference that the dump skips the cycles after it until the failure
is reported, nor that it then tries again: the text is the front of all lines, the count is that of the whole lines in it, and
a flush reports a failure if a cycle since the flush before was not stored whole.
-/
namespace FetchStage.WaveDump
open Text

section Fitting
variable {room k : Nat} {lines front : List String} {line : String}

/-- How many lines, from the first on, may go into `room` bytes. -/
def fitting (room : Nat) (lines : List String) : Set Nat :=
  {k | k ≤ lines.length ∧ (String.join (lines.take k)).utf8ByteSize ≤ room}

theorem size_le_of_front (h : front <+: lines) : (String.join front).utf8ByteSize ≤ (String.join lines).utf8ByteSize := by
  obtain ⟨rest, rfl⟩ := h
  rw [String.join_append, String.utf8ByteSize_append]
  exact Nat.le_add_right _ _

theorem length_le_size (h : ∀ line ∈ lines, 0 < line.utf8ByteSize) :
    lines.length ≤ (String.join lines).utf8ByteSize := by
  induction lines with
  | nil => exact Nat.zero_le _
  | cons line lines ih =>
    have hline := h line List.mem_cons_self
    have hlines := ih fun x hx => h x (List.mem_cons_of_mem _ hx)
    rw [String.join_cons, String.utf8ByteSize_append, List.length_cons]
    omega

/-- Of the lines at the front some are missing if together they do not fit. -/
theorem lt_length_iff (h : IsGreatest (fitting room lines) k) (hf : front <+: lines) :
    k < front.length ↔ room < (String.join front).utf8ByteSize := by
  have htake : lines.take front.length = front := (List.prefix_iff_eq_take.mp hf).symm
  constructor
  · intro hk
    by_contra hle
    have hmem : front.length ∈ fitting room lines := ⟨hf.length_le, by rw [htake]; omega⟩
    have hge := h.2 hmem
    omega
  · intro hlt
    by_contra hle
    have hfront : front <+: lines.take k := by
      rw [← htake]
      exact List.take_prefix_take_left (by omega)
    have hsize := size_le_of_front hfront
    have hroom := h.1.2
    omega

theorem isGreatest_concat_of_le (h : (String.join (lines ++ [line])).utf8ByteSize ≤ room) :
    IsGreatest (fitting room (lines ++ [line])) (lines.length + 1) := by
  have hall : (lines ++ [line]).take (lines.length + 1) = lines ++ [line] := List.take_of_length_le (by simp)
  constructor
  · exact ⟨by simp, by rwa [hall]⟩
  · intro k hk
    simpa using hk.1

theorem fitting_concat_of_lt (h : room < (String.join (lines ++ [line])).utf8ByteSize) :
    fitting room (lines ++ [line]) = fitting room lines := by
  ext k
  constructor
  · rintro ⟨hk, hfit⟩
    have hle : k ≤ lines.length := by
      by_contra hlong
      rw [List.take_of_length_le (by simp; omega)] at hfit
      omega
    rw [List.take_append_of_le_length hle] at hfit
    exact ⟨hle, hfit⟩
  · rintro ⟨hk, hfit⟩
    refine ⟨by simp; omega, ?_⟩
    rwa [List.take_append_of_le_length hk]

end Fitting

/-- What is asked of a dump. -/
inductive Call where
  | observe (r : CycleRecord)
  | flush

def Call.line? : Call → Option String
  | .observe r => some r.waveLine
  | .flush => none

def Call.isFlush : Call → Bool
  | .observe _ => false
  | .flush => true

/-- The lines of all cycles observed. -/
def offered (calls : List Call) : List String := calls.filterMap Call.line?

/-- The number of cycles observed before the last flush. -/
def settled (calls : List Call) : Nat := (offered (calls.rdropWhile fun c => !c.isFlush)).length

/-- A new dump over a sink of `room` bytes. -/
def ofRoom (room : Nat) : WaveDump := { sink := { room := some room } }

def call (w : WaveDump) : Call → WaveDump
  | .observe r => w.observe r
  | .flush => w.flush.2

def after (room : Nat) (calls : List Call) : WaveDump := calls.foldl call (ofRoom room)

section Run
variable {w : WaveDump} {room : Nat} {lines : List String}

/-- What a cycle does: nothing while a failure is kept, else its line is written, in whole or in part. -/
theorem observe_cases (w : WaveDump) (r : CycleRecord) :
    w.failed = true ∧ w.observe r = w ∨
    w.failed = false ∧ w.sink.fits r.waveLine.length = true ∧
      w.observe r = { sink := w.sink.write r.waveLine, lines := w.lines + 1, failed := false } ∨
    w.failed = false ∧ w.sink.fits r.waveLine.length = false ∧
      w.observe r = { sink := w.sink.write r.waveLine, lines := w.lines, failed := true } := by
  cases hfailed : w.failed with
  | true => simp [observe, hfailed]
  | false => cases hfit : w.sink.fits r.waveLine.length <;> simp [observe, hfailed, hfit]

/-- A dump over a sink that had `room` bytes has been shown the cycles of these lines. -/
structure Tracks (room : Nat) (lines : List String) (w : WaveDump) : Prop where
  took : w.sink.Took room (String.join lines)
  counted : IsGreatest (fitting room lines) w.lines
  full : w.failed = true → room < (String.join lines).utf8ByteSize

theorem tracks_ofRoom (room : Nat) : (ofRoom room).Tracks room [] where
  took := ⟨List.take_nil.symm, rfl⟩
  counted := ⟨⟨Nat.le_refl 0, Nat.zero_le room⟩, fun _ hk => hk.1⟩
  full := by
    intro h
    cases h

/-- A failure is kept if the cycle's line did not fit behind those before it. -/
theorem Tracks.observe (h : w.Tracks room lines) (r : CycleRecord) :
    (w.observe r).Tracks room (lines ++ [r.waveLine]) ∧
      ((w.observe r).failed = true ↔ room < (String.join (lines ++ [r.waveLine])).utf8ByteSize) := by
  have hwrite := h.took.write r.isAscii_waveLine
  have hfits := h.took.fits_iff r.isAscii_waveLine r.waveLine_pos
  have hsize := size_le_of_front (List.prefix_append lines [r.waveLine])
  rw [← join_concat] at hwrite hfits
  obtain ⟨hfailed, heq⟩ | ⟨_, hfit, heq⟩ | ⟨_, hfit, heq⟩ := w.observe_cases r
  · have hfull := h.full hfailed
    have hlt : room < (String.join (lines ++ [r.waveLine])).utf8ByteSize := by omega
    rw [heq]
    refine ⟨⟨?_, ?_, fun _ => hlt⟩, fun _ => hlt, fun _ => hfailed⟩
    · rw [join_concat]
      exact h.took.skip hfull.le _
    · rw [fitting_concat_of_lt hlt]
      exact h.counted
  · have hle := hfits.mp hfit
    have hall : ¬w.lines < lines.length := by
      rw [lt_length_iff h.counted (List.prefix_refl _)]
      omega
    have hlines : w.lines = lines.length := Nat.le_antisymm h.counted.1.1 (Nat.le_of_not_lt hall)
    rw [heq, hlines]
    refine ⟨⟨hwrite, isGreatest_concat_of_le hle, fun hf => ?_⟩, fun hf => ?_, fun hlt => ?_⟩
    · exact absurd hf Bool.false_ne_true
    · exact absurd hf Bool.false_ne_true
    · omega
  · have hlt : room < (String.join (lines ++ [r.waveLine])).utf8ByteSize := by
      rw [← Nat.not_le, ← hfits, hfit]
      exact Bool.false_ne_true
    rw [heq]
    refine ⟨⟨hwrite, ?_, fun _ => hlt⟩, fun _ => hlt, fun _ => rfl⟩
    rw [fitting_concat_of_lt hlt]
    exact h.counted

theorem Tracks.flush (h : w.Tracks room lines) : w.flush.2.Tracks room lines where
  took := h.took
  counted := h.counted
  full := by
    intro hf
    cases hf

theorem after_concat (room : Nat) (calls : List Call) (c : Call) :
    after room (calls ++ [c]) = (after room calls).call c := by
  rw [after, List.foldl_append]
  rfl

theorem offered_concat (calls : List Call) (c : Call) : offered (calls ++ [c]) = offered calls ++ c.line?.toList := by
  rw [offered, List.filterMap_append]
  cases c <;> rfl

theorem tracks_after (room : Nat) (calls : List Call) : (after room calls).Tracks room (offered calls) := by
  induction calls using List.reverseRecOn with
  | nil => exact tracks_ofRoom room
  | append_singleton calls c ih =>
    rw [after_concat, offered_concat]
    cases c with
    | observe r => exact (ih.observe r).1
    | flush => simpa [Call.line?, call] using ih.flush

theorem settled_le (calls : List Call) : settled calls ≤ (offered calls).length :=
  ((List.rdropWhile_prefix _ calls).filterMap _).length_le

/-- A failure is kept if a cycle has been observed since the last flush, and the lines up to it do not fit. -/
theorem failed_after (room : Nat) (calls : List Call) :
    (after room calls).failed = true ↔
      settled calls < (offered calls).length ∧ room < (String.join (offered calls)).utf8ByteSize := by
  induction calls using List.reverseRecOn with
  | nil => simp [after, ofRoom, offered]
  | append_singleton calls c _ =>
    rw [after_concat, offered_concat]
    cases c with
    | observe r =>
      have hsettled : settled (calls ++ [.observe r]) = settled calls := by
        rw [settled, List.rdropWhile_concat_pos _ _ _ rfl]
        rfl
      have hle := settled_le calls
      have hfailed := ((tracks_after room calls).observe r).2
      rw [hsettled]
      simp only [call, Call.line?, Option.toList_some, hfailed, List.length_append, List.length_singleton]
      exact ⟨fun h => ⟨by omega, h⟩, fun h => h.2⟩
    | flush =>
      have hsettled : settled (calls ++ [.flush]) = (offered (calls ++ [.flush])).length := by
        rw [settled, List.rdropWhile_concat_neg _ _ _ (by decide)]
      rw [hsettled, offered_concat]
      simp [call, WaveDump.flush]

theorem lines_le_room (room : Nat) (calls : List Call) : (after room calls).lines ≤ room := by
  obtain ⟨hcount, hfit⟩ := (tracks_after room calls).counted.1
  have hpos : ∀ line ∈ (offered calls).take (after room calls).lines, 0 < line.utf8ByteSize := by
    intro line hline
    obtain ⟨c, _, hc⟩ := List.mem_filterMap.mp (List.mem_of_mem_take hline)
    cases c with
    | observe r =>
      cases hc
      exact r.waveLine_pos
    | flush => cases hc
  have hle := length_le_size hpos
  rw [List.length_take_of_le hcount] at hle
  exact hle.trans hfit

end Run

section Divided
variable {w v : WaveDump} {cut : CycleRecord → List String}

/-- A cycle whose line goes out in the writes that `cut` makes of it. -/
def observeIn (cut : CycleRecord → List String) (w : WaveDump) (r : CycleRecord) : WaveDump :=
  if w.failed then w
  else
    let written := w.sink.writeEach (cut r)
    if written.1 then { sink := written.2, lines := w.lines + 1 } else { w with sink := written.2, failed := true }

def callIn (cut : CycleRecord → List String) (w : WaveDump) : Call → WaveDump
  | .observe r => w.observeIn cut r
  | .flush => w.flush.2

def afterIn (cut : CycleRecord → List String) (room : Nat) (calls : List Call) : WaveDump :=
  calls.foldl (callIn cut) (ofRoom room)

/-- What can be seen of a dump: the text in its sink, the count, and the answer to a flush. -/
def view (w : WaveDump) : String × Nat × Option String := (w.sink.text, w.lines, w.flush.1)

/-- Dumps that only their writes may tell apart. -/
structure Alike (w v : WaveDump) : Prop where
  sink : w.sink.Same v.sink
  lines : w.lines = v.lines
  failed : w.failed = v.failed

theorem Alike.view_eq (h : w.Alike v) : w.view = v.view := by
  simp only [view, flush, h.sink.text, h.lines, h.failed]

theorem Alike.observeIn (h : w.Alike v) {r : CycleRecord} (hcut : String.join (cut r) = r.waveLine) :
    (w.observeIn cut r).Alike (v.observe r) := by
  obtain ⟨hwhole, hsame⟩ := w.sink.writeEach_eq (cut r)
  rw [hcut] at hwhole hsame
  rw [h.sink.fits] at hwhole
  replace hsame := hsame.trans (h.sink.write r.waveLine)
  unfold WaveDump.observeIn
  obtain ⟨hfailed, heq⟩ | ⟨hfailed, hfit, heq⟩ | ⟨hfailed, hfit, heq⟩ := v.observe_cases r
  · rw [heq, h.failed, hfailed]
    exact h
  · rw [heq, h.failed, hfailed]
    simp only [hwhole, hfit]
    exact ⟨hsame, congrArg (· + 1) h.lines, rfl⟩
  · rw [heq, h.failed, hfailed]
    simp only [hwhole, hfit]
    exact ⟨hsame, h.lines, rfl⟩

theorem alike_afterIn (hcut : ∀ r, String.join (cut r) = r.waveLine) (room : Nat) (calls : List Call) :
    (afterIn cut room calls).Alike (after room calls) := by
  induction calls using List.reverseRecOn with
  | nil => exact ⟨⟨rfl, rfl⟩, rfl, rfl⟩
  | append_singleton calls c ih =>
    rw [after_concat, afterIn, List.foldl_append]
    cases c with
    | observe r => exact ih.observeIn (hcut r)
    | flush => exact ⟨ih.sink, ih.lines, rfl⟩

end Divided

/-- Whatever is asked of a dump, its sink has the front of all lines, and the count is that of the lines that are there whole; it
is in range if the room is. A flush reports the failure if one of the cycles since the flush before is not among those. None of
this depends on how the lines are divided into writes. -/
theorem after_stores_front (room : Nat) (calls : List Call) :
    bytes (after room calls).sink.text = (bytes (String.join (offered calls))).take room ∧
    IsGreatest (fitting room (offered calls)) (after room calls).lines ∧ (after room calls).lines ≤ room ∧
    (∀ before later, calls = before ++ .flush :: later →
      (after room before).flush.1 =
        if ∃ i < (offered before).length, settled before ≤ i ∧ (after room calls).lines ≤ i
        then some sinkFull else none) ∧
    ∀ cut : CycleRecord → List String, (∀ r, String.join (cut r) = r.waveLine) →
      (afterIn cut room calls).view = (after room calls).view := by
  have htracks := tracks_after room calls
  refine ⟨htracks.took.stored, htracks.counted, lines_le_room room calls, ?_,
    fun cut hcut => (alike_afterIn hcut room calls).view_eq⟩
  rintro before later rfl
  have hfront : offered before <+: offered (before ++ .flush :: later) := (List.prefix_append _ _).filterMap _
  have hmissing := lt_length_iff htracks.counted hfront
  have hfailed : (after room before).failed = true ↔
      ∃ i < (offered before).length, settled before ≤ i ∧ (after room (before ++ .flush :: later)).lines ≤ i := by
    rw [failed_after, ← hmissing]
    constructor
    · rintro ⟨hrecent, hlt⟩
      exact ⟨(offered before).length - 1, by omega, by omega, by omega⟩
    · rintro ⟨i, hi, hrecent, hlt⟩
      exact ⟨by omega, by omega⟩
  simp only [flush, hfailed]

/-- The second line is cut before its end. That is reported once, and again after another cycle. -/
theorem after_stores_front_cut :
    let calls : List Call := [.observe {}, .observe {}, .flush, .flush, .observe {}, .flush]
    (bytes (after 1039 calls).sink.text).length = 1039 ∧ (after 1039 calls).lines = 1 ∧
    (after 1039 [.observe {}, .observe {}]).flush.1 = some sinkFull ∧
    (after 1039 [.observe {}, .observe {}, .flush]).flush.1 = none ∧
    (after 1039 [.observe {}, .observe {}, .flush, .flush, .observe {}]).flush.1 = some sinkFull ∧
    (afterIn (fun r => r.waveLine.toList.map String.singleton) 1039 calls).view = (after 1039 calls).view := by
  intro calls
  have hsize : ({} : CycleRecord).waveLine.utf8ByteSize = 520 := by decide +kernel
  have hjoin : ∀ n, (String.join (List.replicate n ({} : CycleRecord).waveLine)).utf8ByteSize = 520 * n := by
    intro n
    induction n with
    | zero => rfl
    | succ n ih =>
      rw [List.replicate_succ, String.join_cons, String.utf8ByteSize_append, ih, hsize]
      omega
  have hoffered : offered calls = List.replicate 3 ({} : CycleRecord).waveLine := rfl
  obtain ⟨hstored, hcount, _, hflush, hcut⟩ := after_stores_front 1039 calls
  rw [hoffered] at hstored hcount
  have hlines : (after 1039 calls).lines = 1 := by
    have hone := lt_length_iff hcount (show List.replicate 1 _ <+: _ from ⟨List.replicate 2 _, rfl⟩)
    have htwo := lt_length_iff hcount (show List.replicate 2 _ <+: _ from ⟨List.replicate 1 _, rfl⟩)
    rw [hjoin, List.length_replicate] at hone htwo
    omega
  rw [hlines] at hflush
  refine ⟨?_, hlines, ?_, ?_, ?_, ?_⟩
  · rw [hstored, List.length_take, length_bytes, hjoin]
    rfl
  · exact (hflush [.observe {}, .observe {}] _ rfl).trans (if_pos ⟨1, by decide, by decide, by decide⟩)
  · exact (hflush [.observe {}, .observe {}, .flush] _ rfl).trans (if_neg (by decide))
  · exact (hflush [.observe {}, .observe {}, .flush, .flush, .observe {}] _ rfl).trans
      (if_pos ⟨2, by decide, by decide, by decide⟩)
  · apply hcut
    intro r
    rw [← String.toList_inj, String.toList_join]
    simp [List.flatMap_map]

end FetchStage.WaveDump
