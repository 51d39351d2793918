import FetchStage.Json.Skim
import FetchStage.Proofs.Json.Grammar

/-! # Skipped values are skipped whole

A text that starts with a value is skimmed up to the end of this value, whatever frames are open around it. Each part of the
grammar moves the skimmer from one phase to another and leaves the stack as it was.
-/
namespace FetchStage.Json
open Text

section Steps
variable {phase next : Phase} {stack outer : List Frame} {c : Char} {cs : List Char}

/-- Where a value has ended inside the frames of the stack. -/
def finish (stack : List Frame) (rest : List Char) : Except Fault (List Char) :=
  match stack with
  | [] => .ok rest
  | stack => skimFrom .after stack rest

theorem skimFrom_on {inner : List Frame} (h : advance phase stack c = .ok (.on next inner)) :
    skimFrom phase stack (c :: cs) = skimFrom next inner cs := by
  simp only [skimFrom, h]

theorem skimFrom_ended (h : advance phase stack c = .ok (.ended outer)) :
    skimFrom phase stack (c :: cs) = finish outer cs := by
  cases outer <;> simp only [skimFrom, h, Move.ended, finish]

theorem skimFrom_space {space : List Char} (h : ∀ c, isSpace c → advance phase stack c = .ok (.on phase stack))
    (hspace : Space space) (cs : List Char) : skimFrom phase stack (space ++ cs) = skimFrom phase stack cs := by
  induction space with
  | nil => rfl
  | cons c space ih =>
    rw [List.cons_append, skimFrom_on (h c (hspace c List.mem_cons_self))]
    exact ih fun x hx => hspace x (List.mem_cons_of_mem _ hx)

theorem advance_value_space (hc : isSpace c) : advance .value stack c = .ok (.on .value stack) := by
  simp [advance, startValue, hc]

theorem advance_key_space (hc : isSpace c) : advance .key stack c = .ok (.on .key stack) := by
  simp [advance, startKey, hc]

theorem advance_colon_space (hc : isSpace c) : advance .colon stack c = .ok (.on .colon stack) := by
  simp [advance, hc]

theorem advance_opened_space {frame : Frame} (hc : isSpace c) :
    advance .opened (frame :: outer) c = .ok (.on .opened (frame :: outer)) := by
  simp [advance, afterOpening, hc]

theorem advance_after_space {frame : Frame} (hc : isSpace c) :
    advance .after (frame :: outer) c = .ok (.on .after (frame :: outer)) := by
  simp [advance, afterValue, hc]

end Steps

section Strings
variable {stack : List Frame} {isKey : Bool}

theorem skimFrom_quad {ds : List Char} {value : Nat} (h : Quad ds value) (cs : List Char) :
    skimFrom (.text isKey (.digits 0 true)) stack (ds ++ cs) = skimFrom (.text isKey .plain) stack cs := by
  obtain ⟨a, b, c, d, x, y, z, w, rfl, hsize, ha, hb, hc, hd, _⟩ := h.exists_digits
  simp [skimFrom, advance, withinText, hsize, ha, hb, hc, hd]

theorem advance_short {e : Char} (h : (shortEscape? e).isSome) :
    advance (.text isKey .escape) stack e = .ok (.on (.text isKey .plain) stack) := by
  unfold shortEscape? at h
  split at h
  case h_9 => cases h
  all_goals rfl

theorem skimFrom_string {cs : List Char} (h : StringText cs) (rest : List Char) :
    skimFrom (.text isKey .plain) stack (cs ++ '"' :: rest) =
      if isKey then skimFrom .colon stack rest else finish stack rest := by
  induction h with
  | nil =>
    cases isKey with
    | false => exact skimFrom_ended rfl
    | true => exact skimFrom_on rfl
  | @plain c cs hquote hescape hcontrol _ ih =>
    have hc : advance (.text isKey .plain) stack c = .ok (.on (.text isKey .plain) stack) := by
      simp [advance, withinText, hquote, hescape, Nat.not_lt.mpr hcontrol]
    rw [List.cons_append, skimFrom_on hc, ih]
  | @short e cs he _ ih =>
    have hmark : advance (.text isKey .plain) stack '\\' = .ok (.on (.text isKey .escape) stack) := rfl
    rw [List.cons_append, List.cons_append, skimFrom_on hmark, skimFrom_on (advance_short he), ih]
  | @code ds cs value hquad _ ih =>
    have hmark : advance (.text isKey .plain) stack '\\' = .ok (.on (.text isKey .escape) stack) := rfl
    have hu : advance (.text isKey .escape) stack 'u' = .ok (.on (.text isKey (.digits 0 true)) stack) := rfl
    rw [List.cons_append, List.cons_append, List.append_assoc, List.cons_append, skimFrom_on hmark, skimFrom_on hu,
      skimFrom_quad hquad, ih]

end Strings

section Numbers
variable {stack : List Frame} {phase : NumberPhase} {rest : List Char}

/-- A phase that further digits do not leave. -/
theorem skimFrom_digits (hphase : ∀ c : Char, c.isDigit → phase.next c = some phase) {ds : List Char}
    (hds : ∀ d ∈ ds, d.isDigit) (cs : List Char) :
    skimFrom (.number phase) stack (ds ++ cs) = skimFrom (.number phase) stack cs := by
  induction ds with
  | nil => rfl
  | cons d ds ih =>
    have hd : advance (.number phase) stack d = .ok (.on (.number phase) stack) := by
      simp [advance, hphase d (hds d List.mem_cons_self)]
    rw [List.cons_append, skimFrom_on hd, ih fun x hx => hds x (List.mem_cons_of_mem _ hx)]

theorem skimFrom_complete (hphase : phase.complete) (hrest : Ends rest) :
    skimFrom (.number phase) stack rest = finish stack rest := by
  cases rest with
  | nil => cases stack <;> simp [skimFrom, atEnd, finish, hphase]
  | cons c cs =>
    have hnext : phase.next c = none ∧ c.isDigit = false := by
      have hall : [' ', '\t', '\n', '\r', ',', ']', '\x7d'].all fun c => phase.next c == none && !c.isDigit := by
        cases phase <;> decide
      simpa using List.all_eq_true.mp hall c hrest.mem_of_cons
    have hstep : advance (.number phase) stack c = afterValue stack c := by simp [advance, hnext, hphase]
    cases stack with
    | nil => simp [skimFrom, hstep, afterValue, finish]
    | cons frame outer =>
      have hafter : advance .after (frame :: outer) c = afterValue (frame :: outer) c := rfl
      simp only [skimFrom, hstep, hafter, finish]

theorem skimFrom_exponent (hphase : phase.complete) (hmark : phase.next 'e' = some .mark ∧ phase.next 'E' = some .mark)
    {cs : List Char} (h : Exponent cs) (hrest : Ends rest) :
    skimFrom (.number phase) stack (cs ++ rest) = finish stack rest := by
  rcases h with rfl | ⟨mark, sign, ds, hmarks, hsign, ⟨hne, hds⟩, rfl⟩
  · exact skimFrom_complete hphase hrest
  obtain ⟨d, ds, rfl⟩ := List.exists_cons_of_ne_nil hne
  have hd : d.isDigit := hds d List.mem_cons_self
  have hstart : skimFrom (.number phase) stack (mark :: (sign ++ (d :: ds ++ rest))) =
      skimFrom (.number .mark) stack (sign ++ (d :: ds ++ rest)) := by
    apply skimFrom_on
    rcases hmarks with rfl | rfl <;> simp [advance, hmark]
  have hsigned : skimFrom (.number .mark) stack (sign ++ (d :: ds ++ rest)) =
      skimFrom (.number .exponent) stack (ds ++ rest) := by
    have hnot : d ≠ '+' ∧ d ≠ '-' := by
      constructor <;> rintro rfl <;> exact absurd hd (by decide)
    rcases hsign with rfl | rfl | rfl <;> simp [skimFrom, advance, NumberPhase.next, hd, hnot]
  have hlast : skimFrom (.number .exponent) stack (ds ++ rest) = skimFrom (.number .exponent) stack rest :=
    skimFrom_digits (fun c hc => by simp [NumberPhase.next, hc]) (fun x hx => hds x (List.mem_cons_of_mem _ hx)) rest
  rw [List.cons_append, List.cons_append, List.append_assoc, hstart, hsigned, hlast]
  exact skimFrom_complete rfl hrest

theorem skimFrom_fraction (hphase : phase = .zero ∨ phase = .whole) {fraction exponent : List Char}
    (hfraction : Fraction fraction) (hexponent : Exponent exponent) (hrest : Ends rest) :
    skimFrom (.number phase) stack (fraction ++ (exponent ++ rest)) = finish stack rest := by
  rcases hfraction with rfl | ⟨ds, ⟨hne, hds⟩, rfl⟩
  · rcases hphase with rfl | rfl <;> exact skimFrom_exponent rfl ⟨rfl, rfl⟩ hexponent hrest
  obtain ⟨d, ds, rfl⟩ := List.exists_cons_of_ne_nil hne
  have hpoint : advance (.number phase) stack '.' = .ok (.on (.number .point) stack) := by
    rcases hphase with rfl | rfl <;> rfl
  have hfirst : advance (.number .point) stack d = .ok (.on (.number .fraction) stack) := by
    simp [advance, NumberPhase.next, hds d List.mem_cons_self]
  rw [List.cons_append, List.cons_append, skimFrom_on hpoint, skimFrom_on hfirst,
    skimFrom_digits (fun c hc => by simp [NumberPhase.next, hc]) fun x hx => hds x (List.mem_cons_of_mem _ hx)]
  exact skimFrom_exponent rfl ⟨rfl, rfl⟩ hexponent hrest

/-- Behind the whole digits of a number, a point or an exponent may follow. -/
theorem skimFrom_whole (stack : List Frame) {ds : List Char} (h : Whole ds) (cs : List Char) :
    ∃ phase, (phase = .zero ∨ phase = .whole) ∧
      skimFrom (.number .minus) stack (ds ++ cs) = skimFrom (.number phase) stack cs := by
  obtain ⟨⟨hne, hds⟩, hzero⟩ := h
  obtain ⟨d, ds, rfl⟩ := List.exists_cons_of_ne_nil hne
  by_cases hd : d = '0'
  · subst hd
    cases hzero rfl
    exact ⟨.zero, Or.inl rfl, skimFrom_on rfl⟩
  · have hfirst : advance (.number .minus) stack d = .ok (.on (.number .whole) stack) := by
      simp [advance, NumberPhase.next, hd, hds d List.mem_cons_self]
    refine ⟨.whole, Or.inr rfl, ?_⟩
    rw [List.cons_append, skimFrom_on hfirst]
    exact skimFrom_digits (fun c hc => by simp [NumberPhase.next, hc]) (fun x hx => hds x (List.mem_cons_of_mem _ hx)) cs

theorem skimFrom_first_digit {d : Char} (hd : d.isDigit) (cs : List Char) :
    skimFrom .value stack (d :: cs) = skimFrom (.number .minus) stack (d :: cs) := by
  have hne : ∀ c, c.isDigit = false → d ≠ c := by
    rintro c hc rfl
    exact absurd hd (by simp [hc])
  have hstart : startValue stack d = advance (.number .minus) stack d := by
    simp only [startValue, isSpace, advance, hne ' ' rfl, hne '\t' rfl, hne '\n' rfl, hne '\r' rfl, hne 'n' rfl, hne 't' rfl,
      hne 'f' rfl, hne '"' rfl, hne '[' rfl, hne '\x7b' rfl, hne '-' rfl, beq_iff_eq, Bool.or_eq_true, or_self, if_false]
    rfl
  have hvalue : advance .value stack d = startValue stack d := rfl
  simp only [skimFrom, hvalue, hstart]

theorem skimFrom_number {cs : List Char} (h : NumberText cs) (hrest : Ends rest) :
    skimFrom .value stack (cs ++ rest) = finish stack rest := by
  obtain ⟨sign, whole, fraction, exponent, hsign, hwhole, hfraction, hexponent, rfl⟩ := h
  have hstart : skimFrom .value stack (sign ++ (whole ++ (fraction ++ (exponent ++ rest)))) =
      skimFrom (.number .minus) stack (whole ++ (fraction ++ (exponent ++ rest))) := by
    rcases hsign with rfl | rfl
    · obtain ⟨d, ds, rfl⟩ := List.exists_cons_of_ne_nil hwhole.1.1
      exact skimFrom_first_digit (hwhole.1.2 d List.mem_cons_self) _
    · exact skimFrom_on rfl
  obtain ⟨phase, hphase, hdigits⟩ := skimFrom_whole stack hwhole (fraction ++ (exponent ++ rest))
  rw [List.append_assoc, List.append_assoc, List.append_assoc, hstart, hdigits]
  exact skimFrom_fraction hphase hfraction hexponent hrest

end Numbers

section Frames
variable {outer : List Frame} {front : List Char}

/-- The first character of a value is not one that may stand in its place. -/
theorem IsValue.exists_cons {cs : List Char} (h : IsValue cs) : ∃ c rest, cs = c :: rest ∧ isSpace c = false ∧ c ≠ ']' := by
  cases h with
  | number h =>
    obtain ⟨sign, whole, fraction, exponent, hsign, ⟨⟨hne, hdigit⟩, _⟩, _, _, rfl⟩ := h
    obtain ⟨d, ds, rfl⟩ := List.exists_cons_of_ne_nil hne
    rcases hsign with rfl | rfl
    · have hd := hdigit d List.mem_cons_self
      refine ⟨d, _, rfl, not_isSpace_of_isDigit hd, ?_⟩
      rintro rfl
      exact absurd hd (by decide)
    · exact ⟨'-', _, rfl, rfl, by decide⟩
  | _ => exact ⟨_, _, rfl, rfl, by decide⟩

theorem skimFrom_enclosed {stack inner : List Frame} {next : Phase} {first : Char}
    (h : advance .value stack first = .ok (.on next inner)) (last : Char) (cs rest : List Char) :
    skimFrom .value stack (first :: cs ++ [last] ++ rest) = skimFrom next inner (cs ++ last :: rest) := by
  rw [List.append_assoc, List.cons_append, skimFrom_on h]
  rfl

theorem skimFrom_opened_list {value : List Char} (hfront : Space front) (hvalue : IsValue value) (cs : List Char) :
    skimFrom .opened (.list :: outer) (front ++ (value ++ cs)) = skimFrom .value (.list :: outer) (front ++ (value ++ cs)) := by
  obtain ⟨c, rest, rfl, hspace, hclose⟩ := hvalue.exists_cons
  have hstart : advance .opened (.list :: outer) c = advance .value (.list :: outer) c := by
    simp [advance, afterOpening, Frame.closes, hspace, hclose]
  rw [skimFrom_space (fun _ => advance_opened_space) hfront, skimFrom_space (fun _ => advance_value_space) hfront]
  simp only [List.cons_append, skimFrom, hstart]

theorem skimFrom_opened_object (hfront : Space front) (cs : List Char) :
    skimFrom .opened (.object :: outer) (front ++ '"' :: cs) = skimFrom .key (.object :: outer) (front ++ '"' :: cs) := by
  rw [skimFrom_space (fun _ => advance_opened_space) hfront, skimFrom_space (fun _ => advance_key_space) hfront]
  rfl

/-- Each part is skimmed to its end, and the frame of a list or an object is closed behind it. -/
def Skims : Part → List Char → Prop
  | .value, cs => ∀ stack rest, Ends rest → skimFrom .value stack (cs ++ rest) = finish stack rest
  | .items, cs => ∀ outer rest, skimFrom .value (.list :: outer) (cs ++ ']' :: rest) = finish outer rest ∧
    skimFrom .opened (.list :: outer) (cs ++ ']' :: rest) = finish outer rest
  | .members, cs => ∀ outer rest, skimFrom .key (.object :: outer) (cs ++ '\x7d' :: rest) = finish outer rest ∧
    skimFrom .opened (.object :: outer) (cs ++ '\x7d' :: rest) = finish outer rest

variable {value back rest : List Char}

theorem skimFrom_spaced {stack : List Frame} (hskims : Skims .value value) (hfront : Space front) (hback : Space back)
    (hrest : Ends rest) (frame : Frame) :
    skimFrom .value (frame :: stack) (front ++ (value ++ (back ++ rest))) = skimFrom .after (frame :: stack) rest := by
  rw [skimFrom_space (fun _ => advance_value_space) hfront, hskims _ _ (ends_append hback hrest)]
  exact skimFrom_space (fun _ => advance_after_space) hback rest

theorem skimFrom_member {key behind before : List Char} (hskims : Skims .value value) (hfront : Space front)
    (hkey : StringText key) (hbehind : Space behind) (hbefore : Space before) (hback : Space back) (hrest : Ends rest) :
    skimFrom .key (.object :: outer)
        (front ++ '"' :: (key ++ '"' :: (behind ++ ':' :: (before ++ (value ++ (back ++ rest)))))) =
      skimFrom .after (.object :: outer) rest := by
  have hopen : advance .key (.object :: outer) '"' = .ok (.on (.text true .plain) (.object :: outer)) := rfl
  have hcolon : advance .colon (.object :: outer) ':' = .ok (.on .value (.object :: outer)) := rfl
  rw [skimFrom_space (fun _ => advance_key_space) hfront, skimFrom_on hopen, skimFrom_string hkey, if_pos rfl,
    skimFrom_space (fun _ => advance_colon_space) hbehind, skimFrom_on hcolon]
  exact skimFrom_spaced hskims hbefore hback hrest .object

end Frames

theorem skims_of_text {part : Part} {cs : List Char} (h : part.Text cs) : Skims part cs := by
  induction h with
  | null => exact fun stack rest _ => by cases stack <;> rfl
  | true => exact fun stack rest _ => by cases stack <;> rfl
  | false => exact fun stack rest _ => by cases stack <;> rfl
  | number h => exact fun stack rest hrest => skimFrom_number h hrest
  | string h =>
    intro stack rest _
    rw [skimFrom_enclosed rfl]
    exact skimFrom_string h rest
  | emptyList hspace =>
    intro stack rest _
    rw [skimFrom_enclosed rfl, skimFrom_space (fun _ => advance_opened_space) hspace]
    exact skimFrom_ended rfl
  | list _ ih =>
    intro stack rest _
    rw [skimFrom_enclosed rfl]
    exact (ih stack rest).2
  | emptyObject hspace =>
    intro stack rest _
    rw [skimFrom_enclosed rfl, skimFrom_space (fun _ => advance_opened_space) hspace]
    exact skimFrom_ended rfl
  | object _ ih =>
    intro stack rest _
    rw [skimFrom_enclosed rfl]
    exact (ih stack rest).2
  | item hfront hvalue hback ih =>
    intro outer rest
    simp only [List.append_assoc]
    rw [skimFrom_opened_list hfront hvalue, and_self, skimFrom_spaced ih hfront hback (ends_cons (by decide))]
    exact skimFrom_ended rfl
  | moreItems hfront hvalue hback _ ih ihrest =>
    intro outer rest
    simp only [List.append_assoc, List.cons_append]
    rw [skimFrom_opened_list hfront hvalue, and_self, skimFrom_spaced ih hfront hback (ends_cons (by decide))]
    exact (skimFrom_on rfl).trans (ihrest outer rest).1
  | member hfront hkey hbehind hbefore _ hback ih =>
    intro outer rest
    simp only [List.append_assoc, List.cons_append]
    rw [skimFrom_opened_object hfront, and_self,
      skimFrom_member ih hfront hkey hbehind hbefore hback (ends_cons (by decide))]
    exact skimFrom_ended rfl
  | moreMembers hfront hkey hbehind hbefore _ hback _ ih ihrest =>
    intro outer rest
    simp only [List.append_assoc, List.cons_append]
    rw [skimFrom_opened_object hfront, and_self,
      skimFrom_member ih hfront hkey hbehind hbefore hback (ends_cons (by decide))]
    exact (skimFrom_on rfl).trans (ihrest outer rest).1

/-- A value is skipped to its end, with the space before it. -/
theorem skim_value {front value rest : List Char} (hfront : Space front) (hvalue : IsValue value) (hrest : Ends rest) :
    skim (front ++ (value ++ rest)) = .ok rest := by
  unfold skim
  rw [skimFrom_space (fun _ => advance_value_space) hfront]
  exact skims_of_text hvalue [] rest hrest

end FetchStage.Json
