import FetchStage.Proofs.Assembly.Passes
import FetchStage.Proofs.Text.Signed

/-! # The literal that has no opposite

A hexadecimal literal may carry a sign before its mark and a second one behind it. If the second makes it the least number,
the first cannot be applied, and then a source has neither words nor a fault. No other text does this, in an operand or
elsewhere.
-/
namespace FetchStage.Assembly
open Text Isa

/-- A literal with two signs, whose digits behind the mark are those of the least number. -/
def NegatesLeast (token : List Char) : Prop :=
  ∃ mark digits, (mark = 'x' ∨ mark = 'X') ∧ token = '-' :: '0' :: mark :: digits ∧ LeastHex digits

theorem unsignedLiteral_eq_least {digits : List Char} :
    unsignedLiteral? digits = some Literal.least ↔
      ∃ mark hexed, (mark = 'x' ∨ mark = 'X') ∧ digits = '0' :: mark :: hexed ∧ LeastHex hexed := by
  unfold unsignedLiteral?
  cases hmark : afterHexMark? digits with
  | some hexed =>
    obtain ⟨mark, hm, rfl⟩ := afterHexMark_eq_some.mp hmark
    simp only [readSigned_eq_least]
    constructor
    · intro h
      exact ⟨mark, hexed, hm, rfl, h⟩
    · rintro ⟨_, _, _, hcons, h⟩
      cases hcons
      exact h
  | none =>
    constructor
    · intro h
      simp only at h
      split at h
      · rename_i hdigit
        obtain ⟨ds, n, rfl, _, _⟩ | ⟨n, _, hn⟩ := readSigned_cases h
        · cases hdigit
        · have hpos : 0 < Literal.beyond := by decide
          rw [Literal.least_eq] at hn
          omega
      · cases h
    · rintro ⟨mark, hexed, hm, rfl, _⟩
      rw [afterHexMark_eq_some.mpr ⟨mark, hm, rfl⟩] at hmark
      cases hmark

/-- Reading a literal goes wrong in one way only. -/
theorem literal_eq_error {token : List Char} {o : Overflow} :
    literal? token = .error o ↔ o = .negate ∧ NegatesLeast token := by
  constructor
  · intro h
    unfold literal? at h
    split at h
    · rename_i digits
      cases hu : unsignedLiteral? digits with
      | none =>
        rw [hu] at h
        cases h
      | some value =>
        rw [hu] at h
        have hneg : Literal.negate value = .error o := by
          cases hn : Literal.negate value with
          | error e =>
            simp only [hn, Except.map] at h
            cases h
            rfl
          | ok i =>
            simp only [hn, Except.map] at h
            cases h
        obtain ⟨rfl, rfl⟩ := Literal.negate_eq_error.mp hneg
        obtain ⟨mark, hexed, hm, rfl, hleast⟩ := unsignedLiteral_eq_least.mp hu
        exact ⟨rfl, mark, hexed, hm, rfl, hleast⟩
    · cases h
  · rintro ⟨rfl, mark, hexed, hm, rfl, hleast⟩
    have hu := unsignedLiteral_eq_least.mpr ⟨mark, hexed, hm, rfl, hleast⟩
    simp only [literal?, hu, Literal.negate_eq_error.mpr ⟨rfl, rfl⟩]
    rfl

theorem unsignedLiteral_range {digits : List Char} {i : Int} (h : unsignedLiteral? digits = some i) :
    Literal.least ≤ i ∧ i < Literal.beyond := by
  unfold unsignedLiteral? at h
  split at h
  · exact readSigned_range h
  · split at h
    · exact readSigned_range h
    · cases h

theorem literal_range {token : List Char} {i : Int} (h : literal? token = .ok (some i)) :
    Literal.least ≤ i ∧ i < Literal.beyond := by
  unfold literal? at h
  split at h
  · rename_i digits
    cases hu : unsignedLiteral? digits with
    | none =>
      rw [hu] at h
      cases h
    | some value =>
      have hrange := unsignedLiteral_range hu
      simp only [hu, Literal.negate] at h
      split at h
      · cases h
      · rename_i hne
        have hi : -value = i := Option.some.inj (Except.ok.inj h)
        rw [Literal.least_eq] at hrange hne ⊢
        omega
  · exact unsignedLiteral_range (Except.ok.inj h)

section Statement
variable {labels : Labels} {pc : Address} {o : Overflow}

theorem literal_overflow {token : List Char} {fault : Fault} :
    literal token fault = .error (.overflow o) ↔ literal? token = .error o := by
  unfold literal
  split <;> simp_all

theorem immediate_overflow {token : List Char} :
    immediate token = .error (.overflow o) ↔ literal? token = .error o := by
  rw [immediate, bind_eq_error, literal_overflow]
  constructor
  · rintro (h | ⟨value, _, h⟩)
    · exact h
    · split at h <;> cases h
  · exact Or.inl

theorem not_isLabel_of_negatesLeast {token : List Char} (h : NegatesLeast token) : isLabel token = false := by
  obtain ⟨_, _, _, rfl, _⟩ := h
  rfl

theorem distance_overflow (hl : ∀ x a, labels.lookup x = some a → isLabel x) {token : List Char} :
    distance labels pc token = .error (.overflow o) ↔ literal? token = .error o := by
  unfold distance
  cases hlookup : labels.lookup token with
  | none => exact literal_overflow
  | some a =>
    constructor
    · intro h
      cases h
    · intro h
      have hlabel := hl token a hlookup
      rw [not_isLabel_of_negatesLeast (literal_eq_error.mp h).2] at hlabel
      cases hlabel

theorem jumpOffset_overflow (hl : ∀ x a, labels.lookup x = some a → isLabel x) {reach : Reach} {token : List Char} :
    jumpOffset labels pc reach token = .error (.overflow o) ↔ literal? token = .error o := by
  rw [jumpOffset, bind_eq_error, distance_overflow hl]
  constructor
  · rintro (h | ⟨offset, _, h⟩)
    · exact h
    · split at h
      · cases h
      · split at h <;> cases h
  · exact Or.inl

theorem register_ne_overflow {token : List Char} : register token ≠ .error (.overflow o) := by
  unfold register
  split <;> simp

theorem pure_ne_overflow {α : Type} {a : α} : (pure a : Except Refusal α) ≠ .error (.overflow o) := nofun

theorem bind_overflow {α β : Type} {x : Except Refusal α} {f : α → Except Refusal β}
    (hf : ∀ a, f a ≠ .error (.overflow o)) : x >>= f = .error (.overflow o) ↔ x = .error (.overflow o) := by
  rw [bind_eq_error]
  exact ⟨fun h => h.resolve_right fun ⟨a, _, ha⟩ => hf a ha, Or.inl⟩

theorem register_bind_ne_overflow {β : Type} {token : List Char} {f : Register → Except Refusal β}
    (hf : ∀ r, f r ≠ .error (.overflow o)) : register token >>= f ≠ .error (.overflow o) :=
  fun h => register_ne_overflow ((bind_overflow hf).mp h)

theorem registers_ne_overflow {β : Type} {a b : List Char} {f : Register → Register → β} :
    (do let x ← register a; let y ← register b; return f x y : Except Refusal β) ≠ .error (.overflow o) := by
  apply register_bind_ne_overflow
  intro x
  apply register_bind_ne_overflow
  intro y
  exact pure_ne_overflow

/-- The operand that is read as a number or as a target, unless a register before it is unknown. -/
def Statement.number? (s : Statement) : Option (List Char) :=
  match Mnemonic.ofName? s.mnemonic, s.operands with
  | some (.branch _), [_, _, target] => some target
  | some .jal, [target] => some target
  | some .jal, [rd, target] => (register rd).toOption.map fun _ => target
  | some .jalr, [_, _, imm] => some imm
  | some (.immediate _), [_, _, imm] => some imm
  | _, _ => none

theorem instruction_overflow (hl : ∀ x a, labels.lookup x = some a → isLabel x) {s : Statement} :
    s.instruction labels pc = .error (.overflow o) ↔ ∃ token, s.number? = some token ∧ literal? token = .error o := by
  rcases s with ⟨name, operands⟩
  simp only [Statement.instruction, Statement.number?]
  cases Mnemonic.ofName? name with
  | none => simp
  | some m =>
    cases m with
    | nop => cases operands <;> simp
    | branch c =>
      rcases operands with _ | ⟨a, _ | ⟨b, _ | ⟨t, _ | ⟨d, rest⟩⟩⟩⟩
      case cons.cons.cons.nil =>
        simp only [Option.some.injEq, exists_eq_left']
        rw [bind_overflow fun _ => registers_ne_overflow]
        exact jumpOffset_overflow hl
      all_goals simp
    | jal =>
      rcases operands with _ | ⟨a, _ | ⟨t, _ | ⟨d, rest⟩⟩⟩
      case cons.nil =>
        simp only [Option.some.injEq, exists_eq_left']
        rw [bind_overflow fun _ => pure_ne_overflow]
        exact jumpOffset_overflow hl
      case cons.cons.nil =>
        cases hrd : register a with
        | error r =>
          simp only [hrd, Except.toOption, Option.map_none, reduceCtorEq, false_and, exists_false, iff_false]
          intro h
          have hr : r = .overflow o := Except.error.inj h
          exact register_ne_overflow (hrd.trans (congrArg Except.error hr))
        | ok rd =>
          simp only [hrd, Except.toOption, Option.map_some, Option.some.injEq, exists_eq_left']
          exact (bind_overflow fun _ => pure_ne_overflow).trans (jumpOffset_overflow hl)
      all_goals simp
    | jalr =>
      rcases operands with _ | ⟨a, _ | ⟨b, _ | ⟨t, _ | ⟨d, rest⟩⟩⟩⟩
      case cons.cons.nil =>
        simp only [reduceCtorEq, false_and, exists_false, iff_false]
        exact registers_ne_overflow
      case cons.cons.cons.nil =>
        simp only [Option.some.injEq, exists_eq_left']
        rw [bind_overflow fun _ => registers_ne_overflow]
        exact immediate_overflow
      all_goals simp
    | register op =>
      rcases operands with _ | ⟨a, _ | ⟨b, _ | ⟨t, _ | ⟨d, rest⟩⟩⟩⟩
      case cons.cons.cons.nil =>
        simp only [reduceCtorEq, false_and, exists_false, iff_false]
        exact register_bind_ne_overflow fun _ => registers_ne_overflow
      all_goals simp
    | immediate op =>
      rcases operands with _ | ⟨a, _ | ⟨b, _ | ⟨t, _ | ⟨d, rest⟩⟩⟩⟩
      case cons.cons.cons.nil =>
        simp only [Option.some.injEq, exists_eq_left']
        rw [bind_overflow fun _ => registers_ne_overflow]
        exact immediate_overflow
      all_goals simp

theorem Statement.number_mem {s : Statement} {token : List Char} (h : s.number? = some token) : token ∈ s.operands := by
  unfold Statement.number? at h
  split at h <;> simp_all

theorem encodeLine_overflow {placed : SourceLine × Nat} :
    encodeLine labels placed = .error (.overflow o) ↔
      (Statement.ofBody placed.1.body).instruction labels (.ofIndex placed.2) = .error (.overflow o) := by
  unfold encodeLine encodeBody
  cases (Statement.ofBody placed.1.body).instruction labels (.ofIndex placed.2) with
  | ok ins => simp [Except.map]
  | error r => cases r <;> simp [Except.map, Refusal.atLine]

end Statement

/-- The first line that does not encode asks for the opposite of the least number. -/
def StopsAtNegation (text : List Char) : Prop :=
  ∃ labels before line i after token, addLabels [] 0 (sourceLines text) = .ok labels ∧
    placedLines (sourceLines text) = before ++ (line, i) :: after ∧ (∀ p ∈ before, ∃ w, encodeLine labels p = .ok w) ∧
    (Statement.ofBody line.body).number? = some token ∧ NegatesLeast token

theorem assemble_overflow {text : List Char} {o : Overflow} :
    assemble text = .error (.overflow o) ↔ o = .negate ∧ StopsAtNegation text := by
  have hlabels : ∀ {labels}, addLabels [] 0 (sourceLines text) = .ok labels →
      ∀ x a, labels.lookup x = some a → isLabel x := fun h x a => addLabels_isLabel h nofun
  rw [assemble, bind_eq_error]
  constructor
  · rintro (h | ⟨labels, hok, h⟩)
    · exact absurd h addLabels_ne_overflow
    · obtain ⟨before, ⟨line, i⟩, after, hplaced, hbefore, hline⟩ := mapM_eq_error.mp h
      obtain ⟨token, hnumber, htoken⟩ := (instruction_overflow (hlabels hok)).mp (encodeLine_overflow.mp hline)
      obtain ⟨rfl, hleast⟩ := literal_eq_error.mp htoken
      exact ⟨rfl, labels, before, line, i, after, token, hok, hplaced, hbefore, hnumber, hleast⟩
  · rintro ⟨rfl, labels, before, line, i, after, token, hok, hplaced, hbefore, hnumber, hleast⟩
    have htoken := literal_eq_error.mpr ⟨rfl, hleast⟩
    have hline : encodeLine labels (line, i) = .error (.overflow .negate) :=
      encodeLine_overflow.mpr ((instruction_overflow (hlabels hok)).mpr ⟨token, hnumber, htoken⟩)
    exact Or.inr ⟨labels, hok, mapM_eq_error.mpr ⟨before, (line, i), after, hplaced, hbefore, hline⟩⟩

theorem distance_range {labels : Labels} {pc : Address} {token : List Char} {i : Int}
    (h : distance labels pc token = .ok i) : Literal.least ≤ i ∧ i < Literal.beyond := by
  unfold distance at h
  split at h
  · rename_i address _
    have haddress := address.isLt
    have hpc := pc.isLt
    have hwide : 0x100000000 < Literal.beyond := by decide
    cases h
    rw [Literal.least_eq]
    omega
  · exact literal_range (literal_eq_ok.mp h)

/-- A source has words or a fault of one of its lines, unless the first line that does not encode negates the least number.
Literals, their opposites and distances to labels are signed literals. -/
theorem assemble_answers_iff (text : List Char) :
    (((∃ words, assemble text = .ok words) ∨ ∃ line fault, assemble text = .error (.atLine line fault)) ↔
      ¬StopsAtNegation text) ∧
    ((∀ line ∈ sourceLines text, ∀ token ∈ (Statement.ofBody line.body).operands, ¬NegatesLeast token) →
      (∃ words, assemble text = .ok words) ∨ ∃ line fault, assemble text = .error (.atLine line fault)) ∧
    (∀ token i, literal? token = .ok (some i) → Literal.least ≤ i ∧ i < Literal.beyond) ∧
    ∀ labels pc token i, distance labels pc token = .ok i → Literal.least ≤ i ∧ i < Literal.beyond := by
  have hiff : ((∃ words, assemble text = .ok words) ∨ ∃ line fault, assemble text = .error (.atLine line fault)) ↔
      ¬StopsAtNegation text := by
    constructor
    · intro h hstops
      rw [assemble_overflow.mpr ⟨rfl, hstops⟩] at h
      simp at h
    · intro hstops
      cases h : assemble text with
      | ok words => exact Or.inl ⟨words, rfl⟩
      | error e =>
        cases e with
        | atLine line fault => exact Or.inr ⟨line, fault, rfl⟩
        | overflow o => exact absurd (assemble_overflow.mp h).2 hstops
  refine ⟨hiff, ?_, fun _ _ => literal_range, fun _ _ _ _ => distance_range⟩
  intro hnone
  apply hiff.mpr
  rintro ⟨labels, before, line, i, after, token, _, hplaced, _, hnumber, hleast⟩
  have hplace : (line, i) ∈ placedLines (sourceLines text) := by
    rw [hplaced]
    simp
  have hline : line ∈ sourceLines text := List.mem_of_mem_filter (List.fst_mem_of_mem_zipIdx hplace)
  exact hnone line hline token (Statement.number_mem hnumber) hleast

/-- Two signs are no harm where the opposite exists, even next to the least number. -/
theorem assemble_answers_two_signs :
    (∃ words, assemble "jal -0x-7fe\naddi x1, x0, -0x-7ff".toList = .ok words) ∧
      ¬StopsAtNegation "jal -0x-7fe\naddi x1, x0, -0x-7ff".toList ∧
      ¬StopsAtNegation "addi x1, x0, -0x-7fffffffffffffff".toList := by
  have hwords : ∃ words, assemble "jal -0x-7fe\naddi x1, x0, -0x-7ff".toList = .ok words :=
    ⟨[0x7fe000ef, 0x7ff00093], by decide +kernel⟩
  have hfault : assemble "addi x1, x0, -0x-7fffffffffffffff".toList =
      .error (.atLine 1 (.immediateRange 0x7fffffffffffffff (-2048) 2047)) := by
    decide +kernel
  exact ⟨hwords, (assemble_answers_iff _).1.mp (Or.inl hwords), (assemble_answers_iff _).1.mp (Or.inr ⟨1, _, hfault⟩)⟩

/-- An immediate with two signs has neither words nor a fault. -/
theorem assemble_negates_least :
    assemble "addi x1, x0, -0x-8000000000000000".toList = .error (.overflow .negate) := by
  decide +kernel

end FetchStage.Assembly
