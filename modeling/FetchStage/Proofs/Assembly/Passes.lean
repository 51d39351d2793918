import FetchStage.Assembly.Program
import FetchStage.Proofs.Isa.Layout
import FetchStage.Proofs.Sequence

/-! # What the two passes agree on

A label stands for the number of instructions before its line. The first pass finds this number whether or not lines
follow that use the label, since a second definition is refused. The second pass meets the instructions in the same order
and gives each the word of what its line says at that position.
-/
namespace FetchStage.Assembly
open Isa

section FirstPass

/-- A line labelled `token` follows `n` instructions. -/
def Defines (lines : List SourceLine) (token : List Char) (n : Nat) : Prop :=
  ∃ before line after, lines = before ++ line :: after ∧ line.label = some token ∧ before.countP (·.hasBody) = n

theorem defines_cons {line : SourceLine} {rest : List SourceLine} {token : List Char} {n : Nat} :
    Defines (line :: rest) token n ↔
      line.label = some token ∧ n = 0 ∨ ∃ m, Defines rest token m ∧ n = line.hasBody.toNat + m := by
  constructor
  · rintro ⟨before, l, after, h, hl, hn⟩
    cases before with
    | nil =>
      cases h
      exact Or.inl ⟨hl, hn.symm⟩
    | cons x before =>
      cases h
      refine Or.inr ⟨_, ⟨before, l, after, rfl, hl, rfl⟩, ?_⟩
      rw [← hn, List.countP_cons, Nat.add_comm]
      cases line.hasBody <;> rfl
  · rintro (⟨hl, rfl⟩ | ⟨m, ⟨before, l, after, rfl, hl, rfl⟩, rfl⟩)
    · exact ⟨[], line, rest, rfl, hl, rfl⟩
    · refine ⟨line :: before, l, after, rfl, hl, ?_⟩
      rw [List.countP_cons, Nat.add_comm]
      cases line.hasBody <;> rfl

theorem length_placedLines (lines : List SourceLine) : (placedLines lines).length = lines.countP (·.hasBody) := by
  rw [placedLines, List.length_zipIdx, List.countP_eq_length_filter]

theorem lt_of_mem_placedLines {lines : List SourceLine} {p : SourceLine × Nat} (h : p ∈ placedLines lines) :
    p.2 < (placedLines lines).length := by
  have hlt := List.snd_lt_of_mem_zipIdx h
  rw [placedLines, List.length_zipIdx]
  omega

theorem Defines.le_length {lines : List SourceLine} {token : List Char} {n : Nat} (h : Defines lines token n) :
    n ≤ (placedLines lines).length := by
  obtain ⟨before, line, after, rfl, _, rfl⟩ := h
  rw [length_placedLines, List.countP_append]
  omega

variable {labels result : Labels} {count : Nat} {lines : List SourceLine} {token : List Char}

theorem addLabels_cons {line : SourceLine} (h : addLabels labels count (line :: lines) = .ok result) :
    ∃ known, addLabels known (count + line.hasBody.toNat) lines = .ok result ∧
      (line.label = none ∧ known = labels ∨
        ∃ label, line.label = some label ∧ isLabel label ∧ labels.lookup label = none ∧
          known = (label, Address.ofIndex count) :: labels) := by
  have hcount : (if line.hasBody then count + 1 else count) = count + line.hasBody.toNat := by
    cases line.hasBody <;> rfl
  rw [addLabels, hcount] at h
  cases hl : line.label with
  | none =>
    rw [hl] at h
    exact ⟨labels, h, Or.inl ⟨rfl, rfl⟩⟩
  | some label =>
    simp only [hl] at h
    split at h
    · cases h
    · rename_i hvalid
      split at h
      · cases h
      · rename_i hnew
        exact ⟨_, h, Or.inr ⟨label, rfl, by simpa using hvalid, Option.not_isSome_iff_eq_none.mp hnew, rfl⟩⟩

/-- A label keeps its address, since defining it again is refused. -/
theorem addLabels_known (h : addLabels labels count lines = .ok result) {a : Address}
    (ha : labels.lookup token = some a) : result.lookup token = some a := by
  induction lines generalizing labels count with
  | nil =>
    cases h
    exact ha
  | cons line rest ih =>
    obtain ⟨known, hrest, ⟨_, rfl⟩ | ⟨label, _, _, hnew, rfl⟩⟩ := addLabels_cons h
    · exact ih hrest ha
    · apply ih hrest
      have hne : token ≠ label := by
        rintro rfl
        rw [ha] at hnew
        cases hnew
      rw [List.lookup_cons, beq_eq_false_iff_ne.mpr hne]
      exact ha

theorem addLabels_defined (h : addLabels labels count lines = .ok result) {n : Nat} (hn : Defines lines token n) :
    result.lookup token = some (Address.ofIndex (count + n)) := by
  induction lines generalizing labels count n with
  | nil =>
    obtain ⟨before, line, after, hnil, _⟩ := hn
    simp at hnil
  | cons line rest ih =>
    obtain ⟨known, hrest, hlabel⟩ := addLabels_cons h
    rcases defines_cons.mp hn with ⟨hl, rfl⟩ | ⟨m, hm, rfl⟩
    · rcases hlabel with ⟨hnone, _⟩ | ⟨label, hsome, _, _, rfl⟩
      · rw [hl] at hnone
        cases hnone
      · rw [hl] at hsome
        cases hsome
        exact addLabels_known hrest (by simp)
    · rw [ih hrest hm, Nat.add_assoc]

theorem addLabels_undefined (h : addLabels labels count lines = .ok result) (hn : ∀ n, ¬Defines lines token n) :
    result.lookup token = labels.lookup token := by
  induction lines generalizing labels count with
  | nil =>
    cases h
    rfl
  | cons line rest ih =>
    obtain ⟨known, hrest, hlabel⟩ := addLabels_cons h
    have hrestn : ∀ n, ¬Defines rest token n := fun n hd => hn _ (defines_cons.mpr (Or.inr ⟨n, hd, rfl⟩))
    rw [ih hrest hrestn]
    rcases hlabel with ⟨_, rfl⟩ | ⟨label, hl, _, _, rfl⟩
    · rfl
    · have hne : token ≠ label := by
        rintro rfl
        exact hn 0 (defines_cons.mpr (Or.inl ⟨hl, rfl⟩))
      rw [List.lookup_cons, beq_eq_false_iff_ne.mpr hne]

/-- The labels found are those that lines define. -/
theorem addLabels_lookup (h : addLabels [] 0 lines = .ok result) {a : Address} :
    result.lookup token = some a ↔ ∃ n, Defines lines token n ∧ a = .ofIndex n := by
  constructor
  · intro ha
    by_contra hnone
    have hundefined : ∀ n, ¬Defines lines token n := by
      intro n hn
      rw [addLabels_defined h hn, Nat.zero_add] at ha
      exact hnone ⟨n, hn, (Option.some.inj ha).symm⟩
    rw [addLabels_undefined h hundefined] at ha
    cases ha
  · rintro ⟨n, hn, rfl⟩
    rw [addLabels_defined h hn, Nat.zero_add]

/-- Only names that are well formed get an address. -/
theorem addLabels_isLabel (h : addLabels labels count lines = .ok result)
    (hl : ∀ x a, labels.lookup x = some a → isLabel x) {a : Address} (ha : result.lookup token = some a) :
    isLabel token := by
  induction lines generalizing labels count with
  | nil =>
    cases h
    exact hl token a ha
  | cons line rest ih =>
    obtain ⟨known, hrest, ⟨_, rfl⟩ | ⟨label, _, hvalid, _, rfl⟩⟩ := addLabels_cons h
    · exact ih hrest hl
    · apply ih hrest
      intro x b hx
      by_cases hxl : x = label
      · rw [hxl]
        exact hvalid
      · rw [List.lookup_cons, beq_eq_false_iff_ne.mpr hxl] at hx
        exact hl x b hx

theorem addLabels_ne_overflow {o : Overflow} : addLabels labels count lines ≠ .error (.overflow o) := by
  induction lines generalizing labels count with
  | nil => simp [addLabels]
  | cons line rest ih =>
    unfold addLabels
    cases line.label with
    | none => exact ih
    | some label =>
      dsimp only
      split
      · simp
      · split
        · simp
        · exact ih

end FirstPass

section SecondPass
variable {labels : Labels} {pc : Address}

theorem literal_eq_ok {token : List Char} {fault : Fault} {i : Int} :
    literal token fault = .ok i ↔ literal? token = .ok (some i) := by
  unfold literal
  split <;> simp_all

theorem immediate_eq_ok {token : List Char} {i : Int} (h : immediate token = .ok i) :
    literal? token = .ok (some i) ∧ -2048 ≤ i ∧ i ≤ 2047 := by
  obtain ⟨value, hvalue, h⟩ := bind_eq_ok.mp h
  split at h
  · rename_i hreach
    cases h
    simp only [Reach.admits, Bool.and_eq_true, decide_eq_true_eq] at hreach
    exact ⟨literal_eq_ok.mp hvalue, hreach⟩
  · cases h

theorem jumpOffset_eq_ok {reach : Reach} {token : List Char} {offset : Int}
    (h : jumpOffset labels pc reach token = .ok offset) :
    distance labels pc token = .ok offset ∧ offset % 2 = 0 ∧ reach.low ≤ offset ∧ offset ≤ reach.high := by
  obtain ⟨value, hvalue, h⟩ := bind_eq_ok.mp h
  split at h
  · cases h
  · rename_i heven
    split at h
    · rename_i hreach
      cases h
      simp only [Reach.admits, Bool.and_eq_true, decide_eq_true_eq] at hreach
      exact ⟨hvalue, by omega, hreach⟩
    · cases h

theorem Mnemonic.mem_of_ofName {name : List Char} {m : Mnemonic} (h : Mnemonic.ofName? name = some m) :
    ∃ n ∈ Mnemonic.names, n.1.toList = name ∧ n.2 = m := by
  obtain ⟨n, hn, hm⟩ := Option.map_eq_some_iff.mp h
  have hname : (n.1.toList == name) = true := List.find?_some (p := fun n : String × Mnemonic => n.1.toList == name) hn
  exact ⟨n, List.mem_of_find?_eq_some hn, eq_of_beq hname, hm⟩

/-- What an accepted statement at `pc` says. -/
inductive Statement.Means (labels : Labels) (pc : Address) : Statement → Instruction → Prop
  | nop {name : List Char} : Mnemonic.ofName? name = some .nop → Means labels pc ⟨name, []⟩ .nop
  | branch {name a b token : List Char} {c : Condition} {ra rb : Register} {offset : Int} :
    Mnemonic.ofName? name = some (.branch c) → register a = .ok ra → register b = .ok rb →
    jumpOffset labels pc .branch token = .ok offset → Means labels pc ⟨name, [a, b, token]⟩ (.branch c ra rb offset)
  | jump {name token : List Char} {offset : Int} :
    Mnemonic.ofName? name = some .jal → jumpOffset labels pc .jump token = .ok offset →
    Means labels pc ⟨name, [token]⟩ (.jal linkRegister offset)
  | link {name d token : List Char} {rd : Register} {offset : Int} :
    Mnemonic.ofName? name = some .jal → register d = .ok rd → jumpOffset labels pc .jump token = .ok offset →
    Means labels pc ⟨name, [d, token]⟩ (.jal rd offset)
  | indirect {name d a : List Char} {rd ra : Register} :
    Mnemonic.ofName? name = some .jalr → register d = .ok rd → register a = .ok ra →
    Means labels pc ⟨name, [d, a]⟩ (.jalr rd ra 0)
  | displaced {name d a n : List Char} {rd ra : Register} {imm : Int} :
    Mnemonic.ofName? name = some .jalr → register d = .ok rd → register a = .ok ra → Assembly.immediate n = .ok imm →
    Means labels pc ⟨name, [d, a, n]⟩ (.jalr rd ra imm)
  | register {name d a b : List Char} {op : RegisterOp} {rd ra rb : Register} :
    Mnemonic.ofName? name = some (.register op) → Assembly.register d = .ok rd → Assembly.register a = .ok ra →
    Assembly.register b = .ok rb → Means labels pc ⟨name, [d, a, b]⟩ (.register op rd ra rb)
  | immediate {name d a n : List Char} {op : ImmediateOp} {rd ra : Register} {imm : Int} :
    Mnemonic.ofName? name = some (.immediate op) → Assembly.register d = .ok rd → Assembly.register a = .ok ra →
    Assembly.immediate n = .ok imm → Means labels pc ⟨name, [d, a, n]⟩ (.immediate op rd ra imm)

theorem Statement.means_of_instruction {s : Statement} {ins : Instruction}
    (h : s.instruction labels pc = .ok ins) : s.Means labels pc ins := by
  rcases s with ⟨name, operands⟩
  simp only [Statement.instruction] at h
  split at h
  · cases h
  · rename_i hm
    split at h
    · cases h
      exact .nop hm
    · cases h
  · rename_i c hm
    split at h
    · obtain ⟨offset, hoffset, h⟩ := bind_eq_ok.mp h
      obtain ⟨rb, hb, h⟩ := bind_eq_ok.mp h
      obtain ⟨ra, ha, h⟩ := bind_eq_ok.mp h
      cases h
      exact .branch hm ha hb hoffset
    · cases h
  · rename_i hm
    split at h
    · obtain ⟨offset, hoffset, h⟩ := bind_eq_ok.mp h
      cases h
      exact .jump hm hoffset
    · obtain ⟨rd, hd, h⟩ := bind_eq_ok.mp h
      obtain ⟨offset, hoffset, h⟩ := bind_eq_ok.mp h
      cases h
      exact .link hm hd hoffset
    · cases h
  · rename_i hm
    split at h
    · obtain ⟨ra, ha, h⟩ := bind_eq_ok.mp h
      obtain ⟨rd, hd, h⟩ := bind_eq_ok.mp h
      cases h
      exact .indirect hm hd ha
    · obtain ⟨imm, hn, h⟩ := bind_eq_ok.mp h
      obtain ⟨ra, ha, h⟩ := bind_eq_ok.mp h
      obtain ⟨rd, hd, h⟩ := bind_eq_ok.mp h
      cases h
      exact .displaced hm hd ha hn
    · cases h
  · rename_i op hm
    split at h
    · obtain ⟨rb, hb, h⟩ := bind_eq_ok.mp h
      obtain ⟨ra, ha, h⟩ := bind_eq_ok.mp h
      obtain ⟨rd, hd, h⟩ := bind_eq_ok.mp h
      cases h
      exact .register hm hd ha hb
    · cases h
  · rename_i op hm
    split at h
    · obtain ⟨imm, hn, h⟩ := bind_eq_ok.mp h
      obtain ⟨ra, ha, h⟩ := bind_eq_ok.mp h
      obtain ⟨rd, hd, h⟩ := bind_eq_ok.mp h
      cases h
      exact .immediate hm hd ha hn
    · cases h

theorem Statement.Means.encodable {s : Statement} {ins : Instruction} (h : s.Means labels pc ins) :
    ins.Encodable := by
  cases h with
  | branch _ _ _ hoffset | jump _ hoffset | link _ _ hoffset => exact (jumpOffset_eq_ok hoffset).2
  | nop | indirect | displaced | register | immediate => trivial

/-- The word of an accepted body is that of an instruction that its statement means. -/
theorem encodeBody_eq_ok {body : List Char} {w : Word} (h : encodeBody labels pc body = .ok w) :
    ∃ ins, (Statement.ofBody body).Means labels pc ins ∧ w = ins.encode := by
  unfold encodeBody at h
  cases hins : (Statement.ofBody body).instruction labels pc with
  | error r =>
    rw [hins] at h
    cases h
  | ok ins =>
    rw [hins] at h
    cases h
    exact ⟨ins, Statement.means_of_instruction hins, rfl⟩

/-- Labels and position matter to a body only through the distances between them. -/
theorem encodeBody_congr {other : Labels} {there : Address}
    (h : ∀ token, distance labels pc token = distance other there token) (body : List Char) :
    encodeBody labels pc body = encodeBody other there body := by
  have hjump : jumpOffset labels pc = jumpOffset other there := by
    funext reach token
    simp only [jumpOffset, h]
  simp only [encodeBody, Statement.instruction, hjump]

theorem encodeLine_eq_ok {line : SourceLine} {i : Nat} {w : Word} (h : encodeLine labels (line, i) = .ok w) :
    ∃ ins, (Statement.ofBody line.body).Means labels (.ofIndex i) ins ∧ w = ins.encode := by
  unfold encodeLine at h
  split at h
  · rename_i hbody
    cases h
    exact encodeBody_eq_ok hbody
  · cases h

end SecondPass

theorem assemble_eq_ok {text : List Char} {words : List Word} (h : assemble text = .ok words) :
    ∃ labels, addLabels [] 0 (sourceLines text) = .ok labels ∧
      List.Forall₂ (fun p w => encodeLine labels p = .ok w) (placedLines (sourceLines text)) words := by
  obtain ⟨labels, hlabels, h⟩ := bind_eq_ok.mp h
  exact ⟨labels, hlabels, mapM_eq_ok.mp h⟩

end FetchStage.Assembly
