import FetchStage.Proofs.Assembly.Passes
import Mathlib.Algebra.Group.Nat.Defs

/-! # The branches that a source states

The branches found in the words of an assembled source are those that its lines state, one for each line with the name of
a conditional branch or of a jump, in the order of the lines. Both passes count the instructions that come before, so a
target given as a label comes back as the position of the labelled line, whether that line comes first or later.
-/
namespace FetchStage

namespace Address

theorem toNat_ofIndex {n : Nat} (h : n < 2 ^ 30) : (ofIndex n).toNat = 4 * n := by
  rw [ofIndex, BitVec.toNat_ofNat]
  omega

theorem add_ofInt_toNat (i : Nat) (offset : Int) :
    ((ofIndex i + BitVec.ofInt 32 offset).toNat : Int) = (4 * i + offset) % 2 ^ 32 := by
  have hsum : ofIndex i + BitVec.ofInt 32 offset = BitVec.ofInt 32 (4 * i + offset) := by
    rw [BitVec.ofInt_add, ofIndex, ← BitVec.ofInt_natCast]
    push_cast
    rfl
  rw [hsum, BitVec.toNat_ofInt, Int.toNat_of_nonneg (Int.emod_nonneg _ (by decide))]
  rfl

theorem add_distance (a pc : Address) : pc + BitVec.ofInt 32 ((a.toNat : Int) - pc.toNat) = a := by
  have hself : ∀ x : Address, BitVec.ofInt 32 x.toNat = x := by
    intro x
    rw [BitVec.ofInt_natCast, BitVec.ofNat_toNat, BitVec.setWidth_eq]
  calc pc + BitVec.ofInt 32 ((a.toNat : Int) - pc.toNat)
      = BitVec.ofInt 32 pc.toNat + BitVec.ofInt 32 ((a.toNat : Int) - pc.toNat) := by rw [hself]
    _ = BitVec.ofInt 32 a.toNat := by rw [← BitVec.ofInt_add, Int.add_comm, Int.sub_add_cancel]
    _ = a := hself a

end Address

namespace Assembly
open Isa

def conditionals : List String := ["beq", "bne", "blt", "bge"]

namespace Statement

def isConditional (s : Statement) : Bool := conditionals.any (·.toList == s.mnemonic)

def isJump (s : Statement) : Bool := s.mnemonic == "jal".toList

/-- The statement names an instruction to go on with. -/
def transfers (s : Statement) : Bool := s.isConditional || s.isJump

/-- The operand that names it. -/
def target? (s : Statement) : Option (List Char) := s.operands.getLast?

end Statement

def SourceLine.statement (l : SourceLine) : Statement := .ofBody l.body

def Mnemonic.isConditional : Mnemonic → Bool
  | .branch _ => true
  | _ => false

theorem Statement.kind_of_name {name : List Char} {operands : List (List Char)} {m : Mnemonic}
    (h : Mnemonic.ofName? name = some m) :
    isConditional ⟨name, operands⟩ = m.isConditional ∧ isJump ⟨name, operands⟩ = (m == .jal) := by
  have hall : ∀ n ∈ Mnemonic.names, conditionals.any (·.toList == n.1.toList) = n.2.isConditional ∧
      (n.1.toList == "jal".toList) = (n.2 == .jal) := by decide
  obtain ⟨n, hn, rfl, rfl⟩ := Mnemonic.mem_of_ofName h
  exact hall n hn

/-- The branch of a line at its position, with its target found through the labels. -/
def Resolves (labels : Labels) (p : SourceLine × Nat) (b : BranchRecord) : Prop :=
  ∃ token offset, p.1.statement.target? = some token ∧ distance labels (.ofIndex p.2) token = .ok offset ∧
    b = ⟨.ofIndex p.2, p.1.statement.isJump || p.2 % 2 == 0, .ofIndex p.2 + BitVec.ofInt 32 offset⟩

variable {labels : Labels} {lines : List SourceLine}

theorem Statement.Means.branch? {s : Statement} {ins : Instruction} {i : Nat}
    (h : s.Means labels (.ofIndex i) ins) :
    if s.transfers then
      ∃ token offset, s.target? = some token ∧ distance labels (.ofIndex i) token = .ok offset ∧
        ins.branch? i = some ⟨.ofIndex i, s.isJump || i % 2 == 0, .ofIndex i + BitVec.ofInt 32 offset⟩
    else ins.branch? i = none := by
  unfold Statement.transfers
  cases h with
  | branch hm _ _ hoffset | jump hm hoffset | link hm _ hoffset =>
    obtain ⟨hc, hj⟩ := Statement.kind_of_name hm
    rw [hc, hj]
    exact ⟨_, _, rfl, (jumpOffset_eq_ok hoffset).1, rfl⟩
  | nop hm | indirect hm | displaced hm | register hm | immediate hm =>
    obtain ⟨hc, hj⟩ := Statement.kind_of_name hm
    rw [hc, hj]
    rfl

theorem branchAt_of_encodeLine {line : SourceLine} {i : Nat} {w : Word} (h : encodeLine labels (line, i) = .ok w) :
    if line.statement.transfers then ∃ b, branchAt i w = some b ∧ Resolves labels (line, i) b
    else branchAt i w = none := by
  obtain ⟨ins, hmeans, rfl⟩ := encodeLine_eq_ok h
  have hbranch := hmeans.branch?
  rw [Instruction.branchAt_encode hmeans.encodable]
  change if line.statement.transfers then _ else _ at hbranch
  split at hbranch
  · rename_i ht
    obtain ⟨token, offset, htarget, hd, hb⟩ := hbranch
    rw [if_pos ht]
    exact ⟨_, hb, token, offset, htarget, hd, rfl⟩
  · rename_i ht
    rw [if_neg ht]
    exact hbranch

theorem resolves_of_encoded {xs : List SourceLine} {ws : List Word} {n : Nat}
    (h : List.Forall₂ (fun p w => encodeLine labels p = .ok w) (xs.zipIdx n) ws) :
    List.Forall₂ (Resolves labels) ((xs.zipIdx n).filter (·.1.statement.transfers))
      ((ws.zipIdx n).filterMap fun (w, i) => branchAt i w) := by
  induction xs generalizing n ws with
  | nil =>
    cases h
    exact .nil
  | cons x xs ih =>
    rw [List.zipIdx_cons] at h
    cases h with
    | cons hw hrest =>
      have hfound := branchAt_of_encodeLine hw
      rw [List.zipIdx_cons, List.zipIdx_cons, List.filter_cons]
      split at hfound
      · rename_i ht
        obtain ⟨b, hb, hres⟩ := hfound
        rw [if_pos ht]
        simp only [List.filterMap_cons, hb]
        exact .cons hres (ih hrest)
      · rename_i ht
        rw [if_neg ht]
        simp only [List.filterMap_cons, hfound]
        exact ih hrest

theorem Resolves.target_of_defined {p : SourceLine × Nat} {b : BranchRecord} (h : Resolves labels p b)
    (hlabels : addLabels [] 0 lines = .ok labels) {token : List Char} (ht : p.1.statement.target? = some token) {n : Nat}
    (hn : Defines lines token n) : b.target = .ofIndex n := by
  obtain ⟨t, offset, htarget, hd, rfl⟩ := h
  rw [ht] at htarget
  cases htarget
  have hlook := addLabels_defined hlabels hn
  rw [Nat.zero_add] at hlook
  simp only [distance, hlook] at hd
  cases hd
  exact Address.add_distance _ _

theorem literal_of_undefined (hlabels : addLabels [] 0 lines = .ok labels) {token : List Char} {pc : Address}
    {offset : Int} (hn : ∀ n, ¬Defines lines token n) (hd : distance labels pc token = .ok offset) :
    literal? token = .ok (some offset) := by
  have hlook : labels.lookup token = none := addLabels_undefined hlabels hn
  simp only [distance, hlook] at hd
  exact literal_eq_ok.mp hd

/-- What the source says of a branch, for a line at its position among the instructions. A label stands for the
instructions before its line, and anything else is a distance in bytes. -/
structure States (lines : List SourceLine) (p : SourceLine × Nat) (b : BranchRecord) : Prop where
  pc : b.pc.toNat = 4 * p.2
  taken : b.taken ↔ p.1.statement.isJump ∨ p.2 % 2 = 0
  target : ∃ token, p.1.statement.target? = some token ∧
    (∀ n, Defines lines token n → b.target.toNat = 4 * n) ∧
    ((∀ n, ¬Defines lines token n) →
      ∃ offset, literal? token = .ok (some offset) ∧ (b.target.toNat : Int) = (4 * p.2 + offset) % 2 ^ 32)

theorem Resolves.states {p : SourceLine × Nat} {b : BranchRecord} (h : Resolves labels p b)
    (hlabels : addLabels [] 0 lines = .ok labels) (hlen : (placedLines lines).length < 2 ^ 30)
    (hp : p ∈ placedLines lines) : States lines p b := by
  obtain ⟨token, offset, htarget, hd, hb⟩ := h
  have hi : p.2 < 2 ^ 30 := Nat.lt_trans (lt_of_mem_placedLines hp) hlen
  refine ⟨?_, ?_, token, htarget, ?_, ?_⟩
  · rw [hb, Address.toNat_ofIndex hi]
  · rw [hb]
    simp
  · intro n hn
    have hle := hn.le_length
    rw [Resolves.target_of_defined ⟨token, offset, htarget, hd, hb⟩ hlabels htarget hn,
      Address.toNat_ofIndex (by omega)]
  · intro hn
    refine ⟨offset, literal_of_undefined hlabels hn hd, ?_⟩
    rw [hb]
    exact Address.add_ofInt_toNat p.2 offset

theorem staticBranches_resolves {text : List Char} {words : List Word} (h : assemble text = .ok words) :
    ∃ labels, addLabels [] 0 (sourceLines text) = .ok labels ∧ (placedLines (sourceLines text)).length = words.length ∧
      List.Forall₂ (Resolves labels) ((placedLines (sourceLines text)).filter (·.1.statement.transfers))
        (staticBranches words) := by
  obtain ⟨labels, hlabels, hwords⟩ := assemble_eq_ok h
  exact ⟨labels, hlabels, hwords.length_eq, resolves_of_encoded hwords⟩

/-- Every branch and every jump of the source goes to a label of the source. -/
def Labelled (lines : List SourceLine) : Prop :=
  ∀ l ∈ lines, l.statement.transfers → ∃ m ∈ lines, m.label.isSome ∧ l.statement.target? = m.label

instance (lines : List SourceLine) : Decidable (Labelled lines) :=
  inferInstanceAs (Decidable (∀ l ∈ lines, _ → ∃ m ∈ lines, _))

theorem target_of_labelled {text : List Char} {words : List Word} (h : assemble text = .ok words)
    (hl : Labelled (sourceLines text)) {b : BranchRecord} (hb : b ∈ staticBranches words) :
    ∃ n, b.target = .ofIndex n := by
  obtain ⟨labels, hlabels, _, hres⟩ := staticBranches_resolves h
  obtain ⟨i, hi, rfl⟩ := List.mem_iff_getElem.mp hb
  have hlt := hi
  rw [← hres.length_eq] at hlt
  have hpb := hres.get hlt hi
  obtain ⟨hplaced, ht⟩ := List.mem_filter.mp (List.getElem_mem hlt)
  have hline := (List.mem_filter.mp (List.fst_mem_of_mem_zipIdx hplaced)).1
  obtain ⟨m, hm, hsome, htarget⟩ := hl _ hline ht
  obtain ⟨token, hlabel⟩ := Option.isSome_iff_exists.mp hsome
  obtain ⟨before, after, hlines⟩ := List.append_of_mem hm
  exact ⟨_, hpb.target_of_defined hlabels (htarget.trans hlabel) ⟨before, m, after, hlines, hlabel, rfl⟩⟩

/-- The branches found in an assembled program are exactly those that the lines of its source state, in their order. -/
theorem staticBranches_assemble (text : List Char) (words : List Word) (h : assemble text = .ok words)
    (hn : words.length < 2 ^ 30) :
    List.Forall₂ (States (sourceLines text)) ((placedLines (sourceLines text)).filter (·.1.statement.transfers))
      (staticBranches words) := by
  obtain ⟨labels, hlabels, hlen, hres⟩ := staticBranches_resolves h
  have hplaced : ∀ p ∈ (placedLines (sourceLines text)).filter (·.1.statement.transfers),
      p ∈ placedLines (sourceLines text) :=
    fun p hp => (List.mem_filter.mp hp).1
  have hboth := (List.forall₂_and_left _ _).mpr ⟨hplaced, hres⟩
  exact hboth.imp fun p b hpb => hpb.2.states hlabels (by omega) hpb.1

/-- A label used before its line, one used after it, two distances, and lines that state no branch. -/
theorem staticBranches_assemble_forward :
    ∃ text words,
      text = "start: BNE x1, x0, done\n blt x2, x1, -4\nhere:\n jal start\ndone: jalr x0, x1\n Jal x5, 8".toList ∧
      assemble text = .ok words ∧ words.length < 2 ^ 30 ∧
      staticBranches words = [⟨0, true, 12⟩, ⟨4, false, 0⟩, ⟨8, true, 0⟩, ⟨16, true, 24⟩] ∧
      List.Forall₂ (States (sourceLines text)) ((placedLines (sourceLines text)).filter (·.1.statement.transfers))
        (staticBranches words) :=
  ⟨_, _, rfl, rfl, by decide, by decide, staticBranches_assemble _ _ rfl (by decide)⟩

end Assembly

end FetchStage
