import FetchStage.Proofs.Assembly.Passes
import FetchStage.Proofs.Isa.Decode
import FetchStage.Proofs.Text.Lines
import FetchStage.Proofs.Text.Numerals

/-! # The instruction that a line writes

A line is a name and operands, with commas and blanks between. What it writes is told here from the names of operations and
registers and from the values of numerals, apart from how they are read, and it is at most one instruction. The word of an
accepted line decodes to that instruction.
-/
namespace FetchStage.Assembly
open Text Isa

section Register

/-- The name of a register by its role: the fixed ones, then temporaries, saved registers and arguments. -/
def abiName (n : Nat) : String :=
  if n < 5 then ["zero", "ra", "sp", "gp", "tp"].getD n ""
  else if n < 8 then s!"t{n - 5}"
  else if n < 10 then s!"s{n - 8}"
  else if n < 18 then s!"a{n - 10}"
  else if n < 28 then s!"s{n - 16}"
  else s!"t{n - 25}"

/-- An operand that stands for register `n`, in any letter case. -/
inductive Names (token : List Char) : Nat → Prop
  | number {digits : List Char} {n : Nat} : lower token = 'x' :: digits → Numeral 10 digits n → n < 32 → Names token n
  | plus {digits : List Char} {n : Nat} :
    lower token = 'x' :: '+' :: digits → Numeral 10 digits n → n < 32 → Names token n
  | role {n : Nat} : n < 32 → lower token = (abiName n).toList → Names token n
  | frame : lower token = "fp".toList → Names token 8

variable {token name : List Char} {r : Register}

theorem toNat_ofNat_register {n : Nat} (h : n < 32) : (BitVec.ofNat 5 n).toNat = n :=
  (BitVec.toNat_ofNat n 5).trans (Nat.mod_eq_of_lt h)

theorem numberedRegister_eq_some :
    numberedRegister? name = some r ↔
      ∃ digits, name = 'x' :: digits ∧
        (Numeral 10 digits r.toNat ∨ ∃ ds, digits = '+' :: ds ∧ Numeral 10 ds r.toNat) := by
  constructor
  · intro h
    unfold numberedRegister? at h
    split at h
    · rename_i digits
      split at h
      · rename_i n hn
        split at h
        · rename_i hlt
          cases h
          rw [toNat_ofNat_register hlt]
          exact ⟨digits, rfl, ((readUnsigned_numeral (by decide) (by decide)).mp hn).2⟩
        · cases h
      · cases h
    · cases h
  · rintro ⟨digits, rfl, hn⟩
    have hlt : r.toNat < 32 := r.isLt
    have hread : readUnsigned 10 (Nat.pow 2 32) digits = .ok r.toNat :=
      (readUnsigned_numeral (by decide) (by decide)).mpr ⟨Nat.lt_trans hlt (by decide), hn⟩
    simp [numberedRegister?, hread, hlt]

theorem registerNames_eq : registerNames = (List.range 32).map abiName := by decide +kernel

/-- A name is found under its number, and is not mistaken for one. -/
theorem namedRegister_abiName : ∀ n < 32,
    namedRegister? (abiName n).toList = some (BitVec.ofNat 5 n) ∧ numberedRegister? (abiName n).toList = none := by
  decide +kernel

theorem namedRegister_eq_some :
    namedRegister? name = some r ↔ name = "fp".toList ∧ r = 8 ∨ name = (abiName r.toNat).toList := by
  constructor
  · intro h
    unfold namedRegister? at h
    split at h
    · rename_i hfp
      exact Or.inl ⟨hfp, (Option.some.inj h).symm⟩
    · obtain ⟨i, hi, rfl⟩ := Option.map_eq_some_iff.mp h
      obtain ⟨hlt, hname, _⟩ := List.findIdx?_eq_some_iff_getElem.mp hi
      simp only [registerNames_eq, List.getElem_map, List.getElem_range, beq_iff_eq] at hname
      rw [toNat_ofNat_register hlt]
      exact Or.inr hname.symm
  · rintro (⟨rfl, rfl⟩ | rfl)
    · rfl
    · simpa using (namedRegister_abiName r.toNat r.isLt).1

theorem register_eq_ok : register token = .ok r ↔ Names token r.toNat := by
  have hread : register token = .ok r ↔
      (numberedRegister? (lower token)).or (namedRegister? (lower token)) = some r := by
    unfold register
    cases (numberedRegister? (lower token)).or (namedRegister? (lower token)) <;> simp
  rw [hread, Option.or_eq_some_iff]
  constructor
  · rintro (h | ⟨_, h⟩)
    · obtain ⟨digits, hx, hn | ⟨ds, rfl, hn⟩⟩ := numberedRegister_eq_some.mp h
      · exact .number hx hn r.isLt
      · exact .plus hx hn r.isLt
    · rcases namedRegister_eq_some.mp h with ⟨hfp, rfl⟩ | hname
      · exact .frame hfp
      · exact .role r.isLt hname
  · intro h
    generalize hr : r.toNat = n at h
    cases h with
    | number hx hn _ => exact Or.inl (numberedRegister_eq_some.mpr ⟨_, hx, Or.inl (hr ▸ hn)⟩)
    | plus hx hn _ => exact Or.inl (numberedRegister_eq_some.mpr ⟨_, hx, Or.inr ⟨_, rfl, hr ▸ hn⟩⟩)
    | role hlt hname =>
      obtain ⟨hnamed, hnumbered⟩ := namedRegister_abiName n hlt
      rw [hname, hnamed, ← hr, BitVec.ofNat_toNat, BitVec.setWidth_eq]
      exact Or.inr ⟨hr ▸ hnumbered, rfl⟩
    | frame hfp =>
      rw [hfp]
      exact Or.inr ⟨rfl, congrArg some (BitVec.eq_of_toNat_eq hr.symm)⟩

end Register

section Literal

/-- The digits of a literal: decimal ones, or hexadecimal ones behind their mark, where a sign may stand. -/
inductive Digits : List Char → Int → Prop
  | decimal {cs : List Char} {n : Nat} : Numeral 10 cs n → Digits cs n
  | hexadecimal {mark : Char} {cs : List Char} {i : Int} :
    mark = 'x' ∨ mark = 'X' → SignedNumeral 16 cs i → Digits ('0' :: mark :: cs) i

/-- The number that a literal is written for. -/
inductive Denotes : List Char → Int → Prop
  | positive {cs : List Char} {i : Int} : Digits cs i → Denotes cs i
  | negative {cs : List Char} {i : Int} : Digits cs i → Denotes ('-' :: cs) (-i)

variable {token cs : List Char} {i j : Int}

theorem digits_of_unsignedLiteral (h : unsignedLiteral? cs = some i) : Digits cs i := by
  unfold unsignedLiteral? at h
  split at h
  · rename_i hexed hmark
    obtain ⟨mark, hm, rfl⟩ := afterHexMark_eq_some.mp hmark
    exact .hexadecimal hm (readSigned_numeral (by decide) (by decide) h)
  · split at h
    · rename_i hdigit
      cases readSigned_numeral (by decide) (by decide) h with
      | plain hn => exact .decimal hn
      | plus _ => cases hdigit
      | minus _ => cases hdigit
    · cases h

theorem denotes_of_literal (h : literal? token = .ok (some i)) : Denotes token i := by
  unfold literal? at h
  split at h
  · rename_i digits
    cases hu : unsignedLiteral? digits with
    | none =>
      rw [hu] at h
      cases h
    | some value =>
      simp only [hu, Literal.negate] at h
      split at h
      · cases h
      · cases h
        exact .negative (digits_of_unsignedLiteral hu)
  · exact .positive (digits_of_unsignedLiteral (Except.ok.inj h))

theorem Digits.unique (hi : Digits cs i) (hj : Digits cs j) : i = j := by
  cases hi with
  | decimal hn =>
    cases hj with
    | decimal hm => rw [hn.unique (by decide) (by decide) hm]
    | hexadecimal hmark _ => exact absurd hn (not_numeral_hexMark (by decide) hmark)
  | hexadecimal hmark hi =>
    cases hj with
    | decimal hm => exact absurd hm (not_numeral_hexMark (by decide) hmark)
    | hexadecimal _ hj => exact hi.unique (by decide) (by decide) hj

theorem not_digits_minus : ¬Digits ('-' :: cs) i := by
  intro h
  cases h with
  | decimal hn => exact (hn.cons_ne_sign (by decide)).2 rfl

theorem Denotes.unique (hi : Denotes token i) (hj : Denotes token j) : i = j := by
  cases hi with
  | positive hi =>
    cases hj with
    | positive hj => exact hi.unique hj
    | negative _ => exact absurd hi not_digits_minus
  | negative hi =>
    cases hj with
    | positive hj => exact absurd hj not_digits_minus
    | negative hj => rw [hi.unique hj]

end Literal

section Line

/-- The byte offset of a target: to the address of a label, or else as a literal. -/
inductive Leads (labels : Labels) (pc : Address) (token : List Char) : Int → Prop
  | label {a : Address} : labels.lookup token = some a → Leads labels pc token (a.toNat - pc.toNat)
  | literal {offset : Int} : labels.lookup token = none → Denotes token offset → Leads labels pc token offset

def Mnemonic.name : Mnemonic → String
  | .nop => "nop"
  | .branch .eq => "beq"
  | .branch .ne => "bne"
  | .branch .lt => "blt"
  | .branch .ge => "bge"
  | .jal => "jal"
  | .jalr => "jalr"
  | .register .add => "add"
  | .register .sub => "sub"
  | .register .and => "and"
  | .register .or => "or"
  | .register .xor => "xor"
  | .immediate .add => "addi"
  | .immediate .and => "andi"
  | .immediate .or => "ori"
  | .immediate .xor => "xori"

/-- What a mnemonic with its operands says at `pc`. -/
inductive Says (labels : Labels) (pc : Address) : Mnemonic → List (List Char) → Instruction → Prop
  | nop : Says labels pc .nop [] (.immediate .add 0 0 0)
  | branch {c : Condition} {a b token : List Char} {ra rb : Register} {offset : Int} :
    Names a ra.toNat → Names b rb.toNat → Leads labels pc token offset →
    Says labels pc (.branch c) [a, b, token] (.branch c ra rb offset)
  | jump {token : List Char} {offset : Int} : Leads labels pc token offset → Says labels pc .jal [token] (.jal 1 offset)
  | link {d token : List Char} {rd : Register} {offset : Int} :
    Names d rd.toNat → Leads labels pc token offset → Says labels pc .jal [d, token] (.jal rd offset)
  | indirect {d a : List Char} {rd ra : Register} :
    Names d rd.toNat → Names a ra.toNat → Says labels pc .jalr [d, a] (.jalr rd ra 0)
  | displaced {d a n : List Char} {rd ra : Register} {imm : Int} :
    Names d rd.toNat → Names a ra.toNat → Denotes n imm → Says labels pc .jalr [d, a, n] (.jalr rd ra imm)
  | register {op : RegisterOp} {d a b : List Char} {rd ra rb : Register} :
    Names d rd.toNat → Names a ra.toNat → Names b rb.toNat →
    Says labels pc (.register op) [d, a, b] (.register op rd ra rb)
  | immediate {op : ImmediateOp} {d a n : List Char} {rd ra : Register} {imm : Int} :
    Names d rd.toNat → Names a ra.toNat → Denotes n imm →
    Says labels pc (.immediate op) [d, a, n] (.immediate op rd ra imm)

/-- A line at `pc` writes an instruction: the nonempty pieces between commas and blanks are its name, in any letter case, and
its operands. -/
def Writes (labels : Labels) (pc : Address) (body : List Char) (ins : Instruction) : Prop :=
  ∃ name operands m, (body.splitOnP fun c => c == ',' || isBlank c).filter (· ≠ []) = name :: operands ∧
    lower name = (Mnemonic.name m).toList ∧ Says labels pc m operands ins

variable {labels : Labels} {pc : Address}

theorem leads_of_distance {token : List Char} {offset : Int} (h : distance labels pc token = .ok offset) :
    Leads labels pc token offset := by
  unfold distance at h
  split at h
  · rename_i hlabel
    cases h
    exact .label hlabel
  · rename_i hlabel
    exact .literal hlabel (denotes_of_literal (literal_eq_ok.mp h))

theorem Leads.unique {token : List Char} {i j : Int} (hi : Leads labels pc token i) (hj : Leads labels pc token j) :
    i = j := by
  cases hi with
  | label ha =>
    cases hj with
    | label hb =>
      rw [ha] at hb
      cases hb
      rfl
    | literal hb _ => simp [ha] at hb
  | literal ha hi =>
    cases hj with
    | label hb => simp [ha] at hb
    | literal _ hj => exact hi.unique hj

theorem Mnemonic.name_of_ofName {name : List Char} {m : Mnemonic} (h : Mnemonic.ofName? name = some m) :
    name = m.name.toList := by
  have hall : ∀ n ∈ names, n.1 = n.2.name := by decide
  obtain ⟨n, hn, rfl, rfl⟩ := Mnemonic.mem_of_ofName h
  rw [hall n hn]

theorem Mnemonic.ofName_name (m : Mnemonic) : Mnemonic.ofName? m.name.toList = some m := by
  cases m with
  | branch c => cases c <;> rfl
  | register op => cases op <;> rfl
  | immediate op => cases op <;> rfl
  | nop | jal | jalr => rfl

theorem Names.unique {token : List Char} {r q : Register} (hr : Names token r.toNat) (hq : Names token q.toNat) : r = q :=
  Except.ok.inj ((register_eq_ok.mpr hr).symm.trans (register_eq_ok.mpr hq))

theorem Says.unique {m : Mnemonic} {operands : List (List Char)} {ins other : Instruction}
    (h : Says labels pc m operands ins) (h' : Says labels pc m operands other) : ins = other := by
  cases h with
  | nop =>
    cases h'
    rfl
  | branch ha hb ht =>
    cases h' with
    | branch ha' hb' ht' => rw [ha.unique ha', hb.unique hb', ht.unique ht']
  | jump ht =>
    cases h' with
    | jump ht' => rw [ht.unique ht']
  | link hd ht =>
    cases h' with
    | link hd' ht' => rw [hd.unique hd', ht.unique ht']
  | indirect hd ha =>
    cases h' with
    | indirect hd' ha' => rw [hd.unique hd', ha.unique ha']
  | displaced hd ha hn =>
    cases h' with
    | displaced hd' ha' hn' => rw [hd.unique hd', ha.unique ha', hn.unique hn']
  | register hd ha hb =>
    cases h' with
    | register hd' ha' hb' => rw [hd.unique hd', ha.unique ha', hb.unique hb']
  | immediate hd ha hn =>
    cases h' with
    | immediate hd' ha' hn' => rw [hd.unique hd', ha.unique ha', hn.unique hn']

theorem Writes.unique {body : List Char} {ins other : Instruction} (h : Writes labels pc body ins)
    (h' : Writes labels pc body other) : ins = other := by
  obtain ⟨name, operands, m, hbody, hm, hsays⟩ := h
  obtain ⟨name', operands', m', hbody', hm', hsays'⟩ := h'
  rw [hbody] at hbody'
  cases hbody'
  have hsame : some m = some m' := by
    rw [← m.ofName_name, ← hm, hm', m'.ofName_name]
  cases hsame
  exact hsays.unique hsays'

theorem Statement.Means.says {s : Statement} {ins : Instruction} (h : s.Means labels pc ins) :
    ∃ m, s.mnemonic = (Mnemonic.name m).toList ∧ Says labels pc m s.operands ins ∧ ins.Fits := by
  cases h with
  | nop hm =>
    have hfits : (-2048 : Int) ≤ 0 ∧ (0 : Int) ≤ 2047 := by decide
    exact ⟨_, Mnemonic.name_of_ofName hm, .nop, hfits⟩
  | branch hm ha hb ht =>
    obtain ⟨hd, hfits⟩ := jumpOffset_eq_ok ht
    exact ⟨_, Mnemonic.name_of_ofName hm,
      .branch (register_eq_ok.mp ha) (register_eq_ok.mp hb) (leads_of_distance hd), hfits⟩
  | jump hm ht =>
    obtain ⟨hd, hfits⟩ := jumpOffset_eq_ok ht
    exact ⟨_, Mnemonic.name_of_ofName hm, .jump (leads_of_distance hd), hfits⟩
  | link hm hd ht =>
    obtain ⟨ht, hfits⟩ := jumpOffset_eq_ok ht
    exact ⟨_, Mnemonic.name_of_ofName hm, .link (register_eq_ok.mp hd) (leads_of_distance ht), hfits⟩
  | indirect hm hd ha =>
    exact ⟨_, Mnemonic.name_of_ofName hm, .indirect (register_eq_ok.mp hd) (register_eq_ok.mp ha), by decide, by decide⟩
  | displaced hm hd ha hn =>
    obtain ⟨hvalue, hfits⟩ := immediate_eq_ok hn
    exact ⟨_, Mnemonic.name_of_ofName hm,
      .displaced (register_eq_ok.mp hd) (register_eq_ok.mp ha) (denotes_of_literal hvalue), hfits⟩
  | register hm hd ha hb =>
    exact ⟨_, Mnemonic.name_of_ofName hm,
      .register (register_eq_ok.mp hd) (register_eq_ok.mp ha) (register_eq_ok.mp hb), trivial⟩
  | immediate hm hd ha hn =>
    obtain ⟨hvalue, hfits⟩ := immediate_eq_ok hn
    exact ⟨_, Mnemonic.name_of_ofName hm,
      .immediate (register_eq_ok.mp hd) (register_eq_ok.mp ha) (denotes_of_literal hvalue), hfits⟩

theorem writes_of_encodeBody {body : List Char} {w : Word} (h : encodeBody labels pc body = .ok w) :
    ∃ ins, Writes labels pc body ins ∧ ins.Fits ∧ w = ins.encode := by
  obtain ⟨ins, hmeans, hw⟩ := encodeBody_eq_ok h
  obtain ⟨m, hm, hsays, hfits⟩ := hmeans.says
  refine ⟨ins, ?_, hfits, hw⟩
  have hfields : fieldsBy (fun c => c == ',' || isBlank c) body =
      (body.splitOnP fun c => c == ',' || isBlank c).filter (· ≠ []) := by
    rw [fieldsBy, pieces_eq_splitOnP]
    congr 1
    funext p
    cases p <;> rfl
  unfold Statement.ofBody at hm hsays
  rw [hfields] at hm hsays
  split at hm
  · rename_i name operands hbody
    rw [hbody] at hsays
    exact ⟨name, operands, m, hbody, hm, hsays⟩
  · have hnone : Mnemonic.ofName? [] = none := by decide
    have hname : Mnemonic.ofName? [] = some m := (congrArg Mnemonic.ofName? hm).trans m.ofName_name
    simp [hnone] at hname

/-- The word of a line decodes to the one instruction that the line writes. -/
theorem decode_encodeBody (labels : Labels) (pc : Address) (body : List Char) (w : Word)
    (h : encodeBody labels pc body = .ok w) :
    ∃ ins, decode w = some ins ∧ ∀ other, Writes labels pc body other ↔ other = ins := by
  obtain ⟨ins, hwrites, hfits, rfl⟩ := writes_of_encodeBody h
  refine ⟨ins, Instruction.decode_encode hfits, fun other => ⟨fun hother => hother.unique hwrites, ?_⟩⟩
  rintro rfl
  exact hwrites

/-- A branch back over more than half its reach, with a capital mnemonic, a plus sign, a second comma and the frame
pointer. -/
theorem decode_encodeBody_back :
    encodeBody [("back".toList, 0x7FA)] 0x1000 "BGE X+9,,Fp back".toList = .ok 0xFE84DD63 ∧
      decode 0xFE84DD63 = some (.branch .ge 9 8 (-2054)) ∧
      Writes [("back".toList, 0x7FA)] 0x1000 "BGE X+9,,Fp back".toList (.branch .ge 9 8 (-2054)) := by
  have hword : encodeBody [("back".toList, 0x7FA)] 0x1000 "BGE X+9,,Fp back".toList = .ok 0xFE84DD63 := by decide
  have hdecode : decode 0xFE84DD63 = some (.branch .ge 9 8 (-2054)) := by decide
  obtain ⟨ins, hins, hwrites⟩ := decode_encodeBody _ _ _ _ hword
  exact ⟨hword, hdecode, (hwrites _).mpr (Option.some.inj (hdecode.symm.trans hins))⟩

end Line

end FetchStage.Assembly
