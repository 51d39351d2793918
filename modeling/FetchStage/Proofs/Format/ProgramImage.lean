import FetchStage.Format.ProgramImage
import FetchStage.Proofs.Sequence
import FetchStage.Proofs.Text.Fields
import FetchStage.Proofs.Text.Numerals

/-! # Layouts of a program image

A text that lays out words is read as these words, however they are spelled and spaced and whatever comments stand at the
ends of lines. The text that is written is one such layout. Two texts joined by a newline hold the words of both.
-/
namespace FetchStage.Format
open Text

/-- One or more hexadecimal digits of either case, zeros in front included, with or without a mark. -/
def Spells (token : List Char) (w : Word) : Prop :=
  ∃ mark digits, (mark = [] ∨ mark = ['0', 'x'] ∨ mark = ['0', 'X']) ∧ token = mark ++ digits ∧ Numeral 16 digits w.toNat

/-- A text of words, blanks and comments. Newlines and carriage returns are blanks, a comment lasts to the next newline or
the end of the text, and a word is followed by a blank, a comment or the end of the text. -/
inductive Layout : List Char → List Word → Prop
  | nil : Layout [] []
  | blank {c : Char} {text : List Char} {ws : List Word} : isBlank c → Layout text ws → Layout (c :: text) ws
  | comment {mark note text : List Char} {ws : List Word} :
    mark = ['#'] ∨ mark = ['/', '/'] → '\n' ∉ note → (∀ c ∈ text.head?, c = '\n') → Layout text ws →
      Layout (mark ++ note ++ text) ws
  | word {token text : List Char} {w : Word} {ws : List Word} :
    Spells token w → startsGap text → Layout text ws → Layout (token ++ text) (w :: ws)

section Spelling
variable {token : List Char} {w : Word}

theorem isPlain_of_isDigit {c : Char} {d : Nat} (h : IsDigit 16 c d) : isPlain c := by
  have hplain : ∀ upper, ∀ d < 16, isPlain (digitChar upper d) := by decide
  rcases h with ⟨hd, rfl | rfl⟩
  · exact hplain false d hd
  · exact hplain true d hd

theorem Spells.isPlain (h : Spells token w) : ∀ c ∈ token, isPlain c := by
  obtain ⟨mark, digits, hmark, rfl, hdigits⟩ := h
  intro c hc
  rcases List.mem_append.mp hc with hc | hc
  · have hall : mark.all Text.isPlain := by rcases hmark with rfl | rfl | rfl <;> decide
    exact List.all_eq_true.mp hall c hc
  · obtain ⟨d, hd⟩ := hdigits.mem_digit hc
    exact isPlain_of_isDigit hd

theorem Spells.ne_nil (h : Spells token w) : token ≠ [] := by
  obtain ⟨mark, digits, _, rfl, hdigits⟩ := h
  simp [hdigits.ne_nil]

theorem readWord_of_spells (h : Spells token w) : readWord token = some w := by
  obtain ⟨mark, digits, hmark, rfl, hdigits⟩ := h
  have hstrip : (afterHexMark? (mark ++ digits)).getD (mark ++ digits) = digits := by
    rcases hmark with rfl | rfl | rfl
    · cases hmark : afterHexMark? digits with
      | none => rw [List.nil_append, hmark, Option.getD_none]
      | some rest =>
        obtain ⟨x, hx, rfl⟩ := afterHexMark_eq_some.mp hmark
        exact absurd hdigits (not_numeral_hexMark (by decide) hx)
    · rfl
    · rfl
  have hread : readUnsigned 16 (Nat.pow 2 32) digits = .ok w.toNat :=
    (readUnsigned_numeral (by decide) (by decide)).mpr ⟨w.isLt, Or.inl hdigits⟩
  rw [readWord, hstrip, hread]
  simp [Except.toOption]

theorem spells_of_readMagnitude (mark digits : List Char) (hmark : mark = [] ∨ mark = ['0', 'x'] ∨ mark = ['0', 'X'])
    (h : readMagnitude 16 (2 ^ 32) digits = .ok w.toNat) : Spells (mark ++ digits) w :=
  ⟨mark, digits, hmark, rfl, ((readMagnitude_numeral (by decide) (by decide)).mp h).1⟩

theorem spells_hexDigits (w : Word) : Spells (hexDigits true 8 w.toNat) w := by
  have hne : hexDigits true 8 w.toNat ≠ [] := List.ne_nil_of_length_pos (by rw [length_hexDigits]; decide)
  have hread : readDigits 16 (2 ^ 32) 0 (hexDigits true 8 w.toNat) = .ok w.toNat :=
    readDigits_hexDigits true w.isLt w.isLt
  exact spells_of_readMagnitude [] _ (Or.inl rfl) (readMagnitude_eq_ok.mpr ⟨hne, hread⟩)

end Spelling

theorem map_wordTokens (text : List Char) : (wordTokens text).map (·.2) = textFields text := by
  have hlines : (lines text).flatMap lineFields = ((lines text).zipIdx 1).flatMap fun l => lineFields l.1 := by
    conv_lhs => rw [← List.zipIdx_map_fst 1 (lines text), List.flatMap_map]
  rw [textFields_eq, hlines]
  simp [wordTokens, numbered, List.map_flatMap, List.flatMap_map, Function.comp_def, lineFields]

theorem readProgram_eq_ok {text : List Char} {ws : List Word} :
    readProgram text = .ok ws ↔ List.Forall₂ (fun token w => readWord token = some w) (textFields text) ws := by
  have horFault : ∀ line fault o (w : Word), orFault line fault o = .ok w ↔ o = some w := by
    intro line fault o w
    cases o <;> simp [orFault]
  rw [readProgram, mapM_eq_ok, ← map_wordTokens, List.forall₂_map_left_iff]
  simp only [horFault]

theorem readProgram_of_layout {text : List Char} {ws : List Word} (h : Layout text ws) : readProgram text = .ok ws := by
  rw [readProgram_eq_ok]
  induction h with
  | nil => exact .nil
  | blank hc _ ih => rwa [textFields_cons_blank hc]
  | comment hmark hnote hend _ ih => rwa [textFields_comment hmark hnote hend]
  | word hspells hgap _ ih =>
    rw [textFields_append_token hspells.ne_nil hspells.isPlain hgap]
    exact .cons (readWord_of_spells hspells) ih

theorem layout_programText (ws : List Word) : Layout (programText ws) ws := by
  induction ws with
  | nil => exact .nil
  | cons w ws ih =>
    have htext : programText (w :: ws) = hexDigits true 8 w.toNat ++ '\n' :: programText ws := by simp [programText]
    rw [htext]
    exact .word (spells_hexDigits w) rfl (.blank rfl ih)

theorem readProgram_join {a b : List Char} {ws : List Word} :
    readProgram (a ++ '\n' :: b) = .ok ws ↔
      ∃ us vs, readProgram a = .ok us ∧ readProgram b = .ok vs ∧ ws = us ++ vs := by
  simp only [readProgram_eq_ok, textFields_join]
  constructor
  · intro h
    exact ⟨_, _, (List.forall₂_take_append _ _ _ h.flip).flip, (List.forall₂_drop_append _ _ _ h.flip).flip,
      (List.take_append_drop _ _).symm⟩
  · rintro ⟨us, vs, hus, hvs, rfl⟩
    exact List.rel_append hus hvs

/-- Every layout of words is read as these words, the written one among them. A text joined to another by a newline is read
if both are, as the words of both. -/
theorem program_layouts :
    (∀ text ws, Layout text ws → readProgram text = .ok ws) ∧
    (∀ ws, readProgram (programText ws) = .ok ws) ∧
    ∀ a b ws, readProgram (a ++ '\n' :: b) = .ok ws ↔
      ∃ us vs, readProgram a = .ok us ∧ readProgram b = .ok vs ∧ ws = us ++ vs := by
  refine ⟨?_, ?_, ?_⟩
  · intro text ws h
    exact readProgram_of_layout h
  · intro ws
    exact readProgram_of_layout (layout_programText ws)
  · intro a b ws
    exact readProgram_join

/-- Two words on a line that ends in a carriage return, with a comment that holds both marks, and a third word with zeros in
front and nothing between it and its comment. -/
theorem program_layouts_comment :
    ∃ text, text = "\t0xdEadbeef  13 # 1 // 2\r\n\r\n0X00000000000A//end".toList ∧ Layout text [0xDEADBEEF, 0x13, 0xA] ∧
      readProgram text = .ok [0xDEADBEEF, 0x13, 0xA] := by
  have hlayout : Layout "\t0xdEadbeef  13 # 1 // 2\r\n\r\n0X00000000000A//end".toList [0xDEADBEEF, 0x13, 0xA] := by
    have hfirst := spells_of_readMagnitude "0x".toList "dEadbeef".toList (Or.inr (Or.inl rfl)) (w := 0xDEADBEEF) rfl
    have hsecond := spells_of_readMagnitude [] "13".toList (Or.inl rfl) (w := 0x13) rfl
    have hthird := spells_of_readMagnitude "0X".toList "00000000000A".toList (Or.inr (Or.inr rfl)) (w := 0xA) rfl
    have hnote : '\n' ∉ " 1 // 2\r".toList := by decide
    have hend : Layout "//end".toList [] := .comment (Or.inr rfl) (by decide : '\n' ∉ "end".toList) (by simp) .nil
    have hlast := Layout.blank (c := '\n') rfl (.blank (c := '\r') rfl (.blank (c := '\n') rfl (.word hthird rfl hend)))
    have hline := Layout.comment (Or.inl rfl) hnote (by simp) hlast
    exact .blank rfl (.word hfirst rfl (.blank rfl (.blank rfl (.word hsecond rfl (.blank rfl hline)))))
  exact ⟨_, rfl, hlayout, program_layouts.1 _ _ hlayout⟩

end FetchStage.Format
