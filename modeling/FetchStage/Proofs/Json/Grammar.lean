import FetchStage.Json.Quotation
import FetchStage.Proofs.Text.Numerals

/-! # JSON text

The grammar of values, told as concatenation: strings with any escapes, numbers, lists and objects nested to any depth, with
space between their parts. A string that stands for characters is told together with them, and an object together with its
keys and the texts of their values.
-/
namespace FetchStage.Json
open Text

def Space (cs : List Char) : Prop := ∀ c ∈ cs, isSpace c

section Strings

/-- The four digits of an escape. -/
def Quad (ds : List Char) (value : Nat) : Prop := ds.length = 4 ∧ Numeral 16 ds value

/-- Between the quotes of a string, in which half a pair of escapes may stand. -/
inductive StringText : List Char → Prop
  | nil : StringText []
  | plain {c : Char} {cs : List Char} :
    c ≠ '"' → c ≠ '\\' → 0x20 ≤ c.toNat → StringText cs → StringText (c :: cs)
  | short {e : Char} {cs : List Char} : (shortEscape? e).isSome → StringText cs → StringText ('\\' :: e :: cs)
  | code {ds cs : List Char} {value : Nat} : Quad ds value → StringText cs → StringText ('\\' :: 'u' :: ds ++ cs)

/-- Between the quotes of a string that stands for the characters. -/
inductive Quotes : List Char → List Char → Prop
  | nil : Quotes [] []
  | plain {c : Char} {cs text : List Char} :
    c ≠ '"' → c ≠ '\\' → 0x20 ≤ c.toNat → Quotes cs text → Quotes (c :: cs) (c :: text)
  | short {e c : Char} {cs text : List Char} : shortEscape? e = some c → Quotes cs text → Quotes ('\\' :: e :: cs) (c :: text)
  | code {ds cs text : List Char} {value : Nat} :
    Quad ds value → isLeading value = false → isTrailing value = false → Quotes cs text →
      Quotes ('\\' :: 'u' :: ds ++ cs) (Char.ofNat value :: text)
  | pair {ds es cs text : List Char} {high low : Nat} :
    Quad ds high → isLeading high → Quad es low → isTrailing low → Quotes cs text →
      Quotes ('\\' :: 'u' :: ds ++ '\\' :: 'u' :: es ++ cs) (Char.ofNat (joinPair high low) :: text)

end Strings

section Numbers

def Digits (ds : List Char) : Prop := ds ≠ [] ∧ ∀ d ∈ ds, d.isDigit

/-- Digits before the point, of which a zero stands alone. -/
def Whole (ds : List Char) : Prop := Digits ds ∧ (ds.head? = some '0' → ds = ['0'])

def Fraction (cs : List Char) : Prop := cs = [] ∨ ∃ ds, Digits ds ∧ cs = '.' :: ds

def Exponent (cs : List Char) : Prop :=
  cs = [] ∨ ∃ mark sign ds, (mark = 'e' ∨ mark = 'E') ∧ (sign = [] ∨ sign = ['+'] ∨ sign = ['-']) ∧ Digits ds ∧
    cs = mark :: sign ++ ds

def NumberText (cs : List Char) : Prop :=
  ∃ sign whole fraction exponent, (sign = [] ∨ sign = ['-']) ∧ Whole whole ∧ Fraction fraction ∧ Exponent exponent ∧
    cs = sign ++ whole ++ fraction ++ exponent

end Numbers

section Values

/-- A value, the items of a list that has some, or the members of an object that has some. -/
inductive Part where
  | value
  | items
  | members

inductive Part.Text : Part → List Char → Prop
  | null : Text .value ['n', 'u', 'l', 'l']
  | true : Text .value ['t', 'r', 'u', 'e']
  | false : Text .value ['f', 'a', 'l', 's', 'e']
  | number {cs : List Char} : NumberText cs → Text .value cs
  | string {cs : List Char} : StringText cs → Text .value ('"' :: cs ++ ['"'])
  | emptyList {space : List Char} : Space space → Text .value ('[' :: space ++ [']'])
  | list {cs : List Char} : Text .items cs → Text .value ('[' :: cs ++ [']'])
  | emptyObject {space : List Char} : Space space → Text .value ('\x7b' :: space ++ ['\x7d'])
  | object {cs : List Char} : Text .members cs → Text .value ('\x7b' :: cs ++ ['\x7d'])
  | item {front value back : List Char} :
    Space front → Text .value value → Space back → Text .items (front ++ value ++ back)
  | moreItems {front value back rest : List Char} :
    Space front → Text .value value → Space back → Text .items rest → Text .items (front ++ value ++ back ++ ',' :: rest)
  | member {front key behind before value back : List Char} :
    Space front → StringText key → Space behind → Space before → Text .value value → Space back →
      Text .members (front ++ '"' :: key ++ '"' :: behind ++ ':' :: before ++ value ++ back)
  | moreMembers {front key behind before value back rest : List Char} :
    Space front → StringText key → Space behind → Space before → Text .value value → Space back → Text .members rest →
      Text .members (front ++ '"' :: key ++ '"' :: behind ++ ':' :: before ++ value ++ back ++ ',' :: rest)

abbrev IsValue : List Char → Prop := Part.value.Text

/-- A value may end before this text. -/
def Ends (rest : List Char) : Prop := ∀ c ∈ rest.head?, isSpace c ∨ c = ',' ∨ c = ']' ∨ c = '\x7d'

end Values

section Objects

/-- A key and the text of its value. -/
abbrev Member := List Char × List Char

inductive MemberText : Member → List Char → Prop
  | mk {front quoted key behind before value back : List Char} :
    Space front → Quotes quoted key → Space behind → Space before → Space back →
      MemberText (key, value) (front ++ '"' :: quoted ++ '"' :: behind ++ ':' :: before ++ value ++ back)

inductive MembersText : List Member → List Char → Prop
  | one {m : Member} {cs : List Char} : MemberText m cs → MembersText [m] cs
  | more {m : Member} {cs : List Char} {ms : List Member} {rest : List Char} :
    MemberText m cs → MembersText ms rest → MembersText (m :: ms) (cs ++ ',' :: rest)

inductive ObjectText : List Member → List Char → Prop
  | empty {space : List Char} : Space space → ObjectText [] ('\x7b' :: space ++ ['\x7d'])
  | members {ms : List Member} {cs : List Char} : MembersText ms cs → ObjectText ms ('\x7b' :: cs ++ ['\x7d'])

end Objects

theorem quotes_plain {cs : List Char} (h : cs.all fun c => c != '"' && c != '\\' && decide (0x20 ≤ c.toNat)) :
    Quotes cs cs := by
  induction cs with
  | nil => exact .nil
  | cons c cs ih =>
    simp only [List.all_cons, Bool.and_eq_true, bne_iff_ne, decide_eq_true_eq] at h
    exact .plain h.1.1.1 h.1.1.2 h.1.2 (ih h.2)

theorem Quad.exists_digits {ds : List Char} {value : Nat} (h : Quad ds value) :
    ∃ a b c d x y z w, ds = [a, b, c, d] ∧ (∀ e ∈ ds, e.utf8Size = 1) ∧
      digitIn 16 a = some x ∧ digitIn 16 b = some y ∧ digitIn 16 c = some z ∧ digitIn 16 d = some w ∧
        value = ((x * 16 + y) * 16 + z) * 16 + w := by
  obtain ⟨hlen, hnumeral⟩ := h
  have hsize : ∀ e ∈ ds, e.utf8Size = 1 := by
    have hsizes : ∀ upper, ∀ d < 16, (digitChar upper d).utf8Size = 1 := by decide
    intro e he
    obtain ⟨d, hd, rfl | rfl⟩ := hnumeral.mem_digit he
    · exact hsizes false d hd
    · exact hsizes true d hd
  have hdigit : ∀ e ∈ ds, ∃ d, digitIn 16 e = some d := by
    intro e he
    obtain ⟨d, hd⟩ := hnumeral.mem_digit he
    exact ⟨d, (digitIn_eq_some (by decide)).mpr hd⟩
  obtain ⟨a, b, c, d, rfl⟩ : ∃ a b c d, ds = [a, b, c, d] := by
    match ds, hlen with
    | [a, b, c, d], _ => exact ⟨a, b, c, d, rfl⟩
  obtain ⟨x, hx⟩ := hdigit a (by simp)
  obtain ⟨y, hy⟩ := hdigit b (by simp)
  obtain ⟨z, hz⟩ := hdigit c (by simp)
  obtain ⟨w, hw⟩ := hdigit d (by simp)
  have hvalue := hnumeral.foldl_eq (by decide)
  simp only [List.foldl_cons, List.foldl_nil, hx, hy, hz, hw, Option.getD_some] at hvalue
  exact ⟨a, b, c, d, x, y, z, w, rfl, hsize, hx, hy, hz, hw, by omega⟩

section Space
variable {space cs : List Char}

theorem skipSpace_append (h : Space space) (cs : List Char) : skipSpace (space ++ cs) = skipSpace cs := by
  induction space with
  | nil => rfl
  | cons c space ih =>
    have hc : isSpace c := h c List.mem_cons_self
    rw [List.cons_append, skipSpace, List.dropWhile_cons_of_pos hc]
    exact ih fun x hx => h x (List.mem_cons_of_mem _ hx)

theorem skipSpace_spaced {c : Char} (h : Space space) (hc : isSpace c = false) (cs : List Char) :
    skipSpace (space ++ c :: cs) = c :: cs := by
  rw [skipSpace_append h, skipSpace, List.dropWhile_cons_of_neg (by simp [hc])]

theorem not_isSpace_of_isDigit {d : Char} (h : d.isDigit) : isSpace d = false := by
  rw [Bool.eq_false_iff]
  intro hspace
  simp only [isSpace, Bool.or_eq_true, beq_iff_eq] at hspace
  rcases hspace with ((rfl | rfl) | rfl) | rfl <;> exact absurd h (by decide)

theorem Ends.mem_of_cons {c : Char} (h : Ends (c :: cs)) : c ∈ [' ', '\t', '\n', '\r', ',', ']', '\x7d'] := by
  simpa [isSpace, or_assoc] using h c rfl

theorem ends_cons {c : Char} (h : isSpace c ∨ c = ',' ∨ c = ']' ∨ c = '\x7d') : Ends (c :: cs) := by
  rintro _ ⟨⟩
  exact h

theorem ends_append (h : Space space) (hcs : Ends cs) : Ends (space ++ cs) := by
  cases space with
  | nil => exact hcs
  | cons c space => exact ends_cons (Or.inl (h c List.mem_cons_self))

end Space

end FetchStage.Json
