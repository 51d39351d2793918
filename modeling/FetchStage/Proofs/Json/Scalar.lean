import FetchStage.Json.Record
import FetchStage.Proofs.Json.Grammar

/-! # Scalars in JSON text

A string is read in each of its spellings, a count from its digits, and a name from its string or from an object with the
name as its key.
-/
namespace FetchStage.Json
open Text

/-- The reader finds the value in each of its texts, and leaves what follows. -/
def Reads {α : Type} (read : Reader α) (Spells : α → List Char → Prop) : Prop :=
  ∀ a cs front rest, Spells a cs → Space front → Ends rest → read (front ++ (cs ++ rest)) = .ok (a, rest)

section Quotations
variable {phase next : QuotePhase} {read cs : List Char}

theorem readQuotation_feed {c : Char} {completed : Option Char} (h : phase.feed c = .ok (next, completed))
    (hquote : phase = .plain → c ≠ '"') :
    readQuotation phase read (c :: cs) = readQuotation next (completed.toList ++ read) cs := by
  conv_lhs => unfold readQuotation
  split
  · exact absurd rfl (hquote rfl)
  · rw [h]
    cases completed <;> rfl

theorem readQuotation_quad {ds : List Char} {value : Nat} {high : Option Nat} {completed : Option Char} (hquad : Quad ds value)
    (h : escapeValue high value = .ok (next, completed)) :
    readQuotation (.digits high 0 true 0) read (ds ++ cs) = readQuotation next (completed.toList ++ read) cs := by
  obtain ⟨a, b, c, d, x, y, z, w, rfl, hsize, ha, hb, hc, hd, rfl⟩ := hquad.exists_digits
  have hfirst : QuotePhase.feed (.digits high 0 true 0) a = .ok (.digits high 1 true x, none) := by
    simp [QuotePhase.feed, hsize, ha]
  have hsecond : QuotePhase.feed (.digits high 1 true x) b = .ok (.digits high 2 true (x * 16 + y), none) := by
    simp [QuotePhase.feed, hsize, hb]
  have hthird : QuotePhase.feed (.digits high 2 true (x * 16 + y)) c =
      .ok (.digits high 3 true ((x * 16 + y) * 16 + z), none) := by
    simp [QuotePhase.feed, hsize, hc]
  have hlast : QuotePhase.feed (.digits high 3 true ((x * 16 + y) * 16 + z)) d = .ok (next, completed) := by
    simp [QuotePhase.feed, hsize, hd, h]
  simp only [List.cons_append, List.nil_append]
  rw [readQuotation_feed hfirst nofun, readQuotation_feed hsecond nofun, readQuotation_feed hthird nofun,
    readQuotation_feed hlast nofun]
  rfl

theorem readQuotation_quotes {quoted text : List Char} (h : Quotes quoted text) (read rest : List Char) :
    readQuotation .plain read (quoted ++ '"' :: rest) = .ok (read.reverse ++ text, rest) := by
  have hmark : QuotePhase.feed .plain '\\' = .ok (.escape, none) := rfl
  have hu : QuotePhase.feed .escape 'u' = .ok (.digits none 0 true 0, none) := rfl
  induction h generalizing read with
  | nil => simp [readQuotation]
  | @plain c cs text hquote hescape hcontrol _ ih =>
    have hfeed : QuotePhase.feed .plain c = .ok (.plain, some c) := by
      simp [QuotePhase.feed, hescape, Nat.not_lt.mpr hcontrol]
    rw [List.cons_append, readQuotation_feed hfeed fun _ => hquote, ih]
    simp
  | @short e c cs text he _ ih =>
    have hfeed : QuotePhase.feed .escape e = .ok (.plain, some c) := by
      have hu : e ≠ 'u' := by
        rintro rfl
        cases he
      simp [QuotePhase.feed, hu, he]
    rw [List.cons_append, List.cons_append, readQuotation_feed hmark (fun _ => by decide), readQuotation_feed hfeed nofun, ih]
    simp
  | @code ds cs text value hquad hleading htrailing _ ih =>
    have hvalue : escapeValue none value = .ok (.plain, some (Char.ofNat value)) := by
      simp [escapeValue, hleading, htrailing]
    rw [List.append_assoc, List.cons_append, List.cons_append, readQuotation_feed hmark (fun _ => by decide),
      readQuotation_feed hu nofun, readQuotation_quad hquad hvalue, ih]
    simp
  | @pair ds es cs text high low hhigh hleading hlow htrailing _ ih =>
    have hfirst : escapeValue none high = .ok (.pair high, none) := by
      have hnot : isTrailing high = false := by
        simp only [isLeading, isTrailing, Bool.and_eq_true, decide_eq_true_eq, Bool.and_eq_false_iff,
          decide_eq_false_iff_not] at hleading ⊢
        omega
      simp [escapeValue, hleading, hnot]
    have hsecond : escapeValue (some high) low = .ok (.plain, some (Char.ofNat (joinPair high low))) := by
      simp [escapeValue, htrailing]
    have hpair : QuotePhase.feed (.pair high) '\\' = .ok (.pairMark high, none) := rfl
    have hpairMark : QuotePhase.feed (.pairMark high) 'u' = .ok (.digits (some high) 0 true 0, none) := rfl
    simp only [List.append_assoc, List.cons_append]
    rw [readQuotation_feed hmark (fun _ => by decide), readQuotation_feed hu nofun, readQuotation_quad hhigh hfirst,
      readQuotation_feed hpair nofun, readQuotation_feed hpairMark nofun, readQuotation_quad hlow hsecond, ih]
    simp

theorem quotation_quotes {quoted text : List Char} (h : Quotes quoted text) (rest : List Char) :
    quotation (quoted ++ '"' :: rest) = .ok (text, rest) :=
  readQuotation_quotes h [] rest

end Quotations

section Counts
variable {ds rest : List Char}

/-- The digits of a count below the limit. -/
def CountText (limit n : Nat) (cs : List Char) : Prop := Whole cs ∧ Numeral 10 cs n ∧ n < limit

theorem le_foldl_digits (ds : List Char) (n : Nat) : n ≤ ds.foldl (fun n c => n * 10 + (digitIn 10 c).getD 0) n := by
  induction ds generalizing n with
  | nil => exact Nat.le_refl n
  | cons d ds ih =>
    have hstep : n ≤ n * 10 + (digitIn 10 d).getD 0 := by omega
    exact Nat.le_trans hstep (ih _)

theorem gather_eq {significand count : Nat}
    (h : ds.foldl (fun n c => n * 10 + (digitIn 10 c).getD 0) significand < significandLimit) :
    gather significand count ds =
      (ds.foldl (fun n c => n * 10 + (digitIn 10 c).getD 0) significand, count + ds.length) := by
  induction ds generalizing significand count with
  | nil => rfl
  | cons d ds ih =>
    have hnext := Nat.lt_of_le_of_lt (le_foldl_digits ds _) h
    rw [gather, if_pos hnext, ih h, List.foldl_cons, List.length_cons, Nat.add_assoc, Nat.add_comm 1]

theorem someDigits_append (hds : Digits ds) (hrest : Ends rest) : someDigits (ds ++ rest) = .ok (ds, rest) := by
  have htake : rest.takeWhile Char.isDigit = [] ∧ rest.dropWhile Char.isDigit = rest := by
    cases rest with
    | nil => exact ⟨rfl, rfl⟩
    | cons c cs =>
      have hall : [' ', '\t', '\n', '\r', ',', ']', '\x7d'].all fun c => !c.isDigit := by decide
      have hc : c.isDigit = false := by simpa using List.all_eq_true.mp hall c hrest.mem_of_cons
      simp [hc]
  obtain ⟨d, tail, rfl⟩ := List.exists_cons_of_ne_nil hds.1
  have hd : d.isDigit := hds.2 d List.mem_cons_self
  rw [List.cons_append, someDigits, if_pos hd, ← List.cons_append, List.takeWhile_append_of_pos hds.2,
    List.dropWhile_append_of_pos hds.2, htake.1, htake.2, List.append_nil]

theorem readDecimal_digits {n : Nat} (hwhole : Whole ds) (hnumeral : Numeral 10 ds n) (hn : n < significandLimit)
    (hrest : Ends rest) : readDecimal (ds ++ rest) = .ok ((n, none), rest) := by
  have hdigits : wholeDigits (ds ++ rest) = .ok (ds, rest) := by
    have hzero : ¬(ds.head? = some '0' ∧ ds.length ≠ 1) := by
      rintro ⟨hhead, hlength⟩
      rw [hwhole.2 hhead] at hlength
      exact hlength rfl
    simp [wholeDigits, someDigits_append hwhole.1 hrest, bind, Except.bind, hzero, pure, Except.pure]
  have hgather : gather 0 0 ds = (n, ds.length) := by
    have hvalue := hnumeral.foldl_eq (by decide)
    rw [gather_eq (by rwa [hvalue]), hvalue, Nat.zero_add]
  rw [readDecimal, hdigits]
  cases rest with
  | nil => simp [hgather, bind, Except.bind, pure, Except.pure]
  | cons c cs =>
    have hc := hrest.mem_of_cons
    simp only [List.mem_cons, List.not_mem_nil, or_false] at hc
    rcases hc with rfl | rfl | rfl | rfl | rfl | rfl | rfl <;>
      simp [hgather, bind, Except.bind, pure, Except.pure]

theorem reads_count {limit : Nat} (hlimit : limit ≤ significandLimit) (expected : String) :
    Reads (count limit expected) (CountText limit) := by
  intro n cs front rest ⟨hwhole, hnumeral, hn⟩ hfront hrest
  have hdecimal := readDecimal_digits hwhole hnumeral (by omega) hrest
  obtain ⟨d, ds, rfl⟩ := List.exists_cons_of_ne_nil hwhole.1.1
  have hd : d.isDigit := hwhole.1.2 d List.mem_cons_self
  have hminus : d ≠ '-' := by
    rintro rfl
    exact absurd hd (by decide)
  have hnumber : number (d :: ds ++ rest) = .ok (.integer n, rest) := by
    rw [List.cons_append] at hdecimal ⊢
    simp [number, hminus, hdecimal, bind, Except.bind, pure, Except.pure]
  rw [List.cons_append] at hnumber ⊢
  unfold count
  rw [skipSpace_spaced hfront (not_isSpace_of_isDigit hd)]
  simp [hd, hnumber, hn, bind, Except.bind, pure, Except.pure]

end Counts

section Names

theorem letters_append (ds cs : List Char) : letters ds (ds ++ cs) = .ok cs := by
  induction ds with
  | nil => cases cs <;> rfl
  | cons d ds ih => rw [List.cons_append, letters, if_pos rfl, ih]

def BooleanText : Bool → List Char → Prop
  | true, cs => cs = ['t', 'r', 'u', 'e']
  | false, cs => cs = ['f', 'a', 'l', 's', 'e']

theorem reads_boolean : Reads boolean BooleanText := by
  intro b cs front rest htext hfront _
  cases b with
  | true =>
    cases htext
    rw [List.cons_append, boolean, skipSpace_spaced hfront rfl]
    exact congrArg (Except.map (true, ·)) (letters_append ['r', 'u', 'e'] rest)
  | false =>
    cases htext
    rw [List.cons_append, boolean, skipSpace_spaced hfront rfl]
    exact congrArg (Except.map (false, ·)) (letters_append ['a', 'l', 's', 'e'] rest)

/-- A name as a string, or as the key of an object that has nothing as its value. -/
inductive VariantText {α : Type} (names : List (String × α)) (a : α) : List Char → Prop
  | name {s : String} {quoted : List Char} :
    (s, a) ∈ names → Quotes quoted s.toList → VariantText names a ('"' :: quoted ++ ['"'])
  | object {s : String} {front quoted behind before back : List Char} :
    (s, a) ∈ names → Space front → Quotes quoted s.toList → Space behind → Space before → Space back →
      VariantText names a ('\x7b' :: front ++ '"' :: quoted ++ '"' :: behind ++ ':' :: before ++ ['n', 'u', 'l', 'l'] ++ back ++
        ['\x7d'])

theorem reads_variant {α : Type} {names : List (String × α)}
    (hnames : ∀ n ∈ names, names.find? (fun m => m.1.toList == n.1.toList) = some n) (known : List String) :
    Reads (variant names known) (VariantText names) := by
  intro a cs front rest htext hfront _
  cases htext with
  | name hmem hquotes =>
    have hselect := hnames _ hmem
    simp only [List.cons_append, List.append_assoc, List.nil_append]
    unfold variant
    rw [skipSpace_spaced hfront rfl]
    simp [quotation_quotes hquotes, hselect, bind, Except.bind, pure, Except.pure]
  | object hmem hopen hquotes hbehind hbefore hback =>
    have hselect := hnames _ hmem
    simp only [List.cons_append, List.append_assoc, List.nil_append]
    unfold variant
    rw [skipSpace_spaced hfront rfl]
    have hkey := skipSpace_spaced (c := '"') hopen rfl
    have hcolon := skipSpace_spaced (c := ':') hbehind rfl
    have hnull := skipSpace_spaced (c := 'n') hbefore rfl
    have hclose := skipSpace_spaced (c := '\x7d') hback rfl
    have hletters := letters_append ['u', 'l', 'l']
    simp only [List.cons_append, List.nil_append] at hletters
    simp [hkey, quotation_quotes hquotes, hselect, hcolon, hnull, hletters, hclose, bind, Except.bind, pure, Except.pure]

end Names

end FetchStage.Json
