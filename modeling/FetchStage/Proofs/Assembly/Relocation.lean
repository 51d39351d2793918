import FetchStage.Proofs.Assembly.Branches
import FetchStage.Proofs.Assembly.Outcome
import FetchStage.Proofs.Text.Lines

/-! # Assembly at another place

Idle lines at the front of a source move every label and every instruction by the same number of words. Distances stay as they
are as long as no address wraps, so each body keeps its word or its fault, and a fault is found as many lines later as lines
were put in front.
-/
namespace FetchStage.Assembly
open Text Isa

section Front

def saysNop (l : List Char) : Bool := lower (content l) == "nop".toList

/-- A line that is blank, a comment alone, or `nop` in any letter case. -/
def Idle (l : List Char) : Prop := content l = [] ∨ saysNop l

instance (l : List Char) : Decidable (Idle l) := inferInstanceAs (Decidable (_ ∨ _))

theorem eq_of_toLower {c d : Char} (h : c.toLower = d) : c = d ∨ c = Char.ofNat (d.toNat - 32) := by
  subst h
  unfold Char.toLower
  split
  · rename_i hc
    have hhigh : c.val.toNat ≤ 90 := UInt32.le_iff_toNat_le.mp hc.2
    have hcase : ('a'.val - 'A'.val).toNat = 32 := by decide
    have hlower : (c.val + ('a'.val - 'A'.val)).toNat - 32 = c.toNat := by
      rw [UInt32.toNat_add, hcase]
      change (c.toNat + 32) % 2 ^ 32 - 32 = c.toNat
      change c.toNat ≤ 90 at hhigh
      omega
    refine Or.inr ?_
    change c = Char.ofNat ((c.val + ('a'.val - 'A'.val)).toNat - 32)
    rw [hlower, Char.ofNat_toNat]
  · exact Or.inl rfl

theorem nop_spelling {cs : List Char} (h : lower cs = "nop".toList) :
    ∃ n ∈ ['n', 'N'], ∃ o ∈ ['o', 'O'], ∃ p ∈ ['p', 'P'], cs = [n, o, p] := by
  have hmap : cs.map Char.toLower = ['n', 'o', 'p'] := h
  simp only [List.map_eq_cons_iff, List.map_eq_nil_iff] at hmap
  obtain ⟨n, _, rfl, hn, o, _, rfl, ho, p, _, rfl, hp, rfl⟩ := hmap
  refine ⟨n, ?_, o, ?_, p, ?_, rfl⟩
  · simpa using eq_of_toLower hn
  · simpa using eq_of_toLower ho
  · simpa using eq_of_toLower hp

theorem line_of_nop {cs : List Char} (h : lower cs = "nop".toList) (labels : Labels) (pc : Address) (number : Nat) :
    encodeBody labels pc cs = .ok nop ∧ SourceLine.ofContent number cs = ⟨number, none, cs⟩ := by
  obtain ⟨n, hn, o, ho, p, hp, rfl⟩ := nop_spelling h
  simp only [List.mem_cons, List.not_mem_nil, or_false] at hn ho hp
  rcases hn with rfl | rfl <;> rcases ho with rfl | rfl <;> rcases hp with rfl | rfl <;> exact ⟨rfl, rfl⟩

theorem Idle.ofContent {l : List Char} (h : Idle l) (number : Nat) :
    SourceLine.ofContent number (content l) = ⟨number, none, content l⟩ := by
  rcases h with h | h
  · rw [h]
    rfl
  · exact (line_of_nop (eq_of_beq h) [] 0 number).2

theorem Idle.hasBody {l : List Char} (h : Idle l) (number : Nat) :
    SourceLine.hasBody ⟨number, none, content l⟩ = saysNop l := by
  rcases h with h | h
  · simp [SourceLine.hasBody, saysNop, h, lower]
  · obtain ⟨n, _, o, _, p, _, hcs⟩ := nop_spelling (eq_of_beq h)
    simp [SourceLine.hasBody, hcs, h]

def SourceLine.later (m : Nat) (line : SourceLine) : SourceLine := { line with number := line.number + m }

theorem SourceLine.later_ofContent (number m : Nat) (content : List Char) :
    (SourceLine.ofContent number content).later m = .ofContent (number + m) content := by
  unfold SourceLine.ofContent
  split <;> rfl

/-- The lines of an idle front. -/
def frontLines (ls : List (List Char)) : List SourceLine := (ls.zipIdx 1).map fun p => ⟨p.2, none, content p.1⟩

variable {ls : List (List Char)}

theorem sourceLines_front (h : ∀ l ∈ ls, '\n' ∉ l ∧ Idle l) (text : List Char) :
    sourceLines (unlines ls ++ text) = frontLines ls ++ (sourceLines text).map (.later ls.length) := by
  simp only [sourceLines, numbered, frontLines, lines_unlines_append fun l hl => (h l hl).1, List.zipIdx_append,
    List.map_append, List.map_map, List.length_map, List.zipIdx_map]
  congr 1
  · apply List.map_congr_left
    rintro ⟨l, i⟩ hl
    simp only [Function.comp_apply, Prod.map_apply, id_eq, content_dropReturn]
    exact (h l (List.fst_mem_of_mem_zipIdx hl)).2.ofContent i
  · rw [Nat.add_comm 1, ← List.map_snd_add_zipIdx_eq_zipIdx, List.map_map]
    apply List.map_congr_left
    rintro ⟨l, i⟩ _
    exact (SourceLine.later_ofContent i ls.length (content l)).symm

theorem countP_frontLines (h : ∀ l ∈ ls, Idle l) : (frontLines ls).countP (·.hasBody) = ls.countP saysNop := by
  calc (frontLines ls).countP (·.hasBody)
      = (ls.zipIdx 1).countP fun p => saysNop p.1 := by
        rw [frontLines, List.countP_map]
        apply List.countP_congr
        rintro ⟨l, i⟩ hl
        rw [Function.comp_apply, (h l (List.fst_mem_of_mem_zipIdx hl)).hasBody]
    _ = ((ls.zipIdx 1).map Prod.fst).countP saysNop := by
        rw [List.countP_map]
        rfl
    _ = ls.countP saysNop := by rw [List.zipIdx_map_fst]

end Front

section Move

/-- A label `k` words further on. -/
def moved (k : Nat) (entry : List Char × Address) : List Char × Address := (entry.1, entry.2 + .ofIndex k)

/-- A fault `m` lines further on. -/
def AssemblyError.later (m : Nat) : AssemblyError → AssemblyError
  | .atLine line fault => .atLine (line + m) fault
  | .overflow o => .overflow o

variable {labels : Labels} {lines : List SourceLine} {token : List Char} {i k m : Nat}

theorem ofIndex_add (n k : Nat) : Address.ofIndex (n + k) = .ofIndex n + .ofIndex k := by
  rw [Address.ofIndex, Nat.mul_add, BitVec.ofNat_add]
  rfl

theorem lookup_moved : (labels.map (moved k)).lookup token = (labels.lookup token).map (· + .ofIndex k) := by
  induction labels with
  | nil => rfl
  | cons entry labels ih =>
    obtain ⟨label, a⟩ := entry
    simp only [List.map_cons, moved, List.lookup_cons]
    cases token == label with
    | true => rfl
    | false => exact ih

theorem addLabels_unlabelled {count : Nat} (h : ∀ l ∈ lines, l.label = none) : addLabels labels count lines = .ok labels := by
  induction lines generalizing count with
  | nil => rfl
  | cons line lines ih =>
    simp only [addLabels, h line List.mem_cons_self]
    exact ih fun l hl => h l (List.mem_cons_of_mem _ hl)

theorem addLabels_moved (labels : Labels) (lines : List SourceLine) (k m count : Nat) :
    addLabels (labels.map (moved k)) (count + k) (lines.map (.later m)) =
      ((addLabels labels count lines).map (·.map (moved k))).mapError (.later m) := by
  induction lines generalizing labels count with
  | nil => rfl
  | cons line lines ih =>
    have hcount : (if (line.later m).hasBody then count + k + 1 else count + k) =
        (if line.hasBody then count + 1 else count) + k := by
      change (if line.hasBody then count + k + 1 else count + k) = _
      split <;> omega
    have hlabel : (line.later m).label = line.label := rfl
    rw [List.map_cons]
    simp only [addLabels, hcount, hlabel, lookup_moved, Option.isSome_map]
    cases line.label with
    | none => exact ih _ _
    | some label =>
      simp only
      split
      · rfl
      · split
        · rfl
        · have hmoved : (label, .ofIndex count + .ofIndex k) :: labels.map (moved k) =
              ((label, .ofIndex count) :: labels).map (moved k) := rfl
          rw [ofIndex_add, hmoved]
          exact ih _ _

theorem distance_moved (hi : i + k < 2 ^ 30) (h : ∀ a, labels.lookup token = some a → ∃ n, a = .ofIndex n ∧ n + k < 2 ^ 30) :
    distance (labels.map (moved k)) (.ofIndex (i + k)) token = distance labels (.ofIndex i) token := by
  unfold distance
  rw [lookup_moved]
  cases hlookup : labels.lookup token with
  | none => rfl
  | some a =>
    obtain ⟨n, rfl, hn⟩ := h a hlookup
    simp only [Option.map_some, ← ofIndex_add]
    rw [Address.toNat_ofIndex hn, Address.toNat_ofIndex hi, Address.toNat_ofIndex (by omega : n < 2 ^ 30),
      Address.toNat_ofIndex (by omega : i < 2 ^ 30)]
    congr 1
    omega

theorem encodeLine_moved {line : SourceLine} (hi : i + k < 2 ^ 30)
    (h : ∀ token a, labels.lookup token = some a → ∃ n, a = .ofIndex n ∧ n + k < 2 ^ 30) :
    encodeLine (labels.map (moved k)) (line.later m, i + k) = (encodeLine labels (line, i)).mapError (.later m) := by
  have hbody : encodeBody (labels.map (moved k)) (.ofIndex (i + k)) line.body = encodeBody labels (.ofIndex i) line.body :=
    encodeBody_congr (fun token => distance_moved hi (h token)) line.body
  simp only [encodeLine, SourceLine.later, hbody]
  cases encodeBody labels (.ofIndex i) line.body with
  | ok w => rfl
  | error r => cases r <;> rfl

theorem countP_later : (lines.map (SourceLine.later m)).countP (·.hasBody) = lines.countP (·.hasBody) :=
  List.countP_map

theorem placedLines_later (k : Nat) :
    ((lines.map (.later m)).filter (·.hasBody)).zipIdx k = (placedLines lines).map fun p => (p.1.later m, p.2 + k) := by
  have hzip : (lines.filter (·.hasBody)).zipIdx (k + 0) = _ := (List.map_snd_add_zipIdx_eq_zipIdx ..).symm
  rw [List.filter_map, List.zipIdx_map]
  change List.map _ ((lines.filter (·.hasBody)).zipIdx k) = _
  rw [← Nat.add_zero k, hzip, List.map_map, placedLines]
  rfl

theorem mapM_moved (h : addLabels [] 0 lines = .ok labels) (hn : lines.countP (·.hasBody) + k < 2 ^ 30) :
    ((placedLines lines).map fun p => (p.1.later m, p.2 + k)).mapM (encodeLine (labels.map (moved k))) =
      ((placedLines lines).mapM (encodeLine labels)).mapError (.later m) := by
  rw [← length_placedLines] at hn
  apply mapM_map_mapError
  rintro ⟨line, i⟩ hp
  have hi := lt_of_mem_placedLines hp
  apply encodeLine_moved (by omega)
  intro token a ha
  obtain ⟨n, hn, rfl⟩ := (addLabels_lookup h).mp ha
  have hle := hn.le_length
  exact ⟨n, rfl, by omega⟩

end Move

section Relocation
variable {ls : List (List Char)} {text : List Char}

theorem mapM_frontLines (h : ∀ l ∈ ls, Idle l) (labels : Labels) :
    (placedLines (frontLines ls)).mapM (encodeLine labels) = .ok (List.replicate (ls.countP saysNop) nop) := by
  have hnop : ∀ p ∈ placedLines (frontLines ls), encodeLine labels p = .ok nop := by
    rintro ⟨line, i⟩ hp
    obtain ⟨hfront, hbody⟩ := List.mem_filter.mp (List.fst_mem_of_mem_zipIdx hp)
    obtain ⟨⟨l, number⟩, hl, rfl⟩ := List.mem_map.mp hfront
    rw [(h l (List.fst_mem_of_mem_zipIdx hl)).hasBody] at hbody
    exact encodeLine_ok_iff.mpr (line_of_nop (eq_of_beq hbody) labels _ number).1
  have hlength : (placedLines (frontLines ls)).length = ls.countP saysNop := by
    rw [length_placedLines, countP_frontLines h]
  rw [mapM_of_const hnop, hlength]

/-- All that an idle front changes: words before those of the source, and the lines of faults. -/
theorem assemble_front (h : ∀ l ∈ ls, '\n' ∉ l ∧ Idle l)
    (hn : (sourceLines (unlines ls ++ text)).countP (·.hasBody) < 2 ^ 30) :
    assemble (unlines ls ++ text) =
      ((assemble text).map (List.replicate (ls.countP saysNop) nop ++ ·)).mapError (.later ls.length) := by
  have hidle : ∀ l ∈ ls, Idle l := fun l hl => (h l hl).2
  have hcount := countP_frontLines hidle
  rw [sourceLines_front h, List.countP_append, hcount, countP_later] at hn
  have hunlabelled : ∀ l ∈ frontLines ls, l.label = none := by
    intro l hl
    obtain ⟨p, _, rfl⟩ := List.mem_map.mp hl
    rfl
  have hpass : addLabels [] 0 (frontLines ls ++ (sourceLines text).map (.later ls.length)) =
      ((addLabels [] 0 (sourceLines text)).map (·.map (moved (ls.countP saysNop)))).mapError (.later ls.length) := by
    rw [addLabels_append, addLabels_unlabelled hunlabelled, hcount]
    exact addLabels_moved [] (sourceLines text) _ _ 0
  unfold assemble
  simp only [sourceLines_front h, hpass]
  cases hlabels : addLabels [] 0 (sourceLines text) with
  | error e => rfl
  | ok labels =>
    have hmoved := mapM_moved (m := ls.length) hlabels (by omega : _ + ls.countP saysNop < 2 ^ 30)
    change (placedLines (frontLines ls ++ (sourceLines text).map (.later ls.length))).mapM
      (encodeLine (labels.map (moved (ls.countP saysNop)))) = _
    rw [placedLines_append, List.mapM_append, mapM_frontLines hidle, hcount, placedLines_later, hmoved]
    change _ = (((placedLines (sourceLines text)).mapM (encodeLine labels)).map _).mapError _
    cases (placedLines (sourceLines text)).mapM (encodeLine labels) <;> rfl

/-- Blank lines, comments and `nop` before a source leave its words and its faults as they are. -/
theorem assemble_relocated (ls : List (List Char)) (text : List Char) (h : ∀ l ∈ ls, '\n' ∉ l ∧ Idle l)
    (hn : (sourceLines (unlines ls ++ text)).countP (·.hasBody) < 2 ^ 30) :
    (∀ words, assemble text = .ok words →
      assemble (unlines ls ++ text) = .ok (List.replicate (ls.countP saysNop) nop ++ words)) ∧
    ∀ n fault, assemble text = .error (.atLine n fault) →
      assemble (unlines ls ++ text) = .error (.atLine (n + ls.length) fault) := by
  constructor
  · intro words hwords
    rw [assemble_front h hn, hwords]
    rfl
  · intro n fault hfault
    rw [assemble_front h hn, hfault]
    rfl

/-- Two `nop` among four lines, in front of a jump to its own line and of a jump that is refused for its odd offset. -/
theorem assemble_relocated_jumps :
    ∃ ls, ls = ["# start".toList, "\tNOP\r".toList, [], "nop // wait".toList] ∧ (∀ l ∈ ls, '\n' ∉ l ∧ Idle l) ∧
      (sourceLines (unlines ls ++ "here: jal here".toList)).countP (·.hasBody) < 2 ^ 30 ∧
      assemble "here: jal here".toList = .ok [0xEF] ∧
      assemble (unlines ls ++ "here: jal here".toList) = .ok [0x13, 0x13, 0xEF] ∧
      (sourceLines (unlines ls ++ "nop\njal 3".toList)).countP (·.hasBody) < 2 ^ 30 ∧
      assemble "nop\njal 3".toList = .error (.atLine 2 (.oddOffset 3)) ∧
      assemble (unlines ls ++ "nop\njal 3".toList) = .error (.atLine 6 (.oddOffset 3)) := by
  have hidle : ∀ l ∈ ["# start".toList, "\tNOP\r".toList, [], "nop // wait".toList], '\n' ∉ l ∧ Idle l := by
    decide +kernel
  have hwords : assemble "here: jal here".toList = .ok [0xEF] := by decide +kernel
  have hfault : assemble "nop\njal 3".toList = .error (.atLine 2 (.oddOffset 3)) := by decide +kernel
  refine ⟨_, rfl, hidle, by decide +kernel, hwords, ?_, by decide +kernel, hfault, ?_⟩
  · exact (assemble_relocated _ _ hidle (by decide +kernel)).1 _ hwords
  · exact (assemble_relocated _ _ hidle (by decide +kernel)).2 _ _ hfault

end Relocation

end FetchStage.Assembly
