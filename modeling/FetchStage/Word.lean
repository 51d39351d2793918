/-! # Instruction words and addresses

A word and an address have 32 bits. The predictor and the branch table share one slot index, the address
bits 9 to 2, so addresses that agree there compete for a slot.
-/
namespace FetchStage

abbrev Word := BitVec 32
abbrev Address := BitVec 32

abbrev slotCount : Nat := 256

abbrev Slot := Fin slotCount

abbrev bufferDepth : Nat := 8

/-- The idle instruction, `addi x0, x0, 0`. -/
def nop : Word := 0x13

def Slot.wrap (i : Nat) : Slot := ⟨i % slotCount, Nat.mod_lt _ (by decide)⟩

def overwrite {α : Type} {n : Nat} (v : Vector α n) (s : Fin n) (a : α) : Vector α n := v.set s a s.isLt

theorem get_overwrite {α : Type} {n : Nat} (v : Vector α n) (s t : Fin n) (a : α) :
    (overwrite v s a).get t = if s = t then a else v.get t := by
  change (v.set s a s.isLt)[t.val] = _
  rw [Vector.getElem_set]
  simp only [Fin.ext_iff]
  rfl

namespace Address

def aligned (a : Address) : Bool := a.toNat % 4 == 0

/-- Position of the word that holds `a` in an image placed at address zero. -/
def wordIndex (a : Address) : Nat := a.toNat / 4

def slot (a : Address) : Slot := Slot.wrap a.wordIndex

/-- The following word's address; the top of the address space is followed by zero. -/
def next (a : Address) : Address := a + 4

def ofIndex (i : Nat) : Address := BitVec.ofNat 32 (4 * i)

end Address

end FetchStage
