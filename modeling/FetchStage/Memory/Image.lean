import FetchStage.Word

/-! # Program images

Instruction words placed from address zero. Reads past the end give the image's fill word.
-/
namespace FetchStage

structure Image where
  words : Array Word
  fill : Word := nop

/-- The word that contains `a`. -/
def Image.read (m : Image) (a : Address) : Word := m.words[a.wordIndex]?.getD m.fill

end FetchStage
