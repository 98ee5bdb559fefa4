import DocHarvest.Text.WordRanges

/-! Word characters: letters, marks, decimal digits, connector punctuation and the joiners. -/

namespace DocHarvest.Text

def isWord (c : Char) : Bool :=
  if c.toNat < 0x80 then c.isAlphanum || c == '_'
  else inRanges wordRangesLow c || inRanges wordRangesMiddle c || inRanges wordRangesHigh c

end DocHarvest.Text
