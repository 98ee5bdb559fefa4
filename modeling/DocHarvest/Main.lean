import DocHarvest.Command

/-! The program: reads the files that the arguments can lead to into a tree, runs the command on it, and
carries out what comes of it. -/

namespace DocHarvest

def names (location : String) : List String :=
  (Path.pieces location).filter (!·.isEmpty)

/-- The place that a search for an operand cannot leave: its pieces up to the first wildcard, and one
directory up for each piece after it that can fit two dots. -/
def reach (operand : String) : String :=
  let pieces := Path.pieces operand
  let plain := pieces.takeWhile fun piece => !piece.toList.any ['?', '*', '['].contains
  let ups := (pieces.drop plain.length).countP fun piece => piece.toList.head? == some '.'
  let place := if plain.isEmpty then "." else if plain == [""] then "/" else String.intercalate "/" plain
  (List.replicate ups "..").foldl Path.join place

def readDir (t : FileTree) (path : String) : FileTree :=
  (t.makeDirAt path).1

/-- Reads what stands at a path and at the places that lead to it. -/
def readWay (path : String) (t : FileTree) : IO FileTree := do
  let pieces := Path.pieces path
  let mut tree := t
  for i in List.range pieces.length do
    let place := System.mkFilePath [String.intercalate "/" (pieces.take (i + 1))]
    if ← place.isDir then
      tree := readDir tree place.toString
    else if ← place.pathExists then
      tree := tree.add place.toString (.file (← IO.FS.readBinFile place))
  return tree

/-- Reads what a directory holds, with all that is below it if that is wanted. -/
partial def readInside (deep : Bool) (path : String) (t : FileTree) : IO FileTree := do
  let mut tree := t
  for entry in ← (System.mkFilePath [path]).readDir do
    let place := Path.join path entry.fileName
    if ← entry.path.isDir then
      tree := readDir tree place
      if deep then
        tree ← readInside deep place tree
    else
      tree := tree.add place (.file (← IO.FS.readBinFile place))
  return tree

def readPlace (deep : Bool) (path : String) (t : FileTree) : IO FileTree := do
  let tree ← readWay path t
  if ← (System.mkFilePath [path]).isDir then readInside deep path tree else return tree

def readFor (o : Options) (t : FileTree) : IO FileTree := do
  let mut tree := t
  for operand in o.inputs do
    tree ← readPlace true (reach operand) tree
  for dir in o.output.toList do
    tree ← readPlace false dir tree
  return tree

def writeChanges (before after : FileTree) : IO Unit := do
  for dir in before.newDirs after do
    IO.FS.createDirAll ("/" ++ dir)
  for (path, content) in before.changesBelow after [] do
    IO.FS.writeBinFile ("/" ++ path) content

def perform (before : FileTree) (outcome : Outcome) : IO Unit := do
  for warning in outcome.warnings do
    IO.eprintln ("WARN " ++ warning.message)
  for line in outcome.unresolved do
    IO.eprintln ("unresolved module: " ++ line)
  IO.print outcome.stdout
  writeChanges before outcome.tree
  match outcome.failure with
  | some failure => IO.eprintln ("Error: " ++ failure.message)
  | none => if outcome.code == 2 then IO.eprintln Request.usage

end DocHarvest

def main (arguments : List String) : IO UInt32 := do
  let start := DocHarvest.FileTree.startingIn (DocHarvest.names (← IO.currentDir).toString)
  let before ← match DocHarvest.Request.ofArguments? arguments with
    | some (.harvest o) => DocHarvest.readFor o start
    | _ => pure start
  let outcome := DocHarvest.Command.run arguments before
  DocHarvest.perform before outcome
  return outcome.code.toUInt32
