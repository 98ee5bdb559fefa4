/-! What can stop a harvest. -/

namespace DocHarvest

inductive Failure where
  | unknownFormat (name : String)
  | invalidPattern (pattern : String)
  | noInput
  | cannotCreate (dir : String)
  | cannotWrite (path : String)
deriving DecidableEq, Repr

def Failure.message : Failure → String
  | unknownFormat name => "unknown format: " ++ name ++ ". Use json or jsonl"
  | invalidPattern pattern => "invalid glob pattern: " ++ pattern
  | noInput => "no input files matched"
  | cannotCreate dir => "failed to create output directory: " ++ dir
  | cannotWrite path => "failed to write " ++ path

end DocHarvest
