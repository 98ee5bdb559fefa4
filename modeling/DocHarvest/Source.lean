/-! Source files. -/

namespace DocHarvest

structure Source where
  path : String
  extension : String
  content : String
deriving DecidableEq, Repr

end DocHarvest
