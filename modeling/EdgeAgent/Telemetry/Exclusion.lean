import EdgeAgent.Text.Blank

/-! # Excluded monitors

Monitors are excluded by a list between commas, in which quotes and the blanks
around a name do not count. A monitor is meant by its name up to the last
underscore. -/

namespace EdgeAgent.Exclusion

def isQuote (c : Char) : Bool := c == '\'' || c == '"'

def ofText (s : String) : List String :=
  ((Text.splitChars (· == ',') (s.toList.filter (!isQuote ·))).map Text.trimChars).filterMap
    fun cs => if cs.isEmpty then none else some (String.ofList cs)

def ofSetting (s : Option String) : List String := (s.map ofText).getD []

/-- A name up to its last underscore, all of it without one. -/
def stem (name : String) : String :=
  let cs := name.toList
  if cs.contains '_' then String.ofList ((cs.reverse.dropWhile (· != '_')).drop 1).reverse
  else name

def excludes (names : List String) (monitor : String) : Bool := names.contains (stem monitor)

end EdgeAgent.Exclusion
