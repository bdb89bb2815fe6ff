import TalkMachine.Machine.Class

/-!
# Printed values

The text by which a value shows itself: nil, true, false and numbers as they are written, characters
and symbols with a mark in front, strings in quotes, classes by name, and other objects by the name
of their class with an article.
-/

namespace TalkMachine.Machine

/-- Puts the article in front of a name. -/
def withArticle (name : String) : String :=
  match name.toList with
  | first :: _ => (if ['A', 'E', 'I', 'O', 'U'].contains first then "an " else "a ") ++ name
  | [] => "a " ++ name

/-- The text of a string. -/
def printBytes (m : Machine) (value : Value) : String :=
  match m.heap.bytes value with
  | .ok bytes => "'" ++ Text.ofUtf8 bytes ++ "'"
  | .error _ => value.describe

/-- The text of an object that is neither a symbol nor a class. -/
def printInstance (m : Machine) (value : Value) : String :=
  let isString := match m.heap.classIndexOf value with
    | .ok index => index == ClassIndex.string
    | .error _ => false
  if isString then m.printBytes value
  else
    match m.classOf value with
    | .ok cls => ((m.className? cls).map withArticle).getD value.describe
    | .error _ => value.describe

/-- The text of any value. -/
def print (m : Machine) (value : Value) : String :=
  if value = m.nil then "nil"
  else if value = m.trueObject then "true"
  else if value = m.falseObject then "false"
  else
    match value.toInt?, value.toChar?, value.toFloatBits? with
    | some n, _, _ => toString n
    | none, some c, _ => "$" ++ c.toString
    | none, none, some bits => Decimal.generalText bits
    | none, none, none =>
      match m.symbolName? value with
      | some name => "#" ++ name
      | none => (m.className? value).getD (m.printInstance value)

end TalkMachine.Machine
