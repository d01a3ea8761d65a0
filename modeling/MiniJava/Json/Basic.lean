/-! Values of JSON text, kept as finely as a reader of documents has to tell them apart: integers are
apart from all other spellings of numbers (`-0`, `1.0` and `1e1` are not integers), members of an
object stand in order with their repetitions, and a string may fail to be a text. -/
namespace MiniJava

inductive Json where
  | null
  | bool (value : Bool)
  | int (value : Int)
  | real (spelling : String)
  /-- `none` is a string with a surrogate escape that pairs with no other. -/
  | str (text : Option String)
  | arr (items : List Json)
  | obj (members : List (Option String × Json))
  deriving Inhabited

namespace Json

inductive Token where
  | openObj
  | closeObj
  | openArr
  | closeArr
  | comma
  | colon
  | scalar (value : Json)

end Json

end MiniJava
