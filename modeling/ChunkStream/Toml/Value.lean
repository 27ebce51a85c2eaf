/-!
# TOML values

What a TOML document says, apart from how it is written.  Dates and times are
recognized but not kept apart, since no reader here asks for one.  A decimal
that is no number still has a sign.
-/

namespace ChunkStream.Toml

inductive Value
  | text (content : String)
  | integer (value : Int)
  | decimal (value : Float)
  | nan (negative : Bool)
  | boolean (value : Bool)
  | moment
  | array (items : List Value)
  | table (fields : List (String × Value))
deriving Inhabited

end ChunkStream.Toml
