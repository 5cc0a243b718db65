/-!
# JSON values

The values that the bodies of requests and answers are made of.  An object keeps
its members in the order of the text, repeated names included; the last member
of a name is the one that counts.  Of a number that is not written as an integer
nothing but its text is kept.
-/

namespace DockerfileLint

/-- A JSON value. -/
inductive Json
  | null
  | bool (b : Bool)
  | int (n : Int)
  | decimal (text : String)
  | string (s : String)
  | array (items : List Json)
  | object (members : List (String × Json))
deriving Repr

namespace Json

/-- The members of an object; other values have none to give. -/
def members? : Json → Option (List (String × Json))
  | object members => some members
  | _ => none

/-- The last member of a name. -/
def lastMember? (members : List (String × Json)) (name : String) : Option Json :=
  members.reverse.lookup name

/-- The member of an object. -/
def member? (j : Json) (name : String) : Option Json :=
  j.members?.bind (lastMember? · name)

end Json

end DockerfileLint
