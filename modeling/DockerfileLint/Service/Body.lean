import DockerfileLint.Json
import DockerfileLint.Text.Integer
import DockerfileLint.Text.Layout

/-!
# Limits on request bodies

A request for a validation may have a body of five mebibytes, any other request
one of one mebibyte.  A request is refused if the length declared for its body
exceeds the limit, or if the body turns out too long while it comes in.  A
declared length that is no integer, is negative or is too small changes nothing:
the body is measured all the same.  A request that is not refused is handed on
with its body.
-/

namespace DockerfileLint.Service

/-- A request, as it comes in. -/
structure Request where
  method : String
  /-- The path of its address. -/
  path : String
  /-- The value of a header, if the request has it. -/
  header : String → Option String
  /-- The body, in the pieces in which it comes in. -/
  chunks : List ByteArray

/-- An answer. -/
structure Response where
  status : Nat
  /-- The value that the body holds, none if the body is empty. -/
  body : Option Json
  /-- The headers besides those that describe the body. -/
  headers : List (String × String) := []
  /-- The answer says how long it took. -/
  timed : Bool := false

/-- An answer that only explains itself. -/
def Response.explain (status : Nat) (detail : String) : Response where
  status := status
  body := some (.object [("detail", .string detail)])

/-- A mebibyte. -/
def mebibyte : Nat := 1024 * 1024

/-- The limit on a document to validate. -/
def documentLimit : Nat := 5 * mebibyte

/-- The limit on any other body. -/
def defaultLimit : Nat := mebibyte

/-- A path without the slashes at its end. -/
def withoutSlashes (path : String) : String :=
  String.ofList (trimEnd (· == '/') path.toList)

/-- The limit on the body of a request for a path. -/
def bodyLimit (path : String) : Nat :=
  if "/validate".toList.isSuffixOf (withoutSlashes path).toList then
    documentLimit
  else
    defaultLimit

/-- The length that a header declares, a negative one if it is no integer. -/
def declaredLength (value : String) : Int :=
  (integerValue? value.toList).getD (-1)

/-- Takes chunks in behind what has been received, as long as they fit. -/
def collectFrom (limit : Nat) (received : ByteArray) : List ByteArray → Option ByteArray
  | [] => some received
  | chunk :: chunks =>
    if limit < received.size + chunk.size then
      none
    else
      collectFrom limit (received ++ chunk) chunks

/-- The body that chunks make up, unless it is too long. -/
def collect (limit : Nat) (chunks : List ByteArray) : Option ByteArray :=
  collectFrom limit ByteArray.empty chunks

/-- The methods whose requests have a body. -/
def bodyMethods : List String :=
  ["POST", "PUT", "PATCH"]

/-- The answer to a request whose body exceeds a limit. -/
def bodyTooLarge (limit : Nat) : Response :=
  .explain 413 ("Request body too large (max " ++ toString (limit / mebibyte) ++ " MB)")

/-- Hands a request on to `next` unless its body is too long, with the body if the
method has one.  Whatever the method, a declared length counts. -/
def limitBody (r : Request) (next : Option ByteArray → Response) : Response :=
  let limit := bodyLimit r.path
  if (r.header "content-length").any fun value => (limit : Int) < declaredLength value then
    bodyTooLarge limit
  else if r.method ∈ bodyMethods then
    match collect limit r.chunks with
    | some body => next (some body)
    | none => bodyTooLarge limit
  else
    next none

end DockerfileLint.Service
