import Ironhide.Model.Address

namespace Ironhide.Model

/-- How the functions of `db` end when they do not return. -/
inductive Raised where
  | exn (e : Exn)
  | endpointNotFound (what : String)
  | queryAmbiguous (what : String)
  | exitFailure
  -- an index outside of a string
  | undefined
  deriving DecidableEq, Repr

def endpointPrefix : String := "endpoints/"

def routePrefix : String := "routes/"

structure UrlBuilder where
  url : String
  paths : List String
  deriving DecidableEq, Repr

namespace UrlBuilder

def empty : UrlBuilder := { url := "", paths := [] }

def setAddress (b : UrlBuilder) (address : Address) : UrlBuilder :=
  { b with url := b.url ++ address.getUrl }

/-- `add_path`, from a string. The last character is looked up also where the last
path is empty. -/
def addPath (b : UrlBuilder) (path : String) : Except Raised UrlBuilder :=
  let path := cStr path
  match b.paths.getLast? with
  | none => .ok { b with paths := b.paths ++ [path] }
  | some last =>
    match last.toList.getLast? with
    | none => .error .undefined
    | some c =>
      if c ≠ pathSeparator ∧ path.toList.head? ≠ some pathSeparator then
        .ok { b with paths := b.paths ++ [String.ofList (pathSeparator :: path.toList)] }
      else .ok { b with paths := b.paths ++ [path] }

def build (b : UrlBuilder) : String := b.paths.foldl (· ++ ·) b.url

end UrlBuilder

end Ironhide.Model
