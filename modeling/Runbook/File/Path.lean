import Runbook.Value.Display

/-!
# Names of files

* `pathText`: a path without empty parts and without parts that stand for the place itself;
* `lastPart`, `suffixOf`: the name of the file, and what follows its last point;
* `noSuchFile`, `permissionDenied`: how the system says that a file is not there, or not for this.
-/

namespace Runbook.File

/-- The parts of a path between slashes. -/
def partsOf : List Char → List (List Char)
  | [] => [[]]
  | c :: rest =>
    match partsOf rest with
    | [] => [[c]]
    | part :: parts => if c = '/' then [] :: part :: parts else (c :: part) :: parts

/-- The parts of a path that lead somewhere. -/
def stepsOf (path : String) : List (List Char) :=
  (partsOf path.toList).filter fun part => !part.isEmpty && part ≠ ['.']

/-- A path with single slashes, and without parts that lead nowhere. -/
def pathText (path : String) : String :=
  let root := if Text.startsWith ['/'] path.toList then "/" else ""
  match stepsOf path with
  | [] => if root = "" then "." else root
  | parts => root ++ "/".intercalate (parts.map String.ofList)

/-- The name of the file that a path leads to. -/
def lastPart (path : String) : List Char :=
  (stepsOf path).getLast?.getD []

/-- The suffix of a name: its last point, which neither starts nor ends it, and what follows. -/
def suffixOf (name : List Char) : List Char :=
  let ending := name.reverse.takeWhile (· ≠ '.')
  if ending.isEmpty || name.length ≤ ending.length + 1 then [] else '.' :: ending.reverse

/-- How the system says that a file is not there. -/
def noSuchFile (path : String) : String :=
  "[Errno 2] No such file or directory: " ++ quoted path

/-- How the system says that a file is there, but not for this use. -/
def permissionDenied (path : String) : String :=
  "[Errno 13] Permission denied: " ++ quoted path

end Runbook.File
