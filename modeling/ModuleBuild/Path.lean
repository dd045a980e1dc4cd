/-! # File paths

Paths are segments between slashes; a leading slash makes them absolute.  An
empty segment and `.` say nothing, and `..` takes the segment before it away.
`Path.relativeTo` shortens a file's path to the part below a directory.
-/
namespace ModuleBuild
namespace Path

/-- Whether a path starts at the root. -/
def isAbsolute (p : String) : Bool := p.toList.head? = some '/'

/-- The texts between slashes. -/
def split (p : String) : List String := (p.toList.splitOn '/').map String.ofList

/-- Take one segment after the segments walked so far, the last one first. -/
def step (walked : List String) (segment : String) : List String :=
  if segment = "" ∨ segment = "." then walked
  else if segment = ".." then walked.drop 1
  else segment :: walked

/-- The segments of a path from the root. -/
def segments (p : String) : List String := ((split p).foldl step []).reverse

/-- The segments of a path that is read in a directory. -/
def segmentsIn (directory p : String) : List String :=
  if isAbsolute p then segments p else segments (directory ++ "/" ++ p)

/-- The absolute path of some segments. -/
def absolute (segs : List String) : String := "/" ++ "/".intercalate segs

/-- The absolute path that a path denotes in a directory. -/
def resolve (directory p : String) : String := absolute (segmentsIn directory p)

/-- Two paths' segments after the ones they begin with in common. -/
def apart : List String → List String → List String × List String
  | a :: as, b :: bs => if a = b then apart as bs else (a :: as, b :: bs)
  | as, bs => (as, bs)

/-- The path that leads from one place to another. -/
def between (origin target : List String) : String :=
  let (up, down) := apart origin target
  "/".intercalate (up.map (fun _ => "..") ++ down)

/-- A file's path from a directory, if the way there does not begin with two
dots; every other path is left as it is.  Where a relative directory lies is not
known, so nothing is known to lie below it. -/
def relativeTo (directory file : String) : String :=
  if !isAbsolute file || !isAbsolute directory then file
  else
    let p := between (segments directory) (segments file)
    if p = "" ∨ p.startsWith ".." then file else p

end Path
end ModuleBuild
