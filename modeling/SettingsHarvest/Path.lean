/-! Paths of files.

Segments are separated by slashes, and a path that starts with one is absolute. Normal form has no
empty segments, no dots, and double dots only where nothing is left to take back. -/
namespace SettingsHarvest.Path

def isAbsolute (p : String) : Bool := p.startsWith "/"

/-- One path behind another; an absolute one stands alone. -/
def join (a b : String) : String :=
  if isAbsolute b then b
  else if a.isEmpty || a.endsWith "/" then a ++ b
  else a ++ "/" ++ b

def segments (p : String) : List String := p.splitOn "/"

/-- Normal segments, kept backwards. -/
def normalSegments (absolute : Bool) (seen : List String) : List String → List String
  | [] => seen
  | s :: rest =>
    if s == "" || s == "." then normalSegments absolute seen rest
    else if s == ".." then match seen with
      | [] => normalSegments absolute (if absolute then [] else [".."]) rest
      | t :: before =>
        normalSegments absolute (if t == ".." then ".." :: seen else before) rest
    else normalSegments absolute (s :: seen) rest

/-- The slashes an absolute path keeps in front: two stay two, any other number becomes one. -/
def leadingSlashes (p : String) : String :=
  match p.toList with
  | '/' :: '/' :: '/' :: _ => "/"
  | '/' :: '/' :: _ => "//"
  | '/' :: _ => "/"
  | _ => ""

def normalize (p : String) : String :=
  let absolute := isAbsolute p
  let body := "/".intercalate (normalSegments absolute [] (segments p)).reverse
  if absolute then leadingSlashes p ++ body else if body.isEmpty then "." else body

/-- Everything in front of the last segment. -/
def directory (p : String) : String :=
  let segs := segments p
  let front := "/".intercalate segs.dropLast
  if segs.length ≤ 1 then ""
  else if front.all (· == '/') then front ++ "/"
  else String.ofList ((front.toList.reverse.dropWhile (· == '/')).reverse)

/-- The last segment. -/
def base (p : String) : String := (segments p).getLast?.getD ""

end SettingsHarvest.Path
