import MeshlyCore.Lib.FileTree

/-!
# Directory listings

`static_http.rs`: the page that lists a directory. The names of the entries, made into text as
`to_string_lossy` does it, and their sizes stand in a table; every entry is linked.

Text is lists of characters here. How the standard library turns text into lower case decides
only the order of the rows, and is the parameter `lower`. Sizes from a kilobyte on are divided as
`f64`, and are exact but for the 53 bits of its mantissa.
-/

namespace MeshlyCore.StaticHttp

open FileTree

/-! ## Text -/

/-- The escape of a character in HTML, if it has one. -/
def htmlEntity (c : Char) : Option String :=
  if c = '&' then some "&amp;"
  else if c = '<' then some "&lt;"
  else if c = '>' then some "&gt;"
  else if c = '\x22' then some "&quot;"
  else if c = '\x27' then some "&#39;"
  else none

def htmlEscape (s : List Char) : List Char :=
  s.flatMap fun c => ((htmlEntity c).map String.toList).getD [c]

/-- `str::replace("..", "")`. -/
def stripDots : List Char → List Char
  | [] => []
  | '.' :: '.' :: s => stripDots s
  | c :: s => c :: stripDots s

/-- `n / d`, rounded, and to the even neighbour from the middle. -/
def roundHalfEven (n d : ℕ) : ℕ :=
  if 2 * (n % d) < d ∨ (2 * (n % d) = d ∧ n / d % 2 = 0) then n / d else n / d + 1

/-- `n as f64`. -/
def asF64 (n : ℕ) : ℕ :=
  let ulp := 2 ^ (n.log2 + 1 - 53)
  roundHalfEven n ulp * ulp

/-- `{:.1}` of `n / d`. -/
def oneDecimal (n d : ℕ) : String :=
  let tenths := roundHalfEven (10 * n) d
  toString (tenths / 10) ++ "." ++ toString (tenths % 10)

def sizeStr (size : ℕ) : String :=
  if size < 1024 then toString size ++ " B"
  else if size < 1024 * 1024 then oneDecimal (asF64 size) 1024 ++ " KB"
  else oneDecimal (asF64 size) (1024 * 1024) ++ " MB"

/-! ## Entries -/

/-- A row of the table: what is shown of an entry, and what it is linked to. -/
structure Entry where
  name : List Char
  isDir : Bool
  size : ℕ
  href : List Char
  deriving DecidableEq

/-- The text of names with slashes between them. -/
def relText (names : List Name) : Bytes := [47].intercalate names

/-- `strip_prefix(root)`, and the path itself if it is not under the root. -/
def stripRoot (root path : Path) : Bytes :=
  if root <+: path then relText (path.drop root.length) else toText path

/-- The entry `n` of the directory; links are not followed. -/
def listingEntry (fs : FileSystem) (root dir : Path) (n : Name) : Entry :=
  let found := fs.lookup dir n
  let isDir := (found.map Object.isDir).getD false
  let rel := fromUtf8Lossy (stripRoot root (dir ++ [n]))
  { name := fromUtf8Lossy n
    isDir := isDir
    size := (found.map Object.len).getD 0
    href := if isDir then rel ++ ['/'] else rel }

/-- Directories first, then by name. -/
def entryLe (lower : List Char → List Char) (a b : Entry) : Bool :=
  if a.isDir = b.isDir then decide (utf8Chars (lower a.name) ≤ utf8Chars (lower b.name))
  else a.isDir

/-! ## The page -/

def listingTitle (root dir : Path) : List Char :=
  if stripRoot root dir = [] then ['/'] else '/' :: fromUtf8Lossy (stripRoot root dir)

/-- The page up to the rows. -/
def listingHead (title : List Char) : List Char :=
  "<!DOCTYPE html>\n<html><head><meta charset=\"utf-8\">".toList ++
  "<title>Index of ".toList ++ title ++ "</title>".toList ++
  "<style>".toList ++
  "body\x7bfont-family:system-ui,sans-serif;margin:1.5em;max-width:60em\x7d".toList ++
  "table\x7bborder-collapse:collapse;width:100%\x7d".toList ++
  "th,td\x7bpadding:0.3em 0.6em;text-align:left;border-bottom:1px solid #eee\x7d".toList ++
  "a\x7btext-decoration:none;color:#04c\x7da:hover\x7btext-decoration:underline\x7d".toList ++
  ".size\x7btext-align:right;font-variant-numeric:tabular-nums;color:#888\x7d".toList ++
  "</style></head><body>".toList ++
  "<h1>Index of ".toList ++ title ++ "</h1>".toList ++
  "<table><thead><tr><th>Name</th><th class=\"size\">Size</th></tr></thead><tbody>".toList

/-- The link to the directory above; the root has none. -/
def parentRow (root dir : Path) : List Char :=
  if stripRoot root dir = [] then []
  else "<tr><td><a href=\"../\">../</a></td><td class=\"size\">—</td></tr>".toList

def entryRow (e : Entry) : List Char :=
  let displayName := if e.isDir then e.name ++ ['/'] else e.name
  let size := if e.isDir then "—" else sizeStr e.size
  "<tr><td><a href=\"".toList ++ htmlEscape (stripDots e.href) ++ "\">".toList ++
    htmlEscape displayName ++ "</a></td><td class=\"size\">".toList ++ size.toList ++
    "</td></tr>".toList

def listingFoot : List Char := "</tbody></table></body></html>".toList

/-- The page for the given rows. -/
def listingPage (root dir : Path) (entries : List Entry) : List Char :=
  listingHead (listingTitle root dir) ++ parentRow root dir ++ entries.flatMap entryRow ++
    listingFoot

/-- The rows of a directory with these names. -/
def listingEntries (lower : List Char → List Char) (fs : FileSystem) (root dir : Path)
    (names : List Name) : List Entry :=
  (names.map (listingEntry fs root dir)).mergeSort (entryLe lower)

/-- The page of a directory; `none` if it cannot be listed. -/
def renderDirectoryListing (lower : List Char → List Char) (fs : FileSystem) (root dir : Path) :
    Option Bytes :=
  (fs.readDir (toText dir)).map fun names =>
    utf8Chars (listingPage root dir (listingEntries lower fs root dir names))

end MeshlyCore.StaticHttp
