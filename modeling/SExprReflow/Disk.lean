/-!
# Files

A `Disk` is a tree of files and folders below one top folder. One folder in it is the
working folder, where a path starts unless it begins with a slash. A path is walked name by
name. A file is opened for reading where there is one, and for writing where there is none
or one; the cause of a failure is a `FileError`.

Besides files and folders there is the null device, which is empty to read and takes
whatever is written.
-/

namespace SExprReflow

/-- The names on the way from the top folder. -/
abbrev Location := List String

/-- Something at a location. -/
inductive Entry where
  | file (bytes : ByteArray)
  | folder
  | nullDevice

/-- Why a path cannot be opened. -/
inductive FileError where
  | notFound
  | isFolder
  | notFolder
  | nameTooLong
  /-- A path with a null character in it is no path. -/
  | nullCharacter
deriving DecidableEq, Repr

/-- The error in words. -/
def FileError.message : FileError → String
  | .notFound => "No such file or directory"
  | .isFolder => "Is a directory"
  | .notFolder => "Not a directory"
  | .nameTooLong => "File name too long"
  | .nullCharacter => "embedded null byte"

/-- What there is by location, each location at most once. -/
structure Disk where
  /-- The working folder. -/
  home : Location
  entries : List (Location × Entry)

namespace Disk

/-- What is at a location in a list of entries. -/
def findEntry (loc : Location) : List (Location × Entry) → Option Entry
  | [] => none
  | x :: xs => if x.1 = loc then some x.2 else findEntry loc xs

/-- What is at a location. The top folder is always there. -/
def get? (d : Disk) (loc : Location) : Option Entry :=
  if loc = [] then some .folder else findEntry loc d.entries

/-- Whether there is a folder at a location. -/
def isFolder (d : Disk) (loc : Location) : Bool :=
  match d.get? loc with
  | some .folder => true
  | _ => false

/-- The bytes of the file at a location; none where there is no file. -/
def bytes (d : Disk) (loc : Location) : ByteArray :=
  match d.get? loc with
  | some (.file bytes) => bytes
  | _ => .empty

/-- Puts something at a location in a list of entries. -/
def putEntry (loc : Location) (e : Entry) : List (Location × Entry) → List (Location × Entry)
  | [] => [(loc, e)]
  | x :: xs => if x.1 = loc then (loc, e) :: xs else x :: putEntry loc e xs

/-- The disk with a file at a location, in the place of any that was there. What is written
to the null device is gone. -/
def write (d : Disk) (loc : Location) (bytes : ByteArray) : Disk :=
  match d.get? loc with
  | some .nullDevice => d
  | _ => { d with entries := putEntry loc (.file bytes) d.entries }

/-! ## Filling a disk -/

/-- Puts folders at those of the given locations where there is nothing. -/
def putFolders (entries : List (Location × Entry)) : List Location → List (Location × Entry)
  | [] => entries
  | loc :: locs =>
    match findEntry loc entries with
    | none => putFolders (putEntry loc .folder entries) locs
    | some _ => putFolders entries locs

/-- The disk with something at a location, and with the folders on the way to it. -/
def add (d : Disk) (loc : Location) (e : Entry) : Disk :=
  let above := (List.range (loc.length - 1)).map fun i => loc.take (i + 1)
  { d with entries := putEntry loc e (putFolders d.entries above) }

/-- The folders that a system has below its top folder. -/
def systemFolders : List String :=
  ["bin", "boot", "dev", "etc", "home", "lib", "media", "mnt", "opt", "proc", "root", "run", "sbin",
    "srv", "sys", "tmp", "usr", "var"]

/-- A disk with an empty working folder. -/
def fresh : Disk :=
  let top : Disk := ⟨["tmp", "work"], systemFolders.map fun name => ([name], .folder)⟩
  (top.add ["dev", "null"] .nullDevice).add top.home .folder

/-- The part of a location below another one. -/
def below? : Location → Location → Option Location
  | [], loc => some loc
  | _ :: _, [] => none
  | x :: xs, y :: ys => if x = y then below? xs ys else none

/-- The files in the working folder, by their location in it. -/
def localFiles (d : Disk) : List (Location × ByteArray) :=
  d.entries.filterMap fun (loc, e) =>
    match e, below? d.home loc with
    | .file bytes, some loc' => some (loc', bytes)
    | _, _ => none

/-! ## Paths -/

/-- The most bytes in a name. -/
def maxName : Nat := 255

/-- The most bytes in a path. -/
def maxPath : Nat := 4095

/-- Goes from a location to a name in it, which is possible in a folder only. -/
def enter (d : Disk) (loc : Location) (name : String) : Except FileError Location :=
  match d.get? loc with
  | none => .error .notFound
  | some (.file _) | some .nullDevice => .error .notFolder
  | some .folder =>
    if name = "" || name = "." then .ok loc
    else if name = ".." then .ok loc.dropLast
    else if maxName < name.utf8ByteSize then .error .nameTooLong
    else .ok (loc ++ [name])

/-- Goes from a location through names, one after the other. -/
def walk (d : Disk) (loc : Location) : List String → Except FileError Location
  | [] => .ok loc
  | name :: names =>
    match d.enter loc name with
    | .ok loc' => walk d loc' names
    | .error e => .error e

/-- The names of a path. -/
def names (path : String) : List String := (path.toList.splitOn '/').map String.ofList

/-- The names of a path without the empty ones at its end. -/
def trimmedNames (path : String) : List String :=
  ((names path).reverse.dropWhile (· = "")).reverse

/-- Whether a path has a slash at its end. -/
def endsInSlash (path : String) : Bool := path.toList.getLast? = some '/'

/-- Where a path starts. -/
def start (d : Disk) (path : String) : Location :=
  if path.toList.head? = some '/' then [] else d.home

/-- Refuses what cannot be a path. -/
def checkPath (path : String) : Except FileError Unit :=
  if path.toList.contains '\x00' then .error .nullCharacter
  else if path = "" then .error .notFound
  else if maxPath < path.utf8ByteSize then .error .nameTooLong
  else .ok ()

/-- The location of the file that is opened for reading at a path. -/
def source (d : Disk) (path : String) : Except FileError Location := do
  checkPath path
  let loc ← d.walk (d.start path) (names path)
  match d.get? loc with
  | none => .error .notFound
  | some .folder => .error .isFolder
  | some _ => return loc

/-- The location of the file that is opened for writing at a path, which need not exist.
A path with a slash at its end stands for a folder, there or not. -/
def destination (d : Disk) (path : String) : Except FileError Location := do
  checkPath path
  if endsInSlash path then
    let loc ← d.walk (d.start path) (trimmedNames path).dropLast
    let _ ← d.enter loc "."
    .error .isFolder
  else
    let loc ← d.walk (d.start path) (names path)
    if d.isFolder loc then .error .isFolder else return loc

/-! ## Reading what was written -/

theorem findEntry_putEntry (loc loc' : Location) (e : Entry) (xs : List (Location × Entry)) :
    findEntry loc' (putEntry loc e xs) = if loc = loc' then some e else findEntry loc' xs := by
  induction xs with
  | nil => rfl
  | cons x xs ih =>
    by_cases hx : x.1 = loc
    · simp only [putEntry, hx, if_true, findEntry]
      split <;> rfl
    · rw [putEntry, if_neg hx, findEntry, findEntry, ih]
      by_cases h : x.1 = loc'
      · rw [if_pos h, if_pos h, if_neg fun e => hx (h.trans e.symm)]
      · rw [if_neg h, if_neg h]

/-- A file has the bytes that were written last. -/
theorem get?_write_self (d : Disk) {loc : Location} (bytes : ByteArray) (h : loc ≠ [])
    (hn : d.get? loc ≠ some .nullDevice) : (d.write loc bytes).get? loc = some (.file bytes) := by
  unfold write
  split
  · next he => exact absurd he hn
  · simp [get?, h, findEntry_putEntry]

/-- Writing changes nothing at any other location. -/
theorem get?_write_of_ne (d : Disk) {loc loc' : Location} (bytes : ByteArray)
    (h : loc ≠ loc') : (d.write loc bytes).get? loc' = d.get? loc' := by
  unfold write
  split
  · rfl
  · simp [get?, h, findEntry_putEntry]

end Disk

end SExprReflow
