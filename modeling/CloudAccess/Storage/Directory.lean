import CloudAccess.Json.Display
import CloudAccess.OrderedMap
import CloudAccess.Text.Split

/-!
# Directories

`Files` is what a directory holds, its own directories included: each entry is listed under the
names on the way to it, with a slash between them.  A path is followed name by name; what does
not let it be followed, or its end be used as a file, is an `Obstacle`.

* `Files.read` and `Files.write` take the path of a file; `Files.read_write`: what was written is
  what is read.
* `Files.isDirectory` tells whether a path leads to a directory.
-/

namespace CloudAccess

inductive Entry where
  | directory
  | file (bytes : List UInt8)

/-- The entries of a directory. -/
abbrev Files := OrderedMap String Entry

/-- What keeps a file from being opened. -/
inductive Obstacle where
  /-- The path has a NUL in it. -/
  | nul
  | missing
  /-- What a name is looked up in is a file. -/
  | notDirectory
  | directory
  | tooLong
deriving DecidableEq

def Obstacle.message (path : String) : Obstacle → String
  | nul => "embedded null byte"
  | missing => s!"[Errno 2] No such file or directory: {quotedText path}"
  | notDirectory => s!"[Errno 20] Not a directory: {quotedText path}"
  | directory => s!"[Errno 21] Is a directory: {quotedText path}"
  | tooLong => s!"[Errno 36] File name too long: {quotedText path}"

namespace Files

/-- The most bytes of a name. -/
def nameLimit : Nat := 255

/-- The most bytes of a path. -/
def pathLimit : Nat := 4095

/-- The names on the way to an entry, the last one first.  The way starts at the directory or,
with an empty name, at the root of all directories. -/
abbrev Place := List String

/-- The name under which the entry at a place is listed. -/
def listed (place : Place) : String := "/".intercalate place.reverse

/-- The names in a path. -/
def names (path : String) : List String :=
  ((Text.fields '/' path.toList).map String.ofList).filter (!·.isEmpty)

/-- Where a path starts. -/
def origin (path : String) : Place := if path.toList.head? = some '/' then [""] else []

/-- The directory that a place lies in; nothing lies above the root. -/
def outer : Place → Place
  | [] => [".."]
  | [""] => [""]
  | ".." :: place => ".." :: ".." :: place
  | _ :: place => place

/-- The place that a name leads to. -/
def follow (place : Place) (name : String) : Place :=
  if name = "." then place else if name = ".." then outer place else name :: place

/-- Follows a name that has others behind it. -/
def enter (fs : Files) (place : Place) (name : String) : Except Obstacle Place :=
  if name = "." ∨ name = ".." then .ok (follow place name)
  else if nameLimit < name.utf8ByteSize then .error .tooLong
  else match fs.get? (listed (name :: place)) with
    | some .directory => .ok (name :: place)
    | some (.file _) => .error .notDirectory
    | none => .error .missing

/-- The place of the file that a path leads to, which need not be there if it is to be written.
A path that ends in a slash is that of no file. -/
def placeOf (fs : Files) (writing : Bool) (path : String) : Except Obstacle Place :=
  let endsInSlash := path.toList.getLast? = some '/'
  if path.toList.contains '\x00' then .error .nul
  else if path.isEmpty then .error .missing
  else if pathLimit < path.utf8ByteSize then .error .tooLong
  else match (names path).reverse with
    | [] => .error .directory
    | name :: before => do
      let place ← before.reverse.foldlM fs.enter (origin path)
      if name = "." ∨ name = ".." then .error .directory
      else if writing ∧ endsInSlash then .error .directory
      else if nameLimit < name.utf8ByteSize then .error .tooLong
      else match fs.get? (listed (name :: place)) with
        | some .directory => .error .directory
        | some (.file _) => if endsInSlash then .error .notDirectory else .ok (name :: place)
        | none => if writing then .ok (name :: place) else .error .missing

/-- The bytes of a file. -/
def read (fs : Files) (path : String) : Except Obstacle (List UInt8) := do
  let place ← fs.placeOf false path
  match fs.get? (listed place) with
  | some (.file bytes) => .ok bytes
  | _ => .error .missing

/-- Writes a file. -/
def write (fs : Files) (path : String) (bytes : List UInt8) : Except Obstacle Files := do
  let place ← fs.placeOf true path
  return fs.insert (listed place) (.file bytes)

/-- Whether a path leads to a directory. -/
def isDirectory (fs : Files) (path : String) : Bool :=
  match fs.placeOf false path with
  | .error .directory => true
  | _ => false

/-! ## Entries by their paths -/

/-- The paths to the directories on the way, and the path itself. -/
def waypoints (path : String) : List String :=
  let cs := path.toList
  let slashes := (List.range cs.length).filter fun i => 0 < i ∧ cs[i]? = some '/'
  slashes.map (fun i => String.ofList (cs.take i)) ++ [path]

/-- What holds entries at some paths, with the directories on the way to them. -/
def ofPaths (entries : List (String × Entry)) : Files :=
  let all := entries.flatMap fun (path, e) =>
    (waypoints path).dropLast.map (·, Entry.directory) ++ [(path, e)]
  .ofList (all.map fun (path, e) => (listed ((names path).foldl follow (origin path)), e))

/-! ## Writing and reading -/

theorem enter_insert_file {fs : Files} {place entered : Place} {name key : String}
    {bytes : List UInt8} (hk : fs.get? key ≠ some .directory)
    (h : fs.enter place name = .ok entered) :
    enter (fs.insert key (.file bytes)) place name = .ok entered := by
  unfold enter at h ⊢
  by_cases h1 : name = "." ∨ name = ".."
  · rw [if_pos h1] at h ⊢; exact h
  rw [if_neg h1] at h ⊢
  by_cases h2 : nameLimit < name.utf8ByteSize
  · rw [if_pos h2] at h; cases h
  rw [if_neg h2] at h ⊢
  by_cases hkey : (key == listed (name :: place)) = true
  · rw [eq_of_beq hkey] at hk
    split at h
    · rename_i hd
      exact absurd hd hk
    · cases h
    · cases h
  · rw [OrderedMap.get?_insert_of_ne _ (by simpa using hkey)]
    exact h

theorem foldlM_enter_insert_file {fs : Files} {key : String} {bytes : List UInt8}
    (hk : fs.get? key ≠ some .directory) (names : List String) :
    ∀ {place entered : Place}, names.foldlM fs.enter place = .ok entered →
      names.foldlM (enter (fs.insert key (.file bytes))) place = .ok entered := by
  induction names with
  | nil => intro place entered h; exact h
  | cons name rest ih =>
    intro place entered h
    simp only [List.foldlM_cons] at h ⊢
    cases hn : fs.enter place name with
    | error o => rw [hn] at h; cases h
    | ok next =>
      rw [hn] at h
      rw [enter_insert_file hk hn]
      exact ih h

/-- Where a file was written, it is found. -/
theorem placeOf_insert_file {fs : Files} {path : String} {place : Place} {bytes : List UInt8}
    (h : fs.placeOf true path = .ok place) :
    placeOf (fs.insert (listed place) (.file bytes)) false path = .ok place := by
  unfold placeOf at h ⊢
  simp only at h ⊢
  split at h
  · cases h
  rename_i h1
  split at h
  · cases h
  rename_i h2
  split at h
  · cases h
  rename_i h3
  split at h
  · cases h
  rename_i name before hn
  cases hf : before.reverse.foldlM fs.enter (origin path) with
  | error o => rw [hf] at h; cases h
  | ok inner =>
    rw [hf] at h
    simp only [bind, Except.bind] at h
    split at h
    · cases h
    rename_i h4
    split at h
    · cases h
    rename_i h5
    split at h
    · cases h
    rename_i h6
    have hslash : path.toList.getLast? ≠ some '/' := fun hs => h5 ⟨trivial, hs⟩
    have hplace : place = name :: inner ∧ fs.get? (listed place) ≠ some .directory := by
      split at h
      · cases h
      · simp only [hslash, if_false] at h
        cases h
        simp_all
      · simp only [if_true] at h
        cases h
        simp_all
    obtain ⟨rfl, hk⟩ := hplace
    simp only [h1, h2, h3, h4, if_false, bind, Except.bind, foldlM_enter_insert_file hk _ hf, h6,
      Bool.false_eq_true, false_and, OrderedMap.get?_insert_self, hslash]

/-- What was written is what is read. -/
theorem read_write {fs written : Files} {path : String} {bytes : List UInt8}
    (h : fs.write path bytes = .ok written) : written.read path = .ok bytes := by
  unfold write at h
  cases hp : fs.placeOf true path with
  | error o => rw [hp] at h; cases h
  | ok place =>
    rw [hp] at h
    cases h
    unfold read
    rw [placeOf_insert_file hp]
    simp [bind, Except.bind]

end Files
end CloudAccess
