/-
  A folder of files, and the ways in which a file of a given path cannot be
  read.

  * `FileError` is the cause, `FileError.message` the wording of the system,
    with its number for the cause (`FileError.code_ofCode`).
  * `Folder.read` follows a path, from part to part. Empty parts and `.` stay
    in the folder, `..` leaves it; nothing is known of what lies outside
    (`Folder.outside`).
  * `Folder.read_name`: a path that is one short name reads the file of that
    name.
-/
namespace Scriptlet

/-- Why a file cannot be read. -/
inductive FileError where
  /-- Nothing has this path. -/
  | notFound
  /-- The file may not be read. -/
  | denied
  /-- The path goes on after the name of a file. -/
  | notFolder
  /-- The path is that of a folder. -/
  | isFolder
  /-- The path, or a name in it, is too long. -/
  | tooLong
  /-- Another cause, by the number and the wording of the system. -/
  | other (code : Nat) (reason : String)
deriving DecidableEq, Repr

namespace FileError

/-- The number that the system has for a cause. -/
def code : FileError → Nat
  | notFound => 2
  | denied => 13
  | notFolder => 20
  | isFolder => 21
  | tooLong => 36
  | other code _ => code

/-- The words that the system has for a cause. -/
def reason : FileError → String
  | notFound => "No such file or directory"
  | denied => "Permission denied"
  | notFolder => "Not a directory"
  | isFolder => "Is a directory"
  | tooLong => "File name too long"
  | other _ reason => reason

/-- The cause that the system has a number for. -/
def ofCode (code : Nat) (reason : String) : FileError :=
  match code with
  | 2 => notFound
  | 13 => denied
  | 20 => notFolder
  | 21 => isFolder
  | 36 => tooLong
  | code => other code reason

theorem code_ofCode (code : Nat) (reason : String) : (ofCode code reason).code = code := by
  unfold ofCode
  split <;> rfl

/-- What the user is told. -/
def message (e : FileError) : String :=
  e.reason ++ " (os error " ++ toString e.code ++ ")"

end FileError

/-- The files of a folder, by their names. -/
abbrev Folder := List (String × ByteArray)

namespace Folder

/-- What is known outside of the folder. -/
def outside : Folder := []

/-- The size of the longest name, in bytes. -/
def longestName : Nat := 255

/-- The size of the longest path, in bytes. -/
def longestPath : Nat := 4095

/-- The parts of a path, between its slashes. -/
def parts : List Char → List (List Char)
  | [] => [[]]
  | '/' :: cs => [] :: parts cs
  | c :: cs => (parts cs).modifyHead (c :: ·)

/-- The file named by the last part, where `rest` is what follows the name. -/
def file (folder : Folder) (name : String) (rest : List (List Char)) :
    Except FileError ByteArray :=
  if name.utf8ByteSize > longestName then .error .tooLong
  else
    match folder.lookup name, rest with
    | none, _ => .error .notFound
    | some contents, [] => .ok contents
    | some _, _ :: _ => .error .notFolder

/-- Follows the parts of a path from a folder. -/
def follow (folder : Folder) : List (List Char) → Except FileError ByteArray
  | [] => .error .isFolder
  | [] :: rest => follow folder rest
  | ['.'] :: rest => follow folder rest
  | ['.', '.'] :: rest => follow outside rest
  | name :: rest => folder.file (String.ofList name) rest

/-- The contents of the file that a path leads to. -/
def read (folder : Folder) (path : String) : Except FileError ByteArray :=
  if path.utf8ByteSize > longestPath then .error .tooLong
  else
    match path.toList with
    | [] => .error .notFound
    | '/' :: cs => follow outside (parts cs)
    | cs => follow folder (parts cs)

theorem parts_of_not_mem {cs : List Char} (h : '/' ∉ cs) : parts cs = [cs] := by
  induction cs with
  | nil => rfl
  | cons c cs ih =>
    rw [List.mem_cons, not_or] at h
    rw [parts.eq_def]
    split <;> simp_all

theorem read_name {folder : Folder} {name : String} {contents : ByteArray}
    (slash : '/' ∉ name.toList) (empty : name ≠ "") (here : name ≠ ".") (up : name ≠ "..")
    (short : name.utf8ByteSize ≤ longestName) (found : folder.lookup name = some contents) :
    folder.read name = .ok contents := by
  have size : ¬name.utf8ByteSize > longestPath := by
    unfold longestName at short
    unfold longestPath
    omega
  rw [read, if_neg size]
  split
  · next h => exact absurd (String.toList_eq_nil_iff.mp h) empty
  · next h => exact absurd (h ▸ List.mem_cons_self) slash
  · rw [parts_of_not_mem slash, follow.eq_def]
    split
    · contradiction
    · simp_all
    · next h => exact absurd (String.toList_inj.mp (List.cons.inj h).1) here
    · next h => exact absurd (String.toList_inj.mp (List.cons.inj h).1) up
    · next h =>
      obtain ⟨rfl, rfl⟩ := List.cons.inj h
      simp [file, found, Nat.not_lt.mpr short]

end Folder

end Scriptlet
