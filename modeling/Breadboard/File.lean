import Breadboard.Text.Blank

set_option autoImplicit false

/-!
Names of files, and what can go wrong with a file.
-/
namespace Breadboard.File

inductive Fault where
  | missing
  | directory
  | notText
  | other (message : String)
  deriving DecidableEq, Repr

def Fault.message : Fault → String
  | missing => "No such file or directory (os error 2)"
  | directory => "Is a directory (os error 21)"
  | notText => "stream did not contain valid UTF-8"
  | other message => message

/-- What stands in front of the file name of a path, and the file name. Separators and dots behind it
do not count; a path that ends with the parent directory has no file name. -/
def splitName? (path : List Char) : Option (List Char × List Char) :=
  match (Text.splitOn '/' path).reverse.dropWhile fun part => part.isEmpty || part == ['.'] with
  | [] => none
  | name :: before =>
    if name = ['.', '.'] then none else some (before.reverse.flatMap (· ++ ['/']), name)

/-- The stem and the extension of a file name: they are divided by the last dot that is not its first
character. -/
def splitExtension (name : List Char) : List Char × Option (List Char) :=
  let tail := (name.reverse.takeWhile (· != '.')).reverse
  let stem := name.take (name.length - tail.length - 1)
  if tail.length = name.length || stem.isEmpty then (name, none) else (stem, some tail)

/-- Appends an extension to the stem of the file name, if there is one. -/
def setExtension (extension path : List Char) : List Char :=
  match splitName? path with
  | none => path
  | some (before, name) => before ++ (splitExtension name).1 ++ '.' :: extension

/-- Replaces the extension of a path. The old one is cut off first, and what is left decides what the
file name is. -/
def withExtension (extension path : List Char) : List Char :=
  let old := (splitName? path).bind fun split => (splitExtension split.2).2
  setExtension extension (path.take (path.length - (old.getD []).length))

end Breadboard.File
