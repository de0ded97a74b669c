import TraitLang.Grammar.Module

/-! Files that are held in memory, found by relative paths. -/
namespace TraitLang.Command

/-- Files with their places, the newest first. -/
structure Directory where
  files : List (List String × String)

namespace Directory

def parts (path : String) : List String := path.splitOn "/"

/-- Writes files one after the other, so that the last of several at one place stays. -/
def ofFiles (files : List SourceFile) : Directory where
  files := files.reverse.map fun file =>
    ((parts file.name).filter fun part => part ≠ "" && part ≠ ".", file.text)

/-- The place itself and every place that a file lies below. -/
def isDirectory (directory : Directory) (place : List String) : Bool :=
  place.isEmpty || directory.files.any fun file =>
    place.length < file.1.length && place.isPrefixOf file.1

/-- Follows the parts of a path. Each of them needs a directory to start from. -/
def resolve (directory : Directory) : (place : List String) → List String → Option (List String)
  | place, [] => some place
  | place, part :: rest =>
    if !directory.isDirectory place then none
    else if part = "" || part = "." then directory.resolve place rest
    else if part = ".." then
      if place.isEmpty then none else directory.resolve place.dropLast rest
    else directory.resolve (place ++ [part]) rest

/-- The text of the file at a path. Nothing is known of absolute paths. -/
def read? (directory : Directory) (path : String) : Option String :=
  if path.startsWith "/" then none
  else (directory.resolve [] (parts path)).bind fun place => directory.files.lookup place

end Directory

end TraitLang.Command
