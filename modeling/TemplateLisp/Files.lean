/-!
# Paths and files

A path is read from its text by leaving out empty and `.` parts; `..` stays. `Files` says what
stands at every path, as far as a program may look.
-/

namespace TemplateLisp

/-- A path: the slashes it starts with, if any, and its parts. -/
structure Path where
  root : String
  parts : List String
deriving DecidableEq, Inhabited, Repr

namespace Path

/-- The slashes at the front that count: one, or exactly two. -/
def rootOf : List Char → String
  | '/' :: '/' :: '/' :: _ => "/"
  | '/' :: '/' :: _ => "//"
  | '/' :: _ => "/"
  | _ => ""

/-- The path that a text denotes. -/
def parse (s : String) : Path :=
  ⟨rootOf s.toList, (s.splitOn "/").filter fun part => part ≠ "" && part ≠ "."⟩

/-- The text of a path; of the empty path it is a dot. -/
def text (p : Path) : String :=
  if p.root = "" && p.parts.isEmpty then "." else p.root ++ "/".intercalate p.parts

/-- The path of something in a directory. -/
def child (p : Path) (name : String) : Path := { p with parts := p.parts ++ [name] }

end Path

/-- What stands at a path. -/
inductive Entry where
  | absent
  /-- A part of the path is a file where a directory is needed. -/
  | blocked
  | file (content : String)
  /-- A directory, by the names in it. -/
  | directory (names : List String)
deriving DecidableEq, Inhabited

/-- What stands at every path. -/
abbrev Files := Path → Entry

namespace Files

/-- Whether a list starts with another and goes on. -/
def isProperStart : List String → List String → Bool
  | [], _ :: _ => true
  | a :: as, b :: bs => a = b && isProperStart as bs
  | _, _ => false

/-- What stands in a tree of files, given by their parts and contents, behind the given parts. -/
def entryAt (tree : List (List String × String)) (parts : List String) : Entry :=
  match tree.lookup parts with
  | some content => .file content
  | none =>
    let inside := tree.filter fun f => isProperStart parts f.1
    if parts.isEmpty || !inside.isEmpty then
      .directory (inside.map fun f => (f.1.drop parts.length).headD "").eraseDups
    else .absent

/-- Walks along the parts of a path, from the directory behind `done`; nothing above the tree can be
reached. -/
def walk (tree : List (List String × String)) (done : List String) : List String → Entry
  | [] => entryAt tree done
  | part :: rest =>
    match entryAt tree done with
    | .directory _ =>
      if part ≠ ".." then walk tree (done ++ [part]) rest
      else if done.isEmpty then .absent
      else walk tree done.dropLast rest
    | .file _ => .blocked
    | e => e

/-- A working directory that holds the given files, by path and content, and nothing else. -/
def ofList (files : List (String × String)) : Files :=
  let tree := files.map fun (path, content) => ((Path.parse path).parts, content)
  fun p => if p.root = "" then walk tree [] p.parts else .absent

end Files

end TemplateLisp
