import ChunkPlan.Text.Substitution

/-!
# Paths

Paths as texts: names with slashes between them.  All operations are lexical; what a path leads to
is the concern of the file system.
-/

set_option autoImplicit false

namespace ChunkPlan.Path

/-- One name between slashes. -/
abbrev Segment := List Char

def here : Segment := ['.']

def up : Segment := ['.', '.']

def isAbsolute (path : String) : Bool := path.toList.head? = some '/'

/-- The slashes that a path begins with, as far as they matter: two are kept, more are one. -/
def root : List Char → List Char
  | '/' :: '/' :: '/' :: _ => ['/']
  | '/' :: '/' :: _ => ['/', '/']
  | '/' :: _ => ['/']
  | _ => []

/-- The names of a path that are not empty and do not stay in place. -/
def names (path : List Char) : List Segment :=
  (Text.fields '/' path).filter fun segment => segment ≠ [] && segment ≠ here

/-- Walks one name further, where `walked` holds the names walked so far, the last one first.
Above the root there is only the root; a relative path can climb. -/
def walk (absolute : Bool) (walked : List Segment) (segment : Segment) : List Segment :=
  if segment = up then
    match walked with
    | [] => if absolute then [] else [up]
    | last :: rest => if last = up then up :: walked else rest
  else segment :: walked

/-- The names left when every step up is done. -/
def settle (absolute : Bool) (segments : List Segment) : List Segment :=
  (segments.foldl (walk absolute) []).reverse

def joinNames (segments : List Segment) : List Char := Text.joinFields '/' segments

/-- A path from its root and names; a single dot if there are neither. -/
def assemble (root : List Char) (segments : List Segment) : String :=
  let chars := root ++ joinNames segments
  String.ofList (if chars.isEmpty then here else chars)

def normalize (path : String) : String :=
  let chars := path.toList
  assemble (root chars) (settle (isAbsolute path) (names chars))

/-- A path without empty names and names that stay in place; steps up are kept. -/
def tidy (path : String) : String :=
  let chars := path.toList
  assemble (root chars) (names chars)

def join (directory path : String) : String :=
  if isAbsolute path then path
  else if directory.isEmpty || directory.toList.getLast? = some '/' then directory ++ path
  else directory ++ "/" ++ path

/-- The last name of a path: what follows the last slash. -/
def fileName (path : String) : String :=
  String.ofList (path.toList.reverse.takeWhile (· ≠ '/')).reverse

/-- What stands before the last name, without the slashes between, unless it is all slashes. -/
def directory (path : String) : String :=
  let head := (path.toList.reverse.dropWhile (· ≠ '/')).reverse
  String.ofList (if head.all (· = '/') then head else Text.trimEnd (· = '/') head)

def absolute (workingDirectory path : String) : String :=
  normalize (join workingDirectory path)

/-- The names that lead from the root to a path, for a working directory. -/
def locate (workingDirectory path : String) : List String :=
  (settle true (names (join workingDirectory path).toList)).map String.ofList

def ofNames (segments : List String) : String :=
  String.ofList ('/' :: joinNames (segments.map String.toList))

def commonLength : List Segment → List Segment → Nat
  | a :: as, b :: bs => if a = b then commonLength as bs + 1 else 0
  | _, _ => 0

/-- The path that leads from a directory to a path: up to what both share, and down again. -/
def relative (workingDirectory path start : String) : String :=
  let target := names (absolute workingDirectory path).toList
  let source := names (absolute workingDirectory start).toList
  let shared := commonLength source target
  assemble [] (List.replicate (source.length - shared) up ++ target.drop shared)

def withSlashes (path : String) : String :=
  String.ofList (path.toList.map fun c => if c = '\\' then '/' else c)

end ChunkPlan.Path
