import JavaThrows.Files.PathGlob
import JavaThrows.Files.Tree
import JavaThrows.Unicode.CharClass

set_option autoImplicit false

/-!
# Ignore files

A directory can hold files that say which entries below it are to be passed over: `.ignore` always
counts, and `.gitignore` and the exclude file of a repository count inside a repository only. Each
line is a rule, the last rule of a file that matches decides, and files of inner directories come
before those of outer ones.
-/

namespace JavaThrows

open JavaThrows.Unicode

structure IgnoreRule where
  glob : PathGlob
  /-- The rule keeps what it matches. -/
  keeps : Bool
  /-- The rule matches directories only. -/
  dirsOnly : Bool

inductive IgnoreVerdict where
  | ignored
  | kept
deriving DecidableEq, Repr

namespace IgnoreRule

/-- A glob without a slash matches in all directories, and one that ends with two stars matches what
    is inside a directory but not the directory. -/
def globText (isAnchored : Bool) (text : List Char) : List Char :=
  let text :=
    if isAnchored || text.contains '/' || text = ['*', '*'] then text else "**/".toList ++ text
  if (Text.beforeEnd? "/**".toList text).isSome then text ++ "/*".toList else text

/-- Read a line; none for a blank line, a remark or a glob that is not well formed. -/
def ofLine? (line : List Char) : Option IgnoreRule :=
  let line := if (Text.beforeEnd? "\\ ".toList line).isSome then line else trimEnd line
  if line.isEmpty || line.head? == some '#' then none
  else
    let (keeps, isAnchored, text) := match line with
      | '\\' :: '!' :: rest => (false, false, '!' :: rest)
      | '\\' :: '#' :: rest => (false, false, '#' :: rest)
      | '!' :: '/' :: rest => (true, true, rest)
      | '!' :: rest => (true, false, rest)
      | '/' :: rest => (false, true, rest)
      | _ => (false, false, line)
    let (dirsOnly, text) := match Text.beforeEnd? ['/'] text with
      | some rest => (true, (Text.beforeEnd? ['\\'] rest).getD rest)
      | none => (false, text)
    (PathGlob.ofList? (globText isAnchored text)).map fun glob => ⟨glob, keeps, dirsOnly⟩

/-- The rules of an ignore file. -/
def ofText (text : String) : List IgnoreRule :=
  let lines := Text.splitOn '\n' ((Text.afterStart? ['\ufeff'] text.toList).getD text.toList)
  lines.filterMap fun line => ofLine? ((Text.beforeEnd? ['\r'] line).getD line)

/-- What rules say about a path: the last rule that matches it decides. -/
def verdict? (rules : List IgnoreRule) (path : String) (isDir : Bool) : Option IgnoreVerdict :=
  (rules.reverse.find? fun r => (isDir || !r.dirsOnly) && r.glob.isMatch path).map fun r =>
    if r.keeps then .kept else .ignored

end IgnoreRule

/-- What a directory says about the entries below it. -/
structure IgnoreLevel where
  location : Location
  /-- The rules that always count. -/
  general : List IgnoreRule
  /-- The rules that count inside a repository. -/
  tracked : List IgnoreRule
  /-- The rules of the repository that the directory is the root of. -/
  excluded : List IgnoreRule
  isRepository : Bool

namespace IgnoreLevel

def rulesAt (t : FileTree) (path : String) : List IgnoreRule :=
  match t.readText path with
  | .ok text => IgnoreRule.ofText text
  | .error _ => []

def ofLocation (t : FileTree) (location : Location) : IgnoreLevel :=
  let inside (path : String) : String := Path.join location.path path
  { location
    general := rulesAt t (inside ".ignore")
    tracked := rulesAt t (inside ".gitignore")
    excluded := rulesAt t (inside ".git/info/exclude")
    isRepository := t.pathExists (inside ".git") }

/-- The levels of the directories around a location, the innermost one first. -/
def around (t : FileTree) (location : Location) : List IgnoreLevel :=
  ((List.range location.length).map fun n => ofLocation t (location.take n)).reverse

/-- What one kind of rules of a level says about a location below it. -/
def verdict? (level : IgnoreLevel) (rules : IgnoreLevel → List IgnoreRule) (location : Location)
    (isDir : Bool) : Option IgnoreVerdict :=
  IgnoreRule.verdict? (rules level)
    (String.intercalate "/" (location.drop level.location.length)) isDir

/-- The levels up to the root of the innermost repository; none outside of all repositories. -/
def inRepository : List IgnoreLevel → List IgnoreLevel
  | [] => []
  | level :: levels =>
    if level.isRepository then [level]
    else
      match inRepository levels with
      | [] => []
      | inner => level :: inner

/-- Whether a location is to be passed over, given the levels around it, the innermost first. -/
def isIgnored (levels : List IgnoreLevel) (location : Location) (isDir : Bool) : Bool :=
  let say (levels : List IgnoreLevel) (rules : IgnoreLevel → List IgnoreRule) :=
    levels.findSome? fun level => level.verdict? rules location isDir
  let repository := inRepository levels
  ((say levels general).or ((say repository tracked).or (say repository excluded))) ==
    some .ignored

end IgnoreLevel
end JavaThrows
