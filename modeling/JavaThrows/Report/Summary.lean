import JavaThrows.Files.Walk
import JavaThrows.Report.Basic
import JavaThrows.Report.Style
import JavaThrows.Report.Table

set_option autoImplicit false

/-!
# Reports for readers

The text at the end of a run: tables of what was changed and what was left out, and a line of
counts; or the counts alone. All of it can be styled.
-/

namespace JavaThrows

/-- The lines of a text, each with its line end. -/
def linesOf (lines : List String) : String :=
  String.join (lines.map (· ++ "\n"))

namespace Report

/-! ## Parts -/

def banner (isStyled : Bool) : List String :=
  let cyan := Style.colored .cyan
  ["",
    cyan.paint isStyled "╔════════════════════════════════════════╗",
    { cyan with bold := true }.paint isStyled "║  Throws Clause Removal Results         ║",
    cyan.paint isStyled "╚════════════════════════════════════════╝",
    ""]

def changesTable (r : Report) (isStyled : Bool) : List String :=
  if r.fixed.isEmpty then []
  else
    ["", Style.heading.paint isStyled (if r.dryRun then "Would Change" else "Changed Files"),
      Table.render ["File", "Methods", "Import Removed"] (r.fixed.map fun f =>
        [f.file, String.intercalate "\n" (f.methods.map MethodChange.name),
          if f.importRemoved then "yes" else "no"])]

def failuresTable (r : Report) (isStyled : Bool) : List String :=
  if r.failures.isEmpty then []
  else
    ["", { Style.heading with color := some .red }.paint isStyled "Skipped Files",
      Table.render ["File", "Error"] (r.failures.map fun f => [f.file, f.error])]

/-- A count, faint where it is zero and in the given colour otherwise. -/
def pill (isStyled : Bool) (color : Color) (label : String) (count : Nat) : String :=
  let style := if count = 0 then Style.faint else { Style.strong with color := some color }
  label ++ ": " ++ style.paint isStyled (toString count)

def countsLine (r : Report) (isStyled : Bool) : String :=
  String.intercalate "  "
    ["Files scanned: " ++ Style.strong.paint isStyled (toString r.filesScanned),
      pill isStyled .green "Changed" r.fixed.length,
      pill isStyled .green "Methods" r.methodsChanged,
      pill isStyled .green "Imports removed" r.importsRemoved,
      pill isStyled .red "Failures" r.failures.length]

/-! ## The whole -/

/-- The text at the end of a run. -/
def summary (r : Report) (isQuiet isStyled : Bool) : String :=
  if isQuiet then
    linesOf ["", "[SUMMARY] " ++ toString r.methodsChanged ++ " methods in " ++
      toString r.fixed.length ++ " files, " ++ toString r.failures.length ++ " skipped"]
  else
    let nothing :=
      if r.fixed.isEmpty && r.failures.isEmpty then
        [(Style.colored .green).paint isStyled ("✓ No method throws " ++ r.recipe.exceptionType ++
          " matching " ++ r.recipe.methodPattern)]
      else []
    linesOf (banner isStyled ++ nothing ++ changesTable r isStyled ++ failuresTable r isStyled ++
      ["", r.countsLine isStyled, ""])

end Report

/-- The line that tells which directories are passed over on top of the defaults. -/
def exclusionsText (isStyled : Bool) (folders : List String) : String :=
  if folders.isEmpty then
    linesOf [(Style.colored .green).paint isStyled "[OK] Using default exclusions only:" ++ " " ++
      Style.faint.paint isStyled (String.intercalate ", " defaultExcludes)]
  else
    linesOf [{ Style.strong with color := some .yellow }.paint isStyled "Excluding:" ++ " " ++
      String.intercalate ", " folders]

end JavaThrows
