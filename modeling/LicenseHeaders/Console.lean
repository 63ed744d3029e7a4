import LicenseHeaders.Report

namespace LicenseHeaders

inductive Verbosity
  | normal
  | quiet
  | verbose
deriving DecidableEq, Repr

inductive ColorChoice
  | auto
  | never
  | always
deriving DecidableEq, Repr

namespace ColorChoice

def name : ColorChoice → String
  | .auto => "auto"
  | .never => "never"
  | .always => "always"

def all : List ColorChoice :=
  [.auto, .never, .always]

def resolve (c : ColorChoice) (detected : Bool) : Bool :=
  match c with
  | .auto => detected
  | .never => false
  | .always => true

end ColorChoice

inductive Tint
  | red
  | green
  | yellow
  | cyan
  | dimmed
deriving DecidableEq, Repr

namespace Tint

def escape (code : List Char) : Text :=
  '\x1b' :: '[' :: code ++ ['m']

def codes : Tint → Text × Text
  | .red => (escape ['3', '1'], escape ['3', '9'])
  | .green => (escape ['3', '2'], escape ['3', '9'])
  | .yellow => (escape ['3', '3'], escape ['3', '9'])
  | .cyan => (escape ['3', '6'], escape ['3', '9'])
  | .dimmed => (escape ['2'], escape ['0'])

def paint (t : Tint) (colored : Bool) (s : Text) : Text :=
  if colored then t.codes.1 ++ s ++ t.codes.2 else s

end Tint

structure Console where
  verbosity : Verbosity
  colored : Bool
deriving DecidableEq, Repr

namespace Console

def unlessQuiet (c : Console) (ls : List Text) : List Text :=
  if c.verbosity = .quiet then [] else ls

def paint (c : Console) (t : Tint) (s : Text) : Text :=
  t.paint c.colored s

def countText (n : Nat) : Text :=
  Text.ofNat n ++ (if n = 1 then " file" else " files").toList

def start (c : Console) (count : Nat) (dryRun : Bool) : List Text :=
  c.unlessQuiet
    [(if dryRun then "Checking " else "Processing ").toList ++ countText count ++ "...".toList]

def blankLine (c : Console) : List Text :=
  c.unlessQuiet [[]]

/-- The most files that a list shows unless the mode is verbose. -/
def listLimit : Nat := 20

def entry (c : Console) (root : FilePath) (withDetail : Bool) (r : FileReport) : Text :=
  let shown := FilePath.shownFrom root r.path
  match r.detail with
  | some detail =>
    if withDetail then "  ".toList ++ shown ++ " (".toList ++ c.paint .dimmed detail ++ [')']
    else "  ".toList ++ shown
  | none => "  ".toList ++ shown

def list (c : Console) (heading : Text) (root : FilePath) (withDetail : Bool) (files : List FileReport) :
    List Text :=
  if files.isEmpty then []
  else
    match c.verbosity with
    | .quiet => files.map fun r => FilePath.shownFrom root r.path
    | .verbose => heading :: files.map (c.entry root withDetail)
    | .normal =>
      heading :: (files.take listLimit).map (c.entry root withDetail) ++
        if files.length ≤ listLimit then []
        else ["  ... and ".toList ++ Text.ofNat (files.length - listLimit) ++
          " more (use -v to see all)".toList]

def heading (c : Console) (t : Tint) (symbol : Char) (done : String) (files : List FileReport) : Text :=
  c.paint t [symbol] ++ ' ' :: done.toList ++ ' ' :: countText files.length ++ [':']

def success : Char := '✓'

def failure : Char := '✗'

def updated : Char := '↻'

def replaced (c : Console) (root : FilePath) (dryRun : Bool) (files : List FileReport) : List Text :=
  let done := if dryRun then "Would replace header in" else "Replaced header in"
  c.list (c.heading .yellow updated done files) root false files

def inserted (c : Console) (root : FilePath) (dryRun : Bool) (files : List FileReport) : List Text :=
  let done := if dryRun then "Would insert header in" else "Inserted header in"
  c.list (c.heading .green success done files) root false files

def failed (c : Console) (root : FilePath) (files : List FileReport) : List Text :=
  c.list (c.heading .red failure "Failed to process" files) root true files

def allGood (c : Console) : List Text :=
  c.unlessQuiet [c.paint .green [success] ++ " All files carry the canonical header.".toList]

def summary (c : Console) (s : Summary) : List Text :=
  let figure (t : Tint) (n : Nat) (what : String) := c.paint t (Text.ofNat n) ++ what.toList
  let time :=
    if c.verbosity = .verbose then " (".toList ++ s.elapsed.shortText ++ "s)".toList else []
  c.unlessQuiet
    ["Summary: ".toList ++ figure .cyan s.replaced " replaced, " ++ figure .cyan s.inserted " inserted, " ++
      figure .cyan s.unchanged " unchanged, " ++
      figure (if 0 < s.failed then .red else .cyan) s.failed " failed, " ++
      figure .dimmed s.skipped " skipped" ++ time]

def remark (c : Console) (message : Text) : List Text :=
  c.unlessQuiet [c.paint .yellow message]

def checkHint : String := "Run without --check to write the canonical header."

/-- The lists of files, each set off by a blank line from the one in front, then the figures. -/
def results (c : Console) (root : FilePath) (dryRun : Bool) (reports : List FileReport) (s : Summary) :
    List Text :=
  let b := Breakdown.ofReports reports
  let gap (wanted : Bool) := if wanted then c.blankLine else []
  c.blankLine ++
    c.replaced root dryRun b.replaced ++
    gap (!b.inserted.isEmpty && !b.replaced.isEmpty) ++
    c.inserted root dryRun b.inserted ++
    (if !b.failed.isEmpty then gap b.hasChanges ++ c.failed root b.failed
      else if !b.hasChanges then c.allGood else []) ++
    c.blankLine ++ c.summary s ++
    if dryRun && b.hasChanges then c.blankLine ++ c.remark checkHint.toList else []

end Console

inductive Notice
  | note (message : String)
  | alert (message : String)
  | diff (text : Text)
deriving DecidableEq, Repr

namespace Notice

def paintChange (colored : Bool) (line : Text) : Text :=
  match line.head? with
  | some '+' => Tint.green.paint colored line
  | some '-' => Tint.red.paint colored line
  | _ => line

def text (verbosity : Verbosity) (colored : Bool) : Notice → Text
  | .note message => if verbosity = .verbose then message.toList ++ ['\n'] else []
  | .alert message => message.toList ++ ['\n']
  | .diff body => Text.unlines ((Text.lines body).map (paintChange colored))

end Notice

abbrev Variables := List (String × Text)

namespace ColorSupport

def isZero (s : Text) : Bool :=
  let digits := if s.head? = some '+' then s.tail else s
  !digits.isEmpty && digits.all (· = '0')

/-- Colours asked for by a variable, whatever the stream. -/
def forced (v : Variables) : Bool :=
  match v.lookup "FORCE_COLOR", v.lookup "CLICOLOR_FORCE" with
  | some s, _ => s ≠ "false".toList && !isZero s
  | none, some s => s ≠ ['0']
  | none, none => false

def refused (v : Variables) : Bool :=
  ((v.lookup "NO_COLOR").any (· ≠ ['0'])) || v.lookup "TERM" == some "dumb".toList

def colorTerminals : List String :=
  ["screen", "xterm", "vt100", "vt220", "rxvt", "color", "ansi", "cygwin", "linux", "256", "direct", "truecolor"]

def capable (v : Variables) : Bool :=
  (v.lookup "COLORTERM").isSome ||
    (v.lookup "TERM").any (fun s => colorTerminals.any fun t => s.contains t.toList) ||
    (v.lookup "TERM_PROGRAM").any (fun s => s = "iTerm.app".toList || s = "Apple_Terminal".toList) ||
    (v.lookup "CLICOLOR").any (· ≠ ['0']) ||
    (v.lookup "CI").any (fun s => s = "true".toList || s = ['1'])

/-- A stream that is no terminal can be declared to be one. -/
def declared (v : Variables) : Bool :=
  (v.lookup "IGNORE_IS_TERMINAL").any (· ≠ ['0'])

def detect (v : Variables) (terminal : Bool) : Bool :=
  forced v || (!refused v && (terminal || declared v) && capable v)

end ColorSupport

end LicenseHeaders
