import LicenseHeaders.FileTree.Resolve

namespace LicenseHeaders.FileTree

def has (t : FileTree) (p : FilePath) : Bool :=
  (t.find p).toOption.isSome

def isFile (t : FileTree) (p : FilePath) : Bool :=
  match t.find p with
  | .ok (_, .file _) => true
  | _ => false

def locate? (t : FileTree) (p : FilePath) : Option Location :=
  (t.find p).toOption.map Prod.fst

def read (t : FileTree) (p : FilePath) : Except IoError ByteArray :=
  match t.find p with
  | .error e => .error e
  | .ok (_, .file bytes) => .ok bytes
  | .ok (_, .device _) => .ok .empty
  | .ok (_, .directory) | .ok (_, .link _) => .error .isDirectory

def readText (t : FileTree) (p : FilePath) : Except IoError Text :=
  match t.read p with
  | .error e => .error e
  | .ok bytes =>
    match Text.decode? bytes with
    | some s => .ok s
    | none => .error .notText

inductive Sink
  | file (loc : Location) (present : ByteArray)
  | device (d : Device)

def sinkAt (t : FileTree) (loc : Location) (present : ByteArray) : Except IoError Sink :=
  match t.refusal? loc with
  | some e => .error e
  | none => .ok (.file loc present)

@[simp] theorem sinkAt_set (t : FileTree) (loc : Location) (n : Node) : (t.set loc n).sinkAt = t.sinkAt := rfl

/-- Opens a path for writing. A free place will do for a new file. -/
def sink (t : FileTree) (p : FilePath) : Except IoError Sink :=
  match t.resolve p with
  | .error e => .error e
  | .ok (.free loc asDirectory) => if asDirectory then .error .isDirectory else t.sinkAt loc .empty
  | .ok (.occupied loc n asDirectory) =>
    if asDirectory then .error .isDirectory
    else
      match n with
      | .file bytes => t.sinkAt loc bytes
      | .device d => .ok (.device d)
      | .directory | .link _ => .error .isDirectory

/-- The tree once a sink holds the bytes and nothing else. -/
def fill (t : FileTree) (s : Sink) (bytes : ByteArray) : Except IoError FileTree :=
  match s with
  | .file loc _ => .ok (t.set loc (.file bytes))
  | .device .null => .ok t
  | .device .full => if bytes.isEmpty then .ok t else .error .noSpace

def extend (t : FileTree) (s : Sink) (bytes : ByteArray) : Except IoError FileTree :=
  match s with
  | .file _ present => t.fill s (present ++ bytes)
  | .device _ => t.fill s bytes

def write (t : FileTree) (p : FilePath) (bytes : ByteArray) : Except IoError FileTree :=
  (t.sink p).bind fun s => t.fill s bytes

def writeText (t : FileTree) (p : FilePath) (s : Text) : Except IoError FileTree :=
  t.write p s.encode

end LicenseHeaders.FileTree
