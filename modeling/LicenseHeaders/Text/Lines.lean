namespace LicenseHeaders

abbrev Text := List Char

namespace Text

/-- The lines of a text, without their line ends. -/
def lines : Text → List Text
  | [] => []
  | '\n' :: rest => [] :: lines rest
  | '\r' :: '\n' :: rest => [] :: lines rest
  | c :: rest =>
    match lines rest with
    | [] => [[c]]
    | line :: others => (c :: line) :: others

def unlines (ls : List Text) : Text :=
  ls.flatMap (· ++ ['\n'])

def endsWithNewline (s : Text) : Bool :=
  s.getLast? == some '\n'

@[simp] theorem lines_nil : lines [] = [] := rfl

@[simp] theorem unlines_nil : unlines [] = [] := rfl

@[simp] theorem unlines_cons (l : Text) (ls : List Text) :
    unlines (l :: ls) = l ++ '\n' :: unlines ls := by
  simp [unlines]

@[simp] theorem unlines_append (as bs : List Text) : unlines (as ++ bs) = unlines as ++ unlines bs := by
  simp [unlines]

/-- The lines of a text, each with its line end. Only the last may lack one. -/
def terminatedLines : Text → List Text
  | [] => []
  | '\r' :: '\n' :: rest => ['\r', '\n'] :: terminatedLines rest
  | '\r' :: rest => ['\r'] :: terminatedLines rest
  | '\n' :: rest => ['\n'] :: terminatedLines rest
  | c :: rest =>
    match terminatedLines rest with
    | [] => [[c]]
    | line :: others => (c :: line) :: others

theorem flatten_terminatedLines (s : Text) : (terminatedLines s).flatten = s := by
  fun_induction terminatedLines s <;> simp_all

def isTerminated (line : Text) : Bool :=
  line.getLast? == some '\n' || line.getLast? == some '\r'

def encode (s : Text) : ByteArray :=
  (String.ofList s).toByteArray

def decode? (bytes : ByteArray) : Option Text :=
  bytes.utf8Decode?.map Array.toList

@[simp] theorem decode?_encode (s : Text) : decode? s.encode = some s := by
  simp [decode?, encode]

def bytes (s : Text) : List UInt8 :=
  s.flatMap String.utf8EncodeChar

end Text

end LicenseHeaders
