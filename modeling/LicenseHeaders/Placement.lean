import LicenseHeaders.Comment
import LicenseHeaders.Extension
import LicenseHeaders.Header

namespace LicenseHeaders

inductive Placement
  | replaced
  | belowTag
  | atTop
deriving DecidableEq, Repr

def Placement.isInsertion : Placement → Bool
  | .replaced => false
  | .belowTag | .atTop => true

structure Placed where
  content : Text
  placement : Placement
deriving DecidableEq

structure HeaderPolicy where
  header : Header
  attribution : Attribution
  openTag : Text
  search : HeaderSearch

namespace HeaderPolicy

def isLicensed (p : HeaderPolicy) (content : Text) : Bool :=
  p.attribution.found (Text.lines content)

/-- Ends a new text the way the old one ends: if its last line is one of the old text and the old text has no
newline at its end, the last newline is left out again. -/
def settleEnd (old : Text) (endsWithOld : Bool) (written : Text) : Text :=
  if endsWithOld && !Text.endsWithNewline old then written.dropLast else written

def assemble (header : Header) (old : Text) (before after : List Text) : Text :=
  settleEnd old (!after.isEmpty) (Text.unlines before ++ header.block ++ Text.unlines after)

def withBlockReplaced (p : HeaderPolicy) (content : Text) : Text :=
  let ls := Text.lines content
  let block := HeaderBlock.find p.search ls
  assemble p.header content (block.before ls) (block.after ls)

/-- The header goes below the open tag, after an empty line; without an open tag, to the top. -/
def withHeaderBelowTag (p : HeaderPolicy) (content : Text) : Text :=
  let ls := Text.lines content
  let kept := ((findOpenTag p.openTag ls).map (· + 1)).getD 0
  assemble p.header content (ls.take kept ++ [[]]) (ls.drop kept)

/-- The header goes to the top and an empty line behind it; the text itself stays as it is. -/
def withHeaderOnTop (p : HeaderPolicy) (content : Text) : Text :=
  p.header.block ++ '\n' :: content

/-- A licensed text gets its block replaced; in any other the dialect decides where the header goes. -/
def placeBy (p : HeaderPolicy) (detector : Detector) (dialect : Dialect) (content : Text) : Placed :=
  if detector (Text.lines content) then ⟨p.withBlockReplaced content, .replaced⟩
  else
    match dialect with
    | .tagged => ⟨p.withHeaderBelowTag content, .belowTag⟩
    | .native => ⟨p.withHeaderOnTop content, .atTop⟩

def place (p : HeaderPolicy) (dialect : Dialect) (content : Text) : Placed :=
  p.placeBy p.attribution.found dialect content

end HeaderPolicy

end LicenseHeaders
