import StackingPlanner.Description.Reading
import StackingPlanner.Document.Reader
import StackingPlanner.Document.Writer
import StackingPlanner.File.Store

/-!
# Description files

A description file holds a document in UTF-8.  A file that cannot be read or
that holds no document is reported with its path; bytes that are no text at
all and documents that are out of bounds are misuses.
-/

namespace StackingPlanner

namespace Description

def textDocument (path : Path) (text : List Char) : Except Fault Value :=
  match Value.read text with
  | .ok value => .ok value
  | .error (.malformed e) =>
      .error (Failure.unreadable path.text (.notDocument (ReadError.message text e)))
  | .error (.longNumber digits) => .error (Misuse.longNumber digits)
  | .error .tooDeep => .error Misuse.tooDeep

def fileDocument (path : Path) (content : FileContent) : Except Fault Value :=
  match path.check with
  | .error misuse => .error misuse
  | .ok _ =>
      match content with
      | .error cause => .error (Failure.unreadable path.text cause)
      | .ok bytes =>
          match Text.decodeUtf8 bytes with
          | .error e => .error (Misuse.undecodable e)
          | .ok cs => textDocument path (Text.normalLines cs)

/-- Read a description from a file, whose name it takes if it has none. -/
def ofFile (path : Path) (content : FileContent) : Except Fault Description :=
  match fileDocument path content with
  | .error fault => .error fault
  | .ok (.object entries) => Fault.lift (ofValue (.object entries) (.text path.stem))
  | .ok _ => .error (Failure.notObject path.text)

def fileText (d : Description) : String := d.toValue.write

end Description

end StackingPlanner
