import NexusWorkflow.Lib.KeyedMap
import NexusWorkflow.Lib.Machines
import NexusWorkflow.Model.Types

/-!
# Receipts

The upload of a receipt to an expense report (`nexus-erp/src/app/api/expenses/[id]/receipts`), past
the checks of the session and of the report, with the column `receiptPath` of the report and the
directory of the receipts.  An upload waits for one call at a time; between two calls others may
come.
-/

namespace NexusWorkflow.Receipts

open Machine (Outcome)

/-! ## State -/

/-- `MIME_TO_EXT`. -/
inductive Ext where
  | jpg | png | webp | pdf
  deriving DecidableEq

/-- The name of a file, of the id of the report, the clock and the type. -/
structure Filename where
  now : Nat
  ext : Ext
  deriving DecidableEq

inductive Content where
  | whole (buffer : String)
  /-- What a write leaves that has failed on the way. -/
  | torn
  deriving DecidableEq

structure File where
  name : Filename
  content : Content
  deriving DecidableEq

/-- What an upload waits for. -/
inductive Phase where
  /-- `findUnique`. -/
  | reading
  /-- The body; the old path has been read. -/
  | preparing (old : Option Filename)
  | makingDir (old : Option Filename) (filename : Filename)
  | writing (old : Option Filename) (filename : Filename)
  /-- The transaction. -/
  | committing (old : Option Filename) (filename : Filename)
  /-- The old file is deleted. -/
  | discarding (old : Filename)
  /-- The new file is deleted, after an error. -/
  | removing (filename : Filename)
  | done
  | failed
  deriving DecidableEq

structure Upload where
  buffer : String
  ext : Ext
  phase : Phase := .reading
  deriving DecidableEq

structure Archive where
  receiptPath : Option Filename := none
  files : KeyedMap File.name := ∅
  now : Nat := 0
  uploads : List Upload := []
  /-- Not in the source: the upload that has set the path. -/
  setBy : Option Nat := none

/-! ## Steps -/

namespace Archive

variable (s : Archive)

def goOn (c : Nat) (upload : Upload) (phase : Phase) : Archive :=
  { s with uploads := s.uploads.set c { upload with phase } }

def writeFile (filename : Filename) (content : Content) : Archive :=
  { s with files := s.files.set ⟨filename, content⟩ }

def unlink (filename : Filename) : Archive := { s with files := s.files.erase filename }

/-- The transaction is committed. -/
def commit (c : Nat) (filename : Filename) : Archive :=
  { s with receiptPath := some filename, setBy := some c }

/-- The call that the upload waits for is over. -/
def go (c : Nat) (upload : Upload) (outcome : Outcome) : Option Archive :=
  match upload.phase, outcome with
  | .reading, .ok => some (s.goOn c upload (.preparing s.receiptPath))
  | .preparing old, .ok => some (s.goOn c upload (.makingDir old ⟨s.now, upload.ext⟩))
  | .makingDir old filename, .ok => some (s.goOn c upload (.writing old filename))
  | .writing old filename, .ok =>
    some ((s.writeFile filename (.whole upload.buffer)).goOn c upload (.committing old filename))
  | .writing _ filename, .lost => some ((s.writeFile filename .torn).goOn c upload .failed)
  | .committing (some old) filename, .ok =>
    some ((s.commit c filename).goOn c upload (.discarding old))
  | .committing none filename, .ok => some ((s.commit c filename).goOn c upload .done)
  | .committing _ filename, .lost => some ((s.commit c filename).goOn c upload (.removing filename))
  | .committing _ filename, .failed => some (s.goOn c upload (.removing filename))
  -- the error is caught
  | .discarding _, .failed => some (s.goOn c upload .done)
  | .discarding old, _ => some ((s.unlink old).goOn c upload .done)
  | .removing _, .failed => some (s.goOn c upload .failed)
  | .removing filename, _ => some ((s.unlink filename).goOn c upload .failed)
  | .done, _ | .failed, _ => none
  | _, _ => some (s.goOn c upload .failed)

end Archive

inductive Happening where
  /-- A request comes in. -/
  | upload (buffer : String) (ext : Ext)
  /-- The call that the `c`-th upload waits for is over. -/
  | go (c : Nat) (outcome : Outcome)
  /-- `Date.now()` changes. -/
  | clock (now : Nat)

def Archive.step (s : Archive) : Happening → Option Archive
  | .upload buffer ext => some { s with uploads := s.uploads ++ [{ buffer, ext }] }
  | .go c outcome => s.uploads[c]?.bind fun upload => s.go c upload outcome
  | .clock now => some { s with now }

end NexusWorkflow.Receipts
