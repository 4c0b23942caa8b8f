import LinkedViews.Source

/-!
Files on disk and the documents in them.

A file has a name of any bytes. The disk resolves the name of a file that is there to the one
absolute name of the file, behind all links, and that is the path of its document. Where there
is no file, the document has the name as it is spelled.
-/

namespace LinkedViews

structure FileName where
  bytes : List UInt8
  deriving DecidableEq, Repr

namespace FileName

def ofText (s : String) : FileName := ⟨Text.Utf8.encode s.toList⟩

/-- The name as a text. What is no text in it is replaced. -/
def text (f : FileName) : String := String.ofList (Text.Utf8.decode f.bytes)

end FileName

structure Disk where
  /-- The absolute name of a file, if the file is there. -/
  resolve? : FileName → Option FileName

/-- A disk without files. -/
def Disk.blank : Disk := ⟨fun _ => none⟩

namespace Source

/-- The document in a file. -/
def ofFile (disk : Disk) (file : FileName) : Source :=
  ofPath ((disk.resolve? file).getD file).text

/-- The name of the file that a document is in. -/
def file (s : Source) : FileName := .ofText s.path

example : (ofFile .blank (.ofText "/no/such dir/a.c")).uri = "file:///no/such%20dir/a.c" := by
  decide
example : (ofFile .blank ⟨[0x2F, 0xE9]⟩).path = "/\uFFFD" := by decide

end Source

end LinkedViews
