import FlashImage.CommandLine.Narration
import FlashImage.CommandLine.Options
import FlashImage.CommandLine.Session
import FlashImage.Report.Forms
import FlashImage.Report.Listing

/-!
# Commands on a single file

A register script is turned into its blob, which is put in a file of its own.  A finished
file is decoded and shown.

* `ScriptOptions.run` turns a script into its blob;
* `inspectFile` shows a finished file.
-/

namespace FlashImage.CommandLine

def specialRecords (lines : List Script.Line) : Nat :=
  lines.countP fun l =>
    match l.record with
    | .special .. => true
    | .row _ => false

namespace ScriptOptions

/-- Writes a blob to a staged file. -/
def build (host : Host) (o : ScriptOptions) (blob : Bytes) : Run (Image × Unit) := do
  let medium ← Run.attempt (.blob o.outfile) do (← host.medium.write 0 blob).flush
  return (medium.image, ())

/-- What is reported of a script and its blob.  The paths are part of it. -/
def toJson (o : ScriptOptions) (lines : List Script.Line) (blob : Bytes) :
    Except UnwritablePath Json := do
  let special := specialRecords lines
  .ok (.object
    [("input", .string (← o.input.written)), ("output", .string (← o.outfile.written)),
     ("rows", .number (lines.length - special)), ("special_records", .number special),
     ("size", .number blob.length)])

/-- Puts the blob of the script that the options name in the place of its target. -/
def write (setup : Setup) (o : ScriptOptions) : Run (List Script.Line × Bytes) := do
  let lines ← Run.attempt .script (Script.ofFile (← Run.files) o.input)
  Run.note (Narration.script lines)
  let blob ← Run.attempt (.transcoding o.input) (Script.blob lines)
  Run.stage setup o.outfile (o.build setup.toHost blob)
  return (lines, blob)

def run (setup : Setup) (o : ScriptOptions) : Run Unit := do
  let (lines, blob) ← o.write setup
  let special := specialRecords lines
  Run.report setup (o.toJson lines blob)
    ("Wrote " ++ o.outfile.display ++ " (" ++ toString (lines.length - special) ++ " rows, " ++
      toString special ++ " special records, " ++ toString blob.length ++ " bytes)")

end ScriptOptions

/-- Decodes the file at a path and prints what is in it. -/
def inspectFile (setup : Setup) (path : NativeText) : Run Unit := do
  let image ← Run.attempt (.reading path) ((← Run.files).readImage path)
  let inspection ← Run.attempt (.decoding path) (Inspect.inspect setup.digest image)
  if setup.json then Run.print [inspection.toJson.render 0]
  else Run.print (Listing.ofInspection path inspection)

end FlashImage.CommandLine
