import FlashImage.Bytes.Native
import FlashImage.Bytes.Utf8
import FlashImage.Bytes.Word
import FlashImage.Camera.Builder
import FlashImage.Camera.CommandId
import FlashImage.Camera.CommandTable
import FlashImage.Camera.Error
import FlashImage.Camera.Source
import FlashImage.CommandLine.Arguments
import FlashImage.CommandLine.BuildCamera
import FlashImage.CommandLine.BuildRoot
import FlashImage.CommandLine.Failure
import FlashImage.CommandLine.Invocation
import FlashImage.CommandLine.Log
import FlashImage.CommandLine.Narration
import FlashImage.CommandLine.Options
import FlashImage.CommandLine.Run
import FlashImage.CommandLine.Session
import FlashImage.CommandLine.SingleFile
import FlashImage.CommandLine.Usage
import FlashImage.CommandLine.Value
import FlashImage.Digest.Sha256
import FlashImage.Error
import FlashImage.Files.Access
import FlashImage.Files.Changes
import FlashImage.Files.Error
import FlashImage.Files.Path
import FlashImage.Files.Staging
import FlashImage.Files.Tree
import FlashImage.Files.Update
import FlashImage.Image
import FlashImage.Inspect
import FlashImage.Layout.Builder
import FlashImage.Layout.Category
import FlashImage.Layout.Cursor
import FlashImage.Layout.DirectoryTable
import FlashImage.Layout.Error
import FlashImage.Main
import FlashImage.Manifest.Camera
import FlashImage.Manifest.Document
import FlashImage.Manifest.Error
import FlashImage.Manifest.Fields
import FlashImage.Manifest.Root
import FlashImage.Manifest.Substitution
import FlashImage.Medium
import FlashImage.Proofs.Camera.CommandNames
import FlashImage.Proofs.Camera.ContainerFile
import FlashImage.Proofs.Camera.Identifiers
import FlashImage.Proofs.Camera.Inspection
import FlashImage.Proofs.Camera.Interrupted
import FlashImage.Proofs.Camera.Packing
import FlashImage.Proofs.Camera.Queue
import FlashImage.Proofs.Codec
import FlashImage.Proofs.CommandLine.Builds
import FlashImage.Proofs.CommandLine.Outcome
import FlashImage.Proofs.CommandLine.Session
import FlashImage.Proofs.Decoding
import FlashImage.Proofs.Decoding.Fields
import FlashImage.Proofs.Decoding.FirstEntry
import FlashImage.Proofs.Decoding.Outcomes
import FlashImage.Proofs.Decoding.Padding
import FlashImage.Proofs.Decoding.Prefixes
import FlashImage.Proofs.Decoding.RoundTrip
import FlashImage.Proofs.Digits
import FlashImage.Proofs.Exact
import FlashImage.Proofs.Except
import FlashImage.Proofs.Files.Nodes
import FlashImage.Proofs.Files.Paths
import FlashImage.Proofs.Files.Staging
import FlashImage.Proofs.Image
import FlashImage.Proofs.Image.Contiguous
import FlashImage.Proofs.Image.Prefixes
import FlashImage.Proofs.Image.Shifted
import FlashImage.Proofs.Image.Words
import FlashImage.Proofs.Layout.Adding
import FlashImage.Proofs.Layout.Alignment
import FlashImage.Proofs.Layout.Allocation
import FlashImage.Proofs.Layout.Atomicity
import FlashImage.Proofs.Layout.Directory
import FlashImage.Proofs.Layout.Directory.Runs
import FlashImage.Proofs.Layout.Exact
import FlashImage.Proofs.Layout.Extent
import FlashImage.Proofs.Layout.Finish
import FlashImage.Proofs.Layout.Inspection
import FlashImage.Proofs.Layout.Interrupted
import FlashImage.Proofs.Layout.Relocation
import FlashImage.Proofs.Layout.RootFile
import FlashImage.Proofs.Layout.Start
import FlashImage.Proofs.Literal
import FlashImage.Proofs.Literal.Characters
import FlashImage.Proofs.Literal.Spelled
import FlashImage.Proofs.Manifest.Draft
import FlashImage.Proofs.Manifest.RoundTrip
import FlashImage.Proofs.Manifest.Substitution
import FlashImage.Proofs.Manifest.Template
import FlashImage.Proofs.Names
import FlashImage.Proofs.Script.Blob
import FlashImage.Proofs.Script.ByteLiterals
import FlashImage.Proofs.Script.Damaged
import FlashImage.Proofs.Script.Encoding
import FlashImage.Proofs.Script.Fields
import FlashImage.Proofs.Script.Groups
import FlashImage.Proofs.Script.Joining
import FlashImage.Proofs.Script.Lines
import FlashImage.Proofs.Script.Meaning
import FlashImage.Proofs.Script.Unambiguous
import FlashImage.Proofs.Settings.ControlField
import FlashImage.Proofs.Settings.Interfaces
import FlashImage.Proofs.Settings.LeftToRight
import FlashImage.Proofs.Settings.Repeated
import FlashImage.Proofs.Settings.Runs
import FlashImage.Proofs.Text
import FlashImage.Proofs.Text.Ends
import FlashImage.Proofs.Toml.Lines
import FlashImage.Proofs.Toml.Outline
import FlashImage.Proofs.Toml.Quoted
import FlashImage.Proofs.Toml.Values
import FlashImage.Proofs.Truncation
import FlashImage.Proofs.Utf8
import FlashImage.Proofs.Utf8.Ascii
import FlashImage.Proofs.Utf8.Native
import FlashImage.Record.CameraInfo
import FlashImage.Record.DirectoryEntry
import FlashImage.Record.Interface
import FlashImage.Record.RootHeader
import FlashImage.Report.Forms
import FlashImage.Report.Json
import FlashImage.Report.Listing
import FlashImage.Script.Blob
import FlashImage.Script.Field
import FlashImage.Script.File
import FlashImage.Script.Record
import FlashImage.Settings.Camera
import FlashImage.Settings.Items
import FlashImage.Settings.Root
import FlashImage.Text.Basic
import FlashImage.Text.Digits
import FlashImage.Text.Literal
import FlashImage.Toml.Codec
import FlashImage.Toml.DateTable
import FlashImage.Toml.DateTime
import FlashImage.Toml.Entries
import FlashImage.Toml.Number
import FlashImage.Toml.Quoted.Reading
import FlashImage.Toml.Quoted.Writing
import FlashImage.Toml.Reading
import FlashImage.Toml.Statement
import FlashImage.Toml.Value
import FlashImage.Toml.Writing
