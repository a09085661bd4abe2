import Monorepo.Violation

/-!
# Outputs of a task

Outputs are the files and images that a task leaves behind and where they are published. Templates
hold entries whose every field is blank; `Output.prune` drops them, since a blank entry declares
nothing. An upload is set as a whole or not at all.
-/

namespace Monorepo

/-- A local destination of a file. -/
structure FileCopy where
  path : String := ""
  deriving DecidableEq, Repr, Inhabited

/-- An S3 destination of a file. -/
structure S3Upload where
  bucket : String := ""
  destFile : String := ""
  deriving DecidableEq, Repr, Inhabited

/-- A file and where it is published. -/
structure FileOutput where
  path : String := ""
  fileCopy : FileCopy := {}
  s3Upload : S3Upload := {}
  deriving DecidableEq, Repr, Inhabited

/-- A registry destination of an image. -/
structure RegistryUpload where
  repository : String := ""
  tag : String := ""
  deriving DecidableEq, Repr, Inhabited

/-- An image, known by the file that holds its id, and where it is published. -/
structure DockerImage where
  idfile : String := ""
  registryUpload : RegistryUpload := {}
  deriving DecidableEq, Repr, Inhabited

/-- The outputs of a task. -/
structure Output where
  dockerImages : List DockerImage := []
  files : List FileOutput := []
  deriving DecidableEq, Repr, Inhabited

/-- Holds a field to being set. -/
def Check.isSet (field value : String) : Check :=
  Check.require (value ≠ "") (.ofField field "can not be unset or empty")

namespace FileCopy

def isEmpty (c : FileCopy) : Bool :=
  c.path = ""

end FileCopy

namespace S3Upload

def isEmpty (u : S3Upload) : Bool :=
  u.bucket = "" && u.destFile = ""

def validate (u : S3Upload) : Check :=
  if u.isEmpty then .ok ()
  else do
    Check.isSet "bucket" u.bucket
    Check.isSet "dest_file" u.destFile

end S3Upload

namespace FileOutput

def isEmpty (f : FileOutput) : Bool :=
  f.path = "" && f.fileCopy.isEmpty && f.s3Upload.isEmpty

def validate (f : FileOutput) : Check := do
  Check.isSet "path" f.path
  Check.within "S3Upload" f.s3Upload.validate

end FileOutput

namespace RegistryUpload

def isEmpty (u : RegistryUpload) : Bool :=
  u.repository = "" && u.tag = ""

def validate (u : RegistryUpload) : Check :=
  if u.isEmpty then .ok ()
  else do
    Check.isSet "repository" u.repository
    Check.isSet "tag" u.tag

end RegistryUpload

namespace DockerImage

def isEmpty (d : DockerImage) : Bool :=
  d.idfile = "" && d.registryUpload.isEmpty

def validate (d : DockerImage) : Check := do
  Check.isSet "idfile" d.idfile
  Check.within "RegistryUpload" d.registryUpload.validate

end DockerImage

namespace Output

def isEmpty (o : Output) : Bool :=
  o.dockerImages.isEmpty && o.files.isEmpty

/-- Drops the blank entries. -/
def prune (o : Output) : Output :=
  ⟨o.dockerImages.filter (!·.isEmpty), o.files.filter (!·.isEmpty)⟩

/-- Files are looked at before images. -/
def validate (o : Output) : Check := do
  Check.each (fun f => Check.within "File" f.validate) o.files
  Check.each (fun d => Check.within "DockerImage" d.validate) o.dockerImages

/-- List by list, the entries of both in order. -/
def append (o p : Output) : Output :=
  ⟨o.dockerImages ++ p.dockerImages, o.files ++ p.files⟩

instance : Append Output := ⟨append⟩

end Output

end Monorepo
