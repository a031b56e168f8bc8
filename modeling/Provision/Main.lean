import Provision.CommandLine.Run

/-! The program. -/
namespace Provision.Main

/-- A refusal by its number. Some operations give it with its sign changed. -/
def numbered (number : UInt32) (details : String) : Files.SystemFault :=
  match min number (0 - number) with
  | 2 => .notFound
  | 17 => .alreadyExists
  | 20 => .notDirectory
  | 21 => .isDirectory
  | 36 => .nameTooLong
  | 40 => .tooManyLinks
  | n => .unexplained (details ++ " (os error " ++ toString n ++ ")")

/-- What the machine answers when it refuses. -/
def systemFault : IO.Error → Files.SystemFault
  | .alreadyExists _ n d | .inappropriateType _ n d | .noSuchThing _ n d
  | .invalidArgument _ n d | .permissionDenied _ n d | .resourceExhausted _ n d
  | .noFileOrDirectory _ n d | .interrupted _ n d
  | .otherError n d | .resourceBusy n d | .resourceVanished n d | .unsupportedOperation n d
  | .hardwareFault n d | .unsatisfiedConstraints n d | .illegalOperation n d
  | .protocolError n d | .timeExpired n d => numbered n d
  | .unexpectedEof => .unexplained "unexpected end of file"
  | .userError text => .unexplained text

/-- An operation on a path. -/
def onPath {α : Type} (path : String) (x : IO α) : ExceptT Files.SystemFault IO α := do
  if path.toList.any (· = '\x00') then throw .nulInName
  if path.isEmpty then throw .notFound
  match ← (x.toBaseIO : BaseIO (Except IO.Error α)) with
  | .ok a => return a
  | .error e => throw (systemFault e)

def kindOf (metadata : IO.FS.Metadata) : Files.Kind :=
  match metadata.type with
  | .file => .file metadata.byteSize.toNat
  | .dir => .directory
  | .symlink => .link
  | .other => .special

/-- A path as an entry of the current directory. -/
def entryAt (path : String) : IO.FS.DirEntry := { root := ".", fileName := path }

def write (mode : IO.FS.Mode) (path text : String) : ExceptT Files.SystemFault IO Unit :=
  onPath path do
    let handle ← IO.FS.Handle.mk path mode
    handle.putStr text
    handle.flush

def files : FileSystem IO where
  kind path := onPath path (return kindOf (← (entryAt path).path.symlinkMetadata))
  destination path := onPath path (return kindOf (← (entryAt path).path.metadata))
  read path := onPath path (IO.FS.readBinFile path)
  write := write .write
  append := write .append
  createDirectory path := onPath path (IO.FS.createDir path)

def console : CommandLine.Console IO where
  print := IO.print
  report message := IO.eprint message.text
  milliseconds := IO.monoMsNow

end Provision.Main

def main (arguments : List String) : IO UInt32 := do
  let searchPath ← IO.getEnv "PATH"
  let code ← Provision.CommandLine.run
    { files := Provision.Main.files, console := Provision.Main.console, searchPath } arguments
  return code.number.toUInt32
