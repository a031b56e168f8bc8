import Provision.CommandLine.Run
import Provision.Files.Disk

/-! Runs on a disk in memory.

What is printed and reported is collected. No time passes. -/
namespace Provision.CommandLine

structure Transcript where
  printed : String := ""
  reported : List Message := []
  deriving Inhabited

abbrev M := StateT Transcript Files.Disk.M

def recordingConsole : Console M where
  print text := modify fun t => { t with printed := t.printed ++ text }
  report message := modify fun t => { t with reported := t.reported ++ [message] }
  milliseconds := return 0

/-- The surroundings of a run in memory. -/
def inMemory (searchPath : Option String) : Surroundings M where
  files := Files.Disk.system.lifted
  console := recordingConsole
  searchPath

end Provision.CommandLine
