import MarkTidy.Text.Quoted
import MarkTidy.Yaml.Cursor

/-!
Why a command ends early. Failures fall into three groups: something is not there; the settings or
the surroundings do not allow to go on; and all others, which no command expects.
-/

namespace MarkTidy

open Text

inductive Failure where
  /-- A path that was asked for is not there. -/
  | pathNotFound (shown : Text)
  /-- A file that is to be opened is not there. -/
  | missingFile (path : Text)
  | isFolder
  | notFolder
  | tooManyLinks
  | nameTooLong
  /-- A path holds a character that no path can hold. -/
  | unusablePath
  | notText
  | malformedConfig (file : Text)
  | configNotTable
  /-- A scalar of a configuration file has no value, although the file is well formed. -/
  | unreadableScalar (fault : Yaml.Fault)
  | homeUnknown
  | circularLink (path : Text)
deriving DecidableEq, Repr

namespace Failure

inductive Group where
  | notFound
  | refused
  | unexpected
deriving DecidableEq, Repr

def group : Failure → Group
  | pathNotFound _ | missingFile _ => .notFound
  | malformedConfig _ | configNotTable | homeUnknown | circularLink _ => .refused
  | _ => .unexpected

/-- Whether the configuration is at fault. -/
def isConfig : Failure → Bool
  | malformedConfig _ | configNotTable => true
  | _ => false

/-- What is said of a failure. -/
def message : Failure → Text
  | pathNotFound shown => "Path not found: ".toList ++ shown
  | missingFile path => "[Errno 2] No such file or directory: ".toList ++ quoted path
  | isFolder => "Is a directory".toList
  | notFolder => "Not a directory".toList
  | tooManyLinks => "Too many levels of symbolic links".toList
  | nameTooLong => "File name too long".toList
  | unusablePath => "embedded null byte".toList
  | notText => "invalid UTF-8".toList
  | malformedConfig file => "Failed to parse ".toList ++ file ++ ": malformed text".toList
  | configNotTable => ".mylint.yml must contain a mapping at the root".toList
  | unreadableScalar _ => "unreadable scalar".toList
  | homeUnknown => "Could not determine home directory.".toList
  | circularLink path => "Symlink loop from ".toList ++ quoted path

end Failure

end MarkTidy
