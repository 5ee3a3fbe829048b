/-!
Reasons for which the file system refuses an operation. They are those that lie in the tree and in the paths. Everything
may be read and changed by the program, and the device does what it is told: a refusal for want of permission, and a
write, a flush or a change of mode that fails on an open file, do not occur here.
-/

namespace SourceBundle

inductive Fault where
  | missing
  | notDirectory
  | isDirectory
  | occupied
  | busy
  | nameTooLong
  | tooManyLinks
  | nulInPath
  | notText
  deriving DecidableEq, Repr

def Fault.message : Fault → String
  | missing => "No such file or directory (os error 2)"
  | notDirectory => "Not a directory (os error 20)"
  | isDirectory => "Is a directory (os error 21)"
  | occupied => "File exists (os error 17)"
  | busy => "Device or resource busy (os error 16)"
  | nameTooLong => "File name too long (os error 36)"
  | tooManyLinks => "Too many levels of symbolic links (os error 40)"
  | nulInPath => "file name contained an unexpected NUL byte"
  | notText => "stream did not contain valid UTF-8"

end SourceBundle
