/-!
Why a file operation can fail.
-/

namespace Cookbook

inductive DiskFault
  | missing
  | alreadyThere
  | notAFolder
  | isAFolder
  | notAFile
  | nameTooLong
  | nulInPath
  | notText
  | notExecutable
  | notAProgram
deriving DecidableEq, Repr

def DiskFault.message : DiskFault → String
  | missing => "No such file or directory"
  | alreadyThere => "File exists"
  | notAFolder => "Not a directory"
  | isAFolder => "Is a directory"
  | notAFile => "the source path is neither a regular file nor a symlink to a regular file"
  | nameTooLong => "File name too long"
  | nulInPath => "file name contained an unexpected NUL byte"
  | notText => "stream did not contain valid UTF-8"
  | notExecutable => "Permission denied"
  | notAProgram => "Exec format error"

/-- The number by which the system knows the fault. Faults without one are found before the system is
asked. -/
def DiskFault.number? : DiskFault → Option Nat
  | missing => some 2
  | notAProgram => some 8
  | notExecutable => some 13
  | alreadyThere => some 17
  | notAFolder => some 20
  | isAFolder => some 21
  | nameTooLong => some 36
  | notAFile | nulInPath | notText => none

/-- The message with the fault's number. -/
def DiskFault.numbered (fault : DiskFault) : String :=
  match fault.number? with
  | some number => fault.message ++ " (os error " ++ toString number ++ ")"
  | none => fault.message

end Cookbook
