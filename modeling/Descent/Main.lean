import Descent.CommandLine.Report

namespace Descent.CommandLine

def ReadFault.ofError : IO.Error → ReadFault
  | .noFileOrDirectory _ code details => .refused details code.toNat
  | .inappropriateType _ code details => .refused details code.toNat
  | .permissionDenied _ code details => .refused details code.toNat
  | .invalidArgument _ code details => .refused details code.toNat
  | .resourceExhausted _ code details => .refused details code.toNat
  | .hardwareFault code details => .refused details code.toNat
  | .otherError code details => .refused details code.toNat
  | error => .refused (toString error) 0

def readFile (path : String) : IO (Except ReadFault ByteArray) := do
  try
    return .ok (← (← IO.FS.Handle.mk path .read).readBinToEnd)
  catch error =>
    return .error (ReadFault.ofError error)

end Descent.CommandLine

def main (arguments : List String) : IO UInt32 := do
  let report ← Descent.CommandLine.respond Descent.CommandLine.readFile arguments
  (← IO.getStdout).putStr report.output
  (← IO.getStderr).putStr report.errors
  return UInt32.ofNat report.code
