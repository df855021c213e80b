import TradeRules.Command.Run

/-!
# The program

Reads the command line, lets the command read files from disk, and prints what it leaves behind.
-/

namespace TradeRules

/-- The number of an error of the operating system, which may come negated. -/
def errorNumber (code : UInt32) : Nat := min code.toNat (2 ^ 32 - code.toNat)

/-- The reason for an error of the operating system. -/
def readFault (e : IO.Error) : ReadFault :=
  match e with
  | .noFileOrDirectory .. => .notFound
  | .inappropriateType _ code _ => if errorNumber code = 20 then .notDirectory else .isDirectory
  | .invalidArgument _ code _ => if errorNumber code = 36 then .nameTooLong else .zeroInPath
  | e => .other (toString e)

/-- Reads a file from disk. -/
def readDisk : FileReader IO := fun path => do
  match ← (IO.FS.readBinFile path).toBaseIO with
  | .ok bytes => return .ok bytes.toList
  | .error e => return .error (readFault e)

end TradeRules

open TradeRules in
/-- Runs the program. -/
def main (arguments : List String) : IO UInt32 := do
  match CommandLine.read arguments with
  | .error stop => return UInt32.ofNat stop.exitCode
  | .ok command =>
    let ended ← command.run readDisk
    IO.print ended.out
    IO.eprint ended.err
    return UInt32.ofNat ended.exitCode
