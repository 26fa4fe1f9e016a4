/-
  CovProcess.Startup — the records every part of the library passes around
  (`include/mozart++/mpp_system/process.hpp`: `redirect_info`, `process_startup`,
  `process_info`; `include/mozart++/mpp_foundation/io.hpp`: `fd_type`, `FD_INVALID`).

  A descriptor is the C `int` it is on Unix. A byte string is a `String`: the code
  only compares bytes with ASCII characters and copies the rest. The environment map
  is an `std::unordered_map`, so its order means nothing: a `Finmap`.
-/

import Mathlib.Data.Finmap

namespace CovProcess

abbrev Fd := Int

def FD_INVALID : Fd := -1

structure RedirectInfo where
  target : Fd := FD_INVALID
  deriving DecidableEq, Repr

def RedirectInfo.redirected (r : RedirectInfo) : Bool := r.target != FD_INVALID

abbrev EnvMap := Finmap fun _ : String => String

/-- What ends a C string. -/
def NUL : Char := '\x00'

structure ProcessStartup where
  cmdline : List String := []
  shellProgram : Option String := none
  env : EnvMap := ∅
  /-- The child inherits the parent's environment, with `env` applied as overrides. -/
  inheritEnv : Bool := true
  cwd : String := "."
  stdin : RedirectInfo := {}
  stdout : RedirectInfo := {}
  stderr : RedirectInfo := {}
  mergeOutputs : Bool := false
  inheritStdin : Bool := false
  inheritStdout : Bool := false
  inheritStderr : Bool := false
  shellMode : Bool := false

structure ProcessInfo where
  /-- The thread handle on Windows; never set on Unix. -/
  tid : Fd := FD_INVALID
  pid : Fd := FD_INVALID
  stdin : Fd := FD_INVALID
  stdout : Fd := FD_INVALID
  stderr : Fd := FD_INVALID
  stdinClosed : Bool := false
  /-- 0 means "not recorded". -/
  startTime : Nat := 0
  deriving DecidableEq, Repr

end CovProcess
