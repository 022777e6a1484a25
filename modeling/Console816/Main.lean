import Console816.Session.Report

namespace Console816

-- The system's own words for a failure, and its number.
private def failureReason : IO.Error → String
  | .noFileOrDirectory _ code details | .permissionDenied _ code details
  | .inappropriateType _ code details | .alreadyExists _ code details
  | .invalidArgument _ code details | .resourceExhausted _ code details
  | .noSuchThing _ code details | .interrupted _ code details | .otherError code details
  | .resourceBusy code details | .resourceVanished code details
  | .unsupportedOperation code details | .hardwareFault code details
  | .unsatisfiedConstraints code details | .illegalOperation code details
  | .protocolError code details | .timeExpired code details =>
    details ++ " (os error " ++ toString code ++ ")"
  | .unexpectedEof => "unexpected end of file"
  | .userError details => details

private def explained {α : Type} (action : IO α) : IO (Except String α) := do
  match ← action.toBaseIO with
  | .ok value => return .ok value
  | .error error => return .error (failureReason error)

private def diskFiles : Files IO where
  read path := explained (IO.FS.withFile path .read fun handle => handle.readBinToEnd)
  write path data := explained (IO.FS.writeBinFile path data)

end Console816

open Console816 in
-- Runs an image without a screen. The image is named by ROM_PATH or by the first argument.
def main (args : List String) : IO UInt32 := do
  let environment : Environment := {
    romPath := ← IO.getEnv "ROM_PATH"
    argument := args.head?
    steps := ← IO.getEnv "SNESPLAY_STEPS"
    savePath := ← IO.getEnv "SNESPLAY_SAVE_STATE"
    trace := ← IO.getEnv "SNESPLAY_TRACE" }
  let (result, journal) ← Session.perform diskFiles environment { level := some .info }
  for line in journal.lines do
    IO.println line
  match result with
  | .ok _ => return 0
  | .error error =>
    IO.eprintln error.report
    return 1
