/-!
# What can go wrong with a file
-/

namespace EventScript.Disk

/-- The reason why a file or directory could not be used. -/
inductive Fault where
  /-- Nothing is there. -/
  | missing
  /-- Something is there already. -/
  | occupied
  /-- A directory was needed on the way. -/
  | notDirectory
  /-- A file was needed and a directory is there. -/
  | isDirectory
  /-- A path or one of its names has too many bytes. -/
  | tooLong
  /-- A path holds the character zero. -/
  | zeroInName
  /-- The content is not UTF-8. -/
  | notText
  /-- The content of an archive member does not match its checksum. -/
  | badChecksum
  /-- The compressed content of an archive member means nothing. -/
  | badStream
  /-- The compressed content of an archive member ends too soon. -/
  | shortStream
  deriving DecidableEq, Repr

/-- The wording of a fault. -/
def Fault.message : Fault → String
  | missing => "No such file or directory (os error 2)"
  | occupied => "File exists (os error 17)"
  | notDirectory => "Not a directory (os error 20)"
  | isDirectory => "Is a directory (os error 21)"
  | tooLong => "File name too long (os error 36)"
  | zeroInName => "file name contained an unexpected NUL byte"
  | notText => "stream did not contain valid UTF-8"
  | badChecksum => "Invalid checksum"
  | badStream => "corrupt deflate stream"
  | shortStream => "incomplete deflate stream"

end EventScript.Disk
