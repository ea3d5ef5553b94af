import ProductLock.Text.Lines

namespace ProductLock.Text

/-- The text that the bytes of a file hold, its breaks unified; none for bytes that are not
UTF-8. -/
def decode (bytes : ByteArray) : Option String :=
  (String.fromUTF8? bytes).map fun s => String.ofList (unifyBreaks s.toList)

end ProductLock.Text
