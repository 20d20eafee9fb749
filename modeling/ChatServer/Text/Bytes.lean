/-!
Texts and the bytes they are sent as.
-/

namespace ChatServer

def bytesOf (s : String) : List UInt8 := s.toUTF8.toList

/-- The text that bytes spell, if they spell one. -/
def spelled? (bytes : List UInt8) : Option String := String.fromUTF8? ⟨bytes.toArray⟩

end ChatServer
