/-!
# Byte strings

A source file, a program argument and whatever a program reads or writes are strings of
bytes, not of characters: zero bytes and bytes above 127 are ordinary members, and nothing
says that they spell a text in any encoding.  `Bytes` is the type of byte strings, and
`Bytes.ofString` embeds the texts, which are the messages of the library itself.
-/

namespace ByteTape

/-- A byte string. -/
abbrev Bytes : Type := Array UInt8

namespace Bytes

/-- The byte string that spells a text in UTF-8. -/
def ofString (text : String) : Bytes :=
  text.toUTF8.data

@[simp]
theorem ofString_append (s t : String) :
  ofString (s ++ t) = ofString s ++ ofString t
  := by
  simp [ofString]

end Bytes

end ByteTape
