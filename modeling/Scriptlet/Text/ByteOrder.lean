/-
  Scriptlet.Text.ByteOrder — strings in the order of their UTF-8 bytes.

  Two strings are compared byte by byte; a string that ends first comes first.
-/
namespace Scriptlet.Text

/-- Lexicographic order of byte sequences. -/
def compareBytes : List UInt8 → List UInt8 → Ordering
  | [], [] => .eq
  | [], _ :: _ => .lt
  | _ :: _, [] => .gt
  | a :: as, b :: bs => if a < b then .lt else if b < a then .gt else compareBytes as bs

/-- The bytes of the string in UTF-8. -/
def utf8Bytes (s : String) : List UInt8 := s.toUTF8.data.toList

/-- The order of two strings by their UTF-8 bytes. -/
def compareUtf8 (a b : String) : Ordering := compareBytes (utf8Bytes a) (utf8Bytes b)

end Scriptlet.Text
