set_option autoImplicit false

/-!
# The bytes of a text

The UTF-8 form of a list of characters.
-/

namespace JavaThrows.Text

def bytes (cs : List Char) : List UInt8 :=
  cs.flatMap String.utf8EncodeChar

end JavaThrows.Text
