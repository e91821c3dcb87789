import Mathlib.Algebra.Order.Group.Nat
import Mathlib.Data.List.Basic

/-! # Bytes and ASCII text -/

namespace MiniWebSrv

abbrev Byte := UInt8

/-- The byte of an ASCII character. -/
def ch (c : Char) : Byte := c.toNat.toUInt8

/-- The bytes of an ASCII string literal, without its terminating NUL. -/
def text (s : String) : List Byte := s.toList.map ch

def cr : Byte := 13
def lf : Byte := 10

end MiniWebSrv
