import Mathlib

/-! Strings by their code units. -/

namespace Mille.Ui

/-- A string by its code units. -/
abbrev Text := List UInt16

def unit (c : Char) : UInt16 := c.toNat.toUInt16

def text (s : String) : Text := s.toList.map unit

end Mille.Ui
