import Mathlib.Tactic.Common

/-!
# Network addresses
-/

namespace GioNet

/-- `std::string`: a string of bytes. -/
abbrev StdString := List UInt8

/-- A string literal of the source; all of them are ASCII. -/
def literal (s : String) : StdString := s.toList.map fun c ↦ c.toNat.toUInt8

def bufferMax : ℕ := 512

structure NetAddress where
  ip : StdString := []
  port : UInt16 := 0
  deriving DecidableEq, Repr

namespace NetAddress

def isLoopback (a : NetAddress) : Bool :=
  (literal "127").isPrefixOf a.ip || a.ip == literal "localhost"

/-- `operator==`. The comparison of the two objects' addresses in memory is
subsumed: an object has the port and the text of itself. -/
def eq (a other : NetAddress) : Bool :=
  if other.port ≠ a.port then false
  else if other.ip = a.ip then true
  else a.isLoopback && other.isLoopback

@[simp] theorem eq_self (a : NetAddress) : a.eq a = true := by
  simp [eq]

end NetAddress

end GioNet
