import Decompile.Text.Ascii
import Decompile.Text.Blank

/-!
# Decompiler backends

The tools that a job can be submitted for, and what is known about each.

A direct backend reads bytecode containers and writes Java source in one step. The others need
Java archives, made from the containers in a step before.
-/

namespace Decompile

/-- A tool that turns bytecode into source. -/
inductive Backend where
  | jadx
  | cfr
  | fernflower
  deriving DecidableEq, Repr

namespace Backend

/-- All backends, in the order they are listed. -/
def all : List Backend := [jadx, cfr, fernflower]

/-- The name of a backend. -/
def name : Backend → String
  | jadx => "jadx"
  | cfr => "cfr"
  | fernflower => "fernflower"

/-- The backend reads bytecode containers itself. -/
def isDirect : Backend → Bool
  | jadx => true
  | cfr | fernflower => false

/-- The least version of the Java runtime that the backend runs on. -/
def leastRuntime : Backend → UInt32
  | jadx => 11
  | cfr | fernflower => 8

/-- The backend writes its sources packed, and they must be unpacked afterwards. -/
def packsSources : Backend → Bool
  | fernflower => true
  | jadx | cfr => false

/-- The backend of a name, in any ASCII letter case and with blanks around it. -/
def ofName? (s : String) : Option Backend :=
  all.find? fun b => Text.sameIgnoringCase b.name.toList (Text.trim s.toList)

/-- The backend whose name is exactly this. -/
def ofWord? (s : String) : Option Backend := all.find? fun b => b.name == s

theorem ofWord?_name (b : Backend) : ofWord? b.name = some b := by cases b <;> decide +kernel

end Backend

end Decompile
