/-
Remarks on a document that is well formed.

Faults of names and of namespaces do not stop the reading of a document.  They
are remarked, as are lesser oddities; a document is taken unless the last remark
on it is about a fault.
-/
import NetconfWire.Xml.Char

namespace NetconfWire.Xml

/-- A remark on a document. -/
inductive Remark
  | warning
  | error
  deriving DecidableEq, Repr

namespace Remark

/-- A remark of the given kind if it applies. -/
def when (applies : Bool) (r : Remark) : List Remark :=
  if applies then [r] else []

/-- The last remark when further ones follow. -/
def lastOf (last : Option Remark) (more : List Remark) : Option Remark :=
  more.getLast?.or last

/-- The targets of processing instructions that may begin with `xml`. -/
def knownTargets : List String :=
  ["xml-stylesheet", "xml-model"]

/-- The remarks on the target of a processing instruction. -/
def onTarget (target : String) : List Remark :=
  when ((target.take 3).toString.toLower == "xml" && !knownTargets.contains target) warning
    ++ when (target.toList.contains ':') error

end Remark

end NetconfWire.Xml
