import Statechart.Real.Shortest
import Statechart.Text

/-!
# Tags

A tag names a transition or a command.  Tags come in families: the members of a declared set, or
all texts, integers or real numbers.  A tag knows its family, so tags of different families differ
even where they read the same.

Agreement is symmetric and transitive, and reflexive on every tag but the real number that is not
a number.
-/
namespace Statechart

/-- What distinguishes a tag within its family. -/
inductive TagContent
  /-- A member of a declared set. -/
  | symbol (name : String)
  | text (value : String)
  | integer (value : Int)
  /-- A real number, compared as numbers are. -/
  | real (value : Binary64)
  deriving DecidableEq, Repr

namespace TagContent

/-- Equality within a family. -/
def equal : TagContent → TagContent → Bool
  | .symbol x, .symbol y => x == y
  | .text x, .text y => x == y
  | .integer x, .integer y => x == y
  | .real x, .real y => x.equal y
  | _, _ => false

/-- The content as a label shows it. -/
def label : TagContent → String
  | .symbol name => name
  | .text value => Text.quote value
  | .integer value => toString value
  | .real value => value.text

theorem equal_comm (x y : TagContent) : x.equal y = y.equal x := by
  cases x <;> cases y <;> simp [equal, Bool.beq_comm, Binary64.equal_comm]

theorem equal_trans {x y z : TagContent} (h : x.equal y = true) (k : y.equal z = true) :
    x.equal z = true := by
  cases x <;> cases y <;> simp only [equal, Bool.false_eq_true] at h <;>
    cases z <;> simp only [equal, Bool.false_eq_true, beq_iff_eq] at h k ⊢
  · exact h.trans k
  · exact h.trans k
  · exact h.trans k
  · exact Binary64.equal_trans h k

end TagContent

/-- The name of a transition or of a command. -/
structure Tag where
  family : String
  content : TagContent
  deriving DecidableEq, Repr

namespace Tag

/-- Two tags are the same: of one family, and equal in it. -/
def agrees (x y : Tag) : Bool := x.family == y.family && x.content.equal y.content

/-- The tag as errors and notices show it. -/
def label (x : Tag) : String := x.content.label

/-- The label, if the tag is of the family. -/
def labelIn? (family : String) (x : Tag) : Option String :=
  if x.family = family then some x.label else none

theorem agrees_comm (x y : Tag) : x.agrees y = y.agrees x := by
  simp [agrees, Bool.beq_comm (a := x.family), TagContent.equal_comm x.content]

theorem agrees_trans {x y z : Tag} (h : x.agrees y = true) (k : y.agrees z = true) :
    x.agrees z = true := by
  simp only [agrees, Bool.and_eq_true, beq_iff_eq] at h k ⊢
  exact ⟨h.1.trans k.1, TagContent.equal_trans h.2 k.2⟩

end Tag

end Statechart
