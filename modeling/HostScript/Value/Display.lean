import HostScript.Decimal.Notation
import HostScript.Heap

/-!
# The text of a value

What `print` writes for a value. Floating numbers have six decimal places.
-/

namespace HostScript

def Callable.display (c : Callable) : String :=
  (if c.isNative then "<native fn " else "<fn ") ++ c.name ++ ">"

def Class.display (k : Class) : String :=
  "<class " ++ k.name ++ ">"

/-- The text of an owning value. -/
def Value.owningText (h : Heap) : Value → String
  | .int n => String.ofList (Decimal.ofInt n.toInt)
  | .float x => String.ofList (Decimal.fixed 6 x)
  | .bool b => if b then "true" else "false"
  | .string s => s
  | .null => "Null"
  | .undefined => "Undefined"
  | .class_ c => (h.class_ c).display
  | .instance_ i => "<" ++ (h.class_ (h.instance_ i).class_).name ++ " instance>"
  | .function c => (h.callable c).display
  | .bound _ => ""

/-- Whether all is there that the text of a value names. -/
def Value.displayable (h : Heap) : Value → Bool
  | .class_ c => h.hasClass c
  | .instance_ i => h.hasInstance i && h.hasClass (h.instance_ i).class_
  | .function c => h.hasCallable c
  | _ => true

def Value.display (h : Heap) (s : Cells) (v : Value) : String :=
  (v.detach s).owningText h

end HostScript
