import Lox.Text.Quoted
import Lox.Value

/-!
# Descriptions of functions

A description tells functions apart that print alike, without a look into what they close over.
-/

namespace Lox

/-- Whether a program declared the function. -/
def Function.origin (f : Function) : String := if f.isNative then "native" else "user"

def Function.description (f : Function) : String :=
  "Function \x7b name: Symbol(" ++ Text.quoted f.name.name ++ "), arity: " ++ f.arity.repr ++
    ", kind: " ++ Text.quoted f.origin ++ " \x7d"

end Lox
