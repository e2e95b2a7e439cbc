import Wrenyard.Js.JsonRoundTrip
import Wrenyard.Js.KeyOrder

/-!
# JSON values in memory

A JSON text denotes exact decimals.  `JSON.parse` rounds each of them to a double, and the object it makes lists its
members as `Object.keys` does; `JSON.stringify` prints a number that is not finite as `null`.  A double is represented
by its shortest decimal (`JsNumber.rounded`), which is what it prints as, and an infinite one by 2e308.  There is no
negative zero.
-/

namespace Js

namespace JsNumber

/-- All digits, without the point. -/
def mantissa (n : JsNumber) : Nat := n.fraction.foldl (fun m d => 10 * m + d.val) n.whole

/-- The double nearest to the number, without its sign. -/
def double (n : JsNumber) : Float.Model := .ofScientific n.mantissa (-n.fraction.length)

/-- `Number.isFinite(n)`. -/
def isFinite (n : JsNumber) : Bool := n.double.isFinite

/-- The exact value of a double: digits, and how many of them stand behind the point. -/
def exactDigits (x : Float.Model) : Nat × Nat :=
  match x.unpack with
  | .finite _ m e _ => if 0 ≤ e then (m * 2 ^ e.natAbs, 0) else (m * 5 ^ e.natAbs, e.natAbs)
  | .zero _ => (0, 0)
  | .infinity _ | .notANumber => (2 ^ 1024, 0)

/-- The two neighbours of `digits` without its last `dropped` digits, the nearer one first and of equally near ones
the even one. -/
def neighbours (digits dropped : Nat) : List Nat :=
  let low := digits / 10 ^ dropped
  let rest := digits % 10 ^ dropped
  if 2 * rest < 10 ^ dropped ∨ (2 * rest = 10 ^ dropped ∧ low % 2 = 0) then [low, low + 1] else [low + 1, low]

/-- The decimals next to the double nearest to the number, from the shortest to the exact one. -/
def candidates (n : JsNumber) : List JsNumber :=
  let (digits, places) := exactDigits n.double
  (List.range (natText digits).length).reverse.flatMap fun dropped =>
    (neighbours digits dropped).map fun kept => Json.scaled n.negative (natText kept) [] ((dropped : Int) - places)

/-- The shortest decimal of the double nearest to the number. -/
def rounded (n : JsNumber) : JsNumber := (n.candidates.find? fun c => c.double = n.double).getD n

/-- Rounding does not change the double. -/
theorem double_rounded (n : JsNumber) : n.rounded.double = n.double := by
  rw [rounded]
  cases h : n.candidates.find? fun c => c.double = n.double with
  | none => rfl
  | some c => simpa using List.find?_some h

end JsNumber

namespace Json

/-- The members of an object in the order of its keys. -/
def ownMembers (members : OMap JsString Json) : OMap JsString Json :=
  (ownKeys members.keys).filterMap fun key => (members.get key).map fun v => (key, v)

mutual

/-- The value with every number replaced and the members of every object in the order of its keys. -/
def rebuild (number : JsNumber → Json) : Json → Json
  | .num n => number n
  | .arr xs => .arr (rebuildItems number xs)
  | .obj ms => .obj (ownMembers (rebuildMembers number ms))
  | v => v

def rebuildItems (number : JsNumber → Json) : List Json → List Json
  | [] => []
  | x :: xs => rebuild number x :: rebuildItems number xs

def rebuildMembers (number : JsNumber → Json) : List (JsString × Json) → List (JsString × Json)
  | [] => []
  | (k, v) :: ms => (k, rebuild number v) :: rebuildMembers number ms

end

end Json

namespace JSON

/-- `JSON.parse(s)`; `none` is a syntax error. -/
def parse (s : JsString) : Option Json := (Json.parse s).map (Json.rebuild fun n => .num n.rounded)

/-- `JSON.stringify(v)`. -/
def stringify (v : Json) : JsString := Json.stringify (v.rebuild fun n => if n.isFinite then .num n else .null)

theorem lf_not_mem_stringify (v : Json) : lf ∉ stringify v := Json.lf_not_mem_stringify _

example : (parse (js "9007199254740993")).map stringify = some (js "9007199254740992") := by decide +kernel

end JSON

end Js
