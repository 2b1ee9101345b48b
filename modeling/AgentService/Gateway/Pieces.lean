import AgentService.Gateway.Value
import AgentService.Lib.Generator

/-!
# What the writer throws for (`jsonPieces` and `hasUnencodable` of `src/gateway/json.ts`)

`jsonPieces` as the generator it is, and the check that goes before it. The two walk the same value
apart from each other; the writer throws where the check says so, and for a number that is not
finite.
-/

namespace AgentService
open Lib

namespace Generators

mutual

/-- `jsonPieces`, piece by piece. -/
def jsonPieces (doubles : Doubles) : Value → Generator TypeError JsString
  | .null => .yield (js "null")
  | .int v => .yield (bigintText v)
  | .float v => .ofExcept (goFloat doubles v)
  | .bool v => .yield (if v then js "true" else js "false")
  | .text v => .yield (quote v)
  | .unencodable _ => .throw ⟨js "a time Go cannot encode: zone offset of a day or more"⟩
  | .list items =>
    ((Generator.yield (js "[")).andThen (itemPieces doubles true items)).andThen (.yield (js "]"))
  | .struct members =>
    ((Generator.yield (js "\x7b")).andThen (memberPieces doubles true members)).andThen
      (.yield (js "\x7d"))

def itemPieces (doubles : Doubles) (first : Bool) : List Value → Generator TypeError JsString
  | [] => .done
  | v :: vs =>
    ((if first then Generator.done else .yield (js ",")).andThen (jsonPieces doubles v)).andThen
      (itemPieces doubles false vs)

def memberPieces (doubles : Doubles) (first : Bool) :
    List (JsString × Value) → Generator TypeError JsString
  | [] => .done
  | (k, v) :: ms =>
    ((Generator.yield ((if first then [] else js ",") ++ quote k ++ js ":")).andThen
      (jsonPieces doubles v)).andThen (memberPieces doubles false ms)

end

end Generators

section
variable (doubles : Doubles)

mutual

/-- All pieces together are the text in pieces, or its exception. -/
theorem collect_jsonPieces (v : Value) :
    (Generators.jsonPieces doubles v).collect = jsonPieces doubles v := by
  match v with
  | .null | .int _ | .bool _ | .text _ | .unencodable _ => rfl
  | .float bits =>
    rw [Generators.jsonPieces, Generator.collect_ofExcept, jsonPieces]
    cases goFloat doubles bits <;> rfl
  | .list items =>
    rw [Generators.jsonPieces, Generator.collect_andThen, Generator.collect_andThen,
      collect_itemPieces true items, jsonPieces]
    cases itemPieces doubles true items <;> rfl
  | .struct members =>
    rw [Generators.jsonPieces, Generator.collect_andThen, Generator.collect_andThen,
      collect_memberPieces true members, jsonPieces]
    cases memberPieces doubles true members <;> rfl

theorem collect_itemPieces (first : Bool) (items : List Value) :
    (Generators.itemPieces doubles first items).collect = itemPieces doubles first items := by
  match items with
  | [] => rfl
  | v :: vs =>
    rw [Generators.itemPieces, Generator.collect_andThen, Generator.collect_andThen,
      collect_jsonPieces v, collect_itemPieces false vs, itemPieces]
    cases first <;> cases jsonPieces doubles v <;> cases itemPieces doubles false vs <;> rfl

theorem collect_memberPieces (first : Bool) (members : List (JsString × Value)) :
    (Generators.memberPieces doubles first members).collect =
      memberPieces doubles first members := by
  match members with
  | [] => rfl
  | (k, v) :: ms =>
    rw [Generators.memberPieces, Generator.collect_andThen, Generator.collect_andThen,
      collect_jsonPieces v, collect_memberPieces false ms, memberPieces]
    cases jsonPieces doubles v <;> cases memberPieces doubles false ms <;> rfl

end

end

/-! ## When the writer throws -/

mutual

/-- All numbers are finite. -/
def Value.isFinite : Value → Bool
  | .float bits => isFiniteDouble bits
  | .list items => allFinite items
  | .struct members => allMembersFinite members
  | _ => true

def allFinite : List Value → Bool
  | [] => true
  | v :: vs => v.isFinite && allFinite vs

def allMembersFinite : List (JsString × Value) → Bool
  | [] => true
  | (_, v) :: ms => v.isFinite && allMembersFinite ms

end

section
variable (doubles : Doubles)

mutual

/-- The writer throws for times it cannot encode, as the check says, and for numbers
that are not finite. -/
theorem jsonPieces_isOk (v : Value) :
    (jsonPieces doubles v).isOk = (!hasUnencodable v && v.isFinite) := by
  match v with
  | .null | .int _ | .bool _ | .text _ | .unencodable _ => rfl
  | .float bits =>
    have hfloat : (jsonPieces doubles (.float bits)).isOk = (goFloat doubles bits).isOk := by
      rw [jsonPieces]
      cases goFloat doubles bits <;> rfl
    rw [hfloat, goFloat, hasUnencodable, Value.isFinite]
    · cases isFiniteDouble bits <;> rfl
    · simp
    · simp
    · simp
  | .list items =>
    have hitems : (jsonPieces doubles (.list items)).isOk =
        (itemPieces doubles true items).isOk := by
      rw [jsonPieces]
      cases itemPieces doubles true items <;> rfl
    rw [hitems, itemPieces_isOk true items, hasUnencodable, Value.isFinite]
  | .struct members =>
    have hmembers : (jsonPieces doubles (.struct members)).isOk =
        (memberPieces doubles true members).isOk := by
      rw [jsonPieces]
      cases memberPieces doubles true members <;> rfl
    rw [hmembers, memberPieces_isOk true members, hasUnencodable, Value.isFinite]

theorem itemPieces_isOk (first : Bool) (items : List Value) :
    (itemPieces doubles first items).isOk = (!anyUnencodable items && allFinite items) := by
  match items with
  | [] => rfl
  | v :: vs =>
    have hcons : (itemPieces doubles first (v :: vs)).isOk = ((jsonPieces doubles v).isOk &&
        (itemPieces doubles false vs).isOk) := by
      rw [itemPieces]
      cases jsonPieces doubles v <;> cases itemPieces doubles false vs <;> rfl
    rw [hcons, jsonPieces_isOk v, itemPieces_isOk false vs, anyUnencodable, allFinite]
    cases hasUnencodable v <;> cases v.isFinite <;> simp

theorem memberPieces_isOk (first : Bool) (members : List (JsString × Value)) :
    (memberPieces doubles first members).isOk = (!anyMemberUnencodable members &&
      allMembersFinite members) := by
  match members with
  | [] => rfl
  | (k, v) :: ms =>
    have hcons : (memberPieces doubles first ((k, v) :: ms)).isOk =
        ((jsonPieces doubles v).isOk && (memberPieces doubles false ms).isOk) := by
      rw [memberPieces]
      cases jsonPieces doubles v <;> cases memberPieces doubles false ms <;> rfl
    rw [hcons, jsonPieces_isOk v, memberPieces_isOk false ms, anyMemberUnencodable,
      allMembersFinite]
    cases hasUnencodable v <;> cases v.isFinite <;> simp

end

end

end AgentService
