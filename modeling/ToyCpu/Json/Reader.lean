import ToyCpu.Decimal.Numeral
import ToyCpu.Json.Basic

/-!
# What JSON trees mean

Readers turn a tree into a value, or refuse it. A structure may be written as
an object, with its fields by name, or as an array, with its fields in order.

* `Source` — how a tree reaches its reader.
* `text?`, `natural?`, `float?`, `choice?` — simple values.
* `Fields`, `Slot` — the fields of a structure.
* `isSound` — a tree in which everything means something.
-/

namespace ToyCpu.Json

/-- How a tree reaches its reader: straight from the text, or after it was set aside whole
because what it stands for was not known yet. -/
inductive Source where
  | direct
  | setAside
  deriving DecidableEq, Repr

/-! ### Simple values -/

/-- The text that a string stands for. -/
def text? : Json → Option String
  | .string raw => (unescape? raw).map String.ofList
  | _ => none

/-- The natural number that decimal digits write; none begins with 0 but 0 itself. -/
def canonicalNatural? (digits : List Char) : Option Nat :=
  match digits with
  | [] => none
  | '0' :: _ :: _ => none
  | _ => if digits.all Char.isDigit then some (decimalNatural digits) else none

/-- A natural number below a bound, written as an integer without a sign. -/
def natural? (bound : Nat) : Json → Option Nat
  | .number literal =>
    match canonicalNatural? literal with
    | some n => if n < bound then some n else none
    | none => none
  | _ => none

/-- The float nearest to a number; a number beyond every float is refused. -/
def float? : Json → Option Float
  | .number literal =>
    match Numeral.ofChars? literal with
    | some numeral =>
      let x := numeral.toFloat
      if Binary64.magnitude x < Binary64.infinityWord then some x else none
    | none => none
  | _ => none

/-- One of some named options, as a string or as an object with the name as its only key and
nothing as its value. -/
def choice? {α : Type} (options : List (String × α)) (source : Source) : Json → Option α
  | .string raw => (text? (.string raw)).bind (List.lookup · options)
  | .object [(key, .null)] => (text? (.string key)).bind (List.lookup · options)
  | .object [(key, .object [])] =>
    if source = .setAside then (text? (.string key)).bind (List.lookup · options) else none
  | _ => none

/-- A value that may be absent, which `null` says. -/
def nullable? {α : Type} (read : Json → Option α) : Json → Option (Option α)
  | .null => some none
  | j => (read j).map some

/-! ### Structures -/

/-- What a structure holds for one of its fields. -/
inductive Slot where
  | given (value : Json)
  /-- The object has no such key. -/
  | absent
  /-- The array ends before it. -/
  | cut

/-- The fields of a structure by name. -/
abbrev Fields := String → Slot

/-- The members of an object with their keys as texts. -/
def keyed? (members : List (List Char × Json)) : Option (List (String × Json)) :=
  members.mapM fun (key, value) => (text? (.string key)).map (·, value)

/-- The fields of a structure with the given names. An object may have other keys too, but each
of these names at most once; an array may not be longer than the names. -/
def fields? (names : List String) : Json → Option Fields
  | .object members => do
    let entries ← keyed? members
    if names.any fun name => 1 < entries.countP (·.1 == name) then none
    else
      some fun name =>
        match entries.lookup name with
        | some value => .given value
        | none => .absent
  | .array items =>
    if names.length < items.length then none
    else
      some fun name =>
        match items[names.idxOf name]? with
        | some value => .given value
        | none => .cut
  | _ => none

/-- A field that must be given. -/
def Slot.required {α : Type} (read : Json → Option α) : Slot → Option α
  | .given value => read value
  | _ => none

/-- A field that an object may leave out. -/
def Slot.optional {α : Type} (read : Json → Option α) : Slot → Option (Option α)
  | .given value => nullable? read value
  | .absent => some none
  | .cut => none

/-- A field with a default. -/
def Slot.orElse {α : Type} (default : α) (read : Json → Option α) : Slot → Option α
  | .given value => read value
  | _ => some default

/-! ### Trees that are set aside -/

mutual

/-- Every number is a float's, every string stands for a text, and arrays and objects are
nested no deeper than the bound. -/
def isSound : Nat → Json → Bool
  | _, .null => true
  | _, .bool _ => true
  | _, .number literal => (float? (.number literal)).isSome
  | _, .string raw => (unescape? raw).isSome
  | 0, .array _ => false
  | depth + 1, .array items => areSound depth items
  | 0, .object _ => false
  | depth + 1, .object members => areSoundMembers depth members

/-- Every item is sound. -/
def areSound (depth : Nat) : List Json → Bool
  | [] => true
  | item :: items => isSound depth item && areSound depth items

/-- Every key and every value is sound. -/
def areSoundMembers (depth : Nat) : List (List Char × Json) → Bool
  | [] => true
  | (key, value) :: members =>
    (unescape? key).isSome && isSound depth value && areSoundMembers depth members

end

/-- How deep the arrays and objects of a text may be nested where they are set aside. -/
def depthLimit : Nat := 127

end ToyCpu.Json
