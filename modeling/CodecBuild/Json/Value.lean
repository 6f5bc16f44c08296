/-!
JSON values. The text of a string is missing where its literal escapes half of a surrogate pair: such a
literal obeys the grammar and yet denotes no text. Numbers keep their literal.

A record is an object with named fields in any order, or an array of the fields in their order. Members that
are no field are passed over; a field may occur once only.
-/

namespace CodecBuild

inductive Json where
  | null
  | bool (b : Bool)
  | num (literal : String)
  | str (text : Option String)
  | arr (items : List Json)
  | obj (members : List (Option String × Json))

namespace Json

instance : Coe String Json := ⟨fun s => .str (some s)⟩

instance : Inhabited Json := ⟨null⟩

/-- The members that are present, in order. -/
def record (members : List (String × Option Json)) : Json :=
  .obj (members.filterMap fun m => m.2.map (some m.1, ·))

def texts (ss : List String) : Json := .arr (ss.map fun s => .str (some s))

/-! ### What a value holds -/

def text? : Json → Option String
  | str s => s
  | _ => none

def bool? : Json → Option Bool
  | bool b => some b
  | _ => none

def texts? : Json → Option (List String)
  | arr items => items.mapM text?
  | _ => none

/-- The name of a case without content: a string, or an object with that name alone and null under it. -/
def caseName? : Json → Option String
  | str s => s
  | obj [(some k, null)] => some k
  | _ => none

/-- The one value under a name; the outer `none` stands for two of them. -/
def field? (members : List (String × Json)) (name : String) : Option (Option Json) :=
  match members.filter (·.1 == name) with
  | [] => some none
  | [m] => some (some m.2)
  | _ => none

def members? (ms : List (Option String × Json)) : Option (List (String × Json)) :=
  ms.mapM fun m => m.1.map (·, m.2)

/-- The values of a record's fields, in the order of `names`; an absent field is `none`. -/
def fields? (names : List String) : Json → Option (List (Option Json))
  | obj ms => do names.mapM (field? (← members? ms))
  | arr items =>
    if items.length ≤ names.length then
      some (items.map some ++ List.replicate (names.length - items.length) none)
    else none
  | _ => none

end Json
end CodecBuild
