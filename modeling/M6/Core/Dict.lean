import M6.Lib.Text
import M6.Lib.SortedMap

/-!
# JSON values and the request dictionary

`Value` is a JSON document as the services hold it, and `Dict` is the request
dictionary of `dict.rs`: a shared **base** built once per reload and a
per-request **overlay** that shadows it. Writing goes to the overlay only.

The one rule that later proofs use is `get_insertAll`: after a list of writes a
name has the value of its last write, and failing that whatever it had before.
-/

namespace M6

/-- A JSON value. A number is kept as the text it prints as; an object is the
list of its fields. -/
inductive Value where
  | null
  | bool (b : Bool)
  | number (text : Str)
  | string (s : Str)
  | array (items : List Value)
  | object (fields : List (Str × Value))

namespace Value

def asStr : Value → Option Str
  | string s => some s
  | _ => none

def get? (v : Value) (k : Str) : Option Value :=
  match v with
  | object fields => SortedMap.lookup k fields
  | _ => none

@[simp] theorem asStr_string (s : Str) : (string s).asStr = some s := rfl

end Value

abbrev DictMap : Type := SortedMap Str Value

def DictMap.toValue (m : DictMap) : Value := .object m.entries

@[simp] theorem DictMap.toValue_get? (m : DictMap) (k : Str) : m.toValue.get? k = m.get? k := rfl

def strings (pairs : List (Str × Str)) : List (Str × Value) :=
  pairs.map fun p => (p.1, .string p.2)

theorem lastValue_strings (pairs : List (Str × Str)) (k : Str) :
    SortedMap.lastValue (strings pairs) k = (SortedMap.lastValue pairs k).map Value.string := by
  induction pairs with
  | nil => rfl
  | cons p pairs ih =>
    rw [strings, List.map_cons, ← strings, SortedMap.lastValue_cons, SortedMap.lastValue_cons, ih]
    cases SortedMap.lastValue pairs k with
    | some s => rfl
    | none =>
      simp only [Option.map_none, Option.none_or]
      split_ifs <;> rfl

/-- The request dictionary: a base shared by every request on the route, and
what this request adds. -/
structure Dict where
  /-- the shared entries -/
  base : Option DictMap
  /-- the entries of this request, which shadow the base -/
  overlay : DictMap

namespace Dict

def withBase (base : DictMap) : Dict := ⟨some base, .empty⟩

/-- Write an entry, shadowing a base entry of the same name. -/
def insert (d : Dict) (k : Str) (v : Value) : Dict := { d with overlay := d.overlay.insert k v }

def insertAll (d : Dict) (l : List (Str × Value)) : Dict :=
  l.foldl (fun d e => d.insert e.1 e.2) d

def get (d : Dict) (k : Str) : Option Value :=
  match d.overlay.get? k with
  | some v => some v
  | none => d.base.bind fun b => b.get? k

def containsKey (d : Dict) (k : Str) : Bool := (d.get k).isSome

def iter (d : Dict) : List (Str × Value) :=
  d.overlay.entries ++
    (match d.base with
      | some b => b.entries.filter fun e => (d.overlay.get? e.1).isNone
      | none => [])

theorem insertAll_eq (d : Dict) (l : List (Str × Value)) :
    d.insertAll l = ⟨d.base, d.overlay.insertAll l⟩ := by
  induction l generalizing d with
  | nil => rfl
  | cons e l ih =>
    rw [insertAll, List.foldl_cons, ← insertAll, ih]
    rfl

theorem get_eq_or (d : Dict) (k : Str) :
    d.get k = (d.overlay.get? k).or (d.base.bind fun b => b.get? k) := by
  rw [get]
  cases d.overlay.get? k <;> rfl

@[simp] theorem get_withBase (base : DictMap) (k : Str) : (withBase base).get k = base.get? k := rfl

@[simp] theorem get_insert (d : Dict) (k k' : Str) (v : Value) :
    (d.insert k v).get k' = if k' = k then some v else d.get k' := by
  rw [get_eq_or, get_eq_or]
  simp only [insert, SortedMap.get?_insert]
  split_ifs <;> rfl

@[simp] theorem get_insertAll (d : Dict) (l : List (Str × Value)) (k : Str) :
    (d.insertAll l).get k = (SortedMap.lastValue l k).or (d.get k) := by
  rw [insertAll_eq, get_eq_or, get_eq_or, SortedMap.get?_insertAll, Option.or_assoc]

theorem insertAll_append (d : Dict) (l l' : List (Str × Value)) :
    (d.insertAll l).insertAll l' = d.insertAll (l ++ l') := by
  rw [insertAll, insertAll, insertAll, List.foldl_append]

end Dict

end M6
