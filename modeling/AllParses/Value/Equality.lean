import AllParses.Value.Basic

/-!
# Equality of values

Truth values equal the numbers 0 and 1, dictionaries are compared without regard to order, and
values of different kinds otherwise differ. A function equals only itself, which its number
tells.
-/

namespace AllParses.Value

mutual

/-- Equality of values. -/
def same : Value → Value → Bool
  | none, none => true
  | bool a, bool b => a == b
  | bool a, int n => (if a then 1 else 0) == n
  | int m, bool b => m == (if b then 1 else 0)
  | int m, int n => m == n
  | str s, str t => s == t
  | bytes as, bytes bs => as == bs
  | list vs, list ws => sameList vs ws
  | tuple vs, tuple ws => sameList vs ws
  | dict es, dict fs => es.length == fs.length && entriesWithin es fs
  | fn m _ _ _, fn n _ _ _ => m == n
  | _, _ => false
termination_by structural v => v

/-- Equality of lists of values, element by element. -/
def sameList : List Value → List Value → Bool
  | [], [] => true
  | v :: vs, w :: ws => same v w && sameList vs ws
  | _, _ => false
termination_by structural v => v

/-- Whether each entry of the first dictionary has an equal one in the second. -/
def entriesWithin : List (Value × Value) → List (Value × Value) → Bool
  | [], _ => true
  | (k, v) :: es, fs => fs.any (fun (k', v') => same k k' && same v v') && entriesWithin es fs
termination_by structural v => v

end

instance : BEq Value := ⟨same⟩

/-- The value that a dictionary's entries hold under a key. -/
def valueAt? (entries : List (Value × Value)) (key : Value) : Option Value :=
  (entries.find? fun (k, _) => k == key).map Prod.snd

/-- Puts a value under a key: a key that is there already keeps its place and its spelling. -/
def insertEntry (entries : List (Value × Value)) (key v : Value) : List (Value × Value) :=
  if entries.any (fun (k, _) => k == key) then
    entries.map fun (k, w) => if k == key then (k, v) else (k, w)
  else entries ++ [(key, v)]

/-- The dictionary to which the entries are added one after the other. -/
def ofEntries (entries : List (Value × Value)) : Value :=
  dict (entries.foldl (fun acc (k, v) => insertEntry acc k v) [])

end AllParses.Value
