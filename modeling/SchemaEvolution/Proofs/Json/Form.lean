import Mathlib.Logic.Relation
import SchemaEvolution.Proofs.Json.Escapes
import SchemaEvolution.Proofs.Json.Numeral
import SchemaEvolution.Proofs.Names

/-!
What a JSON text says apart from white space and escapes: its form, with the digits of every number
and with the members of every object as they stand in the text. A form is spelled by many texts, and
a value comes in many forms.
-/

namespace SchemaEvolution.Json

inductive Form
  | null
  | bool (value : Bool)
  | number (numeral : List Char)
  | string (value : String)
  | array (items : List Form)
  | object (members : List (String × Form))
  deriving Repr, Inhabited

def Number.ofNumeral? (cs : List Char) : Option Number :=
  match takeLiteral? cs with
  | some (l, []) => l.number?
  | _ => none

namespace Form

mutual

/-- The value of a form that is nested no deeper than allowed and whose numbers are all in range. -/
def value? : (depth : Nat) → Form → Option Json
  | _, .null => some .null
  | _, .bool b => some (.bool b)
  | _, .number n => (Number.ofNumeral? n).map .number
  | _, .string s => some (.string s)
  | 0, .array _ => none
  | d + 1, .array xs => (valueItems? d xs).map .array
  | 0, .object _ => none
  | d + 1, .object ms => (valueMembers? d ms).map ofMembers

def valueItems? (depth : Nat) : List Form → Option (List Json)
  | [] => some []
  | x :: xs => do return (← x.value? depth) :: (← valueItems? depth xs)

def valueMembers? (depth : Nat) : List (String × Form) → Option (List (String × Json))
  | [] => some []
  | (k, x) :: ms => do return (k, ← x.value? depth) :: (← valueMembers? depth ms)

end

/-- Two neighbouring members with different keys change places, somewhere in the form. Members with
one key keep their order, since the last of them counts. -/
inductive Exchanges : Form → Form → Prop
  | here {k l : String} {x y : Form} {front back : List (String × Form)} : k ≠ l →
    Exchanges (.object (front ++ (k, x) :: (l, y) :: back))
      (.object (front ++ (l, y) :: (k, x) :: back))
  | item {x y : Form} {front back : List Form} : Exchanges x y →
    Exchanges (.array (front ++ x :: back)) (.array (front ++ y :: back))
  | member {k : String} {x y : Form} {front back : List (String × Form)} : Exchanges x y →
    Exchanges (.object (front ++ (k, x) :: back)) (.object (front ++ (k, y) :: back))

def Reorders : Form → Form → Prop := Relation.ReflTransGen Exchanges

variable {d : Nat}

theorem valueItems?_append (xs ys : List Form) : valueItems? d (xs ++ ys) =
    (valueItems? d xs).bind fun vs => (valueItems? d ys).map (vs ++ ·) := by
  induction xs with
  | nil => simp [valueItems?]
  | cons x xs ih =>
    simp only [List.cons_append, valueItems?, ih]
    cases x.value? d <;> cases valueItems? d xs <;> cases valueItems? d ys <;> rfl

theorem valueMembers?_append (ms ns : List (String × Form)) : valueMembers? d (ms ++ ns) =
    (valueMembers? d ms).bind fun vs => (valueMembers? d ns).map (vs ++ ·) := by
  induction ms with
  | nil => simp [valueMembers?]
  | cons m ms ih =>
    obtain ⟨k, x⟩ := m
    simp only [List.cons_append, valueMembers?, ih]
    cases x.value? d <;> cases valueMembers? d ms <;> cases valueMembers? d ns <;> rfl

theorem ofMembers_exchange {k l : String} (h : k ≠ l) (v w : Json)
    (front back : List (String × Json)) :
    ofMembers (front ++ (k, v) :: (l, w) :: back) =
      ofMembers (front ++ (l, w) :: (k, v) :: back) := by
  simp only [ofMembers, List.foldl_append, List.foldl_cons, Names.put_comm h]

theorem Exchanges.value?_eq {t u : Form} (h : t.Exchanges u) : t.value? d = u.value? d := by
  induction h generalizing d with
  | @here k l x y front back hkl =>
    cases d with
    | zero => rfl
    | succ d =>
      simp only [value?, valueMembers?_append, valueMembers?]
      cases valueMembers? d front <;> cases x.value? d <;> cases y.value? d <;>
        cases valueMembers? d back <;> simp [ofMembers_exchange hkl]
  | item _ ih =>
    cases d with
    | zero => rfl
    | succ d => simp only [value?, valueItems?_append, valueItems?, ih]
  | member _ ih =>
    cases d with
    | zero => rfl
    | succ d => simp only [value?, valueMembers?_append, valueMembers?, ih]

theorem Reorders.value?_eq {t u : Form} (h : t.Reorders u) : t.value? d = u.value? d := by
  induction h with
  | refl => rfl
  | tail _ hlast ih => exact ih.trans hlast.value?_eq

end Form

def Blank (w : List Char) : Prop := ∀ c ∈ w, isBlank c

instance {w : List Char} : Decidable (Blank w) := decidable_of_iff (w.all isBlank) List.all_eq_true

theorem blank_nil : Blank [] := nofun

mutual

inductive Spells : Form → List Char → Prop
  | null : Spells .null "null".toList
  | true : Spells (.bool true) "true".toList
  | false : Spells (.bool false) "false".toList
  | number (n : Numeral) : Spells (.number n.text) n.text
  | string {s : String} {cs : List Char} : SpellsText s.toList cs →
    Spells (.string s) ('"' :: (cs ++ ['"']))
  | noItems {w : List Char} : Blank w → Spells (.array []) ('[' :: (w ++ [']']))
  | array {xs : List Form} {w cs : List Char} : Blank w → SpellsItems xs cs →
    Spells (.array xs) ('[' :: (w ++ (cs ++ [']'])))
  | noMembers {w : List Char} : Blank w → Spells (.object []) ('\x7b' :: (w ++ ['\x7d']))
  | object {ms : List (String × Form)} {w cs : List Char} : Blank w → SpellsMembers ms cs →
    Spells (.object ms) ('\x7b' :: (w ++ (cs ++ ['\x7d'])))

inductive SpellsItems : List Form → List Char → Prop
  | last {x : Form} {cs w : List Char} : Spells x cs → Blank w → SpellsItems [x] (cs ++ w)
  | more {x : Form} {xs : List Form} {cs ds v w : List Char} : Spells x cs → Blank v → Blank w →
    SpellsItems xs ds → SpellsItems (x :: xs) (cs ++ (v ++ ',' :: (w ++ ds)))

inductive SpellsMembers : List (String × Form) → List Char → Prop
  | last {k : String} {x : Form} {ks cs v w u : List Char} : SpellsText k.toList ks →
    Blank v → Blank w → Spells x cs → Blank u →
    SpellsMembers [(k, x)] ('"' :: (ks ++ '"' :: (v ++ ':' :: (w ++ (cs ++ u)))))
  | more {k : String} {x : Form} {ms : List (String × Form)} {ks cs ds v w u t : List Char} :
    SpellsText k.toList ks → Blank v → Blank w → Spells x cs → Blank u → Blank t →
    SpellsMembers ms ds →
    SpellsMembers ((k, x) :: ms)
      ('"' :: (ks ++ '"' :: (v ++ ':' :: (w ++ (cs ++ (u ++ ',' :: (t ++ ds)))))))

end

inductive Form.Document (t : Form) : List Char → Prop
  | mk {v cs w : List Char} : Blank v → Spells t cs → Blank w → Form.Document t (v ++ (cs ++ w))

/-- Two texts that differ only in white space, in escapes and in the order of keys. -/
def SameButForLayout (cs ds : List Char) : Prop :=
  ∃ t u : Form, t.Document cs ∧ u.Document ds ∧ t.Reorders u

end SchemaEvolution.Json
