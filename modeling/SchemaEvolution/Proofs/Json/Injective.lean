import SchemaEvolution.Proofs.Json.Printing

namespace SchemaEvolution.Json

variable {r s : List Char}

theorem renderString_append_inj {k l : String} (h : renderString k ++ r = renderString l ++ s) :
    k = l ∧ r = s := by
  simp only [renderString, List.cons_append, List.append_assoc, List.nil_append, List.cons.injEq,
    true_and] at h
  have hk : takeString? _ = some (k.toList, r) :=
    takeString?_of_spellsText (spellsText_escaped k.toList)
  rw [h, takeString?_of_spellsText (spellsText_escaped l.toList)] at hk
  obtain ⟨hkl, hrs⟩ := Prod.mk.inj (Option.some.inj hk)
  exact ⟨String.toList_inj.1 hkl.symm, hrs.symm⟩

theorem renderInteger_append_inj {i j : Int} (hr : Ends Numeral.goesOn r)
    (hs : Ends Numeral.goesOn s)
    (h : (Number.integer i).render ++ r = (Number.integer j).render ++ s) : i = j ∧ r = s := by
  obtain ⟨n, hn, hi⟩ := Number.exists_numeral_integer i
  obtain ⟨m, hm, hj⟩ := Number.exists_numeral_integer j
  have hread := n.takeLiteral?_text hr
  rw [← hn, h, hm, m.takeLiteral?_text hs] at hread
  obtain ⟨hliteral, hrest⟩ := Prod.mk.inj (Option.some.inj hread)
  have hnegative : m.negative = n.negative := congrArg Literal.negative hliteral
  rw [hi, hj, ← hliteral, hnegative]
  exact ⟨rfl, hrest.symm⟩

def mark : Json → Char
  | .null => 'n'
  | .bool true => 't'
  | .bool false => 'f'
  | .number _ => '0'
  | .string _ => '"'
  | .array _ => '['
  | .object _ => '\x7b'

def markOf (c : Char) : Char := if c = '-' ∨ c.isDigit then '0' else c

theorem exists_render_cons {v : Json} (h : v.floats = []) :
    ∃ c tail, v.render = c :: tail ∧ markOf c = v.mark := by
  match v with
  | .null => exact ⟨_, _, rfl, rfl⟩
  | .bool true => exact ⟨_, _, rfl, rfl⟩
  | .bool false => exact ⟨_, _, rfl, rfl⟩
  | .number (.integer i) =>
    obtain ⟨n, hn, -⟩ := Number.exists_numeral_integer i
    obtain ⟨c, tail, htext, hc⟩ := n.exists_cons
    exact ⟨c, tail, hn.trans htext, if_pos hc⟩
  | .number (.float x) => cases h
  | .string k => exact ⟨_, _, rfl, rfl⟩
  | .array xs => exact ⟨_, _, rfl, rfl⟩
  | .object ms => exact ⟨_, _, rfl, rfl⟩

theorem mark_eq_of_render_append {v w : Json} (hv : v.floats = []) (hw : w.floats = [])
    (h : v.render ++ r = w.render ++ s) : v.mark = w.mark := by
  obtain ⟨c, tail, hc, hcv⟩ := exists_render_cons hv
  obtain ⟨d, tail', hd, hdw⟩ := exists_render_cons hw
  rw [hc, hd] at h
  rw [← hcv, ← hdw, (List.cons.inj h).1]

theorem render_append_ne_bracket {v : Json} (hv : v.floats = []) : v.render ++ r ≠ ']' :: s := by
  intro h
  obtain ⟨c, tail, hc, hcv⟩ := exists_render_cons hv
  rw [hc] at h
  rw [(List.cons.inj h).1] at hcv
  rcases v with _ | (_ | _) | _ | _ | _ | _ <;> exact absurd hcv (by simp [mark, markOf])

inductive SameShape : Json → Json → Prop
  | null : SameShape .null .null
  | bool (b : Bool) : SameShape (.bool b) (.bool b)
  | number (m n : Number) : SameShape (.number m) (.number n)
  | string (k l : String) : SameShape (.string k) (.string l)
  | array (xs ys : List Json) : SameShape (.array xs) (.array ys)
  | object (ms ns : List (String × Json)) : SameShape (.object ms) (.object ns)

theorem sameShape_of_mark_eq {v w : Json} (h : v.mark = w.mark) : SameShape v w := by
  rcases v with _ | (_ | _) | _ | _ | _ | _ <;> rcases w with _ | (_ | _) | _ | _ | _ | _ <;>
    first
    | constructor
    | simp [mark] at h

def itemsTail : List Json → List Char
  | [] => []
  | x :: xs => ',' :: renderItems (x :: xs)

def membersTail : List (String × Json) → List Char
  | [] => []
  | m :: ms => ',' :: renderMembers (m :: ms)

theorem renderItems_cons (x : Json) (xs : List Json) :
    renderItems (x :: xs) = x.render ++ itemsTail xs := by
  cases xs with
  | nil => exact (List.append_nil _).symm
  | cons y ys => rfl

theorem renderMembers_cons (k : String) (x : Json) (ms : List (String × Json)) :
    renderMembers ((k, x) :: ms) = renderString k ++ ':' :: (x.render ++ membersTail ms) := by
  cases ms with
  | nil => exact congrArg (renderString k ++ ':' :: ·) (List.append_nil _).symm
  | cons m ms => exact List.append_assoc _ _ _

theorem ends_itemsTail (xs : List Json) : Ends Numeral.goesOn (itemsTail xs ++ ']' :: r) := by
  cases xs with
  | nil => exact ends_cons.2 rfl
  | cons x xs => exact ends_cons.2 rfl

theorem ends_membersTail (ms : List (String × Json)) :
    Ends Numeral.goesOn (membersTail ms ++ '\x7d' :: r) := by
  cases ms with
  | nil => exact ends_cons.2 rfl
  | cons m ms => exact ends_cons.2 rfl

mutual

theorem render_append_inj {v w : Json} {r s : List Char} (hv : v.floats = []) (hw : w.floats = [])
    (hr : Ends Numeral.goesOn r) (hs : Ends Numeral.goesOn s)
    (h : v.render ++ r = w.render ++ s) : v = w ∧ r = s := by
  match sameShape_of_mark_eq (mark_eq_of_render_append hv hw h) with
  | .null => exact ⟨rfl, List.append_cancel_left h⟩
  | .bool b => exact ⟨rfl, List.append_cancel_left h⟩
  | .number (.integer i) (.integer j) =>
    obtain ⟨rfl, hrs⟩ := renderInteger_append_inj hr hs h
    exact ⟨rfl, hrs⟩
  | .string k l =>
    obtain ⟨rfl, hrs⟩ := renderString_append_inj h
    exact ⟨rfl, hrs⟩
  | .array xs ys =>
    simp only [render, List.cons_append, List.append_assoc, List.nil_append, List.cons.injEq,
      true_and] at h
    obtain ⟨rfl, hrs⟩ := renderItems_append_inj hv hw h
    exact ⟨rfl, hrs⟩
  | .object ms ns =>
    simp only [render, List.cons_append, List.append_assoc, List.nil_append, List.cons.injEq,
      true_and] at h
    obtain ⟨rfl, hrs⟩ := renderMembers_append_inj hv hw h
    exact ⟨rfl, hrs⟩

theorem renderItems_append_inj {xs ys : List Json} {r s : List Char} (hxs : floatsItems xs = [])
    (hys : floatsItems ys = [])
    (h : renderItems xs ++ ']' :: r = renderItems ys ++ ']' :: s) : xs = ys ∧ r = s := by
  match xs, ys with
  | [], [] => exact ⟨rfl, (List.cons.inj h).2⟩
  | [], y :: ys =>
    obtain ⟨hy, -⟩ := List.append_eq_nil_iff.1 hys
    rw [renderItems_cons, List.append_assoc] at h
    exact absurd h.symm (render_append_ne_bracket hy)
  | x :: xs, [] =>
    obtain ⟨hx, -⟩ := List.append_eq_nil_iff.1 hxs
    rw [renderItems_cons, List.append_assoc] at h
    exact absurd h (render_append_ne_bracket hx)
  | x :: xs, y :: ys =>
    obtain ⟨hx, hxs'⟩ := List.append_eq_nil_iff.1 hxs
    obtain ⟨hy, hys'⟩ := List.append_eq_nil_iff.1 hys
    rw [renderItems_cons, renderItems_cons, List.append_assoc, List.append_assoc] at h
    obtain ⟨rfl, htail⟩ := render_append_inj hx hy (ends_itemsTail xs) (ends_itemsTail ys) h
    match xs, ys with
    | [], [] => exact ⟨rfl, (List.cons.inj htail).2⟩
    | [], _ :: _ => cases (List.cons.inj htail).1
    | _ :: _, [] => cases (List.cons.inj htail).1
    | x' :: xs, y' :: ys =>
      obtain ⟨heq, hrs⟩ := renderItems_append_inj hxs' hys' (List.cons.inj htail).2
      exact ⟨congrArg (x :: ·) heq, hrs⟩

theorem renderMembers_append_inj {ms ns : List (String × Json)} {r s : List Char}
    (hms : floatsMembers ms = []) (hns : floatsMembers ns = [])
    (h : renderMembers ms ++ '\x7d' :: r = renderMembers ns ++ '\x7d' :: s) :
    ms = ns ∧ r = s := by
  match ms, ns with
  | [], [] => exact ⟨rfl, (List.cons.inj h).2⟩
  | [], (l, y) :: ns =>
    rw [renderMembers_cons] at h
    cases (List.cons.inj h).1
  | (k, x) :: ms, [] =>
    rw [renderMembers_cons] at h
    cases (List.cons.inj h).1
  | (k, x) :: ms, (l, y) :: ns =>
    obtain ⟨hx, hms'⟩ := List.append_eq_nil_iff.1 hms
    obtain ⟨hy, hns'⟩ := List.append_eq_nil_iff.1 hns
    simp only [renderMembers_cons, List.append_assoc, List.cons_append] at h
    obtain ⟨rfl, hvalue⟩ := renderString_append_inj h
    obtain ⟨rfl, htail⟩ := render_append_inj hx hy (ends_membersTail ms) (ends_membersTail ns)
      (List.cons.inj hvalue).2
    match ms, ns with
    | [], [] => exact ⟨rfl, (List.cons.inj htail).2⟩
    | [], _ :: _ => cases (List.cons.inj htail).1
    | _ :: _, [] => cases (List.cons.inj htail).1
    | m :: ms, n :: ns =>
      obtain ⟨heq, hrs⟩ := renderMembers_append_inj hms' hns' (List.cons.inj htail).2
      exact ⟨congrArg ((k, x) :: ·) heq, hrs⟩

end

theorem eq_of_text_eq {v w : Json} (hv : v.floats = []) (hw : w.floats = [])
    (h : v.text = w.text) : v = w := by
  have h : v.render ++ [] = w.render ++ [] := congrArg (· ++ []) (String.ofList_injective h)
  exact (render_append_inj hv hw ends_nil ends_nil h).1

end SchemaEvolution.Json
