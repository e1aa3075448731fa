import SchemaEvolution.Proofs.Json.Form

/-!
The reader against the forms: it reads a text exactly when the text spells a form that is nested no
deeper than allowed and has a value, and it answers that value.
-/

namespace SchemaEvolution.Json

variable {c : Char} {cs ds w rest : List Char} {fuel d : Nat} {t : Form}

theorem skipBlank_append (hw : Blank w) (hcs : Ends isBlank cs) : skipBlank (w ++ cs) = cs := by
  rw [skipBlank, List.dropWhile_append_of_pos hw]
  cases cs with
  | nil => rfl
  | cons c cs => simp [ends_cons.1 hcs]

theorem ends_blank_append {p : Char → Bool} (hp : ∀ c, isBlank c → p c = false) (hw : Blank w)
    (hcs : Ends p cs) : Ends p (w ++ cs) := by
  cases w with
  | nil => exact hcs
  | cons c w => exact ends_cons.2 (hp c (hw c (.head w)))

theorem goesOn_of_isBlank (c : Char) (h : isBlank c) : Numeral.goesOn c = false := by
  simp only [isBlank, Bool.or_eq_true, beq_iff_eq] at h
  obtain ((rfl | rfl) | rfl) | rfl := h <;> rfl

theorem exists_skipBlank (cs : List Char) : ∃ w, Blank w ∧ cs = w ++ skipBlank cs := by
  refine ⟨cs.takeWhile isBlank, ?_, List.takeWhile_append_dropWhile.symm⟩
  intro _
  exact List.mem_takeWhile_imp

def Starts (c : Char) : Prop := isBlank c = false ∧ c ≠ ']'

theorem Numeral.exists_cons (n : Numeral) : ∃ c cs, n.text = c :: cs ∧ (c = '-' ∨ c.isDigit) := by
  obtain ⟨d, ds, hds⟩ := List.exists_cons_of_ne_nil n.whole_ne_nil
  have hd : d.isDigit := n.isDigit_whole d (hds ▸ .head ds)
  rw [text, hds, signText]
  split
  · exact ⟨_, _, rfl, .inl rfl⟩
  · exact ⟨_, _, rfl, .inr hd⟩

theorem starts_of_isDigit (hc : c.isDigit) : Starts c := by
  constructor
  · rw [Bool.eq_false_iff]
    intro h
    simp only [isBlank, Bool.or_eq_true, beq_iff_eq] at h
    obtain ((rfl | rfl) | rfl) | rfl := h <;> exact absurd hc (by decide)
  · rintro rfl
    exact absurd hc (by decide)

theorem Spells.exists_cons (h : Spells t cs) : ∃ c tail, cs = c :: tail ∧ Starts c := by
  cases h with
  | number n =>
    obtain ⟨c, tail, heq, rfl | hc⟩ := n.exists_cons
    · exact ⟨_, tail, heq, by decide, by decide⟩
    · exact ⟨c, tail, heq, starts_of_isDigit hc⟩
  | _ => exact ⟨_, _, rfl, by decide, by decide⟩

theorem Spells.ends_append (h : Spells t cs) (rest : List Char) : Ends isBlank (cs ++ rest) := by
  obtain ⟨c, tail, rfl, hc⟩ := h.exists_cons
  exact ends_cons.2 hc.1

theorem SpellsItems.exists_cons {xs : List Form} (h : SpellsItems xs cs) :
    ∃ c tail, cs = c :: tail ∧ Starts c := by
  cases h with
  | last hx _ | more hx _ _ _ =>
    obtain ⟨c, tail, rfl, hc⟩ := hx.exists_cons
    exact ⟨c, _, rfl, hc⟩

theorem SpellsMembers.exists_cons {ms : List (String × Form)} (h : SpellsMembers ms cs) :
    ∃ tail, cs = '"' :: tail := by
  cases h with
  | last | more => exact ⟨_, rfl⟩

theorem takeValue?_numeral (hc : c = '-' ∨ c.isDigit) :
    takeValue? (fuel + 1) d (c :: cs) = (takeLiteral? (c :: cs)).bind fun r =>
      r.1.number?.bind fun n => some (.number n, r.2) := by
  have hne : c ∉ ['n', 't', 'f', '"', '[', '\x7b'] := by
    intro hmem
    simp only [List.mem_cons, List.not_mem_nil, or_false] at hmem
    obtain rfl | rfl | rfl | rfl | rfl | rfl := hmem <;> exact absurd hc (by decide)
  rw [takeValue?]
  · rfl
  all_goals
    rintro _ h
    exact hne (by simp [(List.cons.inj h).1])

@[simp] theorem Numeral.ofNumeral?_text (n : Numeral) : Number.ofNumeral? n.text = n.literal.number? := by
  have h := n.takeLiteral?_text ends_nil
  rw [List.append_nil] at h
  rw [Number.ofNumeral?, h]

theorem takeValue?_text (n : Numeral) (hrest : Ends Numeral.goesOn rest) :
    takeValue? (fuel + 1) d (n.text ++ rest) =
      ((Number.ofNumeral? n.text).map .number).map (·, rest) := by
  have hread := n.takeLiteral?_text hrest
  obtain ⟨c, tail, htext, hc⟩ := n.exists_cons
  rw [n.ofNumeral?_text]
  rw [htext] at hread ⊢
  rw [List.cons_append, takeValue?_numeral hc, ← List.cons_append, hread, Option.bind_some]
  cases n.literal.number? <;> rfl

theorem takeValue?_array (hw : Blank w) (hcs : Starts c) :
    takeValue? (fuel + 1) (d + 1) ('[' :: (w ++ c :: cs)) =
      (takeItems? fuel d (c :: cs)).map fun r => (.array r.1, r.2) := by
  rw [takeValue?, skipBlank_append hw (ends_cons.2 hcs.1)]
  split
  next h => exact absurd (List.cons.inj h).1 hcs.2
  next => rfl

theorem takeValue?_object (hw : Blank w) :
    takeValue? (fuel + 1) (d + 1) ('\x7b' :: (w ++ '"' :: cs)) =
      (takeMembers? fuel d ('"' :: cs)).map fun r => (ofMembers r.1, r.2) := by
  rw [takeValue?, skipBlank_append hw (ends_cons.2 rfl)]
  rfl

theorem takeMembers?_member {k : String} {ks v : List Char} (hk : SpellsText k.toList ks)
    (hv : Blank v) (hw : Blank w) (hcs : Ends isBlank cs) :
    takeMembers? (fuel + 1) d ('"' :: (ks ++ '"' :: (v ++ ':' :: (w ++ cs)))) =
      (takeValue? fuel d cs).bind fun (x, rest) =>
        match skipBlank rest with
        | '\x7d' :: rest => some ([(k, x)], rest)
        | ',' :: rest => (takeMembers? fuel d (skipBlank rest)).map fun r => ((k, x) :: r.1, r.2)
        | _ => none := by
  have hkey : takeKey? ('"' :: (ks ++ '"' :: (v ++ ':' :: (w ++ cs)))) =
      some (k, v ++ ':' :: (w ++ cs)) := by
    rw [takeKey?, takeString?_of_spellsText hk, Option.map_some, String.ofList_toList]
  have hcolon : takeColon? (v ++ ':' :: (w ++ cs)) = some cs := by
    rw [takeColon?, skipBlank_append hv (ends_cons.2 rfl)]
    exact congrArg some (skipBlank_append hw hcs)
  rw [takeMembers?, hkey]
  simp only [Option.bind_eq_bind, Option.bind_some, hcolon, Option.pure_def, Option.map_eq_bind]
  rfl

mutual

theorem takeValue?_of_spells (fuel : Nat) {d : Nat} {t : Form} {cs rest : List Char}
    (h : Spells t cs) (hfuel : 2 * cs.length ≤ fuel) (hrest : Ends Numeral.goesOn rest) :
    takeValue? fuel d (cs ++ rest) = (t.value? d).map (·, rest) := by
  cases fuel with
  | zero =>
    obtain ⟨c, tail, rfl, -⟩ := h.exists_cons
    simp at hfuel
  | succ fuel =>
    cases h with
    | null => rfl
    | true => rfl
    | false => rfl
    | number n => rw [takeValue?_text n hrest, Form.value?]
    | @string s cs hs =>
      rw [List.cons_append, List.append_assoc, List.singleton_append, takeValue?,
        takeString?_of_spellsText hs, Option.map_some, String.ofList_toList, Form.value?,
        Option.map_some]
    | @noItems w hw =>
      rw [List.cons_append, List.append_assoc, List.singleton_append]
      cases d with
      | zero => rfl
      | succ d => rw [takeValue?, skipBlank_append hw (ends_cons.2 rfl)]; rfl
    | @array xs w cs hw hxs =>
      rw [List.length_cons, List.length_append, List.length_append] at hfuel
      rw [List.cons_append, List.append_assoc, List.append_assoc, List.singleton_append]
      cases d with
      | zero => rfl
      | succ d =>
        have hread : takeItems? fuel d (cs ++ ']' :: rest) = _ :=
          takeItems?_of_spells fuel hxs (by omega)
        obtain ⟨c, tail, rfl, hc⟩ := hxs.exists_cons
        rw [List.cons_append, takeValue?_array hw hc, ← List.cons_append, hread, Form.value?,
          Option.map_map, Option.map_map]
        rfl
    | @noMembers w hw =>
      rw [List.cons_append, List.append_assoc, List.singleton_append]
      cases d with
      | zero => rfl
      | succ d => rw [takeValue?, skipBlank_append hw (ends_cons.2 rfl)]; rfl
    | @object ms w cs hw hms =>
      rw [List.length_cons, List.length_append, List.length_append] at hfuel
      rw [List.cons_append, List.append_assoc, List.append_assoc, List.singleton_append]
      cases d with
      | zero => rfl
      | succ d =>
        have hread : takeMembers? fuel d (cs ++ '\x7d' :: rest) = _ :=
          takeMembers?_of_spells fuel hms (by omega)
        obtain ⟨tail, rfl⟩ := hms.exists_cons
        rw [List.cons_append, takeValue?_object hw, ← List.cons_append, hread, Form.value?,
          Option.map_map, Option.map_map]
        rfl

theorem takeItems?_of_spells (fuel : Nat) {d : Nat} {xs : List Form} {cs rest : List Char}
    (h : SpellsItems xs cs) (hfuel : 2 * cs.length + 1 ≤ fuel) :
    takeItems? fuel d (cs ++ ']' :: rest) = (Form.valueItems? d xs).map (·, rest) := by
  cases fuel with
  | zero => omega
  | succ fuel =>
    cases h with
    | @last x cs w hx hw =>
      rw [List.length_append] at hfuel
      have hend : Ends Numeral.goesOn (w ++ ']' :: rest) :=
        ends_blank_append goesOn_of_isBlank hw (ends_cons.2 rfl)
      have hskip : skipBlank (w ++ ']' :: rest) = _ := skipBlank_append hw (ends_cons.2 rfl)
      rw [List.append_assoc, takeItems?, takeValue?_of_spells fuel hx (by omega) hend]
      cases hx : x.value? d <;> simp [Form.valueItems?, hx, hskip]
    | @more x xs cs ds v w hx hv hw hxs =>
      simp only [List.length_append, List.length_cons] at hfuel
      have hend : Ends Numeral.goesOn (v ++ ',' :: (w ++ (ds ++ ']' :: rest))) :=
        ends_blank_append goesOn_of_isBlank hv (ends_cons.2 rfl)
      have hcomma : skipBlank (v ++ ',' :: (w ++ (ds ++ ']' :: rest))) = _ :=
        skipBlank_append hv (ends_cons.2 rfl)
      have hskip : skipBlank (w ++ (ds ++ ']' :: rest)) = _ := skipBlank_append hw (by
        obtain ⟨c, tail, rfl, hc⟩ := hxs.exists_cons
        exact ends_cons.2 hc.1)
      have hrest : takeItems? fuel d (ds ++ ']' :: rest) = _ :=
        takeItems?_of_spells fuel hxs (by omega)
      simp only [List.append_assoc, List.cons_append]
      rw [takeItems?, takeValue?_of_spells fuel hx (by omega) hend]
      cases hx : x.value? d with
      | none => simp [Form.valueItems?, hx]
      | some x =>
        cases hxs : Form.valueItems? d xs <;> simp [Form.valueItems?, hx, hcomma, hskip, hrest, hxs]

theorem takeMembers?_of_spells (fuel : Nat) {d : Nat} {ms : List (String × Form)}
    {cs rest : List Char} (h : SpellsMembers ms cs) (hfuel : 2 * cs.length + 1 ≤ fuel) :
    takeMembers? fuel d (cs ++ '\x7d' :: rest) = (Form.valueMembers? d ms).map (·, rest) := by
  cases fuel with
  | zero => omega
  | succ fuel =>
    cases h with
    | @last k x ks cs v w u hk hv hw hx hu =>
      simp only [List.length_append, List.length_cons] at hfuel
      have hend : Ends Numeral.goesOn (u ++ '\x7d' :: rest) :=
        ends_blank_append goesOn_of_isBlank hu (ends_cons.2 rfl)
      have hskip : skipBlank (u ++ '\x7d' :: rest) = _ := skipBlank_append hu (ends_cons.2 rfl)
      simp only [List.append_assoc, List.cons_append]
      rw [takeMembers?_member hk hv hw (hx.ends_append _),
        takeValue?_of_spells fuel hx (by omega) hend]
      cases hx : x.value? d <;> simp [Form.valueMembers?, hx, hskip]
    | @more k x ms ks cs ds v w u t hk hv hw hx hu ht hms =>
      simp only [List.length_append, List.length_cons] at hfuel
      have hend : Ends Numeral.goesOn (u ++ ',' :: (t ++ (ds ++ '\x7d' :: rest))) :=
        ends_blank_append goesOn_of_isBlank hu (ends_cons.2 rfl)
      have hcomma : skipBlank (u ++ ',' :: (t ++ (ds ++ '\x7d' :: rest))) = _ :=
        skipBlank_append hu (ends_cons.2 rfl)
      have hskip : skipBlank (t ++ (ds ++ '\x7d' :: rest)) = _ := skipBlank_append ht (by
        obtain ⟨tail, rfl⟩ := hms.exists_cons
        exact ends_cons.2 rfl)
      have hrest : takeMembers? fuel d (ds ++ '\x7d' :: rest) = _ :=
        takeMembers?_of_spells fuel hms (by omega)
      simp only [List.append_assoc, List.cons_append]
      rw [takeMembers?_member hk hv hw (hx.ends_append _),
        takeValue?_of_spells fuel hx (by omega) hend]
      cases hx : x.value? d with
      | none => simp [Form.valueMembers?, hx]
      | some x =>
        cases hms : Form.valueMembers? d ms <;>
          simp [Form.valueMembers?, hx, hcomma, hskip, hrest, hms]

end

theorem of_skipBlank (h : skipBlank cs = ds) : ∃ w, Blank w ∧ cs = w ++ ds := by
  obtain ⟨w, hw, hcs⟩ := exists_skipBlank cs
  exact ⟨w, hw, h ▸ hcs⟩

theorem of_takeKey? {k : String} (h : takeKey? cs = some (k, rest)) :
    ∃ ks, SpellsText k.toList ks ∧ cs = '"' :: (ks ++ '"' :: rest) := by
  unfold takeKey? at h
  split at h
  · obtain ⟨⟨s, rest'⟩, htake, heq⟩ := Option.map_eq_some_iff.1 h
    obtain ⟨rfl, rfl⟩ := Prod.mk.inj heq
    obtain ⟨ks, hks, rfl⟩ := spellsText_of_takeString? htake
    exact ⟨ks, by rwa [String.toList_ofList], rfl⟩
  · cases h

theorem of_takeColon? (h : takeColon? cs = some rest) :
    ∃ v w, Blank v ∧ Blank w ∧ cs = v ++ ':' :: (w ++ rest) := by
  unfold takeColon? at h
  split at h
  next hcolon =>
    obtain ⟨v, hv, rfl⟩ := of_skipBlank hcolon
    obtain ⟨w, hw, rfl⟩ := of_skipBlank (Option.some.inj h)
    exact ⟨v, w, hv, hw, rfl⟩
  · cases h

mutual

theorem spells_of_takeValue? (fuel : Nat) {d : Nat} {cs rest : List Char} {v : Json}
    (h : takeValue? fuel d cs = some (v, rest)) :
    ∃ t ds, Spells t ds ∧ t.value? d = some v ∧ cs = ds ++ rest := by
  cases fuel with
  | zero => simp [takeValue?] at h
  | succ fuel =>
    unfold takeValue? at h
    -- one case for each way a value starts: the three words, texts, arrays, objects, numbers
    split at h
    · cases h; exact ⟨.null, _, .null, rfl, rfl⟩
    · cases h; exact ⟨.bool true, _, .true, rfl, rfl⟩
    · cases h; exact ⟨.bool false, _, .false, rfl, rfl⟩
    · obtain ⟨⟨s, rest'⟩, htake, heq⟩ := Option.map_eq_some_iff.1 h
      obtain ⟨rfl, rfl⟩ := Prod.mk.inj heq
      obtain ⟨text, htext, rfl⟩ := spellsText_of_takeString? htake
      have htext : SpellsText (String.ofList s).toList text := by rwa [String.toList_ofList]
      exact ⟨.string (String.ofList s), _, .string htext, rfl, by simp⟩
    · split at h
      · cases h
      next d =>
        split at h
        next hskip =>
          cases h
          obtain ⟨w, hw, rfl⟩ := of_skipBlank hskip
          exact ⟨.array [], _, .noItems hw, rfl, by simp⟩
        next =>
          obtain ⟨⟨xs, rest'⟩, htake, heq⟩ := Option.map_eq_some_iff.1 h
          obtain ⟨rfl, rfl⟩ := Prod.mk.inj heq
          obtain ⟨ts, ds, hts, hvalue, hds⟩ := spells_of_takeItems? fuel htake
          obtain ⟨w, hw, rfl⟩ := of_skipBlank hds
          exact ⟨.array ts, _, .array hw hts, by rw [Form.value?, hvalue, Option.map_some], by simp⟩
    · split at h
      · cases h
      next d =>
        split at h
        next hskip =>
          cases h
          obtain ⟨w, hw, rfl⟩ := of_skipBlank hskip
          exact ⟨.object [], _, .noMembers hw, rfl, by simp⟩
        next =>
          obtain ⟨⟨ms, rest'⟩, htake, heq⟩ := Option.map_eq_some_iff.1 h
          obtain ⟨rfl, rfl⟩ := Prod.mk.inj heq
          obtain ⟨ts, ds, hts, hvalue, hds⟩ := spells_of_takeMembers? fuel htake
          obtain ⟨w, hw, rfl⟩ := of_skipBlank hds
          exact ⟨.object ts, _, .object hw hts, by rw [Form.value?, hvalue, Option.map_some],
            by simp⟩
    · obtain ⟨⟨l, rest'⟩, htake, h⟩ := Option.bind_eq_some_iff.1 h
      obtain ⟨n, hn, h⟩ := Option.bind_eq_some_iff.1 h
      cases h
      obtain ⟨numeral, rfl, rfl⟩ := of_takeLiteral? htake
      refine ⟨.number numeral.text, _, .number numeral, ?_, rfl⟩
      simp [Form.value?, hn]

theorem spells_of_takeItems? (fuel : Nat) {d : Nat} {cs rest : List Char} {vs : List Json}
    (h : takeItems? fuel d cs = some (vs, rest)) :
    ∃ xs ds, SpellsItems xs ds ∧ Form.valueItems? d xs = some vs ∧ cs = ds ++ ']' :: rest := by
  cases fuel with
  | zero => simp [takeItems?] at h
  | succ fuel =>
    rw [takeItems?] at h
    obtain ⟨⟨v, rest'⟩, hv, htail⟩ := Option.bind_eq_some_iff.1 h
    obtain ⟨x, ds, hx, hvalue, rfl⟩ := spells_of_takeValue? fuel hv
    dsimp only at htail
    split at htail
    next hskip =>
      cases htail
      obtain ⟨w, hw, rfl⟩ := of_skipBlank hskip
      exact ⟨[x], _, .last hx hw, by simp [Form.valueItems?, hvalue], by simp⟩
    next hskip =>
      obtain ⟨⟨vs, rest'⟩, hvs, heq⟩ := Option.bind_eq_some_iff.1 htail
      cases heq
      obtain ⟨u, hu, rfl⟩ := of_skipBlank hskip
      obtain ⟨xs, es, hxs, hvalues, hes⟩ := spells_of_takeItems? fuel hvs
      obtain ⟨w, hw, rfl⟩ := of_skipBlank hes
      exact ⟨x :: xs, _, .more hx hu hw hxs, by simp [Form.valueItems?, hvalue, hvalues], by simp⟩
    · cases htail

theorem spells_of_takeMembers? (fuel : Nat) {d : Nat} {cs rest : List Char}
    {vs : List (String × Json)} (h : takeMembers? fuel d cs = some (vs, rest)) :
    ∃ ms ds, SpellsMembers ms ds ∧ Form.valueMembers? d ms = some vs ∧
      cs = ds ++ '\x7d' :: rest := by
  cases fuel with
  | zero => simp [takeMembers?] at h
  | succ fuel =>
    rw [takeMembers?] at h
    obtain ⟨⟨k, rest₁⟩, hk, h⟩ := Option.bind_eq_some_iff.1 h
    obtain ⟨rest₂, hcolon, h⟩ := Option.bind_eq_some_iff.1 h
    obtain ⟨⟨v, rest₃⟩, hv, htail⟩ := Option.bind_eq_some_iff.1 h
    obtain ⟨ks, hks, rfl⟩ := of_takeKey? hk
    obtain ⟨v₁, v₂, hv₁, hv₂, rfl⟩ := of_takeColon? hcolon
    obtain ⟨x, ds, hx, hvalue, rfl⟩ := spells_of_takeValue? fuel hv
    dsimp only at htail
    split at htail
    next hskip =>
      cases htail
      obtain ⟨u, hu, rfl⟩ := of_skipBlank hskip
      exact ⟨[(k, x)], _, .last hks hv₁ hv₂ hx hu, by simp [Form.valueMembers?, hvalue], by simp⟩
    next hskip =>
      obtain ⟨⟨vs, rest'⟩, hvs, heq⟩ := Option.bind_eq_some_iff.1 htail
      cases heq
      obtain ⟨u, hu, rfl⟩ := of_skipBlank hskip
      obtain ⟨ms, es, hms, hvalues, hes⟩ := spells_of_takeMembers? fuel hvs
      obtain ⟨w, hw, rfl⟩ := of_skipBlank hes
      exact ⟨(k, x) :: ms, _, .more hks hv₁ hv₂ hx hu hw hms,
        by simp [Form.valueMembers?, hvalue, hvalues], by simp⟩
    · cases htail

end

theorem spells_of_ofNumeral? {n : Number} (h : Number.ofNumeral? cs = some n) :
    Spells (.number cs) cs := by
  unfold Number.ofNumeral? at h
  split at h
  next htake =>
    obtain ⟨numeral, rfl, -⟩ := of_takeLiteral? htake
    rw [List.append_nil]
    exact .number numeral
  · cases h

theorem ofChars?_of_document (h : t.Document cs) : ofChars? cs = t.value? maxDepth := by
  obtain ⟨hv, hcs, hw⟩ := h
  next v cs w =>
  have hstart : skipBlank (v ++ (cs ++ w)) = cs ++ w := skipBlank_append hv (hcs.ends_append w)
  have hend : skipBlank w = [] := by
    have h := skipBlank_append hw ends_nil
    rwa [List.append_nil] at h
  have hrest : Ends Numeral.goesOn w := by
    have h := ends_blank_append goesOn_of_isBlank hw ends_nil
    rwa [List.append_nil] at h
  rw [ofChars?, hstart, takeValue?_of_spells _ hcs (by simp; omega) hrest]
  cases t.value? maxDepth <;> simp [hend]

/-- Every text that is read is a text of some form. -/
theorem exists_document_of_ofChars? {v : Json} (h : ofChars? cs = some v) :
    ∃ t : Form, t.Document cs ∧ t.value? maxDepth = some v := by
  obtain ⟨⟨v', rest⟩, htake, htail⟩ := Option.bind_eq_some_iff.1 h
  obtain ⟨t, ds, ht, hvalue, hds⟩ := spells_of_takeValue? _ htake
  obtain ⟨u, hu, rfl⟩ := of_skipBlank hds
  dsimp only at htail
  split at htail
  next hempty =>
    obtain ⟨w, hw, hrest⟩ := of_skipBlank (List.isEmpty_iff.1 hempty)
    rw [List.append_nil] at hrest
    rw [hrest]
    exact ⟨t, .mk hu ht hw, hvalue.trans htail⟩
  · cases htail

/-- White space, escapes and the order of keys have no part in what is read. -/
theorem SameButForLayout.ofChars?_eq (h : SameButForLayout cs ds) : ofChars? cs = ofChars? ds := by
  obtain ⟨t, u, ht, hu, htu⟩ := h
  rw [ofChars?_of_document ht, ofChars?_of_document hu, htu.value?_eq]

end SchemaEvolution.Json
