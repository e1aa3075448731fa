import SchemaEvolution.Proofs.JsonSchema.Canonical
import SchemaEvolution.Proofs.JsonSchema.GrownIndex
import SchemaEvolution.Proofs.JsonSchema.OpenContent

namespace SchemaEvolution.JsonSchema

open Json (Form Spells SpellsText SpellsMembers)

/-- The schemas of a value are reached through properties, the one schema of items, and lists of
schemas; to one of them a property is added that it did not have. -/
inductive AddsProperty (name : String) (property : Json) : Json → Json → Prop
  | first {ms : List (String × Json)} : Names.find? "properties" ms = none →
    AddsProperty name property (.object ms)
      (.object (Names.put "properties" (.object [(name, property)]) ms))
  | another {ms ps : List (String × Json)} : Names.find? "properties" ms = some (.object ps) →
    Names.find? name ps = none → AddsProperty name property (.object ms)
      (.object (Names.put "properties" (.object (Names.put name property ps)) ms))
  | property {ms ps : List (String × Json)} {k : String} {x y : Json} :
    Names.find? "properties" ms = some (.object ps) → Names.find? k ps = some x →
    AddsProperty name property x y → AddsProperty name property (.object ms)
      (.object (Names.put "properties" (.object (Names.put k y ps)) ms))
  | items {ms : List (String × Json)} {x y : Json} : Names.find? "items" ms = some x →
    AddsProperty name property x y →
    AddsProperty name property (.object ms) (.object (Names.put "items" y ms))
  | member {ms : List (String × Json)} {keyword : String} {xs : List Json} {i : Nat} {x y : Json} :
    keyword ∈ listKeywords → Names.find? keyword ms = some (.array xs) → xs[i]? = some x →
    AddsProperty name property x y →
    AddsProperty name property (.object ms) (.object (Names.put keyword (.array (xs.set i y)) ms))

namespace AddsProperty

variable {name : String} {property v w : Json}

theorem slot (h : AddsProperty name property v w) (key : String) : Slot key (some v) (some w) := by
  cases h <;> exact .objects

theorem anonymous_singleton (hform : IsSchemaForm property) (h : Anonymous property) :
    Anonymous (.object [(name, property)]) := by
  refine ⟨?_, h, trivial⟩
  intro k _
  rw [Json.string?, Json.get?, Names.find?_cons]
  split
  · cases hform <;> rfl
  · rfl

theorem grows (h : AddsProperty name property v w) (hname : name ∉ itemKeywords)
    (hform : IsSchemaForm property) (hordered : property.Ordered)
    (hanonymous : Anonymous property) : Grows v w := by
  induction h with
  | first hnone =>
    refine .added hnone (by decide) (.object _) ⟨List.pairwise_singleton _ _, hordered, trivial⟩ ?_
    exact anonymous_singleton hform hanonymous
  | another hps hnone =>
    exact .member hps .objects (.added hnone hname hform hordered hanonymous)
  | property hps hx hadds ih => exact .member hps .objects (.member hx (hadds.slot _) ih)
  | items hx hadds ih => exact .member hx (hadds.slot _) ih
  | member hkeyword hxs hx _ ih =>
    exact .member hxs (.lists hkeyword (List.length_set ..)) (.item hx ih)

end AddsProperty

namespace Grows

variable {v w x root grown : Json} {d : Draft} {p c : Pointer}

theorem keepsSlots (h : Grows v w) (hv : v.Ordered) : KeepsSlots v w := h.slot hv

theorem isObjectAt (h : Grows root grown) (hroot : root.Ordered) (hp : isObjectAt root p) :
    isObjectAt grown p := by
  obtain ⟨x, hx, hobject⟩ := isObjectAt_iff.1 hp
  obtain ⟨y, hy, hxy⟩ := h.find? hroot hx
  exact isObjectAt_iff.2 ⟨y, hy, hxy.isObject_eq.trans hobject⟩

theorem arrayPlaces_eq (h : Grows v w) (hv : v.Ordered) (keyword : String) :
    arrayPlaces keyword w = arrayPlaces keyword v := by
  have hlength := (h.slot hv keyword).array?_length
  have hget (u : Json) : ((u.array? keyword).getD []).length =
      ((u.array? keyword).map (·.length)).getD 0 := by
    cases u.array? keyword <;> rfl
  rw [arrayPlaces, hget, hlength, ← hget, arrayPlaces]

theorem itemPlaces_eq (h : Grows v w) (hv : v.Ordered) : itemPlaces w = itemPlaces v := by
  have harray := h.arrayPlaces_eq hv "items"
  have hslot := h.slot hv "items"
  unfold itemPlaces
  generalize v.get? "items" = a at hslot
  generalize w.get? "items" = b at hslot
  cases hslot with
  | same => simp only [harray]
  | objects => rfl
  | lists hmem => exact absurd hmem (by decide)
  | added hitem => exact absurd hitem (by decide)

theorem mem_propertyPlaces (h : Grows v w) (hv : v.Ordered) (hc : c ∈ propertyPlaces v)
    (hx : c.find? v = some x) : c ∈ propertyPlaces w := by
  obtain ⟨ms, name, hms, -, rfl⟩ := mem_propertyPlaces_and_find?.1 ⟨hc, hx⟩
  obtain ⟨y, hy, -⟩ := h.find? hv hx
  have hslot := h.slot hv "properties"
  rw [object?_eq_some_iff.1 hms] at hslot
  obtain ⟨ns, hns⟩ : ∃ ns, w.get? "properties" = some (.object ns) := by
    generalize w.get? "properties" = b at hslot
    cases hslot with
    | same => exact ⟨ms, rfl⟩
    | objects => exact ⟨_, rfl⟩
  rw [find?_pair (by decide) hns, Pointer.step_escape] at hy
  exact (mem_propertyPlaces_and_find?.2 ⟨ns, name, object?_eq_some_iff.2 hns, hy, rfl⟩).1

theorem mem_childPlaces (h : Grows v w) (hv : v.Ordered) (hc : c ∈ childPlaces v)
    (hx : c.find? v = some x) : c ∈ childPlaces w := by
  simp only [childPlaces, List.mem_append, List.mem_flatMap, h.arrayPlaces_eq hv,
    h.itemPlaces_eq hv] at hc ⊢
  exact hc.imp_left (.imp_left (.imp_right fun hc => h.mem_propertyPlaces hv hc hx))

theorem mem_targetPlaces {target : Pointer} (h : Grows root grown) (hroot : root.Ordered)
    (hv : p.find? root = some v) (hobject : v.isObject) (hvw : Grows v w)
    (ht : target ∈ targetPlaces (References.index d root) v p) :
    target ∈ targetPlaces (References.index d grown) w p := by
  obtain ⟨reference, href, hresolve⟩ := JsonSchema.mem_targetPlaces.1 ht
  refine JsonSchema.mem_targetPlaces.2 ⟨reference, ?_, ?_⟩
  · rw [hvw.string?_eq (ordered_of_find? hroot hv), href]
  · rw [h.resolve?_eq hroot hv hobject, hresolve]

theorem reached (h : Grows root grown) (hroot : root.Ordered) (hp : Reached d root p) :
    Reached d grown p := by
  induction hp with
  | start hp =>
    obtain ⟨hnil, hobject⟩ := List.mem_filter.1 hp
    exact .start (List.mem_filter.2 ⟨hnil, h.isObjectAt hroot hobject⟩)
  | @step p q hp hq ih =>
    obtain ⟨v, hv, hobject, hways⟩ := mem_nextPlaces.1 hq
    obtain ⟨w, hw, hvw⟩ := h.find? hroot hv
    refine Reached.next ih (mem_nextPlaces.2 ⟨w, hw, h.isObjectAt hroot hobject, ?_⟩)
    obtain htarget | ⟨c, hc, rfl⟩ := hways
    · obtain ⟨u, hu, hvobject⟩ := isObjectAt_iff.1 (Reached.isObjectAt hp)
      cases hv.symm.trans hu
      exact .inl (h.mem_targetPlaces hroot hv hvobject hvw htarget)
    · obtain ⟨x, hx, -⟩ := isObjectAt_iff.1 hobject
      rw [Pointer.find?_append, hv] at hx
      exact .inr ⟨c, hvw.mem_childPlaces (ordered_of_find? hroot hv) hc hx, rfl⟩

theorem ofDocument_eq (h : Grows root grown) (hroot : root.Ordered) :
    Draft.ofDocument grown = Draft.ofDocument root := by
  rw [Draft.ofDocument, h.string?_eq hroot, Draft.ofDocument]

theorem mem_places (h : Grows root grown) (hroot : root.Ordered)
    (hp : p ∈ (Explored.ofRoot root).places) : p ∈ (Explored.ofRoot grown).places := by
  rw [Explored.mem_places_ofRoot] at hp ⊢
  rw [h.ofDocument_eq hroot]
  exact h.reached hroot hp

theorem pairDiffs_harmless (h : Grows root grown) (hroot : root.Ordered) :
    Harmless (pairDiffs .standard (.ofRoot grown) (.ofRoot root)) := by
  apply pairDiffs_harmless_iff.2
  intro location old hold
  obtain ⟨p, hp, hfind, rfl⟩ := Explored.mem_nodes.1 hold
  obtain ⟨new, hnew, hgrows⟩ := h.find? hroot hfind
  refine ⟨new, Explored.node?_ofRoot_eq_some_iff.2
    (Explored.mem_nodes.2 ⟨p, h.mem_places hroot hp, hnew, rfl⟩), ?_⟩
  change Node.Keeps ⟨_, new, Draft.ofDocument grown⟩ ⟨_, old, Draft.ofDocument root⟩
  rw [h.ofDocument_eq hroot]
  exact (hgrows.keepsSlots (ordered_of_find? hroot hfind)).keeps

end Grows

/-- A schema is added as a property to a schema in a document; it declares no address and no name,
and the name of the property is no keyword, of which it would only matter that it is none for items.
Then every location that was explored still is, and backward rules find nothing but closed
content. -/
theorem only_notOpen_of_addsProperty {bytes : List UInt8} {e : Explored} {name : String} {property grown : Json}
    (h : Explored.parse bytes = .ok e) (hname : name ∉ itemKeywords) (hform : IsSchemaForm property)
    (hordered : property.Ordered) (hanonymous : Anonymous property)
    (hadds : AddsProperty name property e.root grown) :
    e.nodes.map (·.1) ⊆ (Explored.ofRoot grown).nodes.map (·.1) ∧
    ∀ d ∈ (compare .backward (.ofRoot grown) e).diffs, d.kind = .additionalPropertiesNotOpen := by
  obtain ⟨root, hread, -, rfl⟩ := Explored.parse_eq_ok_iff.1 h
  obtain ⟨s, -, hs⟩ := Option.bind_eq_some_iff.1 hread
  have hroot : root.Ordered := Json.ordered_of_parse? hs
  have hgrows : Grows root grown := hadds.grows hname hform hordered hanonymous
  constructor
  · rw [Explored.keys_nodes_ofRoot, Explored.keys_nodes_ofRoot]
    apply List.map_subset _
    intro p
    exact hgrows.mem_places hroot
  · intro d hd
    have hempty := List.isEmpty_iff.1
      (of_backward_isEmpty_iff.2 (hgrows.pairDiffs_harmless hroot))
    rw [diffs_compare_eq (by decide), hempty, List.nil_append, List.mem_map] at hd
    obtain ⟨n, -, rfl⟩ := hd
    rfl

def ring : Json := .object [("properties", .object [("rest", .object [("$ref", .string "#")])])]

def ringSite : Site := ⟨(rootSite ring).base, .draft202012, ["properties", "rest"]⟩

def ringMore : Json := .object [("properties", .object [("rest", .object [("$ref", .string "#"),
  ("properties", .object [("more", .object [("type", .string "string")])])])])]

def ringForm : Form := .object [("properties", .object [("rest", .object [("$ref", .string "#")])])]

def ringText : String := "\x7b\"properties\":\x7b\"rest\":\x7b\"$ref\":\"#\"\x7d\x7d\x7d"

theorem document_ringText : ringForm.Document ringText.toList := by
  have hnil := Json.blank_nil
  have hproperties : SpellsText "properties".toList "properties".toList := by decide +kernel
  have hrest : SpellsText "rest".toList "rest".toList := by decide +kernel
  have href : SpellsText "$ref".toList "$ref".toList := by decide +kernel
  have htarget : SpellsText "#".toList "#".toList := by decide +kernel
  have hinner := Spells.object hnil (.last href hnil hnil (.string htarget) hnil)
  have houter := Spells.object hnil (.last hrest hnil hnil hinner hnil)
  exact .mk hnil (.object hnil (.last hproperties hnil hnil houter hnil)) hnil

def ringLinkage : Linkage := ⟨ring, [rootSite ring, ringSite], []⟩

theorem linkage_ring : Linkage.of? ring = some ringLinkage := by
  have hroot : (rootSite ring).children ring (Keyword.isSearched (rootSite ring).draft) =
      [ringSite] := by decide +kernel
  have hrest : ringSite.children ring (Keyword.isSearched ringSite.draft) = [] := by decide +kernel
  have hrun : Closure.Run (fun s => s.children ring (Keyword.isSearched s.draft)) [rootSite ring] []
      [rootSite ring, ringSite] := by
    refine .enter (by decide +kernel) ?_
    rw [hroot]
    refine .enter (by decide +kernel) ?_
    rw [hrest]
    exact .done
  have hsites : allSites ring = [rootSite ring, ringSite] := hrun.of_eq (by decide +kernel)
  have hexternal : [rootSite ring, ringSite].mapM (Site.external? ring) = some [[], []] := by
    decide +kernel
  rw [Linkage.of?, hsites, hexternal]
  rfl

theorem reachedSites_ring : reachedSites ringLinkage = [rootSite ring, ringSite] := by
  have hroot : nextSites ringLinkage (rootSite ring) = [ringSite] := by decide +kernel
  have hback : nextSites ringLinkage ringSite = [rootSite ring] := by decide +kernel
  have hrun : Closure.Run (nextSites ringLinkage) [rootSite ring] [] [rootSite ring, ringSite] := by
    refine .enter (by decide +kernel) (hroot ▸ .enter (by decide +kernel) ?_)
    exact hback ▸ .skip (by decide +kernel) .done
  exact hrun.of_eq (by decide +kernel)

theorem isSchema_ring : isSchema ring := by
  have husable : [rootSite ring, ringSite].all (isUsable ringLinkage) := by decide +kernel
  have hdraft : namesDraft ring && (Draft.ofNode .draft202012 ring).conforming ring := by
    decide +kernel
  rw [isSchema, linkage_ring, hdraft]
  simp [reachedSites_ring, husable]

theorem only_notOpen_of_addsProperty_ring :
    let e := Explored.ofRoot ring
    let text := Json.object [("type", .string "string")]
    Explored.parse (Text.toUtf8 ringText) = .ok e ∧ AddsProperty "more" text ring ringMore ∧
    e.nodes.map (·.1) ⊆ (Explored.ofRoot ringMore).nodes.map (·.1) ∧
    ∀ d ∈ (compare .backward (.ofRoot ringMore) e).diffs,
      d.kind = .additionalPropertiesNotOpen := by
  intro e text
  have hread : Json.ofUtf8? (Text.toUtf8 ringText) = some ring := by
    rw [Json.ofUtf8?, Text.ofUtf8?_toUtf8, Option.bind_eq_bind, Option.bind_some, Json.parse?,
      Json.ofChars?_of_document document_ringText]
    rfl
  have hparse : Explored.parse (Text.toUtf8 ringText) = .ok e :=
    Explored.parse_eq_ok_iff.2 ⟨ring, hread, isSchema_ring, rfl⟩
  have hrest : AddsProperty "more" text (.object [("$ref", .string "#")])
      (.object [("$ref", .string "#"), ("properties", .object [("more", text)])]) := .first rfl
  have hadds : AddsProperty "more" text ring ringMore :=
    @AddsProperty.property _ _ [("properties", .object [("rest", .object [("$ref", .string "#")])])]
      [("rest", .object [("$ref", .string "#")])] "rest" _ _ rfl rfl hrest
  have hordered : text.Ordered := ⟨List.pairwise_singleton _ _, trivial, trivial⟩
  have hanonymous : Anonymous text := ⟨by decide, trivial, trivial⟩
  exact ⟨hparse, hadds,
    only_notOpen_of_addsProperty hparse (by decide) (.object _) hordered hanonymous hadds⟩

end SchemaEvolution.JsonSchema
