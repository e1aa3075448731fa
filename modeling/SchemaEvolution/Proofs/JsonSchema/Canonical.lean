import SchemaEvolution.JsonSchema.Compare
import SchemaEvolution.JsonSchema.Validity
import SchemaEvolution.Proofs.Closure
import SchemaEvolution.Proofs.Json.Printing
import SchemaEvolution.Proofs.Text.Utf8

namespace SchemaEvolution

namespace Json

/-- Every number in floating point is read back from what is printed for it. -/
def FloatsReadBack (v : Json) : Prop := ∀ x ∈ v.floats, (Number.float x).ReadsBack

theorem ofUtf8?_text {bytes : List UInt8} {v : Json} (h : ofUtf8? bytes = some v)
    (hfloats : v.FloatsReadBack) : ofUtf8? (Text.toUtf8 v.text) = some v := by
  obtain ⟨s, -, hs⟩ := Option.bind_eq_some_iff.1 h
  rw [ofUtf8?, Text.ofUtf8?_toUtf8, Option.bind_eq_bind, Option.bind_some, parse?, text,
    String.toList_ofList]
  exact ofChars?_render hs hfloats

end Json

namespace JsonSchema.Explored

open Decimal (Binary64)
open Json (Form Spells SpellsText SpellsMembers Blank SameButForLayout)

variable {bytes bytes' : List UInt8} {e e' : Explored}

theorem parse_eq_ok_iff : parse bytes = .ok e ↔
    ∃ root, Json.ofUtf8? bytes = some root ∧ isSchema root ∧ e = ofRoot root := by
  unfold parse
  cases hread : Json.ofUtf8? bytes with
  | none => exact ⟨nofun, fun ⟨_, h, _⟩ => nomatch h⟩
  | some root =>
    simp only [ofText, Option.some_inj]
    constructor
    · intro h
      split at h
      next hschema => exact ⟨root, rfl, hschema, (Except.ok.inj h).symm⟩
      next => cases h
    · rintro ⟨_, rfl, hschema, rfl⟩
      exact if_pos hschema

theorem parse_canonical (h : parse bytes = .ok e) (hfloats : e.root.FloatsReadBack) :
    parse e.canonical = .ok e := by
  obtain ⟨root, hread, hschema, rfl⟩ := parse_eq_ok_iff.1 h
  exact parse_eq_ok_iff.2 ⟨root, Json.ofUtf8?_text hread hfloats, hschema, rfl⟩

theorem eq_of_sameButForLayout (h : parse bytes = .ok e) (h' : parse bytes' = .ok e')
    {s s' : String} (hs : Text.ofUtf8? bytes = some s) (hs' : Text.ofUtf8? bytes' = some s')
    (hsame : SameButForLayout s.toList s'.toList) : e' = e := by
  obtain ⟨root, hread, -, rfl⟩ := parse_eq_ok_iff.1 h
  obtain ⟨root', hread', -, rfl⟩ := parse_eq_ok_iff.1 h'
  rw [Json.ofUtf8?, hs] at hread
  rw [Json.ofUtf8?, hs'] at hread'
  have hvalue : Json.parse? s = Json.parse? s' := hsame.ofChars?_eq
  exact congrArg ofRoot (Option.some.inj (hread'.symm.trans (hvalue.symm.trans hread)))

theorem eq_of_canonical_eq (h : parse bytes = .ok e) (h' : parse bytes' = .ok e')
    (hfloats : e.root.FloatsReadBack) (hfloats' : e'.root.FloatsReadBack)
    (heq : e'.canonical = e.canonical) : e' = e := by
  have hparse := parse_canonical h' hfloats'
  rw [heq, parse_canonical h hfloats] at hparse
  exact (Except.ok.inj hparse).symm

/-- The canonical form is explored again to the same document, draft and places included. Texts that
differ in white space, escapes or the order of keys have one canonical form, and documents with one
canonical form take each other's place in every comparison. Numbers in floating point have to read
back, since only then is what is printed for them theirs. -/
theorem canonical_faithful (h : parse bytes = .ok e) :
    (e.root.FloatsReadBack → parse e.canonical = .ok e) ∧
    ∀ bytes' e', parse bytes' = .ok e' →
      (∀ s s', Text.ofUtf8? bytes = some s → Text.ofUtf8? bytes' = some s' →
        SameButForLayout s.toList s'.toList → e'.canonical = e.canonical) ∧
      (e.root.FloatsReadBack → e'.root.FloatsReadBack → e'.canonical = e.canonical →
        ∀ R z, compare R e' z = compare R e z ∧ compare R z e' = compare R z e) := by
  refine ⟨parse_canonical h, ?_⟩
  intro bytes' e' h'
  constructor
  · intro s s' hs hs' hsame
    rw [eq_of_sameButForLayout h h' hs hs' hsame]
  · intro hfloats hfloats' heq R z
    rw [eq_of_canonical_eq h h' hfloats hfloats' heq]
    exact ⟨rfl, rfl⟩

def half : Binary64 := ⟨false, ⟨4503599627370496, -53⟩⟩

def steps : Json := .object [("multipleOf", .number (.float half)), ("type", .string "number")]

def stepsForm : Form := .object [("type", .string "number"), ("multipleOf", .number ['0', '.', '5'])]

def stepsText : String := "\x7b \"type\": \"n\\u0075mber\", \"multipleOf\": 0.5 \x7d"

theorem document_stepsText : stepsForm.Document stepsText.toList := by
  have hblank : Blank [' '] := by decide +kernel
  have htype : SpellsText "type".toList "type".toList := by decide +kernel
  have hword : SpellsText "number".toList "n\\u0075mber".toList := by decide +kernel
  have hstep : SpellsText "multipleOf".toList "multipleOf".toList := by decide +kernel
  have hnumber : Spells (.number ['0', '.', '5']) ['0', '.', '5'] :=
    Json.spells_of_ofNumeral? (n := .float half) (by decide +kernel)
  have hmembers := SpellsMembers.more htype Json.blank_nil hblank (.string hword) Json.blank_nil hblank
    (.last hstep Json.blank_nil hblank hnumber hblank)
  exact .mk Json.blank_nil (.object hblank hmembers) Json.blank_nil

theorem readsBack_half : (Json.Number.float half).ReadsBack :=
  (by decide +kernel : Json.Number.ofNumeral? (Json.Number.float half).render = some (.float half))

theorem sameButForLayout_stepsText (h : steps.FloatsReadBack) :
    SameButForLayout stepsText.toList steps.text.toList := by
  have hswap : Form.Exchanges
      (.object ([] ++ ("type", .string "number") :: ("multipleOf", .number ['0', '.', '5']) :: []))
      (.object ([] ++ ("multipleOf", .number ['0', '.', '5']) :: ("type", .string "number") :: [])) :=
    .here (by decide)
  refine ⟨stepsForm, steps.form, document_stepsText, ?_, .single hswap⟩
  rw [Json.text, String.toList_ofList]
  exact Json.document_render h

theorem isSchema_steps : isSchema steps := by
  have hsites : allSites steps = [rootSite steps] :=
    Closure.of_singleton (by decide +kernel) (by decide +kernel)
  have hexternal : [rootSite steps].mapM (Site.external? steps) = some [[]] := by decide +kernel
  have hlinkage : Linkage.of? steps = some ⟨steps, [rootSite steps], []⟩ := by
    rw [Linkage.of?, hsites, hexternal]
    rfl
  have hreached : reachedSites ⟨steps, [rootSite steps], []⟩ = [rootSite steps] :=
    Closure.of_singleton (by decide +kernel) (by decide +kernel)
  have husable : isUsable ⟨steps, [rootSite steps], []⟩ (rootSite steps) := by decide +kernel
  have hdraft : namesDraft steps && (Draft.ofNode .draft202012 steps).conforming steps := by
    decide +kernel
  rw [isSchema, hlinkage, hdraft]
  simp [hreached, husable]

theorem canonical_faithful_steps :
    let e := ofRoot steps
    parse (Text.toUtf8 stepsText) = .ok e ∧ e.root.FloatsReadBack ∧ parse e.canonical = .ok e ∧
      SameButForLayout stepsText.toList steps.text.toList ∧
      ∀ e', parse (Text.toUtf8 steps.text) = .ok e' → e'.canonical = e.canonical ∧
        ∀ R z, compare R e' z = compare R e z ∧ compare R z e' = compare R z e := by
  have hfloats : steps.FloatsReadBack := by
    intro x hx
    obtain rfl := List.mem_singleton.1 hx
    exact readsBack_half
  have hlayout := sameButForLayout_stepsText hfloats
  have hread : Json.ofUtf8? (Text.toUtf8 stepsText) = some steps := by
    rw [Json.ofUtf8?, Text.ofUtf8?_toUtf8, Option.bind_eq_bind, Option.bind_some, Json.parse?,
      Json.ofChars?_of_document document_stepsText]
    rfl
  have hparse : parse (Text.toUtf8 stepsText) = .ok (ofRoot steps) :=
    parse_eq_ok_iff.2 ⟨steps, hread, isSchema_steps, rfl⟩
  obtain ⟨hagain, hothers⟩ := canonical_faithful hparse
  refine ⟨hparse, hfloats, hagain hfloats, hlayout, ?_⟩
  intro e' h'
  obtain ⟨hsame, hcompare⟩ := hothers _ e' h'
  have heq := hsame _ _ (Text.ofUtf8?_toUtf8 stepsText) (Text.ofUtf8?_toUtf8 steps.text) hlayout
  have hroot : e' = ofRoot steps := Except.ok.inj (h'.symm.trans (hagain hfloats))
  exact ⟨heq, hcompare hfloats (hroot ▸ hfloats) heq⟩

end JsonSchema.Explored

end SchemaEvolution
