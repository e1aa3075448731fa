import SchemaEvolution.Proofs.Avro.Declared
import SchemaEvolution.Proofs.Avro.Listing

namespace SchemaEvolution.Avro

mutual

/-- Nothing that is visited in a value has a name or is of a type that has one. -/
def isSilent : Json → Bool
  | .array xs => areSilent xs
  | .object ms => ((Json.object ms).get? "name").isNone && (writtenName? (.object ms)).isNone &&
      silentMembers ms
  | _ => true

def areSilent : List Json → Bool
  | [] => true
  | x :: xs => isSilent x && areSilent xs

def silentMembers : List (String × Json) → Bool
  | [] => true
  | (k, x) :: ms => (decide (k ∉ visitedKeys) || isSilent x) && silentMembers ms

end

section

variable {ms : List (String × Json)} {key : String} {name? : Option String} {w w' : Written}
  {f : Form}

theorem silent_reduce (hname : (Json.object ms).get? "name" = none)
    (hvisit : ∀ key ∈ visitedKeys, ∀ part w w', (canonicalAt key ms).run w = some (part, w') →
      w = w' ∧ ∀ role, Form.partListing role part = ∅)
    (h : (reduce (fun key => canonicalAt key ms) none ms).run w = some (f, w')) :
    w = w' ∧ ∀ role, f.listing role = ∅ := by
  obtain ⟨p, w₁, w₂, w₃, w₄, w₅, w₆, rfl, hfields, hitems, hp, horder, -, -, -, hsymbols, htype,
    hvalues⟩ := of_reduce h
  rw [nameAt, canonicalAt_eq, hname] at hp
  obtain ⟨hnoname, rfl⟩ := Writing.of_pure hp
  obtain ⟨rfl, hnofields⟩ := hvisit _ (by decide) _ _ _ hfields
  obtain ⟨rfl, hnoitems⟩ := hvisit _ (by decide) _ _ _ hitems
  obtain ⟨rfl, -⟩ := hvisit _ (by decide) _ _ _ horder
  obtain ⟨rfl, -⟩ := hvisit _ (by decide) _ _ _ hsymbols
  obtain ⟨rfl, hnotype⟩ := hvisit _ (by decide) _ _ _ htype
  obtain ⟨rfl, hnovalues⟩ := hvisit _ (by decide) _ _ _ hvalues
  refine ⟨rfl, ?_⟩
  intro role
  cases role with
  | type => simp [← hnoname, hnofields, hnoitems, hnovalues]
  | fields owner => simp
  | field owner => cases owner <;> simp [← hnoname, hnotype]

end

mutual

theorem of_isSilent {v : Json} {w w' : Written} {f : Form} (hv : isSilent v)
    (h : (canonical v).run w = some (f, w')) : w = w' ∧ ∀ role, f.listing role = ∅ := by
  match v with
  | .string s =>
    obtain ⟨rfl, rfl⟩ := of_string h
    refine ⟨rfl, ?_⟩
    intro role
    exact Form.listing_string role s
  | .array xs =>
    obtain ⟨gs, rfl, hgs⟩ := of_items h
    obtain ⟨rfl, hnone⟩ := of_areSilent hv hgs
    refine ⟨rfl, ?_⟩
    intro role
    cases role with
    | type => simp [hnone]
    | fields owner => simp [hnone]
    | field owner => simp
  | .object ms =>
    simp only [isSilent, Bool.and_eq_true, Option.isNone_iff_eq_none] at hv
    obtain ⟨⟨hname, hunnamed⟩, hmembers⟩ := hv
    rw [canonical_object, hunnamed, named] at h
    obtain ⟨s, rfl, rfl⟩ | h := of_sole h
    · refine ⟨rfl, ?_⟩
      intro role
      exact Form.listing_string role s
    · apply silent_reduce hname _ h
      intro key hkey part u u' hrun
      exact of_silentMembers hkey hmembers hrun
  | .null | .bool _ | .number _ =>
    rw [canonical] at h
    · cases h
    all_goals nofun

theorem of_areSilent {vs : List Json} {w w' : Written} {fs : List Form} (hvs : areSilent vs)
    (h : (canonicalAll vs).run w = some (fs, w')) :
    w = w' ∧ ∀ role, Form.listingAll role fs = ∅ := by
  match vs with
  | [] =>
    rw [canonicalAll] at h
    obtain ⟨rfl, rfl⟩ := Writing.of_pure h
    refine ⟨rfl, ?_⟩
    intro _
    rfl
  | v :: vs =>
    obtain ⟨hv, hvs⟩ := Bool.and_eq_true_iff.1 hvs
    obtain ⟨g, gs, u, rfl, hg, hgs⟩ := of_canonicalAll_cons h
    obtain ⟨rfl, hnone⟩ := of_isSilent hv hg
    obtain ⟨rfl, hnones⟩ := of_areSilent hvs hgs
    refine ⟨rfl, ?_⟩
    intro role
    simp [Form.listingAll, hnone, hnones]

theorem of_silentMembers {ms : List (String × Json)} {key : String} {w w' : Written}
    {part : Option Form} (hkey : key ∈ visitedKeys) (hms : silentMembers ms)
    (h : (canonicalAt key ms).run w = some (part, w')) :
    w = w' ∧ ∀ role, Form.partListing role part = ∅ := by
  match ms with
  | [] =>
    rw [canonicalAt] at h
    obtain ⟨rfl, rfl⟩ := Writing.of_pure h
    refine ⟨rfl, ?_⟩
    intro _
    rfl
  | (k, x) :: ms =>
    obtain ⟨hx, hms⟩ := Bool.and_eq_true_iff.1 hms
    rw [canonicalAt_cons] at h
    split at h
    next hk =>
      have hx : isSilent x := by simpa [← hk, hkey] using hx
      obtain ⟨g, rfl, hg⟩ := of_some h
      exact of_isSilent hx hg
    next => exact of_silentMembers hkey hms h

end

section

variable {ms : List (String × Json)}

theorem Visits.eq {w w' : Written} (h : Visits ms w w') (hms : silentMembers ms) : w = w' := by
  induction h with
  | refl => rfl
  | tail _ hstep ih =>
    obtain ⟨key, hkey, part, hrun⟩ := hstep
    obtain ⟨rfl, -⟩ := of_silentMembers hkey hms hrun
    exact ih

theorem Gives.listing_eq {key : String} {part : Option Form} (h : Gives ms key part)
    (hkey : key ∈ visitedKeys) (hms : silentMembers ms) (role : Role) :
    Form.partListing role part = ∅ := by
  obtain ⟨w, w', hrun⟩ := h
  exact (of_silentMembers hkey hms hrun).2 role

end

namespace Schema

def keepsSilent : Schema → Bool
  | .decimal _ _ (.fixed _ _ attributes) | .fixed _ _ attributes | .enum _ _ _ attributes
  | .array _ attributes | .map _ attributes => silentMembers attributes.members
  | .record _ fields attributes => silentMembers attributes.members &&
      fields.all fun f => silentMembers f.1.attributes && !f.2.isWordRef
  | _ => true

/-- No attribute in the schema says anything of named types. -/
def Quiet (s : Schema) : Prop := ∀ t ∈ s.parts, t.keepsSilent

instance (s : Schema) : Decidable s.Quiet := inferInstanceAs (Decidable (∀ t ∈ _, _))

end Schema

end SchemaEvolution.Avro
