import SchemaEvolution.Proofs.Json.Ordered
import SchemaEvolution.Proofs.JsonSchema.Indexed

namespace SchemaEvolution.JsonSchema.References

def declares (d : Draft) (node : Json) : Bool :=
  match identity? d node with
  | some (.resource _) => true
  | _ => false

def declaresAt (d : Draft) (root : Json) (p : Pointer) : Bool :=
  ((p.find? root).map (declares d)).getD false

def nearest? (d : Draft) : Json → Pointer → Option Pointer
  | v, [] => if declares d v then some [] else none
  | v, t :: p =>
    match Pointer.step v t >>= fun w => nearest? d w p with
    | some q => some (t :: q)
    | none => if declares d v then some [] else none

/-- The base address inside the value that a pointer leads to, from the one around its start. -/
def baseAt? (d : Draft) : Option Url → Json → Pointer → Option Url
  | base, v, [] => base >>= scope? (identity? d v)
  | base, v, t :: p =>
    Pointer.step v t >>= fun w => baseAt? d (base >>= scope? (identity? d v)) w p

/-- Every token is the one its key is written with, and none is a keyword that data follows. -/
def Indexed (p : Pointer) : Prop :=
  ∀ t ∈ p, Pointer.escape (Pointer.unescape t) = t ∧ t ∉ dataKeywords

instance (p : Pointer) : Decidable (Indexed p) := inferInstanceAs (Decidable (∀ t ∈ p, _))

theorem Indexed.standard {p : Pointer} (h : Indexed p) : p.Standard := by
  intro t ht
  exact (h t ht).1

@[simp] theorem indexed_cons {t : String} {p : Pointer} : Indexed (t :: p) ↔
    (Pointer.escape (Pointer.unescape t) = t ∧ t ∉ dataKeywords) ∧ Indexed p :=
  List.forall_mem_cons

variable {d : Draft} {base : Option Url} {v w node : Json} {p q : Pointer} {inner : Url}

theorem identity?_eq_none (h : v.isObject = false) : identity? d v = none := by
  cases v <;> first | rfl | cases h

theorem scope_of_not_declares (h : declares d v = false) :
    base >>= scope? (identity? d v) = base := by
  have hscope (b : Url) : scope? (identity? d v) b = some b := by
    unfold declares at h
    cases hidentity : identity? d v with
    | none => rfl
    | some identity =>
      cases identity with
      | anchor name => rfl
      | resource id =>
        rw [hidentity] at h
        cases h
  cases base with
  | none => rfl
  | some b => exact hscope b

theorem baseAt?_cons {t : String} (h : Pointer.step v t = some w) :
    baseAt? d base v (t :: p) = baseAt? d (base >>= scope? (identity? d v)) w p := by
  rw [baseAt?, h]
  rfl

theorem escape_of_mem_dataKeywords : ∀ k ∈ dataKeywords,
    Pointer.escape k = k ∧ Pointer.unescape k = k := by decide

theorem escape_mem_dataKeywords_iff {k : String} :
    Pointer.escape k ∈ dataKeywords ↔ k ∈ dataKeywords := by
  constructor
  · intro h
    have hk := (escape_of_mem_dataKeywords _ h).2
    rw [Pointer.unescape_escape] at hk
    exact hk ▸ h
  · intro h
    rw [(escape_of_mem_dataKeywords k h).1]
    exact h

theorem index_notMem_dataKeywords (i : Nat) : Pointer.index i ∉ dataKeywords := by
  have hnone : ∀ k ∈ dataKeywords, Pointer.index? k = none := by decide
  intro h
  have hi := hnone _ h
  rw [Pointer.index?_index] at hi
  cases hi

theorem Enters.indexed (h : Enters d base v q node inner) : Indexed q := by
  induction h with
  | here => exact List.forall_mem_nil _
  | member _ hk _ ih =>
    exact indexed_cons.2
      ⟨⟨Pointer.escape_unescape_escape _, fun h => hk (escape_mem_dataKeywords_iff.1 h)⟩, ih⟩
  | item _ _ ih =>
    exact indexed_cons.2 ⟨⟨Pointer.escape_unescape_index _, index_notMem_dataKeywords _⟩, ih⟩

theorem Enters.find? (hv : v.Ordered) (h : Enters d base v q node inner) :
    q.find? v = some node ∧ node.isObject ∧ baseAt? d base v q = some inner := by
  induction h with
  | here hinner => exact ⟨rfl, rfl, hinner⟩
  | @member base ms k x node q inner hx _ _ ih =>
    have hstep : Pointer.step (.object ms) (Pointer.escape k) = some x := by
      rw [Pointer.step_escape]
      exact Names.lookup_eq_some_of_nodup_keys hv.1.nodup hx
    rw [Pointer.find?_cons, baseAt?_cons hstep, hstep]
    exact ih (Json.orderedMembers_iff.1 hv.2 _ hx)
  | @item base xs i x node q inner hx _ ih =>
    have hstep : Pointer.step (.array xs) (Pointer.index i) = some x := by
      rw [Pointer.step_index, hx]
    rw [Pointer.find?_cons, baseAt?_cons hstep, hstep, scope_of_not_declares rfl]
    exact ih (Json.orderedItems_iff.1 hv _ (List.mem_of_getElem? hx))

theorem enters_of_find? (hq : Indexed q) (hfind : q.find? v = some node) (hnode : node.isObject)
    (hbase : baseAt? d base v q = some inner) : Enters d base v q node inner := by
  induction q generalizing v base with
  | nil =>
    cases hfind
    cases node with
    | object ms => exact .here hbase
    | _ => cases hnode
  | cons t q ih =>
    obtain ⟨⟨ht, hdata⟩, hq⟩ := indexed_cons.1 hq
    rw [Pointer.find?_cons] at hfind
    obtain ⟨w, hw, hfind⟩ := Option.bind_eq_some_iff.1 hfind
    rw [baseAt?_cons hw] at hbase
    have henters := ih hq hfind hbase
    cases v with
    | object ms =>
      rw [← ht] at hdata ⊢
      exact .member (Names.mem_of_lookup_eq_some hw)
        (fun h => hdata (escape_mem_dataKeywords_iff.2 h)) henters
    | array xs =>
      rw [scope_of_not_declares rfl] at henters
      obtain ⟨i, hi, hx⟩ := Option.bind_eq_some_iff.1 hw
      rw [Pointer.index?_eq_some_iff.1 hi]
      exact .item hx henters
    | _ => cases hw

/-- The index enters an object exactly when its place is indexed and a base is in force there. -/
theorem enters_iff (hv : v.Ordered) : Enters d base v q node inner ↔
    Indexed q ∧ q.find? v = some node ∧ node.isObject ∧ baseAt? d base v q = some inner := by
  constructor
  · intro h
    exact ⟨h.indexed, h.find? hv⟩
  · rintro ⟨hq, hfind, hnode, hbase⟩
    exact enters_of_find? hq hfind hnode hbase

theorem declaresAt_of_nearest? (h : nearest? d v p = some q) : declaresAt d v q := by
  induction p generalizing v q with
  | nil =>
    rw [nearest?] at h
    split at h
    next hd => cases h; exact hd
    next => cases h
  | cons t p ih =>
    rw [nearest?] at h
    split at h
    next r hr =>
      cases h
      obtain ⟨w, hw, hr⟩ := Option.bind_eq_some_iff.1 hr
      unfold declaresAt
      rw [Pointer.find?_cons, hw]
      exact ih hr
    next =>
      split at h
      next hd => cases h; exact hd
      next => cases h

theorem subset_of_nearest? (h : nearest? d v p = some q) : q ⊆ p := by
  induction p generalizing v q with
  | nil =>
    rw [nearest?] at h
    split at h
    · cases h
      exact List.Subset.refl []
    · cases h
  | cons t p ih =>
    rw [nearest?] at h
    split at h
    next r hr =>
      cases h
      obtain ⟨w, hw, hr⟩ := Option.bind_eq_some_iff.1 hr
      exact List.cons_subset_cons t (ih hr)
    next =>
      split at h
      · cases h
        exact List.nil_subset _
      · cases h

theorem not_declares_of_nearest? (h : nearest? d v p = none) : declares d v = false := by
  cases p with
  | nil => simpa [nearest?] using h
  | cons t p =>
    rw [nearest?] at h
    split at h
    · cases h
    · simpa using h

theorem baseAt?_of_nearest?_eq_none (hfind : p.find? v = some w) (h : nearest? d v p = none) :
    baseAt? d base v p = base := by
  have hscope : base >>= scope? (identity? d v) = base :=
    scope_of_not_declares (not_declares_of_nearest? h)
  induction p generalizing v with
  | nil => exact hscope
  | cons t p ih =>
    rw [Pointer.find?_cons] at hfind
    obtain ⟨x, hx, hfind⟩ := Option.bind_eq_some_iff.1 hfind
    have hnone : nearest? d x p = none := by
      rw [nearest?, hx] at h
      cases hp : nearest? d x p with
      | none => rfl
      | some q => simp [hp] at h
    rw [baseAt?_cons hx, hscope]
    exact ih hfind hnone (scope_of_not_declares (not_declares_of_nearest? hnone))

theorem baseAt?_of_nearest? (hfind : p.find? v = some w) (h : nearest? d v p = some q) :
    baseAt? d base v p = baseAt? d base v q := by
  induction p generalizing v q base with
  | nil =>
    rw [nearest?] at h
    split at h
    · cases h; rfl
    · cases h
  | cons t p ih =>
    rw [Pointer.find?_cons] at hfind
    obtain ⟨x, hx, hfind⟩ := Option.bind_eq_some_iff.1 hfind
    rw [nearest?, hx] at h
    split at h
    next r hr =>
      cases h
      rw [baseAt?_cons hx, baseAt?_cons hx]
      exact ih hfind hr
    next hnone =>
      split at h
      · cases h
        rw [baseAt?_cons hx]
        exact baseAt?_of_nearest?_eq_none hfind hnone
      · cases h

end SchemaEvolution.JsonSchema.References
