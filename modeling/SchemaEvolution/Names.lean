/-!
Sets of names as strictly increasing lists, and finite maps keyed by names as lists of pairs with
strictly increasing keys. Names are ordered by code point, which is the order of their UTF-8 bytes.
-/
namespace SchemaEvolution.Names

def insert (x : String) : List String → List String
  | [] => [x]
  | y :: ys => if x < y then x :: y :: ys else if x = y then y :: ys else y :: insert x ys

def ofList : List String → List String := List.foldr insert []

@[simp] theorem mem_insert {x y : String} {ys : List String} :
    y ∈ insert x ys ↔ y = x ∨ y ∈ ys := by
  induction ys with
  | nil => simp [insert]
  | cons z zs ih =>
    simp only [insert]
    split
    · simp
    · split
      · subst_vars; simp
      · simp [ih, or_left_comm]

@[simp] theorem mem_ofList {y : String} {xs : List String} : y ∈ ofList xs ↔ y ∈ xs := by
  induction xs with
  | nil => simp [ofList]
  | cons x xs ih =>
    change y ∈ insert x (ofList xs) ↔ _
    simp [ih]

theorem sorted_insert {x : String} {ys : List String} (h : ys.Pairwise (· < ·)) :
    (insert x ys).Pairwise (· < ·) := by
  induction ys with
  | nil => simp [insert]
  | cons y ys ih =>
    obtain ⟨hy, hs⟩ := List.pairwise_cons.1 h
    simp only [insert]
    split
    next hxy =>
      refine List.pairwise_cons.2 ⟨?_, h⟩
      intro z hz
      cases hz with
      | head => exact hxy
      | tail _ hz => exact String.lt_trans hxy (hy z hz)
    next hxy =>
      split
      · exact h
      next hne =>
        refine List.pairwise_cons.2 ⟨?_, ih hs⟩
        intro z hz
        rcases mem_insert.1 hz with rfl | hz
        · apply Decidable.byContradiction
          intro hyx
          exact hne (String.le_antisymm (String.not_lt.1 hyx) (String.not_lt.1 hxy))
        · exact hy z hz

theorem sorted_ofList (xs : List String) : (ofList xs).Pairwise (· < ·) := by
  induction xs with
  | nil => exact .nil
  | cons x xs ih => exact sorted_insert ih

def difference (xs ys : List String) : List String := xs.filter (· ∉ ys)

def alter {α : Type u} (f : Option α → α) (k : String) :
    List (String × α) → List (String × α)
  | [] => [(k, f none)]
  | (l, a) :: rest =>
    if k < l then (k, f none) :: (l, a) :: rest
    else if k = l then (l, f (some a)) :: rest
    else (l, a) :: alter f k rest

def put {α : Type u} (k : String) (a : α) (entries : List (String × α)) : List (String × α) :=
  alter (fun _ => a) k entries

def find? {α : Type u} (k : String) (entries : List (String × α)) : Option α :=
  entries.lookup k

end SchemaEvolution.Names
