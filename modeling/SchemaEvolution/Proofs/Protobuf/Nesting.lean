import SchemaEvolution.Protobuf.Registry

namespace SchemaEvolution.Protobuf

mutual

def MessageDecl.placed (scope : String) : MessageDecl → List (String × MessageDecl)
  | m@{ name, nested, .. } => (scope, m) :: placedAll (qualify scope name) nested

def placedAll (scope : String) : List MessageDecl → List (String × MessageDecl)
  | [] => []
  | m :: ms => m.placed scope ++ placedAll scope ms

end

mutual

theorem walk_link (t : Table) (scope : String) (m : MessageDecl) :
    (Message.link t scope m).walk = (m.placed scope).map fun x => Message.link t x.1 x.2 := by
  cases m with
  | mk name fields nested =>
    rw [MessageDecl.placed, List.map_cons, ← walkAll_linkAll]
    simp only [Message.link, Message.walk]

theorem walkAll_linkAll (t : Table) (scope : String) (ms : List MessageDecl) :
    walkAll (linkAll t scope ms) = (placedAll scope ms).map fun x => Message.link t x.1 x.2 := by
  match ms with
  | [] => rfl
  | m :: ms => simp only [linkAll, walkAll, placedAll, List.map_append, walk_link, walkAll_linkAll]

end

@[simp] theorem MessageDecl.mem_placed {scope : String} {m : MessageDecl}
    {x : String × MessageDecl} :
    x ∈ m.placed scope ↔ x = (scope, m) ∨ x ∈ placedAll (qualify scope m.name) m.nested := by
  cases m
  rw [placed, List.mem_cons]

theorem mem_placedAll {scope : String} {ms : List MessageDecl} {x : String × MessageDecl} :
    x ∈ placedAll scope ms ↔ ∃ m ∈ ms, x ∈ m.placed scope := by
  induction ms with
  | nil => simp [placedAll]
  | cons m ms ih => simp [placedAll, ih]

@[simp] theorem placedAll_append (scope : String) (ms ns : List MessageDecl) :
    placedAll scope (ms ++ ns) = placedAll scope ms ++ placedAll scope ns := by
  induction ms with
  | nil => rfl
  | cons m ms ih => rw [List.cons_append, placedAll, placedAll, ih, List.append_assoc]

theorem MessageDecl.placed_eq (scope : String) (m : MessageDecl) :
    m.placed scope = (scope, m) :: placedAll (qualify scope m.name) m.nested := by
  cases m; rw [placed]

@[simp] theorem placedAll_cons (scope : String) (m : MessageDecl) (ms : List MessageDecl) :
    placedAll scope (m :: ms) =
      (scope, m) :: placedAll (qualify scope m.name) m.nested ++ placedAll scope ms := by
  rw [placedAll, m.placed_eq]

def MessageDecl.ownDefinitions (file : Nat) (scope : String) (m : MessageDecl) : List Definition :=
  let full := qualify scope m.name
  ⟨full, .message, file⟩ ::
    (m.fields.map (·.name) ++ m.oneofs ++ m.extensions.map (·.name)).map
      (fun n => ⟨qualify full n, .member, file⟩) ++
    m.enums.flatMap (·.definitions file full)

mutual

theorem MessageDecl.definitions_eq (file : Nat) (scope : String) (m : MessageDecl) :
    m.definitions file scope = (m.placed scope).flatMap fun x => x.2.ownDefinitions file x.1 := by
  cases m with
  | mk name fields nested =>
    rw [MessageDecl.placed, List.flatMap_cons, ← definitionsOfAll_eq]
    simp only [MessageDecl.definitions, MessageDecl.ownDefinitions]

theorem definitionsOfAll_eq (file : Nat) (scope : String) (ms : List MessageDecl) :
    definitionsOfAll file scope ms =
      (placedAll scope ms).flatMap fun x => x.2.ownDefinitions file x.1 := by
  match ms with
  | [] => rfl
  | m :: ms =>
    simp only [definitionsOfAll, placedAll, List.flatMap_append, MessageDecl.definitions_eq,
      definitionsOfAll_eq]

end

def MessageDecl.ownDefects (t : Table) (around : Surroundings) (syntaxName scope : String)
    (m : MessageDecl) : List Defect :=
  let full := qualify scope m.name
  m.fields.flatMap (fun f =>
      f.typeDefects t around.values full ++
        f.numberDefects m.oneofs.length m.reservedRanges m.extensionRanges) ++
    demand (isNodup (m.fields.map (·.number))) .duplicateFieldNumber ++
    demand (isNodup (m.fields.map (·.jsonName))) .duplicateJsonName ++
    demand (!isProto3 syntaxName || isNodup (m.fields.map (plainName ·.name))) .similarFieldNames ++
    m.extensions.flatMap (·.extensionDefects t around.values around.extensionRanges full) ++
    m.enums.flatMap (·.defects syntaxName)

mutual

theorem MessageDecl.defects_eq (t : Table) (around : Surroundings) (syntaxName scope : String)
    (m : MessageDecl) : m.defects t around syntaxName scope =
      (m.placed scope).flatMap fun x => x.2.ownDefects t around syntaxName x.1 := by
  cases m with
  | mk name fields nested =>
    rw [MessageDecl.placed, List.flatMap_cons, ← defectsOfAll_eq]
    simp only [MessageDecl.defects, MessageDecl.ownDefects]

theorem defectsOfAll_eq (t : Table) (around : Surroundings) (syntaxName scope : String)
    (ms : List MessageDecl) : defectsOfAll t around syntaxName scope ms =
      (placedAll scope ms).flatMap fun x => x.2.ownDefects t around syntaxName x.1 := by
  match ms with
  | [] => rfl
  | m :: ms =>
    simp only [defectsOfAll, placedAll, List.flatMap_append, MessageDecl.defects_eq,
      defectsOfAll_eq]

end

end SchemaEvolution.Protobuf
