import SchemaEvolution.CommandLine.Run
import SchemaEvolution.Proofs.Mismatch
import SchemaEvolution.Proofs.Text.Utf8

namespace SchemaEvolution

def Schema.Differs (current previous : Schema) : Prop :=
  ∃ r, compare .backward current previous = .ok r ∧ r.diffs ≠ []

theorem Schema.differs_iff {current previous : Schema} (h : previous.format = current.format) :
    current.Differs previous ↔ Evolves.backward current previous ≠ .ok () := by
  obtain ⟨r, hr⟩ := exists_compare_of_format_eq .backward h
  rw [backward_eq_outcome hr, ne_eq, Report.outcome_eq_ok_iff, Differs, hr]
  simp

namespace Direction

variable {candidate version : Schema}

def Differs (candidate version : Schema) : Direction → Prop
  | .backward => candidate.Differs version
  | .forward => version.Differs candidate
  | .full => version.Differs candidate ∨ candidate.Differs version

theorem differs_iff (d : Direction) (h : version.format = candidate.format) :
    d.Differs candidate version ↔ d.outcome candidate version ≠ .ok () := by
  cases d with
  | backward => exact Schema.differs_iff h
  | forward => exact Schema.differs_iff h.symm
  | full =>
    rw [Differs, ne_eq, outcome_full_eq_ok_iff, not_and_or]
    exact or_congr (Schema.differs_iff h.symm) (Schema.differs_iff h)

end Direction

namespace Mode

variable {candidate : Schema} {history : List Schema}

/-- Some version that the mode looks at shows a change. -/
def Differs (candidate : Schema) (history : List Schema) : Mode → Prop
  | .checked d b => ∃ v ∈ b.versions history, d.Differs candidate v
  | .unchecked => False

theorem differs_iff (m : Mode) (h : ∀ v ∈ history, v.format = candidate.format) :
    m.Differs candidate history ↔ m.check candidate history ≠ .ok () := by
  cases m with
  | unchecked => simp [Differs, check]
  | checked d b =>
    simp only [Differs, ne_eq, check_eq_ok_iff, not_forall, exists_prop]
    apply exists_congr
    intro v
    apply and_congr_right
    intro hv
    exact d.differs_iff (h v (Breadth.mem_of_mem_versions hv))

end Mode

namespace CommandLine

variable {files : Files} {f : Format}

theorem bind_eq_ok {α β ε : Type} {x : Except ε α} {g : α → Except ε β} {b : β}
    (h : x >>= g = .ok b) : ∃ a, x = .ok a ∧ g a = .ok b := by
  cases x with
  | error e => cases h
  | ok a => exact ⟨a, rfl, h⟩

theorem bind_eq_error {α β ε : Type} {x : Except ε α} {g : α → Except ε β} {e : ε}
    (h : x >>= g = .error e) : x = .error e ∨ ∃ a, x = .ok a ∧ g a = .error e := by
  cases x with
  | error e' =>
    cases h
    exact .inl rfl
  | ok a => exact .inr ⟨a, rfl, h⟩

theorem exists_of_mapM_eq_ok {α β ε : Type} {g : α → Except ε β} {xs : List α} {ys : List β}
    (h : xs.mapM g = .ok ys) {y : β} (hy : y ∈ ys) : ∃ x ∈ xs, g x = .ok y := by
  induction xs generalizing ys with
  | nil =>
    cases h
    cases hy
  | cons x xs ih =>
    rw [List.mapM_cons] at h
    obtain ⟨z, hz, h⟩ := bind_eq_ok h
    obtain ⟨zs, hzs, h⟩ := bind_eq_ok h
    cases h
    obtain rfl | hy := List.mem_cons.1 hy
    · exact ⟨x, .head xs, hz⟩
    · obtain ⟨w, hw, hwy⟩ := ih hzs hy
      exact ⟨w, .tail x hw, hwy⟩

theorem exists_of_mapM_eq_error {α β ε : Type} {g : α → Except ε β} {xs : List α} {e : ε}
    (h : xs.mapM g = .error e) : ∃ x ∈ xs, g x = .error e := by
  induction xs with
  | nil => cases h
  | cons x xs ih =>
    rw [List.mapM_cons] at h
    obtain h | ⟨z, -, h⟩ := bind_eq_error h
    · exact ⟨x, .head xs, h⟩
    obtain h | ⟨zs, -, h⟩ := bind_eq_error h
    · obtain ⟨w, hw, hwe⟩ := ih h
      exact ⟨w, .tail x hw, hwe⟩
    · cases h

theorem format_of_parse {bytes : List UInt8} {s : Schema} (h : Schema.parse f bytes = .ok s) :
    s.format = f := by
  cases f with
  | protobuf =>
    cases hr : Protobuf.Registry.parse bytes <;> rw [Schema.parse, hr] at h <;> cases h
    rfl
  | json =>
    cases hr : JsonSchema.Explored.parse bytes <;> rw [Schema.parse, hr] at h <;> cases h
    rfl
  | avro =>
    cases hr : Avro.Schema.parse bytes <;> rw [Schema.parse, hr] at h <;> cases h
    rfl

theorem loadSchema_eq_ok_iff {path : String} {s : Schema} : loadSchema files f path = .ok s ↔
    ∃ bytes, files path = some bytes ∧ Schema.parse f bytes = .ok s := by
  unfold loadSchema readFile
  cases files path with
  | none => simp [bind, Except.bind]
  | some bytes =>
    cases hs : Schema.parse f bytes <;> simp [bind, Except.bind, Except.mapError, hs]

theorem format_of_loadSchema {path : String} {s : Schema} (h : loadSchema files f path = .ok s) :
    s.format = f := by
  obtain ⟨bytes, -, hs⟩ := loadSchema_eq_ok_iff.1 h
  exact format_of_parse hs

def CommandError.IsFailure : CommandError → Prop
  | .failed _ => True
  | _ => False

theorem not_isFailure_of_loadSchema {path : String} {e : CommandError}
    (h : loadSchema files f path = .error e) : ¬ e.IsFailure := by
  unfold loadSchema readFile at h
  cases hb : files path with
  | none =>
    rw [hb] at h
    cases h
    exact id
  | some bytes =>
    rw [hb] at h
    cases hs : Schema.parse f bytes with
    | ok s => simp [bind, Except.bind, Except.mapError, hs] at h
    | error cause =>
      simp only [bind, Except.bind, Except.mapError, hs, Except.error.injEq] at h
      exact h ▸ id

/-- The settings in force, and the schemas that the files hold in the format in force. -/
structure Loads (files : Files) (config : Option String) (given : Option Format)
    (paths : List String) (settings : Config) (schemas : List Schema) : Prop where
  config : loadConfig files config = .ok settings
  parsed : ∃ f, chosenFormat settings given = .ok f ∧ paths.mapM (loadSchema files f) = .ok schemas

def verdict : Outcome → Result
  | .ok () => ⟨true, ["compatible"]⟩
  | .error f => ⟨false, ["incompatible: " ++ f.message]⟩

variable {settings : Config} {given : Option Format} {mode : Option String} {candidate : String}
  {history : List String} {s : Schema} {vs : List Schema}

theorem format_of_mapM_loadSchema (hs : loadSchema files f candidate = .ok s)
    (hvs : history.mapM (loadSchema files f) = .ok vs) : ∀ v ∈ vs, v.format = s.format := by
  intro v hv
  obtain ⟨path, -, h⟩ := exists_of_mapM_eq_ok hvs hv
  rw [format_of_loadSchema h, format_of_loadSchema hs]

theorem runCheck_eq (hf : chosenFormat settings given = .ok f)
    (hs : loadSchema files f candidate = .ok s)
    (hvs : history.mapM (loadSchema files f) = .ok vs) :
    runCheck files settings given mode candidate history =
      .ok (verdict ((Mode.ofName (mode.getD settings.mode)).check s vs)) := by
  simp only [runCheck, hf, hs, hvs, bind, Except.bind]
  cases h : (Mode.ofName (mode.getD settings.mode)).check s vs with
  | ok => rfl
  | error failure =>
    have hincompatible := Mode.isIncompatible_of_format_eq (format_of_mapM_loadSchema hs hvs) h
    simp only [hincompatible, if_true]
    rfl

theorem not_isFailure_of_runCheck {e : CommandError}
    (h : runCheck files settings given mode candidate history = .error e) : ¬ e.IsFailure := by
  have hrun := h
  obtain h | ⟨f, hf, h⟩ := bind_eq_error h
  · unfold chosenFormat at h
    split at h <;> cases h
    exact id
  obtain h | ⟨s, hs, h⟩ := bind_eq_error h
  · exact not_isFailure_of_loadSchema h
  obtain h | ⟨vs, hvs, h⟩ := bind_eq_error h
  · obtain ⟨path, -, h⟩ := exists_of_mapM_eq_error h
    exact not_isFailure_of_loadSchema h
  · rw [runCheck_eq hf hs hvs] at hrun
    cases hrun

theorem run_eq {stamp : Stamp} {args : List String} {config : Option String} {c : Command}
    (h : parse? args = some (.run config c)) :
    run files stamp args = .ofResult (runCommand files stamp config c) := by
  rw [run, h]

theorem Loads.exists_format {config : Option String}
    (h : Loads files config given (candidate :: history) settings (s :: vs)) :
    ∃ f, chosenFormat settings given = .ok f ∧ loadSchema files f candidate = .ok s ∧
      history.mapM (loadSchema files f) = .ok vs := by
  obtain ⟨f, hf, hschemas⟩ := h.parsed
  rw [List.mapM_cons] at hschemas
  obtain ⟨s', hs, hschemas⟩ := bind_eq_ok hschemas
  obtain ⟨vs', hvs, hschemas⟩ := bind_eq_ok hschemas
  cases hschemas
  exact ⟨f, hf, hs, hvs⟩

theorem Loads.format_eq {config : Option String}
    (h : Loads files config given (candidate :: history) settings (s :: vs)) :
    ∀ v ∈ vs, v.format = s.format := by
  obtain ⟨f, -, hs, hvs⟩ := h.exists_format
  exact format_of_mapM_loadSchema hs hvs

theorem run_check_eq {stamp : Stamp} {args : List String} {config : Option String}
    (hargs : parse? args = some (.run config (.check given mode candidate history)))
    (h : Loads files config given (candidate :: history) settings (s :: vs)) :
    run files stamp args =
      .ofResult (.ok (verdict ((Mode.ofName (mode.getD settings.mode)).check s vs))) := by
  obtain ⟨f, hf, hs, hvs⟩ := h.exists_format
  rw [run_eq hargs, runCommand, h.config]
  exact congrArg Response.ofResult (runCheck_eq hf hs hvs)

theorem exitCode_verdict (o : Outcome) : (Response.ofResult (.ok (verdict o))).exitCode = 0 ∨
    (Response.ofResult (.ok (verdict o))).exitCode = 1 := by
  cases o with
  | ok => exact .inl rfl
  | error f => exact .inr rfl

@[simp] theorem exitCode_verdict_eq_one_iff {o : Outcome} :
    (Response.ofResult (.ok (verdict o))).exitCode = 1 ↔ o ≠ .ok () := by
  cases o with
  | ok => simp [Response.ofResult, verdict]
  | error f => simp [Response.ofResult, verdict]

/-- A version of another format makes a check fail as a problem with the input, and nothing else does;
the mismatch is told whatever the other versions give. A command reads all its files in one format, so
it never fails that way: it exits with 1 exactly if a version that is checked shows a change. -/
theorem mismatch_iff_format_ne :
    (∀ (d : Direction) (b : Breadth) (candidate : Schema) (history : List Schema),
      ((∃ f, Mode.check (.checked d b) candidate history = .error f ∧ f.isIncompatible = false) ↔
        ∃ v ∈ b.versions history, v.format ≠ candidate.format) ∧
      ∀ v ∈ b.versions history, v.format ≠ candidate.format →
        ∃ f, Mode.check (.checked d b) candidate history = .error f ∧
          d.mismatches candidate.format v.format ⊆ f.causes) ∧
    (∀ (files : Files) (settings : Config) (given : Option Format) (mode : Option String)
      (candidate : String) (history : List String) (f : Failure),
      runCheck files settings given mode candidate history ≠ .error (.failed f)) ∧
    ∀ (files : Files) (stamp : Stamp) (args : List String) (config : Option String)
      (given : Option Format) (mode : Option String) (candidate : String) (history : List String)
      (settings : Config) (s : Schema) (vs : List Schema),
      parse? args = some (.run config (.check given mode candidate history)) →
      Loads files config given (candidate :: history) settings (s :: vs) →
      ((run files stamp args).exitCode = 0 ∨ (run files stamp args).exitCode = 1) ∧
        ((run files stamp args).exitCode = 1 ↔
          (Mode.ofName (mode.getD settings.mode)).Differs s vs) := by
  refine ⟨?_, ?_, ?_⟩
  · intro d b candidate history
    refine ⟨Mode.exists_mismatch_iff d b, ?_⟩
    intro v hv h
    have htold := Mode.mismatches_subset_causes d b hv h
    obtain ⟨f, hf, -⟩ := (Mode.exists_mismatch_iff d b).2 ⟨v, hv, h⟩
    rw [hf] at htold
    exact ⟨f, hf, htold⟩
  · intro files settings given mode candidate history f h
    exact not_isFailure_of_runCheck h trivial
  · intro files stamp args config given mode candidate history settings s vs hargs hloads
    rw [run_check_eq hargs hloads, Mode.differs_iff _ hloads.format_eq]
    exact ⟨exitCode_verdict _, exitCode_verdict_eq_one_iff⟩

theorem loadSchema_avro {path text : String} {s : Avro.Schema}
    (hfile : files path = some (Text.toUtf8 text))
    (hs : Json.parse? text >>= Avro.Schema.ofJson? = some s) :
    loadSchema files .avro path = .ok (.avro s) := by
  refine loadSchema_eq_ok_iff.2 ⟨_, hfile, ?_⟩
  rw [Schema.parse, Avro.Schema.parse, Text.ofUtf8?_toUtf8]
  simp only [hs]
  rfl

def plainFiles (path : String) : Option (List UInt8) :=
  [("int", Text.toUtf8 "\"int\""), ("long", Text.toUtf8 "\"long\"")].lookup path

theorem loadSchema_plainFiles :
    loadSchema plainFiles .avro "int" = .ok (.avro (.plain .int)) ∧
      loadSchema plainFiles .avro "long" = .ok (.avro (.plain .long)) :=
  ⟨loadSchema_avro rfl rfl, loadSchema_avro rfl rfl⟩

theorem differs_int_long : (Schema.avro (.plain .int)).Differs (.avro (.plain .long)) :=
  ⟨_, rfl, by decide +kernel⟩

def plainCheck : List String :=
  ["check", "--format", "avro", "--mode", "BACKWARD_TRANSITIVE", "int", "int", "long"]

theorem mismatch_iff_format_ne_plainFiles :
    (∃ f, Mode.check (.checked .backward .transitive) (Schema.avro (.plain .int))
        [.avro (.plain .long), .protobuf ⟨[], []⟩] = .error f ∧
      .formatMismatch .avro .protobuf ∈ f.causes) ∧
    parse? plainCheck = some (.run none
      (.check (some .avro) (some "BACKWARD_TRANSITIVE") "int" ["int", "long"])) ∧
    (run plainFiles ⟨"", ""⟩ plainCheck).exitCode = 1 := by
  obtain ⟨hmismatch, -, hexit⟩ := mismatch_iff_format_ne
  have hargs : parse? plainCheck = some (.run none
      (.check (some .avro) (some "BACKWARD_TRANSITIVE") "int" ["int", "long"])) := by
    decide +kernel
  have hloads : Loads plainFiles none (some .avro) ["int", "int", "long"] .standard
      [.avro (.plain .int), .avro (.plain .int), .avro (.plain .long)] := by
    refine ⟨rfl, .avro, rfl, ?_⟩
    simp only [List.mapM_cons, List.mapM_nil, loadSchema_plainFiles]
    rfl
  have hmode : Mode.ofName "BACKWARD_TRANSITIVE" = .checked .backward .transitive := by
    decide +kernel
  refine ⟨?_, hargs, ?_⟩
  · obtain ⟨f, hf, htold⟩ := (hmismatch .backward .transitive (.avro (.plain .int))
      [.avro (.plain .long), .protobuf ⟨[], []⟩]).2 (.protobuf ⟨[], []⟩) (.tail _ (.head _)) nofun
    exact ⟨f, hf, htold (.head _)⟩
  · refine (hexit _ _ _ _ _ _ _ _ _ _ _ hargs hloads).2.2 ?_
    rw [Option.getD_some, hmode]
    exact ⟨_, .tail _ (.head _), differs_int_long⟩

end CommandLine

end SchemaEvolution
