import SchemaEvolution.Proofs.CommandLine.Checked

namespace SchemaEvolution.CommandLine

def untagged (line : String) : String :=
  String.ofList ((line.toList.dropWhile (· ≠ ' ')).drop 1)

theorem blank_notMem_tag (k : DiffKind) : ' ' ∉ k.tag.toList := by
  cases k <;> decide +kernel

@[simp] theorem untagged_diffLine (d : Diff) : untagged (diffLine d) = d.text := by
  have hline : (diffLine d).toList =
      ('[' :: d.kind.tag.toList ++ [']']) ++ ' ' :: d.text.toList := by
    simp [diffLine]
  have htag : ∀ c ∈ '[' :: d.kind.tag.toList ++ [']'], decide (c ≠ ' ') = true := by
    intro c hc
    rw [List.mem_append, List.mem_cons, List.mem_singleton] at hc
    obtain (rfl | hc) | rfl := hc
    · rfl
    · exact decide_eq_true (ne_of_mem_of_not_mem hc (blank_notMem_tag d.kind))
    · rfl
  rw [untagged, hline, List.dropWhile_append_of_pos htag]
  simp

def listing (r : Report) : Result := ⟨r.isEmpty, r.diffs.map diffLine⟩

/-- Answers of a check and of a listing that have read the same files: both failed in reading, or both
tell one report. -/
inductive Agree : Except CommandError Result → Except CommandError Result → Prop
  | failed (e : CommandError) : Agree (.error e) (.error e)
  | compared (r : Report) : Agree (.ok (verdict r.outcome)) (.ok (listing r))

namespace Agree

variable {x y : Except CommandError Result}

theorem exitCode_eq (h : Agree x y) :
    (Response.ofResult x).exitCode = (Response.ofResult y).exitCode := by
  cases h with
  | failed e => rfl
  | compared r =>
    unfold Report.outcome
    cases hr : r.isEmpty <;> simp [Response.ofResult, verdict, listing, hr]

theorem error_eq (h : Agree x y) : (Response.ofResult x).error = (Response.ofResult y).error := by
  cases h with
  | failed e => rfl
  | compared r => rfl

theorem output_eq (h : Agree x y) (hcode : (Response.ofResult x).exitCode = 1) :
    (Response.ofResult x).output =
      ["incompatible: " ++ "; ".intercalate ((Response.ofResult y).output.map untagged)] := by
  cases h with
  | failed e => cases hcode
  | compared r =>
    unfold Report.outcome at hcode ⊢
    cases hr : r.isEmpty with
    | true => simp [hr, verdict, Response.ofResult] at hcode
    | false =>
      have htexts : (r.diffs.map diffLine).map untagged = r.diffs.map Diff.text := by simp
      simp only [Response.ofResult, listing, htexts]
      rfl

end Agree

variable {files : Files} {config : Option String} {given : Option Format} {settings : Config}
  {rules current previous : String} {history : List String} {f : Format} {s t : Schema}

/-- The files hold schemas of the format in force, if one is. -/
def Readable (files : Files) (config : Option String) (given : Option Format)
    (paths : List String) : Prop :=
  ∀ settings f, loadConfig files config = .ok settings → chosenFormat settings given = .ok f →
    ∀ path ∈ paths, ∃ s, loadSchema files f path = .ok s

theorem exists_mapM_eq_ok {α β ε : Type} {g : α → Except ε β} {xs : List α}
    (h : ∀ x ∈ xs, ∃ y, g x = .ok y) : ∃ ys, xs.mapM g = .ok ys := by
  induction xs with
  | nil => exact ⟨[], rfl⟩
  | cons x xs ih =>
    obtain ⟨y, hy⟩ := h x (.head xs)
    obtain ⟨ys, hys⟩ := ih fun z hz => h z (.tail x hz)
    refine ⟨y :: ys, ?_⟩
    rw [List.mapM_cons, hy, hys]
    rfl

theorem runDiff_eq (hrules : RuleSet.ofName? rules = some .backward)
    (hf : chosenFormat settings given = .ok f) (hs : loadSchema files f current = .ok s)
    (ht : loadSchema files f previous = .ok t) :
    ∃ r, Schema.compare .backward s t = .ok r ∧
      runDiff files settings given rules current previous = .ok (listing r) := by
  obtain ⟨r, hr⟩ := Schema.exists_compare_of_format_eq .backward
    ((format_of_loadSchema ht).trans (format_of_loadSchema hs).symm)
  refine ⟨r, hr, ?_⟩
  simp only [runDiff, hf, hrules, hs, ht, hr, bind, Except.bind, Except.mapError]
  rfl

theorem runCheck_agrees {mode : Option String}
    (hmode : Mode.ofName (mode.getD settings.mode) = .checked .backward .latest)
    (hrules : RuleSet.ofName? rules = some .backward)
    (hhistory : ∀ f, chosenFormat settings given = .ok f →
      ∀ path ∈ history, ∃ s, loadSchema files f path = .ok s) :
    Agree (runCheck files settings given mode current (previous :: history))
      (runDiff files settings given rules current previous) := by
  cases hf : chosenFormat settings given with
  | error e =>
    simp only [runCheck, runDiff, hf, bind, Except.bind]
    exact .failed e
  | ok f =>
    cases hs : loadSchema files f current with
    | error e =>
      simp only [runCheck, runDiff, hf, hrules, hs, bind, Except.bind]
      exact .failed e
    | ok s =>
      cases ht : loadSchema files f previous with
      | error e =>
        simp only [runCheck, runDiff, hf, hrules, hs, ht, List.mapM_cons, bind, Except.bind]
        exact .failed e
      | ok t =>
        obtain ⟨vs, hvs⟩ := exists_mapM_eq_ok (hhistory f hf)
        have hall : (previous :: history).mapM (loadSchema files f) = .ok (t :: vs) := by
          rw [List.mapM_cons, ht, hvs]
          rfl
        obtain ⟨r, hr, hdiff⟩ := runDiff_eq hrules hf hs ht
        rw [runCheck_eq hf hs hall, hdiff, hmode, Mode.check, Direction.outcome,
          Schema.backward_eq_outcome hr]
        exact .compared r

/-- A backward check and a listing of the same two versions exit with one code and fail with one
message, and the check tells the changes of the listing without their tags. A forward check has the
verdict of the listing with the roles of the two files exchanged. -/
theorem check_agrees_with_diff (files : Files) (stamp : Stamp) (config : Option String)
    (given : Option Format) (current previous : String) :
    (∀ (checkArgs diffArgs : List String) (mode rules : String) (history : List String),
      parse? checkArgs =
        some (.run config (.check given (some mode) current (previous :: history))) →
      parse? diffArgs = some (.run config (.diff given rules current previous)) →
      Mode.ofName mode = .checked .backward .latest → RuleSet.ofName? rules = some .backward →
      Readable files config given history →
      let check := run files stamp checkArgs
      let diff := run files stamp diffArgs
      check.exitCode = diff.exitCode ∧ check.error = diff.error ∧
        (check.exitCode = 1 → check.output =
          ["incompatible: " ++ "; ".intercalate (diff.output.map untagged)])) ∧
    ∀ (checkArgs diffArgs : List String) (mode rules : String) (settings : Config) (s t : Schema),
      parse? checkArgs = some (.run config (.check given (some mode) current [previous])) →
      parse? diffArgs = some (.run config (.diff given rules previous current)) →
      Mode.ofName mode = .checked .forward .latest → RuleSet.ofName? rules = some .backward →
      Loads files config given [current, previous] settings [s, t] →
      let check := run files stamp checkArgs
      let diff := run files stamp diffArgs
      check.exitCode = diff.exitCode ∧ (check.exitCode = 0 ∨ check.exitCode = 1) := by
  constructor
  · intro checkArgs diffArgs mode rules history hcheck hdiff hmode hrules hhistory
    have hagree : Agree
        (runCommand files stamp config (.check given (some mode) current (previous :: history)))
        (runCommand files stamp config (.diff given rules current previous)) := by
      unfold runCommand
      cases hconfig : loadConfig files config with
      | error e => exact .failed e
      | ok settings =>
        exact runCheck_agrees hmode hrules fun f hf => hhistory settings f hconfig hf
    rw [run_eq hcheck, run_eq hdiff]
    exact ⟨hagree.exitCode_eq, hagree.error_eq, hagree.output_eq⟩
  · intro checkArgs diffArgs mode rules settings s t hcheck hdiff hmode hrules hloads
    -- The two commands read the files in opposite orders, so nothing is said here of a file that
    -- cannot be read.
    obtain ⟨f, hf, hs, hschemas⟩ := hloads.exists_format
    obtain ⟨t', ht, hschemas⟩ := bind_eq_ok hschemas
    cases hschemas
    obtain ⟨r, hr, hlisting⟩ := runDiff_eq hrules hf ht hs
    have hagree : Agree (.ok (verdict (Mode.check (.checked .forward .latest) s [t])))
        (runCommand files stamp config (.diff given rules previous current)) := by
      have hrun : runCommand files stamp config (.diff given rules previous current) =
          .ok (listing r) := by
        rw [runCommand, hloads.config]
        exact hlisting
      rw [hrun, Mode.check, Direction.outcome, Schema.backward_eq_outcome hr]
      exact .compared r
    rw [run_check_eq hcheck hloads, run_eq hdiff, Option.getD_some, hmode]
    exact ⟨hagree.exitCode_eq, exitCode_verdict _⟩

def latestCheck : List String :=
  ["check", "--format", "avro", "--mode", "BACKWARD", "int", "long", "int"]

def forwardCheck : List String := ["check", "--format", "avro", "--mode", "FORWARD", "long", "int"]

def plainListing : List String := ["diff", "--format", "avro", "--rules", "backward", "int", "long"]

theorem check_agrees_with_diff_plainFiles :
    let check := run plainFiles ⟨"", ""⟩ latestCheck
    let diff := run plainFiles ⟨"", ""⟩ plainListing
    check.exitCode = 1 ∧ diff.exitCode = 1 ∧
      check.output = ["incompatible: " ++ "; ".intercalate (diff.output.map untagged)] ∧
      (run plainFiles ⟨"", ""⟩ forwardCheck).exitCode = 1 := by
  obtain ⟨hint, hlong⟩ := loadSchema_plainFiles
  have hlisting : parse? plainListing =
      some (.run none (.diff (some .avro) "backward" "int" "long")) := by decide +kernel
  have hbackward : Mode.ofName "BACKWARD" = .checked .backward .latest := by decide +kernel
  have hlatest : parse? latestCheck =
      some (.run none (.check (some .avro) (some "BACKWARD") "int" ["long", "int"])) := by
    decide +kernel
  have hloads : Loads plainFiles none (some .avro) ["int", "long", "int"] .standard
      [.avro (.plain .int), .avro (.plain .long), .avro (.plain .int)] := by
    refine ⟨rfl, .avro, rfl, ?_⟩
    simp only [List.mapM_cons, List.mapM_nil, hint, hlong]
    rfl
  have hcode : (run plainFiles ⟨"", ""⟩ latestCheck).exitCode = 1 := by
    rw [run_check_eq hlatest hloads, exitCode_verdict_eq_one_iff,
      ← Mode.differs_iff _ hloads.format_eq, Option.getD_some, hbackward]
    exact ⟨_, .head _, differs_int_long⟩
  obtain ⟨hsame, -, houtput⟩ := (check_agrees_with_diff plainFiles ⟨"", ""⟩ none (some .avro) "int"
    "long").1 latestCheck plainListing "BACKWARD" "backward" ["int"] hlatest hlisting hbackward
    (by decide +kernel) (by
      intro settings f hsettings hf path hpath
      cases hsettings
      cases hf
      exact List.mem_singleton.1 hpath ▸ ⟨_, hint⟩)
  obtain ⟨hforward, -⟩ := (check_agrees_with_diff plainFiles ⟨"", ""⟩ none (some .avro) "long"
    "int").2 forwardCheck plainListing "FORWARD" "backward" .standard (.avro (.plain .long))
    (.avro (.plain .int)) (by decide +kernel) hlisting (by decide +kernel) (by decide +kernel) (by
      refine ⟨rfl, .avro, rfl, ?_⟩
      simp only [List.mapM_cons, List.mapM_nil, hint, hlong]
      rfl)
  exact ⟨hcode, hsame ▸ hcode, houtput hcode, hforward.trans (hsame ▸ hcode)⟩

end SchemaEvolution.CommandLine
