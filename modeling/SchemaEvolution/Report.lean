import SchemaEvolution.RuleSet

namespace SchemaEvolution

structure Report where
  rules : RuleSet
  diffs : List Diff
  deriving DecidableEq, Repr

namespace Report

def isEmpty (r : Report) : Bool := r.diffs.isEmpty

def size (r : Report) : Nat := r.diffs.length

def kinds (r : Report) : List DiffKind := r.diffs.map (·.kind)

def contains (r : Report) (k : DiffKind) : Bool := r.diffs.any (·.kind == k)

def text (r : Report) : String := "; ".intercalate (r.diffs.map Diff.text)

def of (R : RuleSet) (found : List Diff) : Report := ⟨R, found.filter fun d => R.disallows d.kind⟩

@[simp] theorem of_rules (R : RuleSet) (found : List Diff) : (of R found).rules = R := rfl

@[simp] theorem of_append (R : RuleSet) (xs ys : List Diff) :
    (of R (xs ++ ys)).diffs = (of R xs).diffs ++ (of R ys).diffs := by
  simp [of]

end Report

structure Collector where
  rules : RuleSet
  kept : List Diff
  dropped : Nat
  deriving DecidableEq, Repr

namespace Collector

def empty (R : RuleSet) : Collector := ⟨R, [], 0⟩

def push (c : Collector) (d : Diff) : Collector :=
  if c.rules.disallows d.kind then { c with kept := c.kept ++ [d] }
  else { c with dropped := c.dropped + 1 }

def extend (c : Collector) (ds : List Diff) : Collector := ds.foldl push c

def report (c : Collector) : Report := ⟨c.rules, c.kept⟩

@[simp] theorem push_rules (c : Collector) (d : Diff) : (c.push d).rules = c.rules := by
  unfold push; split <;> rfl

theorem extend_eq (c : Collector) (ds : List Diff) :
    c.extend ds =
      ⟨c.rules, c.kept ++ ds.filter (fun d => c.rules.disallows d.kind),
        c.dropped + (ds.filter fun d => !c.rules.disallows d.kind).length⟩ := by
  induction ds generalizing c with
  | nil => simp [extend]
  | cons d ds ih =>
    change (c.push d).extend ds = _
    rw [ih, push_rules]
    by_cases h : c.rules.disallows d.kind
    · simp [push, h]
    · simp [push, h]; omega

@[simp] theorem report_extend (R : RuleSet) (ds : List Diff) :
    ((empty R).extend ds).report = Report.of R ds := by
  simp [extend_eq, empty, report, Report.of]

end Collector

end SchemaEvolution
