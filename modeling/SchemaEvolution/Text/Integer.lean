namespace SchemaEvolution.Text

def fitsWord (bits : Nat) (n : Int) : Bool :=
  -Int.pow 2 (bits - 1) ≤ n && n < Int.pow 2 (bits - 1)

def integer? (bits : Nat) (s : String) : Option Int :=
  let (negative, ds) := match s.toList with
    | '-' :: ds => (true, ds)
    | '+' :: ds => (false, ds)
    | ds => (false, ds)
  if ds.isEmpty || !ds.all Char.isDigit then none
  else
    let n : Int := Nat.ofDigitChars 10 ds 0
    let n := if negative then -n else n
    if fitsWord bits n then some n else none

theorem fitsWord_of_integer? {bits : Nat} {s : String} {n : Int} (h : integer? bits s = some n) :
    fitsWord bits n := by
  rw [integer?] at h
  obtain ⟨-, h⟩ := Option.ite_none_left_eq_some.1 h
  obtain ⟨hfits, hn⟩ := Option.ite_none_right_eq_some.1 h
  exact Option.some.inj hn ▸ hfits

end SchemaEvolution.Text
