import SchemaEvolution.Proofs.Text.Percent
import SchemaEvolution.Url.Basic

namespace SchemaEvolution.Url

variable {base : Url} {reference : String} {f : List Char}

@[simp] theorem scheme?_hash (cs : List Char) : scheme? ('#' :: cs) = none := by
  unfold scheme? Text.cut?
  rw [List.dropWhile_cons_of_pos (by decide), List.takeWhile_cons_of_pos (by decide)]
  split <;> rfl

@[simp] theorem tail_hash (wellKnown : Bool) (f : List Char) : Tail.of wellKnown ('#' :: f) =
    ⟨[], none, some (Text.Percent.encode escapedInFragment f)⟩ := rfl

theorem fileAddress?_fragment {g : Option (List Char)} (h : isFile base.scheme) :
    fileAddress? (some base) ⟨[], none, g⟩ = some { base with fragment := g } := by
  simp only [fileAddress?, Option.filter_some, h, if_true]
  rfl

theorem join?_fragment (h : cleaned reference.toList = '#' :: f) : base.join? reference =
    some { base with fragment := some (Text.Percent.encode escapedInFragment f) } := by
  unfold join? resolveChars?
  simp only [h, scheme?_hash]
  cases hpath : base.path with
  | solid text => rfl
  | segments parts =>
    simp only [tail_hash]
    split
    next hfile => rw [← hpath]; exact fileAddress?_fragment hfile
    next => rw [← hpath]; rfl

theorem hexValue?_of_isControl {c : Char} (h : isControl c) : Text.hexValue? c = none := by
  simp only [isControl, Bool.or_eq_true, decide_eq_true_eq] at h
  have hle (a b : Char) : a ≤ b ↔ a.toNat ≤ b.toNat := Iff.rfl
  simp only [Text.hexValue?, hle, Char.reduceToNat]
  rw [if_neg (by omega), if_neg (by omega), if_neg (by omega)]

theorem hexValue?_of_escapedInFragment {c : Char} (h : escapedInFragment c) :
    Text.hexValue? c = none := by
  have hmarks : (" \"<>\x60".toList.all fun d => (Text.hexValue? d).isNone) = true := by decide
  obtain h | h := Bool.or_eq_true_iff.1 h
  · exact hexValue?_of_isControl h
  · exact Option.isNone_iff_eq_none.1 (List.all_eq_true.1 hmarks c (List.contains_iff_mem.1 h))

theorem decode_fragment (f : List Char) :
    Text.Percent.decode (Text.Percent.encode escapedInFragment f) = Text.Percent.decode f :=
  Text.Percent.decode_encode (by decide) (fun _ => hexValue?_of_escapedInFragment) f

end SchemaEvolution.Url
